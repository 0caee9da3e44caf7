import Riftlessfs.Fuse.SessionRuns
import Riftlessfs.Core.NodeExact

/-! Node identity over runs of requests. -/
namespace Riftlessfs.Fuse
open Riftlessfs.Core Lib.Run

/-- In a run of steady requests every live inode denotes its own file throughout. -/
theorem node_identity {host : Host} {root : FileKey} {w : World}
    (hfd : ∀ fd ∈ host.fds, fd.num < host.nextFd)
    (hnew : PassthroughFs.new host root = some w) (xs : List Input) (hlen : xs.length < 2 ^ 63)
    (hc : Along Session.step (fun s x => Steady s.world x.call) (.new w) xs) :
    ∀ ys, ys <+: xs → ∃ s, run Session.step (.new w) ys = some s ∧ NodeExact s.world := by
  intro ys hys
  obtain ⟨-, -, -, -, ⟨fd, -, -, honly⟩, -, hb⟩ := new_cases hnew
  have hl : Located w.view := by
    intro id d p pd k hd hp hpd ht
    rw [(honly id d hd).2.2.2.1] at hp
    cases hp
  have hlen' : (ys.map Input.call).length + 3 < 2 ^ 64 := by
    have := hys.length_le
    rw [List.length_map]
    omega
  obtain ⟨w', hrun, hs', hl'⟩ := run_located (Sound.start hfd hnew) hb hl hlen'
    (along_map Session.step_world (hc.of_prefix hys))
  obtain ⟨s, hrun', rfl⟩ := Session.run_world (s := .new w) hrun
  exact ⟨s, hrun', hl'.nodeExact hs'⟩

/-- `CREATE x`, `UNLINK x`, `CREATE x` again. The first file's node is still live. -/
def staleRun : List Input :=
  [(calm 20 [], encodeRequest 35 1 [2, 0, 0, 0, 0xa4, 1, 0, 0, 0, 0, 0, 0, 0, 0, 0, 0, 120, 0]),
   (calm 21 [], encodeRequest 10 1 [120, 0]),
   (calm 21 [], encodeRequest 35 1 [2, 0, 0, 0, 0xa4, 1, 0, 0, 0, 0, 0, 0, 0, 0, 0, 0, 120, 0])]

/-- `OPEN` of the first file's node, for writing and truncating. -/
def staleOpen : Input := (calm 22 [], encodeRequest 14 2 [2, 2, 0, 0, 0, 0, 0, 0])

/-- Opening the node of the removed file opens and truncates the new one. -/
theorem stale_node_opens_other : ∃ s s' d fd,
    PassthroughFs.new smallHost ⟨1, 10⟩ = some smallWorld ∧
    Along Session.step (fun s x => Tame s.world x.call) (.new smallWorld)
      (staleRun ++ [staleOpen]) ∧
    run Session.step (.new smallWorld) staleRun = some s ∧ s.step staleOpen = some s' ∧
    s.world.inodes.byId 2 = some d ∧ s.world.handles.handles 3 = none ∧
    s'.world.handles.handles 3 = some (.file fd) ∧ fd.file ≠ d.key ∧
    s'.world.host.log = s.world.host.log ++ [⟨.opened, fd.file⟩, ⟨.truncated, fd.file⟩] := by
  have hbefore : (run Session.step (.new smallWorld) staleRun).map (fun s =>
      ((s.world.inodes.byId 2).map InodeData.key, s.world.handles.handles 3,
        s.world.host.log.length)) = some (some ⟨1, 20⟩, none, 7) := by
    decide +kernel
  have hafter : (run Session.step (.new smallWorld) (staleRun ++ [staleOpen])).map (fun s =>
      (s.world.handles.handles 3, s.world.host.log.drop 7)) =
      some (some (.file ⟨8, ⟨1, 21⟩, O_RDWR ||| O_TRUNC⟩),
        [⟨.opened, ⟨1, 21⟩⟩, ⟨.truncated, ⟨1, 21⟩⟩]) := by
    decide +kernel
  have hinits : ((run Session.step (.new smallWorld) staleRun).bind fun s =>
      (s.step staleOpen).map fun s' => decide (s'.world.host.log.take 7 = s.world.host.log)) =
      some true := by
    decide +kernel
  obtain ⟨s, hs, hfacts⟩ := Option.map_eq_some_iff.mp hbefore
  rw [run_concat, hs, Option.bind_some] at hafter
  obtain ⟨s', hs', hfacts'⟩ := Option.map_eq_some_iff.mp hafter
  rw [hs, Option.bind_some, hs', Option.map_some, Option.some.injEq, decide_eq_true_eq] at hinits
  simp only [Prod.mk.injEq, Option.map_eq_some_iff] at hfacts hfacts'
  obtain ⟨⟨d, hd, hkey⟩, hnone, -⟩ := hfacts
  refine ⟨s, s', d, _, smallWorld_new, by decide +kernel, hs, hs', hd, hnone, hfacts'.1, ?_, ?_⟩
  · rw [hkey]
    decide
  · rw [← hinits, ← hfacts'.2, List.take_append_drop]

/-- `CREATE x`, `RENAME x y`, `OPEN` of its node: identity is kept throughout. -/
theorem node_identity_rename : ∃ xs : List Input, xs.length = 3 ∧ ∀ ys, ys <+: xs →
    ∃ s, run Session.step (.new smallWorld) ys = some s ∧ NodeExact s.world := by
  let xs : List Input :=
    [(calm 20 [], encodeRequest 35 1
        [2, 0, 0, 0, 0xa4, 1, 0, 0, 0, 0, 0, 0, 0, 0, 0, 0, 120, 0]),
     (calm 21 [1, 2], encodeRequest 12 1 [1, 0, 0, 0, 0, 0, 0, 0, 120, 0, 121, 0]),
     (calm 21 [], encodeRequest 14 2 [2, 0, 0, 0, 0, 0, 0, 0])]
  exact ⟨xs, rfl, node_identity (by decide) smallWorld_new xs (by decide) (by decide +kernel)⟩

end Riftlessfs.Fuse
