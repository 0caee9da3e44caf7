import Riftlessfs.Fuse.SessionRuns
import Riftlessfs.Core.Enclosure

/-! Containment in the shared directory over runs of requests. -/
namespace Riftlessfs.Fuse
open Riftlessfs.Core Lib Lib.Run

/-- In a run of confined requests every request acts inside the shared directory. -/
theorem run_contained {host : Host} {root : FileKey} {w : World}
    (hfd : ∀ fd ∈ host.fds, fd.num < host.nextFd) (hwf : host.graph.WF)
    (hborder : host.Bordered root)
    (hnew : PassthroughFs.new host root = some w) (xs : List Input) (hlen : xs.length < 2 ^ 63)
    (hc : Along Session.step (fun s x => Confined s.world x.call) (.new w) xs) :
    ∀ ys x, ys ++ [x] <+: xs → ∃ s s', run Session.step (.new w) ys = some s ∧
      s.step x = some s' ∧ Contained root s.world s'.world := by
  intro ys x hys
  obtain ⟨-, -, -, -, -, -, hb⟩ := new_cases hnew
  have hlen' : (ys.map Input.call).length + 4 < 2 ^ 64 := by
    have := hys.length_le
    rw [List.length_append, List.length_singleton] at this
    rw [List.length_map]
    omega
  have hsteps := along_concat.mp (hc.of_prefix hys)
  obtain ⟨w₁, hrun, hs₁, hb₁, hi₁, hc₁⟩ := run_enclosed (Sound.start hfd hnew) hb
    (Inside.start hwf hnew) (Enclosed.start hborder hnew) (by omega) (along_map Session.step_world hsteps.1)
  obtain ⟨s, hrun', rfl⟩ := Session.run_world (s := .new w) hrun
  have hx := hsteps.2 s hrun'
  obtain ⟨w₂, evs, hstep, ho, -⟩ := step_outcome hs₁ hb₁ (by omega) hx.tame
  rw [← Session.step_world, Option.map_eq_some_iff] at hstep
  obtain ⟨s', hs', rfl⟩ := hstep
  exact ⟨s, s', hrun', hs', ho.contained hx.1 hs₁ hi₁ hc₁⟩

theorem smallHost_leaf : smallHost.graph.Leaf ⟨1, 10⟩ :=
  Host.leaf_of_isEmptyDir (by decide +kernel)

private theorem smallHost_bordered : smallHost.Bordered ⟨1, 10⟩ :=
  fun _ hreach hne => absurd (hreach.eq_of_leaf smallHost_leaf) hne

def escape : Input := (calm 20 [], encodeRequest 1 1 [46, 46, 0])

theorem lookup_dotdot_escapes : ∃ s' d, PassthroughFs.new smallHost ⟨1, 10⟩ = some smallWorld ∧
    Session.step (.new smallWorld) escape = some s' ∧
    s'.world.inodes.byId 2 = some d ∧ d.key = smallHost.top ∧
    ¬ Contained ⟨1, 10⟩ smallWorld s'.world := by
  have hfacts : (Session.step (.new smallWorld) escape).map (fun s =>
      (s.world.inodes.byId 2).map InodeData.key) = some (some ⟨1, 2⟩) := by
    decide +kernel
  obtain ⟨s', hs', hinode⟩ := Option.map_eq_some_iff.mp hfacts
  obtain ⟨d, hd, hkey⟩ := Option.map_eq_some_iff.mp hinode
  refine ⟨s', d, smallWorld_new, hs', hd, hkey, fun hcont => ?_⟩
  -- the new inode is of the parent, which is not below the shared directory and is not new
  rcases hcont.inodes 2 d hd with ⟨d₀, hd₀, -⟩ | hreach | ⟨hunused, -⟩
  · have hnone : smallWorld.inodes.byId 2 = none := by decide +kernel
    rw [hnone] at hd₀
    cases hd₀
  · have heq := hreach.eq_of_leaf smallHost_leaf
    rw [hkey] at heq
    exact absurd heq (by decide)
  · have hused : smallWorld.host.inUse ⟨1, 2⟩ = true := by decide +kernel
    rw [hkey, hused] at hunused
    cases hunused

/-- `MKDIR d`, `CREATE f` in it, `RENAME` it back up: all inside. -/
theorem run_contained_mkdir : ∃ xs : List Input, xs.length = 3 ∧
    ∀ ys x, ys ++ [x] <+: xs → ∃ s s', run Session.step (.new smallWorld) ys = some s ∧
      s.step x = some s' ∧ Contained ⟨1, 10⟩ s.world s'.world := by
  let xs : List Input :=
    [(calm 20 [], encodeRequest 9 1 [0xed, 1, 0, 0, 0, 0, 0, 0, 100, 0]),
     (calm 21 [], encodeRequest 35 2
        [2, 0, 0, 0, 0xa4, 1, 0, 0, 0, 0, 0, 0, 0, 0, 0, 0, 102, 0]),
     (calm 22 [1, 2, 3], encodeRequest 12 2 [1, 0, 0, 0, 0, 0, 0, 0, 102, 0, 103, 0])]
  exact ⟨xs, rfl, run_contained (by decide) (Host.graph_wf (by decide +kernel)) smallHost_bordered
    smallWorld_new xs (by decide) (by decide +kernel)⟩

end Riftlessfs.Fuse
