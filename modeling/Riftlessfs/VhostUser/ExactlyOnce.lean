import Riftlessfs.VhostUser.QueueOrder
import Riftlessfs.VhostUser.ServeFrame

/-! Every head the guest publishes comes back once and in order, whatever the order in which guest
and server take their steps. -/
namespace Riftlessfs.VhostUser
open Lib.Flat Lib.LittleEndian Lib.Effect Lib.Ring Lib.Run Riftlessfs.Core Riftlessfs.Proto Riftlessfs.Fuse

namespace Pair

section Runs
variable {s s' : Pair} {a : Act} {base : ℕ}

private theorem step_inOrder {taken served waiting : List UInt16} (hl : s.Laid)
    (h : s.InOrder base taken served waiting) (ho : s.Orderly a) (hs : s.step a = some s') :
    SameQueue s s' ∧ ∃ taken' served' waiting', s'.InOrder base taken' served' waiting' := by
  cases a with
  | offer head =>
    obtain ⟨hq, h'⟩ := offer_inOrder hl h hs
    exact ⟨hq, taken, served, waiting, h'⟩
  | publish =>
    obtain ⟨hq, h'⟩ := publish_inOrder hl h hs
    exact ⟨hq, taken, served, _, h'⟩
  | consume =>
    obtain ⟨hq, taken', served', h'⟩ := consume_inOrder hl h hs
    exact ⟨hq, taken', served', waiting, h'⟩
  | touch p bs =>
    cases hs
    have hsame : SameBeyond (fun x => p ≤ x ∧ x < p + bs.length) s.mem (s.mem.poke p bs) := by
      constructor
      · rfl
      · intro x hx
        apply store_outside
        omega
    have hclear : ∀ x, p ≤ x ∧ x < p + bs.length → ClearOfRings s.mem s.vq x 1 := by
      intro x hx addr len q hring hq
      have hapart := ho addr len q hring hq
      unfold Apart at hapart ⊢
      omega
    refine ⟨⟨rfl, rfl⟩, taken, served, waiting, ?_⟩
    exact h.kept { s.device with mem := s.mem.poke p bs } s.turn (view_kept hsame hclear) rfl
  | serve env =>
    obtain ⟨hq, served', waiting', h'⟩ := serve_inOrder hl h ho hs
    exact ⟨hq, taken, served', waiting', h'⟩

theorem Fresh.inOrder (h : s.Fresh) : s.InOrder s.vq.lastAvailIdx.toNat [] [] [] := by
  have hserving : s.serving = [] := by
    unfold serving
    rw [h.turn]
  have hindex : UInt16.ofNat (s.vq.lastAvailIdx.toNat + 0) = s.vq.lastAvailIdx := UInt16.ofNat_toNat
  constructor
  · rw [h.published, hserving]
    rfl
  · exact h.consumed
  · rw [hserving, h.offered]
    exact Nat.zero_le _
  · rw [h.published]
    exact h.availNext.trans hindex.symm
  · exact h.usedNext.trans hindex.symm
  · rw [hserving]
    exact hindex.symm
  · rw [h.published]
    exact h.availIdx.trans (congrArg some hindex.symm)
  · exact h.usedIdx.trans (congrArg some hindex.symm)
  · rw [hserving, h.offered]
    exact holds_nil _ _ _
  · exact holds_nil _ _ _

/-- In every orderly run the queue stays in order. -/
theorem run_inOrder {s₀ : Pair} {xs : List Act} (hl : s₀.Laid) (hf : s₀.Fresh)
    (ho : Along step Orderly s₀ xs) (hs : run step s₀ xs = some s) :
    s.Laid ∧ ∃ taken served waiting, s.InOrder s₀.vq.lastAvailIdx.toNat taken served waiting := by
  induction xs using List.reverseRecOn generalizing s with
  | nil =>
    cases hs
    exact ⟨hl, [], [], [], hf.inOrder⟩
  | append_singleton xs a ih =>
    obtain ⟨s₁, hs₁, hstep⟩ := run_concat_some hs
    obtain ⟨ho₁, hlast⟩ := along_concat.mp ho
    obtain ⟨hl₁, taken, served, waiting, h⟩ := ih ho₁ hs₁
    obtain ⟨hq, h'⟩ := step_inOrder hl₁ h (hlast s₁ hs₁) hstep
    exact ⟨hl₁.kept hq, h'⟩

private theorem usedFrom_eq {served : List UInt32} (hl : s.Laid)
    (h : Holds (s.vq.view s.mem).used s.vq.queueSize.toNat base served) :
    s.usedFrom served.length (.ofNat base) = some served := by
  induction served generalizing base with
  | nil => rfl
  | cons id ids ih =>
    have hfirst := h.head
    rw [← index_cell hl.dvd, view_used hl.pos] at hfirst
    rw [List.length_cons, usedFrom, hfirst, index_succ, ih h.tail]
    rfl

theorem InOrder.unread_eq {taken served waiting : List UInt16} (hl : s.Laid)
    (h : s.InOrder base taken served waiting) : s.unread = some (served.map UInt16.toUInt32) := by
  have hsize := s.vq.queueSize.toNat_lt
  have hroom := h.room
  have hidx : s.mem.readU16 .user (s.vq.usedAddr + 2) =
      some (.ofNat (base + taken.length + served.length)) := h.usedIdx
  have hcount : (UInt16.ofNat (base + taken.length + served.length) - s.usedNext).toNat =
      (served.map UInt16.toUInt32).length := by
    rw [h.usedNext, List.length_map]
    exact index_sub _ (by omega)
  unfold unread
  rw [hidx, Option.bind_eq_bind, Option.bind_some, hcount, h.usedNext]
  exact usedFrom_eq hl h.used

end Runs

end Pair

/-- However guest and server take their steps, what the guest consumes, and what the used ring then
still holds for it, is a beginning of what it published; and when `process_vring` returns it is
all of it. -/
theorem exactly_once (s₀ s : Pair) (xs : List Act) (hf : s₀.Fresh) (hl : s₀.Laid)
    (ho : Along Pair.step Pair.Orderly s₀ xs) (hrun : run Pair.step s₀ xs = some s) :
    s.consumed <+: s.published.map UInt16.toUInt32 ∧
      ∃ unread, s.unread = some unread ∧
        s.consumed ++ unread <+: s.published.map UInt16.toUInt32 ∧
        ∀ env s', s.turn = some .popAvail → s.step (.serve env) = some s' → s'.turn = none →
          s.consumed ++ unread = s.published.map UInt16.toUInt32 := by
  obtain ⟨hlaid, taken, served, waiting, h⟩ := Pair.run_inOrder hl hf ho hrun
  have hmap : s.published.map UInt16.toUInt32 = s.consumed ++ (served.map UInt16.toUInt32 ++
      (s.serving ++ waiting).map UInt16.toUInt32) := by
    rw [h.published, h.consumed, List.map_append, List.map_append]
  refine ⟨⟨_, hmap.symm⟩, served.map UInt16.toUInt32, h.unread_eq hlaid, ?_, ?_⟩
  · rw [hmap, ← List.append_assoc]
    exact List.prefix_append _ _
  · intro env s' hturn hs hend
    rw [hmap, h.returns hturn hs hend, List.map_nil, List.append_nil]

/-- Small memory with a request, and a queue of four whose indices are about to wrap. Heads 0 and 2
are chains over the same buffers. -/
def wrapImage : Bytes :=
  (ringImage getattrRoot).take 96 ++
    (leBytes 8 0x1000 ++ leBytes 4 56 ++ leBytes 2 1 ++ leBytes 2 3) ++
    (leBytes 8 0x1800 ++ leBytes 4 200 ++ leBytes 2 2 ++ leBytes 2 0) ++
    [0, 0, 0xff, 0xff] ++ List.replicate 12 0 ++ [0, 0, 0xff, 0xff]

def wrapPair : Pair where
  device := smallDevice wrapImage
  vq := { ringQueue with lastAvailIdx := 0xffff }
  turn := none
  availNext := 0xffff
  usedNext := 0xffff
  offered := none
  published := []
  consumed := []

/-- The guest writes nothing but the rings, and the server serves a chain whose only writable buffer
is that of the image. -/
def plainBuffers (s : Pair) : Act → Bool
  | .touch _ _ => false
  | .serve _ => match s.turn with
    | some (.service _ chain) => chain.writable = ringChain.writable ∧
      s.mem.regions = (smallMemory []).regions ∧
      s.vq = { ringQueue with lastAvailIdx := s.vq.lastAvailIdx }
    | _ => true
  | _ => true

private theorem plainBuffers_orderly (s : Pair) (a : Act) (h : plainBuffers s a = true) :
    s.Orderly a := by
  cases a with
  | offer head => trivial
  | publish => trivial
  | consume => trivial
  | touch p bs => cases h
  | serve env =>
    intro head chain hturn x hx addr len q hring hq
    unfold plainBuffers at h
    rw [hturn] at h
    simp only [decide_eq_true_eq] at h
    obtain ⟨hchain, hregions, hvq⟩ := h
    rw [hchain] at hx
    obtain ⟨seg, hseg, o, n, p, hpart, hp, hlow, hhigh⟩ := hx
    rw [List.mem_singleton.mp hseg] at hpart hp
    obtain ⟨r, hr, hbase, -, rfl⟩ := slicePtr_some hp
    obtain ⟨r', hr', hbase', -, rfl⟩ := slicePtr_some hq
    rw [hregions] at hr hr'
    rw [List.mem_singleton.mp hr] at hbase hlow hhigh
    rw [List.mem_singleton.mp hr'] at hbase' ⊢
    rw [hvq] at hring
    have hpart' : o.toNat + n.toNat ≤ 200 := hpart
    have hring' : ringQueue.InRings addr len := hring
    obtain ⟨off, hring'⟩ := hring'
    have havail : ringQueue.availAddr.toNat = 0x10080 := rfl
    have hused : ringQueue.usedAddr.toNat = 0x10090 := rfl
    have hsize : ringQueue.queueSize.toNat = 4 := rfl
    have haddr : addr.toNat + len.toNat ≤ 0x10090 + 0x100 := by
      rcases hring' with ⟨rfl, h⟩ | ⟨rfl, h⟩
      · rw [UInt64.toNat_add]
        omega
      · rw [UInt64.toNat_add]
        omega
    have hstart : ((0x1800 : UInt64) + o).toNat = 0x1800 + o.toNat := by
      have hbase : (0x1800 : UInt64).toNat = 0x1800 := rfl
      rw [UInt64.toNat_add]
      omega
    have hgpa : (Region.baseFor ⟨0x1000, 0x10000, 0x1000, 0x4000, 0x4000, 0x1000⟩
        AddrSpace.gpa).toNat = 0x1000 := rfl
    have huser : (Region.baseFor ⟨0x1000, 0x10000, 0x1000, 0x4000, 0x4000, 0x1000⟩
        AddrSpace.user).toNat = 0x10000 := rfl
    rw [hgpa, hstart] at hlow
    rw [huser] at hbase' ⊢
    simp only at hlow hbase' ⊢
    unfold Apart
    omega

/-- Two heads are published, the later one while the server is at the first; both are served and
consumed. -/
def wrapActs : List Act :=
  [.offer 2, .publish] ++ List.replicate 2 (.serve (calm 20 [])) ++ [.offer 0, .publish] ++
    List.replicate 8 (.serve (calm 20 [])) ++ [.consume, .consume]

private theorem wrapPair_fresh : wrapPair.Fresh := by
  constructor
  · rfl
  · rfl
  · rfl
  · rfl
  · rfl
  · rfl
  · decide +kernel
  · decide +kernel

private theorem wrapPair_laid : wrapPair.Laid := by
  constructor
  · exact smallMemory_hostApart wrapImage
  · constructor
    · decide
    · decide
    · decide
  · exact ⟨2, by decide, rfl⟩

/-- Of two heads published across the wrap the first comes back first. -/
theorem exactly_once_wrap : ∃ s, run Pair.step wrapPair wrapActs = some s ∧ s.usedNext = 1 ∧
    s.published = [2, 0] ∧ s.consumed = [2, 0] ∧
    s.consumed <+: s.published.map UInt16.toUInt32 := by
  have hlogs : (run Pair.step wrapPair wrapActs).map
      (fun s => (s.usedNext, s.published, s.consumed)) = some (1, [2, 0], [2, 0]) := by
    decide +kernel
  have hplain : Along Pair.step (fun s a => plainBuffers s a = true) wrapPair wrapActs := by
    decide +kernel
  obtain ⟨s, hrun, hs⟩ := Option.map_eq_some_iff.mp hlogs
  obtain ⟨hnext, hlists⟩ := Prod.mk.inj hs
  obtain ⟨hpublished, hconsumed⟩ := Prod.mk.inj hlists
  have horderly := hplain.mono plainBuffers_orderly
  obtain ⟨hinits, -⟩ := exactly_once wrapPair s _ wrapPair_fresh wrapPair_laid horderly hrun
  exact ⟨s, hrun, hnext, hpublished, hconsumed, hinits⟩

end Riftlessfs.VhostUser
