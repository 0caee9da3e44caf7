import Riftlessfs.VhostUser.QueuePair

/-! Each step of the guest and of the server keeps the published heads in order. -/
namespace Riftlessfs.VhostUser
open Lib.Flat Lib.Effect Lib.Ring Lib.Run Riftlessfs.Core Riftlessfs.Proto Riftlessfs.Fuse

namespace Pair

section Layout
variable {s s' : Pair} {a : Act} {env : Env}

structure SameQueue (s s' : Pair) : Prop where
  regions : s'.mem.regions = s.mem.regions
  queue : s'.vq = { s.vq with lastAvailIdx := s'.vq.lastAvailIdx }

theorem Laid.kept (h : s.Laid) (hq : SameQueue s s') : s'.Laid := by
  constructor
  · unfold GuestMemory.HostApart
    rw [hq.regions]
    exact h.hostApart
  · rw [hq.queue]
    exact ⟨h.ringsApart.avail, h.ringsApart.used, h.ringsApart.apart⟩
  · rw [hq.queue]
    exact h.size

theorem Laid.dvd (h : s.Laid) : s.vq.queueSize.toNat ∣ 2 ^ 16 := by
  obtain ⟨k, hk, hsize⟩ := h.size
  rw [hsize]
  exact Nat.pow_dvd_pow 2 (by omega)

theorem Laid.pos (h : s.Laid) : s.vq.queueSize ≠ 0 := by
  obtain ⟨k, hk, hsize⟩ := h.size
  intro hzero
  rw [hzero] at hsize
  exact absurd hsize.symm (Nat.pow_pos (by decide)).ne'

end Layout

section Guest
variable {s s' : Pair} {base : ℕ} {taken served waiting : List UInt16} {head : UInt16}

theorem onGuest_some {m : MemM Unit} (h : s.onGuest m = some s') :
    ∃ mem, m s.mem = .ok () mem ∧ s' = { s with device := { s.device with mem := mem } } := by
  unfold onGuest at h
  split at h
  · rename_i mem hmem
    exact ⟨mem, hmem, (Option.some.inj h).symm⟩
  · cases h

theorem offer_inOrder (hl : s.Laid) (h : s.InOrder base taken served waiting)
    (hs : s.offer head = some s') :
    SameQueue s s' ∧ s'.InOrder base taken served waiting := by
  unfold offer at hs
  split_ifs at hs with hguard
  obtain ⟨hnone, hfew⟩ := hguard
  obtain ⟨s₁, hwrite, rfl⟩ := Option.map_eq_some_iff.mp hs
  obtain ⟨mem, hmem, rfl⟩ := onGuest_some hwrite
  obtain ⟨hregions, hview⟩ := view_offered hl.hostApart hl.ringsApart hl.pos hmem
  have hcount := congrArg List.length h.published
  simp only [List.length_append] at hcount
  rw [h.consumed, List.length_map] at hfew
  have havail := h.avail
  rw [hnone, Option.toList_none, List.append_nil] at havail
  have hcell : (s.availNext % s.vq.queueSize).toNat =
      (base + taken.length + served.length + s.serving.length + waiting.length) %
        s.vq.queueSize.toNat := by
    rw [h.availNext, index_cell hl.dvd]
    congr 1
    omega
  have hheld := havail.snoc (by omega) head
  rw [← hcell] at hheld
  refine ⟨⟨hregions, rfl⟩, ⟨h.published, h.consumed, ?_, h.availNext, h.usedNext, h.lastAvail, ?_, ?_,
    ?_, ?_⟩⟩
  · show served.length + (s.serving.length + (waiting.length + 1)) ≤ s.vq.queueSize.toNat
    omega
  · show (s.vq.view mem).availIdx = _
    rw [hview]
    exact h.availIdx
  · show (s.vq.view mem).usedIdx = _
    rw [hview]
    exact h.usedIdx
  · show Holds (s.vq.view mem).avail _ _ (waiting ++ [head])
    rw [hview]
    exact hheld
  · show Holds (s.vq.view mem).used _ _ _
    rw [hview]
    exact h.used

theorem publish_inOrder (hl : s.Laid) (h : s.InOrder base taken served waiting)
    (hs : s.publish = some s') :
    SameQueue s s' ∧ s'.InOrder base taken served (waiting ++ s.offered.toList) := by
  unfold publish at hs
  split at hs
  · cases hs
  rename_i head hoffered
  obtain ⟨s₁, hwrite, rfl⟩ := Option.map_eq_some_iff.mp hs
  obtain ⟨mem, hmem, rfl⟩ := onGuest_some hwrite
  obtain ⟨hregions, hview⟩ := view_published hl.hostApart hl.ringsApart hmem
  have hroom := h.room
  have havail := h.avail
  have hnext : s.availNext + 1 = .ofNat (base + (s.published ++ [head]).length) := by
    rw [h.availNext, index_succ, List.length_append]
    rfl
  rw [hoffered, Option.toList_some] at hroom havail ⊢
  refine ⟨⟨hregions, rfl⟩, ⟨?_, h.consumed, ?_, hnext, h.usedNext, h.lastAvail, ?_, ?_, ?_, ?_⟩⟩
  · show s.published ++ [head] = taken ++ (served ++ (s.serving ++ (waiting ++ [head])))
    rw [h.published]
    simp only [List.append_assoc]
  · show served.length + (s.serving.length + ((waiting ++ [head]).length + 0)) ≤ _
    rw [List.length_append]
    exact hroom
  · show (s.vq.view mem).availIdx = _
    rw [hview, ← hnext]
  · show (s.vq.view mem).usedIdx = _
    rw [hview]
    exact h.usedIdx
  · show Holds (s.vq.view mem).avail _ _ ((waiting ++ [head]) ++ [])
    rw [hview, List.append_nil]
    exact havail
  · show Holds (s.vq.view mem).used _ _ _
    rw [hview]
    exact h.used

theorem consume_inOrder (hl : s.Laid) (h : s.InOrder base taken served waiting)
    (hs : s.consume = some s') :
    SameQueue s s' ∧ ∃ taken' served', s'.InOrder base taken' served' waiting := by
  unfold consume at hs
  obtain ⟨idx, hidx, hs⟩ := Option.bind_eq_some_iff.mp hs
  have hused : (s.vq.view s.mem).usedIdx = some idx := hidx
  rw [h.usedIdx] at hused
  cases hused
  split_ifs at hs with hsame
  · cases hs
    exact ⟨⟨rfl, rfl⟩, taken, served, h⟩
  · obtain ⟨id, hid, hs⟩ := Option.bind_eq_some_iff.mp hs
    cases hs
    refine ⟨⟨rfl, rfl⟩, ?_⟩
    cases served with
    | nil =>
      rw [h.usedNext] at hsame
      exact absurd rfl hsame
    | cons x served =>
      have hfirst := h.used.head
      rw [← index_cell hl.dvd, ← h.usedNext, view_used hl.pos, hid] at hfirst
      cases hfirst
      have hroom := h.room
      rw [List.length_cons] at hroom
      have hpos : base + (taken ++ [x]).length = base + taken.length + 1 := by
        rw [List.length_append, List.length_singleton, Nat.add_assoc]
      have hpos' : base + (taken ++ [x]).length + served.length =
          base + taken.length + (x :: served).length := by
        rw [hpos, List.length_cons]
        omega
      refine ⟨taken ++ [x], served, ⟨?_, ?_, ?_, h.availNext, ?_, ?_, h.availIdx, ?_, ?_, ?_⟩⟩
      · rw [h.published]
        simp only [List.append_assoc, List.cons_append, List.nil_append]
        rfl
      · show s.consumed ++ [x.toUInt32] = _
        rw [h.consumed, List.map_append]
        rfl
      · show served.length + (s.serving.length + (waiting.length + s.offered.toList.length)) ≤
          s.vq.queueSize.toNat
        omega
      · show s.usedNext + 1 = _
        rw [h.usedNext, index_succ, hpos]
      · rw [hpos']
        exact h.lastAvail
      · rw [hpos']
        exact h.usedIdx
      · rw [hpos']
        exact h.avail
      · rw [hpos]
        exact h.used.tail

end Guest

section Server
variable {s s' : Pair} {env : Env} {base : ℕ} {taken served waiting : List UInt16}

/-- What leaves the rings, the queue and the guest alone keeps the order. -/
theorem InOrder.kept (h : s.InOrder base taken served waiting) (d : Device) (turn : Option Turn)
    (hview : s.vq.view d.mem = s.vq.view s.mem)
    (hserving : ({ s with turn := turn } : Pair).serving = s.serving) :
    ({ s with device := d, turn := turn } : Pair).InOrder base taken served waiting := by
  have hsame : ({ s with device := d, turn := turn } : Pair).serving = s.serving := hserving
  constructor
  · rw [hsame]
    exact h.published
  · exact h.consumed
  · rw [hsame]
    exact h.room
  · exact h.availNext
  · exact h.usedNext
  · rw [hsame]
    exact h.lastAvail
  · show (s.vq.view d.mem).availIdx = _
    rw [hview]
    exact h.availIdx
  · show (s.vq.view d.mem).usedIdx = _
    rw [hview]
    exact h.usedIdx
  · show Holds (s.vq.view d.mem).avail _ _ _
    rw [hview, hsame]
    exact h.avail
  · show Holds (s.vq.view d.mem).used _ _ _
    rw [hview]
    exact h.used

/-- The index that `pop_avail` compares tells whether a head is waiting. -/
theorem InOrder.waiting_nil (h : s.InOrder base taken served waiting)
    (hidx : s.mem.readU16 .user (s.vq.availAddr + 2) = some s.vq.lastAvailIdx) : waiting = [] := by
  have hcount := congrArg List.length h.published
  simp only [List.length_append] at hcount
  have hsum : base + s.published.length =
      base + taken.length + served.length + s.serving.length + waiting.length := by omega
  have hview : (s.vq.view s.mem).availIdx = some s.vq.lastAvailIdx := hidx
  rw [h.availIdx, h.lastAvail, hsum] at hview
  have hsize := s.vq.queueSize.toNat_lt
  have hroom := h.room
  exact List.eq_nil_of_length_eq_zero (index_inj (by omega) (Option.some.inj hview))

/-- `process_vring` returns when no head is waiting. -/
theorem InOrder.returns (h : s.InOrder base taken served waiting) (hturn : s.turn = some .popAvail)
    (hs : s.serve env = some s') (hend : s'.turn = none) : s.serving ++ waiting = [] := by
  have hserving : s.serving = [] := by
    unfold serving
    rw [hturn]
  unfold serve at hs
  rw [hturn] at hs
  simp only at hs
  split at hs
  · rename_i vq next d hstep
    cases hs
    obtain ⟨⟨head, vq₁⟩, d₁, hpop, hlast⟩ := bind_ok hstep
    cases hlast
    obtain ⟨hres, -⟩ := onPop_ok hpop
    have hnone : head = none := Option.map_eq_none_iff.mp hend
    obtain ⟨idx, hidx, ⟨rfl, -, -⟩ | ⟨-, -, -, hsome, -⟩⟩ := popAvail_ok hres
    · rw [hserving, h.waiting_nil hidx]
      rfl
    · exact absurd hnone hsome
  · cases hs

private theorem pop_inOrder (hl : s.Laid) (h : s.InOrder base taken served waiting)
    (hturn : s.turn = some .popAvail) {vq : Virtqueue} {next : Option Turn} {d : Device}
    (hs : turnStep env s.vq .popAvail s.device = .ok (vq, next) d) :
    SameQueue s { s with device := d, vq := vq, turn := next } ∧
      ∃ waiting', ({ s with device := d, vq := vq, turn := next } : Pair).InOrder base taken served
        waiting' := by
  obtain ⟨⟨head, vq₁⟩, d₁, hpop, hend⟩ := bind_ok hs
  cases hend
  obtain ⟨hres, rfl⟩ := onPop_ok hpop
  have hserving : s.serving = [] := by
    unfold serving
    rw [hturn]
  obtain ⟨idx, hidx, ⟨-, rfl, rfl⟩ | ⟨hmore, -, hhead, hsome, rfl⟩⟩ := popAvail_ok hres
  · refine ⟨⟨rfl, rfl⟩, waiting, ?_⟩
    apply h.kept s.device none rfl
    rw [hserving]
    rfl
  · refine ⟨⟨rfl, rfl⟩, ?_⟩
    have havail := h.avail
    have hlast := h.lastAvail
    have hpublished := h.published
    have hroom := h.room
    rw [hserving] at havail hlast hpublished hroom
    have hlist : (waiting : List UInt16) ≠ [] := by
      intro hnil
      subst hnil
      have hview : (s.vq.view s.mem).availIdx = some idx := hidx
      rw [h.availIdx] at hview
      apply hmore
      rw [← Option.some.inj hview, hlast, hpublished]
      simp [Nat.add_assoc]
    cases waiting with
    | nil => exact absurd rfl hlist
    | cons x waiting =>
      have hfirst := havail.head
      have hcell : (s.vq.lastAvailIdx % s.vq.queueSize).toNat =
          (base + taken.length + served.length + 0) % s.vq.queueSize.toNat := by
        rw [hlast, index_cell hl.dvd]
        rfl
      have hread : s.mem.readU16 .user (s.vq.availSlot s.vq.lastAvailIdx) = some x := by
        rw [← view_avail hl.pos, hcell]
        exact hfirst
      have hx : head = some x := hhead.trans hread
      subst hx
      refine ⟨waiting, ⟨?_, h.consumed, ?_, h.availNext, h.usedNext, ?_, h.availIdx, h.usedIdx, ?_,
        h.used⟩⟩
      · exact hpublished
      · show served.length + (1 + (waiting.length + s.offered.toList.length)) ≤ s.vq.queueSize.toNat
        simp only [List.length_cons, List.length_nil] at hroom
        omega
      · show s.vq.lastAvailIdx + 1 = .ofNat (base + taken.length + served.length + 1)
        rw [hlast, index_succ]
        rfl
      · exact havail.tail

private theorem push_inOrder (hl : s.Laid) (h : s.InOrder base taken served waiting) {head : UInt16}
    {written : UInt32} (hturn : s.turn = some (.pushUsed head written)) {d : Device}
    (hs : s.vq.pushUsed head written s.mem = .ok () d.mem) :
    SameQueue s { s with device := d, turn := some .popAvail } ∧
      ({ s with device := d, turn := some .popAvail } : Pair).InOrder base taken (served ++ [head])
        waiting := by
  obtain ⟨idx, hidx, hregions, hview⟩ := view_pushed hl.hostApart hl.ringsApart hl.pos hs
  rw [h.usedIdx] at hidx
  cases hidx
  have hserving : s.serving = [head] := by
    unfold serving
    rw [hturn]
  have hpublished := h.published
  have hroom := h.room
  have hlast := h.lastAvail
  have havail := h.avail
  rw [hserving] at hpublished hroom hlast havail
  rw [List.length_singleton] at hroom hlast havail
  have hlen : base + taken.length + (served ++ [head]).length =
      base + taken.length + served.length + 1 := by
    rw [List.length_append, List.length_singleton, Nat.add_assoc (base + taken.length)]
  have hheld := h.used.snoc (by rw [List.length_map]; omega) head.toUInt32
  rw [List.length_map, ← index_cell hl.dvd] at hheld
  refine ⟨⟨hregions, rfl⟩, ⟨?_, h.consumed, ?_, h.availNext, h.usedNext, ?_, ?_, ?_, ?_, ?_⟩⟩
  · rw [List.append_assoc]
    exact hpublished
  · show (served ++ [head]).length + (0 + (waiting.length + s.offered.toList.length)) ≤
      s.vq.queueSize.toNat
    rw [List.length_append, List.length_singleton]
    omega
  · show s.vq.lastAvailIdx = .ofNat (base + taken.length + (served ++ [head]).length + 0)
    rw [hlen]
    exact hlast
  · show (s.vq.view d.mem).availIdx = _
    rw [hview]
    exact h.availIdx
  · show (s.vq.view d.mem).usedIdx = _
    rw [hview, hlen, ← index_succ]
  · show Holds (s.vq.view d.mem).avail _ (base + taken.length + (served ++ [head]).length + 0) _
    rw [hview, hlen]
    exact havail
  · show Holds (s.vq.view d.mem).used _ _ _
    rw [hview, List.map_append]
    exact hheld

theorem serve_inOrder (hl : s.Laid) (h : s.InOrder base taken served waiting)
    (ho : s.Orderly (.serve env)) (hs : s.serve env = some s') :
    SameQueue s s' ∧ ∃ served' waiting', s'.InOrder base taken served' waiting' := by
  unfold serve at hs
  split at hs
  · rename_i hturn
    cases hs
    refine ⟨⟨rfl, rfl⟩, served, waiting, ?_⟩
    apply h.kept s.device (some .popAvail) rfl
    unfold serving
    rw [hturn]
  rename_i turn hturn
  split at hs
  · rename_i vq next d hstep
    cases hs
    cases turn with
    | popAvail =>
      obtain ⟨hq, waiting', h'⟩ := pop_inOrder hl h hturn hstep
      exact ⟨hq, served, waiting', h'⟩
    | readChain head =>
      obtain ⟨chain, d₁, hread, hend⟩ := bind_ok hstep
      cases hend
      obtain ⟨-, rfl⟩ := onQueue_inv hread
      refine ⟨⟨rfl, rfl⟩, served, waiting, ?_⟩
      apply h.kept s.device _ rfl
      unfold serving
      rw [hturn]
    | service head chain =>
      obtain ⟨written, d₁, hserve, hend⟩ := bind_ok hstep
      cases hend
      have hstores := serveChain_stores hserve
      refine ⟨⟨hstores.regions, rfl⟩, served, waiting, ?_⟩
      apply h.kept d _ (view_kept hstores (ho head chain hturn))
      unfold serving
      rw [hturn]
    | pushUsed head written =>
      obtain ⟨_, d₁, hpush, hend⟩ := bind_ok hstep
      cases hend
      obtain ⟨hq, h'⟩ := push_inOrder hl h hturn (onMem_ok hpush).1
      exact ⟨hq, _, waiting, h'⟩
  · cases hs

end Server

end Pair

end Riftlessfs.VhostUser
