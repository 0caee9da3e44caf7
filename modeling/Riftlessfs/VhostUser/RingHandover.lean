import Riftlessfs.VhostUser.RingStops

/-! Handing a ring over: between the reply to `GET_VRING_BASE` and the next `SET_VRING_BASE` it must
not be served. -/
namespace Riftlessfs.VhostUser
open Lib.Effect Lib.Run Riftlessfs.Core Riftlessfs.Proto Riftlessfs.Fuse

/-- The base of ring `i` was read out, and not set since. -/
def parked (i : ℕ) : List Happening → Bool
  | [] => false
  | .handled m :: older =>
    match m.asks i with
    | some .getBase => true
    | some (.base _) => false
    | _ => parked i older
  | _ :: older => parked i older

/-- `poll` does not send ring `i` to be processed while it is parked. -/
def keepsParked (i : ℕ) (l : Loop) (e : Event) : Bool :=
  decide (i ∉ kickedRings l e) || !parked i (polledHistory l e)

section Parked
variable {i : ℕ} {older newer : List Happening} {l l' : Loop} {env : MsgEnv} {g : Message}
  {hangup : Bool} {kicked : ℕ → Bool} {srv srv' : Server} {base : UInt32}

private theorem lasting_unparked (i : ℕ) :
    Lasting fun j history => j = i → parked j history = false := by
  constructor
  · intro j j' head history h
    exact h
  · intro j fd history h
    exact h

private theorem unparked_of_keeps {e : Event} (h : keepsParked i l e = true) :
    ∀ j ∈ kickedRings l e, j = i → parked j (polledHistory l e) = false := by
  rintro j hj rfl
  unfold keepsParked at h
  simpa [hj] using h

/-- A ring whose base was read out stays parked until it is set. -/
theorem parked_since (newer older : List Happening) (hg : g.asks i = some .getBase)
    (hbase : ∀ m n, .handled m ∈ newer → m.asks i ≠ some (.base n)) :
    parked i (newer ++ .handled g :: older) = true := by
  induction newer with
  | nil => simp only [List.nil_append, parked, hg]
  | cons x newer ih =>
    have ih' := ih fun m n hm => hbase m n (List.mem_cons_of_mem x hm)
    cases x with
    | handled m =>
      simp only [List.cons_append, parked]
      cases hm : m.asks i with
      | none => exact ih'
      | some r =>
        cases r with
        | base n => exact absurd hm (hbase m n List.mem_cons_self)
        | getBase => rfl
        | _ => exact ih'
    | popped j head => exact ih'
    | notified fd => exact ih'

/-- A ring that is built stays built. -/
theorem slotAfter_built (newer : List Happening) (h : (slotAfter i older).vq ≠ none) :
    (slotAfter i (newer ++ older)).vq ≠ none := by
  induction newer with
  | nil => exact h
  | cons x newer ih =>
    cases x with
    | handled m =>
      simp only [List.cons_append, slotAfter, Happening.onSlot]
      cases m.asks i with
      | none => exact ih
      | some r =>
        cases r with
        | addr a =>
          simp only [RingMsg.apply, VringSlot.maybeBuild]
          cases (slotAfter i (newer ++ older)).queueSize with
          | none => exact ih
          | some qs => simp
        | base n =>
          simp only [RingMsg.apply, ne_eq, Option.map_eq_none_iff]
          exact ih
        | _ => exact ih
    | popped j head =>
      simp only [List.cons_append, slotAfter, Happening.onSlot]
      by_cases hj : j = i
      · rw [if_pos hj]
        simp only [ne_eq, Option.map_eq_none_iff]
        exact ih
      · rw [if_neg hj]
        exact ih
    | notified fd => exact ih

/-- A base that was set stays until a pop or the next one; a ring that is built anew takes it up. -/
theorem slotAfter_base_kept {r : Message} (newer : List Happening)
    (hset : r.asks i = some (.base base)) (hbuilt : (slotAfter i older).vq ≠ none)
    (hpop : ∀ head, .popped i head ∉ newer)
    (hbase : ∀ m n, .handled m ∈ newer → m.asks i ≠ some (.base n)) :
    (slotAfter i (newer ++ .handled r :: older)).pendingAvailBase = base.toUInt16 ∧
      ∃ vq, (slotAfter i (newer ++ .handled r :: older)).vq = some vq ∧
        vq.availBase = base.toUInt16 := by
  induction newer with
  | nil =>
    obtain ⟨vq, hvq⟩ := Option.ne_none_iff_exists'.mp hbuilt
    have hslot : slotAfter i (.handled r :: older) =
        (RingMsg.base base).apply (slotAfter i older) := by
      simp only [slotAfter, Happening.onSlot, hset]
    rw [List.nil_append, hslot]
    refine ⟨rfl, vq.setAvailBase base.toUInt16, ?_, rfl⟩
    simp only [RingMsg.apply, hvq, Option.map_some]
  | cons x newer ih =>
    obtain ⟨hpending, vq, hvq, hat⟩ := ih (fun head h => hpop head (List.mem_cons_of_mem x h))
      fun m n hm => hbase m n (List.mem_cons_of_mem x hm)
    cases x with
    | handled m =>
      simp only [List.cons_append, slotAfter, Happening.onSlot]
      cases hm : m.asks i with
      | none => exact ⟨hpending, vq, hvq, hat⟩
      | some q =>
        cases q with
        | base n => exact absurd hm (hbase m n List.mem_cons_self)
        | addr a =>
          simp only [RingMsg.apply, VringSlot.maybeBuild]
          cases (slotAfter i (newer ++ .handled r :: older)).queueSize with
          | none => exact ⟨hpending, vq, hvq, hat⟩
          | some qs => exact ⟨hpending, _, rfl, hpending⟩
        | _ => exact ⟨hpending, vq, hvq, hat⟩
    | popped j head =>
      have hj : j ≠ i := by
        rintro rfl
        exact hpop head List.mem_cons_self
      simp only [List.cons_append, slotAfter, Happening.onSlot, if_neg hj]
      exact ⟨hpending, vq, hvq, hat⟩
    | notified fd => exact ⟨hpending, vq, hvq, hat⟩

private theorem poll_message
    (h : l.step (.poll env (.ready (some (.ok g)) hangup kicked)) = some l') :
    (l.server.handleOneMessage env g = .ok l'.server ∧ l'.history = .handled g :: l.history) ∨
      l'.server = l.server := by
  unfold Loop.step at h
  cases hphase : l.phase with
  | serving i rest turn n =>
    simp only [hphase] at h
    cases h
  | stopped r =>
    simp only [hphase] at h
    cases h
  | polling =>
    simp only [hphase, Option.some.injEq] at h
    subst h
    unfold Loop.onReady
    cases hm : l.server.handleOneMessage env g with
    | ok srv =>
      left
      constructor
      · simp only [hm]
      · simp only [hm]
    | error err =>
      right
      simp only [hm]
      cases err with
      | disconnected => rfl
      | _ => rfl

private theorem toBytes_state_inj {s t : VringState} (h : s.toBytes = t.toBytes) : s = t := by
  have hs := VringState.fromBytes_toBytes s []
  rw [h, VringState.fromBytes_toBytes t []] at hs
  exact (Except.ok.inj hs).symm

/-- What `GET_VRING_BASE` replies. -/
theorem getBase_reply (hg : g.asks i = some .getBase)
    (h : srv.handleOneMessage env g = .ok srv') : ∃ idx header, idx.toNat = i ∧
      srv'.sent = srv.sent ++ [(header, VringState.toBytes ⟨idx,
        (((srv.vrings[i]?.bind VringSlot.vq).map Virtqueue.availBase).getD 0).toUInt32⟩)] := by
  have hmsg := asks_iff.mp hg
  unfold Message.ringMsg at hmsg
  unfold Server.handleOneMessage at h
  cases hreq : Request.tryFrom g.header.request with
  | error e =>
    rw [hreq] at hmsg
    cases hmsg
  | ok request =>
    rw [hreq] at hmsg h
    simp only at h
    cases request with
    | getVringBase =>
      obtain ⟨s, hs, hrep⟩ := except_bind_ok h
      rw [hs] at hmsg
      cases hmsg
      rw [reply_ok hrep]
      exact ⟨s.index, _, rfl, rfl⟩
    | setVringNum | setVringAddr | setVringBase | setVringKick | setVringCall | setVringEnable =>
      obtain ⟨s, hs, -⟩ := except_bind_ok h
      rw [hs] at hmsg
      cases hmsg
    | _ => cases hmsg

end Parked

/-- In every run in which `poll` does not send a ring to be processed while it is parked, nothing is
popped from it between the reply to `GET_VRING_BASE` and the next `SET_VRING_BASE` for it, and one
with the base replied makes the ring go on where it stood, also when a `SET_VRING_ADDR` follows
before the next pop. -/
theorem base_handover (session : Session) (xs ys : List Event) (l₁ l₂ l₃ : Loop) (env : MsgEnv)
    (g : Message) (hangup : Bool) (kicked : ℕ → Bool) (idx base : UInt32) (header : MsgHeader)
    (hrun : run Loop.step (.new session) xs = some l₁)
    (hget : l₁.step (.poll env (.ready (some (.ok g)) hangup kicked)) = some l₂)
    (hg : g.asks idx.toNat = some .getBase)
    (hreply : l₂.server.sent = l₁.server.sent ++ [(header, VringState.toBytes ⟨idx, base⟩)])
    (hrest : run Loop.step l₂ ys = some l₃)
    (hparked : Along Loop.step (fun l e => keepsParked idx.toNat l e = true) (.new session)
      (xs ++ .poll env (.ready (some (.ok g)) hangup kicked) :: ys))
    (newer : List Happening) (hnewer : l₃.history = newer ++ l₂.history)
    (hbase : ∀ m n, .handled m ∈ newer → m.asks idx.toNat ≠ some (.base n)) :
    (∀ head, .popped idx.toNat head ∉ newer) ∧
      ∀ vq env' r srv, l₁.server.vrings[idx.toNat]?.bind VringSlot.vq = some vq →
        l₃.server.handleOneMessage env' r = .ok srv → r.asks idx.toNat = some (.base base) →
        (∃ vq', srv.vrings[idx.toNat]?.bind VringSlot.vq = some vq' ∧
          vq'.availBase = vq.availBase) ∧
        ∀ zs l₄ since, run Loop.step l₃ zs = some l₄ →
          l₄.history = since ++ .handled r :: l₃.history →
          (∀ head, .popped idx.toNat head ∉ since) →
          (∀ m n, .handled m ∈ since → m.asks idx.toNat ≠ some (.base n)) →
          ∃ vq', l₄.server.vrings[idx.toNat]?.bind VringSlot.vq = some vq' ∧
            vq'.availBase = vq.availBase := by
  obtain ⟨hhandled, hhist⟩ : l₁.server.handleOneMessage env g = .ok l₂.server ∧
      l₂.history = .handled g :: l₁.history := by
    rcases poll_message hget with h | h
    · exact h
    · rw [h] at hreply
      simp at hreply
  obtain ⟨idx', header', hidx, hsent⟩ := getBase_reply hg hhandled
  rw [hreply] at hsent
  have hlast := List.append_cancel_left hsent
  simp only [List.cons.injEq, Prod.mk.injEq, and_true] at hlast
  have hbaseEq : base = (((l₁.server.vrings[idx.toNat]?.bind VringSlot.vq).map
      Virtqueue.availBase).getD 0).toUInt32 :=
    congrArg VringState.num (toBytes_state_inj hlast.2)
  have hwhole : run Loop.step (.new session)
      (xs ++ .poll env (.ready (some (.ok g)) hangup kicked) :: ys) = some l₃ := by
    rw [run_append, hrun]
    show (l₁.step _).bind _ = _
    rw [hget]
    exact hrest
  have hguard := run_guarded (lasting_unparked idx.toNat)
    (C := fun l e => keepsParked idx.toNat l e = true)
    (fun l e _ hk => unparked_of_keeps hk) hwhole hparked
  constructor
  · intro head hmem
    obtain ⟨after, before, hsplit⟩ := List.append_of_mem hmem
    have hpops := hguard.pops
    rw [hnewer, hhist, hsplit, List.append_assoc, List.cons_append] at hpops
    have hfree : parked idx.toNat (before ++ .handled g :: l₁.history) = false := hpops.holds rfl
    have hstill := parked_since before l₁.history hg fun m n hm => by
      apply hbase m n
      rw [hsplit]
      exact List.mem_append_right _ (List.mem_cons_of_mem _ hm)
    rw [hstill] at hfree
    cases hfree
  · intro vq env' r srv hvq hr hset
    have hr₁ := run_replayed hrun
    have hr₃ := run_replayed hwhole
    obtain ⟨slot, hslot, hslotvq⟩ := Option.bind_eq_some_iff.mp hvq
    have hi := hr₁.lt hslot
    rw [hr₁.get hi] at hslot
    cases hslot
    have hbuilt : (slotAfter idx.toNat l₃.history).vq ≠ none := by
      rw [hnewer, hhist, List.append_cons]
      apply slotAfter_built
      rw [hslotvq]
      simp
    obtain ⟨vq₃, hvq₃⟩ := Option.ne_none_iff_exists'.mp hbuilt
    have hvalue : base.toUInt16 = vq.availBase := by
      rw [hbaseEq, hvq]
      exact UInt16.toUInt16_toUInt32 _
    constructor
    · refine ⟨vq₃.setAvailBase base.toUInt16, ?_, hvalue⟩
      rw [handleOneMessage_vrings hr, hr₃, onRings_map_range, List.getElem?_map,
        List.getElem?_range hi]
      simp only [Option.map_some, Option.bind_some, Happening.onSlot, hset, RingMsg.apply, hvq₃]
    · intro zs l₄ since hrun₄ hsince hpop hnone
      have hlong : run Loop.step (.new session)
          ((xs ++ .poll env (.ready (some (.ok g)) hangup kicked) :: ys) ++ zs) = some l₄ := by
        rw [run_append, hwhole]
        exact hrun₄
      obtain ⟨-, vq₄, hvq₄, hat⟩ := slotAfter_base_kept since hset hbuilt hpop hnone
      refine ⟨vq₄, ?_, hat.trans hvalue⟩
      rw [(run_replayed hlong).get hi, Option.bind_some, hsince, hvq₄]

/-- The base of ring 0 is read out while its kick is pending, and its request is popped all the
same. -/
theorem parked_ring_popped :
    (run Loop.step (.new (.new smallWorld)) (ringSetup ++
      [say (ringState .getVringBase 0) fun i => i == 0, .serve (calm 20 [])])).map
        (fun l => (l.history.take 2, l.server.sent)) =
      some ([.popped 0 0, .handled (ringState .getVringBase 0)],
        [(.reply .getVringBase 8, VringState.toBytes ⟨0, 0⟩)]) ∧
    (ringState .getVringBase 0).asks 0 = some .getBase := by
  constructor
  · decide +kernel
  · decide +kernel

/-- A front-end disables ring 0 after its request is served, and reads out its base. -/
def ringPark : List Event :=
  ringSetup ++ ringService ++ [say (ringState .setVringEnable 0) fun _ => false]

/-- `poll` returns with the kick of ring 0 only. -/
def ringKick : Event := .poll ringHost (.ready none false fun i => i == 0)

private theorem ringKick_keeps {l l' : Loop} (h : l.step ringKick = some l') :
    l'.history = l.history ∧ l'.server = l.server := by
  unfold ringKick Loop.step at h
  cases hphase : l.phase with
  | polling =>
    simp only [hphase, Option.some.injEq] at h
    subst h
    exact ⟨rfl, rfl⟩
  | serving i rest turn n =>
    simp only [hphase] at h
    cases h
  | stopped r =>
    simp only [hphase] at h
    cases h

/-- Ring 0, disabled and read out, rests while it is kicked, and goes on at the base replied. -/
theorem base_handover_disabled : ∃ l₁ l₂ l₃ srv vq',
    run Loop.step (.new (.new smallWorld)) ringPark = some l₁ ∧
    l₁.step (say (ringState .getVringBase 0) fun _ => false) = some l₂ ∧
    l₂.server.sent = [(.reply .getVringBase 8, VringState.toBytes ⟨0, 1⟩)] ∧
    run Loop.step l₂ [ringKick] = some l₃ ∧
    l₃.server.handleOneMessage ringHost (ringState .setVringBase 1) = .ok srv ∧
    srv.vrings[0]?.bind VringSlot.vq = some vq' ∧ vq'.availBase = 1 := by
  have hparked : Along Loop.step (fun l e => keepsParked 0 l e = true) (.new (.new smallWorld))
      (ringPark ++ [say (ringState .getVringBase 0) fun _ => false, ringKick]) := by decide +kernel
  have hstand : (run Loop.step (.new (.new smallWorld)) ringPark).map
      (fun l => (l.server.sent, l.server.vrings[0]?.bind VringSlot.vq)) =
      some ([], some { ringQueue with lastAvailIdx := 1 }) := by decide +kernel
  have hsent : (run Loop.step (.new (.new smallWorld))
      (ringPark ++ [say (ringState .getVringBase 0) fun _ => false])).map
      (fun l => l.server.sent) =
      some [(.reply .getVringBase 8, VringState.toBytes ⟨0, 1⟩)] := by decide +kernel
  have hend : (run Loop.step (.new (.new smallWorld))
      (ringPark ++ [say (ringState .getVringBase 0) fun _ => false] ++ [ringKick])).isSome = true := by
    decide +kernel
  obtain ⟨l₃, hrun₃⟩ := Option.isSome_iff_exists.mp hend
  obtain ⟨l₂, hrun₂, hkick⟩ := run_concat_some hrun₃
  obtain ⟨l₁, hrun₁, hget⟩ := run_concat_some hrun₂
  rw [hrun₁] at hstand
  rw [hrun₂] at hsent
  obtain ⟨hnone, hvq⟩ := Prod.mk.inj (Option.some.inj hstand)
  have hreply : l₂.server.sent = l₁.server.sent ++
      [(.reply .getVringBase 8, VringState.toBytes ⟨0, 1⟩)] := by
    rw [hnone]
    exact Option.some.inj hsent
  have hrest : run Loop.step l₂ [ringKick] = some l₃ := by
    show (l₂.step ringKick).bind _ = _
    rw [hkick]
    rfl
  have hg : (ringState .getVringBase 0).asks 0 = some .getBase := by decide +kernel
  have hb : (ringState .setVringBase 1).asks 0 = some (.base 1) := by decide +kernel
  obtain ⟨-, hgo⟩ := base_handover (.new smallWorld) ringPark [ringKick] l₁ l₂ l₃ ringHost
    (ringState .getVringBase 0) false (fun _ => false) 0 1 (.reply .getVringBase 8) hrun₁ hget hg
    hreply hrest hparked [] (ringKick_keeps hkick).1 (by simp)
  obtain ⟨⟨vq', hvq', hbase⟩, -⟩ := hgo _ ringHost (ringState .setVringBase 1) _ hvq rfl hb
  exact ⟨l₁, l₂, l₃, _, vq', hrun₁, hget, Option.some.inj hsent, hrest, rfl, hvq', hbase⟩

end Riftlessfs.VhostUser
