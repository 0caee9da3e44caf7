import Riftlessfs.VhostUser.ServerRuns

/-! How far a ring has got: its position against the base it was given and the heads popped
since. -/
namespace Riftlessfs.VhostUser
open Lib.Effect Lib.Run Lib.LittleEndian Riftlessfs.Core Riftlessfs.Proto Riftlessfs.Fuse

def RingMsg.base? : RingMsg → Option UInt32
  | .base n => some n
  | _ => none

/-- The `num` of the latest `SET_VRING_BASE` for ring `i`. -/
def lastBase (i : ℕ) : List Happening → Option UInt32 := latest i RingMsg.base?

/-- The heads popped from ring `i` since its latest `SET_VRING_BASE`. -/
def popsSince (i : ℕ) : List Happening → ℕ
  | [] => 0
  | .handled m :: older =>
    match m.asks i with
    | some (.base _) => 0
    | _ => popsSince i older
  | .popped j _ :: older => if j = i then popsSince i older + 1 else popsSince i older
  | .notified _ :: older => popsSince i older

/-- The base of ring `i`, truncated. -/
def startOf (i : ℕ) (history : List Happening) : UInt16 :=
  ((lastBase i history).getD 0).toUInt16

/-- A ring stands where its base and the heads popped since put it. -/
structure Progress (i : ℕ) (history : List Happening) (slot : VringSlot) : Prop where
  pending : slot.pendingAvailBase = startOf i history
  built : ∀ vq, slot.vq = some vq →
    vq.availBase = startOf i history + .ofNat (popsSince i history)
  unbuilt : slot.vq = none → popsSince i history = 0

/-- A `SET_VRING_ADDR` for a ring that is built comes when a multiple of `2 ^ 16` heads has been
popped since the latest base. -/
def addrTimely (l : Loop) : Event → Bool
  | .poll _ (.ready (some (.ok m)) _ _) =>
    match m.ringMsg with
    | some (i, .addr _) =>
      (l.server.vrings[i]?.bind VringSlot.vq).isNone || popsSince i l.history % 2 ^ 16 == 0
    | _ => true
  | _ => true

section Progress
variable {i : ℕ} {history : List Happening} {slot : VringSlot} {m : Message} {l l' : Loop}
  {e : Event}

private theorem startOf_notified (i : ℕ) (history : List Happening) (call : List RawFd) :
    startOf i (call.map .notified ++ history) = startOf i history ∧
      popsSince i (call.map .notified ++ history) = popsSince i history := by
  induction call with
  | nil => exact ⟨rfl, rfl⟩
  | cons fd call ih => exact ih

theorem startOf_popped (j : ℕ) (head : UInt16) :
    startOf i (.popped j head :: history) = startOf i history := rfl

/-- Anything but a new base leaves the base and the count of a ring. -/
theorem startOf_handled (history : List Happening) (h : ∀ n, m.asks i ≠ some (.base n)) :
    startOf i (.handled m :: history) = startOf i history ∧
      popsSince i (.handled m :: history) = popsSince i history := by
  cases hm : m.asks i with
  | none =>
    constructor
    · unfold startOf lastBase
      rw [latest_passed (by rw [hm]; rfl)]
    · simp only [popsSince, hm]
  | some r =>
    cases r with
    | base n => exact absurd hm (h n)
    | _ =>
      constructor
      · unfold startOf lastBase
        rw [latest_passed (by rw [hm]; rfl)]
      · simp only [popsSince, hm]

/-- A ring that keeps its base, its queue and its count stays where it is. -/
theorem Progress.keep (hp : Progress i history slot) {history' : List Happening}
    {slot' : VringSlot} (hstart : startOf i history' = startOf i history)
    (hpops : popsSince i history' = popsSince i history)
    (hpending : slot'.pendingAvailBase = slot.pendingAvailBase) (hvq : slot'.vq = slot.vq) :
    Progress i history' slot' := by
  constructor
  · rw [hpending, hstart]
    exact hp.pending
  · rw [hvq, hstart, hpops]
    exact hp.built
  · rw [hvq, hpops]
    exact hp.unbuilt

private theorem ofNat_eq_zero {n : ℕ} (h : n % 2 ^ 16 = 0) : UInt16.ofNat n = 0 := by
  apply UInt16.toNat_inj.mp
  show n % 2 ^ 16 = 0
  exact h

/-- What a message does to the position of a ring. -/
theorem Progress.handled (hp : Progress i history slot)
    (htimely : ∀ a, m.asks i = some (.addr a) → slot.vq ≠ none →
      popsSince i history % 2 ^ 16 = 0) :
    Progress i (.handled m :: history) ((Happening.handled m).onSlot i slot) := by
  by_cases hbase : ∃ n, m.asks i = some (.base n)
  · obtain ⟨n, hm⟩ := hbase
    have hstart : startOf i (.handled m :: history) = n.toUInt16 := by
      have hpick : RingMsg.base? (.base n) = some n := rfl
      unfold startOf lastBase
      rw [latest_picked hm hpick]
      rfl
    have hpops : popsSince i (.handled m :: history) = 0 := by
      simp only [popsSince, hm]
    simp only [Happening.onSlot, hm]
    constructor
    · rw [hstart]
      rfl
    · intro vq hvq
      obtain ⟨vq₀, -, rfl⟩ := Option.map_eq_some_iff.mp hvq
      rw [hstart, hpops]
      exact (UInt16.add_zero _).symm
    · intro _
      exact hpops
  · push Not at hbase
    obtain ⟨hstart, hpops⟩ := startOf_handled history hbase
    simp only [Happening.onSlot]
    cases hm : m.asks i with
    | none => exact hp.keep hstart hpops rfl rfl
    | some r =>
      cases r with
      | base n => exact absurd hm (hbase n)
      | addr a =>
        have hzero : UInt16.ofNat (popsSince i history) = 0 := by
          by_cases hv : slot.vq = none
          · rw [hp.unbuilt hv]
            rfl
          · exact ofNat_eq_zero (htimely a hm hv)
        simp only [RingMsg.apply, VringSlot.maybeBuild]
        cases hqs : slot.queueSize with
        | none => exact hp.keep hstart hpops rfl rfl
        | some qs =>
          constructor
          · rw [hstart]
            exact hp.pending
          · intro vq hvq
            cases hvq
            rw [hstart, hpops, hzero, UInt16.add_zero]
            exact hp.pending
          · intro hvq
            cases hvq
      | _ => exact hp.keep hstart hpops rfl rfl

/-- Popping a head moves the position of its ring by one. -/
theorem Progress.popped (hp : Progress i history slot) {j : ℕ} {head : UInt16}
    (hbuilt : j = i → slot.vq ≠ none) :
    Progress i (.popped j head :: history) ((Happening.popped j head).onSlot i slot) := by
  simp only [Happening.onSlot]
  by_cases hj : j = i
  · have hpops : popsSince i (.popped j head :: history) = popsSince i history + 1 := if_pos hj
    rw [if_pos hj]
    constructor
    · rw [startOf_popped]
      exact hp.pending
    · intro vq hvq
      obtain ⟨vq₀, hvq₀, rfl⟩ := Option.map_eq_some_iff.mp hvq
      have h₀ : vq₀.lastAvailIdx = startOf i history + .ofNat (popsSince i history) :=
        hp.built vq₀ hvq₀
      show vq₀.lastAvailIdx + 1 = _
      rw [startOf_popped, hpops, h₀, UInt16.ofNat_add, UInt16.add_assoc]
      rfl
    · intro hvq
      exact absurd (Option.map_eq_none_iff.mp hvq) (hbuilt hj)
  · rw [if_neg hj]
    exact hp.keep rfl (if_neg hj) rfl rfl

/-- Every ring of the server stands where it should. -/
def Loop.Progressing (l : Loop) : Prop :=
  ∀ i < NUM_QUEUES, Progress i l.history (slotAfter i l.history)

theorem Loop.Progressing.step (hp : l.Progressing) (hr : l.Replayed) (htimely : addrTimely l e = true)
    (hs : l.step e = some l') : l'.Progressing := by
  intro i hi
  have hslot := hr.get hi
  cases step_move hs with
  | quiet _ hhist _ =>
    rw [hhist]
    exact hp i hi
  | polled _ _ _ _ _ _ hhist _ =>
    rw [hhist]
    exact hp i hi
  | handled env m hangup kicked he _ _ hhist _ =>
    rw [hhist]
    apply (hp i hi).handled
    intro a ha hv
    subst he
    simp only [addrTimely, asks_iff.mp ha, hslot, Option.bind_some, Bool.or_eq_true,
      Option.isNone_iff_eq_none, beq_iff_eq] at htimely
    exact htimely.resolve_left hv
  | turned _ _ _ _ _ _ _ _ _ hhist =>
    rw [hhist]
    exact hp i hi
  | finished _ _ _ _ call _ _ _ hhist =>
    obtain ⟨hstart, hpops⟩ := startOf_notified i l.history call
    rw [hhist, slotAfter_notified]
    exact (hp i hi).keep hstart hpops rfl rfl
  | popped j _ _ head slot vq _ _ hslot' hvq _ _ hhist =>
    rw [hhist]
    apply (hp i hi).popped
    intro hj
    subst hj
    rw [hslot] at hslot'
    cases hslot'
    rw [hvq]
    simp

end Progress

/-- In every run in which each `SET_VRING_ADDR` for a ring that is built comes when a multiple of
`2 ^ 16` heads has been popped since its base, the position of every ring that is built is its
base plus the number of heads popped since. -/
theorem ring_progress (session : Session) (xs : List Event) (l : Loop)
    (hrun : run Loop.step (.new session) xs = some l)
    (htimely : Along Loop.step (fun l e => addrTimely l e = true) (.new session) xs)
    (i : ℕ) (slot : VringSlot) (vq : Virtqueue) (hslot : l.server.vrings[i]? = some slot)
    (hvq : slot.vq = some vq) :
    vq.availBase.toNat =
      (((lastBase i l.history).getD 0).toNat + popsSince i l.history) % 2 ^ 16 := by
  have hprog : l.Progressing := by
    revert htimely
    refine run_induction (P := fun xs l =>
      Along Loop.step (fun l e => addrTimely l e = true) (.new session) xs → l.Progressing)
      ?_ ?_ hrun
    · intro _ j _
      constructor
      · rfl
      · intro vq hvq
        cases hvq
      · intro _
        rfl
    · intro ys e l₁ l₂ hrun₁ ih hs halong
      obtain ⟨halong₁, hlast⟩ := along_concat.mp halong
      exact (ih halong₁).step (run_replayed hrun₁) (hlast l₁ hrun₁) hs
  have hr := run_replayed hrun
  have hi := hr.lt hslot
  rw [hr.get hi] at hslot
  cases hslot
  rw [(hprog i hi).built vq hvq]
  unfold startOf
  rw [UInt16.toNat_add, UInt16.toNat_ofNat', UInt32.toNat_toUInt16]
  exact (Nat.add_mod _ _ _).symm

def ringMessage (request : Request) (payload : Bytes) (fds : List RawFd) : Message :=
  ⟨.new request 0 (.ofNat payload.length), payload, fds⟩

/-- A host that maps the small memory with a request in its queue. -/
def ringHost : MsgEnv :=
  ⟨⟨4096, fun _ _ _ => .ok 0x4000, (smallMemory (ringImage getattrRoot)).bytes⟩, none⟩

/-- `poll` reports a message, and the kick of the rings given. -/
def say (m : Message) (kicked : ℕ → Bool) : Event :=
  .poll ringHost (.ready (some (.ok m)) false kicked)

def ringState (request : Request) (num : UInt32) : Message :=
  ringMessage request (VringState.toBytes ⟨0, num⟩) []

def ringAddr : Message :=
  ringMessage .setVringAddr (VringAddr.toBytes ⟨0, 0, 0x10040, 0x10090, 0x10080, 0⟩) []

/-- A front-end sets up ring 0 with a size of `num` and enables it. -/
def ringSetupOf (num : UInt32) : List Event :=
  [ringMessage .setMemTable (MemoryRegions.toBytes [⟨0x1000, 0x1000, 0x10000, 0⟩]) [5],
    ringState .setVringNum num, ringAddr,
    ringMessage .setVringKick (VringFdPayload.toBytes ⟨0, false⟩) [6],
    ringState .setVringEnable 1].map fun m => say m fun _ => false

def ringSetup : List Event := ringSetupOf 4

/-- The kick of ring 0 is reported, and its only request served to the end. -/
def ringService : List Event :=
  .poll ringHost (.ready none false fun i => i == 0) :: List.replicate 5 (.serve (calm 20 []))

/-- Where ring 0 stands, the latest base it was given, and the heads popped since. -/
def ringStand (l : Loop) : Option UInt16 × Option UInt32 × ℕ :=
  ((l.server.vrings[0]?.bind VringSlot.vq).map Virtqueue.availBase, lastBase 0 l.history,
    popsSince 0 l.history)

/-- Re-sending `SET_VRING_ADDR` on a running ring rewinds it, and its request is popped again. -/
theorem resent_addr_rewinds :
    (run Loop.step (.new (.new smallWorld)) (ringSetup ++ ringService)).map ringStand =
      some (some 1, none, 1) ∧
    (run Loop.step (.new (.new smallWorld))
      (ringSetup ++ ringService ++ [say ringAddr fun _ => false])).map ringStand =
      some (some 0, none, 1) ∧
    (run Loop.step (.new (.new smallWorld)) (ringSetup ++ ringService ++
      (say ringAddr fun _ => false) :: ringService.take 2)).map (fun l => l.history.head?) =
      some (some (.popped 0 0)) := by
  constructor
  · decide +kernel
  constructor
  · decide +kernel
  · decide +kernel

/-- After one request is served, the ring stands one past its base. -/
theorem ring_progress_one : ∃ l slot vq,
    run Loop.step (.new (.new smallWorld)) (ringSetup ++ ringService) = some l ∧
    l.server.vrings[0]? = some slot ∧ slot.vq = some vq ∧ vq.availBase.toNat =
      (((lastBase 0 l.history).getD 0).toNat + popsSince 0 l.history) % 2 ^ 16 := by
  have htimely : Along Loop.step (fun l e => addrTimely l e = true) (.new (.new smallWorld))
      (ringSetup ++ ringService) := by decide +kernel
  have hbuilt : (run Loop.step (.new (.new smallWorld)) (ringSetup ++ ringService)).bind
      (fun l => l.server.vrings[0]?.bind VringSlot.vq) =
      some { ringQueue with lastAvailIdx := 1 } := by decide +kernel
  obtain ⟨l, hrun, hl⟩ := Option.bind_eq_some_iff.mp hbuilt
  obtain ⟨slot, hslot, hvq⟩ := Option.bind_eq_some_iff.mp hl
  exact ⟨l, slot, _, hrun, hslot, hvq,
    ring_progress _ _ l hrun htimely 0 slot _ hslot hvq⟩

end Riftlessfs.VhostUser
