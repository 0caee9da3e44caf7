import Riftlessfs.VhostUser.RingConfig

/-! How the order of the configuring messages decides the queue they make. -/
namespace Riftlessfs.VhostUser
open Lib.Effect Lib.Run Riftlessfs.Core Riftlessfs.Proto Riftlessfs.Fuse

def RingMsg.configures : RingMsg → Bool
  | .num _ => true
  | .addr _ => true
  | .base _ => true
  | _ => false

/-- The message is a `SET_VRING_NUM`, `SET_VRING_ADDR` or `SET_VRING_BASE`. -/
def Message.configures (m : Message) : Bool := m.ringMsg.any fun x => x.2.configures

/-- Messages handled one after the other, with no processing in between. -/
def handleAll (env : MsgEnv) : Server → List Message → Except ProtoError Server
  | srv, [] => .ok srv
  | srv, m :: ms => do
    let srv ← srv.handleOneMessage env m
    handleAll env srv ms

def told (ms : List Message) : List Happening := ms.reverse.map .handled

section Order
variable {env : MsgEnv} {srv : Server} {m : Message} {i : ℕ}

/-- A configuring message is always handled. -/
theorem configures_handled (env : MsgEnv) (srv : Server) (h : m.configures = true) :
    ∃ srv', srv.handleOneMessage env m = .ok srv' := by
  unfold Message.configures Message.ringMsg at h
  unfold Server.handleOneMessage
  cases hreq : Request.tryFrom m.header.request with
  | error e =>
    rw [hreq] at h
    cases h
  | ok request =>
    rw [hreq] at h
    simp only at h ⊢
    cases request with
    | setVringNum | setVringBase =>
      unfold Server.dispatch
      cases hs : VringState.fromBytes m.payload with
      | error e =>
        rw [hs] at h
        cases h
      | ok s => exact ⟨_, rfl⟩
    | setVringAddr =>
      unfold Server.dispatch
      cases ha : VringAddr.fromBytes m.payload with
      | error e =>
        rw [ha] at h
        cases h
      | ok a => exact ⟨_, rfl⟩
    | getVringBase | setVringEnable =>
      cases hs : VringState.fromBytes m.payload with
      | error e =>
        rw [hs] at h
        cases h
      | ok s =>
        rw [hs] at h
        cases h
    | setVringKick | setVringCall =>
      cases hs : VringFdPayload.fromBytes m.payload with
      | error e =>
        rw [hs] at h
        cases h
      | ok s =>
        rw [hs] at h
        cases h
    | _ => cases h

/-- The rings after a list of messages are those the history leaves. -/
theorem handleAll_vrings (env : MsgEnv) (srv : Server) {ms : List Message}
    {history : List Happening} (hms : ∀ m ∈ ms, m.configures = true)
    (hrings : srv.vrings = (List.range NUM_QUEUES).map fun i => slotAfter i history) :
    ∃ srv', handleAll env srv ms = .ok srv' ∧
      srv'.vrings = (List.range NUM_QUEUES).map fun i => slotAfter i (told ms ++ history) := by
  induction ms generalizing srv history with
  | nil => exact ⟨srv, rfl, hrings⟩
  | cons m ms ih =>
    obtain ⟨srv₁, hm⟩ := configures_handled env srv (hms m List.mem_cons_self)
    have hrings₁ : srv₁.vrings =
        (List.range NUM_QUEUES).map fun i => slotAfter i (.handled m :: history) := by
      rw [handleOneMessage_vrings hm, hrings, onRings_map_range]
      rfl
    obtain ⟨srv', hrest, hrings'⟩ :=
      ih srv₁ (fun m' hm' => hms m' (List.mem_cons_of_mem m hm')) hrings₁
    refine ⟨srv', ?_, ?_⟩
    · unfold handleAll
      rw [hm]
      exact hrest
    · rw [hrings']
      unfold told
      simp

/-- With no processing, a queue stands at the latest base. -/
theorem slotAfter_handled (hs : List Message) :
    popsSince i (hs.map .handled) = 0 ∧
      Progress i (hs.map .handled) (slotAfter i (hs.map .handled)) := by
  induction hs with
  | nil =>
    constructor
    · rfl
    · constructor
      · rfl
      · intro vq hvq
        cases hvq
      · intro _
        rfl
  | cons m hs ih =>
    obtain ⟨hpops, hprog⟩ := ih
    constructor
    · simp only [List.map_cons, popsSince]
      split
      · rfl
      · exact hpops
    · apply hprog.handled
      intro _ _ _
      rw [hpops]
      rfl

end Order

/-- The ring has the queue that the last size, addresses and base sent to it describe. -/
def Described (i : ℕ) (history : List Happening) (slot : VringSlot) : Prop :=
  ∃ vq n a, slot.vq = some vq ∧ lastNum i history = some n ∧ lastAddr i history = some a ∧
    vq.queueSize.toNat = n.toNat ∧ vq.descAddr = a.descriptor ∧ vq.availAddr = a.avail ∧
    vq.usedAddr = a.used ∧ vq.availBase.toNat = ((lastBase i history).getD 0).toNat

/-- After a sequence of `SET_VRING_NUM`, `SET_VRING_ADDR` and `SET_VRING_BASE` messages, a ring has
the queue that the last of each describe exactly when a size came before the last addresses that
is, truncated, the last size, and the last base fits in 16 bits. -/
theorem config_order_iff (env : MsgEnv) (session : Session) (ms : List Message)
    (hms : ∀ m ∈ ms, m.configures = true) (i : ℕ) (hi : i < NUM_QUEUES) :
    ∃ srv slot, handleAll env (.new session) ms = .ok srv ∧ srv.vrings[i]? = some slot ∧
      (Described i (told ms) slot ↔
        (∃ n n', lastNum i (told ms) = some n ∧ builtNum i (told ms) = some n' ∧
          n'.toNat % 2 ^ 16 = n.toNat) ∧ ((lastBase i (told ms)).getD 0).toNat < 2 ^ 16) := by
  obtain ⟨srv, hall, hrings⟩ := handleAll_vrings env (.new session) hms
    (Loop.new_replayed session)
  have hslot : srv.vrings[i]? = some (slotAfter i (told ms)) := by
    rw [hrings, List.getElem?_map, List.getElem?_range hi]
    show some (slotAfter i (told ms ++ [])) = _
    rw [List.append_nil]
  refine ⟨srv, _, hall, hslot, ?_⟩
  obtain ⟨hpops, hprog⟩ := slotAfter_handled (i := i) ms.reverse
  have hpos : ∀ vq, (slotAfter i (told ms)).vq = some vq →
      vq.availBase.toNat = ((lastBase i (told ms)).getD 0).toNat % 2 ^ 16 := by
    intro vq hvq
    rw [hprog.built vq hvq, hpops]
    show (startOf i (told ms) + 0).toNat = _
    rw [UInt16.add_zero]
    exact UInt32.toNat_toUInt16 _
  constructor
  · rintro ⟨vq, n, a, hvq, hnum, -, hsize, -, -, -, hbase⟩
    obtain ⟨n', a', hbuilt, -, hqs, -⟩ := queueSize_slotAfter hvq
    constructor
    · refine ⟨n, n', hnum, hbuilt, ?_⟩
      rw [← hsize, hqs, UInt32.toNat_toUInt16]
    · have h := hpos vq hvq
      have hlt := Nat.mod_lt ((lastBase i (told ms)).getD 0).toNat (Nat.two_pow_pos 16)
      omega
  · rintro ⟨⟨n, n', hnum, hbuilt, hsize⟩, hbase⟩
    have hconf := slotAfter_configured i (told ms)
    have hqueue := hconf.queue
    cases ha : lastAddr i (told ms) with
    | none =>
      rw [hconf.addressed ha] at hbuilt
      cases hbuilt
    | some a =>
      rw [hbuilt, ha] at hqueue
      obtain ⟨vq, hvq, -⟩ := Option.map_eq_some_iff.mp hqueue
      obtain ⟨n'', a', hbuilt', ha', hqs, hdesc, havail, hused⟩ := queueSize_slotAfter hvq
      rw [hbuilt] at hbuilt'
      cases hbuilt'
      rw [ha] at ha'
      cases ha'
      refine ⟨vq, n, a, hvq, hnum, ha, ?_, hdesc, havail, hused, ?_⟩
      · rw [hqs, UInt32.toNat_toUInt16, hsize]
      · rw [hpos vq hvq, Nat.mod_eq_of_lt hbase]

def ringAfter (ms : List Message) : Option (Option Virtqueue) :=
  (handleAll ringHost (.new (.new smallWorld)) ms).toOption.map fun srv =>
    srv.vrings[0]?.bind VringSlot.vq

/-- The size before the addresses makes a queue, the addresses before the size make none, and a
size sent again is not taken. -/
theorem config_order_matters :
    ringAfter [ringState .setVringNum 4, ringAddr] = some (some ringQueue) ∧
    ringAfter [ringAddr, ringState .setVringNum 4] = some none ∧
    ringAfter [ringState .setVringNum 4, ringAddr, ringState .setVringNum 8] =
      some (some ringQueue) := by
  constructor
  · decide +kernel
  constructor
  · decide +kernel
  · decide +kernel

/-- A size, a base and addresses in this order make the queue they describe. -/
theorem config_order_sized : ∃ srv slot,
    handleAll ringHost (.new (.new smallWorld))
      [ringState .setVringNum 4, ringState .setVringBase 7, ringAddr] = .ok srv ∧
    srv.vrings[0]? = some slot ∧
    Described 0 (told [ringState .setVringNum 4, ringState .setVringBase 7, ringAddr]) slot := by
  obtain ⟨srv, slot, hall, hslot, hiff⟩ := config_order_iff ringHost (.new smallWorld)
    [ringState .setVringNum 4, ringState .setVringBase 7, ringAddr] (by decide +kernel) 0 (by decide)
  refine ⟨srv, slot, hall, hslot, hiff.mpr ⟨⟨4, 4, ?_, ?_, by decide⟩, ?_⟩⟩
  · decide +kernel
  · decide +kernel
  · decide +kernel

end Riftlessfs.VhostUser
