import Riftlessfs.VhostUser.RingProgress

/-! How rings are configured: the size and the addresses that a history of messages leaves a
queue with. -/
namespace Riftlessfs.VhostUser
open Lib.Effect Lib.Run Riftlessfs.Core Riftlessfs.Proto Riftlessfs.Fuse

def RingMsg.num? : RingMsg → Option UInt32
  | .num n => some n
  | _ => none

def RingMsg.addr? : RingMsg → Option VringAddr
  | .addr a => some a
  | _ => none

def lastNum (i : ℕ) : List Happening → Option UInt32 := latest i RingMsg.num?

def lastAddr (i : ℕ) : List Happening → Option VringAddr := latest i RingMsg.addr?

/-- The latest `SET_VRING_NUM` for ring `i` before its latest `SET_VRING_ADDR`. -/
def builtNum (i : ℕ) : List Happening → Option UInt32
  | [] => none
  | .handled m :: older =>
    match m.asks i with
    | some (.addr _) => lastNum i older
    | _ => builtNum i older
  | _ :: older => builtNum i older

/-- The queue of a ring has the size and the addresses it was built with. -/
structure Configured (i : ℕ) (history : List Happening) (slot : VringSlot) : Prop where
  size : slot.queueSize = (lastNum i history).map UInt32.toUInt16
  queue : slot.vq.map (fun vq => (vq.queueSize, vq.descAddr, vq.availAddr, vq.usedAddr)) =
    (builtNum i history).bind fun n => (lastAddr i history).map fun a =>
      (n.toUInt16, a.descriptor, a.avail, a.used)
  unsized : lastNum i history = none → builtNum i history = none
  addressed : lastAddr i history = none → builtNum i history = none

section Configured
variable {i : ℕ} {history : List Happening} {slot slot' : VringSlot} {m : Message}

/-- What keeps the size and the queue keeps the configuration. -/
theorem Configured.keep (h : Configured i history slot) {history' : List Happening}
    (hnum : lastNum i history' = lastNum i history)
    (haddr : lastAddr i history' = lastAddr i history)
    (hbuilt : builtNum i history' = builtNum i history)
    (hsize : slot'.queueSize = slot.queueSize)
    (hvq : slot'.vq.map (fun vq => (vq.queueSize, vq.descAddr, vq.availAddr, vq.usedAddr)) =
      slot.vq.map fun vq => (vq.queueSize, vq.descAddr, vq.availAddr, vq.usedAddr)) :
    Configured i history' slot' := by
  constructor
  · rw [hsize, hnum]
    exact h.size
  · rw [hvq, hbuilt, haddr]
    exact h.queue
  · rw [hnum, hbuilt]
    exact h.unsized
  · rw [haddr, hbuilt]
    exact h.addressed

theorem Configured.num (h : Configured i history slot) {n : UInt32}
    (hm : m.asks i = some (.num n)) :
    Configured i (.handled m :: history) ((RingMsg.num n).apply slot) := by
  have hpick : RingMsg.num? (.num n) = some n := rfl
  have hnum : lastNum i (.handled m :: history) = some n := latest_picked hm hpick history
  have haddr : lastAddr i (.handled m :: history) = lastAddr i history :=
    latest_passed (by rw [hm]; rfl) history
  have hbuilt : builtNum i (.handled m :: history) = builtNum i history := by
    simp only [builtNum, hm]
  constructor
  · rw [hnum]
    rfl
  · rw [hbuilt, haddr]
    exact h.queue
  · rw [hnum]
    intro hnone
    cases hnone
  · rw [haddr, hbuilt]
    exact h.addressed

theorem Configured.addr (h : Configured i history slot) {a : VringAddr}
    (hm : m.asks i = some (.addr a)) :
    Configured i (.handled m :: history) ((RingMsg.addr a).apply slot) := by
  have hpick : RingMsg.addr? (.addr a) = some a := rfl
  have hnum : lastNum i (.handled m :: history) = lastNum i history :=
    latest_passed (by rw [hm]; rfl) history
  have haddr : lastAddr i (.handled m :: history) = some a := latest_picked hm hpick history
  have hbuilt : builtNum i (.handled m :: history) = lastNum i history := by
    simp only [builtNum, hm]
  simp only [RingMsg.apply, VringSlot.maybeBuild]
  have hsize := h.size
  cases hlast : lastNum i history with
  | none =>
    rw [hlast] at hsize
    simp only [hsize, Option.map_none]
    have hqueue := h.queue
    rw [h.unsized hlast] at hqueue
    constructor
    · rw [hnum, hlast]
      exact hsize
    · rw [hbuilt, hlast]
      exact hqueue
    · rw [hnum, hbuilt]
      exact id
    · rw [haddr]
      intro hnone
      cases hnone
  | some n =>
    rw [hlast] at hsize
    simp only [hsize, Option.map_some]
    constructor
    · rw [hnum, hlast]
      rfl
    · rw [hbuilt, hlast, haddr]
      rfl
    · rw [hnum, hbuilt]
      exact id
    · rw [haddr]
      intro hnone
      cases hnone

/-- Every message leaves the ring configured. -/
theorem Configured.handled (h : Configured i history slot) :
    Configured i (.handled m :: history) ((Happening.handled m).onSlot i slot) := by
  simp only [Happening.onSlot]
  cases hm : m.asks i with
  | none =>
    exact h.keep (latest_passed (by rw [hm]; rfl) history) (latest_passed (by rw [hm]; rfl) history)
      (by simp only [builtNum, hm]) rfl rfl
  | some r =>
    cases r with
    | num n => exact h.num hm
    | addr a => exact h.addr hm
    | base n =>
      refine h.keep (latest_passed (by rw [hm]; rfl) history)
        (latest_passed (by rw [hm]; rfl) history) (by simp only [builtNum, hm]) rfl ?_
      simp only [RingMsg.apply, Option.map_map]
      rfl
    | _ =>
      exact h.keep (latest_passed (by rw [hm]; rfl) history)
        (latest_passed (by rw [hm]; rfl) history) (by simp only [builtNum, hm]) rfl rfl

/-- After any history a ring is configured by its messages. -/
theorem slotAfter_configured (i : ℕ) (history : List Happening) :
    Configured i history (slotAfter i history) := by
  induction history with
  | nil => exact ⟨rfl, rfl, fun _ => rfl, fun _ => rfl⟩
  | cons x older ih =>
    cases x with
    | handled m => exact ih.handled
    | popped j head =>
      by_cases hj : j = i
      · refine ih.keep rfl rfl rfl ?_ ?_
        · simp only [slotAfter, Happening.onSlot, if_pos hj]
        · simp only [slotAfter, Happening.onSlot, if_pos hj, Option.map_map]
          rfl
      · refine ih.keep rfl rfl rfl ?_ ?_
        · simp only [slotAfter, Happening.onSlot, if_neg hj]
        · simp only [slotAfter, Happening.onSlot, if_neg hj]
    | notified fd => exact ih.keep rfl rfl rfl rfl rfl

/-- The size of a queue is the one sent before its addresses, truncated. -/
theorem queueSize_slotAfter {vq : Virtqueue} (hvq : (slotAfter i history).vq = some vq) :
    ∃ n a, builtNum i history = some n ∧ lastAddr i history = some a ∧
      vq.queueSize = n.toUInt16 ∧ vq.descAddr = a.descriptor ∧ vq.availAddr = a.avail ∧
      vq.usedAddr = a.used := by
  have h := (slotAfter_configured i history).queue
  rw [hvq] at h
  cases hn : builtNum i history with
  | none =>
    rw [hn] at h
    cases h
  | some n =>
    cases ha : lastAddr i history with
    | none =>
      rw [hn, ha] at h
      cases h
    | some a =>
      rw [hn, ha] at h
      simp only [Option.map_some, Option.bind_some, Option.some.injEq, Prod.mk.injEq] at h
      exact ⟨n, a, rfl, rfl, h⟩

end Configured

end Riftlessfs.VhostUser
