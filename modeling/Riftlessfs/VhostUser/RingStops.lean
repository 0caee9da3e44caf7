import Riftlessfs.VhostUser.RingProgress

/-! A condition on rings that every pop meets, and its instance for disabled rings. -/
namespace Riftlessfs.VhostUser
open Lib.Effect Lib.Run Riftlessfs.Core Riftlessfs.Proto Riftlessfs.Fuse

/-- Every head was popped when its ring met `Q`. -/
def PopsWithin (Q : ℕ → List Happening → Prop) : List Happening → Prop
  | [] => True
  | .popped i _ :: older => Q i older ∧ PopsWithin Q older
  | .handled _ :: older => PopsWithin Q older
  | .notified _ :: older => PopsWithin Q older

def Phase.rings : Phase → List ℕ
  | .serving i rest _ _ => i :: rest
  | _ => []

/-- The history once what `recv` gave is handled. -/
def heard (recv : Option (Except ProtoError Message)) (history : List Happening) :
    List Happening :=
  match recv with
  | some (.ok m) => .handled m :: history
  | _ => history

def kickedRings (l : Loop) : Event → List ℕ
  | .poll _ (.ready _ _ kicked) => l.server.kickSlots.filter kicked
  | _ => []

def polledHistory (l : Loop) : Event → List Happening
  | .poll _ (.ready recv _ _) => heard recv l.history
  | _ => l.history

/-- All pops so far met `Q`, and so do the rings that are about to be processed. -/
structure Guarded (Q : ℕ → List Happening → Prop) (l : Loop) : Prop where
  pops : PopsWithin Q l.history
  rings : ∀ i ∈ l.phase.rings, Q i l.history

/-- `Q` outlasts pops and notifications. -/
structure Lasting (Q : ℕ → List Happening → Prop) : Prop where
  popped : ∀ i j head history, Q i history → Q i (.popped j head :: history)
  notified : ∀ i fd history, Q i history → Q i (.notified fd :: history)

section Guard
variable {Q : ℕ → List Happening → Prop} {l l' : Loop} {e : Event} {history : List Happening}

theorem PopsWithin.holds {newer older : List Happening} {i : ℕ} {head : UInt16}
    (h : PopsWithin Q (newer ++ .popped i head :: older)) : Q i older := by
  induction newer with
  | nil => exact h.1
  | cons x newer ih =>
    cases x with
    | popped j head' => exact ih h.2
    | handled m => exact ih h
    | notified fd => exact ih h

theorem PopsWithin.notified (h : PopsWithin Q history) (call : List RawFd) :
    PopsWithin Q (call.map .notified ++ history) := by
  induction call with
  | nil => exact h
  | cons fd call ih => exact ih

theorem Lasting.notify (hq : Lasting Q) {i : ℕ} (h : Q i history) (call : List RawFd) :
    Q i (call.map .notified ++ history) := by
  induction call with
  | nil => exact h
  | cons fd call ih => exact hq.notified i fd _ ih

theorem rings_next (ready : List ℕ) : (Phase.next ready).rings = ready := by
  cases ready with
  | nil => rfl
  | cons i rest => rfl

/-- The guard carries over a step when it holds of the rings `poll` sends to be processed. -/
theorem Guarded.step (hg : Guarded Q l) (hq : Lasting Q)
    (hpoll : ∀ i ∈ kickedRings l e, Q i (polledHistory l e)) (hs : l.step e = some l') :
    Guarded Q l' := by
  cases step_move hs with
  | quiet _ hhist hphase =>
    rcases hphase with hphase | ⟨r, hphase⟩
    · exact ⟨hhist ▸ hg.pops, by rw [hphase, hhist]; exact hg.rings⟩
    · exact ⟨hhist ▸ hg.pops, by rw [hphase]; intro i hi; cases hi⟩
  | polled env hangup kicked he _ _ hhist hnext =>
    subst he
    constructor
    · rw [hhist]
      exact hg.pops
    · rcases hnext with hnext | ⟨r, hnext⟩
      · rw [hnext, rings_next, hhist]
        exact hpoll
      · rw [hnext]
        intro i hi
        cases hi
  | handled env m hangup kicked he _ _ hhist hnext =>
    subst he
    constructor
    · rw [hhist]
      exact hg.pops
    · rcases hnext with hnext | ⟨r, hnext⟩
      · rw [hnext, rings_next, hhist]
        exact hpoll
      · rw [hnext]
        intro i hi
        cases hi
  | turned i rest turn turn' n n' hphase hnext _ hhist =>
    constructor
    · rw [hhist]
      exact hg.pops
    · have hrings := hg.rings
      rw [hphase] at hrings
      rw [hnext, hhist]
      exact hrings
  | finished i rest turn n call hphase hnext _ hhist =>
    constructor
    · rw [hhist]
      exact hg.pops.notified call
    · have hrings := hg.rings
      rw [hphase] at hrings
      rw [hnext, rings_next, hhist]
      intro j hj
      exact hq.notify (hrings j (List.mem_cons_of_mem i hj)) call
  | popped i rest n head slot vq hphase hnext _ _ _ _ hhist =>
    have hrings := hg.rings
    rw [hphase] at hrings
    constructor
    · rw [hhist]
      exact ⟨hrings i List.mem_cons_self, hg.pops⟩
    · rw [hnext, hhist]
      intro j hj
      exact hq.popped j i head _ (hrings j hj)

/-- In a run whose returns of `poll` send only rings that meet `Q`, every pop meets it. -/
theorem run_guarded (hq : Lasting Q) {C : Loop → Event → Prop}
    (hpoll : ∀ l e, l.Replayed → C l e → ∀ i ∈ kickedRings l e, Q i (polledHistory l e))
    {session : Session} {xs : List Event} (hrun : run Loop.step (.new session) xs = some l)
    (hC : Along Loop.step C (.new session) xs) : Guarded Q l := by
  revert hC
  refine run_induction (P := fun xs l => Along Loop.step C (.new session) xs → Guarded Q l)
    ?_ ?_ hrun
  · intro _
    constructor
    · trivial
    · intro i hi
      cases hi
  · intro ys e l₁ l₂ hrun₁ ih hs hC
    obtain ⟨hC₁, hlast⟩ := along_concat.mp hC
    exact (ih hC₁).step hq (hpoll l₁ e (run_replayed hrun₁) (hlast l₁ hrun₁)) hs

end Guard

def RingMsg.enable? : RingMsg → Option UInt32
  | .enable n => some n
  | _ => none

/-- The `num` of the latest `SET_VRING_ENABLE` for ring `i`. -/
def lastEnable (i : ℕ) : List Happening → Option UInt32 := latest i RingMsg.enable?

/-- No message disables a ring whose kick the same return of `poll` reports. -/
def keepsKicked (l : Loop) : Event → Bool
  | .poll _ (.ready (some (.ok m)) _ kicked) =>
    match m.ringMsg with
    | some (i, .enable n) => n != 0 || !(l.server.kickSlots.filter kicked).contains i
    | _ => true
  | _ => true

section Enable
variable {i : ℕ} {history : List Happening} {l : Loop} {e : Event} {slot : VringSlot}

/-- A ring is enabled when its latest `SET_VRING_ENABLE` said so. -/
theorem enabled_slotAfter (i : ℕ) (history : List Happening) :
    (slotAfter i history).enabled = ((lastEnable i history).getD 0 != 0) := by
  induction history with
  | nil => rfl
  | cons x older ih =>
    cases x with
    | handled m =>
      simp only [slotAfter, Happening.onSlot, lastEnable, latest]
      cases m.asks i with
      | none => exact ih
      | some r =>
        cases r with
        | enable n => rfl
        | addr a =>
          simp only [RingMsg.apply, VringSlot.maybeBuild]
          cases (slotAfter i older).queueSize with
          | none => exact ih
          | some qs => exact ih
        | _ => exact ih
    | popped j head =>
      simp only [slotAfter, Happening.onSlot, lastEnable, latest]
      by_cases hj : j = i
      · rw [if_pos hj]
        exact ih
      · rw [if_neg hj]
        exact ih
    | notified fd => exact ih

private theorem mem_kickSlots (hr : l.Replayed) (hi : i ∈ l.server.kickSlots) :
    (slotAfter i l.history).enabled = true := by
  unfold Server.kickSlots at hi
  obtain ⟨hlt, hany⟩ := List.mem_filter.mp hi
  have hlen : i < NUM_QUEUES := by
    rw [hr] at hlt
    simpa using hlt
  rw [hr.get hlen] at hany
  simp only [Option.any_some, Bool.and_eq_true] at hany
  exact hany.1

/-- What the rings `poll` sends to be processed have in common. -/
theorem kickedRings_enabled (hr : l.Replayed) (hk : keepsKicked l e = true)
    (hi : i ∈ kickedRings l e) : (lastEnable i (polledHistory l e)).getD 0 ≠ 0 := by
  cases e with
  | guest bytes => cases hi
  | serve env => cases hi
  | poll env result =>
    cases result with
    | interrupted => cases hi
    | failed errno => cases hi
    | ready recv hangup kicked =>
      have hi' : i ∈ l.server.kickSlots.filter kicked := hi
      have hen := mem_kickSlots hr (List.mem_filter.mp hi').1
      rw [enabled_slotAfter, bne_iff_ne] at hen
      cases recv with
      | none => exact hen
      | some r =>
        cases r with
        | error err => exact hen
        | ok m =>
          show (lastEnable i (.handled m :: l.history)).getD 0 ≠ 0
          simp only [lastEnable, latest]
          cases hm : m.asks i with
          | none => exact hen
          | some r =>
            cases r with
            | enable n =>
              simp only [keepsKicked, asks_iff.mp hm, Bool.or_eq_true, bne_iff_ne,
                Bool.not_eq_true', List.contains_eq_mem, decide_eq_false_iff_not] at hk
              exact hk.resolve_right fun h => h hi'
            | _ => exact hen

private theorem lasting_enabled : Lasting fun i history => (lastEnable i history).getD 0 ≠ 0 := by
  constructor
  · intro i j head history h
    exact h
  · intro i fd history h
    exact h

end Enable

/-- In every run in which no message disables a ring whose kick the same return of `poll`
reports, heads are popped from a ring only when its latest `SET_VRING_ENABLE` had a nonzero
`num`. -/
theorem disabled_ring_rests (session : Session) (xs : List Event) (l : Loop)
    (hrun : run Loop.step (.new session) xs = some l)
    (hkeeps : Along Loop.step (fun l e => keepsKicked l e = true) (.new session) xs)
    (newer older : List Happening) (i : ℕ) (head : UInt16)
    (hpop : l.history = newer ++ .popped i head :: older) :
    ∃ n, lastEnable i older = some n ∧ n ≠ 0 := by
  have hguard := run_guarded lasting_enabled
    (fun l e hr hk i hi => kickedRings_enabled hr hk hi) hrun hkeeps
  have hpops := hguard.pops
  rw [hpop] at hpops
  have hn : (lastEnable i older).getD 0 ≠ 0 := hpops.holds
  cases hlast : lastEnable i older with
  | none =>
    rw [hlast] at hn
    exact absurd rfl hn
  | some n =>
    rw [hlast] at hn
    exact ⟨n, rfl, hn⟩

/-- A message that disables ring 0 comes with its kick, and its request is popped after all. -/
theorem disabled_ring_popped :
    (run Loop.step (.new (.new smallWorld)) (ringSetup ++
      [say (ringState .setVringEnable 0) fun i => i == 0, .serve (calm 20 [])])).map
        (fun l => l.history.take 2) =
      some [.popped 0 0, .handled (ringState .setVringEnable 0)] ∧
    (ringState .setVringEnable 0).asks 0 = some (.enable 0) := by
  constructor
  · decide +kernel
  · decide +kernel

/-- The request of an enabled ring is popped. -/
theorem enabled_ring_popped : ∃ l older,
    run Loop.step (.new (.new smallWorld)) (ringSetup ++ ringService.take 2) = some l ∧
    l.history = .popped 0 0 :: older ∧ ∃ n, lastEnable 0 older = some n ∧ n ≠ 0 := by
  have hkeeps : Along Loop.step (fun l e => keepsKicked l e = true) (.new (.new smallWorld))
      (ringSetup ++ ringService.take 2) := by decide +kernel
  have hhead : (run Loop.step (.new (.new smallWorld)) (ringSetup ++ ringService.take 2)).map
      (fun l => l.history.head?) = some (some (.popped 0 0)) := by decide +kernel
  obtain ⟨l, hrun, hl⟩ := Option.map_eq_some_iff.mp hhead
  obtain ⟨older, hhist⟩ := List.head?_eq_some_iff.mp hl
  exact ⟨l, older, hrun, hhist, disabled_ring_rests _ _ l hrun hkeeps [] older 0 0 hhist⟩

end Riftlessfs.VhostUser
