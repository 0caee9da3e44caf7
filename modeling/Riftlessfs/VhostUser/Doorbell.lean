import Riftlessfs.VhostUser.KickDrain
import Riftlessfs.Core.Error
import Riftlessfs.Lib.Run

/-! `Doorbell`: rings from any number of threads and one thread that consumes them, in any
interleaving of their writes and reads. -/
namespace Riftlessfs.VhostUser
open Riftlessfs.Core Lib.Run

def EAGAIN : Errno := 11

/-- A failure of a read or write that the fd itself does not decide. -/
abbrev Fault := {e : Errno // e ≠ EAGAIN}

/-- `Doorbell`: a nonblocking eventfd on Linux, a nonblocking pipe elsewhere. `pending` is the
counter or the number of bytes, of which the fd holds at most `capacity`. -/
structure Doorbell where
  kind : KickKind
  pending : ℕ
  capacity : ℕ
  roomy : 0 < capacity

namespace Doorbell

/-- `Doorbell::new`, when the host has an fd to give. -/
def new (kind : KickKind) (capacity : ℕ) (roomy : 0 < capacity) : Doorbell :=
  ⟨kind, 0, capacity, roomy⟩

def readFd (d : Doorbell) : KickFd := ⟨d.kind, true, d.pending⟩

/-- What `poll` says of `read_fd`. -/
def readable (d : Doorbell) : Bool := decide (0 < d.pending)

def notify (d : Doorbell) : Option Fault → Except Errno Unit × Doorbell
  | some e => (.error e, d)
  | none =>
    if d.pending < d.capacity then (.ok (), { d with pending := d.pending + 1 })
    else (.error EAGAIN, d)

/-- One turn of the loop of `Doorbell::consume`, which has found something before if `any`:
how the call returns, if it does, and `any` after the turn. -/
def consumeTurn (d : Doorbell) (any : Bool) :
    Option Fault → Option (Except Errno Bool) × Bool × Doorbell
  | some e => (some (.error e), any, d)
  | none =>
    match d.readFd.read 256 with
    | (.count n, fd) =>
      let d' := { d with pending := fd.pending }
      if n = 0 then (some (.ok any), any, d')
      -- a full buffer: there may be more
      else if n = 256 then (none, true, d')
      else (some (.ok true), true, d')
    -- the fd does not block, so a read always ends
    | (.wouldBlock, _) | (.never, _) => (some (.ok any), any, d)

end Doorbell

/-- The end of a call on the doorbell. -/
inductive Rung where
  | notified (r : Except Errno Unit)
  | consumed (r : Except Errno Bool)

/-- A doorbell in use: what the call of `consume` in progress has found, if there is one, and
the calls that have returned. -/
structure Bell where
  door : Doorbell
  consuming : Option Bool
  history : List Rung

/-- What happens next: some thread notifies, or the consuming thread makes a turn. -/
inductive Bell.Act where
  | notify (fault : Option Fault)
  | turn (fault : Option Fault)

namespace Bell

def new (kind : KickKind) (capacity : ℕ) (roomy : 0 < capacity) : Bell :=
  ⟨.new kind capacity roomy, none, []⟩

def step (b : Bell) : Act → Option Bell
  | .notify fault =>
    let (r, d) := b.door.notify fault
    some { b with door := d, history := b.history ++ [.notified r] }
  | .turn fault =>
    match b.door.consumeTurn (b.consuming.getD false) fault with
    | (some r, _, d) => some ⟨d, none, b.history ++ [.consumed r]⟩
    | (none, any, d) => some ⟨d, some any, b.history⟩

/-- A turn whose read fails although the call has taken rings already. -/
def Breaks (b : Bell) : Act → Prop
  | .turn (some _) => b.consuming = some true
  | _ => False

end Bell

/-- Whether a ring is owed to the consumer after the call, if one was before it. A doorbell too
full for another ring is rung. -/
def Rung.owes (before : Bool) : Rung → Bool
  | .notified (.ok _) => true
  | .notified (.error e) => before || decide (e = EAGAIN)
  | .consumed (.ok _) => false
  | .consumed (.error _) => before

/-- Whether someone notified since the last call of `consume` that succeeded. -/
def owed (history : List Rung) : Bool := history.foldl Rung.owes false

/-- Every call of `consume` that succeeds says whether someone notified since the last one. -/
def Reports (history : List Rung) : Prop :=
  ∀ earlier any later, history = earlier ++ .consumed (.ok any) :: later → any = owed earlier

theorem owed_concat (history : List Rung) (r : Rung) :
    owed (history ++ [r]) = r.owes (owed history) := by
  unfold owed
  rw [List.foldl_append]
  rfl

theorem reports_concat {history : List Rung} {r : Rung} (hr : Reports history)
    (hlast : ∀ any, r = .consumed (.ok any) → any = owed history) :
    Reports (history ++ [r]) := by
  intro earlier any later heq
  rcases List.eq_nil_or_concat later with rfl | ⟨front, last, rfl⟩
  · have hsplit := List.append_inj' heq rfl
    have hrung : r = .consumed (.ok any) := List.singleton_inj.mp hsplit.2
    rw [← hsplit.1]
    exact hlast any hrung
  · have heq' : history ++ [r] = (earlier ++ .consumed (.ok any) :: front) ++ [last] := by
      rw [heq]
      simp
    have hsplit := List.append_inj' heq' rfl
    exact hr earlier any front hsplit.1

namespace Doorbell
variable {d : Doorbell} {any : Bool}

private theorem notify_full (hfull : ¬ d.pending < d.capacity) :
    d.notify none = (.error EAGAIN, d) :=
  if_neg hfull

private theorem notify_room (hroom : d.pending < d.capacity) :
    d.notify none = (.ok (), { d with pending := d.pending + 1 }) := if_pos hroom

/-- A turn that finds nothing. -/
theorem consumeTurn_empty (h0 : d.pending = 0) :
    d.consumeTurn any none = (some (.ok any), any, d) := by
  have hread : d.readFd.read 256 = (.wouldBlock, d.readFd) := if_pos h0
  unfold consumeTurn
  rw [hread]

/-- A turn that takes all there is, and ends the call. -/
theorem consumeTurn_last (hpos : 0 < d.pending)
    (hlast : ¬(d.kind = .stream ∧ 256 ≤ d.pending)) :
    d.consumeTurn any none = (some (.ok true), true, { d with pending := 0 }) := by
  obtain ⟨kind, pending, capacity, roomy⟩ := d
  dsimp only at hpos hlast
  have hne : ¬ pending = 0 := by omega
  cases kind with
  | eventfd =>
    have hread : (KickFd.mk .eventfd true pending).read 256 = (.count 8, ⟨.eventfd, true, 0⟩) :=
      if_neg hne
    unfold consumeTurn readFd
    dsimp only
    rw [hread]
    rfl
  | stream =>
    have hlt : pending < 256 := not_le.mp fun hge => hlast ⟨rfl, hge⟩
    have hread : (KickFd.mk .stream true pending).read 256 =
        (.count pending, ⟨.stream, true, 0⟩) := by
      have hmin : min 256 pending = pending := by omega
      unfold KickFd.read
      rw [if_neg hne]
      dsimp only
      rw [hmin, Nat.sub_self]
    unfold consumeTurn readFd
    dsimp only
    rw [hread]
    dsimp only
    rw [if_neg hne, if_neg (by omega)]

/-- A turn that fills its buffer, after which the call goes on. -/
theorem consumeTurn_block (hk : d.kind = .stream) (hge : 256 ≤ d.pending) :
    d.consumeTurn any none = (none, true, { d with pending := d.pending - 256 }) := by
  obtain ⟨kind, pending, capacity, roomy⟩ := d
  dsimp only at hk hge
  subst hk
  have hread : (KickFd.mk .stream true pending).read 256 =
      (.count 256, ⟨.stream, true, pending - 256⟩) := by
    have hmin : min 256 pending = 256 := by omega
    unfold KickFd.read
    rw [if_neg (by dsimp only; omega)]
    dsimp only
    rw [hmin]
  unfold consumeTurn readFd
  dsimp only
  rw [hread]
  rfl

end Doorbell

namespace Bell
variable {b b' : Bell} {a : Act} {kind : KickKind}

section Steps
variable {fault : Option Fault} {d : Doorbell} {any : Bool}

theorem step_notify {r : Except Errno Unit} (h : b.door.notify fault = (r, d)) :
    b.step (.notify fault) = some ⟨d, b.consuming, b.history ++ [.notified r]⟩ := by
  unfold step
  dsimp only
  rw [h]

/-- A turn that ends the call. -/
theorem step_returns {r : Except Errno Bool}
    (h : b.door.consumeTurn (b.consuming.getD false) fault = (some r, any, d)) :
    b.step (.turn fault) = some ⟨d, none, b.history ++ [.consumed r]⟩ := by
  unfold step
  dsimp only
  rw [h]

theorem step_goesOn (h : b.door.consumeTurn (b.consuming.getD false) fault = (none, any, d)) :
    b.step (.turn fault) = some ⟨d, some any, b.history⟩ := by
  unfold step
  dsimp only
  rw [h]

/-- Turns without a failure break nothing. -/
theorem along_turns (turns : ℕ) (b : Bell) :
    Along step (fun b a => ¬ b.Breaks a) b (List.replicate turns (.turn none)) := by
  induction turns generalizing b with
  | zero => trivial
  | succ turns ih =>
    rw [List.replicate_succ]
    unfold Along
    refine ⟨fun hbreak => hbreak, ?_⟩
    split
    · rename_i b₁ _
      exact ih b₁
    · trivial

end Steps

/-- What holds between any two acts: the calls so far have reported what they had to, and a ring
is owed exactly if it lies in the fd or in the call in progress. An eventfd is emptied by one
read, so no call on it is left in the middle with a ring. -/
structure Sound (kind : KickKind) (b : Bell) : Prop where
  kind_eq : b.door.kind = kind
  reports : Reports b.history
  owed_eq : owed b.history = (b.door.readable || b.consuming.getD false)
  whole : kind = .eventfd → b.consuming = none

private theorem new_sound (capacity : ℕ) (roomy : 0 < capacity) :
    (new kind capacity roomy).Sound kind := by
  refine ⟨rfl, ?_, rfl, fun _ => rfl⟩
  intro earlier any later heq
  simp [new] at heq

theorem Sound.notify (hs : b.Sound kind) (fault : Option Fault)
    (hstep : b.step (.notify fault) = some b') : b'.Sound kind := by
  have hquiet : ∀ r, ∀ any, Rung.notified r = .consumed (.ok any) → any = owed b.history :=
    fun r any h => by cases h
  cases fault with
  | some e =>
    cases hstep
    refine ⟨hs.kind_eq, reports_concat hs.reports (hquiet _), ?_, hs.whole⟩
    have hno : decide (e.val = EAGAIN) = false := decide_eq_false e.property
    rw [owed_concat, Rung.owes, hno, Bool.or_false]
    exact hs.owed_eq
  | none =>
    by_cases hroom : b.door.pending < b.door.capacity
    · rw [step_notify (Doorbell.notify_room hroom)] at hstep
      cases hstep
      refine ⟨hs.kind_eq, reports_concat hs.reports (hquiet _), ?_, hs.whole⟩
      rw [owed_concat]
      simp [Rung.owes, Doorbell.readable]
    · rw [step_notify (Doorbell.notify_full hroom)] at hstep
      cases hstep
      refine ⟨hs.kind_eq, reports_concat hs.reports (hquiet _), ?_, hs.whole⟩
      -- what is too full for another ring is not empty
      have hpos : 0 < b.door.pending := by
        have := b.door.roomy
        omega
      rw [owed_concat]
      simp [Rung.owes, Doorbell.readable, hpos]

theorem Sound.turn (hs : b.Sound kind) (fault : Option Fault)
    (hwhole : ¬ b.Breaks (.turn fault)) (hstep : b.step (.turn fault) = some b') :
    b'.Sound kind := by
  cases fault with
  | some e =>
    have hnone : b.consuming.getD false = false := by
      cases hc : b.consuming with
      | none => rfl
      | some any =>
        cases any with
        | false => rfl
        | true => exact absurd hc hwhole
    cases hstep
    refine ⟨hs.kind_eq, reports_concat hs.reports fun any h => (by cases h), ?_, fun _ => rfl⟩
    rw [owed_concat, Rung.owes, hs.owed_eq, hnone]
    rfl
  | none =>
    by_cases h0 : b.door.pending = 0
    · rw [step_returns (Doorbell.consumeTurn_empty h0)] at hstep
      cases hstep
      have hread : b.door.readable = false := decide_eq_false (by omega)
      have howed : owed b.history = b.consuming.getD false := by
        rw [hs.owed_eq, hread, Bool.false_or]
      refine ⟨hs.kind_eq, reports_concat hs.reports fun any h => ?_, ?_, fun _ => rfl⟩
      · cases h
        exact howed.symm
      · rw [owed_concat, hread]
        rfl
    · have hpos : 0 < b.door.pending := by omega
      have howed : owed b.history = true := by
        rw [hs.owed_eq, Doorbell.readable, decide_eq_true hpos, Bool.true_or]
      by_cases hblock : b.door.kind = .stream ∧ 256 ≤ b.door.pending
      · rw [step_goesOn (Doorbell.consumeTurn_block hblock.1 hblock.2)] at hstep
        cases hstep
        refine ⟨hs.kind_eq, hs.reports, ?_, fun hk => ?_⟩
        · rw [howed, Option.getD_some, Bool.or_true]
        · rw [← hs.kind_eq, hblock.1] at hk
          cases hk
      · rw [step_returns (Doorbell.consumeTurn_last hpos hblock)] at hstep
        cases hstep
        refine ⟨hs.kind_eq, reports_concat hs.reports fun any h => ?_, ?_, fun _ => rfl⟩
        · cases h
          exact howed.symm
        · rw [owed_concat]
          rfl

theorem Sound.step (hs : b.Sound kind) (hwhole : kind = .stream → ¬ b.Breaks a)
    (hstep : b.step a = some b') : b'.Sound kind := by
  cases a with
  | notify fault => exact hs.notify fault hstep
  | turn fault =>
    refine hs.turn fault ?_ hstep
    cases kind with
    | stream => exact hwhole rfl
    | eventfd =>
      intro hbreak
      cases fault with
      | none => exact hbreak
      | some e =>
        have hc : b.consuming = some true := hbreak
        rw [hs.whole rfl] at hc
        cases hc

theorem run_sound {acts : List Act} (hs : b.Sound kind)
    (hwhole : kind = .stream → Along step (fun b a => ¬ b.Breaks a) b acts)
    (hrun : run step b acts = some b') : b'.Sound kind := by
  induction acts generalizing b with
  | nil =>
    cases hrun
    exact hs
  | cons a acts ih =>
    unfold run at hrun
    obtain ⟨b₁, hstep, hrun⟩ := Option.bind_eq_some_iff.mp hrun
    have hboth : kind = .stream →
        ¬ b.Breaks a ∧ Along Bell.step (fun b a => ¬ b.Breaks a) b₁ acts := by
      intro hk
      have halong := hwhole hk
      unfold Along at halong
      rw [hstep] at halong
      exact halong
    exact ih (hs.step (fun hk => (hboth hk).1) hstep) (fun hk => (hboth hk).2) hrun

/-- The turns that are left when nobody notifies any more: one for each full buffer, and one
that ends the call. -/
theorem turns_return (b : Bell) : ∃ turns any b', turns ≤ b.door.pending / 256 ∧
    run step b (List.replicate (turns + 1) (.turn none)) = some b' ∧
    b'.consuming = none ∧ b'.history = b.history ++ [.consumed (.ok any)] := by
  -- by induction on what is pending, which a full buffer makes smaller
  induction hp : b.door.pending using Nat.strong_induction_on generalizing b with
  | _ pending ih =>
    by_cases hblock : b.door.kind = .stream ∧ 256 ≤ b.door.pending
    · have hstep : b.step (.turn none) =
          some ⟨{ b.door with pending := b.door.pending - 256 }, some true, b.history⟩ :=
        step_goesOn (Doorbell.consumeTurn_block hblock.1 hblock.2)
      have hless : b.door.pending - 256 < pending := by omega
      obtain ⟨turns, any, b', hle, hrun, hidle, hhist⟩ :=
        ih (b.door.pending - 256) hless
          ⟨{ b.door with pending := b.door.pending - 256 }, some true, b.history⟩ rfl
      dsimp only at hle hhist
      refine ⟨turns + 1, any, b', by omega, ?_, hidle, hhist⟩
      rw [List.replicate_succ, run, hstep, Option.bind_some]
      exact hrun
    · by_cases h0 : b.door.pending = 0
      · refine ⟨0, b.consuming.getD false, ⟨b.door, none, _⟩, Nat.zero_le _, ?_, rfl, rfl⟩
        rw [List.replicate_one, run, step_returns (Doorbell.consumeTurn_empty h0)]
        rfl
      · refine ⟨0, true, ⟨{ b.door with pending := 0 }, none, _⟩, Nat.zero_le _, ?_, rfl, rfl⟩
        rw [List.replicate_one, run, step_returns (Doorbell.consumeTurn_last (by omega) hblock)]
        rfl

end Bell

/-- A doorbell is a latch, however its calls interleave: each `consume` that succeeds says whether
someone notified since the last one that did, a ring that is owed while no call is in progress
makes the fd readable and only such a ring does, and a call returns once nobody notifies. On a
pipe this asks that no read fails after the call has filled its buffer. -/
theorem doorbell_latches {kind : KickKind} {capacity : ℕ} (roomy : 0 < capacity)
    {acts : List Bell.Act} {b : Bell} (hrun : run Bell.step (.new kind capacity roomy) acts = some b)
    (hwhole : kind = .stream →
      Along Bell.step (fun b a => ¬ b.Breaks a) (.new kind capacity roomy) acts) :
    Reports b.history ∧
    (b.consuming = none → (owed b.history = true ↔ b.door.readable = true)) ∧
    ∃ turns any b', turns ≤ b.door.pending / 256 ∧
      run Bell.step b (List.replicate (turns + 1) (.turn none)) = some b' ∧
      b'.history = b.history ++ [.consumed (.ok any)] ∧ any = owed b.history := by
  have hs : b.Sound kind := Bell.run_sound (Bell.new_sound capacity roomy) hwhole hrun
  refine ⟨hs.reports, fun hidle => ?_, ?_⟩
  · rw [hs.owed_eq, hidle, Option.getD_none, Bool.or_false]
  · obtain ⟨turns, any, b', hle, hrun', -, hhist⟩ := b.turns_return
    refine ⟨turns, any, b', hle, hrun', hhist, ?_⟩
    have hquiet : kind = .stream → Along Bell.step (fun b a => ¬ b.Breaks a) b
        (List.replicate (turns + 1) (.turn none)) := by
      intro _
      exact Bell.along_turns _ b
    have hs' : b'.Sound kind := Bell.run_sound hs hquiet hrun'
    exact hs'.reports b.history any [] hhist

/-- A pipe with room for one byte is rung twice, and reports it once. -/
theorem doorbell_latches_full : ∃ b,
    run Bell.step (.new .stream 1 Nat.one_pos)
      [.notify none, .notify none, .turn none, .turn none] = some b ∧
    b.history = [.notified (.ok ()), .notified (.error EAGAIN), .consumed (.ok true),
      .consumed (.ok false)] ∧ Reports b.history := by
  refine ⟨_, rfl, rfl, ?_⟩
  have hquiet : Along Bell.step (fun b a => ¬ b.Breaks a) (.new .stream 1 Nat.one_pos)
      [.notify none, .notify none, .turn none, .turn none] :=
    ⟨id, id, id, id, trivial⟩
  exact (doorbell_latches Nat.one_pos rfl fun _ => hquiet).1

-- A read that fails after a full buffer takes the rings with it.
example : (run Bell.step (.new .stream 300 (by decide))
    (List.replicate 256 (.notify none) ++ [.turn none, .turn (some ⟨EBADF, by decide⟩)])).map
      (fun b => (owed b.history, b.door.readable, b.consuming)) = some (true, false, none) := by
  decide +kernel

end Riftlessfs.VhostUser
