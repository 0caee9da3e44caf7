import Riftlessfs.Core.CallRefines
import Riftlessfs.Lib.Run

/-! Runs of calls. An invariant of the abstract machine that every allowed act keeps
holds in every world such a run reaches. -/
namespace Riftlessfs.Core
open Lib.Effect Lib.Run

/-- The world after one call. A failed call counts; a panic stops the run. -/
def World.step (w : World) (x : Env × Call) : Option World :=
  match x.2.run x.1 w with
  | .ok _ w' => some w'
  | .error (.fail _) w' => some w'
  | .error .panic _ => none

/-- Names are single components, and no link is followed. -/
def Tame (w : World) (x : Env × Call) : Prop :=
  (∀ q ∈ x.2.names, Slashless q.2) ∧ x.2.NoFollow w

instance (w : World) (x : Env × Call) : Decidable (Tame w x) :=
  inferInstanceAs (Decidable ((∀ q ∈ x.2.names, Slashless q.2) ∧ x.2.NoFollow w))

variable {w w' : World} {x : Env × Call} {xs : List (Env × Call)} {n : ℕ}

private theorem roomy_of_bounded (hb : w.inodes.Bounded n) (hn : n + 3 < 2 ^ 64) :
    Roomy w.inodes := by
  refine ⟨?_, fun id d hd => ?_⟩
  · have := hb.next
    omega
  · have := hb.lookups id d hd
    omega

/-- A tame call on a sound world performs acts it asked for, and does not panic. -/
theorem step_outcome (hs : Sound w) (hb : w.inodes.Bounded n) (hn : n + 3 < 2 ^ 64)
    (ht : Tame w x) : ∃ w' evs, w.step x = some w' ∧ Outcome (Allows x.1 w x.2) w w' evs ∧
      w'.inodes.Bounded (n + 1) := by
  have hacts := Call.run_acts x.1 x.2 hs (roomy_of_bounded hb hn) ht.1 ht.2
  have hsettle := Call.run_settles x.1 x.2 hs.base.inv
  unfold World.step
  rcases hsettle with ⟨e, w', herr, hsame⟩ | ⟨r, w', hok, heff⟩
  · have hrel := hacts.1
    rw [herr] at hrel
    obtain ⟨evs, ho⟩ := hrel hs
    rw [herr]
    refine ⟨w', evs, rfl, ho, ?_⟩
    rw [hsame]
    exact hb.mono (Nat.le_succ n)
  · have hrel := hacts.1
    rw [hok] at hrel
    obtain ⟨evs, ho⟩ := hrel hs
    rw [hok]
    exact ⟨w', evs, rfl, ho, (tableEffect_inv heff hs.base.inv hb hn).2⟩

/-- The acts of a call keep what each allowed act keeps. -/
theorem Outcome.invariant {P : View → Act → Prop} {J : View → Prop} {evs : List Event}
    (hstep : ∀ {v v₁ a evs}, P v a → Base v.store → Does a v v₁ evs → J v → J v₁)
    (hs : Sound w) (ho : Outcome P w w' evs) (hJ : J w.view) : J w'.view := by
  obtain ⟨S, hchain, -⟩ := ho.chain
  have hboth : Base w'.view.store ∧ J w'.view := by
    refine Chain.invariant (J := fun v => Base v.store ∧ J v) ?_ hchain ⟨hs.base, hJ⟩
    intro v v₁ a evs hP hd hv
    exact ⟨hd.base hv.1, hstep hP hv.1 hd hv.2⟩
  exact hboth.2

/-- Runs of tame calls reach sound worlds, and keep `J` when every act allowed under the
condition `C` keeps it. -/
theorem run_keeps {C : World → Env × Call → Prop} {J : View → Prop}
    (hC : ∀ w x, C w x → Tame w x)
    (hstep : ∀ {w x v v₁ a evs}, C w x → Allows x.1 w x.2 v a → Base v.store →
      Does a v v₁ evs → J v → J v₁)
    (hs : Sound w) (hb : w.inodes.Bounded 0) (hJ : J w.view) (hn : xs.length + 3 < 2 ^ 64)
    (hc : Along World.step C w xs) :
    ∃ w', run World.step w xs = some w' ∧ Sound w' ∧ w'.inodes.Bounded xs.length ∧
      J w'.view := by
  induction xs using List.reverseRecOn with
  | nil => exact ⟨w, rfl, hs, hb, hJ⟩
  | append_singleton xs x ih =>
    rw [List.length_append, List.length_singleton] at hn ⊢
    rw [along_concat] at hc
    obtain ⟨w₁, hrun, hs₁, hb₁, hJ₁⟩ := ih (by omega) hc.1
    have hx := hc.2 w₁ hrun
    obtain ⟨w₂, evs, hstep₂, ho, hb₂⟩ := step_outcome hs₁ hb₁ (by omega) (hC w₁ x hx)
    refine ⟨w₂, ?_, ho.sound, hb₂, ?_⟩
    · rw [run_concat, hrun, Option.bind_some, hstep₂]
    · exact Outcome.invariant (fun hP hbase hd => hstep hx hP hbase hd) hs₁ ho hJ₁

end Riftlessfs.Core
