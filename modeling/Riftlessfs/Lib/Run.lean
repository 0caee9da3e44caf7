import Mathlib.Tactic

/-! Runs of a partial deterministic step function. A run that gets stuck has no
final state. -/
namespace Lib.Run

variable {σ ι : Type}

/-- The state after the inputs `xs`, if no step got stuck. -/
def run (step : σ → ι → Option σ) : σ → List ι → Option σ
  | s, [] => some s
  | s, x :: xs => (step s x).bind fun s' => run step s' xs

variable {step : σ → ι → Option σ}

@[simp] theorem run_nil (s : σ) : run step s [] = some s := rfl

theorem run_append (s : σ) (xs ys : List ι) :
    run step s (xs ++ ys) = (run step s xs).bind fun s' => run step s' ys := by
  induction xs generalizing s with
  | nil => rfl
  | cons x xs ih =>
    simp only [List.cons_append, run, Option.bind_assoc]
    congr 1
    funext s'
    exact ih s'

theorem run_concat (s : σ) (xs : List ι) (x : ι) :
    run step s (xs ++ [x]) = (run step s xs).bind fun s' => step s' x := by
  rw [run_append]
  congr 1
  funext s'
  simp [run]

theorem run_concat_some {s s' : σ} {xs : List ι} {x : ι}
    (h : run step s (xs ++ [x]) = some s') :
    ∃ s₁, run step s xs = some s₁ ∧ step s₁ x = some s' := by
  rw [run_concat] at h
  exact Option.bind_eq_some_iff.mp h

/-- Induction over runs, last step last. The prefix that led to a state is at hand. -/
theorem run_induction {s₀ : σ} {P : List ι → σ → Prop} (h₀ : P [] s₀)
    (hstep : ∀ xs x s s', run step s₀ xs = some s → P xs s → step s x = some s' →
      P (xs ++ [x]) s')
    {xs : List ι} {s : σ} (h : run step s₀ xs = some s) : P xs s := by
  induction xs using List.reverseRecOn generalizing s with
  | nil =>
    cases h
    exact h₀
  | append_singleton xs x ih =>
    obtain ⟨s₁, hs, hx⟩ := run_concat_some h
    exact hstep xs x s₁ s hs (ih hs) hx

/-- Every step of the run meets `C`. -/
def Along (step : σ → ι → Option σ) (C : σ → ι → Prop) : σ → List ι → Prop
  | _, [] => True
  | s, x :: xs => C s x ∧ match step s x with
    | some s' => Along step C s' xs
    | none => True

instance decidableAlong (C : σ → ι → Prop) [∀ s x, Decidable (C s x)] :
    (s : σ) → (xs : List ι) → Decidable (Along step C s xs)
  | _, [] => .isTrue trivial
  | s, x :: xs =>
    have : Decidable (match step s x with
        | some s' => Along step C s' xs
        | none => True) :=
      match step s x with
      | some s' => decidableAlong C s' xs
      | none => .isTrue trivial
    inferInstanceAs (Decidable (C s x ∧ match step s x with
      | some s' => Along step C s' xs
      | none => True))

theorem along_append {C : σ → ι → Prop} {s : σ} {xs ys : List ι} :
    Along step C s (xs ++ ys) ↔
      Along step C s xs ∧ ∀ s', run step s xs = some s' → Along step C s' ys := by
  induction xs generalizing s with
  | nil => simp [Along, run]
  | cons x xs ih =>
    simp only [List.cons_append, Along, run]
    cases step s x with
    | none => simp
    | some s₁ =>
      simp only [Option.bind_some, ih]
      tauto

theorem along_concat {C : σ → ι → Prop} {s : σ} {xs : List ι} {x : ι} :
    Along step C s (xs ++ [x]) ↔
      Along step C s xs ∧ ∀ s', run step s xs = some s' → C s' x := by
  rw [along_append]
  refine and_congr_right fun _ => forall_congr' fun s' => imp_congr_right fun _ => ?_
  unfold Along
  cases step s' x with
  | none => simp
  | some s₁ => simp [Along]

section Simulation
variable {τ κ : Type} {step' : τ → κ → Option τ} {f : σ → τ} {g : ι → κ}

/-- A run seen through `f` is a run of the machine that each step is seen as. -/
theorem run_map (hstep : ∀ s x, (step s x).map f = step' (f s) (g x)) (s : σ) (xs : List ι) :
    (run step s xs).map f = run step' (f s) (xs.map g) := by
  induction xs generalizing s with
  | nil => rfl
  | cons x xs ih =>
    rw [List.map_cons, run, run, ← hstep s x]
    cases step s x with
    | none => rfl
    | some s' => exact ih s'

theorem along_map (hstep : ∀ s x, (step s x).map f = step' (f s) (g x)) {C : τ → κ → Prop}
    {s : σ} {xs : List ι} (hc : Along step (fun s x => C (f s) (g x)) s xs) :
    Along step' C (f s) (xs.map g) := by
  induction xs generalizing s with
  | nil => trivial
  | cons x xs ih =>
    rw [List.map_cons]
    unfold Along at hc ⊢
    refine ⟨hc.1, ?_⟩
    rw [← hstep s x]
    cases hx : step s x with
    | none => trivial
    | some s' =>
      rw [hx] at hc
      exact ih hc.2

end Simulation

/-- A condition along a run is one along each of its starts. -/
theorem Along.of_prefix {C : σ → ι → Prop} {s : σ} {xs ys : List ι}
    (hc : Along step C s xs) (hys : ys <+: xs) : Along step C s ys := by
  obtain ⟨zs, rfl⟩ := hys
  exact (along_append.mp hc).1

theorem Along.mono {C D : σ → ι → Prop} (hCD : ∀ s x, C s x → D s x) {s : σ} {xs : List ι}
    (hc : Along step C s xs) : Along step D s xs := by
  induction xs generalizing s with
  | nil => trivial
  | cons x xs ih =>
    unfold Along at hc ⊢
    refine ⟨hCD s x hc.1, ?_⟩
    cases hx : step s x with
    | none => trivial
    | some s' =>
      rw [hx] at hc
      exact ih hc.2

/-- From states in `J`, which may look at the inputs to come, a step leads to `P` exactly if it
meets `C`. Then `P` holds at each point of a run exactly if every step meets `C`. -/
theorem prefixes_iff_along {P : σ → Prop} {C : σ → ι → Prop} {J : List ι → σ → Prop}
    (hP : ∀ xs s, J xs s → P s)
    (hstep : ∀ x xs s, J (x :: xs) s →
      ∃ s', step s x = some s' ∧ (P s' ↔ C s x) ∧ (P s' → J xs s'))
    {s : σ} {xs : List ι} (h : J xs s) :
    (∀ ys, ys <+: xs → ∃ s', run step s ys = some s' ∧ P s') ↔ Along step C s xs := by
  induction xs generalizing s with
  | nil =>
    refine ⟨fun _ => trivial, fun _ ys hys => ?_⟩
    rw [List.prefix_nil.mp hys]
    exact ⟨s, rfl, hP [] s h⟩
  | cons x xs ih =>
    obtain ⟨s₁, hx, hiff, hJ⟩ := hstep x xs s h
    have hcons : ∀ ys, run step s (x :: ys) = run step s₁ ys := by
      intro ys
      rw [run, hx, Option.bind_some]
    unfold Along
    rw [hx]
    constructor
    · intro hall
      have hP₁ : P s₁ := by
        obtain ⟨s', hs', hp⟩ := hall [x] (List.prefix_append [x] xs)
        rw [hcons] at hs'
        cases hs'
        exact hp
      refine ⟨hiff.mp hP₁, (ih (hJ hP₁)).mp fun ys hys => ?_⟩
      rw [← hcons]
      exact hall (x :: ys) (List.cons_prefix_cons.mpr ⟨rfl, hys⟩)
    · rintro ⟨hc, hrest⟩ ys hys
      cases ys with
      | nil => exact ⟨s, rfl, hP (x :: xs) s h⟩
      | cons y ys =>
        obtain ⟨rfl, hys'⟩ := List.cons_prefix_cons.mp hys
        rw [hcons]
        exact (ih (hJ (hiff.mpr hc))).mpr hrest ys hys'

end Lib.Run
