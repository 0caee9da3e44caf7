import Mathlib.Tactic

/-! Reasoning about stateful computations that keep their state when they fail. -/
namespace Lib.Effect

variable {ε σ α β : Type}

/-- The state a computation ends in, whether it returned or failed. -/
def final : EStateM.Result ε σ α → σ
  | .ok _ s => s
  | .error _ s => s

/-- What a computation returned, if it did. -/
def value : EStateM.Result ε σ α → Option α
  | .ok a _ => some a
  | .error _ _ => none

theorem ok_of_value {r : EStateM.Result ε σ α} {a : α} (h : value r = some a) :
    ∃ s, r = .ok a s := by
  cases r with
  | ok b s =>
    cases h
    exact ⟨s, rfl⟩
  | error e s => cases h

@[simp] theorem final_ok (a : α) (s : σ) : final (.ok a s : EStateM.Result ε σ α) = s := rfl

@[simp] theorem final_error (e : ε) (s : σ) :
    final (.error e s : EStateM.Result ε σ α) = s := rfl

theorem bind_apply (m : EStateM ε σ α) (f : α → EStateM ε σ β) (s : σ) :
    (m >>= f) s = match m s with
      | .ok a s' => f a s'
      | .error e s' => .error e s' := rfl

theorem pure_apply (a : α) (s : σ) : (pure a : EStateM ε σ α) s = .ok a s := rfl

theorem bind_ok {m : EStateM ε σ α} {f : α → EStateM ε σ β} {s s' : σ} {b : β}
    (h : (m >>= f) s = .ok b s') : ∃ a s₁, m s = .ok a s₁ ∧ f a s₁ = .ok b s' := by
  rw [bind_apply] at h
  cases hm : m s with
  | ok a s₁ => exact ⟨a, s₁, rfl, by simpa [hm] using h⟩
  | error e s₁ => simp [hm] at h

theorem except_bind_ok {x : Except ε α} {f : α → Except ε β} {b : β}
    (h : (x >>= f) = .ok b) : ∃ a, x = .ok a ∧ f a = .ok b := by
  cases x with
  | error e => cases h
  | ok a => exact ⟨a, rfl, h⟩

theorem bind_of_ok {m : EStateM ε σ α} {f : α → EStateM ε σ β} {s s' : σ} {a : α}
    (h : m s = .ok a s') : (m >>= f) s = f a s' := by
  rw [bind_apply, h]

theorem bind_of_error {m : EStateM ε σ α} {f : α → EStateM ε σ β} {s s' : σ} {e : ε}
    (h : m s = .error e s') : (m >>= f) s = .error e s' := by
  rw [bind_apply, h]

theorem final_bind_pure (m : EStateM ε σ α) (f : α → β) (s : σ) :
    final ((m >>= fun a => pure (f a)) s) = final (m s) := by
  cases h : m s with
  | ok a s' =>
    rw [bind_of_ok h]
    rfl
  | error e s' =>
    rw [bind_of_error h]
    rfl

/-- A bound on computations: from states in `pre` they move along `rel`, on success and
on failure, and fail only with errors in `err`. -/
structure Frame (ε σ : Type) where
  pre : σ → Prop
  rel : σ → σ → Prop
  err : ε → Prop
  refl : ∀ s, rel s s
  trans : ∀ {s t u}, rel s t → rel t u → rel s u
  stable : ∀ {s t}, pre s → rel s t → pre t

/-- Run from `s`, the computation stays within the bound. -/
def KeepsAt (F : Frame ε σ) (m : EStateM ε σ α) (s : σ) : Prop :=
  F.rel s (final (m s)) ∧ ∀ e s', m s = .error e s' → F.err e

def Keeps (F : Frame ε σ) (m : EStateM ε σ α) : Prop := ∀ s, F.pre s → KeepsAt F m s

section Keeps
variable {F : Frame ε σ} {m : EStateM ε σ α} {f : α → EStateM ε σ β}

theorem keepsAt_of_ok {a : α} {s s' : σ} (h : m s = .ok a s') (hr : F.rel s s') :
    KeepsAt F m s := by
  unfold KeepsAt
  rw [h]
  exact ⟨hr, fun e' t he => by cases he⟩

theorem keepsAt_of_error {e : ε} {s s' : σ} (h : m s = .error e s') (hr : F.rel s s')
    (he : F.err e) : KeepsAt F m s := by
  unfold KeepsAt
  rw [h]
  refine ⟨hr, fun e' t heq => ?_⟩
  cases heq
  exact he

theorem keepsAt_pure (a : α) (s : σ) : KeepsAt F (pure a : EStateM ε σ α) s :=
  ⟨F.refl s, fun e s' h => by cases h⟩

theorem keepsAt_bind {s : σ} (hm : KeepsAt F m s)
    (hf : ∀ a s', m s = .ok a s' → KeepsAt F (f a) s') : KeepsAt F (m >>= f) s := by
  obtain ⟨hrel, herr⟩ := hm
  unfold KeepsAt
  cases h : m s with
  | error e s₁ =>
    rw [bind_of_error h]
    rw [h] at hrel
    refine ⟨hrel, fun e' s' he => ?_⟩
    cases he
    exact herr e s₁ h
  | ok a s₁ =>
    rw [bind_of_ok h]
    rw [h] at hrel
    obtain ⟨hrel', herr'⟩ := hf a s₁ h
    exact ⟨F.trans hrel hrel', herr'⟩

theorem keepsAt_map {g : α → β} {s : σ} (hm : KeepsAt F m s) : KeepsAt F (g <$> m) s := by
  rw [map_eq_pure_bind]
  exact keepsAt_bind hm fun a s' _ => keepsAt_pure (g a) s'

theorem keeps_pure (a : α) : Keeps F (pure a : EStateM ε σ α) := fun s _ => keepsAt_pure a s

theorem keeps_bind (hm : Keeps F m) (hf : ∀ a, Keeps F (f a)) : Keeps F (m >>= f) := by
  intro s hs
  refine keepsAt_bind (hm s hs) fun a s₁ h => hf a s₁ ?_
  have hrel := (hm s hs).1
  rw [h] at hrel
  exact F.stable hs hrel

theorem keeps_map {g : α → β} (hm : Keeps F m) : Keeps F (g <$> m) :=
  fun s hs => keepsAt_map (hm s hs)

theorem Keeps.ok (hm : Keeps F m) {s s' : σ} {a : α} (hs : F.pre s) (h : m s = .ok a s') :
    F.rel s s' := by
  have hrel := (hm s hs).1
  rwa [h] at hrel

theorem Keeps.error (hm : Keeps F m) {s s' : σ} {e : ε} (hs : F.pre s)
    (h : m s = .error e s') : F.rel s s' ∧ F.err e := by
  obtain ⟨hrel, herr⟩ := hm s hs
  rw [h] at hrel
  exact ⟨hrel, herr e s' h⟩

end Keeps

end Lib.Effect
