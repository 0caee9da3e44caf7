import Mathlib.Tactic

/-! Readers-writer locks, and threads that wait for each other's. -/
namespace Lib.Locks

/-- How a lock is held or asked for. -/
inductive Mode where
  | read
  | write
  deriving DecidableEq, Repr

/-- Only readers share a lock. -/
def Mode.clashes : Mode → Mode → Bool
  | .read, .read => false
  | _, _ => true

theorem Mode.clashes_symm (m m' : Mode) : m.clashes m' = m'.clashes m := by
  cases m <;> cases m' <;> rfl

/-- Whether a lock may be had as `m` while another thread has it as `held`. -/
def Mode.allows (m : Mode) : Option Mode → Bool
  | some held => !m.clashes held
  | none => true

variable {τ κ : Type}

section Waits
variable (holds : τ → κ → Option Mode) (wants : τ → Option (κ × Mode))

/-- `t` cannot go on before `t'` lets go of a lock. -/
def WaitsOn (t t' : τ) : Prop :=
  ∃ l m, wants t = some (l, m) ∧ m.allows (holds t' l) = false

/-- Some threads wait on each other only. -/
def Deadlocked : Prop :=
  ∃ D : Set τ, D.Nonempty ∧ ∀ t ∈ D, ∃ t' ∈ D, WaitsOn holds wants t t'

/-- No two threads hold a lock in modes that clash. -/
def Exclusive : Prop :=
  ∀ t t' l m m', t ≠ t' → holds t l = some m → holds t' l = some m' → m.clashes m' = false

end Waits

section Order
variable {holds : τ → κ → Option Mode} {wants : τ → Option (κ × Mode)}

theorem WaitsOn.held {t t' : τ} (h : WaitsOn holds wants t t') :
    ∃ l m m', wants t = some (l, m) ∧ holds t' l = some m' := by
  obtain ⟨l, m, hw, hno⟩ := h
  cases hh : holds t' l with
  | none =>
    rw [hh] at hno
    cases hno
  | some m' => exact ⟨l, m, m', hw, hh⟩

/-- What a thread of a deadlock waits for has a holder that waits for something higher. -/
theorem wait_climbs {rank : κ → ℕ}
    (horder : ∀ t l m l' m', holds t l = some m → wants t = some (l', m') → rank l < rank l')
    {D : Set τ} (hD : ∀ t ∈ D, ∃ t' ∈ D, WaitsOn holds wants t t') {t : τ} (ht : t ∈ D) {l : κ}
    {m : Mode} (hw : wants t = some (l, m)) :
    ∃ t' ∈ D, ∃ l' m', wants t' = some (l', m') ∧ rank l < rank l' := by
  obtain ⟨t', ht', hwait⟩ := hD t ht
  obtain ⟨l₁, m₁, held, hw₁, hh⟩ := hwait.held
  obtain ⟨t'', -, hwait'⟩ := hD t' ht'
  obtain ⟨l₂, m₂, -, hw₂, -⟩ := hwait'.held
  rw [hw] at hw₁
  cases hw₁
  exact ⟨t', ht', l₂, m₂, hw₂, horder t' l held l₂ m₂ hh hw₂⟩

/-- Threads that take locks in an order never wait in a circle. -/
theorem not_deadlocked_of_order (rank : κ → ℕ) (top : ℕ) (htop : ∀ l, rank l ≤ top)
    (horder : ∀ t l m l' m', holds t l = some m → wants t = some (l', m') → rank l < rank l') :
    ¬ Deadlocked holds wants := by
  rintro ⟨D, ⟨t₀, ht₀⟩, hD⟩
  -- on the room that is left above a wait
  have hclimb : ∀ k, ∀ t ∈ D, ∀ l m, wants t = some (l, m) → top ≤ rank l + k → False := by
    intro k
    induction k with
    | zero =>
      intro t ht l m hw hk
      obtain ⟨t', -, l', m', -, hlt⟩ := wait_climbs horder hD ht hw
      have hle := htop l'
      omega
    | succ k ih =>
      intro t ht l m hw hk
      obtain ⟨t', ht', l', m', hw', hlt⟩ := wait_climbs horder hD ht hw
      exact ih t' ht' l' m' hw' (by omega)
  obtain ⟨t', -, hwait⟩ := hD t₀ ht₀
  obtain ⟨l, m, -, hw, -⟩ := hwait.held
  exact hclimb top t₀ ht₀ l m hw (by omega)

/-- Where nothing is deadlocked, one of the threads that hold or want locks can go on. -/
theorem exists_unblocked (hfree : ¬ Deadlocked holds wants) {A : Set τ} (hA : A.Nonempty)
    (hholds : ∀ t l m, holds t l = some m → t ∈ A) :
    ∃ t ∈ A, ∀ t', ¬ WaitsOn holds wants t t' := by
  by_contra hall
  push Not at hall
  refine hfree ⟨A, hA, fun t ht => ?_⟩
  obtain ⟨t', hwait⟩ := hall t ht
  obtain ⟨l, m, m', -, hh⟩ := hwait.held
  exact ⟨t', hholds t' l m' hh, hwait⟩

variable [DecidableEq τ]

/-- A thread that lets go of locks, or takes those that are to be had, clashes with no other. -/
theorem Exclusive.update (hex : Exclusive holds) {t : τ} {next : κ → Option Mode}
    (hnext : ∀ l m, next l = some m →
      holds t l = some m ∨ ∀ t', t' ≠ t → m.allows (holds t' l) = true) :
    Exclusive (Function.update holds t next) := by
  have hnew : ∀ t' l m m', t' ≠ t → next l = some m → holds t' l = some m' →
      m.clashes m' = false := by
    intro t' l m m' hne hm hm'
    rcases hnext l m hm with hold | hallow
    · exact hex t t' l m m' (Ne.symm hne) hold hm'
    · have ha := hallow t' hne
      rw [hm'] at ha
      exact Bool.not_eq_true' _ |>.mp ha
  intro t₁ t₂ l m m' hne h₁ h₂
  rw [Function.update_apply] at h₁ h₂
  split_ifs at h₁ h₂ with e₁ e₂
  · exact absurd (e₁.trans e₂.symm) hne
  · exact hnew t₂ l m m' e₂ h₁ h₂
  · rw [Mode.clashes_symm]
    exact hnew t₁ l m' m e₁ h₂ h₁
  · exact hex t₁ t₂ l m m' hne h₁ h₂

end Order

end Lib.Locks
