import Mathlib.Tactic

/-! Open resources and their owners. A resource that is open is loose, or has exactly one
owner. -/
namespace Lib.Ownership

variable {ι κ : Type}

/-- The open resources are the loose and the owned ones; none is both, and none has two owners. -/
structure Books (opened : Set κ) (own : ι → Option κ) (loose : Set κ) : Prop where
  covers : ∀ k, k ∈ opened ↔ k ∈ loose ∨ ∃ o, own o = some k
  apart : ∀ k ∈ loose, ∀ o, own o ≠ some k
  once : ∀ o o' k, own o = some k → own o' = some k → o = o'

section Books
variable {opened loose : Set κ} {own : ι → Option κ} {k : κ} {o : ι}

theorem Books.owned_opened (hb : Books opened own loose) (h : own o = some k) : k ∈ opened :=
  (hb.covers k).mpr (Or.inr ⟨o, h⟩)

/-- A resource just opened is loose. -/
theorem Books.acquire (hb : Books opened own loose) (hk : k ∉ opened) :
    Books (insert k opened) own (insert k loose) := by
  refine ⟨fun x => ?_, fun x hx o' ho' => ?_, hb.once⟩
  · rw [Set.mem_insert_iff, Set.mem_insert_iff, hb.covers x, or_assoc]
  · rcases hx with rfl | hx
    · exact hk (hb.owned_opened ho')
    · exact hb.apart x hx o' ho'

/-- Closing a loose resource. -/
theorem Books.discard (hb : Books opened own (insert k loose)) (hk : k ∉ loose) :
    Books (opened \ {k}) own loose := by
  have hfree : ∀ o', own o' ≠ some k := hb.apart k (Set.mem_insert k loose)
  refine ⟨fun x => ?_, fun x hx => hb.apart x (Set.mem_insert_of_mem k hx), hb.once⟩
  rw [Set.mem_sdiff, Set.mem_singleton_iff, hb.covers x, Set.mem_insert_iff]
  constructor
  · rintro ⟨(rfl | hx) | hx, hne⟩
    · exact absurd rfl hne
    · exact Or.inl hx
    · exact Or.inr hx
  · rintro (hx | ⟨o', ho'⟩)
    · exact ⟨Or.inl (Or.inr hx), fun heq => hk (heq ▸ hx)⟩
    · exact ⟨Or.inr ⟨o', ho'⟩, fun heq => hfree o' (heq ▸ ho')⟩

variable [DecidableEq ι]

/-- A loose resource gets an owner. -/
theorem Books.give (hb : Books opened own (insert k loose)) (hk : k ∉ loose) (ho : own o = none) :
    Books opened (Function.update own o (some k)) loose := by
  have hfree : ∀ o', own o' ≠ some k := hb.apart k (Set.mem_insert k loose)
  have hnew : ∀ o' x, Function.update own o (some k) o' = some x ↔
      (o' = o ∧ x = k) ∨ own o' = some x := by
    intro o' x
    rw [Function.update_apply]
    split_ifs with h
    · subst h
      simp [ho, eq_comm]
    · simp [h]
  refine ⟨fun x => ?_, fun x hx o' ho' => ?_, fun o₁ o₂ x h₁ h₂ => ?_⟩
  · rw [hb.covers x, Set.mem_insert_iff]
    simp only [hnew, exists_or, exists_eq_left]
    tauto
  · rcases (hnew o' x).mp ho' with ⟨-, rfl⟩ | ho'
    · exact hk hx
    · exact hb.apart x (Set.mem_insert_of_mem k hx) o' ho'
  · rcases (hnew o₁ x).mp h₁ with ⟨ho₁, hx₁⟩ | ho₁ <;>
      rcases (hnew o₂ x).mp h₂ with ⟨ho₂, hx₂⟩ | ho₂
    · rw [ho₁, ho₂]
    · exact absurd (hx₁ ▸ ho₂) (hfree o₂)
    · exact absurd (hx₂ ▸ ho₁) (hfree o₁)
    · exact hb.once o₁ o₂ x ho₁ ho₂

/-- An owner goes, and its resource is closed. -/
theorem Books.retire (hb : Books opened own loose) (ho : own o = some k) :
    Books (opened \ {k}) (Function.update own o none) loose := by
  have hold : ∀ o' x, Function.update own o none o' = some x ↔ o' ≠ o ∧ own o' = some x := by
    intro o' x
    rw [Function.update_apply]
    split_ifs with h <;> simp [h]
  refine ⟨fun x => ?_, fun x hx o' ho' => ?_, fun o₁ o₂ x h₁ h₂ => ?_⟩
  · rw [Set.mem_sdiff, Set.mem_singleton_iff, hb.covers x]
    simp only [hold]
    constructor
    · rintro ⟨hx | ⟨o', ho'⟩, hne⟩
      · exact Or.inl hx
      · refine Or.inr ⟨o', ?_, ho'⟩
        rintro rfl
        exact hne (Option.some.inj (ho'.symm.trans ho))
    · rintro (hx | ⟨o', hne, ho'⟩)
      · exact ⟨Or.inl hx, fun heq => hb.apart x hx o (heq ▸ ho)⟩
      · exact ⟨Or.inr ⟨o', ho'⟩, fun heq => hne (hb.once o' o x ho' (heq ▸ ho))⟩
  · exact hb.apart x hx o' ((hold o' x).mp ho').2
  · exact hb.once o₁ o₂ x ((hold o₁ x).mp h₁).2 ((hold o₂ x).mp h₂).2

/-- An owner hands its resource to one that has none. -/
theorem Books.pass (hb : Books opened own loose) {o' : ι} (ho : own o = some k)
    (ho' : own o' = none) :
    Books opened (Function.update (Function.update own o none) o' (some k)) loose := by
  have hopened : insert k (opened \ {k}) = opened := by
    rw [Set.insert_sdiff_singleton]
    exact Set.insert_eq_of_mem (hb.owned_opened ho)
  have hloose : k ∉ loose := fun hk => hb.apart k hk o ho
  have hkept := (hb.retire ho).acquire (k := k) (fun hk => hk.2 rfl)
  rw [hopened] at hkept
  apply hkept.give hloose
  rw [Function.update_apply]
  split_ifs
  · rfl
  · exact ho'

end Books

end Lib.Ownership
