import Riftlessfs.Core.HostGraph
import Riftlessfs.Lib.Effect

/-! Resolution of single-component paths. -/
namespace Riftlessfs.Core
open Lib Lib.Effect

/-- A name that is one path component: no `/` in it. -/
def Slashless (n : Name) : Prop := slash ∉ n

/-- A name a directory entry can have. -/
def Plain (n : Name) : Prop := n ≠ [] ∧ slash ∉ n ∧ n ≠ dot ∧ n ≠ dotdot

instance (n : Name) : Decidable (Slashless n) := inferInstanceAs (Decidable (slash ∉ n))

instance (n : Name) : Decidable (Plain n) :=
  inferInstanceAs (Decidable (n ≠ [] ∧ slash ∉ n ∧ n ≠ dot ∧ n ≠ dotdot))

/-- What the component `n` names in directory `base`. -/
def target (g : DirGraph FileKey Name) (base : FileKey) (n : Name) : Option FileKey :=
  match g.up base with
  | none => none
  | some up =>
    if n = [] then none
    else if n = dot then some base
    else if n = dotdot then some up
    else g.entry base n

variable {g : DirGraph FileKey Name} {h : Host} {base k : FileKey} {n : Name} {follow : Bool}

theorem target_isDir (ht : target g base n = some k) : g.IsDir base := by
  unfold target at ht
  unfold DirGraph.IsDir
  cases hup : g.up base with
  | none => simp [hup] at ht
  | some up => rfl

theorem target_plain (hn : Plain n) (hd : g.IsDir base) :
    target g base n = g.entry base n := by
  obtain ⟨up, hup⟩ := Option.isSome_iff_exists.mp hd
  simp [target, hup, hn.1, hn.2.2.1, hn.2.2.2]

theorem entry_of_target (hn : Plain n) (ht : target g base n = some k) :
    g.entry base n = some k := by
  rwa [target_plain hn (target_isDir ht)] at ht

namespace Host

private theorem components_slashless (hn : Slashless n) (hne : n ≠ []) : components n = [n] := by
  unfold components
  rw [List.splitOn_eq_singleton hn]
  simp [hne]

theorem mustDir_slashless (hn : Slashless n) : mustDir n = false := by
  unfold mustDir
  rw [decide_eq_false_iff_not]
  intro hlast
  exact hn (List.mem_of_getLast? hlast)

/-- The last component is not a link that would be followed. -/
def NoLink (h : Host) (follow : Bool) (base : FileKey) (n : Name) : Prop :=
  follow = false ∨ ∀ k, target h.graph base n = some k → h.isSymlink k = false

theorem resolve_slashless (hn : Slashless n) (hl : h.NoLink follow base n) :
    h.resolve follow base n =
      if n = [] then .error ENOENT
      else match h.dirParent base with
        | none => .error ENOTDIR
        | some up =>
          if n = dot then .ok (.dir base)
          else if n = dotdot then .ok (.dir up)
          else .ok (.entry base n) := by
  unfold resolve
  by_cases hne : n = []
  · rw [if_pos hne, if_pos hne]
  rw [if_neg hne, if_neg hne]
  have hhead : ¬ n.head? = some slash := fun hh => hn (List.mem_of_mem_head? hh)
  rw [if_neg hhead, components_slashless hn hne]
  unfold walk walkAux
  cases hup : h.dirParent base with
  | none => rfl
  | some up =>
    simp only [walkAux]
    by_cases h₁ : n = dot
    · rw [if_pos h₁, if_pos h₁]
    by_cases h₂ : n = dotdot
    · rw [if_neg h₁, if_neg h₁, if_pos h₂, if_pos h₂]
    rw [if_neg h₁, if_neg h₁, if_neg h₂, if_neg h₂]
    cases he : h.entry base n with
    | none => simp
    | some k =>
      simp only [true_and, if_true]
      split
      · rename_i t info hv
        have hf : follow = false := by
          rcases hl with hf | hl
          · exact hf
          · have hdir : h.graph.IsDir base := by
              unfold DirGraph.IsDir
              rw [graph_up, hup]
              rfl
            have hk := hl k (by rw [target_plain ⟨hne, hn, h₁, h₂⟩ hdir]; exact he)
            simp [isSymlink, hv] at hk
        simp [hf]
      · rfl

/-- Where a single component leads. -/
theorem resolve_cases (hn : Slashless n) (hl : h.NoLink follow base n) {place : Place}
    (hr : h.resolve follow base n = .ok place) :
    n ≠ [] ∧ ∃ up, h.dirParent base = some up ∧
      ((n = dot ∧ place = .dir base) ∨ (n ≠ dot ∧ n = dotdot ∧ place = .dir up) ∨
        (n ≠ dot ∧ n ≠ dotdot ∧ place = .entry base n)) := by
  rw [resolve_slashless hn hl] at hr
  by_cases hne : n = []
  · simp [hne] at hr
  rw [if_neg hne] at hr
  refine ⟨hne, ?_⟩
  cases hup : h.dirParent base with
  | none => simp [hup] at hr
  | some up =>
    simp only [hup] at hr
    refine ⟨up, rfl, ?_⟩
    split_ifs at hr with h₁ h₂
    · cases hr
      exact Or.inl ⟨h₁, rfl⟩
    · cases hr
      exact Or.inr (Or.inl ⟨h₁, h₂, rfl⟩)
    · cases hr
      exact Or.inr (Or.inr ⟨h₁, h₂, rfl⟩)

theorem fileAt_resolve (hn : Slashless n) (hl : h.NoLink follow base n) {place : Place}
    (hr : h.resolve follow base n = .ok place) : h.fileAt place = target h.graph base n := by
  obtain ⟨hne, up, hup, hcases⟩ := resolve_cases hn hl hr
  unfold target
  rw [graph_up, hup]
  simp only [hne, if_false]
  rcases hcases with ⟨h₁, rfl⟩ | ⟨h₁, h₂, rfl⟩ | ⟨h₁, h₂, rfl⟩
  · rw [if_pos h₁]
    rfl
  · rw [if_neg h₁, if_pos h₂]
    rfl
  · rw [if_neg h₁, if_neg h₂]
    rfl

theorem resolve_entry (hn : Slashless n) (hl : h.NoLink follow base n) {d : FileKey} {m : Name}
    (hr : h.resolve follow base n = .ok (.entry d m)) :
    d = base ∧ m = n ∧ Plain n ∧ h.isDir base = true := by
  obtain ⟨hne, up, hup, hcases⟩ := resolve_cases hn hl hr
  rcases hcases with ⟨-, hp⟩ | ⟨-, -, hp⟩ | ⟨h₁, h₂, hp⟩
  · cases hp
  · cases hp
  · cases hp
    exact ⟨rfl, rfl, ⟨hne, hn, h₁, h₂⟩, by simp [isDir, hup]⟩

theorem lookupPath_ok (hn : Slashless n) (hl : h.NoLink follow base n)
    (hk : h.lookupPath follow base n = .ok k) : target h.graph base n = some k := by
  unfold lookupPath at hk
  rw [mustDir_slashless hn, Bool.or_false] at hk
  obtain ⟨place, hr, hk⟩ := except_bind_ok hk
  rw [← fileAt_resolve hn hl hr]
  cases hf : h.fileAt place with
  | none => simp [hf] at hk
  | some k' =>
    simp only [hf, Bool.false_and, Bool.false_eq_true, if_false, Except.ok.injEq] at hk
    rw [hk]

theorem lookupPath_of_target (hn : Slashless n) (hl : h.NoLink follow base n)
    (ht : target h.graph base n = some k) : h.lookupPath follow base n = .ok k := by
  cases hr : h.resolve follow base n with
  | error e =>
    rw [resolve_slashless hn hl] at hr
    unfold target at ht
    rw [graph_up] at ht
    cases hup : h.dirParent base with
    | none => simp [hup] at ht
    | some up =>
      simp only [hup] at hr ht
      split_ifs at hr ht
  | ok place =>
    unfold lookupPath
    rw [mustDir_slashless hn, Bool.or_false]
    simp only [hr, Bind.bind, Except.bind, fileAt_resolve hn hl hr, ht]
    rfl

end Host

end Riftlessfs.Core
