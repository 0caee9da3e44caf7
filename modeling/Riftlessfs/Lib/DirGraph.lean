import Mathlib.Logic.Relation
import Mathlib.Tactic

/-! Directory graphs: nodes with named entries, parent pointers of directories, and a
mark on removed directories. Reachability from a fixed node under the changes a
directory tree goes through. -/
namespace Lib

structure DirGraph (K N : Type) where
  entry : K → N → Option K
  /-- The parent of a directory; `none` for other nodes. -/
  up : K → Option K
  dead : K → Bool

namespace DirGraph

variable {K N : Type}

def IsDir (g : DirGraph K N) (k : K) : Prop := (g.up k).isSome

def Edge (g : DirGraph K N) (x y : K) : Prop := ∃ n, g.entry x n = some y

/-- `y` lies in the subtree of `x`. -/
def Reach (g : DirGraph K N) : K → K → Prop := Relation.ReflTransGen g.Edge

/-- `k` has a name in a directory of the subtree of `r`. -/
def Named (g : DirGraph K N) (r k : K) : Prop := ∃ x n, g.Reach r x ∧ g.entry x n = some k

/-- Parent pointers agree with entries, a directory has one name, removed directories
are empty, and only directories have entries. -/
structure WF (g : DirGraph K N) : Prop where
  owner : ∀ {x n y p}, g.entry x n = some y → g.up y = some p → p = x
  single : ∀ {x n m y}, g.entry x n = some y → g.entry x m = some y → g.IsDir y → n = m
  empty : ∀ {x}, g.dead x = true → ∀ n, g.entry x n = none
  dirs : ∀ {x n y}, g.entry x n = some y → g.IsDir x

variable {g g' : DirGraph K N} {r x y d d' k m : K} {n n' : N}

theorem Reach.refl (g : DirGraph K N) (r : K) : g.Reach r r := Relation.ReflTransGen.refl

theorem Reach.step (h : g.Reach r x) (he : g.entry x n = some y) : g.Reach r y :=
  Relation.ReflTransGen.tail h ⟨n, he⟩

theorem Named.reach (h : g.Named r k) : g.Reach r k := by
  obtain ⟨x, n, hx, he⟩ := h
  exact hx.step he

theorem Reach.named (h : g.Reach r x) (hne : x ≠ r) : g.Named r x := by
  rcases Relation.ReflTransGen.cases_tail h with heq | ⟨y, hy, n, he⟩
  · exact absurd heq hne
  · exact ⟨y, n, hy, he⟩

/-- A set that contains the start and is closed under edges contains the subtree. -/
theorem Reach.closed {P : K → Prop} (h : g.Reach r x) (h₀ : P r)
    (hstep : ∀ y z n, P y → g.entry y n = some z → P z) : P x := by
  induction h with
  | refl => exact h₀
  | tail _ he ih =>
    obtain ⟨n, he⟩ := he
    exact hstep _ _ n ih he

/-- Only the start can be reached without entering it. -/
theorem Reach.eq_of_leaf (h : g.Reach r x) (hr : ∀ n, g.entry r n = none) : x = r := by
  rcases Relation.ReflTransGen.cases_head h with heq | ⟨y, ⟨n, he⟩, _⟩
  · exact heq.symm
  · simp [hr n] at he

section Ops
variable [DecidableEq K]

/-- A new node without entries; a directory when it has a parent. -/
def alloc (g : DirGraph K N) (k : K) (up : Option K) : DirGraph K N where
  entry x n := if x = k then none else g.entry x n
  up x := if x = k then up else g.up x
  dead x := if x = k then false else g.dead x

def reparent (g : DirGraph K N) (k p : K) : DirGraph K N :=
  { g with up := fun x => if x = k ∧ (g.up k).isSome then some p else g.up x }

def kill (g : DirGraph K N) (k : K) : DirGraph K N :=
  { g with dead := fun x => if x = k ∧ (g.up k).isSome then true else g.dead x }

variable [DecidableEq N]

def bind (g : DirGraph K N) (d : K) (n : N) (k : K) : DirGraph K N :=
  { g with entry := fun x m => if x = d ∧ m = n then some k else g.entry x m }

def unbind (g : DirGraph K N) (d : K) (n : N) : DirGraph K N :=
  { g with entry := fun x m => if x = d ∧ m = n then none else g.entry x m }

/-- Make a node under a new name. -/
def create (g : DirGraph K N) (d : K) (n : N) (k : K) (up : Option K) : DirGraph K N :=
  (g.alloc k up).bind d n k

/-- Remove a name; a directory it named dies. -/
def remove (g : DirGraph K N) (d : K) (n : N) (k : K) : DirGraph K N :=
  (g.unbind d n).kill k

/-- Move the name `n` of `m` in `d` to the name `n'` in `d'`. -/
def move (g : DirGraph K N) (d : K) (n : N) (d' : K) (n' : N) (m : K) : DirGraph K N :=
  ((g.unbind d n).bind d' n' m).reparent m d'

/-- Whether `d` is `m` or lies below it by its chain of parents. An exhausted walk
counts as below. -/
def below (g : DirGraph K N) (m : K) : ℕ → K → Bool
  | 0, _ => true
  | fuel + 1, d =>
    if d = m then true
    else match g.up d with
      | none => false
      | some p => if p = d then false else g.below m fuel p

end Ops

/-- A node other than `r` that no entry names. -/
def Unused (g : DirGraph K N) (r k : K) : Prop := k ≠ r ∧ ∀ x n, g.entry x n ≠ some k

def Leaf (g : DirGraph K N) (k : K) : Prop := ∀ n, g.entry k n = none

theorem Unused.ne_of_reach (hu : g.Unused r k) (h : g.Reach r x) : x ≠ k := by
  rintro rfl
  obtain ⟨y, n, -, he⟩ := h.named hu.1
  exact hu.2 y n he

theorem WF.leaf_of_not_dir (hw : g.WF) (hk : ¬ g.IsDir k) : g.Leaf k := by
  intro n
  cases he : g.entry k n with
  | none => rfl
  | some y => exact absurd (hw.dirs he) hk

theorem WF.alive (hw : g.WF) (he : g.entry x n = some y) : g.dead x = false := by
  cases hd : g.dead x with
  | false => rfl
  | true => simp [hw.empty hd n] at he

theorem kill_of_not_dir [DecidableEq K] (hk : ¬ g.IsDir k) : g.kill k = g := by
  unfold kill
  have hup : (g.up k).isSome = false := Bool.eq_false_iff.mpr hk
  simp only [hup, Bool.false_eq_true, and_false, if_false]

section Changes
variable [DecidableEq K] [DecidableEq N]

section Create
variable {up : Option K}

theorem create_entry (x : K) (l : N) :
    (g.create d n k up).entry x l =
      if x = d ∧ l = n then some k else if x = k then none else g.entry x l := rfl

theorem create_up (x : K) : (g.create d n k up).up x = if x = k then up else g.up x := rfl

theorem create_dead (x : K) :
    (g.create d n k up).dead x = if x = k then false else g.dead x := rfl

theorem WF.create (hw : g.WF) (hd : g.IsDir d) (ha : g.dead d = false) (hdk : d ≠ k)
    (hk : ∀ x l, g.entry x l ≠ some k) (hup : ∀ p, up = some p → p = d) :
    (g.create d n k up).WF := by
  have hold : ∀ {x l y}, (g.create d n k up).entry x l = some y →
      (x = d ∧ l = n ∧ y = k) ∨ (x ≠ k ∧ y ≠ k ∧ g.entry x l = some y) := by
    intro x l y he
    rw [create_entry] at he
    split_ifs at he with h₁ h₂
    · exact Or.inl ⟨h₁.1, h₁.2, (Option.some.inj he).symm⟩
    · refine Or.inr ⟨h₂, ?_, he⟩
      rintro rfl
      exact hk x l he
  constructor
  · intro x l y p he hp
    rw [create_up] at hp
    rcases hold he with ⟨rfl, rfl, rfl⟩ | ⟨-, hy, he⟩
    · rw [if_pos rfl] at hp
      exact hup p hp
    · rw [if_neg hy] at hp
      exact hw.owner he hp
  · intro x l₁ l₂ y h₁ h₂ hy
    rcases hold h₁ with ⟨rfl, rfl, rfl⟩ | ⟨-, hyk, h₁⟩
    · rcases hold h₂ with ⟨-, rfl, -⟩ | ⟨-, hyk, -⟩
      · rfl
      · exact absurd rfl hyk
    · rcases hold h₂ with ⟨-, -, rfl⟩ | ⟨-, -, h₂⟩
      · exact absurd rfl hyk
      · rw [IsDir, create_up, if_neg hyk] at hy
        exact hw.single h₁ h₂ hy
  · intro x hx l
    rw [create_dead] at hx
    split_ifs at hx with hxk
    cases he : (g.create d n k up).entry x l with
    | none => rfl
    | some y =>
      rcases hold he with ⟨rfl, -, -⟩ | ⟨-, -, he⟩
      · simp [ha] at hx
      · simp [hw.empty hx l] at he
  · intro x l y he
    rw [IsDir, create_up]
    rcases hold he with ⟨rfl, -, -⟩ | ⟨hx, -, he⟩
    · rw [if_neg hdk]
      exact hd
    · rw [if_neg hx]
      exact hw.dirs he

theorem Reach.create (h : g.Reach r x) (hfree : g.entry d n = none) (hu : g.Unused r k) :
    (g.create d n k up).Reach r x := by
  refine (h.closed (P := fun y => g.Reach r y ∧ (g.create d n k up).Reach r y)
    ⟨Reach.refl g r, Reach.refl _ r⟩ ?_).2
  rintro y z l ⟨hy, hy'⟩ he
  refine ⟨hy.step he, hy'.step (n := l) ?_⟩
  rw [create_entry, if_neg, if_neg (hu.ne_of_reach hy), he]
  rintro ⟨rfl, rfl⟩
  simp [hfree] at he

theorem reach_create_inv (h : (g.create d n k up).Reach r x) :
    x = k ∨ g.Reach r x := by
  refine h.closed (P := fun y => y = k ∨ g.Reach r y) (Or.inr (Reach.refl g r)) ?_
  intro y z l hy he
  rw [create_entry] at he
  split_ifs at he with h₁ h₂
  · exact Or.inl (Option.some.inj he).symm
  · exact Or.inr ((hy.resolve_left h₂).step he)

theorem named_create_inv (h : (g.create d n k up).Named r x) (hx : x ≠ k) :
    g.Named r x := by
  obtain ⟨y, l, hy, he⟩ := h
  rw [create_entry] at he
  split_ifs at he with h₁ h₂
  · exact absurd (Option.some.inj he).symm hx
  · exact ⟨y, l, (reach_create_inv hy).resolve_left h₂, he⟩

end Create

section Remove

theorem remove_entry (x : K) (l : N) :
    (g.remove d n k).entry x l = if x = d ∧ l = n then none else g.entry x l := rfl

theorem remove_up : (g.remove d n k).up = g.up := rfl

theorem remove_dead (x : K) :
    (g.remove d n k).dead x = if x = k ∧ (g.up k).isSome then true else g.dead x := rfl

theorem remove_entry_some {x y : K} {l : N} (he : (g.remove d n k).entry x l = some y) :
    g.entry x l = some y ∧ ¬ (x = d ∧ l = n) := by
  rw [remove_entry] at he
  split_ifs at he with h
  exact ⟨he, h⟩

theorem WF.remove (hw : g.WF) (hk : g.Leaf k) : (g.remove d n k).WF := by
  constructor
  · intro x l y p he hp
    exact hw.owner (remove_entry_some he).1 hp
  · intro x l₁ l₂ y h₁ h₂ hy
    exact hw.single (remove_entry_some h₁).1 (remove_entry_some h₂).1 hy
  · intro x hx l
    rw [remove_entry]
    split_ifs with h
    · rfl
    · rw [remove_dead] at hx
      split_ifs at hx with hxk
      · rw [hxk.1]
        exact hk l
      · exact hw.empty hx l
  · intro x l y he
    exact hw.dirs (remove_entry_some he).1

theorem Reach.remove (h : g.Reach r x) (hk : g.Leaf k) (he : g.entry d n = some k) :
    x = k ∨ (g.remove d n k).Reach r x := by
  refine h.closed (P := fun y => y = k ∨ (g.remove d n k).Reach r y)
    (Or.inr (Reach.refl _ r)) ?_
  rintro y z l (rfl | hy) hz
  · simp [hk l] at hz
  · by_cases hdn : y = d ∧ l = n
    · obtain ⟨rfl, rfl⟩ := hdn
      rw [he] at hz
      exact Or.inl (Option.some.inj hz).symm
    · exact Or.inr (hy.step (n := l) (by rw [remove_entry, if_neg hdn, hz]))

theorem reach_remove_inv (h : (g.remove d n k).Reach r x) : g.Reach r x :=
  h.closed (Reach.refl g r) fun _ _ _ hy he => hy.step (remove_entry_some he).1

theorem named_remove_inv (h : (g.remove d n k).Named r x) : g.Named r x := by
  obtain ⟨y, l, hy, he⟩ := h
  exact ⟨y, l, reach_remove_inv hy, (remove_entry_some he).1⟩

end Remove

section Link

theorem bind_entry (x : K) (l : N) :
    (g.bind d n k).entry x l = if x = d ∧ l = n then some k else g.entry x l := rfl

theorem WF.link (hw : g.WF) (hd : g.IsDir d) (ha : g.dead d = false) (hk : ¬ g.IsDir k) :
    (g.bind d n k).WF := by
  have hold : ∀ {x l y}, (g.bind d n k).entry x l = some y → g.IsDir y →
      g.entry x l = some y := by
    intro x l y he hy
    rw [bind_entry] at he
    split_ifs at he with h
    · cases he
      exact absurd hy hk
    · exact he
  constructor
  · intro x l y p he hp
    exact hw.owner (hold he (by rw [IsDir, show g.up y = some p from hp]; rfl)) hp
  · intro x l₁ l₂ y h₁ h₂ hy
    exact hw.single (hold h₁ hy) (hold h₂ hy) hy
  · intro x hx l
    rw [bind_entry, if_neg]
    · exact hw.empty hx l
    · rintro ⟨rfl, -⟩
      simp [show g.dead x = true from hx] at ha
  · intro x l y he
    rw [bind_entry] at he
    split_ifs at he with h
    · rw [h.1]
      exact hd
    · exact hw.dirs he

theorem Reach.link (h : g.Reach r x) (hfree : g.entry d n = none) :
    (g.bind d n k).Reach r x := by
  refine h.closed (Reach.refl _ r) fun y z l hy he => hy.step (n := l) ?_
  rw [bind_entry, if_neg, he]
  rintro ⟨rfl, rfl⟩
  simp [hfree] at he

theorem reach_link_inv (hk : g.Leaf k) (h : (g.bind d n k).Reach r x) :
    x = k ∨ g.Reach r x := by
  refine h.closed (P := fun y => y = k ∨ g.Reach r y) (Or.inr (Reach.refl g r)) ?_
  intro y z l hy he
  rw [bind_entry] at he
  split_ifs at he with h₁
  · exact Or.inl (Option.some.inj he).symm
  · rcases hy with rfl | hy
    · simp [hk l] at he
    · exact Or.inr (hy.step he)

theorem named_link_inv (hk : g.Leaf k) (h : (g.bind d n k).Named r x) (hx : x ≠ k) :
    g.Named r x := by
  obtain ⟨y, l, hy, he⟩ := h
  rw [bind_entry] at he
  split_ifs at he with h₁
  · exact absurd (Option.some.inj he).symm hx
  · rcases reach_link_inv hk hy with rfl | hy
    · simp [hk l] at he
    · exact ⟨y, l, hy, he⟩

end Link

end Changes

end DirGraph

end Lib
