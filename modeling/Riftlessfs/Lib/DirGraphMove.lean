import Riftlessfs.Lib.DirGraph

/-! Moving a name in a directory graph: the loop check, and what stays reachable. -/
namespace Lib.DirGraph

variable {K N : Type} {g : DirGraph K N} {r x y d d' k m t : K} {n n' : N}

/-- `x` is reached from `r` without passing `m`. -/
def Avoids (g : DirGraph K N) (m r x : K) : Prop :=
  r ≠ m ∧ Relation.ReflTransGen (fun a b => g.Edge a b ∧ b ≠ m) r x

theorem avoids_of_leaf (hm : g.Leaf m) (hx : x ≠ m) (h : g.Reach r x) : g.Avoids m r x := by
  have hrm : r ≠ m := by
    rintro rfl
    exact hx (h.eq_of_leaf hm)
  induction h with
  | refl => exact ⟨hrm, .refl⟩
  | @tail b c _ he ih =>
    have hb : b ≠ m := by
      rintro rfl
      obtain ⟨n, he⟩ := he
      simp [hm n] at he
    exact ⟨hrm, (ih hb).2.tail ⟨he, hx⟩⟩

section
variable [DecidableEq K]

/-- The chain of parents of a reachable directory is its path, so a walk that misses
`m` shows that the path does. -/
theorem WF.avoids_of_below (hw : g.WF) (h : g.Reach r x) (hx : g.IsDir x) {fuel : ℕ}
    (hb : g.below m fuel x = false) : g.Avoids m r x := by
  induction h generalizing fuel with
  | refl =>
    cases fuel with
    | zero => simp [below] at hb
    | succ fuel =>
      rw [below] at hb
      split_ifs at hb with h
      exact ⟨h, .refl⟩
  | @tail b c _ he ih =>
    obtain ⟨l, he⟩ := he
    obtain ⟨p, hp⟩ := Option.isSome_iff_exists.mp hx
    obtain rfl := hw.owner he hp
    have hdir := hw.dirs he
    cases fuel with
    | zero => simp [below] at hb
    | succ fuel =>
      have hb' := hb
      simp only [below, hp] at hb'
      split_ifs at hb' with hcm hpc
      · subst hpc
        exact ih hdir hb
      · obtain ⟨hr, hpath⟩ := ih hdir hb'
        exact ⟨hr, hpath.tail ⟨⟨l, he⟩, hcm⟩⟩

theorem WF.kill (hw : g.WF) (ht : g.Leaf t) : (g.kill t).WF := by
  refine ⟨hw.owner, hw.single, ?_, hw.dirs⟩
  intro x hx l
  by_cases hxt : x = t
  · rw [hxt]
    exact ht l
  · exact hw.empty (by simpa [DirGraph.kill, hxt] using hx) l

variable [DecidableEq N]

theorem move_entry (x : K) (l : N) : (g.move d n d' n' m).entry x l =
    if x = d' ∧ l = n' then some m else if x = d ∧ l = n then none else g.entry x l := rfl

theorem move_up (x : K) : (g.move d n d' n' m).up x =
    if x = m ∧ (g.up m).isSome then some d' else g.up x := rfl

theorem move_isDir : (g.move d n d' n' m).IsDir x ↔ g.IsDir x := by
  rw [IsDir, IsDir, move_up]
  split_ifs with h
  · rw [h.1]
    simp [h.2]
  · rfl

theorem move_entry_some {l : N} (h : (g.move d n d' n' m).entry x l = some y) :
    (x = d' ∧ l = n' ∧ y = m) ∨
      (¬ (x = d' ∧ l = n') ∧ ¬ (x = d ∧ l = n) ∧ g.entry x l = some y) := by
  rw [move_entry] at h
  split_ifs at h with h₁ h₂
  · exact Or.inl ⟨h₁.1, h₁.2, (Option.some.inj h).symm⟩
  · exact Or.inr ⟨h₁, h₂, h⟩

/-- A moved directory keeps no old name. -/
theorem WF.move_entry_dir (hw : g.WF) (he : g.entry d n = some m) {l : N}
    (h : (g.move d n d' n' m).entry x l = some m) (hm : g.IsDir m) : x = d' ∧ l = n' := by
  rcases move_entry_some h with ⟨hx, hl, -⟩ | ⟨-, hdn, hold⟩
  · exact ⟨hx, hl⟩
  · obtain ⟨p, hp⟩ := Option.isSome_iff_exists.mp hm
    obtain rfl := hw.owner hold hp
    obtain rfl := hw.owner he hp
    exact absurd ⟨rfl, hw.single hold he hm⟩ hdn

theorem WF.move (hw : g.WF) (he : g.entry d n = some m) (hd : g.IsDir d')
    (ha : g.dead d' = false) : (g.move d n d' n' m).WF := by
  constructor
  · intro x l y p hxy hp
    rw [move_up] at hp
    split_ifs at hp with hym
    · rw [hym.1] at hxy
      rw [(hw.move_entry_dir he hxy hym.2).1]
      exact (Option.some.inj hp).symm
    · rcases move_entry_some hxy with ⟨rfl, rfl, rfl⟩ | ⟨-, -, hold⟩
      · exact absurd ⟨rfl, by simp [hp]⟩ hym
      · exact hw.owner hold hp
  · intro x l₁ l₂ y h₁ h₂ hy
    rw [move_isDir] at hy
    by_cases hym : y = m
    · subst hym
      rw [(hw.move_entry_dir he h₁ hy).2, (hw.move_entry_dir he h₂ hy).2]
    · rcases move_entry_some h₁ with ⟨-, -, h⟩ | ⟨-, -, h₁⟩
      · exact absurd h hym
      · rcases move_entry_some h₂ with ⟨-, -, h⟩ | ⟨-, -, h₂⟩
        · exact absurd h hym
        · exact hw.single h₁ h₂ hy
  · intro x hx l
    cases h : (g.move d n d' n' m).entry x l with
    | none => rfl
    | some y =>
      have hx' : g.dead x = true := hx
      rcases move_entry_some h with ⟨rfl, -, -⟩ | ⟨-, -, h⟩
      · simp [ha] at hx'
      · simp [hw.empty hx' l] at h
  · intro x l y h
    rw [move_isDir]
    rcases move_entry_some h with ⟨rfl, -, -⟩ | ⟨-, -, h⟩
    · exact hd
    · exact hw.dirs h

/-- What the overwritten entry names has to be empty. -/
def Overwrites (g : DirGraph K N) (d' : K) (n' : N) : Prop :=
  ∀ t, g.entry d' n' = some t → g.Leaf t

theorem Reach.move_target (ho : g.Overwrites d' n') (he : g.entry d n = some m)
    (h : g.Avoids m r d') : (g.move d n d' n' m).Reach r d' := by
  have key : ∀ y, Relation.ReflTransGen (fun a b => g.Edge a b ∧ b ≠ m) r y →
      g.entry d' n' = some y ∨ (g.move d n d' n' m).Reach r y := by
    intro y hy
    induction hy with
    | refl => exact Or.inr (Reach.refl _ r)
    | @tail b c _ hbc ih =>
      obtain ⟨⟨l, hl⟩, hcm⟩ := hbc
      rcases ih with hb | hb
      · simp [ho b hb l] at hl
      · by_cases h₁ : b = d' ∧ l = n'
        · obtain ⟨rfl, rfl⟩ := h₁
          exact Or.inl hl
        · refine Or.inr (hb.step (n := l) ?_)
          rw [move_entry, if_neg h₁, if_neg, hl]
          rintro ⟨rfl, rfl⟩
          rw [he] at hl
          exact hcm (Option.some.inj hl).symm
  rcases key d' h.2 with hd | hd
  · simp [ho d' hd n'] at hd
  · exact hd

/-- After a move everything is still reachable, except what it overwrote. -/
theorem Reach.move (hx : g.Reach r x) (ho : g.Overwrites d' n') (he : g.entry d n = some m)
    (h : g.Avoids m r d') :
    g.entry d' n' = some x ∨ (g.move d n d' n' m).Reach r x := by
  have hd' := Reach.move_target ho he h
  refine hx.closed (P := fun y => g.entry d' n' = some y ∨ (g.move d n d' n' m).Reach r y)
    (Or.inr (Reach.refl _ r)) ?_
  rintro y z l (hy | hy) hz
  · simp [ho y hy l] at hz
  · by_cases h₁ : y = d' ∧ l = n'
    · obtain ⟨rfl, rfl⟩ := h₁
      exact Or.inl hz
    by_cases h₂ : y = d ∧ l = n
    · obtain ⟨rfl, rfl⟩ := h₂
      rw [he] at hz
      cases hz
      exact Or.inr (hd'.step (n := n') (by rw [move_entry, if_pos ⟨rfl, rfl⟩]))
    · exact Or.inr (hy.step (n := l) (by rw [move_entry, if_neg h₁, if_neg h₂, hz]))

theorem reach_move_inv (hd : g.Reach r d) (he : g.entry d n = some m)
    (h : (g.move d n d' n' m).Reach r x) : g.Reach r x := by
  refine h.closed (Reach.refl g r) fun y z l hy hz => ?_
  rcases move_entry_some hz with ⟨-, -, rfl⟩ | ⟨-, -, hz⟩
  · exact hd.step he
  · exact hy.step hz

theorem named_move_inv (hd : g.Reach r d) (he : g.entry d n = some m)
    (h : (g.move d n d' n' m).Named r x) : g.Named r x := by
  obtain ⟨y, l, hy, hz⟩ := h
  rcases move_entry_some hz with ⟨-, -, rfl⟩ | ⟨-, -, hz⟩
  · exact ⟨d, n, hd, he⟩
  · exact ⟨y, l, reach_move_inv hd he hy, hz⟩

end

end Lib.DirGraph
