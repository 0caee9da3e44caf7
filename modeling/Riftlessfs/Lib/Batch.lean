import Mathlib.Tactic

/-! Batches of updates that add up: updates of one index merge, updates of different indices
commute, so a batch is one update for each index it names. -/
namespace Lib.Batch

variable {σ ι : Type} {act : σ → ι → ℕ → σ}

structure Merging (act : σ → ι → ℕ → σ) : Prop where
  same : ∀ s i m n, act (act s i m) i n = act s i (m + n)
  apart : ∀ s i j m n, i ≠ j → act (act s i m) j n = act (act s j n) i m

/-- Carry out a batch in order. -/
def all (act : σ → ι → ℕ → σ) (s : σ) (xs : List (ι × ℕ)) : σ := xs.foldl (fun s x => act s x.1 x.2) s

theorem Merging.comm (h : Merging act) (s : σ) (i j : ι) (m n : ℕ) :
    act (act s i m) j n = act (act s j n) i m := by
  by_cases hij : i = j
  · subst hij
    rw [h.same, h.same, Nat.add_comm]
  · exact h.apart s i j m n hij

theorem Merging.all_perm (h : Merging act) {xs ys : List (ι × ℕ)} (hp : xs.Perm ys) (s : σ) :
    all act s xs = all act s ys :=
  hp.foldl_eq' (fun x _ y _ s => h.comm s x.1 y.1 x.2 y.2) s

/-- A non-empty batch for one index is one update. -/
theorem Merging.all_one (h : Merging act) {i : ι} {xs : List (ι × ℕ)} (hone : ∀ x ∈ xs, x.1 = i)
    (hne : xs ≠ []) (s : σ) : all act s xs = act s i (xs.map Prod.snd).sum := by
  induction xs generalizing s with
  | nil => exact absurd rfl hne
  | cons x xs ih =>
    have hx : x.1 = i := hone x List.mem_cons_self
    show all act (act s x.1 x.2) xs = _
    by_cases hxs : xs = []
    · subst hxs
      simp [all, hx]
    · rw [ih (fun y hy => hone y (List.mem_cons_of_mem x hy)) hxs, hx, h.same, List.map_cons,
        List.sum_cons]

variable [DecidableEq ι]

/-- What a batch holds for one index. -/
def share (i : ι) (xs : List (ι × ℕ)) : List (ι × ℕ) := xs.filter fun x => x.1 = i

def total (i : ι) (xs : List (ι × ℕ)) : ℕ := ((share i xs).map Prod.snd).sum

/-- The rest of a batch asks the same of every other index. -/
theorem total_rest {i j : ι} (hij : j ≠ i) (xs : List (ι × ℕ)) :
    total j (xs.filter fun x => ¬ x.1 = i) = total j xs := by
  unfold total share
  rw [List.filter_filter]
  congr 2
  refine List.filter_congr fun x _ => ?_
  by_cases hx : x.1 = j
  · simp [hx, hij]
  · simp [hx]

/-- A batch is one update for each index it names, by the total it asks for that index, in any
order. -/
theorem Merging.all_grouped (h : Merging act) {ids : List ι} {xs : List (ι × ℕ)}
    (hnodup : ids.Nodup) (hids : ∀ i, i ∈ ids ↔ ∃ x ∈ xs, x.1 = i) (s : σ) :
    all act s xs = ids.foldl (fun s i => act s i (total i xs)) s := by
  induction ids generalizing xs s with
  | nil =>
    cases xs with
    | nil => rfl
    | cons x xs => simpa using (hids x.1).mpr ⟨x, List.mem_cons_self, rfl⟩
  | cons i ids ih =>
    obtain ⟨hi, hnodup'⟩ := List.nodup_cons.mp hnodup
    -- bring the share of `i` to the front and merge it
    have hperm : (share i xs ++ xs.filter fun x => ¬ x.1 = i).Perm xs := by
      have := List.filter_append_perm (fun x : ι × ℕ => decide (x.1 = i)) xs
      simpa [share] using this
    have hone : ∀ x ∈ share i xs, x.1 = i := fun x hx => by simpa using (List.mem_filter.mp hx).2
    have hne : share i xs ≠ [] := by
      obtain ⟨x, hx, hxi⟩ := (hids i).mp List.mem_cons_self
      exact List.ne_nil_of_mem (List.mem_filter.mpr ⟨hx, by simpa using hxi⟩)
    have hrest : ∀ j, j ∈ ids ↔ ∃ x ∈ xs.filter fun x => ¬ x.1 = i, x.1 = j := by
      intro j
      constructor
      · intro hj
        obtain ⟨x, hx, hxj⟩ := (hids j).mp (List.mem_cons_of_mem i hj)
        have hji : j ≠ i := fun heq => hi (heq ▸ hj)
        exact ⟨x, List.mem_filter.mpr ⟨hx, by simpa [hxj] using hji⟩, hxj⟩
      · rintro ⟨x, hx, hxj⟩
        obtain ⟨hmem, hxi⟩ := List.mem_filter.mp hx
        rcases List.mem_cons.mp ((hids j).mpr ⟨x, hmem, hxj⟩) with heq | hj
        · simp [hxj, heq] at hxi
        · exact hj
    have hsums : ∀ t, ids.foldl (fun s j => act s j (total j (xs.filter fun x => ¬ x.1 = i))) t =
        ids.foldl (fun s j => act s j (total j xs)) t := by
      intro t
      refine List.foldl_ext _ _ t fun s j hj => ?_
      have hji : j ≠ i := fun heq => hi (heq ▸ hj)
      rw [total_rest hji]
    calc all act s xs
        = all act (all act s (share i xs)) (xs.filter fun x => ¬ x.1 = i) := by
          rw [← h.all_perm hperm]
          exact List.foldl_append
      _ = all act (act s i (total i xs)) (xs.filter fun x => ¬ x.1 = i) := by
          rw [h.all_one hone hne]
          rfl
      _ = (i :: ids).foldl (fun s j => act s j (total j xs)) s := by
          rw [ih hnodup' hrest, hsums, List.foldl_cons]

end Lib.Batch
