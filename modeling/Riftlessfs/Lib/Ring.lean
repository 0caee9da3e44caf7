import Mathlib.Tactic

/-! Ring buffers: a window of items in `q` cells, at positions that grow without bound. -/
namespace Lib.Ring

variable {α : Type}

def Holds (cells : ℕ → Option α) (q pos : ℕ) (xs : List α) : Prop :=
  ∀ i (h : i < xs.length), cells ((pos + i) % q) = some xs[i]

/-- Positions less than a round apart have different cells. -/
theorem cell_ne {q i j : ℕ} (hij : i < j) (hround : j < i + q) : i % q ≠ j % q := by
  intro heq
  obtain ⟨k, hk⟩ := (Nat.modEq_iff_dvd' hij.le).mp heq
  have hpos : 0 < q := by omega
  cases k with
  | zero => omega
  | succ k =>
    have hle : q ≤ q * (k + 1) := Nat.le_mul_of_pos_right q k.succ_pos
    omega

section Holds
variable {cells : ℕ → Option α} {q pos : ℕ} {x : α} {xs ys : List α}

theorem holds_nil (cells : ℕ → Option α) (q pos : ℕ) : Holds cells q pos [] := by
  intro i hi
  exact absurd hi (Nat.not_lt_zero i)

theorem Holds.head (h : Holds cells q pos (x :: xs)) : cells (pos % q) = some x :=
  h 0 (Nat.zero_lt_succ _)

/-- The first item leaves the window. -/
theorem Holds.tail (h : Holds cells q pos (x :: xs)) : Holds cells q (pos + 1) xs := by
  intro i hi
  have hcell := h (i + 1) (Nat.succ_lt_succ hi)
  rw [List.getElem_cons_succ] at hcell
  rwa [Nat.add_assoc, Nat.add_comm 1 i]

theorem Holds.front (h : Holds cells q pos (xs ++ ys)) : Holds cells q pos xs := by
  intro i hi
  have hcell := h i (by rw [List.length_append]; omega)
  rwa [List.getElem_append_left hi] at hcell

/-- An item enters at the end of a window that is not full, and no other is overwritten. -/
theorem Holds.snoc (h : Holds cells q pos xs) (hroom : xs.length < q) (x : α) :
    Holds (Function.update cells ((pos + xs.length) % q) (some x)) q pos (xs ++ [x]) := by
  intro i hi
  rw [List.length_append, List.length_singleton] at hi
  by_cases hlast : i = xs.length
  · subst hlast
    rw [Function.update_self, List.getElem_concat_length rfl]
  · have hlt : i < xs.length := by omega
    have hne : (pos + i) % q ≠ (pos + xs.length) % q := cell_ne (by omega) (by omega)
    rw [Function.update_of_ne hne, List.getElem_append_left hlt]
    exact h i hlt

end Holds

section Index
variable {a n : ℕ}

/-- A 16-bit index of a ring whose size divides the number of indices has the cell of the position
it counts. -/
theorem index_cell {q : UInt16} (hq : q.toNat ∣ 2 ^ 16) (n : ℕ) :
    (UInt16.ofNat n % q).toNat = n % q.toNat := by
  rw [UInt16.toNat_mod, UInt16.toNat_ofNat']
  exact Nat.mod_mod_of_dvd n hq

theorem index_succ (n : ℕ) : UInt16.ofNat n + 1 = UInt16.ofNat (n + 1) := by
  rw [UInt16.ofNat_add]
  rfl

/-- Indices tell how far two positions are apart. -/
theorem index_sub (a : ℕ) (hn : n < 2 ^ 16) :
    (UInt16.ofNat (a + n) - UInt16.ofNat a).toNat = n := by
  rw [UInt16.ofNat_add, UInt16.add_comm, UInt16.add_sub_cancel]
  exact UInt16.toNat_ofNat_of_lt' hn

theorem index_inj (hn : n < 2 ^ 16) (h : UInt16.ofNat (a + n) = UInt16.ofNat a) : n = 0 := by
  have hsub := index_sub a hn
  rw [h, UInt16.sub_self] at hsub
  exact hsub.symm

end Index

end Lib.Ring
