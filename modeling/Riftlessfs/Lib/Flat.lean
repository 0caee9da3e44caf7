import Mathlib.Tactic

/-! Flat memories: contiguous loads and stores, and gathering from and scattering over
lists of segments, each a start and a length. -/
namespace Lib.Flat

variable {β : Type}

def load (m : ℕ → β) (a n : ℕ) : List β := (List.range n).map fun i => m (a + i)

/-- Replace the cells from `a` on by `bs`. -/
def store (m : ℕ → β) (a : ℕ) (bs : List β) : ℕ → β := fun x =>
  if a ≤ x then bs[x - a]?.getD (m x) else m x

def gather (m : ℕ → β) : List (ℕ × ℕ) → List β
  | [] => []
  | (a, n) :: segs => load m a n ++ gather m segs

/-- Store `bs` over the segments in order; what does not fit is dropped. -/
def scatter (m : ℕ → β) : List (ℕ × ℕ) → List β → ℕ → β
  | [], _ => m
  | (a, n) :: segs, bs => scatter (store m a (bs.take n)) segs (bs.drop n)

def capacity : List (ℕ × ℕ) → ℕ
  | [] => 0
  | (_, n) :: segs => n + capacity segs

/-- The segments without their first `k` cells, cut off after `max` cells. -/
def window : List (ℕ × ℕ) → ℕ → ℕ → List (ℕ × ℕ)
  | [], _, _ => []
  | (a, n) :: segs, k, max =>
    if max = 0 then []
    else if n ≤ k then window segs (k - n) max
    else (a + k, min (n - k) max) :: window segs 0 (max - min (n - k) max)

def Apart (a n b k : ℕ) : Prop := n = 0 ∨ k = 0 ∨ a + n ≤ b ∨ b + k ≤ a

theorem Apart.symm {a n b k : ℕ} (h : Apart a n b k) : Apart b k a n := by
  unfold Apart at h ⊢
  omega

section Load
variable {m : ℕ → β} {a n b : ℕ} {bs : List β}

@[simp] theorem load_length (m : ℕ → β) (a n : ℕ) : (load m a n).length = n := by
  simp [load]

theorem load_append (m : ℕ → β) (a n k : ℕ) : load m a (n + k) = load m a n ++ load m (a + n) k := by
  unfold load
  rw [List.range_add, List.map_append, List.map_map]
  congr 2
  funext i
  simp [Nat.add_assoc]

theorem load_take (m : ℕ → β) {k : ℕ} (h : k ≤ n) : (load m a n).take k = load m a k := by
  obtain ⟨j, rfl⟩ := Nat.exists_eq_add_of_le h
  rw [load_append, List.take_left' (load_length m a k)]

theorem load_take_min (m : ℕ → β) (a n k : ℕ) : (load m a n).take k = load m a (min k n) := by
  by_cases h : k ≤ n
  · rw [load_take m h, Nat.min_eq_left h]
  · rw [Nat.min_eq_right (by omega), List.take_of_length_le (by rw [load_length]; omega)]

theorem load_drop (m : ℕ → β) {k : ℕ} (h : k ≤ n) :
    (load m a n).drop k = load m (a + k) (n - k) := by
  obtain ⟨j, rfl⟩ := Nat.exists_eq_add_of_le h
  rw [load_append, List.drop_left' (load_length m a k), Nat.add_sub_cancel_left]

@[simp] theorem store_nil (m : ℕ → β) (a : ℕ) : store m a [] = m := by
  funext x
  simp [store]

theorem store_outside {x : ℕ} (h : x < a ∨ a + bs.length ≤ x) : store m a bs x = m x := by
  unfold store
  split_ifs with hle
  · rw [List.getElem?_eq_none (by omega)]
    rfl
  · rfl

theorem store_inside {i : ℕ} (h : i < bs.length) : store m a bs (a + i) = bs[i] := by
  unfold store
  rw [if_pos (by omega), Nat.add_sub_cancel_left, List.getElem?_eq_getElem h]
  rfl

theorem load_store (m : ℕ → β) (a : ℕ) (bs : List β) : load (store m a bs) a bs.length = bs := by
  refine List.ext_getElem (by simp) fun i hi hi' => ?_
  simp only [load, List.getElem_map, List.getElem_range]
  exact store_inside hi'

theorem load_store_apart (h : Apart a bs.length b n) : load (store m a bs) b n = load m b n := by
  unfold load
  refine List.map_congr_left fun i hi => ?_
  have hi' := List.mem_range.mp hi
  refine store_outside ?_
  unfold Apart at h
  omega

theorem store_append (m : ℕ → β) (a : ℕ) (xs ys : List β) :
    store (store m (a + xs.length) ys) a xs = store m a (xs ++ ys) := by
  funext x
  by_cases hlt : x < a
  · rw [store_outside (Or.inl hlt), store_outside (Or.inl (by omega)),
      store_outside (Or.inl hlt)]
  by_cases hx : x < a + xs.length
  · obtain ⟨i, rfl⟩ := Nat.exists_eq_add_of_le (Nat.le_of_not_lt hlt)
    have hi : i < xs.length := by omega
    rw [store_inside hi, store_inside (by rw [List.length_append]; omega),
      List.getElem_append_left hi]
  by_cases hy : x < a + xs.length + ys.length
  · obtain ⟨i, rfl⟩ := Nat.exists_eq_add_of_le (Nat.le_of_not_lt hx)
    have hi : i < ys.length := by omega
    rw [store_outside (Or.inr (by omega)), store_inside hi, Nat.add_assoc,
      store_inside (by rw [List.length_append]; omega), List.getElem_append_right (by omega)]
    congr 1
    omega
  · rw [store_outside (Or.inr (by omega)), store_outside (Or.inr (by omega)),
      store_outside (Or.inr (by rw [List.length_append]; omega))]

theorem store_comm {xs ys : List β} (h : Apart a xs.length b ys.length) :
    store (store m b ys) a xs = store (store m a xs) b ys := by
  funext x
  by_cases ha : a ≤ x ∧ x < a + xs.length
  · have hout : x < b ∨ b + ys.length ≤ x := by
      unfold Apart at h
      omega
    obtain ⟨i, rfl⟩ := Nat.exists_eq_add_of_le ha.1
    have hi : i < xs.length := by omega
    rw [store_inside hi, store_outside hout, store_inside hi]
  · have hout : x < a ∨ a + xs.length ≤ x := by omega
    rw [store_outside hout]
    by_cases hb : b ≤ x ∧ x < b + ys.length
    · obtain ⟨i, rfl⟩ := Nat.exists_eq_add_of_le hb.1
      have hi : i < ys.length := by omega
      rw [store_inside hi, store_inside hi]
    · have hout' : x < b ∨ b + ys.length ≤ x := by omega
      rw [store_outside hout', store_outside hout', store_outside hout]

end Load

section Segments
variable {m : ℕ → β} {segs : List (ℕ × ℕ)} {a n k max : ℕ} {xs ys bs : List β}

@[simp] theorem capacity_cons (a n : ℕ) (segs : List (ℕ × ℕ)) :
    capacity ((a, n) :: segs) = n + capacity segs := rfl

@[simp] theorem gather_length (m : ℕ → β) (segs : List (ℕ × ℕ)) :
    (gather m segs).length = capacity segs := by
  induction segs with
  | nil => rfl
  | cons s segs ih =>
    obtain ⟨a, n⟩ := s
    rw [gather, List.length_append, load_length, ih]
    rfl

@[simp] theorem window_zero (segs : List (ℕ × ℕ)) (k : ℕ) : window segs k 0 = [] := by
  cases segs with
  | nil => rfl
  | cons s segs => rfl

theorem gather_window (m : ℕ → β) (segs : List (ℕ × ℕ)) (k max : ℕ) :
    gather m (window segs k max) = ((gather m segs).drop k).take max := by
  induction segs generalizing k max with
  | nil => simp [window, gather]
  | cons s segs ih =>
    obtain ⟨a, n⟩ := s
    unfold window
    split_ifs with hz hn
    · subst hz
      simp [gather]
    · have hall : (load m a n).drop k = [] := List.drop_eq_nil_of_le (by simpa using hn)
      rw [ih, gather, List.drop_append, load_length, hall, List.nil_append]
    · have hk : k ≤ n := by omega
      rw [gather, gather, ih, List.drop_append, load_length, load_drop m hk,
        Nat.sub_eq_zero_of_le hk, List.take_append, load_length, List.drop_zero]
      by_cases hc : n - k ≤ max
      · have hall : (load m (a + k) (n - k)).take max = load m (a + k) (n - k) :=
          List.take_of_length_le (by simpa using hc)
        rw [Nat.min_eq_left hc, hall]
      · rw [Nat.min_eq_right (by omega), load_take m (by omega), Nat.sub_self,
          Nat.sub_eq_zero_of_le (by omega)]

/-- Every segment of a window lies in one of the segments. -/
theorem mem_window {s : ℕ × ℕ} (hs : s ∈ window segs k max) :
    ∃ t ∈ segs, t.1 ≤ s.1 ∧ s.1 + s.2 ≤ t.1 + t.2 := by
  induction segs generalizing k max with
  | nil => simp [window] at hs
  | cons t segs ih =>
    obtain ⟨a, n⟩ := t
    unfold window at hs
    split_ifs at hs with hz hn
    · cases hs
    · obtain ⟨t, ht, hle⟩ := ih hs
      exact ⟨t, List.mem_cons_of_mem _ ht, hle⟩
    · rcases List.mem_cons.mp hs with rfl | hs
      · exact ⟨(a, n), List.mem_cons_self, by simp, by simp; omega⟩
      · obtain ⟨t, ht, hle⟩ := ih hs
        exact ⟨t, List.mem_cons_of_mem _ ht, hle⟩

/-- A window has no empty segment. -/
theorem window_pos {s : ℕ × ℕ} (hs : s ∈ window segs k max) : 0 < s.2 := by
  induction segs generalizing k max with
  | nil => simp [window] at hs
  | cons t segs ih =>
    obtain ⟨a, n⟩ := t
    unfold window at hs
    split_ifs at hs with hz hn
    · cases hs
    · exact ih hs
    · rcases List.mem_cons.mp hs with rfl | hs
      · show 0 < min (n - k) max
        omega
      · exact ih hs

theorem window_length_le (segs : List (ℕ × ℕ)) (k max : ℕ) :
    (window segs k max).length ≤ segs.length := by
  induction segs generalizing k max with
  | nil => exact le_refl _
  | cons s segs ih =>
    obtain ⟨a, n⟩ := s
    unfold window
    split_ifs
    · exact Nat.zero_le _
    · exact (ih _ _).trans (Nat.le_succ _)
    · exact Nat.succ_le_succ (ih _ _)

theorem capacity_window (segs : List (ℕ × ℕ)) (k max : ℕ) :
    capacity (window segs k max) = min max (capacity segs - k) := by
  induction segs generalizing k max with
  | nil => simp [window, capacity]
  | cons s segs ih =>
    obtain ⟨a, n⟩ := s
    unfold window
    split_ifs with hz hn
    · rw [hz, Nat.zero_min]
      rfl
    · rw [ih, capacity]
      omega
    · rw [capacity, capacity, ih]
      omega

theorem sum_snd (segs : List (ℕ × ℕ)) : (segs.map Prod.snd).sum = capacity segs := by
  induction segs with
  | nil => rfl
  | cons s segs ih =>
    rw [List.map_cons, List.sum_cons, ih]
    rfl

@[simp] theorem scatter_nil (m : ℕ → β) (segs : List (ℕ × ℕ)) : scatter m segs [] = m := by
  induction segs generalizing m with
  | nil => rfl
  | cons s segs ih =>
    obtain ⟨a, n⟩ := s
    simp [scatter, ih]

/-- A cell outside the segments keeps its value. -/
theorem scatter_outside {x : ℕ} (h : ∀ s ∈ segs, x < s.1 ∨ s.1 + s.2 ≤ x) :
    scatter m segs bs x = m x := by
  induction segs generalizing m bs with
  | nil => rfl
  | cons s segs ih =>
    obtain ⟨a, n⟩ := s
    rw [scatter, ih fun t ht => h t (List.mem_cons_of_mem _ ht)]
    refine store_outside ?_
    have hlen : (bs.take n).length ≤ n := List.length_take_le n bs
    rcases h (a, n) List.mem_cons_self with hlt | hge
    · exact Or.inl hlt
    · right
      simp only at hge
      omega

/-- Only what fits is stored. -/
theorem scatter_take (h : capacity segs ≤ k) : scatter m segs (bs.take k) = scatter m segs bs := by
  induction segs generalizing m bs k with
  | nil => rfl
  | cons s segs ih =>
    obtain ⟨a, n⟩ := s
    rw [capacity_cons] at h
    rw [scatter, scatter, List.take_take, Nat.min_eq_left (by omega), List.drop_take,
      ih (by omega)]

theorem window_of_capacity_le (h : capacity segs ≤ k) : window segs k max = [] := by
  induction segs generalizing k with
  | nil => rfl
  | cons s segs ih =>
    obtain ⟨a, n⟩ := s
    rw [capacity_cons] at h
    unfold window
    split_ifs with hz hn
    · rfl
    · exact ih (by omega)
    · omega

/-- A store apart from all segments commutes with scattering. -/
theorem store_scatter_comm (h : ∀ s ∈ segs, Apart a xs.length s.1 s.2) :
    store (scatter m segs ys) a xs = scatter (store m a xs) segs ys := by
  induction segs generalizing m ys with
  | nil => rfl
  | cons s segs ih =>
    obtain ⟨b, n⟩ := s
    rw [scatter, scatter, ih fun t ht => h t (List.mem_cons_of_mem _ ht), store_comm]
    have hlen : (ys.take n).length ≤ n := List.length_take_le n ys
    have hhead := h (b, n) List.mem_cons_self
    unfold Apart at hhead ⊢
    simp only at hhead
    omega

theorem scatter_window_zero (h : ys.length ≤ max) :
    scatter m (window segs 0 max) ys = scatter m segs ys := by
  induction segs generalizing m ys max with
  | nil => rfl
  | cons s segs ih =>
    obtain ⟨a, n⟩ := s
    unfold window
    split_ifs with hz hn
    · have hnil : ys = [] := List.eq_nil_of_length_eq_zero (by omega)
      rw [hnil, scatter_nil, scatter_nil]
    · have hn' : n = 0 := by omega
      subst hn'
      rw [scatter, List.take_zero, store_nil, List.drop_zero, Nat.sub_zero, ih h]
    · rw [scatter, scatter, Nat.add_zero, Nat.sub_zero]
      by_cases hc : n ≤ max
      · rw [Nat.min_eq_left hc, ih (by rw [List.length_drop]; omega)]
      · rw [Nat.min_eq_right (by omega), List.take_of_length_le h, List.take_of_length_le (by omega),
          List.drop_eq_nil_of_le h, List.drop_eq_nil_of_le (by omega), scatter_nil, scatter_nil]

/-- What does not exist is not in a window either. -/
theorem window_zero_min (segs : List (ℕ × ℕ)) (max : ℕ) :
    window segs 0 (min max (capacity segs)) = window segs 0 max := by
  induction segs generalizing max with
  | nil => rfl
  | cons s segs ih =>
    obtain ⟨a, n⟩ := s
    rw [capacity_cons]
    unfold window
    by_cases hn : n = 0
    · subst hn
      rw [Nat.zero_add, if_pos (le_refl 0), if_pos (le_refl 0), Nat.sub_zero, ih]
      by_cases hz : max = 0
      · rw [if_pos hz, if_pos (by omega)]
      · by_cases hc : min max (capacity segs) = 0
        · have hempty := ih max
          rw [hc, window_zero] at hempty
          rw [if_pos hc, if_neg hz, hempty]
        · rw [if_neg hc, if_neg hz]
    · by_cases hz : max = 0
      · rw [if_pos hz, if_pos (by omega)]
      · have hhead : min (n - 0) (min max (n + capacity segs)) = min (n - 0) max := by omega
        have hrest : min max (n + capacity segs) - min (n - 0) max =
            min (max - min (n - 0) max) (capacity segs) := by omega
        rw [if_neg (by omega), if_neg (by omega), if_neg hz, if_neg (by omega), hhead, hrest, ih]

/-- Scattering stores to the front of the segments only. -/
theorem scatter_outside_front {x : ℕ}
    (h : ∀ s ∈ window segs 0 (min bs.length (capacity segs)), x < s.1 ∨ s.1 + s.2 ≤ x) :
    scatter m segs bs x = m x := by
  rw [window_zero_min] at h
  rw [← scatter_window_zero (le_refl bs.length)]
  exact scatter_outside h

def Separate (segs : List (ℕ × ℕ)) : Prop :=
  segs.Pairwise fun s t => Apart s.1 s.2 t.1 t.2

theorem load_scatter_apart (h : ∀ s ∈ segs, Apart a n s.1 s.2) :
    load (scatter m segs xs) a n = load m a n := by
  unfold load
  refine List.map_congr_left fun i hi => ?_
  have hi' := List.mem_range.mp hi
  refine scatter_outside fun s hs => ?_
  have hs' := h s hs
  unfold Apart at hs'
  omega

theorem gather_store_apart (h : ∀ s ∈ segs, Apart a xs.length s.1 s.2) :
    gather (store m a xs) segs = gather m segs := by
  induction segs with
  | nil => rfl
  | cons s segs ih =>
    obtain ⟨b, k⟩ := s
    rw [gather, gather, ih fun t ht => h t (List.mem_cons_of_mem _ ht),
      load_store_apart (h (b, k) List.mem_cons_self)]

/-- A store that fits a range, read back with the rest of the range. -/
theorem load_store_le (h : xs.length ≤ n) :
    load (store m a xs) a n = xs ++ (load m a n).drop xs.length := by
  obtain ⟨k, rfl⟩ := Nat.exists_eq_add_of_le h
  rw [load_append, load_store, load_append, List.drop_left' (load_length m a xs.length),
    load_store_apart]
  unfold Apart
  omega

/-- What is scattered over separate segments is found in them, as far as it fits. -/
theorem gather_scatter (hd : Separate segs) :
    gather (scatter m segs xs) segs = xs.take (capacity segs) ++ (gather m segs).drop xs.length := by
  induction segs generalizing m xs with
  | nil => simp [gather, capacity]
  | cons s segs ih =>
    obtain ⟨a, n⟩ := s
    obtain ⟨hhead, htail⟩ := List.pairwise_cons.mp hd
    have hlen : (xs.take n).length ≤ n := List.length_take_le n xs
    have hapart : ∀ s ∈ segs, Apart a (xs.take n).length s.1 s.2 := by
      intro s hs
      have h := hhead s hs
      unfold Apart at h ⊢
      simp only at h
      omega
    rw [scatter, gather, load_scatter_apart fun s hs => hhead s hs, load_store_le hlen,
      ih htail, gather_store_apart hapart, gather, capacity_cons, List.length_drop,
      List.take_add, List.drop_append, load_length]
    by_cases hc : xs.length ≤ n
    · rw [List.take_of_length_le hc, List.drop_eq_nil_of_le hc, List.take_nil, List.nil_append,
        List.append_nil, List.append_assoc]
    · have hfull : (load m a n).drop (xs.take n).length = [] :=
        List.drop_eq_nil_of_le (by rw [load_length, List.length_take]; omega)
      have hnil : (load m a n).drop xs.length = [] :=
        List.drop_eq_nil_of_le (by rw [load_length]; omega)
      rw [hfull, hnil, List.append_nil, List.nil_append, List.append_assoc]

/-- The front of separate segments holds what was scattered. -/
theorem gather_scatter_front (hd : Separate segs) :
    gather (scatter m segs xs) (window segs 0 (min xs.length (capacity segs))) =
      xs.take (min xs.length (capacity segs)) := by
  have hlen : (xs.take (capacity segs)).length = min xs.length (capacity segs) := by
    rw [List.length_take, Nat.min_comm]
  rw [gather_window, List.drop_zero, gather_scatter hd, List.take_left' hlen]
  by_cases hc : xs.length ≤ capacity segs
  · rw [Nat.min_eq_left hc, List.take_of_length_le hc, List.take_of_length_le (le_refl _)]
  · rw [Nat.min_eq_right (by omega)]

/-- Filling in the cells behind a header first and the header last is one scatter. -/
theorem scatter_header (hd : Separate segs) (hx : xs.length ≤ capacity segs)
    (hy : ys.length ≤ max) :
    scatter (scatter m (window segs xs.length max) ys) segs xs = scatter m segs (xs ++ ys) := by
  induction segs generalizing m xs ys max with
  | nil => rfl
  | cons s segs ih =>
    obtain ⟨a, n⟩ := s
    obtain ⟨hhead, htail⟩ := List.pairwise_cons.mp hd
    have hapart : ∀ k max, ∀ bs : List β, bs.length ≤ n → ∀ t ∈ window segs k max,
        Apart a bs.length t.1 t.2 := by
      intro k max bs hbs t ht
      obtain ⟨t', ht', h₁, h₂⟩ := mem_window ht
      have h := hhead t' ht'
      unfold Apart at h ⊢
      simp only at h
      omega
    unfold window
    split_ifs with hz hn
    · have hnil : ys = [] := List.eq_nil_of_length_eq_zero (by omega)
      rw [hnil, scatter_nil, List.append_nil]
    · have hlen : (xs.take n).length ≤ n := List.length_take_le n xs
      rw [scatter, scatter, store_scatter_comm (hapart _ _ _ hlen), List.take_append,
        List.drop_append, Nat.sub_eq_zero_of_le hn, List.take_zero, List.append_nil, List.drop_zero]
      have hdrop : (xs.drop n).length = xs.length - n := List.length_drop
      rw [← hdrop]
      refine ih htail ?_ hy
      unfold capacity at hx
      omega
    · have hfit : xs.length ≤ n := by omega
      have htake : ys.take (min (n - xs.length) max) = ys.take (n - xs.length) := by
        rw [← List.take_take, List.take_of_length_le hy]
      have hdrop : ys.drop (min (n - xs.length) max) = ys.drop (n - xs.length) := by
        by_cases hc : n - xs.length ≤ max
        · rw [Nat.min_eq_left hc]
        · rw [Nat.min_eq_right (by omega), List.drop_eq_nil_of_le hy,
            List.drop_eq_nil_of_le (by omega)]
      rw [scatter, scatter, scatter, htake, hdrop, List.take_of_length_le hfit,
        List.drop_eq_nil_of_le hfit, scatter_nil, List.take_append, List.take_of_length_le hfit,
        List.drop_append, List.drop_eq_nil_of_le hfit, List.nil_append]
      rw [scatter_window_zero (by rw [List.length_drop]; omega), store_scatter_comm, store_append]
      intro t ht
      have h := hhead t ht
      unfold Apart at h ⊢
      simp only at h
      omega

end Segments

end Lib.Flat
