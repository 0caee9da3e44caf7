import Riftlessfs.Lib.Batch
import Riftlessfs.Core.InodeInvariant

/-! Forgets by counts that are any natural numbers: those of one id add up, those of different ids
commute. -/
namespace Riftlessfs.Core.InodeStore

/-- `forget` with a count that is any natural number: what is held goes down by it, or the inode is
evicted. -/
def forgetNat (s : InodeStore) (id : UInt64) (count : ℕ) : InodeStore :=
  if id = ROOT_ID then s
  else match s.byId id with
    | none => s
    | some d =>
      if d.lookups.toNat ≤ count then s.evict id d
      else s.setData id { d with lookups := .ofNat (d.lookups.toNat - count) }

variable {s : InodeStore} {id id' : UInt64} {d : InodeData} {m n : ℕ}

theorem forget_eq_forgetNat (s : InodeStore) (id count : UInt64) :
    (s.forget id count).1 = s.forgetNat id count.toNat := by
  rcases forget_cases s id count with ⟨hno, heq⟩ | ⟨d, hr, hd, hlt, heq⟩ | ⟨d, hr, hd, hle, heq⟩
  · rw [heq]
    unfold forgetNat
    split_ifs with hr
    · rfl
    · rw [hno.resolve_left hr]
  · have hlt' : count.toNat < d.lookups.toNat := UInt64.lt_iff_toNat_lt.mp hlt
    have hsub : d.lookups - count = UInt64.ofNat (d.lookups.toNat - count.toNat) := by
      rw [← UInt64.toNat_sub_of_le _ _ (UInt64.le_of_lt hlt), UInt64.ofNat_toNat]
    rw [heq]
    simp only [forgetNat, hr, hd, if_false, if_neg (Nat.not_le.mpr hlt'), hsub]
  · have hle' : d.lookups.toNat ≤ count.toNat := UInt64.le_iff_toNat_le.mp hle
    rw [heq]
    simp only [forgetNat, hr, hd, if_false, if_pos hle']

theorem forgetNat_root (s : InodeStore) (n : ℕ) : s.forgetNat ROOT_ID n = s := if_pos rfl

theorem forgetNat_none (h : s.byId id = none) : s.forgetNat id n = s := by
  unfold forgetNat
  rw [h]
  exact ite_self s

theorem forgetNat_evict (hr : id ≠ ROOT_ID) (hd : s.byId id = some d) (h : d.lookups.toNat ≤ n) :
    s.forgetNat id n = s.evict id d := by
  simp only [forgetNat, hr, hd, if_false, if_pos h]

theorem forgetNat_keep (hr : id ≠ ROOT_ID) (hd : s.byId id = some d) (h : n < d.lookups.toNat) :
    s.forgetNat id n = s.setData id { d with lookups := .ofNat (d.lookups.toNat - n) } := by
  simp only [forgetNat, hr, hd, if_false, if_neg (Nat.not_le.mpr h)]

private theorem forgetNat_add : (s.forgetNat id m).forgetNat id n = s.forgetNat id (m + n) := by
  by_cases hr : id = ROOT_ID
  · subst hr
    rw [forgetNat_root, forgetNat_root, forgetNat_root]
  cases hd : s.byId id with
  | none => rw [forgetNat_none hd, forgetNat_none hd, forgetNat_none hd]
  | some d =>
    by_cases hm : d.lookups.toNat ≤ m
    · have hgone : (s.evict id d).byId id = none := Function.update_self _ _ _
      rw [forgetNat_evict hr hd hm, forgetNat_none hgone, forgetNat_evict hr hd (by omega)]
    · have hleft : (UInt64.ofNat (d.lookups.toNat - m)).toNat = d.lookups.toNat - m := by
        have hlt : d.lookups.toNat - m < 2 ^ 64 := lt_of_le_of_lt (Nat.sub_le _ _) d.lookups.toNat_lt
        exact UInt64.toNat_ofNat_of_lt' hlt
      have hkept : (s.setData id { d with lookups := .ofNat (d.lookups.toNat - m) }).byId id =
          some { d with lookups := .ofNat (d.lookups.toNat - m) } := Function.update_self _ _ _
      rw [forgetNat_keep hr hd (by omega)]
      by_cases hn : d.lookups.toNat ≤ m + n
      · rw [forgetNat_evict hr hkept (by dsimp only; omega), forgetNat_evict hr hd hn]
        simp [evict, setData]
      · rw [forgetNat_keep hr hkept (by dsimp only; omega), forgetNat_keep hr hd (by omega)]
        simp only [setData, Function.update_idem, hleft, Nat.sub_sub]

/-- Take a key out of the key map, if one is given. -/
def clearKey (byKey : FileKey → Option UInt64) : Option FileKey → FileKey → Option UInt64
  | none => byKey
  | some k => Function.update byKey k none

def leftOf (entry : Option InodeData) (n : ℕ) : Option InodeData :=
  match entry with
  | none => none
  | some d => if d.lookups.toNat ≤ n then none
    else some { d with lookups := .ofNat (d.lookups.toNat - n) }

def lostKey (entry : Option InodeData) (n : ℕ) : Option FileKey :=
  match entry with
  | none => none
  | some d => if d.lookups.toNat ≤ n then some d.key else none

/-- A forget told map by map, from the entry it finds. -/
theorem forgetNat_maps (hr : id ≠ ROOT_ID) : s.forgetNat id n =
    ⟨Function.update s.byId id (leftOf (s.byId id) n), clearKey s.byKey (lostKey (s.byId id) n),
      s.nextId⟩ := by
  cases hd : s.byId id with
  | none =>
    have hsame : Function.update s.byId id none = s.byId :=
      Function.update_eq_self_iff.mpr hd.symm
    rw [forgetNat_none hd, leftOf, lostKey, hsame]
    rfl
  | some d =>
    by_cases h : d.lookups.toNat ≤ n
    · rw [forgetNat_evict hr hd h, leftOf, lostKey, if_pos h, if_pos h]
      rfl
    · rw [forgetNat_keep hr hd (by omega), leftOf, lostKey, if_neg h, if_neg h]
      rfl

private theorem clearKey_comm (byKey : FileKey → Option UInt64) (k k' : Option FileKey) :
    clearKey (clearKey byKey k) k' = clearKey (clearKey byKey k') k := by
  cases k with
  | none => rfl
  | some a =>
    cases k' with
    | none => rfl
    | some b =>
      by_cases hab : a = b
      · rw [hab]
      · exact Function.update_comm hab none none byKey

private theorem forgetNat_comm (hne : id ≠ id') :
    (s.forgetNat id m).forgetNat id' n = (s.forgetNat id' n).forgetNat id m := by
  by_cases hr : id = ROOT_ID
  · subst hr
    rw [forgetNat_root, forgetNat_root]
  by_cases hr' : id' = ROOT_ID
  · subst hr'
    rw [forgetNat_root, forgetNat_root]
  rw [forgetNat_maps hr, forgetNat_maps hr', forgetNat_maps hr', forgetNat_maps hr]
  dsimp only
  rw [Function.update_of_ne hne.symm, Function.update_of_ne hne, clearKey_comm,
    Function.update_comm hne.symm]

/-- Forgets of one id add up, and forgets of different ids do not meet. -/
theorem forgetNat_merging : Lib.Batch.Merging forgetNat where
  same := fun _ _ _ _ => forgetNat_add
  apart := fun _ _ _ _ _ h => forgetNat_comm h

end Riftlessfs.Core.InodeStore
