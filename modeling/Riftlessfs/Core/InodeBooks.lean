import Riftlessfs.Core.InodeStages

/-! What holds of the shared inode table between any two steps, as long as no `register`
overlaps a `forget` and no two make an inode for one file. -/
namespace Riftlessfs.Core.Shared

/-- A state with its threads at their stages. -/
structure View (n : ℕ) where
  table : Table
  stages : Fin n → Stage
  registrations : UInt64 → ℕ
  forgets : UInt64 → ℕ

variable {n : ℕ}

namespace View

/-- The registrations of an id, those about to be returned included. -/
def joined (v : View n) (id : UInt64) : ℕ := v.registrations id + ∑ t, (v.stages t).owes id

/-- What was forgotten of an id, by calls about to return as well. -/
def taken (v : View n) (id : UInt64) : ℕ := v.forgets id + ∑ t, (v.stages t).spends id

def after (v : View n) (t : Fin n) (table : Table) (s : Stage) (done : Done) : View n where
  table := table
  stages := Function.update v.stages t s
  registrations := fun id => v.registrations id + done.registrations id
  forgets := fun id => v.forgets id + done.forgets id

theorem sum_update (stages : Fin n → Stage) (t : Fin n) (s : Stage) (f : Stage → ℕ) :
    ∑ x, f (Function.update stages t s x) + f (stages t) = ∑ x, f (stages x) + f s := by
  have hcomp := Function.comp_update f stages t s
  have hsum : ∑ x, f (Function.update stages t s x) =
      ∑ x, Function.update (f ∘ stages) t (f s) x := by
    rw [← hcomp]
    rfl
  rw [hsum, Finset.sum_update_of_mem (Finset.mem_univ t), Finset.sdiff_singleton_eq_erase]
  have herase := Finset.sum_erase_add Finset.univ (f ∘ stages) (Finset.mem_univ t)
  simp only [Function.comp_apply] at herase ⊢
  omega

variable {v : View n} {t : Fin n} {table : Table} {s : Stage} {done : Done}

@[simp] theorem after_table : (v.after t table s done).table = table := rfl

theorem joined_after {id : UInt64} {a : ℕ}
    (h : s.owes id + done.registrations id = (v.stages t).owes id + a) :
    (v.after t table s done).joined id = v.joined id + a := by
  have hsum := sum_update v.stages t s (fun x => x.owes id)
  simp only [joined, after]
  omega

theorem taken_after {id : UInt64} {a : ℕ}
    (h : s.spends id + done.forgets id = (v.stages t).spends id + a) :
    (v.after t table s done).taken id = v.taken id + a := by
  have hsum := sum_update v.stages t s (fun x => x.spends id)
  simp only [taken, after]
  omega

theorem joined_kept (table : Table)
    (h : ∀ id, s.owes id + done.registrations id = (v.stages t).owes id) :
    (v.after t table s done).joined = v.joined :=
  funext fun id => joined_after (a := 0) (h id)

theorem taken_kept (table : Table)
    (h : ∀ id, s.spends id + done.forgets id = (v.stages t).spends id) :
    (v.after t table s done).taken = v.taken :=
  funext fun id => taken_after (a := 0) (h id)

/-- A step that only takes a lock is not seen. -/
theorem after_self (v : View n) (t : Fin n) : v.after t v.table (v.stages t) .nothing = v := by
  unfold after
  rw [Function.update_eq_self]
  rfl

/-- What a thread other than the moving one witnesses, it still witnesses. -/
theorem witness_after {P : Stage → Prop} (hex : ∃ t', P (v.stages t')) (hno : ¬ P (v.stages t)) :
    ∃ t', P ((v.after t table s done).stages t') := by
  obtain ⟨t', ht'⟩ := hex
  refine ⟨t', ?_⟩
  have hne : t' ≠ t := by
    rintro rfl
    exact hno ht'
  simpa only [after, Function.update_of_ne hne] using ht'

theorem forall_after {P : Stage → Prop} (hall : ∀ t', t' ≠ t → P (v.stages t')) (hs : P s) :
    ∀ t', P ((v.after t table s done).stages t') := by
  intro t'
  by_cases hne : t' = t
  · subst hne
    simpa only [after, Function.update_self] using hs
  · simpa only [after, Function.update_of_ne hne] using hall t' hne

end View

/-- The ids that `register` has given to inodes. -/
def Table.Issued (tab : Table) (id : UInt64) : Prop := 1 ≤ id.toNat ∧ id.toNat < tab.nextId.toNat

/-- Inodes are numbered as their ids are, and `by_id` has each under its id. -/
structure Table.Numbered (tab : Table) : Prop where
  next : tab.nextId.toNat = tab.made + 1
  ids : ∀ arc, arc < tab.made → (tab.arcs arc).id.toNat = arc + 1
  inode : ∀ id arc, tab.byId id = some arc → arc < tab.made ∧ (tab.arcs arc).id = id
  root : ∃ arc, tab.byId ROOT_ID = some arc

/-- What a call knows at its stage, with the registrations and forgets of each id. -/
def Stage.Fits (tab : Table) (joined taken : UInt64 → ℕ) : Stage → Prop
  | .out | .seeking _ => True
  | .panicked => False
  | .joining k id | .joined k id => tab.byKey k = some id
  | .cloned k id arc => tab.byKey k = some id ∧ tab.byId id = some arc
  | .missing k => tab.byKey k = none
  | .made k id arc => tab.byKey k = none ∧ tab.byId id = none ∧ arc < tab.made ∧
      (tab.arcs arc).id = id ∧ (tab.arcs arc).key = k ∧ (tab.arcs arc).lookups = 1 ∧
      joined id = 1 ∧ taken id = 0
  | .listed k id arc => tab.byKey k = none ∧ tab.byId id = some arc ∧ (tab.arcs arc).key = k
  | .asking id _ => id ≠ ROOT_ID
  | .taking id _ arc => id ≠ ROOT_ID ∧ arc < tab.made ∧ (tab.arcs arc).id = id
  -- a count read before others lowered it is too high by what they took
  | .subtracting id count arc amount => id ≠ ROOT_ID ∧ arc < tab.made ∧ (tab.arcs arc).id = id ∧
      amount.toNat ≤ count.toNat ∧
      (taken id < joined id → min count.toNat (tab.arcs arc).lookups.toNat ≤ amount.toNat)
  | .spent id _ => id ≠ ROOT_ID
  | .dooming id _ => id ≠ ROOT_ID ∧ joined id ≤ taken id
  | .evicted id _ k => tab.byKey k = some id ∧ tab.byId id = none

/-- The id that a `forget` in progress has taken out of `by_id`. -/
def Stage.evicts : Stage → Option UInt64
  | .evicted id _ _ => some id
  | _ => none

/-- The maps are inverse, but for calls between their changes of the one and the other. -/
structure View.Mapped (v : View n) : Prop where
  keyed : ∀ k id, v.table.byKey k = some id →
    (∃ arc, v.table.byId id = some arc ∧ (v.table.arcs arc).key = k) ∨
      ∃ t count, v.stages t = .evicted id count k
  listed : ∀ id arc, v.table.byId id = some arc →
    v.table.byKey (v.table.arcs arc).key = some id ∨
      ∃ t, v.stages t = .listed (v.table.arcs arc).key id arc

/-- An inode's count is its registrations less its forgets. Once the forgets cover them, a call
is to evict it. -/
structure View.Accounts (v : View n) : Prop where
  counted : ∀ id arc, v.table.byId id = some arc → v.taken id < v.joined id →
    (v.table.arcs arc).lookups.toNat + v.taken id = v.joined id
  doomed : ∀ id arc, v.table.byId id = some arc → v.joined id ≤ v.taken id →
    ∃ t count, v.stages t = .dooming id count
  covered : ∀ id, v.table.Issued id → v.table.byId id = none →
    v.joined id ≤ v.taken id ∨ ∃ t k arc, v.stages t = .made k id arc
  unissued : ∀ id, ¬ v.table.Issued id → v.joined id = 0 ∧ v.taken id = 0

/-- The invariant, after at most `m` steps. -/
structure Sound (v : View n) (m : ℕ) : Prop where
  numbered : v.table.Numbered
  apart : (∀ t, (v.stages t).forgetting = false) ∨ ∀ t, (v.stages t).key = none
  sole : ∀ t t' k, t ≠ t' → (v.stages t).key = some k → (v.stages t').key = some k →
    v.table.byKey k ≠ none
  once : ∀ t t' id, t ≠ t' → (v.stages t).evicts = some id → (v.stages t').evicts ≠ some id
  fits : ∀ t, (v.stages t).Fits v.table v.joined v.taken
  mapped : v.Mapped
  accounts : v.Accounts
  few : v.table.made ≤ m + 1 ∧ ∀ id, v.joined id ≤ m + 1

namespace Table.Numbered

variable {tab : Table}

theorem arc_eq (h : tab.Numbered) {a b : ℕ} (ha : a < tab.made) (hb : b < tab.made)
    (hid : (tab.arcs a).id = (tab.arcs b).id) : a = b := by
  have hia := h.ids a ha
  have hib := h.ids b hb
  rw [hid] at hia
  omega

theorem issued (h : tab.Numbered) {arc : ℕ} (harc : arc < tab.made) :
    tab.Issued (tab.arcs arc).id := by
  have hid := h.ids arc harc
  have hnext := h.next
  exact ⟨by omega, by omega⟩

theorem issued_byId (h : tab.Numbered) {id : UInt64} {arc : ℕ} (hid : tab.byId id = some arc) :
    tab.Issued id := by
  obtain ⟨hlt, heq⟩ := h.inode id arc hid
  rw [← heq]
  exact h.issued hlt

end Table.Numbered

theorem Sound.fit {v : View n} {m : ℕ} (h : Sound v m) {t : Fin n} {s : Stage}
    (hs : v.stages t = s) : s.Fits v.table v.joined v.taken :=
  hs ▸ h.fits t

theorem Sound.mono {v : View n} {m m' : ℕ} (h : Sound v m) (hm : m ≤ m') : Sound v m' := by
  refine { h with few := ⟨?_, fun id => ?_⟩ }
  · have := h.few.1
    omega
  · have := h.few.2 id
    omega

end Riftlessfs.Core.Shared
