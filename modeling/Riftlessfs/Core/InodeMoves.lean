import Riftlessfs.Core.InodeBooks

/-! What the moves of a call have in common: what they leave alone keeps its part of the
invariant of the shared inode table. -/
namespace Riftlessfs.Core.Shared

section Tables

variable (tab : Table) (arc : ℕ) (l : UInt64)

@[simp] theorem Table.recount_id (a : ℕ) : ((tab.recount arc l).arcs a).id = (tab.arcs a).id := by
  by_cases ha : a = arc
  · subst ha
    simp [recount, setArc]
  · simp [recount, setArc, Function.update_of_ne ha]

@[simp] theorem Table.recount_key (a : ℕ) :
    ((tab.recount arc l).arcs a).key = (tab.arcs a).key := by
  by_cases ha : a = arc
  · subst ha
    simp [recount, setArc]
  · simp [recount, setArc, Function.update_of_ne ha]

@[simp] theorem Table.recount_lookups : ((tab.recount arc l).arcs arc).lookups = l := by
  simp [recount, setArc]

theorem Table.recount_lookups_of_ne {a : ℕ} (ha : a ≠ arc) :
    ((tab.recount arc l).arcs a).lookups = (tab.arcs a).lookups := by
  simp [recount, setArc, Function.update_of_ne ha]

@[simp] theorem Table.setId_self (id : UInt64) (o : Option ℕ) : (tab.setId id o).byId id = o :=
  Function.update_self _ _ _

theorem Table.setId_of_ne {id id' : UInt64} (o : Option ℕ) (hne : id' ≠ id) :
    (tab.setId id o).byId id' = tab.byId id' :=
  Function.update_of_ne hne _ _

@[simp] theorem Table.setKey_self (k : FileKey) (o : Option UInt64) : (tab.setKey k o).byKey k = o :=
  Function.update_self _ _ _

theorem Table.setKey_of_ne {k k' : FileKey} (o : Option UInt64) (hne : k' ≠ k) :
    (tab.setKey k o).byKey k' = tab.byKey k' :=
  Function.update_of_ne hne _ _

/-- Tables that differ in where inodes were last seen only. -/
structure Table.Alike (tab tab' : Table) : Prop where
  byId : tab'.byId = tab.byId
  byKey : tab'.byKey = tab.byKey
  made : tab'.made = tab.made
  nextId : tab'.nextId = tab.nextId
  id : ∀ arc, (tab'.arcs arc).id = (tab.arcs arc).id
  key : ∀ arc, (tab'.arcs arc).key = (tab.arcs arc).key
  lookups : ∀ arc, (tab'.arcs arc).lookups = (tab.arcs arc).lookups

theorem Table.Alike.refl : tab.Alike tab :=
  ⟨rfl, rfl, rfl, rfl, fun _ => rfl, fun _ => rfl, fun _ => rfl⟩

theorem Table.alike_relocate (parent : Option UInt64) (name : Name) :
    tab.Alike (tab.relocate arc parent name) := by
  refine ⟨rfl, rfl, rfl, rfl, fun a => ?_, fun a => ?_, fun a => ?_⟩
  all_goals
    by_cases ha : a = arc
    · subst ha
      simp [relocate, setArc]
    · simp [relocate, setArc, Function.update_of_ne ha]

end Tables

/-- Numbers stay when nothing is made: what is in `by_id` was there or was already made. -/
theorem Table.Numbered.frame {tab tab' : Table} (h : tab.Numbered) (hmade : tab'.made = tab.made)
    (hnext : tab'.nextId = tab.nextId) (hid : ∀ arc, (tab'.arcs arc).id = (tab.arcs arc).id)
    (hin : ∀ id arc, tab'.byId id = some arc → arc < tab.made ∧ (tab.arcs arc).id = id)
    (hroot : ∃ arc, tab'.byId ROOT_ID = some arc) : tab'.Numbered := by
  refine ⟨?_, fun arc harc => ?_, fun id arc harc => ?_, hroot⟩
  · rw [hnext, hmade]
    exact h.next
  · rw [hid]
    exact h.ids arc (hmade ▸ harc)
  · rw [hmade, hid]
    exact hin id arc harc

theorem Table.Numbered.recount {tab : Table} (h : tab.Numbered) (arc : ℕ) (l : UInt64) :
    (tab.recount arc l).Numbered :=
  h.frame rfl rfl (fun _ => tab.recount_id _ _ _) h.inode h.root

theorem Stage.Fits.alike {tab tab' : Table} (htab : tab.Alike tab') {joined taken : UInt64 → ℕ}
    {s : Stage} (h : s.Fits tab joined taken) : s.Fits tab' joined taken := by
  cases s <;> simp only [Fits, htab.byId, htab.byKey, htab.made, htab.id, htab.key,
    htab.lookups] at h ⊢ <;> exact h

/-- A stage that the maps are not between changes at. -/
def Stage.plain : Stage → Bool
  | .made _ _ _ | .listed _ _ _ | .evicted _ _ _ => false
  | _ => true

variable {n : ℕ} {v : View n} {m : ℕ} {t : Fin n} {table : Table} {s : Stage} {done : Done}

/-- A move that leaves the maps and the keys alone. -/
theorem View.Mapped.frame (h : v.Mapped) (hbyId : table.byId = v.table.byId)
    (hbyKey : table.byKey = v.table.byKey)
    (hkey : ∀ id arc, v.table.byId id = some arc → (table.arcs arc).key = (v.table.arcs arc).key)
    (hplain : (v.stages t).plain = true) : (v.after t table s done).Mapped := by
  constructor
  · intro k id hk
    rw [after_table, hbyKey] at hk
    rw [after_table, hbyId]
    rcases h.keyed k id hk with ⟨arc, harc, hkey'⟩ | hev
    · left
      exact ⟨arc, harc, (hkey id arc harc).trans hkey'⟩
    · right
      refine witness_after (P := fun s => ∃ count, s = .evicted id count k) hev ?_
      rintro ⟨count, hs⟩
      rw [hs] at hplain
      cases hplain
  · intro id arc harc
    rw [after_table, hbyId] at harc
    rw [after_table, hbyKey, hkey id arc harc]
    refine (h.listed id arc harc).imp_right fun hl => ?_
    refine witness_after (P := fun s => s = .listed (v.table.arcs arc).key id arc) hl ?_
    intro hs
    rw [hs] at hplain
    cases hplain

/-- A move that changes no count: an inode it lists has the count it should have, one it
unlists is covered. -/
theorem View.Accounts.frame (h : v.Accounts)
    (hj : (v.after t table s done).joined = v.joined)
    (ht : (v.after t table s done).taken = v.taken) (hnext : table.nextId = v.table.nextId)
    (hin : ∀ id arc, table.byId id = some arc →
      (v.table.byId id = some arc ∧ (table.arcs arc).lookups = (v.table.arcs arc).lookups) ∨
        ((table.arcs arc).lookups.toNat + v.taken id = v.joined id ∧ v.taken id < v.joined id))
    (hout : ∀ id, table.byId id = none → v.joined id ≤ v.taken id ∨
      (v.table.byId id = none ∧ ∀ k arc, v.stages t ≠ .made k id arc))
    (hdooming : ∀ id count, v.stages t = .dooming id count → table.byId id = none) :
    (v.after t table s done).Accounts := by
  have hissued : ∀ id, table.Issued id ↔ v.table.Issued id := by
    intro id
    unfold Table.Issued
    rw [hnext]
  constructor
  · intro id arc harc hlt
    rw [hj, ht] at hlt ⊢
    rcases hin id arc harc with ⟨hold, hl⟩ | hnew
    · rw [after_table, hl]
      exact h.counted id arc hold hlt
    · exact hnew.1
  · intro id arc harc hle
    rw [hj, ht] at hle
    rcases hin id arc harc with ⟨hold, -⟩ | hnew
    · refine witness_after (P := fun s => ∃ count, s = .dooming id count)
        (h.doomed id arc hold hle) ?_
      rintro ⟨count, hs⟩
      rw [after_table, hdooming id count hs] at harc
      cases harc
    · omega
  · intro id hid hnone
    rw [hj, ht]
    rcases hout id hnone with hle | ⟨hold, hmade⟩
    · exact Or.inl hle
    · refine (h.covered id ((hissued id).mp hid) hold).imp_right fun hm => ?_
      refine witness_after (P := fun s => ∃ k arc, s = .made k id arc) hm ?_
      rintro ⟨k, arc, hs⟩
      exact hmade k arc hs
  · intro id hid
    rw [hj, ht]
    exact h.unissued id (fun hi => hid ((hissued id).mpr hi))

namespace Sound

/-- The calls in progress stay all `register`s, or all `forget`s. -/
theorem apart_after (h : Sound v m)
    (hforget : s.forgetting = true → (v.stages t).forgetting = true)
    (hkey : ∀ k, s.key = some k → (v.stages t).key = some k) :
    (∀ t', ((v.after t table s done).stages t').forgetting = false) ∨
      ∀ t', ((v.after t table s done).stages t').key = none := by
  rcases h.apart with hno | hno
  · left
    refine View.forall_after (P := fun s => s.forgetting = false) (fun t' _ => hno t') ?_
    cases hs : s.forgetting with
    | false => rfl
    | true =>
      have := hforget hs
      rw [hno t] at this
      cases this
  · right
    refine View.forall_after (P := fun s => s.key = none) (fun t' _ => hno t') ?_
    cases hs : s.key with
    | none => rfl
    | some k =>
      have := hkey k hs
      rw [hno t] at this
      cases this

/-- Two `register`s of one key only where the key is known, after a move that forgets no key
of theirs. -/
theorem sole_after (h : Sound v m) (hkey : ∀ k, s.key = some k → (v.stages t).key = some k)
    (hkeeps : ∀ k, v.table.byKey k ≠ none → table.byKey k ≠ none) :
    ∀ t₁ t₂ k, t₁ ≠ t₂ → ((v.after t table s done).stages t₁).key = some k →
      ((v.after t table s done).stages t₂).key = some k → table.byKey k ≠ none := by
  have hold : ∀ t' k, ((v.after t table s done).stages t').key = some k →
      (v.stages t').key = some k := by
    intro t' k
    by_cases hne : t' = t
    · subst hne
      simpa only [View.after, Function.update_self] using hkey k
    · simp only [View.after, Function.update_of_ne hne, imp_self]
  intro t₁ t₂ k hne h₁ h₂
  exact hkeeps k (h.sole t₁ t₂ k hne (hold t₁ k h₁) (hold t₂ k h₂))

/-- No two threads evict one id, after a move to a stage whose id no other evicts. -/
theorem once_after (h : Sound v m)
    (hs : ∀ id, s.evicts = some id → ∀ t', (v.stages t').evicts ≠ some id) :
    ∀ t₁ t₂ id, t₁ ≠ t₂ → ((v.after t table s done).stages t₁).evicts = some id →
      ((v.after t table s done).stages t₂).evicts ≠ some id := by
  intro t₁ t₂ id hne h₁ h₂
  by_cases e₁ : t₁ = t
  · subst e₁
    simp only [View.after, Function.update_self] at h₁
    simp only [View.after, Function.update_of_ne hne.symm] at h₂
    exact hs id h₁ t₂ h₂
  · simp only [View.after, Function.update_of_ne e₁] at h₁
    by_cases e₂ : t₂ = t
    · subst e₂
      simp only [View.after, Function.update_self] at h₂
      exact hs id h₂ t₁ h₁
    · simp only [View.after, Function.update_of_ne e₂] at h₂
      exact h.once t₁ t₂ id hne h₁ h₂

end Sound

/-- A step between stages that counts and maps are not concerned with. -/
structure Stage.Passes (s s' : Stage) (done : Done) : Prop where
  owes : ∀ id, s'.owes id + done.registrations id = s.owes id
  spends : ∀ id, s'.spends id + done.forgets id = s.spends id
  plain : s.plain = true
  evicts : s'.evicts = none

namespace Sound

variable {s₀ : Stage}

/-- A move that changes neither maps nor counts, for calls that stay compatible. -/
theorem passing (h : Sound v m) (hs : v.stages t = s₀) (htab : v.table.Alike table)
    (hpass : s₀.Passes s done)
    (hapart : (∀ t', ((v.after t table s done).stages t').forgetting = false) ∨
      ∀ t', ((v.after t table s done).stages t').key = none)
    (hsole : ∀ t₁ t₂ k, t₁ ≠ t₂ → ((v.after t table s done).stages t₁).key = some k →
      ((v.after t table s done).stages t₂).key = some k → table.byKey k ≠ none)
    (hdooming : ∀ id count, s₀ = .dooming id count → v.table.byId id = none)
    (hfits : s.Fits v.table v.joined v.taken) : Sound (v.after t table s done) m := by
  subst hs
  have hj := View.joined_kept table hpass.owes
  have ht := View.taken_kept table hpass.spends
  refine
    { numbered := h.numbered.frame htab.made htab.nextId htab.id ?_ ?_
      apart := hapart
      sole := hsole
      once := h.once_after (fun id hid => by rw [hpass.evicts] at hid; cases hid)
      fits := ?_
      mapped := h.mapped.frame htab.byId htab.byKey (fun _ arc _ => htab.key arc) hpass.plain
      accounts := h.accounts.frame hj ht htab.nextId ?_ ?_ ?_
      few := ?_ }
  · rw [View.after_table, htab.byId]
    exact h.numbered.inode
  · rw [View.after_table, htab.byId]
    exact h.numbered.root
  · rw [hj, ht]
    exact View.forall_after (P := fun s => s.Fits table v.joined v.taken)
      (fun t' _ => (h.fits t').alike htab) (hfits.alike htab)
  · intro id arc harc
    exact Or.inl ⟨htab.byId ▸ harc, htab.lookups arc⟩
  · intro id hnone
    refine Or.inr ⟨htab.byId ▸ hnone, fun k arc hs => ?_⟩
    have := hpass.plain
    rw [hs] at this
    cases this
  · rw [htab.byId]
    exact hdooming
  · rw [hj, View.after_table, htab.made]
    exact h.few

/-- A call that goes on, changing neither maps nor counts. -/
theorem still (h : Sound v m) (hs : v.stages t = s₀) (htab : v.table.Alike table)
    (hpass : s₀.Passes s done) (hforget : s.forgetting = true → s₀.forgetting = true)
    (hkey : ∀ k, s.key = some k → s₀.key = some k)
    (hdooming : ∀ id count, s₀ = .dooming id count → v.table.byId id = none)
    (hfits : s.Fits v.table v.joined v.taken) : Sound (v.after t table s done) m := by
  refine h.passing hs htab hpass ?_ ?_ hdooming hfits
  · exact h.apart_after (by rwa [hs]) (by rwa [hs])
  · exact h.sole_after (by rwa [hs]) (fun k hk => by rwa [htab.byKey])

end Sound

end Riftlessfs.Core.Shared
