import Riftlessfs.Core.InodeInvariant
import Riftlessfs.Core.InodeMoves

/-! The moves of `register` that change the shared inode table. -/
namespace Riftlessfs.Core.Shared

variable {n : ℕ} {v : View n} {m : ℕ} {t : Fin n}

/-- A call other than a `forget` fits a table with more in it. -/
theorem Stage.Fits.registering {tab tab' : Table} {joined taken joined' taken' : UInt64 → ℕ}
    {s : Stage} (h : s.Fits tab joined taken) (hno : s.forgetting = false)
    (hkey : ∀ k, s.key = some k → tab'.byKey k = tab.byKey k)
    (hid : ∀ id arc, tab.byId id = some arc →
      tab'.byId id = some arc ∧ (tab'.arcs arc).key = (tab.arcs arc).key)
    (hmade : ∀ k id arc, s = .made k id arc → s.Fits tab' joined' taken') :
    s.Fits tab' joined' taken' := by
  cases s with
  | out => trivial
  | seeking k => trivial
  | joining k id => exact (hkey k rfl).trans h
  | joined k id => exact (hkey k rfl).trans h
  | cloned k id arc => exact ⟨(hkey k rfl).trans h.1, (hid id arc h.2).1⟩
  | missing k => exact (hkey k rfl).trans h
  | made k id arc => exact hmade k id arc rfl
  | listed k id arc =>
    have hin := hid id arc h.2.1
    exact ⟨(hkey k rfl).trans h.1, hin.1, hin.2.trans h.2.2⟩
  | panicked => exact h.elim
  | asking | taking | subtracting | spent | dooming | evicted => cases hno

namespace Sound

/-- While a `register` is in progress no `forget` is. -/
theorem registering (h : Sound v m) {k : FileKey} (hk : (v.stages t).key = some k) :
    ∀ t', (v.stages t').forgetting = false := by
  rcases h.apart with hno | hno
  · exact hno
  · rw [hno t] at hk
    cases hk

theorem keyed_inode (h : Sound v m) (hno : ∀ t', (v.stages t').forgetting = false)
    {k : FileKey} {id : UInt64} (hk : v.table.byKey k = some id) :
    ∃ arc, v.table.byId id = some arc ∧ (v.table.arcs arc).key = k := by
  refine (h.mapped.keyed k id hk).resolve_right ?_
  rintro ⟨t', count, hs⟩
  have := hno t'
  rw [hs] at this
  cases this

/-- Without a `forget` in progress every inode in `by_id` is referenced. -/
theorem taken_lt (h : Sound v m) (hno : ∀ t', (v.stages t').forgetting = false)
    {id : UInt64} {arc : ℕ} (harc : v.table.byId id = some arc) : v.taken id < v.joined id := by
  by_contra hle
  obtain ⟨t', count, hs⟩ := h.accounts.doomed id arc harc (Nat.le_of_not_lt hle)
  have := hno t'
  rw [hs] at this
  cases this

/-- Nobody else registers a key that is not known. -/
theorem alone (h : Sound v m) {k : FileKey} (hk : (v.stages t).key = some k)
    (hnone : v.table.byKey k = none) {t' : Fin n} (ht' : t' ≠ t) :
    (v.stages t').key ≠ some k :=
  fun hk' => h.sole t' t k ht' hk' hk hnone

section Bump

variable {k : FileKey} {id : UInt64} {arc : ℕ}

/-- The state after `fetch_add` on the count of a known inode. -/
abbrev bumped (v : View n) (t : Fin n) (k : FileKey) (id : UInt64) (arc : ℕ) : View n :=
  v.after t (v.table.recount arc ((v.table.arcs arc).lookups + 1)) (.joined k id) .nothing

theorem joined_bumped (hs : v.stages t = .cloned k id arc) (id' : UInt64) :
    (bumped v t k id arc).joined id' = v.joined id' + if id' = id then 1 else 0 :=
  View.joined_after (by rw [hs]; simp [Stage.owes, Done.registrations])

theorem taken_bumped (hs : v.stages t = .cloned k id arc) :
    (bumped v t k id arc).taken = v.taken :=
  View.taken_kept _ (fun _ => by rw [hs]; rfl)

private theorem fits_bumped (h : Sound v m) (hs : v.stages t = .cloned k id arc) (t' : Fin n) :
    ((bumped v t k id arc).stages t').Fits (bumped v t k id arc).table
      (bumped v t k id arc).joined (bumped v t k id arc).taken := by
  have hno := h.registering (t := t) (k := k) (by rw [hs]; rfl)
  obtain ⟨hbyKey, hbyId⟩ := h.fit hs
  revert t'
  refine View.forall_after (P := fun s => s.Fits _ _ _) (fun t' _ => ?_) hbyKey
  refine (h.fits t').registering (hno t') (fun _ _ => rfl)
    (fun id' arc' harc' => ⟨harc', Table.recount_key _ _ _ _⟩) ?_
  intro k' id' arc' hs'
  obtain ⟨hk', hnone, hlt', hid', hkey', hone, hj', ht'⟩ := h.fit hs'
  rw [hs']
  -- an inode under way is not yet in `by_id`, so it is another one
  have hne : id' ≠ id := by
    rintro rfl
    rw [hbyId] at hnone
    cases hnone
  have hne' : arc' ≠ arc := by
    rintro rfl
    exact hne (hid'.symm.trans (h.numbered.inode id arc' hbyId).2)
  refine ⟨hk', hnone, hlt', ?_, ?_, ?_, ?_, ?_⟩
  · rw [View.after_table, Table.recount_id, hid']
  · rw [View.after_table, Table.recount_key, hkey']
  · rw [View.after_table, Table.recount_lookups_of_ne _ _ _ hne', hone]
  · rw [joined_bumped hs, if_neg hne, hj']
  · rw [taken_bumped hs, ht']

private theorem accounts_bumped (h : Sound v m) (hs : v.stages t = .cloned k id arc)
    (hm : m + 3 < 2 ^ 64) : (bumped v t k id arc).Accounts := by
  have hno := h.registering (t := t) (k := k) (by rw [hs]; rfl)
  obtain ⟨hbyKey, hbyId⟩ := h.fit hs
  have hcount := h.accounts.counted id arc hbyId (h.taken_lt hno hbyId)
  have hfew := h.few.2 id
  constructor
  · intro id' arc' harc' hlt
    rw [joined_bumped hs, taken_bumped hs] at *
    rw [View.after_table] at harc' ⊢
    by_cases hne : id' = id
    · subst hne
      have harc : arc' = arc := Option.some.inj (harc'.symm.trans hbyId)
      subst harc
      rw [Table.recount_lookups, InodeStore.toNat_succ (by omega), if_pos rfl]
      omega
    · have hne' : arc' ≠ arc := by
        rintro rfl
        have hid' := (h.numbered.inode id' arc' harc').2
        exact hne (hid'.symm.trans (h.numbered.inode id arc' hbyId).2)
      rw [if_neg hne] at hlt ⊢
      rw [Table.recount_lookups_of_ne _ _ _ hne']
      exact h.accounts.counted id' arc' harc' hlt
  · intro id' arc' harc' hle
    rw [joined_bumped hs, taken_bumped hs] at hle
    exact absurd (h.taken_lt hno harc') (by omega)
  · intro id' hissued hnone
    have hne : id' ≠ id := by
      rintro rfl
      exact Option.some_ne_none arc (hbyId.symm.trans hnone)
    rw [joined_bumped hs, taken_bumped hs, if_neg hne]
    refine (h.accounts.covered id' hissued hnone).imp_right fun hmade => ?_
    refine View.witness_after (P := fun s => ∃ k arc, s = .made k id' arc) hmade ?_
    rintro ⟨k', arc', hs'⟩
    rw [hs] at hs'
    cases hs'
  · intro id' hnot
    have hne : id' ≠ id := by
      rintro rfl
      exact hnot (h.numbered.issued_byId hbyId)
    rw [joined_bumped hs, taken_bumped hs, if_neg hne]
    exact h.accounts.unissued id' hnot

theorem bump (h : Sound v m) (hs : v.stages t = .cloned k id arc) (hm : m + 3 < 2 ^ 64) :
    Sound (bumped v t k id arc) (m + 1) := by
  have hkey : ∀ k', (Stage.joined k id).key = some k' → (v.stages t).key = some k' := by
    intro k' hk'
    rw [hs]
    exact hk'
  refine
    { numbered := h.numbered.recount _ _
      apart := h.apart_after (by simp [Stage.forgetting]) hkey
      sole := h.sole_after hkey (fun _ hk => hk)
      once := h.once_after (by simp [Stage.evicts])
      fits := h.fits_bumped hs
      mapped := h.mapped.frame rfl rfl (fun _ _ _ => Table.recount_key _ _ _ _) (by rw [hs]; rfl)
      accounts := h.accounts_bumped hs hm
      few := ⟨Nat.le_succ_of_le h.few.1, fun id' => ?_⟩ }
  rw [joined_bumped hs]
  have := h.few.2 id'
  split_ifs
  · omega
  · omega

end Bump

section Create

variable {r : Registration}

/-- The state after `next_id.fetch_add`, with a new inode that nobody else sees. -/
abbrev created (v : View n) (t : Fin n) (r : Registration) : View n :=
  v.after t (v.table.add r) (.made r.key v.table.nextId v.table.made) .nothing

theorem joined_created (hs : v.stages t = .missing r.key) (id : UInt64) :
    (created v t r).joined id = v.joined id + if id = v.table.nextId then 1 else 0 :=
  View.joined_after (by rw [hs]; simp [Stage.owes, Done.registrations])

theorem taken_created (hs : v.stages t = .missing r.key) : (created v t r).taken = v.taken :=
  View.taken_kept _ (fun _ => by rw [hs]; rfl)

theorem arcs_add {tab : Table} {arc : ℕ} (harc : arc < tab.made) :
    (tab.add r).arcs arc = tab.arcs arc :=
  Function.update_of_ne (Nat.ne_of_lt harc) _ _

theorem arcs_add_made (tab : Table) : (tab.add r).arcs tab.made = tab.fresh r :=
  Function.update_self _ _ _

theorem not_issued_next (tab : Table) : ¬ tab.Issued tab.nextId :=
  fun h => absurd h.2 (lt_irrefl _)

theorem toNat_next_add (h : Sound v m) (hm : m + 3 < 2 ^ 64) :
    (v.table.add r).nextId.toNat = v.table.nextId.toNat + 1 := by
  have hnext := h.numbered.next
  have hfew := h.few.1
  exact InodeStore.toNat_succ (by omega)

theorem issued_add (h : Sound v m) (hm : m + 3 < 2 ^ 64) (id : UInt64) :
    (v.table.add r).Issued id ↔ v.table.Issued id ∨ id = v.table.nextId := by
  have hnext := h.numbered.next
  unfold Table.Issued
  rw [h.toNat_next_add hm, ← UInt64.toNat_inj]
  omega

private theorem numbered_created (h : Sound v m) (hm : m + 3 < 2 ^ 64) :
    (v.table.add r).Numbered := by
  have hnext := h.numbered.next
  refine ⟨?_, fun arc harc => ?_, fun id arc harc => ?_, h.numbered.root⟩
  · rw [h.toNat_next_add hm, hnext]
    rfl
  · by_cases hlast : arc = v.table.made
    · rw [hlast, arcs_add_made]
      exact hnext
    · have hlt : arc < v.table.made := Nat.lt_of_le_of_ne (Nat.le_of_lt_succ harc) hlast
      rw [arcs_add hlt]
      exact h.numbered.ids arc hlt
  · obtain ⟨hlt, hid⟩ := h.numbered.inode id arc harc
    rw [arcs_add hlt]
    exact ⟨Nat.lt_succ_of_lt hlt, hid⟩

private theorem fits_created (h : Sound v m) (hs : v.stages t = .missing r.key) (t' : Fin n) :
    ((created v t r).stages t').Fits (created v t r).table (created v t r).joined
      (created v t r).taken := by
  have hno := h.registering (t := t) (k := r.key) (by rw [hs]; rfl)
  have hmissing := h.fit hs
  have hfresh := h.accounts.unissued _ (not_issued_next v.table)
  revert t'
  refine View.forall_after (P := fun s => s.Fits _ _ _) (fun t' _ => ?_) ?_
  · refine (h.fits t').registering (hno t') (fun _ _ => rfl) ?_ ?_
    · intro id arc harc
      rw [View.after_table, arcs_add (h.numbered.inode id arc harc).1]
      exact ⟨harc, rfl⟩
    · intro k id arc hs'
      obtain ⟨hk, hnone, hlt, hid, hrest⟩ := h.fit hs'
      rw [hs']
      have hne : id ≠ v.table.nextId := by
        rintro rfl
        exact not_issued_next v.table (hid ▸ h.numbered.issued hlt)
      simp only [Stage.Fits]
      rw [View.after_table, arcs_add hlt, joined_created hs, if_neg hne, taken_created hs]
      exact ⟨hk, hnone, Nat.lt_succ_of_lt hlt, hid, hrest⟩
  · have hnone : v.table.byId v.table.nextId = none := by
      cases hid : v.table.byId v.table.nextId with
      | none => rfl
      | some arc => exact absurd (h.numbered.issued_byId hid) (not_issued_next v.table)
    simp only [Stage.Fits]
    rw [View.after_table, arcs_add_made, joined_created hs, if_pos rfl, taken_created hs]
    exact ⟨hmissing, hnone, Nat.lt_succ_self _, rfl, rfl, rfl, by omega, hfresh.2⟩

private theorem accounts_created (h : Sound v m) (hs : v.stages t = .missing r.key)
    (hm : m + 3 < 2 ^ 64) : (created v t r).Accounts := by
  have hno := h.registering (t := t) (k := r.key) (by rw [hs]; rfl)
  constructor
  · intro id arc harc hlt
    have hne : id ≠ v.table.nextId := by
      rintro rfl
      exact not_issued_next v.table (h.numbered.issued_byId harc)
    rw [joined_created hs, if_neg hne, taken_created hs] at hlt ⊢
    rw [View.after_table, arcs_add (h.numbered.inode id arc harc).1]
    exact h.accounts.counted id arc harc hlt
  · intro id arc harc hle
    rw [joined_created hs, taken_created hs] at hle
    exact absurd (h.taken_lt hno harc) (by omega)
  · intro id hi hnone
    by_cases hlast : id = v.table.nextId
    · right
      refine ⟨t, r.key, v.table.made, ?_⟩
      rw [hlast]
      exact Function.update_self _ _ _
    · rw [joined_created hs, if_neg hlast, taken_created hs]
      have hi' := ((h.issued_add hm id).mp hi).resolve_right hlast
      refine (h.accounts.covered id hi' hnone).imp_right fun hmade => ?_
      refine View.witness_after (P := fun s => ∃ k arc, s = .made k id arc) hmade ?_
      rintro ⟨k', arc', hs'⟩
      rw [hs] at hs'
      cases hs'
  · intro id hnot
    have hne : id ≠ v.table.nextId := fun heq => hnot ((h.issued_add hm id).mpr (Or.inr heq))
    rw [joined_created hs, if_neg hne, taken_created hs]
    exact h.accounts.unissued id (fun hi => hnot ((h.issued_add hm id).mpr (Or.inl hi)))

theorem create (h : Sound v m) (hs : v.stages t = .missing r.key) (hm : m + 3 < 2 ^ 64) :
    Sound (created v t r) (m + 1) := by
  have hkey : ∀ k', (Stage.made r.key v.table.nextId v.table.made).key = some k' →
      (v.stages t).key = some k' := by
    intro k' hk'
    rw [hs]
    exact hk'
  refine
    { numbered := h.numbered_created hm
      apart := h.apart_after (by simp [Stage.forgetting]) hkey
      sole := h.sole_after hkey (fun _ hk => hk)
      once := h.once_after (by simp [Stage.evicts])
      fits := h.fits_created hs
      mapped := h.mapped.frame rfl rfl ?_ (by rw [hs]; rfl)
      accounts := h.accounts_created hs hm
      few := ⟨Nat.succ_le_succ h.few.1, fun id => ?_⟩ }
  · intro id arc harc
    rw [arcs_add (h.numbered.inode id arc harc).1]
  · rw [joined_created hs]
    have := h.few.2 id
    split_ifs
    · omega
    · omega

end Create

section Insert

variable {k : FileKey} {id : UInt64} {arc : ℕ}

/-- The state after `by_id.write().insert(id, data)`. -/
abbrev inserted (v : View n) (t : Fin n) (k : FileKey) (id : UInt64) (arc : ℕ) : View n :=
  v.after t (v.table.setId id (some arc)) (.listed k id arc) .nothing

theorem byId_inserted {id' : UInt64} {arc' : ℕ}
    (harc' : (v.table.setId id (some arc)).byId id' = some arc') :
    (id' = id ∧ arc' = arc) ∨ v.table.byId id' = some arc' := by
  by_cases hne : id' = id
  · rw [hne, Table.setId_self] at harc'
    exact Or.inl ⟨hne, (Option.some.inj harc').symm⟩
  · rw [Table.setId_of_ne _ _ hne] at harc'
    exact Or.inr harc'

/-- What was in `by_id` is still there: the new id was not. -/
theorem inserted_byId (hnone : v.table.byId id = none) {id' : UInt64} {arc' : ℕ}
    (harc' : v.table.byId id' = some arc') :
    (v.table.setId id (some arc)).byId id' = some arc' := by
  have hne : id' ≠ id := by
    rintro rfl
    rw [hnone] at harc'
    cases harc'
  rw [Table.setId_of_ne _ _ hne, harc']

private theorem mapped_inserted (h : Sound v m) (hs : v.stages t = .made k id arc) :
    (inserted v t k id arc).Mapped := by
  have hno := h.registering (t := t) (k := k) (by rw [hs]; rfl)
  obtain ⟨-, hnone, -, -, hkey, -⟩ := h.fit hs
  constructor
  · intro k' id' hk'
    left
    obtain ⟨arc', harc', hkey'⟩ := h.keyed_inode hno hk'
    exact ⟨arc', inserted_byId hnone harc', hkey'⟩
  · intro id' arc' harc'
    rcases byId_inserted harc' with ⟨rfl, rfl⟩ | hold
    · right
      refine ⟨t, ?_⟩
      rw [show ((inserted v t k id' arc').table.arcs arc').key = k from hkey]
      exact Function.update_self _ _ _
    · refine (h.mapped.listed id' arc' hold).imp_right fun hl => ?_
      refine View.witness_after (P := fun s => s = .listed (v.table.arcs arc').key id' arc') hl ?_
      rw [hs]
      exact Stage.noConfusion

private theorem fits_inserted (h : Sound v m) (hs : v.stages t = .made k id arc) (t' : Fin n) :
    ((inserted v t k id arc).stages t').Fits (inserted v t k id arc).table v.joined v.taken := by
  have hno := h.registering (t := t) (k := k) (by rw [hs]; rfl)
  obtain ⟨hbyKey, hnone, hlt, hid, hkey, -⟩ := h.fit hs
  revert t'
  refine View.forall_after (P := fun s => s.Fits _ _ _) (fun t' hne => ?_)
    ⟨hbyKey, Table.setId_self _ _ _, hkey⟩
  refine (h.fits t').registering (hno t') (fun _ _ => rfl)
    (fun id' arc' harc' => ⟨inserted_byId hnone harc', rfl⟩) ?_
  intro k' id' arc' hs'
  obtain ⟨hk', hnone', hlt', hid', hkey', hrest'⟩ := h.fit hs'
  rw [hs']
  -- two inodes under way with one id would be one inode, for one file
  have hne' : id' ≠ id := by
    rintro rfl
    have harc : arc' = arc := h.numbered.arc_eq hlt' hlt (hid'.trans hid.symm)
    refine h.alone (by rw [hs]; rfl) hbyKey hne ?_
    rw [hs', ← hkey', harc, hkey]
    rfl
  simp only [Stage.Fits]
  rw [View.after_table, Table.setId_of_ne _ _ hne']
  exact ⟨hk', hnone', hlt', hid', hkey', hrest'⟩

theorem insert (h : Sound v m) (hs : v.stages t = .made k id arc) :
    Sound (inserted v t k id arc) m := by
  obtain ⟨-, hnone, hlt, hid, -, hone, hjone, htzero⟩ := h.fit hs
  have hj : (inserted v t k id arc).joined = v.joined :=
    View.joined_kept _ (fun _ => by rw [hs]; rfl)
  have ht : (inserted v t k id arc).taken = v.taken :=
    View.taken_kept _ (fun _ => by rw [hs]; rfl)
  have hkey : ∀ k', (Stage.listed k id arc).key = some k' → (v.stages t).key = some k' := by
    intro k' hk'
    rw [hs]
    exact hk'
  refine
    { numbered := h.numbered.frame rfl rfl (fun _ => rfl) ?_ ?_
      apart := h.apart_after (by simp [Stage.forgetting]) hkey
      sole := h.sole_after hkey (fun _ hk => hk)
      once := h.once_after (by simp [Stage.evicts])
      fits := by
        rw [hj, ht]
        exact h.fits_inserted hs
      mapped := h.mapped_inserted hs
      accounts := h.accounts.frame hj ht rfl ?_ ?_ (fun _ _ hs' => by rw [hs] at hs'; cases hs')
      few := ⟨h.few.1, fun id' => hj ▸ h.few.2 id'⟩ }
  · intro id' arc' harc'
    rcases byId_inserted harc' with ⟨rfl, rfl⟩ | hold
    · exact ⟨hlt, hid⟩
    · exact h.numbered.inode id' arc' hold
  · obtain ⟨arc', harc'⟩ := h.numbered.root
    exact ⟨arc', inserted_byId hnone harc'⟩
  · intro id' arc' harc'
    rcases byId_inserted harc' with ⟨rfl, rfl⟩ | hold
    · right
      rw [show ((v.table.setId id' (some arc')).arcs arc').lookups = 1 from hone, hjone, htzero]
      exact ⟨rfl, Nat.one_pos⟩
    · exact Or.inl ⟨hold, rfl⟩
  · intro id' hnone'
    right
    have hne : id' ≠ id := by
      rintro rfl
      rw [Table.setId_self] at hnone'
      cases hnone'
    rw [Table.setId_of_ne _ _ hne] at hnone'
    refine ⟨hnone', fun k' arc' hs' => ?_⟩
    rw [hs] at hs'
    cases hs'
    exact hne rfl

end Insert

section Enter

variable {k : FileKey} {id : UInt64} {arc : ℕ}

/-- The state after `by_key.write().insert(key, id)` and the return. -/
abbrev entered (v : View n) (t : Fin n) (k : FileKey) (id : UInt64) : View n :=
  v.after t (v.table.setKey k (some id)) .out (.registered id)

private theorem mapped_entered (h : Sound v m) (hs : v.stages t = .listed k id arc) :
    (entered v t k id).Mapped := by
  have hkey : (v.stages t).key = some k := by
    rw [hs]
    rfl
  have hno := h.registering hkey
  obtain ⟨hnone, hbyId, hkeyArc⟩ := h.fit hs
  constructor
  · intro k' id' hk'
    left
    rw [View.after_table] at hk'
    by_cases hne : k' = k
    · rw [hne, Table.setKey_self] at hk'
      cases hk'
      exact ⟨arc, hbyId, hkeyArc.trans hne.symm⟩
    · rw [Table.setKey_of_ne _ _ hne] at hk'
      exact h.keyed_inode hno hk'
  · intro id' arc' harc'
    show (v.table.setKey k (some id)).byKey (v.table.arcs arc').key = some id' ∨
      ∃ t', (entered v t k id).stages t' = .listed (v.table.arcs arc').key id' arc'
    by_cases hne : (v.table.arcs arc').key = k
    · left
      rcases h.mapped.listed id' arc' harc' with hk' | ⟨t', hs'⟩
      · rw [hne, hnone] at hk'
        cases hk'
      · have heq : t' = t := by
          by_contra hother
          refine h.alone hkey hnone hother ?_
          rw [hs', hne]
          rfl
        rw [heq, hs] at hs'
        cases hs'
        rw [hne, Table.setKey_self]
    · rw [Table.setKey_of_ne _ _ hne]
      refine (h.mapped.listed id' arc' harc').imp_right fun hl => ?_
      refine View.witness_after (P := fun s => s = .listed (v.table.arcs arc').key id' arc') hl ?_
      rw [hs]
      intro heq
      cases heq
      exact hne rfl

private theorem fits_entered (h : Sound v m) (hs : v.stages t = .listed k id arc) (t' : Fin n) :
    ((entered v t k id).stages t').Fits (entered v t k id).table v.joined v.taken := by
  have hkey : (v.stages t).key = some k := by
    rw [hs]
    rfl
  have hno := h.registering hkey
  have hfit := h.fit hs
  revert t'
  refine View.forall_after (P := fun s => s.Fits _ _ _) (fun t' hne => ?_) trivial
  have hkeys : ∀ k', (v.stages t').key = some k' →
      (v.table.setKey k (some id)).byKey k' = v.table.byKey k' := by
    intro k' hk'
    refine Table.setKey_of_ne _ _ ?_
    rintro rfl
    exact h.alone hkey hfit.1 hne hk'
  refine (h.fits t').registering (hno t') hkeys (fun id' arc' harc' => ⟨harc', rfl⟩) ?_
  intro k' id' arc' hs'
  have hf := h.fits t'
  have hk' := hkeys k' (by rw [hs']; rfl)
  rw [hs'] at hf ⊢
  simp only [Stage.Fits] at hf ⊢
  rw [View.after_table, hk']
  exact hf

theorem enter (h : Sound v m) (hs : v.stages t = .listed k id arc) :
    Sound (entered v t k id) m := by
  have hj : (entered v t k id).joined = v.joined :=
    View.joined_kept _ (fun _ => by rw [hs]; exact Nat.zero_add _)
  have ht : (entered v t k id).taken = v.taken :=
    View.taken_kept _ (fun _ => by rw [hs]; rfl)
  refine
    { numbered := h.numbered.frame rfl rfl (fun _ => rfl) h.numbered.inode h.numbered.root
      apart := h.apart_after (by simp [Stage.forgetting]) (by simp [Stage.key])
      sole := h.sole_after (by simp [Stage.key]) ?_
      once := h.once_after (by simp [Stage.evicts])
      fits := by
        rw [hj, ht]
        exact h.fits_entered hs
      mapped := h.mapped_entered hs
      accounts := h.accounts.frame hj ht rfl (fun _ _ harc => Or.inl ⟨harc, rfl⟩) ?_
        (fun _ _ hs' => by rw [hs] at hs'; cases hs')
      few := ⟨h.few.1, fun id' => hj ▸ h.few.2 id'⟩ }
  · intro k' hk'
    by_cases hne : k' = k
    · rw [hne, Table.setKey_self]
      exact Option.some_ne_none _
    · rwa [Table.setKey_of_ne _ _ hne]
  · intro id' hnone
    refine Or.inr ⟨hnone, fun k' arc' hs' => ?_⟩
    rw [hs] at hs'
    cases hs'

end Enter

end Sound

end Riftlessfs.Core.Shared
