import Riftlessfs.Core.InodeMoves

/-! The moves of `forget` that change the shared inode table. -/
namespace Riftlessfs.Core.Shared

variable {n : ℕ} {v : View n} {m : ℕ} {t : Fin n}

/-- A call other than a `register` fits a table with less in it. -/
theorem Stage.Fits.forgetting {tab tab' : Table} {joined taken taken' : UInt64 → ℕ}
    {s : Stage} (h : s.Fits tab joined taken) (hno : s.key = none)
    (hmade : tab'.made = tab.made) (hid : ∀ arc, (tab'.arcs arc).id = (tab.arcs arc).id)
    (htaken : ∀ id, taken id ≤ taken' id)
    (hlower : ∀ arc, arc < tab.made → taken' (tab.arcs arc).id < joined (tab.arcs arc).id →
      (tab'.arcs arc).lookups.toNat ≤ (tab.arcs arc).lookups.toNat)
    (hevicted : ∀ id count k, s = .evicted id count k →
      tab.byKey k = some id → tab.byId id = none → tab'.byKey k = some id ∧ tab'.byId id = none) :
    s.Fits tab' joined taken' := by
  cases s with
  | out => trivial
  | asking id count => exact h
  | taking id count arc =>
    refine ⟨h.1, ?_, ?_⟩
    · rw [hmade]
      exact h.2.1
    · rw [hid]
      exact h.2.2
  | subtracting id count arc amount =>
    obtain ⟨hroot, hlt, harc, hle, hmin⟩ := h
    refine ⟨hroot, ?_, ?_, hle, fun hshort => ?_⟩
    · rw [hmade]
      exact hlt
    · rw [hid]
      exact harc
    · have hlow := hlower arc hlt (by rwa [harc])
      have htk := htaken id
      have := hmin (by omega)
      omega
  | spent id count => exact h
  | dooming id count => exact ⟨h.1, h.2.trans (htaken id)⟩
  | evicted id count k => exact hevicted id count k rfl h.1 h.2
  | panicked => exact h.elim
  | seeking | joining | cloned | joined | missing | made | listed => cases hno

namespace Sound

/-- While a `forget` is in progress no `register` is. -/
theorem forgetting (h : Sound v m) (hf : (v.stages t).forgetting = true) :
    ∀ t', (v.stages t').key = none := by
  rcases h.apart with hno | hno
  · rw [hno t] at hf
    cases hf
  · exact hno

theorem byKey_inode (h : Sound v m) (hno : ∀ t', (v.stages t').key = none) {id : UInt64}
    {arc : ℕ} (harc : v.table.byId id = some arc) :
    v.table.byKey (v.table.arcs arc).key = some id := by
  refine (h.mapped.listed id arc harc).resolve_right ?_
  rintro ⟨t', hs⟩
  have := hno t'
  rw [hs] at this
  cases this

/-- An inode with references left is in `by_id`. -/
theorem byId_of_short (h : Sound v m) (hno : ∀ t', (v.stages t').key = none) {arc : ℕ}
    (hlt : arc < v.table.made)
    (hshort : v.taken (v.table.arcs arc).id < v.joined (v.table.arcs arc).id) :
    v.table.byId (v.table.arcs arc).id = some arc := by
  cases hid : v.table.byId (v.table.arcs arc).id with
  | none =>
    rcases h.accounts.covered _ (h.numbered.issued hlt) hid with hle | ⟨t', k, arc', hs⟩
    · omega
    · have := hno t'
      rw [hs] at this
      cases this
  | some arc' =>
    obtain ⟨hlt', heq⟩ := h.numbered.inode _ arc' hid
    rw [h.numbered.arc_eq hlt' hlt heq]

section Lower

variable {id count amount : UInt64} {arc : ℕ} {s : Stage}

/-- The state after `fetch_sub` on the count of an inode. -/
abbrev lowered (v : View n) (t : Fin n) (arc : ℕ) (amount : UInt64) (s : Stage) : View n :=
  v.after t (v.table.recount arc ((v.table.arcs arc).lookups - amount)) s .nothing

/-- The `forget` leaves a reference, or is to evict the inode. -/
def Lowers (v : View n) (id count : UInt64) (arc : ℕ) (s : Stage) : Prop :=
  (count < (v.table.arcs arc).lookups ∧ s = .spent id count) ∨
    ((v.table.arcs arc).lookups ≤ count ∧ s = .dooming id count)

theorem joined_lowered (hs : v.stages t = .subtracting id count arc amount)
    (hnext : Lowers v id count arc s) : (lowered v t arc amount s).joined = v.joined := by
  refine View.joined_kept _ (fun id' => ?_)
  rw [hs]
  rcases hnext with ⟨-, rfl⟩ | ⟨-, rfl⟩ <;> rfl

theorem taken_lowered (hs : v.stages t = .subtracting id count arc amount)
    (hnext : Lowers v id count arc s) (id' : UInt64) :
    (lowered v t arc amount s).taken id' =
      v.taken id' + if id' = id then count.toNat else 0 := by
  refine View.taken_after ?_
  rw [hs]
  rcases hnext with ⟨-, rfl⟩ | ⟨-, rfl⟩ <;> simp [Stage.spends, Done.forgets]

/-- A `forget` that leaves a reference subtracts what it was asked to: no other has lowered the
count below that since it was read. -/
theorem lowered_exact (h : Sound v m) (hs : v.stages t = .subtracting id count arc amount)
    (hshort : v.taken id + count.toNat < v.joined id) :
    v.table.byId id = some arc ∧ count.toNat < (v.table.arcs arc).lookups.toNat ∧
      ((v.table.arcs arc).lookups - amount).toNat =
        (v.table.arcs arc).lookups.toNat - count.toNat := by
  have hno := h.forgetting (t := t) (by rw [hs]; rfl)
  obtain ⟨hroot, hlt, hid, hle, hmin⟩ := h.fit hs
  have hbyId : v.table.byId id = some arc := by
    rw [← hid]
    exact h.byId_of_short hno hlt (by rw [hid]; omega)
  have hcount := h.accounts.counted id arc hbyId (by omega)
  have := hmin (by omega)
  refine ⟨hbyId, by omega, ?_⟩
  rw [UInt64.toNat_sub_of_le _ _ (UInt64.le_iff_toNat_le.mpr (by omega))]
  omega

private theorem fits_lowered (h : Sound v m) (hs : v.stages t = .subtracting id count arc amount)
    (hnext : Lowers v id count arc s) (t' : Fin n) :
    ((lowered v t arc amount s).stages t').Fits (lowered v t arc amount s).table v.joined
      (lowered v t arc amount s).taken := by
  have hno := h.forgetting (t := t) (by rw [hs]; rfl)
  obtain ⟨hroot, hlt, hid, hle, hmin⟩ := h.fit hs
  revert t'
  refine View.forall_after (P := fun s' => s'.Fits _ _ _) (fun t' hne => ?_) ?_
  · refine (h.fits t').forgetting (hno t') rfl (fun _ => Table.recount_id _ _ _ _) ?_ ?_
      (fun _ _ _ _ hk hnone => ⟨hk, hnone⟩)
    · intro id'
      rw [taken_lowered hs hnext]
      exact Nat.le_add_right _ _
    · intro arc' harc' hshort
      by_cases hne' : arc' = arc
      · subst hne'
        rw [hid, taken_lowered hs hnext, if_pos rfl] at hshort
        rw [View.after_table, Table.recount_lookups, (h.lowered_exact hs hshort).2.2]
        exact Nat.sub_le _ _
      · rw [View.after_table, Table.recount_lookups_of_ne _ _ _ hne']
  · have hover := taken_lowered hs hnext id
    rw [if_pos rfl] at hover
    rcases hnext with ⟨-, rfl⟩ | ⟨hle', rfl⟩
    · exact hroot
    · refine ⟨hroot, ?_⟩
      rw [hover]
      by_contra hshort
      have hlow := (h.lowered_exact hs (Nat.lt_of_not_le hshort)).2.1
      have := UInt64.le_iff_toNat_le.mp hle'
      omega

private theorem accounts_lowered (h : Sound v m)
    (hs : v.stages t = .subtracting id count arc amount)
    (hnext : Lowers v id count arc s) : (lowered v t arc amount s).Accounts := by
  have hj := joined_lowered hs hnext
  have ht := taken_lowered hs hnext
  obtain ⟨hroot, hlt, hid, hle, hmin⟩ := h.fit hs
  constructor
  · intro id' arc' harc' hshort
    rw [hj, ht] at hshort ⊢
    rw [View.after_table] at harc' ⊢
    by_cases hne : id' = id
    · subst hne
      rw [if_pos rfl] at hshort ⊢
      obtain ⟨hbyId, hlow, heq⟩ := h.lowered_exact hs hshort
      have harc : arc' = arc := Option.some.inj (harc'.symm.trans hbyId)
      subst harc
      have := h.accounts.counted id' arc' hbyId (by omega)
      rw [Table.recount_lookups, heq]
      omega
    · have hne' : arc' ≠ arc := by
        rintro rfl
        exact hne ((h.numbered.inode id' arc' harc').2.symm.trans hid)
      rw [if_neg hne] at hshort ⊢
      rw [Table.recount_lookups_of_ne _ _ _ hne']
      exact h.accounts.counted id' arc' harc' hshort
  · intro id' arc' harc' hover
    rw [hj, ht] at hover
    by_cases hold : v.joined id' ≤ v.taken id'
    · refine View.witness_after (P := fun s => ∃ count, s = .dooming id' count)
        (h.accounts.doomed id' arc' harc' hold) ?_
      rintro ⟨c, hs'⟩
      rw [hs] at hs'
      cases hs'
    · -- the last reference goes with this call
      have heq : id' = id := by
        by_contra hne
        rw [if_neg hne] at hover
        exact hold hover
      subst heq
      rw [if_pos rfl] at hover
      have harc : arc' = arc := by
        obtain ⟨hlt', hid'⟩ := h.numbered.inode id' arc' harc'
        exact h.numbered.arc_eq hlt' hlt (hid'.trans hid.symm)
      subst harc
      have hcount := h.accounts.counted id' arc' harc' (Nat.lt_of_not_le hold)
      refine ⟨t, count, ?_⟩
      rcases hnext with ⟨hlow, -⟩ | ⟨-, rfl⟩
      · have := UInt64.lt_iff_toNat_lt.mp hlow
        omega
      · exact Function.update_self _ _ _
  · intro id' hi' hnone
    rw [hj, ht]
    refine (h.accounts.covered id' hi' hnone).imp Nat.le_add_right_of_le fun hmade => ?_
    refine View.witness_after (P := fun s => ∃ k arc, s = .made k id' arc) hmade ?_
    rintro ⟨k, arc', hs'⟩
    rw [hs] at hs'
    cases hs'
  · intro id' hnot
    have hne : id' ≠ id := by
      rintro rfl
      exact hnot (hid ▸ h.numbered.issued hlt)
    rw [hj, ht, if_neg hne]
    exact h.accounts.unissued id' hnot

theorem lower (h : Sound v m) (hs : v.stages t = .subtracting id count arc amount)
    (hnext : Lowers v id count arc s) : Sound (lowered v t arc amount s) m := by
  have hj := joined_lowered hs hnext
  have hforget : (v.stages t).forgetting = true := by
    rw [hs]
    rfl
  have hkey : s.key = none ∧ s.evicts = none := by
    rcases hnext with ⟨-, rfl⟩ | ⟨-, rfl⟩ <;> exact ⟨rfl, rfl⟩
  have hno : ∀ k, s.key = some k → (v.stages t).key = some k := by
    intro k hk
    rw [hkey.1] at hk
    cases hk
  refine
    { numbered := h.numbered.recount _ _
      apart := h.apart_after (fun _ => hforget) hno
      sole := h.sole_after hno (fun _ hk => hk)
      once := h.once_after (fun id' hid' => by rw [hkey.2] at hid'; cases hid')
      fits := by
        rw [hj]
        exact h.fits_lowered hs hnext
      mapped := h.mapped.frame rfl rfl (fun _ _ _ => Table.recount_key _ _ _ _) (by rw [hs]; rfl)
      accounts := h.accounts_lowered hs hnext
      few := ⟨h.few.1, fun id' => hj ▸ h.few.2 id'⟩ }

end Lower

section Evict

variable {id count : UInt64} {arc : ℕ}

/-- The state after `by_id.remove(&id)`. -/
abbrev removed (v : View n) (t : Fin n) (id count : UInt64) (arc : ℕ) : View n :=
  v.after t (v.table.setId id none) (.evicted id count (v.table.arcs arc).key) .nothing

theorem removed_byId {id' : UInt64} {arc' : ℕ}
    (harc' : (v.table.setId id none).byId id' = some arc') :
    id' ≠ id ∧ v.table.byId id' = some arc' := by
  have hne : id' ≠ id := by
    rintro rfl
    rw [Table.setId_self] at harc'
    cases harc'
  rw [Table.setId_of_ne _ _ hne] at harc'
  exact ⟨hne, harc'⟩

/-- Nobody else has taken out an inode that is there. -/
theorem not_evicted (h : Sound v m) (hbyId : v.table.byId id = some arc) (t' : Fin n) :
    (v.stages t').evicts ≠ some id := by
  intro hev
  cases hs' : v.stages t' with
  | evicted id₁ c k₁ =>
    rw [hs'] at hev
    cases hev
    rw [(h.fit hs').2] at hbyId
    cases hbyId
  | _ =>
    rw [hs'] at hev
    cases hev

private theorem mapped_removed (h : Sound v m) (hs : v.stages t = .dooming id count)
    (hbyId : v.table.byId id = some arc) : (removed v t id count arc).Mapped := by
  have hno := h.forgetting (t := t) (by rw [hs]; rfl)
  constructor
  · intro k' id' hk'
    by_cases hne : id' = id
    · right
      subst hne
      rcases h.mapped.keyed k' id' hk' with ⟨arc', harc', hkey'⟩ | ⟨t', c, hs'⟩
      · rw [hbyId] at harc'
        cases harc'
        refine ⟨t, count, ?_⟩
        rw [← hkey']
        exact Function.update_self _ _ _
      · exact absurd (by rw [hs']; rfl) (h.not_evicted hbyId t')
    · rw [View.after_table, Table.setId_of_ne _ _ hne]
      refine (h.mapped.keyed k' id' hk').imp_right fun hev => ?_
      refine View.witness_after (P := fun s => ∃ count, s = .evicted id' count k') hev ?_
      rintro ⟨c, hs'⟩
      rw [hs] at hs'
      cases hs'
  · intro id' arc' harc'
    left
    exact h.byKey_inode hno (removed_byId harc').2

private theorem fits_removed (h : Sound v m) (hs : v.stages t = .dooming id count)
    (hbyId : v.table.byId id = some arc) (t' : Fin n) :
    ((removed v t id count arc).stages t').Fits (removed v t id count arc).table v.joined
      v.taken := by
  have hno := h.forgetting (t := t) (by rw [hs]; rfl)
  revert t'
  refine View.forall_after (P := fun s => s.Fits _ _ _) (fun t' hne => ?_)
    ⟨h.byKey_inode hno hbyId, Table.setId_self _ _ _⟩
  refine (h.fits t').forgetting (hno t') rfl (fun _ => rfl) (fun _ => le_rfl)
    (fun _ _ _ => le_rfl) ?_
  intro id' c k' hs' hk' hnone'
  have hne' : id' ≠ id := by
    rintro rfl
    rw [hbyId] at hnone'
    cases hnone'
  refine ⟨hk', ?_⟩
  rw [View.after_table, Table.setId_of_ne _ _ hne', hnone']

theorem evict (h : Sound v m) (hs : v.stages t = .dooming id count)
    (hbyId : v.table.byId id = some arc) : Sound (removed v t id count arc) m := by
  obtain ⟨hroot, hover⟩ := h.fit hs
  have hj : (removed v t id count arc).joined = v.joined :=
    View.joined_kept _ (fun _ => by rw [hs]; rfl)
  have ht : (removed v t id count arc).taken = v.taken :=
    View.taken_kept _ (fun _ => by rw [hs]; rfl)
  refine
    { numbered := h.numbered.frame rfl rfl (fun _ => rfl)
        (fun id' arc' harc' => h.numbered.inode id' arc' (removed_byId harc').2) ?_
      apart := h.apart_after (fun _ => by rw [hs]; rfl) (by simp [Stage.key])
      sole := h.sole_after (by simp [Stage.key]) (fun _ hk => hk)
      once := h.once_after (fun id' hid' => by cases hid'; exact h.not_evicted hbyId)
      fits := by
        rw [hj, ht]
        exact h.fits_removed hs hbyId
      mapped := h.mapped_removed hs hbyId
      accounts := h.accounts.frame hj ht rfl
        (fun id' arc' harc' => Or.inl ⟨(removed_byId harc').2, rfl⟩) ?_ ?_
      few := ⟨h.few.1, fun id' => hj ▸ h.few.2 id'⟩ }
  · obtain ⟨arc', harc'⟩ := h.numbered.root
    exact ⟨arc', by rw [View.after_table, Table.setId_of_ne _ _ hroot.symm, harc']⟩
  · intro id' hnone
    by_cases hne : id' = id
    · rw [hne]
      exact Or.inl hover
    · rw [Table.setId_of_ne _ _ hne] at hnone
      refine Or.inr ⟨hnone, fun k arc' hs' => ?_⟩
      rw [hs] at hs'
      cases hs'
  · intro id' c hs'
    rw [hs] at hs'
    cases hs'
    exact Table.setId_self _ _ _

end Evict

section Unkey

variable {id count : UInt64} {k : FileKey}

/-- The state after `by_key.write().remove(&data.key)` and the return. -/
abbrev unkeyed (v : View n) (t : Fin n) (id count : UInt64) (k : FileKey) : View n :=
  v.after t (v.table.setKey k none) .out (.forgot id count)

private theorem mapped_unkeyed (h : Sound v m) (hs : v.stages t = .evicted id count k) :
    (unkeyed v t id count k).Mapped := by
  have hno := h.forgetting (t := t) (by rw [hs]; rfl)
  obtain ⟨hbyKey, hnone⟩ := h.fit hs
  constructor
  · intro k' id' hk'
    rw [View.after_table] at hk'
    have hne : k' ≠ k := by
      rintro rfl
      rw [Table.setKey_self] at hk'
      cases hk'
    rw [Table.setKey_of_ne _ _ hne] at hk'
    refine (h.mapped.keyed k' id' hk').imp_right fun hev => ?_
    refine View.witness_after (P := fun s => ∃ count, s = .evicted id' count k') hev ?_
    rintro ⟨c, hs'⟩
    rw [hs] at hs'
    cases hs'
    exact hne rfl
  · intro id' arc' harc'
    left
    have hk' := h.byKey_inode hno harc'
    have hne : (v.table.arcs arc').key ≠ k := by
      intro heq
      rw [heq, hbyKey] at hk'
      cases hk'
      exact Option.some_ne_none arc' (harc'.symm.trans hnone)
    rw [View.after_table]
    exact (Table.setKey_of_ne _ _ hne).trans hk'

private theorem fits_unkeyed (h : Sound v m) (hs : v.stages t = .evicted id count k) (t' : Fin n) :
    ((unkeyed v t id count k).stages t').Fits (unkeyed v t id count k).table v.joined
      v.taken := by
  have hno := h.forgetting (t := t) (by rw [hs]; rfl)
  obtain ⟨hbyKey, hnone⟩ := h.fit hs
  revert t'
  refine View.forall_after (P := fun s => s.Fits _ _ _) (fun t' hne => ?_) trivial
  refine (h.fits t').forgetting (hno t') rfl (fun _ => rfl) (fun _ => le_rfl)
    (fun _ _ _ => le_rfl) ?_
  intro id' c k' hs' hk' hnone'
  -- the key of another eviction is another inode's
  have hne' : k' ≠ k := by
    rintro rfl
    have heq : id' = id := Option.some.inj (hk'.symm.trans hbyKey)
    refine h.once t' t id hne ?_ (by rw [hs]; rfl)
    rw [hs', heq]
    rfl
  refine ⟨?_, hnone'⟩
  rw [View.after_table, Table.setKey_of_ne _ _ hne', hk']

theorem unkey (h : Sound v m) (hs : v.stages t = .evicted id count k) :
    Sound (unkeyed v t id count k) m := by
  have hno := h.forgetting (t := t) (by rw [hs]; rfl)
  have hj : (unkeyed v t id count k).joined = v.joined :=
    View.joined_kept _ (fun _ => by rw [hs]; rfl)
  have ht : (unkeyed v t id count k).taken = v.taken :=
    View.taken_kept _ (fun _ => by rw [hs]; exact Nat.zero_add _)
  have hnokey : ∀ t', ((unkeyed v t id count k).stages t').key = none :=
    View.forall_after (P := fun s => s.key = none) (fun t' _ => hno t') rfl
  refine
    { numbered := h.numbered.frame rfl rfl (fun _ => rfl) h.numbered.inode h.numbered.root
      apart := Or.inr hnokey
      sole := fun t₁ t₂ k' _ h₁ _ => by rw [hnokey t₁] at h₁; cases h₁
      once := h.once_after (by simp [Stage.evicts])
      fits := by
        rw [hj, ht]
        exact h.fits_unkeyed hs
      mapped := h.mapped_unkeyed hs
      accounts := h.accounts.frame hj ht rfl (fun _ _ harc => Or.inl ⟨harc, rfl⟩) ?_
        (fun _ _ hs' => by rw [hs] at hs'; cases hs')
      few := ⟨h.few.1, fun id' => hj ▸ h.few.2 id'⟩ }
  intro id' hnone'
  refine Or.inr ⟨hnone', fun k' arc' hs' => ?_⟩
  rw [hs] at hs'
  cases hs'

end Unkey

end Sound

end Riftlessfs.Core.Shared
