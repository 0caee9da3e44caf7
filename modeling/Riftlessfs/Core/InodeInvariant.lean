import Riftlessfs.Core.Inode

/-! The representation invariant of the inode table, and what `register` and `forget`
do to it. -/
namespace Riftlessfs.Core.InodeStore

/-- The two maps are inverse, ids are issued in order, and the root stays. -/
structure Inv (s : InodeStore) : Prop where
  inverse : ∀ k id, s.byKey k = some id ↔ ∃ d, s.byId id = some d ∧ d.key = k
  ids : ∀ id d, s.byId id = some d → d.id = id
  below : ∀ id d, s.byId id = some d → id.toNat < s.nextId.toNat
  root : (s.byId ROOT_ID).isSome
  counted : ∀ id d, id ≠ ROOT_ID → s.byId id = some d → 1 ≤ d.lookups.toNat

/-- After `n` registrations neither the id counter nor a lookup count exceeds `n`
by more than its start value. -/
structure Bounded (s : InodeStore) (n : ℕ) : Prop where
  next : s.nextId.toNat ≤ n + 2
  lookups : ∀ id d, s.byId id = some d → d.lookups.toNat ≤ n + 1

/-- An inode seen once more, under `(parent, name)`. -/
def bumped (d : InodeData) (parent : UInt64) (name : Name) : InodeData :=
  { d with lookups := d.lookups + 1, parent := some parent, name := name }

/-- The inode `register` makes for a file not yet known. -/
def fresh (s : InodeStore) (parent : UInt64) (name : Name) (fd : Fd) (st : Stat) : InodeData :=
  { id := s.nextId, fd := fd, kind := .fromMode st.mode, key := st.key,
    parent := some parent, name := name, lookups := 1 }

def addFresh (s : InodeStore) (d : InodeData) : InodeStore :=
  { byId := Function.update s.byId s.nextId (some d)
    byKey := Function.update s.byKey d.key (some s.nextId)
    nextId := s.nextId + 1 }

def evict (s : InodeStore) (id : UInt64) (d : InodeData) : InodeStore :=
  { s with byId := Function.update s.byId id none
           byKey := Function.update s.byKey d.key none }

variable {s : InodeStore}

theorem Inv.byKey_key (hi : Inv s) {id : UInt64} {d : InodeData} (hd : s.byId id = some d) :
    s.byKey d.key = some id :=
  (hi.inverse d.key id).mpr ⟨d, hd, rfl⟩

theorem Inv.key_inj (hi : Inv s) {id₁ id₂ : UInt64} {d₁ d₂ : InodeData}
    (h₁ : s.byId id₁ = some d₁) (h₂ : s.byId id₂ = some d₂) (hk : d₁.key = d₂.key) :
    id₁ = id₂ := by
  have h := hi.byKey_key h₁
  rw [hk, hi.byKey_key h₂] at h
  exact (Option.some.inj h).symm

/-- What `register` can do on a table that keeps the invariant: it never panics, and
bumps the known inode or adds a fresh one. -/
theorem Inv.register_cases (hi : Inv s) (parent : UInt64) (name : Name) (fd : Fd) (st : Stat) :
    (∃ id d, s.byKey st.key = some id ∧ s.byId id = some d ∧ d.key = st.key ∧
      s.register parent name fd st =
        some (bumped d parent name, s.setData id (bumped d parent name), some fd)) ∨
    (s.byKey st.key = none ∧
      s.register parent name fd st =
        some (fresh s parent name fd st, s.addFresh (fresh s parent name fd st), none)) := by
  cases hk : s.byKey st.key with
  | none =>
    right
    refine ⟨rfl, ?_⟩
    simp only [register, hk]
    rfl
  | some id =>
    left
    obtain ⟨d, hd, hkey⟩ := (hi.inverse st.key id).mp hk
    refine ⟨id, d, rfl, hd, hkey, ?_⟩
    simp only [register, hk, hd]
    rfl

/-- What `forget` can do: nothing, drop some of the held count, or evict. -/
theorem forget_cases (s : InodeStore) (id count : UInt64) :
    ((id = ROOT_ID ∨ s.byId id = none) ∧ s.forget id count = (s, none)) ∨
    (∃ d, id ≠ ROOT_ID ∧ s.byId id = some d ∧ count < d.lookups ∧
      s.forget id count = (s.setData id { d with lookups := d.lookups - count }, none)) ∨
    (∃ d, id ≠ ROOT_ID ∧ s.byId id = some d ∧ d.lookups ≤ count ∧
      s.forget id count = (s.evict id d, some d.fd)) := by
  by_cases hr : id = ROOT_ID
  · left
    exact ⟨Or.inl hr, by simp [forget, hr]⟩
  cases hd : s.byId id with
  | none =>
    left
    exact ⟨Or.inr rfl, by simp [forget, hr, hd]⟩
  | some d =>
    right
    by_cases hle : d.lookups ≤ count
    · right
      refine ⟨d, hr, rfl, hle, ?_⟩
      simp [forget, hr, hd, hle, evict, setData]
    · left
      have hlt : count < d.lookups := UInt64.not_le.mp hle
      have hmin : min count d.lookups = count := if_pos (UInt64.le_of_lt hlt)
      refine ⟨d, hr, rfl, hlt, ?_⟩
      simp [forget, hr, hd, hle, hmin]

theorem locatedAt_iff {parent : UInt64} {name : Name} {id : UInt64} :
    s.locatedAt parent name id = true ↔
      ∃ d, s.byId id = some d ∧ d.parent = some parent ∧ d.name = name := by
  unfold locatedAt
  cases s.byId id with
  | none => simp
  | some d => simp

/-- What `note_rename` can do: nothing, or move the first inode it finds at the old
location. -/
theorem noteRename_cases (s : InodeStore) (order : List UInt64) (p : UInt64) (n : Name)
    (p' : UInt64) (n' : Name) :
    (order.find? (s.locatedAt p n) = none ∧ s.noteRename order p n p' n' = s) ∨
    ∃ id d, order.find? (s.locatedAt p n) = some id ∧ s.byId id = some d ∧
      d.parent = some p ∧ d.name = n ∧
      s.noteRename order p n p' n' = s.setData id (d.setLocation p' n') := by
  unfold noteRename
  cases hf : order.find? (s.locatedAt p n) with
  | none => exact Or.inl ⟨rfl, rfl⟩
  | some id =>
    have hloc := List.find?_some hf
    obtain ⟨d, hd, hp, hn⟩ := locatedAt_iff.mp hloc
    refine Or.inr ⟨id, d, rfl, hd, hp, hn, ?_⟩
    simp only [hd]

@[simp] theorem setData_byKey (id : UInt64) (d : InodeData) :
    (s.setData id d).byKey = s.byKey := rfl

@[simp] theorem setData_nextId (id : UInt64) (d : InodeData) :
    (s.setData id d).nextId = s.nextId := rfl

theorem setData_byId (id : UInt64) (d : InodeData) (id' : UInt64) :
    (s.setData id d).byId id' = if id' = id then some d else s.byId id' := by
  simp [setData, Function.update_apply]

theorem addFresh_byId (d : InodeData) (id' : UInt64) :
    (s.addFresh d).byId id' = if id' = s.nextId then some d else s.byId id' := by
  simp [addFresh, Function.update_apply]

/-- The inode `register` returns is the one the table then has of that file. -/
theorem Inv.register_live (hi : Inv s) {parent : UInt64} {name : Name} {fd : Fd} {st : Stat}
    {d : InodeData} {s' : InodeStore} {dropped : Option Fd}
    (hreg : s.register parent name fd st = some (d, s', dropped)) :
    s'.byId d.id = some d ∧ d.key = st.key := by
  rcases hi.register_cases parent name fd st with ⟨id, d₀, -, hd₀, hkey, h⟩ | ⟨-, h⟩
  · rw [h] at hreg
    cases hreg
    have hid : (bumped d₀ parent name).id = id := hi.ids id d₀ hd₀
    refine ⟨?_, hkey⟩
    rw [hid, setData_byId, if_pos rfl]
  · rw [h] at hreg
    cases hreg
    refine ⟨?_, rfl⟩
    rw [addFresh_byId]
    exact if_pos rfl

theorem evict_byId (id : UInt64) (d : InodeData) (id' : UInt64) :
    (s.evict id d).byId id' = if id' = id then none else s.byId id' := by
  simp [evict, Function.update_apply]

/-- Changing the count or location of a live inode keeps the invariant. -/
theorem Inv.setData (hi : Inv s) {id : UInt64} {d d' : InodeData} (hd : s.byId id = some d)
    (hid : d'.id = d.id) (hkey : d'.key = d.key) (hl : 1 ≤ d'.lookups.toNat ∨ id = ROOT_ID) :
    Inv (s.setData id d') := by
  constructor
  · intro k id'
    rw [setData_byKey, hi.inverse k id', setData_byId]
    split_ifs with he
    · subst id'
      simp [hd, hkey]
    · rfl
  · intro id' e he
    rw [setData_byId] at he
    split_ifs at he with h
    · cases he
      rw [h, hid]
      exact hi.ids id d hd
    · exact hi.ids id' e he
  · intro id' e he
    rw [setData_byId] at he
    split_ifs at he with h
    · subst h
      exact hi.below _ d hd
    · exact hi.below id' e he
  · rw [setData_byId]
    split_ifs
    · rfl
    · exact hi.root
  · intro id' e hr he
    rw [setData_byId] at he
    split_ifs at he with h
    · cases he
      exact hl.resolve_right (h ▸ hr)
    · exact hi.counted id' e hr he

theorem Inv.nextId_free (hi : Inv s) : s.byId s.nextId = none := by
  cases h : s.byId s.nextId with
  | none => rfl
  | some d => exact absurd (hi.below _ d h) (lt_irrefl _)

theorem toNat_succ {x : UInt64} (h : x.toNat + 1 < 2 ^ 64) : (x + 1).toNat = x.toNat + 1 := by
  rw [UInt64.toNat_add, UInt64.toNat_one, Nat.mod_eq_of_lt h]

theorem Inv.addFresh (hi : Inv s) {d : InodeData} (hid : d.id = s.nextId)
    (hk : s.byKey d.key = none) (hl : 1 ≤ d.lookups.toNat)
    (hb : s.nextId.toNat + 1 < 2 ^ 64) : Inv (s.addFresh d) := by
  have hnext : (s.addFresh d).nextId.toNat = s.nextId.toNat + 1 := toNat_succ hb
  constructor
  · intro k id
    rw [addFresh_byId]
    by_cases hkd : k = d.key
    · subst k
      have hsome : (s.addFresh d).byKey d.key = some s.nextId := by
        simp [InodeStore.addFresh]
      rw [hsome]
      constructor
      · intro h
        cases h
        exact ⟨d, by simp, rfl⟩
      · rintro ⟨e, he, hke⟩
        split_ifs at he with h
        · rw [h]
        · rw [← hke, hi.byKey_key he] at hk
          cases hk
    · have hsame : (s.addFresh d).byKey k = s.byKey k := by
        simp [InodeStore.addFresh, hkd]
      rw [hsame, hi.inverse k id]
      split_ifs with h
      · subst id
        simp only [hi.nextId_free, Option.some.injEq]
        constructor
        · rintro ⟨e, he, -⟩
          cases he
        · rintro ⟨e, rfl, he⟩
          exact absurd he.symm hkd
      · rfl
  · intro id e he
    rw [addFresh_byId] at he
    split_ifs at he with h
    · cases he
      rw [hid, h]
    · exact hi.ids id e he
  · intro id e he
    rw [addFresh_byId] at he
    rw [hnext]
    split_ifs at he with h
    · subst id
      omega
    · have := hi.below id e he
      omega
  · rw [addFresh_byId]
    split_ifs
    · rfl
    · exact hi.root
  · intro id e hr he
    rw [addFresh_byId] at he
    split_ifs at he with h
    · cases he
      exact hl
    · exact hi.counted id e hr he

theorem Inv.evict (hi : Inv s) {id : UInt64} {d : InodeData} (hr : id ≠ ROOT_ID)
    (hd : s.byId id = some d) : Inv (s.evict id d) := by
  constructor
  · intro k id'
    rw [evict_byId]
    by_cases hk : k = d.key
    · subst k
      have hnone : (s.evict id d).byKey d.key = none := by simp [InodeStore.evict]
      simp only [hnone, reduceCtorEq, false_iff, not_exists, not_and]
      intro e he hke
      split_ifs at he with h
      exact h (hi.key_inj he hd hke)
    · have hsame : (s.evict id d).byKey k = s.byKey k := by simp [InodeStore.evict, hk]
      rw [hsame, hi.inverse k id']
      split_ifs with h
      · subst id'
        simp [hd, Ne.symm hk]
      · rfl
  · intro id' e he
    rw [evict_byId] at he
    split_ifs at he with h
    exact hi.ids id' e he
  · intro id' e he
    rw [evict_byId] at he
    split_ifs at he with h
    exact hi.below id' e he
  · rw [evict_byId, if_neg (Ne.symm hr)]
    exact hi.root
  · intro id' e hr' he
    rw [evict_byId] at he
    split_ifs at he with h
    exact hi.counted id' e hr' he

theorem Inv.noteRename (hi : Inv s) (order : List UInt64) (p : UInt64) (n : Name)
    (p' : UInt64) (n' : Name) : Inv (s.noteRename order p n p' n') := by
  rcases noteRename_cases s order p n p' n' with ⟨-, h⟩ | ⟨id, d, -, hd, -, -, h⟩
  · rwa [h]
  · rw [h]
    refine hi.setData hd rfl rfl ?_
    by_cases hr : id = ROOT_ID
    · exact Or.inr hr
    · exact Or.inl (hi.counted id d hr hd)

/-- The live inodes, in the order of their ids. -/
def live (s : InodeStore) : List InodeData :=
  (List.range s.nextId.toNat).filterMap fun i => s.byId (.ofNat i)

theorem Inv.mem_live (hi : s.Inv) {id : UInt64} {d : InodeData}
    (hd : s.byId id = some d) : d ∈ s.live := by
  unfold live
  rw [List.mem_filterMap]
  refine ⟨id.toNat, List.mem_range.mpr (hi.below id d hd), ?_⟩
  rw [UInt64.ofNat_toNat, hd]

end Riftlessfs.Core.InodeStore
