import Riftlessfs.Core.InodeThreads

/-! Calls on the shared inode table seen without their locks: how far a call has got with the
maps and counts, and what its steps do to them. -/
namespace Riftlessfs.Core.Shared

/-- How far a call is. A step that only takes a lock stays where it is. -/
inductive Stage where
  | out
  | panicked
  /-- `register` has yet to read `by_key`. -/
  | seeking (key : FileKey)
  /-- `register` found the key's id, then its inode, then counted itself. -/
  | joining (key : FileKey) (id : UInt64)
  | cloned (key : FileKey) (id : UInt64) (arc : ℕ)
  | joined (key : FileKey) (id : UInt64)
  /-- `register` did not find the key; it makes an inode, enters it in `by_id`, then in
  `by_key`. -/
  | missing (key : FileKey)
  | made (key : FileKey) (id : UInt64) (arc : ℕ)
  | listed (key : FileKey) (id : UInt64) (arc : ℕ)
  /-- `forget` has yet to find the inode, to read its count, to lower it. -/
  | asking (id count : UInt64)
  | taking (id count : UInt64) (arc : ℕ)
  | subtracting (id count : UInt64) (arc : ℕ) (amount : UInt64)
  /-- `forget` has lowered the count and leaves the inode, or is to evict it, or has taken it
  out of `by_id`. -/
  | spent (id count : UInt64)
  | dooming (id count : UInt64)
  | evicted (id count : UInt64) (key : FileKey)

def Pc.stage : Pc → Stage
  | .idle | .getLock _ | .getClone _ => .out
  | .panicked => .panicked
  | .regLock r | .regFind r => .seeking r.key
  | .regLockId r existing | .regClone r existing => .joining r.key existing
  | .regBump r existing arc => .cloned r.key existing arc
  | .regLockParent r existing _ | .regSetParent r existing _ | .regLockName r existing _
  | .regSetName r existing _ | .regReturn r existing _ => .joined r.key existing
  | .regNextId r => .missing r.key
  | .regInsertLock r id arc | .regInsert r id arc => .made r.key id arc
  | .regKeyLock r id arc | .regKey r id arc => .listed r.key id arc
  | .fgLock id count | .fgFind id count => .asking id count
  | .fgLoad id count arc => .taking id count arc
  | .fgSub id count arc amount => .subtracting id count arc amount
  | .fgUnlock id count false => .spent id count
  | .fgUnlock id count true | .fgEvictLock id count | .fgRemove id count => .dooming id count
  | .fgKeyLock id count key | .fgUnkey id count key => .evicted id count key

def Stage.key : Stage → Option FileKey
  | .seeking k | .joining k _ | .cloned k _ _ | .joined k _ | .missing k | .made k _ _
  | .listed k _ _ => some k
  | _ => none

def Stage.forgetting : Stage → Bool
  | .asking _ _ | .taking _ _ _ | .subtracting _ _ _ _ | .spent _ _ | .dooming _ _
  | .evicted _ _ _ => true
  | _ => false

/-- What a `register` has counted for an id and not yet returned. -/
def Stage.owes : Stage → UInt64 → ℕ
  | .joined _ id', id | .made _ id' _, id | .listed _ id' _, id => if id = id' then 1 else 0
  | _, _ => 0

/-- What a `forget` has taken from an id and not yet returned. -/
def Stage.spends : Stage → UInt64 → ℕ
  | .spent id' count, id | .dooming id' count, id | .evicted id' count _, id =>
    if id = id' then count.toNat else 0
  | _, _ => 0

section Tables
variable (tab : Table)

/-- The table with another lookup count for an inode. -/
def Table.recount (arc : ℕ) (lookups : UInt64) : Table :=
  tab.setArc arc { tab.arcs arc with lookups := lookups }

def Table.relocate (arc : ℕ) (parent : Option UInt64) (name : Name) : Table :=
  tab.setArc arc { tab.arcs arc with parent := parent, name := name }

/-- The table with a new inode that is in neither map. -/
def Table.add (r : Registration) : Table :=
  { tab with arcs := Function.update tab.arcs tab.made (tab.fresh r)
             made := tab.made + 1, nextId := tab.nextId + 1 }

def Table.setId (id : UInt64) (arc : Option ℕ) : Table :=
  { tab with byId := Function.update tab.byId id arc }

def Table.setKey (k : FileKey) (id : Option UInt64) : Table :=
  { tab with byKey := Function.update tab.byKey k id }

end Tables

/-- The steps of a call on the table. -/
inductive Move (tab : Table) : Stage → Table → Stage → Done → Prop where
  | stay (s : Stage) : Move tab s tab s .nothing
  | find {k : FileKey} {id : UInt64} (h : tab.byKey k = some id) :
    Move tab (.seeking k) tab (.joining k id) .nothing
  | miss {k : FileKey} (h : tab.byKey k = none) :
    Move tab (.seeking k) tab (.missing k) .nothing
  | clone {k : FileKey} {id : UInt64} {arc : ℕ} (h : tab.byId id = some arc) :
    Move tab (.joining k id) tab (.cloned k id arc) .nothing
  | crash {k : FileKey} {id : UInt64} (h : tab.byId id = none) :
    Move tab (.joining k id) tab .panicked .nothing
  | bump {k : FileKey} {id : UInt64} {arc : ℕ} :
    Move tab (.cloned k id arc) (tab.recount arc ((tab.arcs arc).lookups + 1)) (.joined k id)
      .nothing
  | locate {k : FileKey} {id : UInt64} {arc : ℕ} (parent : Option UInt64) (name : Name) :
    Move tab (.joined k id) (tab.relocate arc parent name) (.joined k id) .nothing
  | grant {k : FileKey} {id : UInt64} : Move tab (.joined k id) tab .out (.registered id)
  | create (r : Registration) :
    Move tab (.missing r.key) (tab.add r) (.made r.key tab.nextId tab.made) .nothing
  | insert {k : FileKey} {id : UInt64} {arc : ℕ} :
    Move tab (.made k id arc) (tab.setId id (some arc)) (.listed k id arc) .nothing
  | enter {k : FileKey} {id : UInt64} {arc : ℕ} :
    Move tab (.listed k id arc) (tab.setKey k (some id)) .out (.registered id)
  | take {id count : UInt64} {arc : ℕ} (h : tab.byId id = some arc) :
    Move tab (.asking id count) tab (.taking id count arc) .nothing
  | ignore {id count : UInt64} (h : tab.byId id = none) :
    Move tab (.asking id count) tab .out .nothing
  | load {id count : UInt64} {arc : ℕ} :
    Move tab (.taking id count arc) tab
      (.subtracting id count arc (min count (tab.arcs arc).lookups)) .nothing
  | spend {id count : UInt64} {arc : ℕ} {amount : UInt64} (h : count < (tab.arcs arc).lookups) :
    Move tab (.subtracting id count arc amount)
      (tab.recount arc ((tab.arcs arc).lookups - amount)) (.spent id count) .nothing
  | doom {id count : UInt64} {arc : ℕ} {amount : UInt64} (h : (tab.arcs arc).lookups ≤ count) :
    Move tab (.subtracting id count arc amount)
      (tab.recount arc ((tab.arcs arc).lookups - amount)) (.dooming id count) .nothing
  | leave {id count : UInt64} : Move tab (.spent id count) tab .out (.forgot id count)
  | evict {id count : UInt64} {arc : ℕ} (h : tab.byId id = some arc) :
    Move tab (.dooming id count) (tab.setId id none) (.evicted id count (tab.arcs arc).key)
      .nothing
  | late {id count : UInt64} (h : tab.byId id = none) :
    Move tab (.dooming id count) tab .out (.forgot id count)
  | unkey {id count : UInt64} {k : FileKey} :
    Move tab (.evicted id count k) (tab.setKey k none) .out (.forgot id count)

/-- Each step of a call is a move between its stages. -/
theorem Table.next_move {tab tab' : Table} {pc pc' : Pc} {done : Done}
    (h : tab.next pc = some (tab', pc', done)) : Move tab pc.stage tab' pc'.stage done := by
  cases pc with
  | idle => cases h
  | panicked => cases h
  | regFind r =>
    unfold Table.next at h
    cases hk : tab.byKey r.key with
    | none =>
      simp only [hk] at h
      cases h
      exact .miss hk
    | some id =>
      simp only [hk] at h
      cases h
      exact .find hk
  | regClone r id =>
    unfold Table.next at h
    cases hid : tab.byId id with
    | none =>
      simp only [hid] at h
      cases h
      exact .crash hid
    | some arc =>
      simp only [hid] at h
      cases h
      exact .clone hid
  | regBump r id arc =>
    cases h
    exact .bump
  | regSetParent r id arc =>
    cases h
    exact .locate (some r.parent) (tab.arcs arc).name
  | regSetName r id arc =>
    cases h
    exact .locate (tab.arcs arc).parent r.name
  | regReturn r id arc =>
    cases h
    exact .grant
  | regNextId r =>
    cases h
    exact .create r
  | regInsert r id arc =>
    cases h
    exact .insert
  | regKey r id arc =>
    cases h
    exact .enter
  | fgFind id count =>
    unfold Table.next at h
    cases hid : tab.byId id with
    | none =>
      simp only [hid] at h
      cases h
      exact .ignore hid
    | some arc =>
      simp only [hid] at h
      cases h
      exact .take hid
  | fgLoad id count arc =>
    cases h
    exact .load
  | fgSub id count arc amount =>
    cases h
    by_cases hle : (tab.arcs arc).lookups ≤ count
    · rw [decide_eq_true hle]
      exact .doom hle
    · rw [decide_eq_false hle]
      exact .spend (UInt64.not_le.mp hle)
  | fgUnlock id count shouldEvict =>
    cases shouldEvict with
    | false =>
      cases h
      exact .leave
    | true =>
      cases h
      exact .stay _
  | fgRemove id count =>
    unfold Table.next at h
    cases hid : tab.byId id with
    | none =>
      simp only [hid] at h
      cases h
      exact .late hid
    | some arc =>
      simp only [hid] at h
      cases h
      exact .evict hid
  | fgUnkey id count key =>
    cases h
    exact .unkey
  -- what is left only takes a lock, or is a `get`
  | _ =>
    cases h
    exact .stay _

end Riftlessfs.Core.Shared
