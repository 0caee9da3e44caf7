import Riftlessfs.Core.Inode
import Riftlessfs.Lib.Locks
import Riftlessfs.Lib.Run

/-! The inode table under concurrent callers. A call is a program counter with its locals, and
each step of it takes a lock, lets one go or makes one access that other threads can see. -/
namespace Riftlessfs.Core.Shared

open Lib.Locks (Mode)
open Lib.Run

/-- The two `RwLock`s of `InodeStore` and the two `Mutex`es of each `InodeData`. -/
inductive Lock where
  | byId
  | byKey
  | parent (arc : ℕ)
  | name (arc : ℕ)
  deriving DecidableEq, Repr

/-- `InodeStore` with its `Arc`s apart: an inode evicted from `by_id` lives on while a call
holds a clone. An `Arc` is numbered by when it was made. -/
structure Table where
  arcs : ℕ → InodeData
  made : ℕ
  byId : UInt64 → Option ℕ
  byKey : FileKey → Option UInt64
  nextId : UInt64

def Table.new (rootFd : Fd) (rootStat : Stat) : Table where
  arcs := fun _ =>
    { id := ROOT_ID, fd := rootFd, kind := .dir, key := rootStat.key,
      parent := none, name := [], lookups := 1 }
  made := 1
  byId := Function.update (fun _ => none) ROOT_ID (some 0)
  byKey := Function.update (fun _ => none) rootStat.key (some ROOT_ID)
  nextId := ROOT_ID + 1

/-- The table that the sequential functions work on. -/
def Table.store (tab : Table) : InodeStore where
  byId := fun id => (tab.byId id).map tab.arcs
  byKey := tab.byKey
  nextId := tab.nextId

def Table.setArc (tab : Table) (arc : ℕ) (data : InodeData) : Table :=
  { tab with arcs := Function.update tab.arcs arc data }

structure Registration where
  parent : UInt64
  name : Name
  fd : Fd
  st : Stat
  deriving DecidableEq, Repr

def Registration.key (r : Registration) : FileKey := r.st.key

inductive Call where
  | get (id : UInt64)
  | register (r : Registration)
  | forget (id count : UInt64)
  deriving DecidableEq, Repr

/-- Where a thread is. Names say what its next step does. -/
inductive Pc where
  | idle
  | panicked
  -- `get`
  | getLock (id : UInt64)
  | getClone (id : UInt64)
  -- `register`, until `by_key` is read
  | regLock (r : Registration)
  | regFind (r : Registration)
  -- the body of `if let Some(&existing)`, inside of the guard of `by_key`
  | regLockId (r : Registration) (existing : UInt64)
  | regClone (r : Registration) (existing : UInt64)
  | regBump (r : Registration) (existing : UInt64) (arc : ℕ)
  | regLockParent (r : Registration) (existing : UInt64) (arc : ℕ)
  | regSetParent (r : Registration) (existing : UInt64) (arc : ℕ)
  | regLockName (r : Registration) (existing : UInt64) (arc : ℕ)
  | regSetName (r : Registration) (existing : UInt64) (arc : ℕ)
  | regReturn (r : Registration) (existing : UInt64) (arc : ℕ)
  -- past the `if let`
  | regNextId (r : Registration)
  | regInsertLock (r : Registration) (id : UInt64) (arc : ℕ)
  | regInsert (r : Registration) (id : UInt64) (arc : ℕ)
  | regKeyLock (r : Registration) (id : UInt64) (arc : ℕ)
  | regKey (r : Registration) (id : UInt64) (arc : ℕ)
  -- `forget`: the block of `should_evict`
  | fgLock (id count : UInt64)
  | fgFind (id count : UInt64)
  | fgLoad (id count : UInt64) (arc : ℕ)
  | fgSub (id count : UInt64) (arc : ℕ) (amount : UInt64)
  | fgUnlock (id count : UInt64) (shouldEvict : Bool)
  -- the eviction
  | fgEvictLock (id count : UInt64)
  | fgRemove (id count : UInt64)
  | fgKeyLock (id count : UInt64) (key : FileKey)
  | fgUnkey (id count : UInt64) (key : FileKey)
  deriving DecidableEq, Repr

def Pc.holds : Pc → Lock → Option Mode
  | .getClone _, .byId => some .read
  | .regFind _, .byKey | .regLockId _ _, .byKey => some .read
  | .regClone _ _, .byKey | .regClone _ _, .byId => some .read
  | .regBump _ _ _, .byKey | .regLockParent _ _ _, .byKey | .regSetParent _ _ _, .byKey
  | .regLockName _ _ _, .byKey | .regSetName _ _ _, .byKey | .regReturn _ _ _, .byKey =>
    some .read
  | .regSetParent _ _ arc, .parent arc' => if arc = arc' then some .write else none
  | .regSetName _ _ arc, .name arc' => if arc = arc' then some .write else none
  | .regInsert _ _ _, .byId => some .write
  | .regKey _ _ _, .byKey => some .write
  | .fgFind _ _, .byId | .fgLoad _ _ _, .byId | .fgSub _ _ _ _, .byId
  | .fgUnlock _ _ _, .byId => some .read
  | .fgRemove _ _, .byId | .fgKeyLock _ _ _, .byId => some .write
  | .fgUnkey _ _ _, .byId | .fgUnkey _ _ _, .byKey => some .write
  | _, _ => none

def Pc.wants : Pc → Option (Lock × Mode)
  | .getLock _ => some (.byId, .read)
  | .regLock _ => some (.byKey, .read)
  | .regLockId _ _ => some (.byId, .read)
  | .regLockParent _ _ arc => some (.parent arc, .write)
  | .regLockName _ _ arc => some (.name arc, .write)
  | .regInsertLock _ _ _ => some (.byId, .write)
  | .regKeyLock _ _ _ => some (.byKey, .write)
  | .fgLock _ _ => some (.byId, .read)
  | .fgEvictLock _ _ => some (.byId, .write)
  | .fgKeyLock _ _ _ => some (.byKey, .write)
  | _ => none

/-- What a call that returns has done to the client's count of an id. -/
inductive Done where
  | nothing
  | registered (id : UInt64)
  | forgot (id count : UInt64)
  deriving DecidableEq, Repr

/-- Where a call starts. `forget` returns at once for the root. -/
def Call.entry : Call → Pc
  | .get id => .getLock id
  | .register r => .regLock r
  | .forget id count => if id = ROOT_ID then .idle else .fgLock id count

/-- The inode that `register` makes for a file not yet known. -/
def Table.fresh (tab : Table) (r : Registration) : InodeData :=
  { id := tab.nextId, fd := r.fd, kind := .fromMode r.st.mode, key := r.key,
    parent := some r.parent, name := r.name, lookups := 1 }

/-- One step of a call, once it has the lock it wants. Guards are let go of by the step after
which the source drops them. -/
def Table.next (tab : Table) : Pc → Option (Table × Pc × Done)
  | .idle | .panicked => none
  | .getLock id => some (tab, .getClone id, .nothing)
  | .getClone _ => some (tab, .idle, .nothing)
  | .regLock r => some (tab, .regFind r, .nothing)
  | .regFind r =>
    match tab.byKey r.key with
    | some existing => some (tab, .regLockId r existing, .nothing)
    | none => some (tab, .regNextId r, .nothing)
  | .regLockId r existing => some (tab, .regClone r existing, .nothing)
  | .regClone r existing =>
    match tab.byId existing with
    | some arc => some (tab, .regBump r existing arc, .nothing)
    | none => some (tab, .panicked, .nothing)
  | .regBump r existing arc =>
    let data := tab.arcs arc
    some (tab.setArc arc { data with lookups := data.lookups + 1 },
      .regLockParent r existing arc, .nothing)
  | .regLockParent r existing arc => some (tab, .regSetParent r existing arc, .nothing)
  | .regSetParent r existing arc =>
    some (tab.setArc arc { tab.arcs arc with parent := some r.parent },
      .regLockName r existing arc, .nothing)
  | .regLockName r existing arc => some (tab, .regSetName r existing arc, .nothing)
  | .regSetName r existing arc =>
    some (tab.setArc arc { tab.arcs arc with name := r.name },
      .regReturn r existing arc, .nothing)
  | .regReturn _ existing _ => some (tab, .idle, .registered existing)
  | .regNextId r =>
    some ({ tab with
        arcs := Function.update tab.arcs tab.made (tab.fresh r)
        made := tab.made + 1
        nextId := tab.nextId + 1 },
      .regInsertLock r tab.nextId tab.made, .nothing)
  | .regInsertLock r id arc => some (tab, .regInsert r id arc, .nothing)
  | .regInsert r id arc =>
    some ({ tab with byId := Function.update tab.byId id (some arc) },
      .regKeyLock r id arc, .nothing)
  | .regKeyLock r id arc => some (tab, .regKey r id arc, .nothing)
  | .regKey r id _ =>
    some ({ tab with byKey := Function.update tab.byKey r.key (some id) },
      .idle, .registered id)
  | .fgLock id count => some (tab, .fgFind id count, .nothing)
  | .fgFind id count =>
    match tab.byId id with
    | some arc => some (tab, .fgLoad id count arc, .nothing)
    -- a `forget` of an id that is not there takes nothing from anyone
    | none => some (tab, .idle, .nothing)
  | .fgLoad id count arc =>
    some (tab, .fgSub id count arc (min count (tab.arcs arc).lookups), .nothing)
  | .fgSub id count arc amount =>
    let data := tab.arcs arc
    some (tab.setArc arc { data with lookups := data.lookups - amount },
      .fgUnlock id count (data.lookups ≤ count), .nothing)
  | .fgUnlock id count shouldEvict =>
    if shouldEvict then some (tab, .fgEvictLock id count, .nothing)
    else some (tab, .idle, .forgot id count)
  | .fgEvictLock id count => some (tab, .fgRemove id count, .nothing)
  | .fgRemove id count =>
    match tab.byId id with
    | some arc =>
      some ({ tab with byId := Function.update tab.byId id none },
        .fgKeyLock id count (tab.arcs arc).key, .nothing)
    | none => some (tab, .idle, .forgot id count)
  | .fgKeyLock id count key => some (tab, .fgUnkey id count key, .nothing)
  | .fgUnkey id count key =>
    some ({ tab with byKey := Function.update tab.byKey key none }, .idle, .forgot id count)

/-- The table, the threads, and for each id how often calls that have returned registered it
and how much of it they forgot. -/
structure State (n : ℕ) where
  table : Table
  threads : Fin n → Pc
  registrations : UInt64 → ℕ
  forgets : UInt64 → ℕ

/-- Threads that have not called yet, on a store with its root registered. -/
def State.new (n : ℕ) (rootFd : Fd) (rootStat : Stat) : State n where
  table := .new rootFd rootStat
  threads := fun _ => .idle
  registrations := Function.update (fun _ => 0) ROOT_ID 1
  forgets := fun _ => 0

inductive Event (n : ℕ) where
  | start (t : Fin n) (call : Call)
  | step (t : Fin n)
  deriving DecidableEq, Repr

variable {n : ℕ}

def State.holds (s : State n) (t : Fin n) : Lock → Option Mode := (s.threads t).holds

def State.wants (s : State n) (t : Fin n) : Option (Lock × Mode) := (s.threads t).wants

/-- No thread has the lock that `t` wants in a way that keeps it from `t`. -/
def State.ready (s : State n) (t : Fin n) : Bool :=
  match s.wants t with
  | some (l, m) => decide (∀ t', m.allows (s.holds t' l) = true)
  | none => true

/-- What `register` adds to an id's registrations when it returns. -/
def Done.registrations : Done → UInt64 → ℕ
  | .registered id', id => if id = id' then 1 else 0
  | _, _ => 0

/-- What `forget` adds to an id's forgets when it returns. -/
def Done.forgets : Done → UInt64 → ℕ
  | .forgot id' count, id => if id = id' then count.toNat else 0
  | _, _ => 0

/-- A thread that is not in a call starts one; a thread that is in one makes its next step,
unless it has to wait. -/
def State.step (s : State n) : Event n → Option (State n)
  | .start t call =>
    match s.threads t with
    | .idle => some { s with threads := Function.update s.threads t call.entry }
    | _ => none
  | .step t =>
    if s.ready t then
      (s.table.next (s.threads t)).map fun (table, pc, done) =>
        { table := table
          threads := Function.update s.threads t pc
          registrations := fun id => s.registrations id + done.registrations id
          forgets := fun id => s.forgets id + done.forgets id }
    else none

end Riftlessfs.Core.Shared
