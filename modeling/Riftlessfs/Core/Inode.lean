import Riftlessfs.Core.Syscalls

/-! The inode table: the ids a client sees, each with a reference descriptor, a
lookup count and the `(parent, name)` pair the file was last seen under. -/
namespace Riftlessfs.Core

def ROOT_ID : UInt64 := 1

/-- `InodeData`, with the values its mutexes and its atomic hold. -/
structure InodeData where
  id : UInt64
  fd : Fd
  kind : FileKind
  key : FileKey
  parent : Option UInt64
  name : Name
  lookups : UInt64
  deriving DecidableEq, Repr

def InodeData.setLocation (d : InodeData) (parent : UInt64) (name : Name) : InodeData :=
  { d with parent := some parent, name := name }

structure InodeStore where
  byId : UInt64 → Option InodeData
  byKey : FileKey → Option UInt64
  nextId : UInt64

/-- The key `register` and `new` read off a `stat`. -/
def Stat.key (st : Stat) : FileKey := ⟨st.dev, st.ino⟩

namespace InodeStore

def new (rootFd : Fd) (rootStat : Stat) : InodeStore where
  byId := Function.update (fun _ => none) ROOT_ID (some
    { id := ROOT_ID, fd := rootFd, kind := .dir, key := rootStat.key,
      parent := none, name := [], lookups := 1 })
  byKey := Function.update (fun _ => none) rootStat.key (some ROOT_ID)
  nextId := ROOT_ID + 1

def get (s : InodeStore) (id : UInt64) : Except FsError InodeData :=
  match s.byId id with
  | some d => .ok d
  | none => .error (.unknownInode id)

def setData (s : InodeStore) (id : UInt64) (d : InodeData) : InodeStore :=
  { s with byId := Function.update s.byId id (some d) }

/-- `InodeStore::register`: the inode, the new table and the descriptor that is
dropped. `none` is the panic of the `unwrap` on `by_id`. -/
def register (s : InodeStore) (parent : UInt64) (name : Name) (fd : Fd) (st : Stat) :
    Option (InodeData × InodeStore × Option Fd) :=
  match s.byKey st.key with
  | some existing =>
    match s.byId existing with
    | none => none
    | some data =>
      let data := { data with lookups := data.lookups + 1 }.setLocation parent name
      some (data, s.setData existing data, some fd)
  | none =>
    let id := s.nextId
    let data : InodeData :=
      { id := id, fd := fd, kind := .fromMode st.mode, key := st.key,
        parent := some parent, name := name, lookups := 1 }
    some (data,
      { byId := Function.update s.byId id (some data)
        byKey := Function.update s.byKey st.key (some id)
        nextId := s.nextId + 1 }, none)

/-- `InodeStore::forget`: the new table and the descriptor closed with an evicted
inode. -/
def forget (s : InodeStore) (id count : UInt64) : InodeStore × Option Fd :=
  if id = ROOT_ID then (s, none)
  else match s.byId id with
    | none => (s, none)
    | some data =>
      let prev := data.lookups
      let s := s.setData id { data with lookups := prev - min count prev }
      if prev ≤ count then
        ({ s with byId := Function.update s.byId id none
                  byKey := Function.update s.byKey data.key none }, some data.fd)
      else (s, none)

/-- The test `note_rename` makes on each inode. -/
def locatedAt (s : InodeStore) (parent : UInt64) (name : Name) (id : UInt64) : Bool :=
  match s.byId id with
  | some d => d.parent = some parent && d.name = name
  | none => false

/-- `InodeStore::note_rename`. `order` is the order in which the hash map yields
its inodes; the first one at the old location moves. -/
def noteRename (s : InodeStore) (order : List UInt64) (oldParent : UInt64) (oldName : Name)
    (newParent : UInt64) (newName : Name) : InodeStore :=
  match order.find? (s.locatedAt oldParent oldName) with
  | none => s
  | some id =>
    match s.byId id with
    | some d => s.setData id (d.setLocation newParent newName)
    | none => s

end InodeStore

end Riftlessfs.Core
