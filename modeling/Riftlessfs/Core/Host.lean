import Riftlessfs.Core.Attr
import Mathlib.Data.List.AList
import Mathlib.Tactic

/-! The host side of the engine: a directory tree of files keyed by device and
inode number, its open descriptors, and path resolution relative to a directory.
Removed files stay in `nodes` until their key is given to a new file. -/
namespace Riftlessfs.Core

/-- `FileKey`: identifies a file independently of its path. -/
structure FileKey where
  dev : UInt64
  ino : UInt64
  deriving DecidableEq, Repr

/-- A path or path component, as bytes. -/
abbrev Name := List UInt8

def slash : UInt8 := 47
def dot : Name := [46]
def dotdot : Name := [46, 46]

/-- What a file holds. A removed directory is `dead`: it stays open but takes no entries. -/
inductive Body where
  | dir (parent : FileKey) (entries : AList fun _ : Name => FileKey) (dead : Bool)
  | file (data : List UInt8)
  | symlink (target : Name)
  | other

/-- The attributes `setattr` can change, and the device number. -/
structure Meta where
  perm : UInt32
  uid : UInt32
  gid : UInt32
  rdev : UInt32
  atime : Time
  mtime : Time
  ctime : Time
  deriving DecidableEq, Repr

structure Node where
  body : Body
  info : Meta

def Body.kind : Body → FileKind
  | .dir .. => .dir
  | .file _ => .regular
  | .symlink _ => .symlink
  | .other => .other

/-- An open descriptor: the file it refers to and the flags it was opened with. -/
structure Fd where
  num : ℕ
  file : FileKey
  flags : UInt32
  deriving DecidableEq, Repr

inductive EventKind where
  | referenced
  | opened
  | created
  | removed
  | renamed
  | linked
  | truncated
  | chmoded
  | chowned
  | timed
  | linkRead
  | written
  deriving DecidableEq, Repr

/-- One effect of a syscall on one file. -/
structure Event where
  kind : EventKind
  key : FileKey
  deriving DecidableEq, Repr

structure Host where
  nodes : AList fun _ : FileKey => Node
  top : FileKey
  fds : List Fd
  nextFd : ℕ
  log : List Event
  umask : UInt32
  /-- Alignment the filesystem asks of `O_DIRECT` transfers. -/
  dioAlign : ℕ

namespace Host

def node (h : Host) (k : FileKey) : Option Node := h.nodes.lookup k

def setNode (h : Host) (k : FileKey) (v : Node) : Host :=
  { h with nodes := h.nodes.insert k v }

def note (h : Host) (kind : EventKind) (k : FileKey) : Host :=
  { h with log := h.log ++ [⟨kind, k⟩] }

def entry (h : Host) (d : FileKey) (n : Name) : Option FileKey :=
  match h.node d with
  | some ⟨.dir _ es _, _⟩ => es.lookup n
  | _ => none

/-- What `..` names in directory `d`; `none` when `d` is no directory. -/
def dirParent (h : Host) (d : FileKey) : Option FileKey :=
  match h.node d with
  | some ⟨.dir up _ _, _⟩ => some up
  | _ => none

def isDir (h : Host) (k : FileKey) : Bool := (h.dirParent k).isSome

def isDead (h : Host) (k : FileKey) : Bool :=
  match h.node k with
  | some ⟨.dir _ _ dead, _⟩ => dead
  | _ => false

def isSymlink (h : Host) (k : FileKey) : Bool :=
  match h.node k with
  | some ⟨.symlink _, _⟩ => true
  | _ => false

def isEmptyDir (h : Host) (k : FileKey) : Bool :=
  match h.node k with
  | some ⟨.dir _ es _, _⟩ => es.entries.isEmpty
  | _ => false

def linkCount (h : Host) (k : FileKey) : ℕ :=
  (h.nodes.entries.map fun s => match s.2.body with
    | .dir _ es _ => es.entries.countP fun e => decide (e.2 = k)
    | _ => 0).sum

/-- A key the host may not give to a new file: named, open, or the top directory. -/
def inUse (h : Host) (k : FileKey) : Bool :=
  decide (k = h.top) || decide (h.linkCount k ≠ 0) || h.fds.any fun fd => decide (fd.file = k)

def mapEntries (h : Host) (d : FileKey)
    (f : (AList fun _ : Name => FileKey) → AList fun _ : Name => FileKey) : Host :=
  match h.node d with
  | some ⟨.dir up es dead, info⟩ => h.setNode d ⟨.dir up (f es) dead, info⟩
  | _ => h

def bind (h : Host) (d : FileKey) (n : Name) (k : FileKey) : Host :=
  h.mapEntries d (·.insert n k)

def unbind (h : Host) (d : FileKey) (n : Name) : Host :=
  h.mapEntries d (·.erase n)

/-- Move directory `k` under `up`; other files keep their node. -/
def reparent (h : Host) (k up : FileKey) : Host :=
  match h.node k with
  | some ⟨.dir _ es dead, info⟩ => h.setNode k ⟨.dir up es dead, info⟩
  | _ => h

def markDead (h : Host) (k : FileKey) : Host :=
  match h.node k with
  | some ⟨.dir up es _, info⟩ => h.setNode k ⟨.dir up es true, info⟩
  | _ => h

/-- Change attributes, leaving the contents. -/
def mapInfo (h : Host) (k : FileKey) (f : Meta → Meta) : Host :=
  match h.node k with
  | some ⟨body, info⟩ => h.setNode k ⟨body, f info⟩
  | none => h

def setData (h : Host) (k : FileKey) (data : List UInt8) : Host :=
  match h.node k with
  | some ⟨.file _, info⟩ => h.setNode k ⟨.file data, info⟩
  | _ => h

def openFd (h : Host) (k : FileKey) (flags : UInt32) : Fd × Host :=
  (⟨h.nextFd, k, flags⟩,
    { h with fds := ⟨h.nextFd, k, flags⟩ :: h.fds, nextFd := h.nextFd + 1 })

def closeFd (h : Host) (fd : Fd) : Host :=
  { h with fds := h.fds.filter fun x => decide (x ≠ fd) }

/-- `stat` of a file. Allocated blocks are 512 bytes each. -/
def statOf (h : Host) (k : FileKey) (v : Node) : Stat :=
  let size := match v.body with
    | .file data => data.length
    | .symlink t => t.length
    | _ => 0
  let type := match v.body.kind with
    | .dir => S_IFDIR
    | .symlink => S_IFLNK
    | .regular => S_IFREG
    | .other => S_IFIFO
  { dev := k.dev, ino := k.ino, size := UInt64.ofNat size
    blocks := UInt64.ofNat ((size + 511) / 512)
    atime := v.info.atime, mtime := v.info.mtime, ctime := v.info.ctime
    mode := type ||| (v.info.perm &&& 0o7777)
    nlink := UInt32.ofNat (h.linkCount k)
    uid := v.info.uid, gid := v.info.gid, rdev := v.info.rdev, blksize := 4096 }

end Host

/-- The nonempty components of a path. -/
def components (path : Name) : List Name := (path.splitOn slash).filter (· ≠ [])

/-- A path that ends in a slash names a directory. -/
def mustDir (path : Name) : Bool := path.getLast? = some slash

/-- Where a path leads: an entry of a directory, bound or not, or a directory
itself when the path ends in `.`, `..` or `/`. -/
inductive Place where
  | entry (dir : FileKey) (name : Name)
  | dir (d : FileKey)
  deriving DecidableEq, Repr

namespace Host

/-- Walk path components from directory `cur`, handing symbolic links to `onLink`.
The last component is followed only when `follow` is set. -/
def walkAux (h : Host) (follow : Bool)
    (onLink : FileKey → Name → List Name → Except Errno Place) :
    FileKey → List Name → Except Errno Place
  | cur, [] => .ok (.dir cur)
  | cur, c :: rest =>
    match h.dirParent cur with
    | none => .error ENOTDIR
    | some up =>
      if c = dot then h.walkAux follow onLink cur rest
      else if c = dotdot then h.walkAux follow onLink up rest
      else match h.entry cur c with
        | none => if rest = [] then .ok (.entry cur c) else .error ENOENT
        | some k =>
          match h.node k with
          | some ⟨.symlink t, _⟩ =>
            if rest = [] ∧ follow = false then .ok (.entry cur c) else onLink cur t rest
          | _ => if rest = [] then .ok (.entry cur c) else h.walkAux follow onLink k rest

/-- Path walk through at most `links` symbolic links. -/
def walk (h : Host) (follow : Bool) : ℕ → FileKey → List Name → Except Errno Place
  | 0 => h.walkAux follow fun _ _ _ => .error ELOOP
  | links + 1 => h.walkAux follow fun d t rest =>
      h.walk follow links (if t.head? = some slash then h.top else d) (components t ++ rest)

/-- Resolve `path` against directory `base`, as the `*at` syscalls do. -/
def resolve (h : Host) (follow : Bool) (base : FileKey) (path : Name) : Except Errno Place :=
  if path = [] then .error ENOENT
  else h.walk follow 40 (if path.head? = some slash then h.top else base) (components path)

def fileAt (h : Host) : Place → Option FileKey
  | .entry d n => h.entry d n
  | .dir d => some d

def lookupPath (h : Host) (follow : Bool) (base : FileKey) (path : Name) :
    Except Errno FileKey := do
  let place ← h.resolve (follow || mustDir path) base path
  match h.fileAt place with
  | none => .error ENOENT
  | some k => if mustDir path && !h.isDir k then .error ENOTDIR else .ok k

/-- Whether directory `d` is `m` or lies below it, by its chain of parents. An
exhausted walk counts as below. -/
def isBelow (h : Host) (m : FileKey) : ℕ → FileKey → Bool
  | 0, _ => true
  | fuel + 1, d =>
    if d = m then true
    else match h.dirParent d with
      | none => false
      | some up => if up = d then false else h.isBelow m fuel up

end Host

end Riftlessfs.Core
