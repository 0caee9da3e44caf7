import Riftlessfs.Fuse.Dispatch
import Riftlessfs.Fuse.Cursor

/-! The protocol as a client speaks it: typed operations and the records that carry them, typed
answers and how replies are decoded, and what an operation means to the engine. -/
namespace Riftlessfs.Fuse
open Riftlessfs.Core Riftlessfs.Proto Lib.LittleEndian Lib.Effect Lib.Codec

/-- A string that a record can carry. -/
abbrev CString := { s : Bytes // 0 ∉ s }

/-- The fields of a `fuse_in_header` but the opcode. -/
structure Sender where
  len : UInt32
  unique : UInt64
  nodeid : UInt64
  uid : UInt32
  gid : UInt32
  pid : UInt32
  padding : UInt32

/-- A `fuse_setattr_in`, with the fields the server skips. -/
structure SetattrMsg where
  asked : SetattrIn
  padding : UInt32
  fh : UInt64
  lockOwner : UInt64
  ctime : UInt64
  ctimensec : UInt32
  unused4 : UInt32
  unused5 : UInt32

/-- A `fuse_read_in` or the fixed part of a `fuse_write_in`, but its size. -/
structure TransferMsg where
  fh : UInt64
  offset : UInt64
  transferFlags : UInt32
  lockOwner : UInt64
  flags : UInt32
  padding : UInt32

/-- A `fuse_release_in` or `fuse_flush_in`. -/
structure HandleMsg where
  fh : UInt64
  first : UInt32
  second : UInt32
  lockOwner : UInt64

/-- The opcodes that the server answers with `ENOSYS`. -/
def Opcode.refused : Opcode → Bool
  | .getxattr | .listxattr | .setxattr | .removexattr | .unknown _ => true
  | _ => false

inductive Operation where
  | init (msg : InitIn)
  | destroy
  | lookup (name : CString)
  | forget (nlookup : UInt64)
  | batchForget (dummy : UInt32) (entries : { l : List ForgetOne // l.length < 2 ^ 32 })
  | getattr (flags dummy : UInt32) (fh : UInt64)
  | setattr (msg : SetattrMsg)
  | readlink
  | symlink (name target : CString)
  | mkdir (mode umask : UInt32) (name : CString)
  | unlink (name : CString)
  | rmdir (name : CString)
  | rename (newdir : UInt64) (old new : CString)
  | rename2 (newdir : UInt64) (flags padding : UInt32) (old new : CString)
  | link (oldnodeid : UInt64) (name : CString)
  | open (flags openFlags : UInt32)
  | create (flags mode umask openFlags : UInt32) (name : CString)
  | read (msg : TransferMsg) (size : UInt32)
  | write (msg : TransferMsg) (data : { b : Bytes // b.length < 2 ^ 32 })
  | flush (msg : HandleMsg)
  | fsync (fh : UInt64) (fsyncFlags padding : UInt32)
  | release (msg : HandleMsg)
  | opendir (flags openFlags : UInt32)
  | readdir (msg : TransferMsg) (size : UInt32)
  | releasedir (msg : HandleMsg)
  | fsyncdir (fh : UInt64) (fsyncFlags padding : UInt32)
  | statfs
  | access (mask padding : UInt32)
  | other (code : { v : UInt32 // (Opcode.ofU32 v).refused = true }) (body : Bytes)

def Operation.code : Operation → UInt32
  | .lookup .. => 1
  | .forget .. => 2
  | .getattr .. => 3
  | .setattr .. => 4
  | .readlink => 5
  | .symlink .. => 6
  | .mkdir .. => 9
  | .unlink .. => 10
  | .rmdir .. => 11
  | .rename .. => 12
  | .link .. => 13
  | .open .. => 14
  | .read .. => 15
  | .write .. => 16
  | .statfs => 17
  | .release .. => 18
  | .fsync .. => 20
  | .flush .. => 25
  | .init .. => 26
  | .opendir .. => 27
  | .readdir .. => 28
  | .releasedir .. => 29
  | .fsyncdir .. => 30
  | .access .. => 34
  | .create .. => 35
  | .destroy => 38
  | .batchForget .. => 42
  | .rename2 .. => 45
  | .other code _ => code

def SetattrMsg.fields (m : SetattrMsg) : List Field :=
  [.u32 m.asked.valid, .u32 m.padding, .u64 m.fh, .u64 m.asked.size, .u64 m.lockOwner,
    .u64 m.asked.atime, .u64 m.asked.mtime, .u64 m.ctime, .u32 m.asked.atimensec,
    .u32 m.asked.mtimensec, .u32 m.ctimensec, .u32 m.asked.mode, .u32 m.unused4, .u32 m.asked.uid,
    .u32 m.asked.gid, .u32 m.unused5]

def TransferMsg.fields (m : TransferMsg) (size : UInt32) : List Field :=
  [.u64 m.fh, .u64 m.offset, .u32 size, .u32 m.transferFlags, .u64 m.lockOwner, .u32 m.flags,
    .u32 m.padding]

def HandleMsg.fields (m : HandleMsg) : List Field :=
  [.u64 m.fh, .u32 m.first, .u32 m.second, .u64 m.lockOwner]

def Operation.fields : Operation → List Field
  | .init m => [.u32 m.major, .u32 m.minor, .u32 m.maxReadahead, .u32 m.flags]
  | .lookup name | .unlink name | .rmdir name => [.cstr name]
  | .forget nlookup => [.u64 nlookup]
  | .batchForget dummy entries => .u32 (.ofNat entries.1.length) :: .u32 dummy ::
    entries.1.flatMap fun e => [.u64 e.nodeid, .u64 e.nlookup]
  | .getattr flags dummy fh => [.u32 flags, .u32 dummy, .u64 fh]
  | .setattr m => m.fields
  | .symlink name target => [.cstr name, .cstr target]
  | .mkdir mode umask name => [.u32 mode, .u32 umask, .cstr name]
  | .rename newdir old new => [.u64 newdir, .cstr old, .cstr new]
  | .rename2 newdir flags padding old new =>
    [.u64 newdir, .u32 flags, .u32 padding, .cstr old, .cstr new]
  | .link oldnodeid name => [.u64 oldnodeid, .cstr name]
  | .open flags openFlags | .opendir flags openFlags => [.u32 flags, .u32 openFlags]
  | .create flags mode umask openFlags name =>
    [.u32 flags, .u32 mode, .u32 umask, .u32 openFlags, .cstr name]
  | .read m size | .readdir m size => m.fields size
  | .write m data => m.fields (.ofNat data.1.length) ++ [.bytes data]
  | .flush m | .release m | .releasedir m => m.fields
  | .fsync fh flags padding | .fsyncdir fh flags padding => [.u64 fh, .u32 flags, .u32 padding]
  | .access mask padding => [.u32 mask, .u32 padding]
  | .other _ body => [.bytes body]
  | .destroy | .readlink | .statfs => []

def Sender.encode (h : Sender) (op : Operation) : Bytes :=
  Field.record ([.u32 h.len, .u32 op.code, .u64 h.unique, .u64 h.nodeid, .u32 h.uid, .u32 h.gid,
    .u32 h.pid, .u32 h.padding] ++ op.fields)

structure InitReply where
  major : UInt32
  minor : UInt32
  maxReadahead : UInt32
  flags : UInt32
  maxBackground : UInt16
  congestionThreshold : UInt16
  maxWrite : UInt32
  timeGran : UInt32
  maxPages : UInt16
  deriving DecidableEq, Repr

structure EntryReply where
  nodeid : UInt64
  generation : UInt64
  entryValid : UInt64
  attrValid : UInt64
  entryValidNsec : UInt32
  attrValidNsec : UInt32
  attr : Attr
  deriving DecidableEq, Repr

structure OpenReply where
  fh : UInt64
  openFlags : UInt32
  deriving DecidableEq, Repr

structure StatfsReply where
  blocks : UInt64
  bfree : UInt64
  bavail : UInt64
  files : UInt64
  ffree : UInt64
  bsize : UInt32
  namelen : UInt32
  frsize : UInt32
  deriving DecidableEq, Repr

/-- What a client learns from a reply, or from there being none. -/
inductive Answer where
  | init (r : InitReply)
  | entry (r : EntryReply)
  | attr (valid : UInt64) (attr : Attr)
  | opened (r : OpenReply)
  | created (r : EntryReply) (o : OpenReply)
  | data (b : Bytes)
  | written (n : UInt32)
  | statfs (r : StatfsReply)
  | done
  | failed (error : Int32)
  | silence
  deriving DecidableEq, Repr

namespace Answer

def readInit : ReadM InitReply := do
  let major ← Reader.u32
  let minor ← Reader.u32
  let maxReadahead ← Reader.u32
  let flags ← Reader.u32
  let maxBackground ← Reader.u16
  let congestionThreshold ← Reader.u16
  let maxWrite ← Reader.u32
  let timeGran ← Reader.u32
  let maxPages ← Reader.u16
  pure ⟨major, minor, maxReadahead, flags, maxBackground, congestionThreshold, maxWrite, timeGran,
    maxPages⟩

def readAttr : ReadM Attr := do
  let ino ← Reader.u64
  let size ← Reader.u64
  let blocks ← Reader.u64
  let atime ← Reader.u64
  let mtime ← Reader.u64
  let ctime ← Reader.u64
  let atimensec ← Reader.u32
  let mtimensec ← Reader.u32
  let ctimensec ← Reader.u32
  let mode ← Reader.u32
  let nlink ← Reader.u32
  let uid ← Reader.u32
  let gid ← Reader.u32
  let rdev ← Reader.u32
  let blksize ← Reader.u32
  Reader.skip 4
  pure ⟨ino, size, blocks, (atime.toInt64, atimensec), (mtime.toInt64, mtimensec),
    (ctime.toInt64, ctimensec), mode, nlink, uid, gid, rdev, blksize⟩

def readEntry : ReadM EntryReply := do
  let nodeid ← Reader.u64
  let generation ← Reader.u64
  let entryValid ← Reader.u64
  let attrValid ← Reader.u64
  let entryValidNsec ← Reader.u32
  let attrValidNsec ← Reader.u32
  let a ← readAttr
  pure ⟨nodeid, generation, entryValid, attrValid, entryValidNsec, attrValidNsec, a⟩

def readAttrOut : ReadM (UInt64 × Attr) := do
  let valid ← Reader.u64
  Reader.skip 4
  Reader.skip 4
  let a ← readAttr
  pure (valid, a)

def readOpen : ReadM OpenReply := do
  let fh ← Reader.u64
  let openFlags ← Reader.u32
  Reader.skip 4
  pure ⟨fh, openFlags⟩

def readStatfs : ReadM StatfsReply := do
  let blocks ← Reader.u64
  let bfree ← Reader.u64
  let bavail ← Reader.u64
  let files ← Reader.u64
  let ffree ← Reader.u64
  let bsize ← Reader.u32
  let namelen ← Reader.u32
  let frsize ← Reader.u32
  pure ⟨blocks, bfree, bavail, files, ffree, bsize, namelen, frsize⟩

/-- The body of a reply to an operation that went well. -/
def readBody : Operation → ReadM Answer
  | .init _ => do pure (.init (← readInit))
  | .lookup _ | .symlink .. | .mkdir .. | .link .. => do pure (.entry (← readEntry))
  | .getattr .. | .setattr _ => do
    let r ← readAttrOut
    pure (.attr r.1 r.2)
  | .open .. | .opendir .. => do pure (.opened (← readOpen))
  | .create .. => do
    let r ← readEntry
    let o ← readOpen
    pure (.created r o)
  | .readlink | .read .. | .readdir .. => do pure (.data (← Reader.remaining))
  | .write .. => do pure (.written (← Reader.u32))
  | .statfs => do pure (.statfs (← readStatfs))
  | _ => pure .done

def readReply (op : Operation) (unique : UInt64) : ReadM (Option Answer) := do
  let _ ← Reader.u32
  let error ← Reader.i32
  let u ← Reader.u64
  if u ≠ unique then pure none
  else if error ≠ 0 then pure (some (.failed error))
  else do pure (some (← readBody op))

/-- What a client makes of a reply; `none` when it cannot be read or is not to its request. -/
def decode (op : Operation) (unique : UInt64) : Reply → Option Answer
  | .none => some .silence
  | .bytes b =>
    match Reader.parse (readReply op unique) b with
    | .ok a => a
    | .error _ => none

end Answer

end Riftlessfs.Fuse
