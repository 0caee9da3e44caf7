import Riftlessfs.Fuse.Bytes
import Riftlessfs.Core.Passthrough

/-! The FUSE-over-virtio wire structs: request headers and bodies, and the replies. -/
namespace Riftlessfs.Fuse
open Riftlessfs.Core Riftlessfs.Proto Lib.LittleEndian

/-- A request body or reply body. -/
abbrev Bytes := List UInt8

def IN_HEADER_LEN : ℕ := 40
def OUT_HEADER_LEN : ℕ := 16
def INIT_OUT_MINOR : UInt32 := 31
def INIT_OUT_LEN : ℕ := 64

structure InHeader where
  len : UInt32
  opcode : UInt32
  unique : UInt64
  nodeid : UInt64
  uid : UInt32
  gid : UInt32
  pid : UInt32
  deriving DecidableEq, Repr

def InHeader.fromBytes : Bytes → Except ProtoError InHeader := Reader.parse do
  let len ← Reader.u32
  let opcode ← Reader.u32
  let unique ← Reader.u64
  let nodeid ← Reader.u64
  let uid ← Reader.u32
  let gid ← Reader.u32
  let pid ← Reader.u32
  Reader.skip 4
  pure { len, opcode, unique, nodeid, uid, gid, pid }

def InHeader.body (buf : Bytes) : Bytes := buf.drop (min IN_HEADER_LEN buf.length)

/-- The errno values `to_linux_errno` knows; on a Linux host each maps to itself. -/
def knownErrnos : List ℕ :=
  [1, 2, 3, 4, 5, 6, 7, 8, 9, 10, 11, 12, 13, 14, 16, 17, 18, 19, 20, 21, 22, 23, 24, 25, 26,
   27, 28, 29, 30, 31, 32, 33, 34, 35, 36, 37, 38, 39, 40, 42, 43, 75, 74, 84, 88, 89, 90, 91,
   92, 93, 95, 97, 98, 99, 100, 101, 102, 103, 104, 105, 106, 107, 110, 111, 113, 114, 115,
   116, 122, 125]

/-- `to_linux_errno` on a Linux host. -/
def toLinuxErrno (hostErrno : Errno) : Errno :=
  if hostErrno ∈ knownErrnos then hostErrno else 5

def OutHeader.reply (unique : UInt64) (error : Int32) (body : Bytes) : Bytes :=
  let body := if error = 0 then body else []
  ((((Writer.new.u32 (.ofNat (OUT_HEADER_LEN + body.length))).i32 error).u64 unique).bytes
    body).intoVec

def OutHeader.errorFor (unique : UInt64) (hostErrno : Errno) : Bytes :=
  OutHeader.reply unique (-(Int32.ofNat (toLinuxErrno hostErrno))) []

def OutHeader.successHeaderOnly (unique : UInt64) (totalLen : UInt32) : Bytes :=
  (((Writer.new.u32 totalLen).i32 0).u64 unique).intoVec

inductive Opcode where
  | lookup | forget | getattr | setattr | readlink | symlink | mkdir | unlink | rmdir | rename
  | link | open | read | write | statfs | release | fsync | getxattr | listxattr | setxattr
  | removexattr | flush | init | opendir | readdir | releasedir | fsyncdir | access | create
  | destroy | batchForget | rename2
  | unknown (v : UInt32)
  deriving DecidableEq, Repr

/-- `Opcode::from`. -/
def Opcode.ofU32 (v : UInt32) : Opcode :=
  match v with
  | 1 => .lookup
  | 2 => .forget
  | 3 => .getattr
  | 4 => .setattr
  | 5 => .readlink
  | 6 => .symlink
  | 9 => .mkdir
  | 10 => .unlink
  | 11 => .rmdir
  | 12 => .rename
  | 13 => .link
  | 14 => .open
  | 15 => .read
  | 16 => .write
  | 17 => .statfs
  | 18 => .release
  | 20 => .fsync
  | 21 => .setxattr
  | 22 => .getxattr
  | 23 => .listxattr
  | 24 => .removexattr
  | 25 => .flush
  | 26 => .init
  | 27 => .opendir
  | 28 => .readdir
  | 29 => .releasedir
  | 30 => .fsyncdir
  | 34 => .access
  | 35 => .create
  | 38 => .destroy
  | 42 => .batchForget
  | 45 => .rename2
  | other => .unknown other

def FuseAttr.write (w : Writer) (attr : Attr) : Writer :=
  ((((((((((((((((w.u64 attr.ino).u64 attr.size).u64 attr.blocks).u64
    attr.atime.1.toUInt64).u64 attr.mtime.1.toUInt64).u64 attr.ctime.1.toUInt64).u32
    attr.atime.2).u32 attr.mtime.2).u32 attr.ctime.2).u32 attr.mode).u32 attr.nlink).u32
    attr.uid).u32 attr.gid).u32 attr.rdev).u32 attr.blksize).u32 0)

def CACHE_TIMEOUT_SECS : UInt64 := 1

def entryOut (nodeid : UInt64) (attr : Attr) : Bytes :=
  (FuseAttr.write ((((((Writer.new.u64 nodeid).u64 1).u64 CACHE_TIMEOUT_SECS).u64
    CACHE_TIMEOUT_SECS).u32 0).u32 0) attr).intoVec

def attrOut (attr : Attr) : Bytes :=
  (FuseAttr.write (((Writer.new.u64 CACHE_TIMEOUT_SECS).u32 0).u32 0) attr).intoVec

structure InitIn where
  major : UInt32
  minor : UInt32
  maxReadahead : UInt32
  flags : UInt32
  deriving DecidableEq, Repr

def InitIn.fromBytes : Bytes → Except ProtoError InitIn := Reader.parse do
  let major ← Reader.u32
  let minor ← Reader.u32
  let maxReadahead ← Reader.u32
  let flags ← Reader.orElse Reader.u32 0
  pure { major, minor, maxReadahead, flags }

def MAX_WRITE : UInt32 := 0x100000
def FUSE_WRITEBACK_CACHE : UInt32 := 0x10000
def FUSE_ASYNC_READ : UInt32 := 1
def FUSE_MAX_PAGES : UInt32 := 0x400000
def ASSUMED_GUEST_PAGE_SIZE : UInt32 := 4096

def initOut (maxReadahead : UInt32) : Bytes :=
  ((((((((((((((Writer.new.u32 7).u32 INIT_OUT_MINOR).u32 maxReadahead).u32
    (FUSE_WRITEBACK_CACHE ||| FUSE_ASYNC_READ ||| FUSE_MAX_PAGES)).u16 0xffff).u16
    (0xffff / 4 * 3)).u32 MAX_WRITE).u32 1).u16
    (MAX_WRITE / ASSUMED_GUEST_PAGE_SIZE).toUInt16).u16 0).u32 0).u32 0).u16 0).padTo
    INIT_OUT_LEN).intoVec

structure GetattrIn where
  flags : UInt32
  fh : UInt64
  deriving DecidableEq, Repr

def GetattrIn.fromBytes : Bytes → Except ProtoError GetattrIn := Reader.parse do
  let flags ← Reader.u32
  Reader.skip 4
  let fh ← Reader.u64
  pure { flags, fh }

def FATTR_MODE : UInt32 := 0x1
def FATTR_UID : UInt32 := 0x2
def FATTR_GID : UInt32 := 0x4
def FATTR_SIZE : UInt32 := 0x8
def FATTR_ATIME : UInt32 := 0x10
def FATTR_MTIME : UInt32 := 0x20
def FATTR_ATIME_NOW : UInt32 := 0x80
def FATTR_MTIME_NOW : UInt32 := 0x100

structure SetattrIn where
  valid : UInt32
  size : UInt64
  atime : UInt64
  mtime : UInt64
  atimensec : UInt32
  mtimensec : UInt32
  mode : UInt32
  uid : UInt32
  gid : UInt32
  deriving DecidableEq, Repr

def SetattrIn.fromBytes : Bytes → Except ProtoError SetattrIn := Reader.parse do
  let valid ← Reader.u32
  Reader.skip 4
  Reader.skip 8
  let size ← Reader.u64
  Reader.skip 8
  let atime ← Reader.u64
  let mtime ← Reader.u64
  Reader.skip 8
  let atimensec ← Reader.u32
  let mtimensec ← Reader.u32
  Reader.skip 4
  let mode ← Reader.u32
  Reader.skip 4
  let uid ← Reader.u32
  let gid ← Reader.u32
  pure { valid, size, atime, mtime, atimensec, mtimensec, mode, uid, gid }

/-- `MkdirIn::from_bytes`: the mode and the name. -/
def MkdirIn.fromBytes : Bytes → Except ProtoError (UInt32 × Bytes) := Reader.parse do
  let mode ← Reader.u32
  Reader.skip 4
  let name ← Reader.cstr
  pure (mode, name)

/-- `RenameIn::from_bytes`: the new directory and both names. -/
def RenameIn.fromBytes : Bytes → Except ProtoError (UInt64 × Bytes × Bytes) := Reader.parse do
  let newdir ← Reader.u64
  let old ← Reader.cstr
  let new ← Reader.cstr
  pure (newdir, old, new)

/-- `RenameIn::from_bytes_v2`: the flags are skipped. -/
def RenameIn.fromBytesV2 : Bytes → Except ProtoError (UInt64 × Bytes × Bytes) := Reader.parse do
  let newdir ← Reader.u64
  Reader.skip 8
  let old ← Reader.cstr
  let new ← Reader.cstr
  pure (newdir, old, new)

/-- `LinkIn::from_bytes`: the linked node and the new name. -/
def LinkIn.fromBytes : Bytes → Except ProtoError (UInt64 × Bytes) := Reader.parse do
  let oldnodeid ← Reader.u64
  let name ← Reader.cstr
  pure (oldnodeid, name)

/-- `OpenIn::from_bytes`: the flags. -/
def OpenIn.fromBytes : Bytes → Except ProtoError UInt32 := Reader.parse Reader.u32

structure CreateIn where
  flags : UInt32
  mode : UInt32
  deriving DecidableEq, Repr

def CreateIn.fromBytes : Bytes → Except ProtoError (CreateIn × Bytes) := Reader.parse do
  let flags ← Reader.u32
  let mode ← Reader.u32
  Reader.skip 4
  Reader.skip 4
  let name ← Reader.cstr
  pure ({ flags, mode }, name)

def FOPEN_KEEP_CACHE : UInt32 := 0x2

def openOut (fh : UInt64) : Bytes :=
  (((Writer.new.u64 fh).u32 FOPEN_KEEP_CACHE).i32 0).intoVec

/-- `ReleaseIn::from_bytes` and `FlushIn::from_bytes`: the handle. -/
def ReleaseIn.fromBytes : Bytes → Except ProtoError UInt64 := Reader.parse Reader.u64

def FlushIn.fromBytes : Bytes → Except ProtoError UInt64 := Reader.parse Reader.u64

structure ReadIn where
  fh : UInt64
  offset : UInt64
  size : UInt32
  deriving DecidableEq, Repr

def ReadIn.fromBytes : Bytes → Except ProtoError ReadIn := Reader.parse do
  let fh ← Reader.u64
  let offset ← Reader.u64
  let size ← Reader.u32
  pure { fh, offset, size }

structure WriteIn where
  fh : UInt64
  offset : UInt64
  size : UInt32
  deriving DecidableEq, Repr

/-- `WriteIn::from_bytes`: the struct and the data behind it. -/
def WriteIn.fromBytes : Bytes → Except ProtoError (WriteIn × Bytes) := Reader.parse do
  let fh ← Reader.u64
  let offset ← Reader.u64
  let size ← Reader.u32
  Reader.skip 4
  Reader.skip 8
  Reader.skip 4
  Reader.skip 4
  let data ← Reader.remaining
  pure ({ fh, offset, size }, data)

def writeOut (size : UInt32) : Bytes := ((Writer.new.u32 size).u32 0).intoVec

def statfsOut (stat : Statvfs) : Bytes :=
  ((((((((((Writer.new.u64 stat.blocks).u64 stat.bfree).u64 stat.bavail).u64 stat.files).u64
    stat.ffree).u32 stat.bsize.toUInt32).u32 stat.namemax.toUInt32).u32
    stat.frsize.toUInt32).u32 0).bytes (List.replicate 24 0)).intoVec

/-- `AccessIn::from_bytes`: the mask. -/
def AccessIn.fromBytes : Bytes → Except ProtoError UInt32 := Reader.parse Reader.u32

structure ForgetOne where
  nodeid : UInt64
  nlookup : UInt64
  deriving DecidableEq, Repr

def ForgetOne.read : ℕ → ReadM (List ForgetOne)
  | 0 => pure []
  | n + 1 => do
    let nodeid ← Reader.u64
    let nlookup ← Reader.u64
    let rest ← ForgetOne.read n
    pure ({ nodeid, nlookup } :: rest)

/-- What `parse_batch_forget` reads before it reserves room for the entries. -/
def batchForgetHead : ReadM UInt32 := do
  let count ← Reader.u32
  Reader.skip 4
  pure count

/-- The elements `parse_batch_forget` reserves: `Vec::with_capacity(count as usize)` once the head
is read, nothing if it returns before. -/
def batchForgetReserves (buf : Bytes) : ℕ :=
  match Reader.parse batchForgetHead buf with
  | .ok count => count.toNat
  | .error _ => 0

/-- `parse_batch_forget`, when it has the room it reserves. -/
def parseBatchForget : Bytes → Except ProtoError (List ForgetOne) := Reader.parse do
  let count ← Reader.u32
  Reader.skip 4
  ForgetOne.read count.toNat

/-- `parse_batch_forget` with the reservation, 16 bytes an entry. -/
def parseBatchForgetOrAbort (grants : ℕ → Bool) (buf : Bytes) :
    Option (Except ProtoError (List ForgetOne)) :=
  reserving grants (16 * batchForgetReserves buf) (parseBatchForget buf)

/-- `ForgetIn::from_bytes`: the lookup count. -/
def ForgetIn.fromBytes : Bytes → Except ProtoError UInt64 := Reader.parse Reader.u64

/-- `push_dirent`: whether the entry fits, and the buffer after it. -/
def pushDirent (out : Bytes) (remaining : ℕ) (ino off : UInt64) (kind : UInt32)
    (name : Bytes) : Bool × Bytes :=
  let unpadded := 24 + name.length
  let padded := (unpadded + 7) / 8 * 8
  if padded > remaining then (false, out)
  else (true, out ++ leBytes 8 ino.toNat ++ leBytes 8 off.toNat ++ leBytes 4 name.length
    ++ leBytes 4 kind.toNat ++ name ++ List.replicate (padded - unpadded) 0)

def DT_UNKNOWN : UInt32 := 0
def DT_DIR : UInt32 := 4
def DT_REG : UInt32 := 8
def DT_LNK : UInt32 := 10

end Riftlessfs.Fuse
