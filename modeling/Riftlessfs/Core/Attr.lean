import Riftlessfs.Core.Error

/-! File types, `stat` results and the attributes exchanged with a client. -/
namespace Riftlessfs.Core

def S_IFMT : UInt32 := 0o170000
def S_IFDIR : UInt32 := 0o040000
def S_IFLNK : UInt32 := 0o120000
def S_IFREG : UInt32 := 0o100000
def S_IFIFO : UInt32 := 0o010000

inductive FileKind where
  | dir
  | symlink
  | regular
  | other
  deriving DecidableEq, Repr

def FileKind.fromMode (mode : UInt32) : FileKind :=
  if mode &&& S_IFMT = S_IFDIR then .dir
  else if mode &&& S_IFMT = S_IFLNK then .symlink
  else if mode &&& S_IFMT = S_IFREG then .regular
  else .other

/-- Seconds and nanoseconds since the epoch. -/
abbrev Time := Int64 × UInt32

structure Stat where
  dev : UInt64
  ino : UInt64
  size : UInt64
  blocks : UInt64
  atime : Time
  mtime : Time
  ctime : Time
  mode : UInt32
  nlink : UInt32
  uid : UInt32
  gid : UInt32
  rdev : UInt32
  blksize : UInt32
  deriving DecidableEq, Repr

structure Attr where
  ino : UInt64
  size : UInt64
  blocks : UInt64
  atime : Time
  mtime : Time
  ctime : Time
  mode : UInt32
  nlink : UInt32
  uid : UInt32
  gid : UInt32
  rdev : UInt32
  blksize : UInt32
  deriving DecidableEq, Repr

def Attr.fromStat (st : Stat) : Attr where
  ino := st.ino
  size := st.size
  blocks := st.blocks
  atime := st.atime
  mtime := st.mtime
  ctime := st.ctime
  mode := st.mode
  nlink := st.nlink
  uid := st.uid
  gid := st.gid
  rdev := st.rdev
  blksize := st.blksize

structure SetAttr where
  size : Option UInt64 := none
  mode : Option UInt32 := none
  uid : Option UInt32 := none
  gid : Option UInt32 := none
  atime : Option Time := none
  mtime : Option Time := none
  deriving DecidableEq, Repr

end Riftlessfs.Core
