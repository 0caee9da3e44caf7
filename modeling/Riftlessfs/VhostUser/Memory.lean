import Riftlessfs.Lib.Flat
import Riftlessfs.VhostUser.Message

/-! Guest memory: regions mapped into the server's address space, and access by
guest-physical or user address. -/
namespace Riftlessfs.VhostUser
open Lib.Flat Lib.LittleEndian Riftlessfs.Core Riftlessfs.Proto

inductive AddrSpace where
  | gpa
  | user
  deriving DecidableEq, Repr

/-- A mapped region; `ptr` is where its usable part begins in the server's memory, and
`mmapBase`, `mmapLen` are what was mapped. -/
structure Region where
  gpa : UInt64
  userAddr : UInt64
  len : UInt64
  ptr : ℕ
  mmapBase : ℕ
  mmapLen : UInt64
  deriving DecidableEq, Repr

def Region.baseFor (r : Region) : AddrSpace → UInt64
  | .gpa => r.gpa
  | .user => r.userAddr

/-- `GuestMemory`, with the bytes of the server's memory that its regions map. -/
structure GuestMemory where
  regions : List Region
  bytes : ℕ → UInt8

/-- A computation on guest memory. What was written before a failure stays written. -/
abbrev MemM := EStateM VirtqueueError GuestMemory

namespace GuestMemory

def find (mem : GuestMemory) (space : AddrSpace) (addr len : UInt64) : Option Region :=
  mem.regions.find? fun r =>
    let base := r.baseFor space
    addr ≥ base && len ≤ r.len && addr - base ≤ r.len - len

/-- Where the slice of `len` bytes at `addr` lies in the server's memory. -/
def slicePtr (mem : GuestMemory) (space : AddrSpace) (addr len : UInt64) : Option ℕ := do
  let r ← mem.find space addr len
  pure (r.ptr + (addr - r.baseFor space).toNat)

/-- `GuestMemory::get_slice`, as the bytes read through it. -/
def getSlice (mem : GuestMemory) (space : AddrSpace) (addr len : UInt64) : Option (List UInt8) := do
  let p ← mem.slicePtr space addr len
  pure (load mem.bytes p len.toNat)

def readU16 (mem : GuestMemory) (space : AddrSpace) (addr : UInt64) : Option UInt16 :=
  (mem.getSlice space addr 2).map fun s => .ofNat (leNat s)

def readU32 (mem : GuestMemory) (space : AddrSpace) (addr : UInt64) : Option UInt32 :=
  (mem.getSlice space addr 4).map fun s => .ofNat (leNat s)

def readU64 (mem : GuestMemory) (space : AddrSpace) (addr : UInt64) : Option UInt64 :=
  (mem.getSlice space addr 8).map fun s => .ofNat (leNat s)

def poke (mem : GuestMemory) (p : ℕ) (b : List UInt8) : GuestMemory :=
  { mem with bytes := store mem.bytes p b }

end GuestMemory

/-- What the host decides when memory is mapped: the page size, where a mapping is placed
(by descriptor, length and file offset), and the bytes then found in the server's memory. -/
structure MapEnv where
  pageSize : UInt64
  place : RawFd → UInt64 → UInt64 → Except Errno ℕ
  bytes : ℕ → UInt8

/-- `mmap`, which refuses a length of 0. -/
def MapEnv.mmap (env : MapEnv) (len : UInt64) (fd : RawFd) (offset : UInt64) : Except Errno ℕ :=
  if len = 0 then .error EINVAL else env.place fd len offset

def mapOne (env : MapEnv) (region : MemoryRegion) (fd : RawFd) : Except Errno Region := do
  let alignedOffset := region.mmapOffset - region.mmapOffset % env.pageSize
  let extra := region.mmapOffset - alignedOffset
  let mmapLen := region.memorySize + extra
  let base ← env.mmap mmapLen fd alignedOffset
  pure
    { gpa := region.guestPhysAddr
      userAddr := region.userspaceAddr
      len := region.memorySize
      ptr := base + extra.toNat
      mmapBase := base
      mmapLen }

/-- The loop of `GuestMemory::map_regions`. -/
def mapEach (env : MapEnv) : List (MemoryRegion × RawFd) → Except Errno (List Region)
  | [] => .ok []
  | (region, fd) :: rest => do
    let r ← mapOne env region fd
    let mapped ← mapEach env rest
    pure (r :: mapped)

def mapRegions (env : MapEnv) (regions : List MemoryRegion) (fds : List RawFd) :
    Except Errno GuestMemory :=
  if regions.length ≠ fds.length then .error EINVAL
  else do
    let mapped ← mapEach env (regions.zip fds)
    pure ⟨mapped, env.bytes⟩

/-- `ok_or(VirtqueueError::OutOfBounds)?`. -/
def inBounds {α : Type} (x : GuestMemory → Option α) : MemM α := fun mem =>
  match x mem with
  | some a => .ok a mem
  | none => .error .outOfBounds mem

/-- `get_slice_mut` of `len` bytes at `addr`, and `copy_from_slice` of `b` into it. -/
def copyIntoSlice (space : AddrSpace) (addr len : UInt64) (b : List UInt8) : MemM Unit := do
  let p ← inBounds fun mem => mem.slicePtr space addr len
  modify fun mem => mem.poke p b

def writeU16 (space : AddrSpace) (addr : UInt64) (val : UInt16) : MemM Unit :=
  copyIntoSlice space addr 2 (leBytes 2 val.toNat)

def writeU32 (space : AddrSpace) (addr : UInt64) (val : UInt32) : MemM Unit :=
  copyIntoSlice space addr 4 (leBytes 4 val.toNat)

end Riftlessfs.VhostUser
