import Riftlessfs.VhostUser.Memory

/-! Split virtqueues: the descriptor table, the available ring and the used ring, read
out of guest memory. Address arithmetic wraps, as in a release build. -/
namespace Riftlessfs.VhostUser
open Lib.Flat Riftlessfs.Proto

def DESC_LEN : UInt64 := 16
def AVAIL_RING_OFFSET : UInt64 := 4
def USED_RING_OFFSET : UInt64 := 4
def USED_ELEM_LEN : UInt64 := 8

def VIRTQ_DESC_F_NEXT : UInt16 := 1
def VIRTQ_DESC_F_WRITE : UInt16 := 2
def VIRTQ_DESC_F_INDIRECT : UInt16 := 4

def MAX_CHAIN_LEN : ℕ := 512

/-- A buffer in guest-physical space: its address and length. -/
abbrev Segment := UInt64 × UInt64

structure DescChain where
  head : UInt16
  readable : List Segment
  writable : List Segment
  deriving DecidableEq, Repr

structure Virtqueue where
  descAddr : UInt64
  availAddr : UInt64
  usedAddr : UInt64
  queueSize : UInt16
  lastAvailIdx : UInt16
  deriving DecidableEq, Repr

namespace Virtqueue

def new (queueSize : UInt16) (descAddr availAddr usedAddr : UInt64) : Virtqueue :=
  { descAddr, availAddr, usedAddr, queueSize, lastAvailIdx := 0 }

def setAvailBase (vq : Virtqueue) (idx : UInt16) : Virtqueue := { vq with lastAvailIdx := idx }

def availBase (vq : Virtqueue) : UInt16 := vq.lastAvailIdx

/-- Why `pop_avail` gives no answer: an error, or the division by a queue size of 0. -/
inductive PopStop where
  | error (e : VirtqueueError)
  | panic
  deriving DecidableEq, Repr

/-- `Virtqueue::pop_avail`: the head, if the guest has published one, and the queue after
it. -/
def popAvail (vq : Virtqueue) (mem : GuestMemory) : Except PopStop (Option UInt16 × Virtqueue) :=
  match mem.readU16 .user (vq.availAddr + 2) with
  | none => .error (.error .outOfBounds)
  | some availIdx =>
    if availIdx = vq.lastAvailIdx then .ok (none, vq)
    else if vq.queueSize = 0 then .error .panic
    else
      let slot := vq.lastAvailIdx % vq.queueSize
      let ringOffset := AVAIL_RING_OFFSET + slot.toUInt64 * 2
      match mem.readU16 .user (vq.availAddr + ringOffset) with
      | none => .error (.error .outOfBounds)
      | some head => .ok (some head, { vq with lastAvailIdx := vq.lastAvailIdx + 1 })

/-- One descriptor of the table: address, length, flags and next index. -/
def readDesc (vq : Virtqueue) (mem : GuestMemory) (idx : UInt16) :
    Option (UInt64 × UInt32 × UInt16 × UInt16) := do
  let descOff := vq.descAddr + idx.toUInt64 * DESC_LEN
  let addr ← mem.readU64 .user descOff
  let len ← mem.readU32 .user (descOff + 8)
  let flags ← mem.readU16 .user (descOff + 12)
  let next ← mem.readU16 .user (descOff + 14)
  pure (addr, len, flags, next)

/-- The loop of `Virtqueue::read_chain`, with the number of descriptors still allowed. -/
def readChainFrom (vq : Virtqueue) (mem : GuestMemory) :
    ℕ → UInt16 → DescChain → Except VirtqueueError DescChain
  | 0, _, _ => .error .chainTooLong
  | n + 1, idx, chain =>
    match vq.readDesc mem idx with
    | none => .error .outOfBounds
    | some (addr, len, flags, next) =>
      if flags &&& VIRTQ_DESC_F_INDIRECT ≠ 0 then .error .indirectUnsupported
      else
        let chain :=
          if flags &&& VIRTQ_DESC_F_WRITE ≠ 0 then
            { chain with writable := chain.writable ++ [(addr, len.toUInt64)] }
          else { chain with readable := chain.readable ++ [(addr, len.toUInt64)] }
        if flags &&& VIRTQ_DESC_F_NEXT = 0 then .ok chain
        else vq.readChainFrom mem n next chain

def readChain (vq : Virtqueue) (mem : GuestMemory) (head : UInt16) :
    Except VirtqueueError DescChain :=
  vq.readChainFrom mem MAX_CHAIN_LEN head ⟨head, [], []⟩

def pushUsed (vq : Virtqueue) (head : UInt16) (writtenLen : UInt32) : MemM Unit := do
  let usedIdx ← inBounds fun mem => mem.readU16 .user (vq.usedAddr + 2)
  let slot := usedIdx % vq.queueSize
  let elemOff := vq.usedAddr + USED_RING_OFFSET + slot.toUInt64 * USED_ELEM_LEN
  writeU32 .user elemOff head.toUInt32
  writeU32 .user (elemOff + 4) writtenLen
  writeU16 .user (vq.usedAddr + 2) (usedIdx + 1)

end Virtqueue

/-- The loop of `Virtqueue::gather_readable`. -/
def gatherSegments (mem : GuestMemory) : List Segment → List UInt8 → Except VirtqueueError (List UInt8)
  | [], buf => .ok buf
  | (addr, len) :: rest, buf =>
    match mem.getSlice .gpa addr len with
    | none => .error .outOfBounds
    | some s => gatherSegments mem rest (buf ++ s)

def gatherReadable (mem : GuestMemory) (chain : DescChain) : Except VirtqueueError (List UInt8) :=
  gatherSegments mem chain.readable []

/-- The loop of `Virtqueue::gather_readable_prefix`. -/
def gatherPrefix (mem : GuestMemory) (maxLen : ℕ) :
    List Segment → List UInt8 → Except VirtqueueError (List UInt8)
  | [], buf => .ok buf
  | (addr, len) :: rest, buf =>
    if buf.length ≥ maxLen then .ok buf
    else
      let want := min (maxLen - buf.length) len.toNat
      match mem.getSlice .gpa addr (.ofNat want) with
      | none => .error .outOfBounds
      | some s => gatherPrefix mem maxLen rest (buf ++ s)

def gatherReadablePrefix (mem : GuestMemory) (chain : DescChain) (maxLen : ℕ) :
    Except VirtqueueError (List UInt8) :=
  gatherPrefix mem maxLen chain.readable []

/-- The loop of `Virtqueue::scatter_writable`. -/
def scatterSegments : List Segment → List UInt8 → UInt32 → MemM UInt32
  | [], _, written => pure written
  | (addr, len) :: rest, remaining, written =>
    if remaining = [] then pure written
    else do
      let n := min remaining.length len.toNat
      copyIntoSlice .gpa addr (.ofNat n) (remaining.take n)
      scatterSegments rest (remaining.drop n) (written + .ofNat n)

def scatterWritable (chain : DescChain) (data : List UInt8) : MemM UInt32 :=
  scatterSegments chain.writable data 0

/-- `Virtqueue::iovecs_from`: start and length of each buffer in the server's memory. -/
def iovecsFrom (mem : GuestMemory) :
    List Segment → UInt64 → UInt64 → Except VirtqueueError (List (ℕ × ℕ))
  | [], _, _ => .ok []
  | (addr, len) :: rest, skip, remaining =>
    if remaining = 0 then .ok []
    else if skip ≥ len then iovecsFrom mem rest (skip - len) remaining
    else
      let start := addr + skip
      let segLen := min (len - skip) remaining
      match mem.slicePtr .gpa start segLen with
      | none => .error .outOfBounds
      | some p =>
        match iovecsFrom mem rest 0 (remaining - segLen) with
        | .error e => .error e
        | .ok iovecs => .ok ((p, segLen.toNat) :: iovecs)

end Riftlessfs.VhostUser
