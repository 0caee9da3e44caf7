import Riftlessfs.Lib.Ring
import Riftlessfs.Lib.Run
import Riftlessfs.VhostUser.QueueWords
import Riftlessfs.VhostUser.ProcessVring

/-! A guest and the server on one split virtqueue, taking steps in any order. -/
namespace Riftlessfs.VhostUser
open Lib.Flat Lib.Effect Lib.Ring Lib.Run Riftlessfs.Core Riftlessfs.Proto Riftlessfs.Fuse

/-- The server's part is the device, the queue and where in `process_vring` it stands; the guest's
are its two indices, the head it has written and not yet published, and the logs of what it
published and consumed. -/
structure Pair where
  device : Device
  vq : Virtqueue
  turn : Option Turn
  availNext : UInt16
  usedNext : UInt16
  offered : Option UInt16
  published : List UInt16
  consumed : List UInt32

/-- A step of the guest (write a slot, publish it, look for a used element, write anywhere else) or
of the server. -/
inductive Act where
  | offer (head : UInt16)
  | publish
  | consume
  | touch (p : ℕ) (bs : Bytes)
  | serve (env : Env)

namespace Pair

def mem (s : Pair) : GuestMemory := s.device.mem

def onGuest (s : Pair) (m : MemM Unit) : Option Pair :=
  match m s.mem with
  | .ok _ mem => some { s with device := { s.device with mem := mem } }
  | .error _ _ => none

/-- The guest keeps at most as many chains outstanding as the queue has slots. -/
def offer (s : Pair) (head : UInt16) : Option Pair :=
  if s.offered = none ∧ s.published.length < s.consumed.length + s.vq.queueSize.toNat then
    (s.onGuest (writeU16 .user (s.vq.availSlot s.availNext) head)).map fun s =>
      { s with offered := some head }
  else none

def publish (s : Pair) : Option Pair :=
  match s.offered with
  | none => none
  | some head =>
    (s.onGuest (writeU16 .user (s.vq.availAddr + 2) (s.availNext + 1))).map fun s =>
      { s with availNext := s.availNext + 1, offered := none, published := s.published ++ [head] }

def consume (s : Pair) : Option Pair := do
  let usedIdx ← s.mem.readU16 .user (s.vq.usedAddr + 2)
  if usedIdx = s.usedNext then some s
  else do
    let id ← s.mem.readU32 .user (s.vq.usedElem s.usedNext)
    some { s with usedNext := s.usedNext + 1, consumed := s.consumed ++ [id] }

/-- The server enters `process_vring`, or takes its next step in it. -/
def serve (s : Pair) (env : Env) : Option Pair :=
  match s.turn with
  | none => some { s with turn := some .popAvail }
  | some turn =>
    match turnStep env s.vq turn s.device with
    | .ok (vq, turn) d => some { s with device := d, vq := vq, turn := turn }
    | .error _ _ => none

def step (s : Pair) : Act → Option Pair
  | .offer head => s.offer head
  | .publish => s.publish
  | .consume => s.consume
  | .touch p bs => some { s with device := { s.device with mem := s.mem.poke p bs } }
  | .serve env => s.serve env

/-- The buffers of a chain being served, and what else the guest writes, are clear of the rings. -/
def Orderly (s : Pair) : Act → Prop
  | .touch p bs => ClearOfRings s.mem s.vq p bs.length
  | .serve _ => ∀ head chain, s.turn = some (.service head chain) →
    ∀ x, InBuffers s.mem chain.writable x → ClearOfRings s.mem s.vq x 1
  | _ => True

def usedFrom (s : Pair) : ℕ → UInt16 → Option (List UInt32)
  | 0, _ => some []
  | n + 1, idx => do
    let id ← s.mem.readU32 .user (s.vq.usedElem idx)
    let ids ← s.usedFrom n (idx + 1)
    some (id :: ids)

/-- The used elements that the guest has not consumed yet. -/
def unread (s : Pair) : Option (List UInt32) := do
  let usedIdx ← s.mem.readU16 .user (s.vq.usedAddr + 2)
  s.usedFrom (usedIdx - s.usedNext).toNat s.usedNext

/-- Nothing was published yet, and all indices are equal. -/
structure Fresh (s : Pair) : Prop where
  turn : s.turn = none
  offered : s.offered = none
  published : s.published = []
  consumed : s.consumed = []
  availNext : s.availNext = s.vq.lastAvailIdx
  usedNext : s.usedNext = s.vq.lastAvailIdx
  availIdx : s.mem.readU16 .user (s.vq.availAddr + 2) = some s.vq.lastAvailIdx
  usedIdx : s.mem.readU16 .user (s.vq.usedAddr + 2) = some s.vq.lastAvailIdx

/-- The layout that no step changes. -/
structure Laid (s : Pair) : Prop where
  hostApart : s.mem.HostApart
  ringsApart : s.vq.RingsApart
  size : ∃ k, k ≤ 15 ∧ s.vq.queueSize.toNat = 2 ^ k

def serving (s : Pair) : List UInt16 :=
  match s.turn with
  | none | some .popAvail => []
  | some (.readChain head) | some (.service head _) | some (.pushUsed head _) => [head]

/-- Each published head is consumed, in the used ring, with the server or in the available ring, in
this order, and the indices say which. -/
structure InOrder (s : Pair) (base : ℕ) (taken served waiting : List UInt16) : Prop where
  published : s.published = taken ++ (served ++ (s.serving ++ waiting))
  consumed : s.consumed = taken.map UInt16.toUInt32
  room : served.length + (s.serving.length + (waiting.length + s.offered.toList.length)) ≤
    s.vq.queueSize.toNat
  availNext : s.availNext = .ofNat (base + s.published.length)
  usedNext : s.usedNext = .ofNat (base + taken.length)
  lastAvail : s.vq.lastAvailIdx =
    .ofNat (base + taken.length + served.length + s.serving.length)
  availIdx : (s.vq.view s.mem).availIdx = some (.ofNat (base + s.published.length))
  usedIdx : (s.vq.view s.mem).usedIdx = some (.ofNat (base + taken.length + served.length))
  avail : Holds (s.vq.view s.mem).avail s.vq.queueSize.toNat
    (base + taken.length + served.length + s.serving.length) (waiting ++ s.offered.toList)
  used : Holds (s.vq.view s.mem).used s.vq.queueSize.toNat (base + taken.length)
    (served.map UInt16.toUInt32)

end Pair

end Riftlessfs.VhostUser
