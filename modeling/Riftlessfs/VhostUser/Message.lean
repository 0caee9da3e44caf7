import Riftlessfs.Fuse.Layout

/-! The vhost-user messages: the header, the request codes and the payload structs. -/
namespace Riftlessfs.VhostUser
open Lib.LittleEndian Riftlessfs.Proto Riftlessfs.Fuse

def HEADER_LEN : ℕ := 12
def FLAG_VERSION_1 : UInt32 := 0x1
def FLAG_REPLY : UInt32 := 0x4

/-- The request codes the back-end understands. -/
inductive Request where
  | getFeatures | setFeatures | setOwner | resetOwner | setMemTable | setLogBase | setLogFd
  | setVringNum | setVringAddr | setVringBase | getVringBase | setVringKick | setVringCall
  | setVringErr | getProtocolFeatures | setProtocolFeatures | getQueueNum | setVringEnable
  deriving DecidableEq, Repr

/-- `request as u32`. -/
def Request.code : Request → UInt32
  | .getFeatures => 1
  | .setFeatures => 2
  | .setOwner => 3
  | .resetOwner => 4
  | .setMemTable => 5
  | .setLogBase => 6
  | .setLogFd => 7
  | .setVringNum => 8
  | .setVringAddr => 9
  | .setVringBase => 10
  | .getVringBase => 11
  | .setVringKick => 12
  | .setVringCall => 13
  | .setVringErr => 14
  | .getProtocolFeatures => 15
  | .setProtocolFeatures => 16
  | .getQueueNum => 17
  | .setVringEnable => 18

def Request.tryFrom (v : UInt32) : Except ProtoError Request :=
  match v.toNat with
  | 1 => .ok .getFeatures
  | 2 => .ok .setFeatures
  | 3 => .ok .setOwner
  | 4 => .ok .resetOwner
  | 5 => .ok .setMemTable
  | 6 => .ok .setLogBase
  | 7 => .ok .setLogFd
  | 8 => .ok .setVringNum
  | 9 => .ok .setVringAddr
  | 10 => .ok .setVringBase
  | 11 => .ok .getVringBase
  | 12 => .ok .setVringKick
  | 13 => .ok .setVringCall
  | 14 => .ok .setVringErr
  | 15 => .ok .getProtocolFeatures
  | 16 => .ok .setProtocolFeatures
  | 17 => .ok .getQueueNum
  | 18 => .ok .setVringEnable
  | _ => .error (.unknownRequest v)

theorem Request.tryFrom_code (r : Request) : Request.tryFrom r.code = .ok r := by
  cases r <;> rfl

structure MsgHeader where
  request : UInt32
  flags : UInt32
  size : UInt32
  deriving DecidableEq, Repr

namespace MsgHeader

def new (request : Request) (flags size : UInt32) : MsgHeader :=
  { request := request.code, flags := flags ||| FLAG_VERSION_1, size }

def reply (request : Request) (size : UInt32) : MsgHeader := new request FLAG_REPLY size

def toBytes (h : MsgHeader) : Bytes :=
  leBytes 4 h.request.toNat ++ (leBytes 4 h.flags.toNat ++ leBytes 4 h.size.toNat)

/-- `MsgHeader::from_bytes` of a buffer of `HEADER_LEN` bytes. -/
def fromBytes (buf : Bytes) : MsgHeader where
  request := .ofNat (natAt buf 0 4)
  flags := .ofNat (natAt buf 4 4)
  size := .ofNat (natAt buf 8 4)

@[simp] theorem toBytes_length (h : MsgHeader) : h.toBytes.length = HEADER_LEN := by
  simp [toBytes, HEADER_LEN]

end MsgHeader

/-- A descriptor received over the socket. -/
abbrev RawFd := ℕ

/-- A message as `recv` returns it. -/
structure Message where
  header : MsgHeader
  payload : Bytes
  fds : List RawFd
  deriving DecidableEq, Repr

def U64Payload.fromBytes (buf : Bytes) : Except ProtoError UInt64 :=
  if buf.length < 8 then .error .truncated else .ok (.ofNat (natAt buf 0 8))

def U64Payload.toBytes (v : UInt64) : Bytes := leBytes 8 v.toNat

structure VringState where
  index : UInt32
  num : UInt32
  deriving DecidableEq, Repr

namespace VringState

def toBytes (s : VringState) : Bytes := leBytes 4 s.index.toNat ++ leBytes 4 s.num.toNat

def fromBytes (buf : Bytes) : Except ProtoError VringState :=
  if buf.length < 8 then .error .truncated
  else .ok ⟨.ofNat (natAt buf 0 4), .ofNat (natAt buf 4 4)⟩

end VringState

structure VringAddr where
  index : UInt32
  flags : UInt32
  descriptor : UInt64
  used : UInt64
  avail : UInt64
  log : UInt64
  deriving DecidableEq, Repr

namespace VringAddr

def toBytes (a : VringAddr) : Bytes :=
  leBytes 4 a.index.toNat ++ (leBytes 4 a.flags.toNat ++ (leBytes 8 a.descriptor.toNat ++
    (leBytes 8 a.used.toNat ++ (leBytes 8 a.avail.toNat ++ leBytes 8 a.log.toNat))))

def fromBytes (buf : Bytes) : Except ProtoError VringAddr :=
  if buf.length < 40 then .error .truncated
  else .ok
    { index := .ofNat (natAt buf 0 4)
      flags := .ofNat (natAt buf 4 4)
      descriptor := .ofNat (natAt buf 8 8)
      used := .ofNat (natAt buf 16 8)
      avail := .ofNat (natAt buf 24 8)
      log := .ofNat (natAt buf 32 8) }

end VringAddr

/-- Set in the index word of `SET_VRING_KICK`, `CALL` and `ERR` when no fd comes along. -/
def VRING_NOFD_MASK : UInt64 := 0x100

structure VringFdPayload where
  index : UInt8
  noFd : Bool
  deriving DecidableEq, Repr

namespace VringFdPayload

def fromBytes (buf : Bytes) : Except ProtoError VringFdPayload := do
  let u ← U64Payload.fromBytes buf
  pure ⟨(u &&& 0xff).toUInt8, u &&& VRING_NOFD_MASK != 0⟩

def toBytes (p : VringFdPayload) : Bytes :=
  let v := p.index.toUInt64
  U64Payload.toBytes (if p.noFd then v ||| VRING_NOFD_MASK else v)

end VringFdPayload

structure MemoryRegion where
  guestPhysAddr : UInt64
  memorySize : UInt64
  userspaceAddr : UInt64
  mmapOffset : UInt64
  deriving DecidableEq, Repr

namespace MemoryRegion

def fromBytes (buf : Bytes) : Except ProtoError MemoryRegion :=
  if buf.length < 32 then .error .truncated
  else .ok
    { guestPhysAddr := .ofNat (natAt buf 0 8)
      memorySize := .ofNat (natAt buf 8 8)
      userspaceAddr := .ofNat (natAt buf 16 8)
      mmapOffset := .ofNat (natAt buf 24 8) }

def toBytes (r : MemoryRegion) : Bytes :=
  leBytes 8 r.guestPhysAddr.toNat ++ (leBytes 8 r.memorySize.toNat ++
    (leBytes 8 r.userspaceAddr.toNat ++ leBytes 8 r.mmapOffset.toNat))

end MemoryRegion

/-- The loop of `MemoryRegions::from_bytes`: `count` entries from `offset` on. -/
def MemoryRegions.readFrom (buf : Bytes) : ℕ → ℕ → Except ProtoError (List MemoryRegion)
  | 0, _ => .ok []
  | count + 1, offset =>
    if offset + 32 ≤ buf.length then do
      let region ← MemoryRegion.fromBytes ((buf.drop offset).take 32)
      let rest ← readFrom buf count (offset + 32)
      pure (region :: rest)
    else .error .truncated

/-- `MemoryRegions::from_bytes`, when it has the room it reserves. -/
def MemoryRegions.fromBytes (buf : Bytes) : Except ProtoError (List MemoryRegion) :=
  if buf.length < 8 then .error .truncated
  else readFrom buf (natAt buf 0 4) 8

/-- The elements `MemoryRegions::from_bytes` reserves: `Vec::with_capacity(count)` after the check
of the length, nothing if that fails. -/
def memoryRegionsReserves (buf : Bytes) : ℕ :=
  if buf.length < 8 then 0 else natAt buf 0 4

/-- `MemoryRegions::from_bytes` with the reservation, 32 bytes an entry. -/
def MemoryRegions.fromBytesOrAbort (grants : ℕ → Bool) (buf : Bytes) :
    Option (Except ProtoError (List MemoryRegion)) :=
  Core.reserving grants (32 * memoryRegionsReserves buf) (MemoryRegions.fromBytes buf)

def MemoryRegions.toBytes (regions : List MemoryRegion) : Bytes :=
  leBytes 4 (UInt32.ofNat regions.length).toNat ++ (leBytes 4 0 ++
    (regions.map MemoryRegion.toBytes).flatten)

section Codec

theorem VringState.fromBytes_toBytes (s : VringState) (t : Bytes) :
    VringState.fromBytes (s.toBytes ++ t) = .ok s := by
  have hindex : s.index.toNat < 256 ^ 4 := s.index.toNat_lt
  have hnum : s.num.toNat < 256 ^ 4 := s.num.toNat_lt
  unfold fromBytes toBytes
  rw [if_neg (by simp; omega), List.append_assoc, natAt_append_left (by simp), natAt_leBytes hindex,
    natAt_append_right (by simp), natAt_append_left (by simp), leBytes_length, Nat.sub_self,
    natAt_leBytes hnum, UInt32.ofNat_toNat, UInt32.ofNat_toNat]

theorem VringAddr.fromBytes_toBytes (a : VringAddr) (t : Bytes) :
    VringAddr.fromBytes (a.toBytes ++ t) = .ok a := by
  have h₁ : a.index.toNat < 256 ^ 4 := a.index.toNat_lt
  have h₂ : a.flags.toNat < 256 ^ 4 := a.flags.toNat_lt
  have h₃ : a.descriptor.toNat < 256 ^ 8 := a.descriptor.toNat_lt
  have h₄ : a.used.toNat < 256 ^ 8 := a.used.toNat_lt
  have h₅ : a.avail.toNat < 256 ^ 8 := a.avail.toNat_lt
  have h₆ : a.log.toNat < 256 ^ 8 := a.log.toNat_lt
  unfold fromBytes toBytes
  rw [if_neg (by simp; omega)]
  simp (disch := simp) only [List.append_assoc, natAt_append_left, natAt_append_right,
    leBytes_length, Nat.reduceSub, natAt_leBytes h₁, natAt_leBytes h₂, natAt_leBytes h₃,
    natAt_leBytes h₄, natAt_leBytes h₅, natAt_leBytes h₆, UInt32.ofNat_toNat, UInt64.ofNat_toNat]

theorem MsgHeader.fromBytes_toBytes (h : MsgHeader) : MsgHeader.fromBytes h.toBytes = h := by
  have h₁ : h.request.toNat < 256 ^ 4 := h.request.toNat_lt
  have h₂ : h.flags.toNat < 256 ^ 4 := h.flags.toNat_lt
  have h₃ : h.size.toNat < 256 ^ 4 := h.size.toNat_lt
  unfold fromBytes toBytes
  rw [natAt_append_left (by simp), natAt_append_right (by simp), natAt_append_left (by simp),
    natAt_append_right (by simp), natAt_append_right (by simp), natAt_leBytes h₁]
  simp only [leBytes_length, Nat.sub_self, Nat.reduceSub]
  rw [natAt_leBytes h₂, natAt_leBytes h₃, UInt32.ofNat_toNat, UInt32.ofNat_toNat,
    UInt32.ofNat_toNat]

end Codec

end Riftlessfs.VhostUser
