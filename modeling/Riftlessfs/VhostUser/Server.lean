import Riftlessfs.VhostUser.ProcessVring

/-! The server: its rings, and what each control message does to them. -/
namespace Riftlessfs.VhostUser
open Lib.Effect Riftlessfs.Core Riftlessfs.Proto Riftlessfs.Fuse

def PROTOCOL_FEATURES : UInt64 := 0
def VIRTIO_F_VERSION_1 : UInt64 := (1 : UInt64) <<< 32
def VIRTIO_FEATURES : UInt64 := (1 : UInt64) <<< 30 ||| VIRTIO_F_VERSION_1

/-- Total vrings: hiprio and the request queue. -/
def NUM_QUEUES : ℕ := 2

structure VringSlot where
  queueSize : Option UInt16
  pendingAvailBase : UInt16
  vq : Option Virtqueue
  kickFd : Option RawFd
  callFd : Option RawFd
  enabled : Bool
  deriving DecidableEq, Repr

def VringSlot.default : VringSlot := ⟨none, 0, none, none, none, false⟩

def VringSlot.maybeBuild (slot : VringSlot) (addr : VringAddr) : VringSlot :=
  match slot.queueSize with
  | some qs =>
    let vq := (Virtqueue.new qs addr.descriptor addr.avail addr.used).setAvailBase
      slot.pendingAvailBase
    { slot with vq := some vq }
  | none => slot

/-- `Server`, with the replies it has sent and the descriptors it has received and not
closed. -/
structure Server where
  mem : Option GuestMemory
  vrings : List VringSlot
  session : Session
  sent : List (MsgHeader × Bytes)
  openFds : List RawFd

/-- What the host decides while a message is handled: how memory is mapped, and whether a
reply can be sent. -/
structure MsgEnv where
  map : MapEnv
  send : Option ProtoError

def takeFd (fds : List RawFd) (noFd : Bool) : Option RawFd :=
  if noFd then none else fds.head?

namespace Server

def new (session : Session) : Server :=
  ⟨none, List.replicate NUM_QUEUES .default, session, [], []⟩

def reply (env : MsgEnv) (srv : Server) (request : Request) (body : Bytes) :
    Except ProtoError Server :=
  match env.send with
  | some e => .error e
  | none =>
    .ok { srv with sent := srv.sent ++ [(MsgHeader.reply request (.ofNat body.length), body)] }

/-- `if let Some(slot) = self.vrings.get_mut(i)`. -/
def onSlot (srv : Server) (i : ℕ) (f : VringSlot → VringSlot) : Server :=
  { srv with vrings := srv.vrings.modify i f }

/-- Dropping an `OwnedFd` closes it. -/
def close (srv : Server) (fd : Option RawFd) : Server :=
  { srv with openFds := fd.elim srv.openFds srv.openFds.erase }

/-- The body of `handle_one_message` for a known request. -/
def dispatch (env : MsgEnv) (srv : Server) (m : Message) : Request → Except ProtoError Server
  | .getFeatures => srv.reply env .getFeatures (U64Payload.toBytes VIRTIO_FEATURES)
  | .setFeatures => do
    let _ ← U64Payload.fromBytes m.payload
    pure srv
  | .setOwner => pure srv
  | .resetOwner => pure srv
  | .getProtocolFeatures => srv.reply env .getProtocolFeatures (U64Payload.toBytes PROTOCOL_FEATURES)
  | .setProtocolFeatures => pure srv
  | .getQueueNum => srv.reply env .getQueueNum (U64Payload.toBytes (.ofNat NUM_QUEUES))
  | .setMemTable => do
    let regions ← MemoryRegions.fromBytes m.payload
    if regions.length ≠ m.fds.length then .error .truncated
    else match mapRegions env.map regions m.fds with
      | .error e => .error (.io e)
      | .ok mem => pure { srv with mem := some mem }
  | .setVringNum => do
    let s ← VringState.fromBytes m.payload
    pure (srv.onSlot s.index.toNat fun slot => { slot with queueSize := some s.num.toUInt16 })
  | .setVringAddr => do
    let a ← VringAddr.fromBytes m.payload
    pure (srv.onSlot a.index.toNat fun slot => slot.maybeBuild a)
  | .setVringBase => do
    let s ← VringState.fromBytes m.payload
    pure (srv.onSlot s.index.toNat fun slot =>
      { slot with
        pendingAvailBase := s.num.toUInt16
        vq := slot.vq.map fun vq => vq.setAvailBase s.num.toUInt16 })
  | .getVringBase => do
    let s ← VringState.fromBytes m.payload
    let base := ((srv.vrings[s.index.toNat]?.bind VringSlot.vq).map Virtqueue.availBase).getD 0
    srv.reply env .getVringBase (VringState.toBytes ⟨s.index, base.toUInt32⟩)
  | .setVringKick => do
    let p ← VringFdPayload.fromBytes m.payload
    let old := srv.vrings[p.index.toNat]?.bind VringSlot.kickFd
    pure ((srv.close old).onSlot p.index.toNat fun slot =>
      { slot with kickFd := takeFd m.fds p.noFd })
  | .setVringCall => do
    let p ← VringFdPayload.fromBytes m.payload
    let old := srv.vrings[p.index.toNat]?.bind VringSlot.callFd
    pure ((srv.close old).onSlot p.index.toNat fun slot =>
      { slot with callFd := takeFd m.fds p.noFd })
  | .setVringErr => do
    let p ← VringFdPayload.fromBytes m.payload
    pure (srv.close (takeFd m.fds p.noFd))
  | .setVringEnable => do
    let s ← VringState.fromBytes m.payload
    pure (srv.onSlot s.index.toNat fun slot => { slot with enabled := s.num != 0 })
  | .setLogBase => pure srv
  | .setLogFd => pure srv

/-- `Server::handle_one_message` once `recv` has returned a message. -/
def handleOneMessage (env : MsgEnv) (srv : Server) (m : Message) : Except ProtoError Server :=
  let srv := { srv with openFds := srv.openFds ++ m.fds }
  match Request.tryFrom m.header.request with
  | .error _ => .ok srv
  | .ok request => srv.dispatch env m request

end Server

inductive RingMsg where
  | num (n : UInt32)
  | addr (a : VringAddr)
  | base (n : UInt32)
  | getBase
  | kick (fd : Option RawFd)
  | call (fd : Option RawFd)
  | enable (n : UInt32)
  deriving DecidableEq, Repr

/-- The ring after what a message asks of it. -/
def RingMsg.apply : RingMsg → VringSlot → VringSlot
  | .num n, slot => { slot with queueSize := some n.toUInt16 }
  | .addr a, slot => slot.maybeBuild a
  | .base n, slot =>
    { slot with
      pendingAvailBase := n.toUInt16
      vq := slot.vq.map fun vq => vq.setAvailBase n.toUInt16 }
  | .getBase, slot => slot
  | .kick fd, slot => { slot with kickFd := fd }
  | .call fd, slot => { slot with callFd := fd }
  | .enable n, slot => { slot with enabled := n != 0 }

def Message.ringMsg (m : Message) : Option (ℕ × RingMsg) :=
  match Request.tryFrom m.header.request with
  | .ok .setVringNum => (VringState.fromBytes m.payload).toOption.map fun s =>
      (s.index.toNat, .num s.num)
  | .ok .setVringAddr => (VringAddr.fromBytes m.payload).toOption.map fun a =>
      (a.index.toNat, .addr a)
  | .ok .setVringBase => (VringState.fromBytes m.payload).toOption.map fun s =>
      (s.index.toNat, .base s.num)
  | .ok .getVringBase => (VringState.fromBytes m.payload).toOption.map fun s =>
      (s.index.toNat, .getBase)
  | .ok .setVringKick => (VringFdPayload.fromBytes m.payload).toOption.map fun p =>
      (p.index.toNat, .kick (takeFd m.fds p.noFd))
  | .ok .setVringCall => (VringFdPayload.fromBytes m.payload).toOption.map fun p =>
      (p.index.toNat, .call (takeFd m.fds p.noFd))
  | .ok .setVringEnable => (VringState.fromBytes m.payload).toOption.map fun s =>
      (s.index.toNat, .enable s.num)
  | _ => none

def Message.onRings (m : Message) (vrings : List VringSlot) : List VringSlot :=
  match m.ringMsg with
  | some (i, r) => vrings.modify i r.apply
  | none => vrings

section Effect
variable {env : MsgEnv} {srv srv' : Server} {m : Message}

theorem reply_ok {request : Request} {body : Bytes} (h : srv.reply env request body = .ok srv') :
    srv' = { srv with sent := srv.sent ++ [(MsgHeader.reply request (.ofNat body.length), body)] } := by
  unfold Server.reply at h
  split at h
  · cases h
  · cases h
    rfl

/-- A message that is handled does to the rings what it asks of one of them. -/
theorem handleOneMessage_vrings (h : srv.handleOneMessage env m = .ok srv') :
    srv'.vrings = m.onRings srv.vrings := by
  unfold Message.onRings Message.ringMsg
  unfold Server.handleOneMessage at h
  cases hreq : Request.tryFrom m.header.request with
  | error e =>
    rw [hreq] at h
    cases h
    rfl
  | ok request =>
    rw [hreq] at h
    simp only at h
    cases request with
    | getFeatures | getProtocolFeatures | getQueueNum =>
      rw [reply_ok h]
    | setOwner | resetOwner | setProtocolFeatures | setLogBase | setLogFd =>
      cases h
      rfl
    | setFeatures | setVringErr =>
      obtain ⟨_, -, h⟩ := except_bind_ok h
      cases h
      rfl
    | setMemTable =>
      obtain ⟨regions, -, h⟩ := except_bind_ok h
      split at h
      · cases h
      split at h
      · cases h
      · cases h
        rfl
    | getVringBase =>
      obtain ⟨s, hs, h⟩ := except_bind_ok h
      rw [hs, reply_ok h]
      exact (List.modify_id s.index.toNat srv.vrings).symm
    | setVringNum | setVringAddr | setVringBase | setVringKick | setVringCall | setVringEnable =>
      obtain ⟨s, hs, h⟩ := except_bind_ok h
      cases h
      rw [hs]
      rfl

end Effect

end Riftlessfs.VhostUser
