import Mathlib.Data.UInt
import Riftlessfs.VhostUser.Virtqueue
import Riftlessfs.Fuse.Dispatch

/-! Serving one descriptor chain: the plain path, and the zero-copy paths of `WRITE` and
`READ`. -/
namespace Riftlessfs.VhostUser
open Lib.Flat Riftlessfs.Core Riftlessfs.Proto Riftlessfs.Fuse

/-- Why serving stops: an error `run` returns, or a panic. -/
inductive Halt where
  | error (e : ProtoError)
  | panic
  deriving DecidableEq, Repr

/-- What serving a chain acts on. -/
structure Device where
  session : Session
  mem : GuestMemory

/-- A computation on the session and guest memory. -/
abbrev ServeM := EStateM Halt Device

section Lift
variable {α : Type}

def onMem (m : MemM α) : ServeM α := fun d =>
  match m d.mem with
  | .ok a mem => .ok a { d with mem := mem }
  | .error e mem => .error (.error (.virtqueue e)) { d with mem := mem }

def onQueue (f : GuestMemory → Except VirtqueueError α) : ServeM α := fun d =>
  match f d.mem with
  | .ok a => .ok a d
  | .error e => .error (.error (.virtqueue e)) d

def onFs (m : FsM α) : ServeM (Except FsError α) := fun d =>
  match m d.session.world with
  | .ok a w => .ok (.ok a) { d with session := { d.session with world := w } }
  | .error (.fail e) w => .ok (.error e) { d with session := { d.session with world := w } }
  | .error .panic w => .error .panic { d with session := { d.session with world := w } }

def onSession (env : Env) (request : Bytes) : ServeM Reply := fun d =>
  match Session.handle env d.session request with
  | (some reply, s) => .ok reply { d with session := s }
  | (none, s) => .error .panic { d with session := s }

end Lift

/-- The fixed-size prefix before the payload of a `WRITE` request. -/
def REQUEST_HEADER_LEN : ℕ := IN_HEADER_LEN + 40

def dispatchGeneric (env : Env) (chain : DescChain) : ServeM UInt32 := do
  let request ← onQueue fun mem => gatherReadable mem chain
  let reply ← onSession env request
  match reply with
  | .bytes bytes => onMem (scatterWritable chain bytes)
  | .none => pure 0

/-- The reply to an engine call: its result as `enc` encodes it, or its errno. -/
def wireReply {α : Type} (unique : UInt64) (enc : α → Bytes) : Except FsError α → Bytes
  | .ok a => OutHeader.reply unique 0 (enc a)
  | .error e => OutHeader.errorFor unique e.errno

/-- `try_write_zero_copy`; `none` when the header does not parse. -/
def tryWriteZeroCopy (env : Env) (chain : DescChain) (headerPrefix : Bytes) :
    Option (ServeM UInt32) :=
  match InHeader.fromBytes headerPrefix, WriteIn.fromBytes (InHeader.body headerPrefix) with
  | .ok header, .ok (w, _) => some do
    let iov ← onQueue fun mem =>
      iovecsFrom mem chain.readable (.ofNat REQUEST_HEADER_LEN) w.size.toUInt64
    let mem := (← get).mem
    let bufs := iov.map fun v => load mem.bytes v.1 v.2
    let result ← onFs (PassthroughFs.writeVectored env w.fh w.offset bufs)
    onMem (scatterWritable chain (wireReply header.unique (fun n => writeOut (.ofNat n)) result))
  | _, _ => none

/-- `try_read_zero_copy`; `none` when the header does not parse. The kernel stores what it
reads into the buffers in order. -/
def tryReadZeroCopy (env : Env) (chain : DescChain) (headerPrefix : Bytes) :
    Option (ServeM UInt32) :=
  match InHeader.fromBytes headerPrefix, ReadIn.fromBytes (InHeader.body headerPrefix) with
  | .ok header, .ok r => some do
    let writableCapacity := (chain.writable.map Prod.snd).sum
    let payloadCapacity :=
      if writableCapacity ≤ .ofNat OUT_HEADER_LEN then 0
      else writableCapacity - .ofNat OUT_HEADER_LEN
    let want := min r.size.toUInt64 payloadCapacity
    let iov ← onQueue fun mem => iovecsFrom mem chain.writable (.ofNat OUT_HEADER_LEN) want
    let result ← onFs (PassthroughFs.readVectored env r.fh r.offset (iov.map Prod.snd))
    match result with
    | .ok bytes => do
      modify fun d => { d with mem := { d.mem with bytes := scatter d.mem.bytes iov bytes } }
      let n := bytes.length
      let headerWritten ← onMem (scatterWritable chain
        (OutHeader.successHeaderOnly header.unique (.ofNat (OUT_HEADER_LEN + n))))
      pure (headerWritten + .ofNat n)
    | .error e => onMem (scatterWritable chain (OutHeader.errorFor header.unique e.errno))
  | _, _ => none

def peekOpcode (headerPrefix : Bytes) : Opcode :=
  if 8 ≤ headerPrefix.length then Opcode.ofU32 (.ofNat (natAt headerPrefix 4 4))
  else .unknown 0

def servePath (env : Env) (chain : DescChain) (headerPrefix : Bytes) : Opcode → ServeM UInt32
  | .write => (tryWriteZeroCopy env chain headerPrefix).getD (dispatchGeneric env chain)
  | .read => (tryReadZeroCopy env chain headerPrefix).getD (dispatchGeneric env chain)
  | _ => dispatchGeneric env chain

/-- What `process_vring` does with a chain, up to the used length it pushes. -/
def serveChain (env : Env) (chain : DescChain) : ServeM UInt32 := do
  let headerPrefix ← onQueue fun mem => gatherReadablePrefix mem chain REQUEST_HEADER_LEN
  servePath env chain headerPrefix (peekOpcode headerPrefix)

end Riftlessfs.VhostUser
