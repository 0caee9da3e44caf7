import Riftlessfs.VhostUser.Server

/-! The loop of `Server::run`, interleaved with what the guest does to its memory. -/
namespace Riftlessfs.VhostUser
open Riftlessfs.Core Riftlessfs.Proto Riftlessfs.Fuse

/-- Where in its loop the server stands: about to poll, in a turn for ring `i` with the rings
`rest` still to process, or out of the loop. -/
inductive Phase where
  | polling
  | serving (i : ℕ) (rest : List ℕ) (turn : Turn) (processed : ℕ)
  | stopped (result : Except Halt Unit)

/-- Go on with the rings whose kicks were ready. -/
def Phase.next : List ℕ → Phase
  | [] => .polling
  | i :: rest => .serving i rest .popAvail 0

/-- What the server did that the rest of the world can tell. -/
inductive Happening where
  | handled (m : Message)
  | popped (ring : ℕ) (head : UInt16)
  | notified (fd : RawFd)
  deriving DecidableEq, Repr

/-- A server in its loop, with what happened so far, latest first. -/
structure Loop where
  server : Server
  phase : Phase
  history : List Happening

/-- How `poll` returns: interrupted, with an error, or with what `recv` then gives if the
socket is readable, whether it hung up, and the rings whose kick is readable. -/
inductive PollResult where
  | interrupted
  | failed (errno : ℕ)
  | ready (recv : Option (Except ProtoError Message)) (hangup : Bool) (kicked : ℕ → Bool)

/-- One thing that happens next: the guest changes its memory, `poll` returns and a message
is handled, or the server makes a step of a turn. -/
inductive Event where
  | guest (bytes : ℕ → UInt8)
  | poll (env : MsgEnv) (result : PollResult)
  | serve (env : Env)

/-- The rings that are polled: enabled, with a kick. -/
def Server.kickSlots (srv : Server) : List ℕ :=
  (List.range srv.vrings.length).filter fun i =>
    srv.vrings[i]?.any fun slot => slot.enabled && slot.kickFd.isSome

/-- The server with its session and memory as serving left them. -/
def Server.withDevice (srv : Server) (d : Device) : Server :=
  { srv with session := d.session, mem := some d.mem }

def poppedHead : Turn → Option Turn → Option UInt16
  | .popAvail, some (.readChain head) => some head
  | _, _ => none

/-- The requests processed in a turn of the loop, after one more step. -/
def countProcessed (processed : ℕ) : Turn → ℕ
  | .pushUsed .. => processed + 1
  | _ => processed

namespace Loop

def new (session : Session) : Loop := ⟨.new session, .polling, []⟩

/-- What follows when `poll` has returned with descriptors ready. -/
def onReady (env : MsgEnv) (l : Loop) (recv : Option (Except ProtoError Message)) (hangup : Bool)
    (kicked : ℕ → Bool) : Loop :=
  let phase := if hangup then .stopped (.ok ()) else .next (l.server.kickSlots.filter kicked)
  match recv with
  | none => { l with phase }
  | some (.error .disconnected) => { l with phase := .stopped (.ok ()) }
  | some (.error e) => { l with phase := .stopped (.error (.error e)) }
  | some (.ok m) =>
    match l.server.handleOneMessage env m with
    | .error .disconnected => { l with phase := .stopped (.ok ()) }
    | .error e => { l with phase := .stopped (.error (.error e)) }
    | .ok server => ⟨server, phase, .handled m :: l.history⟩

/-- A step of `process_vring` for ring `i`. -/
def onServe (env : Env) (l : Loop) (i : ℕ) (rest : List ℕ) (turn : Turn) (processed : ℕ) : Loop :=
  match l.server.mem, l.server.vrings[i]?.bind VringSlot.vq with
  | some mem, some vq =>
    match turnStep env vq turn ⟨l.server.session, mem⟩ with
    | .error e d => { l with server := l.server.withDevice d, phase := .stopped (.error e) }
    | .ok (vq, next) d =>
      let server := (l.server.withDevice d).onSlot i fun slot => { slot with vq := some vq }
      match next with
      | some turn' =>
        { server
          phase := .serving i rest turn' (countProcessed processed turn)
          history := ((poppedHead turn next).toList.map (.popped i)) ++ l.history }
      | none =>
        let call := if processed > 0 then l.server.vrings[i]?.bind VringSlot.callFd else none
        { server
          phase := .next rest
          history := (call.toList.map .notified) ++ l.history }
  | _, _ => { l with phase := .next rest }

/-- One step of the whole; an event that does not fit the phase cannot happen. -/
def step (l : Loop) : Event → Option Loop
  | .guest bytes =>
    some { l with server := { l.server with mem := l.server.mem.map fun mem => { mem with bytes } } }
  | .poll env result =>
    match l.phase with
    | .polling =>
      match result with
      | .interrupted => some l
      | .failed errno => some { l with phase := .stopped (.error (.error (.io errno))) }
      | .ready recv hangup kicked => some (l.onReady env recv hangup kicked)
    | _ => none
  | .serve env =>
    match l.phase with
    | .serving i rest turn processed => some (l.onServe env i rest turn processed)
    | _ => none

end Loop

end Riftlessfs.VhostUser
