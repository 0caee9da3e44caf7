import Riftlessfs.VhostUser.Service

/-! The loop of `process_vring`: pop a head, read its chain, serve it, publish it as used. -/
namespace Riftlessfs.VhostUser
open Riftlessfs.Core Riftlessfs.Proto

/-- `vq.pop_avail(mem)?`. -/
def onPop (vq : Virtqueue) : ServeM (Option UInt16 × Virtqueue) := fun d =>
  match vq.popAvail d.mem with
  | .ok r => .ok r d
  | .error (.error e) => .error (.error (.virtqueue e)) d
  | .error .panic => .error .panic d

/-- One turn of the loop; `none` when nothing is available. -/
def serveNext (env : Env) (vq : Virtqueue) : ServeM (Option Virtqueue) := do
  let (head, vq) ← onPop vq
  match head with
  | none => pure none
  | some head => do
    let chain ← onQueue fun mem => vq.readChain mem head
    let written ← serveChain env chain
    onMem (vq.pushUsed head written)
    pure (some vq)

def Virtqueue.availSlot (vq : Virtqueue) (idx : UInt16) : UInt64 :=
  vq.availAddr + (AVAIL_RING_OFFSET + (idx % vq.queueSize).toUInt64 * 2)

/-- Where in a turn of the loop the server stands. -/
inductive Turn where
  | popAvail
  | readChain (head : UInt16)
  | service (head : UInt16) (chain : DescChain)
  | pushUsed (head : UInt16) (written : UInt32)
  deriving DecidableEq, Repr

/-- One step of a turn; the loop is left when there is no next one. -/
def turnStep (env : Env) (vq : Virtqueue) : Turn → ServeM (Virtqueue × Option Turn)
  | .popAvail => do
    let (head, vq) ← onPop vq
    pure (vq, head.map .readChain)
  | .readChain head => do
    let chain ← onQueue fun mem => vq.readChain mem head
    pure (vq, some (.service head chain))
  | .service head chain => do
    let written ← serveChain env chain
    pure (vq, some (.pushUsed head written))
  | .pushUsed head written => do
    onMem (vq.pushUsed head written)
    pure (vq, some .popAvail)

/-- A turn of the loop is its steps in a row. -/
theorem serveNext_eq (env : Env) (vq : Virtqueue) : serveNext env vq = (do
    let (vq, turn) ← turnStep env vq .popAvail
    match turn with
    | none => pure none
    | some turn => do
      let (vq, turn) ← turnStep env vq turn
      let (vq, turn) ← turnStep env vq (turn.getD .popAvail)
      let (vq, _) ← turnStep env vq (turn.getD .popAvail)
      pure (some vq)) := by
  unfold serveNext
  simp only [turnStep, bind_assoc, pure_bind]
  congr 1
  funext r
  obtain ⟨head, vq⟩ := r
  cases head with
  | none => rfl
  | some head => simp only [Option.map_some, bind_assoc, pure_bind, Option.getD_some]

section Steps
variable {env : Env} {vq vq' : Virtqueue} {d d' : Device} {mem : GuestMemory} {head : Option UInt16}

theorem popAvail_ok (h : vq.popAvail mem = .ok (head, vq')) :
    ∃ idx, mem.readU16 .user (vq.availAddr + 2) = some idx ∧
      ((idx = vq.lastAvailIdx ∧ head = none ∧ vq' = vq) ∨
        (idx ≠ vq.lastAvailIdx ∧ vq.queueSize ≠ 0 ∧
          head = mem.readU16 .user (vq.availSlot vq.lastAvailIdx) ∧ head ≠ none ∧
          vq' = { vq with lastAvailIdx := vq.lastAvailIdx + 1 })) := by
  unfold Virtqueue.popAvail at h
  split at h
  · cases h
  rename_i idx hidx
  refine ⟨idx, hidx, ?_⟩
  split_ifs at h with hsame hzero
  · cases h
    exact Or.inl ⟨hsame, rfl, rfl⟩
  · simp only at h
    split at h
    · cases h
    rename_i slot hslot
    cases h
    exact Or.inr ⟨hsame, hzero, hslot.symm, Option.some_ne_none slot, rfl⟩

theorem onPop_ok {r : Option UInt16 × Virtqueue} (h : onPop vq d = .ok r d') :
    vq.popAvail d.mem = .ok r ∧ d' = d := by
  unfold onPop at h
  split at h
  · cases h
    constructor
    · assumption
    · rfl
  · cases h
  · cases h

theorem onMem_ok {α : Type} {m : MemM α} {a : α} (h : onMem m d = .ok a d') :
    m d.mem = .ok a d'.mem ∧ d'.session = d.session := by
  unfold onMem at h
  split at h
  · cases h
    constructor
    · assumption
    · rfl
  · cases h

end Steps

end Riftlessfs.VhostUser
