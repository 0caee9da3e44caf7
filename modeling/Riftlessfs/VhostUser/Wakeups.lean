import Riftlessfs.VhostUser.Isolation
import Riftlessfs.VhostUser.KickDrain

/-! The server's loop with the descriptors that wake it and that it wakes the guest with: kicks are
counted until `poll` reports them and `drain_fd` takes them, interleaved with a guest that publishes
and kicks at any moment. -/
namespace Riftlessfs.VhostUser
open Lib.Flat Lib.Effect Lib.Run Riftlessfs.Core Riftlessfs.Proto Riftlessfs.Fuse

def Loop.ring (l : Loop) (i : ℕ) : Option Virtqueue := l.server.vrings[i]?.bind VringSlot.vq

def Loop.kickFd (l : Loop) (i : ℕ) : Option RawFd := l.server.vrings[i]?.bind VringSlot.kickFd

/-- The fd that the guest is told through of what is used on ring `i`. -/
def Loop.callFd (l : Loop) (i : ℕ) : Option RawFd := l.server.vrings[i]?.bind VringSlot.callFd

/-- The available index of ring `i`, as the guest has published it. -/
def Loop.availIdx (l : Loop) (i : ℕ) : Option UInt16 := do
  let mem ← l.server.mem
  let vq ← l.ring i
  mem.readU16 .user (vq.availAddr + 2)

/-- A loop and its descriptors. `polled` are the kick fds of the last `poll`, by ring; `draining`
says that the kick of the ring being served is still being read empty; `owed` are the rings whose
available index has moved since the guest last kicked them; `untold` counts for each ring the used
elements pushed since its guest was last notified. -/
structure Wired where
  loop : Loop
  kicks : RawFd → KickFd
  polled : ℕ → Option RawFd
  draining : Bool
  owed : ℕ → Bool
  untold : ℕ → ℕ

/-- What happens next: the guest writes memory or kicks, `poll` returns, `drain_fd` reads once, or
the server makes a step of a turn. -/
inductive Signal where
  | guest (bytes : ℕ → UInt8)
  | kick (fd : RawFd) (n : ℕ)
  | poll (env : MsgEnv) (recv : Option (Except ProtoError Message)) (hangup : Bool)
  | interrupted (env : MsgEnv)
  | failed (env : MsgEnv) (errno : ℕ)
  | read
  | serve (env : Env)

/-- The loop went on to another ring. -/
def Phase.entered : Phase → Phase → Bool
  | .serving _ rest _ _, .serving _ rest' _ _ => rest'.length < rest.length
  | _, _ => false

def announced (i : ℕ) (l l' : Loop) : Bool :=
  match l'.history with
  | .notified fd :: older => older.length == l.history.length && l.callFd i == some fd
  | _ => false

/-- The used elements nobody was told of, after a step of a turn. -/
def untoldAfter (untold : ℕ → ℕ) (l l' : Loop) : ℕ → ℕ :=
  match l.phase, l'.phase with
  | .serving _ _ (.pushUsed ..) _, .stopped _ => untold
  | .serving i _ (.pushUsed ..) _, _ => Function.update untold i (untold i + 1)
  | .serving i _ _ _, _ => if announced i l l' then Function.update untold i 0 else untold
  | _, _ => untold

namespace Wired

def pending (w : Wired) (i : ℕ) : ℕ := ((w.loop.kickFd i).map fun fd => (w.kicks fd).pending).getD 0

/-- One read of `drain_fd` from `fd`. Reading an fd that was closed fails, and ends the loop. -/
def drainRead (w : Wired) (fd : RawFd) : Option Wired :=
  if fd ∈ w.loop.server.openFds then
    match (w.kicks fd).read 256 with
    | (.never, _) => none
    | (.wouldBlock, _) => some { w with draining := false }
    | (.count n, kick) =>
      some { w with kicks := Function.update w.kicks fd kick, draining := decide (256 ≤ n) }
  else some { w with draining := false }

def step (w : Wired) : Signal → Option Wired
  | .guest bytes => (w.loop.step (.guest bytes)).map fun l =>
      { w with loop := l, owed := fun i => w.owed i || l.availIdx i != w.loop.availIdx i }
  | .kick fd n =>
    if n = 0 then none
    else some { w with
      kicks := Function.update w.kicks fd { w.kicks fd with pending := (w.kicks fd).pending + n }
      owed := fun i => w.owed i && w.loop.kickFd i != some fd }
  | .poll env recv hangup =>
    let kicked i := decide (0 < w.pending i)
    -- With nothing ready `poll` does not return.
    if recv.isNone && !hangup && !w.loop.server.kickSlots.any kicked then none
    else (w.loop.step (.poll env (.ready recv hangup kicked))).map fun l =>
      { w with loop := l, polled := w.loop.kickFd, draining := true }
  | .interrupted env => (w.loop.step (.poll env .interrupted)).map fun l => { w with loop := l }
  | .failed env errno => (w.loop.step (.poll env (.failed errno))).map fun l => { w with loop := l }
  | .read =>
    match w.loop.phase with
    | .serving i _ _ _ => if w.draining then (w.polled i).bind w.drainRead else none
    | _ => none
  | .serve env =>
    if w.draining then none
    else (w.loop.step (.serve env)).map fun l =>
      { w with
        loop := l
        draining := w.loop.phase.entered l.phase
        untold := untoldAfter w.untold w.loop l }

end Wired

def Turn.Stores (mem : GuestMemory) (vq : Virtqueue) : Turn → ℕ → Prop
  | .service _ chain, x => InBuffers mem chain.writable x
  | .pushUsed _ _, x => ∃ idx q qid qlen, UsedCells vq mem idx q qid qlen ∧
      ((q ≤ x ∧ x < q + 2) ∨ (qid ≤ x ∧ x < qid + 4) ∨ (qlen ≤ x ∧ x < qlen + 4))
  | _, _ => False

section Turns
variable {env : Env} {vq vq' : Virtqueue} {turn : Turn} {next : Option Turn} {d d' : Device}

/-- What a step of a turn stores, and what it finds when the loop is left. -/
theorem turnStep_stores (h : turnStep env vq turn d = .ok (vq', next) d') :
    SameBeyond (turn.Stores d.mem vq) d.mem d'.mem ∧
      (next = none → turn = .popAvail ∧ vq' = vq ∧ d' = d ∧
        d.mem.readU16 .user (vq.availAddr + 2) = some vq.lastAvailIdx) := by
  cases turn with
  | popAvail =>
    obtain ⟨⟨head, vq₁⟩, d₁, hpop, hlast⟩ := bind_ok h
    cases hlast
    obtain ⟨hres, rfl⟩ := onPop_ok hpop
    refine ⟨SameBeyond.refl _, fun hnone => ?_⟩
    obtain ⟨idx, hidx, ⟨hsame, -, hvq⟩ | ⟨-, -, -, hsome, -⟩⟩ := popAvail_ok hres
    · rw [hsame] at hidx
      exact ⟨rfl, hvq, rfl, hidx⟩
    · exact absurd (Option.map_eq_none_iff.mp hnone) hsome
  | readChain head =>
    obtain ⟨chain, d₁, hchain, h⟩ := bind_ok h
    cases h
    obtain ⟨-, rfl⟩ := onQueue_inv hchain
    exact ⟨SameBeyond.refl _, fun hnone => by cases hnone⟩
  | service head chain =>
    obtain ⟨n, d₁, hserve, h⟩ := bind_ok h
    cases h
    exact ⟨serveChain_stores hserve, fun hnone => by cases hnone⟩
  | pushUsed head written =>
    obtain ⟨_, d₁, hpush, h⟩ := bind_ok h
    cases h
    obtain ⟨hpush, -⟩ := onMem_ok hpush
    obtain ⟨idx, q, qid, qlen, -, hcells, hmem⟩ := pushUsed_ok hpush
    refine ⟨⟨by rw [hmem], fun x hx => ?_⟩, fun hnone => by cases hnone⟩
    rw [hmem]
    apply usedStored_outside
    · by_contra hin
      exact hx ⟨idx, q, qid, qlen, hcells, Or.inr (Or.inl (by omega))⟩
    · by_contra hin
      exact hx ⟨idx, q, qid, qlen, hcells, Or.inr (Or.inr (by omega))⟩
    · by_contra hin
      exact hx ⟨idx, q, qid, qlen, hcells, Or.inl (by omega)⟩

/-- A word to which nothing was stored reads as before. -/
theorem readU16_kept {stored : ℕ → Prop} {mem mem' : GuestMemory} {addr : UInt64}
    (h : SameBeyond stored mem mem')
    (hclear : ∀ p, mem.slicePtr .user addr 2 = some p → ∀ x, p ≤ x → x < p + 2 → ¬stored x) :
    mem'.readU16 .user addr = mem.readU16 .user addr := by
  have hslice : mem'.getSlice .user addr 2 = mem.getSlice .user addr 2 :=
    getSlice_kept h fun x ⟨p, hp, hlow, hhigh⟩ => hclear p hp x hlow hhigh
  exact congrArg (Option.map _) hslice

end Turns

end Riftlessfs.VhostUser
