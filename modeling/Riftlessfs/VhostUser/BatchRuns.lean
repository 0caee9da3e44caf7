import Riftlessfs.VhostUser.ServedBatch

/-! `process_vring` on a batch: the server's loop from the kick to the next ring. -/
namespace Riftlessfs.VhostUser
open Lib.Effect Lib.LittleEndian Lib.Run Lib.Ring Riftlessfs.Core Riftlessfs.Proto Riftlessfs.Fuse

/-- The server is in a turn for ring `i`, with the queue and the device as given. -/
structure Loop.Stands (l : Loop) (i : ℕ) (rest : List ℕ) (turn : Turn) (processed : ℕ)
    (vq : Virtqueue) (d : Device) (call : Option RawFd) (history : List Happening) : Prop where
  phase : l.phase = .serving i rest turn processed
  mem : l.server.mem = some d.mem
  session : l.server.session = d.session
  ring : l.ring i = some vq
  call : l.callFd i = call
  history : l.history = history

section Steps
variable {l : Loop} {i processed : ℕ} {rest : List ℕ} {turn turn' : Turn} {vq vq' : Virtqueue}
  {d d' : Device} {call : Option RawFd} {history : List Happening} {env : Env}

private theorem callFd_modify {l' : Loop}
    (h : l'.server.vrings = l.server.vrings.modify i fun slot => { slot with vq := some vq' }) :
    l'.callFd i = l.callFd i := by
  unfold Loop.callFd
  rw [h, List.getElem?_modify_eq]
  cases l.server.vrings[i]? with
  | none => rfl
  | some slot => rfl

theorem Loop.Stands.step (h : l.Stands i rest turn processed vq d call history)
    (ht : turnStep env vq turn d = .ok (vq', some turn') d') :
    ∃ l', l.step (.serve env) = some l' ∧
      l'.Stands i rest turn' (countProcessed processed turn) vq' d' call
        (((poppedHead turn (some turn')).toList.map (.popped i)) ++ history) := by
  have hring : l.server.vrings[i]?.bind VringSlot.vq = some vq := h.ring
  have hturn : turnStep env vq turn ⟨l.server.session, d.mem⟩ = .ok (vq', some turn') d' := by
    rw [h.session]
    exact ht
  have hstep : l.step (.serve env) = some (l.onServe env i rest turn processed) := by
    unfold Loop.step
    simp only [h.phase]
  refine ⟨_, hstep, ?_⟩
  unfold Loop.onServe
  rw [h.mem, hring]
  simp only [hturn]
  refine ⟨rfl, rfl, rfl, ring_modify_eq h.ring rfl, ?_, ?_⟩
  · rw [← h.call]
    exact callFd_modify rfl
  · rw [h.history]

/-- With nothing left to pop the guest is notified, and the next ring has its turn. -/
theorem Loop.Stands.leave (h : l.Stands i rest .popAvail processed vq d call history)
    (ht : turnStep env vq .popAvail d = .ok (vq, none) d) :
    ∃ l', l.step (.serve env) = some l' ∧ l'.phase = .next rest ∧ l'.server.mem = some d.mem ∧
      l'.server.session = d.session ∧ l'.ring i = some vq ∧
      l'.history = (if processed > 0 then call.toList.map .notified else []) ++ history := by
  have hring : l.server.vrings[i]?.bind VringSlot.vq = some vq := h.ring
  have hcall : l.server.vrings[i]?.bind VringSlot.callFd = call := h.call
  have hturn : turnStep env vq .popAvail ⟨l.server.session, d.mem⟩ = .ok (vq, none) d := by
    rw [h.session]
    exact ht
  have hstep : l.step (.serve env) = some (l.onServe env i rest .popAvail processed) := by
    unfold Loop.step
    simp only [h.phase]
  refine ⟨_, hstep, ?_⟩
  unfold Loop.onServe
  rw [h.mem, hring]
  dsimp only
  rw [hturn]
  refine ⟨rfl, rfl, rfl, ring_modify_eq h.ring rfl, ?_⟩
  dsimp only
  rw [h.history, hcall]
  split_ifs with hp
  · rfl
  · rfl

/-- The steps of a turn in a row. -/
theorem Loop.Stands.served (h : l.Stands i rest .popAvail processed vq d call history)
    {head : UInt16} {chain : DescChain} {n : UInt32} {s' : Session} {mem mem' : GuestMemory}
    (hpop : vq.popAvail d.mem = .ok (some head, vq'))
    (hchain : vq'.readChain d.mem head = .ok chain)
    (hserve : serveChain env chain d = .ok n ⟨s', mem⟩)
    (hpush : vq'.pushUsed head n mem = .ok () mem') :
    ∃ l', run Loop.step l (List.replicate 4 (.serve env)) = some l' ∧
      l'.Stands i rest .popAvail (processed + 1) vq' ⟨s', mem'⟩ call
        (.popped i head :: history) := by
  have hpopped : onPop vq d = .ok (some head, vq') d := by
    unfold onPop
    rw [hpop]
  have hread : onQueue (fun mem => vq'.readChain mem head) d = .ok chain d := onQueue_ok hchain
  have hpushed : onMem (vq'.pushUsed head n) ⟨s', mem⟩ = .ok () ⟨s', mem'⟩ := by
    unfold onMem
    simp only [hpush]
  have ht₁ : turnStep env vq .popAvail d = .ok (vq', some (.readChain head)) d :=
    bind_of_ok hpopped
  have ht₂ : turnStep env vq' (.readChain head) d = .ok (vq', some (.service head chain)) d :=
    bind_of_ok hread
  have ht₃ : turnStep env vq' (.service head chain) d =
      .ok (vq', some (.pushUsed head n)) ⟨s', mem⟩ := bind_of_ok hserve
  have ht₄ : turnStep env vq' (.pushUsed head n) ⟨s', mem⟩ = .ok (vq', some .popAvail) ⟨s', mem'⟩ :=
    bind_of_ok hpushed
  obtain ⟨l₁, hl₁, h₁⟩ := h.step ht₁
  obtain ⟨l₂, hl₂, h₂⟩ := h₁.step ht₂
  obtain ⟨l₃, hl₃, h₃⟩ := h₂.step ht₃
  obtain ⟨l₄, hl₄, h₄⟩ := h₃.step ht₄
  refine ⟨l₄, ?_, h₄⟩
  simp only [List.replicate, run, hl₁, hl₂, hl₃, hl₄, Option.bind_some]

end Steps

section Batches
variable {mem : GuestMemory} {vq : Virtqueue} {jobs : List Job} {base i : ℕ} {rest : List ℕ}
  {call : Option RawFd}

end Batches

section Small
variable {image : Bytes} {x : ℕ}

end Small

end Riftlessfs.VhostUser
