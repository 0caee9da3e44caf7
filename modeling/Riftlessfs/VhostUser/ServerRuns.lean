import Riftlessfs.Lib.Run
import Riftlessfs.VhostUser.ServeFrame
import Riftlessfs.VhostUser.ServerLoop

/-! All that a step of the server's loop can do, and the rings as a function of what happened. -/
namespace Riftlessfs.VhostUser
open Lib.Effect Lib.Run Riftlessfs.Core Riftlessfs.Proto Riftlessfs.Fuse

def Message.asks (m : Message) (i : ℕ) : Option RingMsg :=
  match m.ringMsg with
  | some (j, r) => if j = i then some r else none
  | none => none

theorem asks_iff {m : Message} {i : ℕ} {r : RingMsg} :
    m.asks i = some r ↔ m.ringMsg = some (i, r) := by
  unfold Message.asks
  cases m.ringMsg with
  | none => simp
  | some x =>
    obtain ⟨j, r'⟩ := x
    by_cases hj : j = i
    · simp [hj]
    · simp [hj]

/-- What the latest message that `pick` applies to asked of ring `i`. -/
def latest {α : Type} (i : ℕ) (pick : RingMsg → Option α) : List Happening → Option α
  | [] => none
  | .handled m :: older =>
    match (m.asks i).bind pick with
    | some a => some a
    | none => latest i pick older
  | _ :: older => latest i pick older

theorem latest_picked {α : Type} {i : ℕ} {pick : RingMsg → Option α} {m : Message} {r : RingMsg}
    {a : α} (hm : m.asks i = some r) (hr : pick r = some a) (older : List Happening) :
    latest i pick (.handled m :: older) = some a := by
  simp only [latest, hm, Option.bind_some, hr]

theorem latest_passed {α : Type} {i : ℕ} {pick : RingMsg → Option α} {m : Message}
    (h : (m.asks i).bind pick = none) (older : List Happening) :
    latest i pick (.handled m :: older) = latest i pick older := by
  simp only [latest, h]

def Happening.onSlot (i : ℕ) : Happening → VringSlot → VringSlot
  | .handled m, slot =>
    match m.asks i with
    | some r => r.apply slot
    | none => slot
  | .popped j _, slot =>
    if j = i then
      { slot with vq := slot.vq.map fun vq => { vq with lastAvailIdx := vq.lastAvailIdx + 1 } }
    else slot
  | .notified _, slot => slot

/-- The ring `i` after a history, latest first. -/
def slotAfter (i : ℕ) : List Happening → VringSlot
  | [] => .default
  | x :: older => x.onSlot i (slotAfter i older)

section Turns
variable {env : Env} {vq vq' : Virtqueue} {turn : Turn} {next : Option Turn} {d d' : Device}

/-- What a step of a turn does to the queue. -/
theorem turnStep_ok (h : turnStep env vq turn d = .ok (vq', next) d') :
    (next = none ∧ turn = .popAvail ∧ vq' = vq) ∨
    (∃ head, turn = .popAvail ∧ next = some (.readChain head) ∧ vq.queueSize ≠ 0 ∧
      vq' = { vq with lastAvailIdx := vq.lastAvailIdx + 1 }) ∨
    (∃ turn', turn ≠ .popAvail ∧ next = some turn' ∧ vq' = vq) := by
  cases turn with
  | popAvail =>
    obtain ⟨⟨head, vq₁⟩, d₁, hpop, hlast⟩ := bind_ok h
    cases hlast
    obtain ⟨hres, -⟩ := onPop_ok hpop
    obtain ⟨idx, -, ⟨-, rfl, hvq⟩ | ⟨-, hpos, -, hsome, hvq⟩⟩ := popAvail_ok hres
    · exact Or.inl ⟨rfl, rfl, hvq⟩
    · obtain ⟨head, rfl⟩ := Option.ne_none_iff_exists'.mp hsome
      exact Or.inr (Or.inl ⟨head, rfl, rfl, hpos, hvq⟩)
  | readChain head | service head chain | pushUsed head written =>
    obtain ⟨_, d₁, -, h⟩ := bind_ok h
    cases h
    right
    right
    exact ⟨_, by simp, rfl, rfl⟩

end Turns

/-- All a step of the loop can do to the rings, the phase and the history. -/
inductive Loop.Move (l : Loop) (e : Event) (l' : Loop) : Prop
  | quiet (hrings : l'.server.vrings = l.server.vrings) (hhist : l'.history = l.history)
      (hphase : l'.phase = l.phase ∨ ∃ r, l'.phase = .stopped r)
  | polled (env : MsgEnv) (hangup : Bool) (kicked : ℕ → Bool)
      (he : e = .poll env (.ready none hangup kicked))
      (hphase : l.phase = .polling) (hrings : l'.server.vrings = l.server.vrings)
      (hhist : l'.history = l.history)
      (hnext : l'.phase = .next (l.server.kickSlots.filter kicked) ∨ ∃ r, l'.phase = .stopped r)
  | handled (env : MsgEnv) (m : Message) (hangup : Bool) (kicked : ℕ → Bool)
      (he : e = .poll env (.ready (some (.ok m)) hangup kicked)) (hphase : l.phase = .polling)
      (hm : l.server.handleOneMessage env m = .ok l'.server)
      (hhist : l'.history = .handled m :: l.history)
      (hnext : l'.phase = .next (l.server.kickSlots.filter kicked) ∨ ∃ r, l'.phase = .stopped r)
  | turned (i : ℕ) (rest : List ℕ) (turn turn' : Turn) (n n' : ℕ)
      (hphase : l.phase = .serving i rest turn n) (hnext : l'.phase = .serving i rest turn' n')
      (hrings : l'.server.vrings = l.server.vrings) (hhist : l'.history = l.history)
  | finished (i : ℕ) (rest : List ℕ) (turn : Turn) (n : ℕ) (call : List RawFd)
      (hphase : l.phase = .serving i rest turn n) (hnext : l'.phase = .next rest)
      (hrings : l'.server.vrings = l.server.vrings)
      (hhist : l'.history = call.map .notified ++ l.history)
  | popped (i : ℕ) (rest : List ℕ) (n : ℕ) (head : UInt16) (slot : VringSlot) (vq : Virtqueue)
      (hphase : l.phase = .serving i rest .popAvail n)
      (hnext : l'.phase = .serving i rest (.readChain head) n)
      (hslot : l.server.vrings[i]? = some slot) (hvq : slot.vq = some vq) (hpos : vq.queueSize ≠ 0)
      (hrings : l'.server.vrings = l.server.vrings.modify i fun slot =>
        { slot with vq := slot.vq.map fun vq => { vq with lastAvailIdx := vq.lastAvailIdx + 1 } })
      (hhist : l'.history = .popped i head :: l.history)

section Step
variable {l l' : Loop} {e : Event}

/-- Two changes of a ring that agree on the ring that is there. -/
theorem modify_congr {vrings : List VringSlot} {i : ℕ} {slot : VringSlot}
    {f g : VringSlot → VringSlot} (hslot : vrings[i]? = some slot) (h : f slot = g slot) :
    vrings.modify i f = vrings.modify i g := by
  apply List.ext_getElem?
  intro j
  rw [List.getElem?_modify, List.getElem?_modify]
  by_cases hij : i = j
  · subst hij
    rw [hslot]
    simp [h]
  · simp [hij]

private theorem onReady_move {env : MsgEnv} {recv : Option (Except ProtoError Message)}
    {hangup : Bool}
    {kicked : ℕ → Bool} (hphase : l.phase = .polling) :
    l.Move (.poll env (.ready recv hangup kicked)) (l.onReady env recv hangup kicked) := by
  have hnext : ∀ p : Phase, p = (if hangup then .stopped (.ok ()) else
      .next (l.server.kickSlots.filter kicked)) →
      p = .next (l.server.kickSlots.filter kicked) ∨ ∃ r, p = .stopped r := by
    intro p hp
    rw [hp]
    split_ifs
    · exact Or.inr ⟨_, rfl⟩
    · exact Or.inl rfl
  unfold Loop.onReady
  cases recv with
  | none => exact .polled env hangup kicked rfl hphase rfl rfl (hnext _ rfl)
  | some r =>
    cases r with
    | error e =>
      cases e with
      | disconnected => exact .quiet rfl rfl (Or.inr ⟨_, rfl⟩)
      | _ => exact .quiet rfl rfl (Or.inr ⟨_, rfl⟩)
    | ok m =>
      cases hm : l.server.handleOneMessage env m with
      | error e =>
        simp only [hm]
        cases e with
        | disconnected => exact .quiet rfl rfl (Or.inr ⟨_, rfl⟩)
        | _ => exact .quiet rfl rfl (Or.inr ⟨_, rfl⟩)
      | ok srv =>
        simp only [hm]
        exact .handled env m hangup kicked rfl hphase hm rfl (hnext _ rfl)

private theorem onServe_move {env : Env} {i n : ℕ} {rest : List ℕ} {turn : Turn}
    (hphase : l.phase = .serving i rest turn n) :
    l.Move (.serve env) (l.onServe env i rest turn n) := by
  unfold Loop.onServe
  cases hmem : l.server.mem with
  | none => exact .finished i rest turn n [] hphase rfl rfl rfl
  | some mem =>
    cases hslot : l.server.vrings[i]? with
    | none => exact .finished i rest turn n [] hphase rfl rfl rfl
    | some slot =>
      cases hvq : slot.vq with
      | none =>
        simp only [Option.bind_some, hvq]
        exact .finished i rest turn n [] hphase rfl rfl rfl
      | some vq =>
        simp only [Option.bind_some, hvq]
        cases hturn : turnStep env vq turn ⟨l.server.session, mem⟩ with
        | error e d => exact .quiet rfl rfl (Or.inr ⟨_, rfl⟩)
        | ok r d =>
          obtain ⟨vq', next⟩ := r
          have hsame : vq' = vq →
              l.server.vrings.modify i (fun slot => { slot with vq := some vq' }) =
                l.server.vrings := by
            intro hv
            have hid := List.modify_id i l.server.vrings
            rw [← hid]
            nth_rewrite 1 [hid]
            apply modify_congr hslot
            rw [hv, ← hvq]
            rfl
          rcases turnStep_ok hturn with ⟨rfl, rfl, hv⟩ | ⟨head, rfl, rfl, hpos, hv⟩ |
            ⟨turn', hne, rfl, hv⟩
          · exact .finished i rest .popAvail n _ hphase rfl (hsame hv) rfl
          · refine .popped i rest n head slot vq hphase rfl hslot hvq hpos ?_ rfl
            apply modify_congr hslot
            rw [hvq, hv]
            rfl
          · have hnone : poppedHead turn (some turn') = none := by
              cases turn with
              | popAvail => exact absurd rfl hne
              | _ => rfl
            refine .turned i rest turn turn' n _ hphase rfl (hsame hv) ?_
            simp only [hnone]
            rfl

theorem step_move (h : l.step e = some l') : l.Move e l' := by
  unfold Loop.step at h
  cases e with
  | guest bytes =>
    cases h
    exact .quiet rfl rfl (Or.inl rfl)
  | poll env result =>
    cases hphase : l.phase with
    | polling =>
      simp only [hphase] at h
      cases result with
      | interrupted =>
        cases h
        exact .quiet rfl rfl (Or.inl rfl)
      | failed errno =>
        cases h
        exact .quiet rfl rfl (Or.inr ⟨_, rfl⟩)
      | ready recv hangup kicked =>
        cases h
        exact onReady_move hphase
    | serving i rest turn n =>
      simp only [hphase] at h
      cases h
    | stopped r =>
      simp only [hphase] at h
      cases h
  | serve env =>
    cases hphase : l.phase with
    | polling =>
      simp only [hphase] at h
      cases h
    | serving i rest turn n =>
      simp only [hphase] at h
      cases h
      exact onServe_move hphase
    | stopped r =>
      simp only [hphase] at h
      cases h

end Step

section Slots
variable {l l' : Loop} {e : Event}

/-- The rings of the server are those its history leaves. -/
def Loop.Replayed (l : Loop) : Prop :=
  l.server.vrings = (List.range NUM_QUEUES).map fun i => slotAfter i l.history

theorem Loop.Replayed.get (h : l.Replayed) {i : ℕ} (hi : i < NUM_QUEUES) :
    l.server.vrings[i]? = some (slotAfter i l.history) := by
  rw [h, List.getElem?_map, List.getElem?_range hi]
  rfl

theorem Loop.Replayed.lt (h : l.Replayed) {i : ℕ} {slot : VringSlot}
    (hslot : l.server.vrings[i]? = some slot) : i < NUM_QUEUES := by
  by_contra hge
  rw [h, List.getElem?_eq_none (by simpa using hge)] at hslot
  cases hslot

/-- Changing one ring of a list indexed by rings. -/
theorem modify_map_range (n j : ℕ) (f : VringSlot → VringSlot) (g : ℕ → VringSlot) :
    ((List.range n).map g).modify j f =
      (List.range n).map fun i => if j = i then f (g i) else g i := by
  apply List.ext_getElem?
  intro i
  rw [List.getElem?_modify, List.getElem?_map, List.getElem?_map]
  by_cases hi : i < n
  · rw [List.getElem?_range hi]
    by_cases hij : j = i
    · simp [hij]
    · simp [hij]
  · rw [List.getElem?_eq_none (by simpa using hi)]
    simp

theorem onRings_map_range (m : Message) (n : ℕ) (g : ℕ → VringSlot) :
    m.onRings ((List.range n).map g) =
      (List.range n).map fun i => (Happening.handled m).onSlot i (g i) := by
  simp only [Message.onRings, Happening.onSlot, Message.asks]
  cases m.ringMsg with
  | none => rfl
  | some x =>
    obtain ⟨j, r⟩ := x
    show ((List.range n).map g).modify j r.apply = _
    rw [modify_map_range]
    congr 1
    funext i
    by_cases hij : j = i
    · simp [hij]
    · simp [hij]

theorem slotAfter_notified (i : ℕ) (call : List RawFd) (older : List Happening) :
    slotAfter i (call.map .notified ++ older) = slotAfter i older := by
  induction call with
  | nil => rfl
  | cons fd call ih => exact ih

theorem Loop.new_replayed (session : Session) : (Loop.new session).Replayed := rfl

theorem Loop.Replayed.step (h : l.Replayed) (hs : l.step e = some l') : l'.Replayed := by
  unfold Loop.Replayed at h ⊢
  cases step_move hs with
  | quiet hrings hhist _ => rw [hrings, hhist, h]
  | polled _ _ _ _ _ hrings hhist _ => rw [hrings, hhist, h]
  | handled env m _ _ _ _ hm hhist _ =>
    rw [handleOneMessage_vrings hm, h, hhist, onRings_map_range]
    rfl
  | turned _ _ _ _ _ _ _ _ hrings hhist => rw [hrings, hhist, h]
  | finished _ _ _ _ call _ _ hrings hhist =>
    rw [hrings, hhist, h]
    simp only [slotAfter_notified]
  | popped i _ _ head _ _ _ _ _ _ _ hrings hhist =>
    rw [hrings, hhist, h, modify_map_range]
    rfl

/-- In every state reached the rings are those the history leaves. -/
theorem run_replayed {session : Session} {xs : List Event}
    (h : run Loop.step (.new session) xs = some l) : l.Replayed :=
  run_induction (P := fun _ l => l.Replayed) (Loop.new_replayed session)
    (fun _ _ _ _ _ hl hs => hl.step hs) h

end Slots

end Riftlessfs.VhostUser
