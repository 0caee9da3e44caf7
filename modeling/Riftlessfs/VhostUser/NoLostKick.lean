import Riftlessfs.VhostUser.IsolatedRuns
import Riftlessfs.VhostUser.Wakeups

/-! No kick is lost: when the server waits in `poll`, every head that was published and kicked has
been popped. -/
namespace Riftlessfs.VhostUser
open Lib.Flat Lib.Effect Lib.Run Riftlessfs.Core Riftlessfs.Proto Riftlessfs.Fuse

/-- Nothing is available on ring `i`. -/
def Loop.Settled (l : Loop) (i : ℕ) : Prop :=
  ∃ vq, l.ring i = some vq ∧ l.availIdx i = some vq.lastAvailIdx

/-- The server is at ring `i`, will come to it, or is out of its loop. -/
inductive Loop.Busy (l : Loop) (i : ℕ) : Prop
  | serving (rest : List ℕ) (turn : Turn) (n : ℕ) (h : l.phase = .serving i rest turn n)
  | waiting (j : ℕ) (rest : List ℕ) (turn : Turn) (n : ℕ) (h : l.phase = .serving j rest turn n)
      (hi : i ∈ rest)
  | stopped (r : Except Halt Unit) (h : l.phase = .stopped r)

/-- Ring `i` has nothing available, or something will make the server look at it. -/
inductive Wired.Attended (w : Wired) (i : ℕ) : Prop
  | settled (h : w.loop.Settled i)
  | owed (h : w.owed i = true)
  | kicked (h : 0 < w.pending i)
  | busy (h : w.loop.Busy i)

/-- The message leaves guest memory and the queue and kick of ring `i` as they are. -/
def Message.spares (i : ℕ) (m : Message) : Bool :=
  (match m.asks i with
    | some (.addr _) | some (.base _) | some (.kick _) => false
    | _ => true) &&
  match Request.tryFrom m.header.request with
    | .ok .setMemTable => false
    | _ => true

/-- No other ring is kicked through the fd of ring `i`. -/
def Loop.KickApart (l : Loop) (i : ℕ) : Prop :=
  ∀ j, j ≠ i → ∀ fd, l.kickFd j = some fd → l.kickFd i ≠ some fd

/-- The step of a turn stores nothing into the available index of ring `i`. -/
def Loop.IndexClear (l : Loop) (i : ℕ) : Prop :=
  ∀ mem vq vqj j rest turn n p, l.server.mem = some mem → l.ring i = some vq →
    l.phase = .serving j rest turn n → l.ring j = some vqj →
    mem.slicePtr .user (vq.availAddr + 2) 2 = some p →
    ∀ x, p ≤ x → x < p + 2 → ¬turn.Stores mem vqj x

/-- What the front-end and the layout of guest memory owe ring `i`. -/
def Wired.Fair (i : ℕ) (w : Wired) : Signal → Prop
  | .poll _ recv _ => w.loop.KickApart i ∧ ∀ m, recv = some (.ok m) → m.spares i = true
  | .serve _ => w.loop.IndexClear i
  | _ => True

/-- Ring `i` is built and attended, and nobody else takes its kicks. -/
structure Wired.Watched (i : ℕ) (w : Wired) : Prop where
  mem : w.loop.server.mem ≠ none
  ring : w.loop.ring i ≠ none
  attended : w.Attended i
  apart : ∀ j, j ≠ i → ∀ fd, w.polled j = some fd → w.loop.kickFd i ≠ some fd

/-- The call fd written to when a turn that processed `n` requests ends. -/
def Loop.callFdAfter (l : Loop) (i n : ℕ) : Option RawFd :=
  if n > 0 then l.callFd i else none

section Serve
variable {l : Loop} {mem : GuestMemory} {vq : Virtqueue} {i j : ℕ}

/-- A step of `process_vring` on a ring that is built: it stops the server, or does what the step of
the turn does. -/
theorem onServe_cases (env : Env) (rest : List ℕ) (turn : Turn) (n : ℕ)
    (hmem : l.server.mem = some mem) (hvq : l.ring j = some vq) :
    (∃ r, (l.onServe env j rest turn n).phase = .stopped r ∧
      (l.onServe env j rest turn n).server.mem ≠ none ∧
      (l.onServe env j rest turn n).server.vrings = l.server.vrings) ∨
    ∃ vq' next d', turnStep env vq turn ⟨l.server.session, mem⟩ = .ok (vq', next) d' ∧
      (l.onServe env j rest turn n).server.mem = some d'.mem ∧
      (l.onServe env j rest turn n).server.vrings =
        l.server.vrings.modify j (fun slot => { slot with vq := some vq' }) ∧
      (l.onServe env j rest turn n).phase = (next.elim (.next rest) fun turn' =>
        .serving j rest turn' (countProcessed n turn)) ∧
      (l.onServe env j rest turn n).history =
        (next.elim ((l.callFdAfter j n).toList.map .notified) fun _ =>
          (poppedHead turn next).toList.map (.popped j)) ++ l.history := by
  have hring : l.server.vrings[j]?.bind VringSlot.vq = some vq := hvq
  unfold Loop.onServe
  rw [hmem, hring]
  simp only
  cases hturn : turnStep env vq turn ⟨l.server.session, mem⟩ with
  | error e d => exact Or.inl ⟨_, rfl, Option.some_ne_none _, rfl⟩
  | ok r d =>
    obtain ⟨vq', next⟩ := r
    right
    cases next with
    | none => exact ⟨vq', none, d, rfl, rfl, rfl, rfl, rfl⟩
    | some turn' => exact ⟨vq', some turn', d, rfl, rfl, rfl, rfl, rfl⟩

theorem onServe_unbuilt (env : Env) (rest : List ℕ) (turn : Turn) (n : ℕ)
    (h : l.server.mem = none ∨ l.ring j = none) :
    l.onServe env j rest turn n = { l with phase := .next rest } := by
  unfold Loop.onServe
  rcases h with h | h
  · rw [h]
  · have hring : l.server.vrings[j]?.bind VringSlot.vq = none := h
    rw [hring]
    cases l.server.mem with
    | none => rfl
    | some mem => rfl

private theorem ring_modify_ne {vrings : List VringSlot} {f : VringSlot → VringSlot} (h : j ≠ i) :
    (vrings.modify j f)[i]? = vrings[i]? := by
  rw [List.getElem?_modify]
  simp [h]

theorem ring_modify_eq {l' : Loop} {vq' : Virtqueue} (hvq : l.ring j = some vq)
    (h : l'.server.vrings = l.server.vrings.modify j fun slot => { slot with vq := some vq' }) :
    l'.ring j = some vq' := by
  unfold Loop.ring at hvq ⊢
  rw [h, List.getElem?_modify_eq]
  obtain ⟨slot, hslot, -⟩ := Option.bind_eq_some_iff.mp hvq
  rw [hslot]
  rfl

/-- Serving a queue leaves the kicks alone. -/
theorem kickFd_modify {l' : Loop} {vq' : Virtqueue}
    (h : l'.server.vrings = l.server.vrings.modify j fun slot => { slot with vq := some vq' }) :
    l'.kickFd = l.kickFd := by
  funext i
  unfold Loop.kickFd
  rw [h, List.getElem?_modify]
  cases l.server.vrings[i]? with
  | none => rfl
  | some slot =>
    by_cases hij : j = i
    · simp [hij]
    · simp [hij]

/-- The rings that come next. -/
theorem next_phase (rest : List ℕ) : (Phase.next rest = .polling ∧ rest = []) ∨
    ∃ j rest', rest = j :: rest' ∧ Phase.next rest = .serving j rest' .popAvail 0 := by
  cases rest with
  | nil => exact Or.inl ⟨rfl, rfl⟩
  | cons j rest' => exact Or.inr ⟨j, rest', rfl, rfl⟩

end Serve

section Attended
variable {w w' : Wired} {l l' : Loop} {i j n n' : ℕ} {rest : List ℕ} {turn turn' : Turn}

theorem not_busy_polling (h : l.Busy i) (hphase : l.phase = .polling) : False := by
  cases h with
  | serving rest turn n h => simp [hphase] at h
  | waiting j rest turn n h hi => simp [hphase] at h
  | stopped r h => simp [hphase] at h

theorem Loop.Busy.turned (h : l.Busy i) (hphase : l.phase = .serving j rest turn n)
    (hphase' : l'.phase = .serving j rest turn' n') : l'.Busy i := by
  cases h with
  | serving rest₁ turn₁ n₁ h =>
    rw [hphase] at h
    cases h
    exact .serving rest turn' n' hphase'
  | waiting j₁ rest₁ turn₁ n₁ h hi =>
    rw [hphase] at h
    cases h
    exact .waiting j rest turn' n' hphase' hi
  | stopped r h =>
    rw [hphase] at h
    cases h

/-- When the turn of another ring ends, a ring that waits is next or waits on. -/
theorem Loop.Busy.passed (h : l.Busy i) (hij : j ≠ i) (hphase : l.phase = .serving j rest turn n)
    (hphase' : l'.phase = .next rest) : l'.Busy i := by
  have hi : i ∈ rest := by
    cases h with
    | serving rest₁ turn₁ n₁ h =>
      rw [hphase] at h
      cases h
      exact absurd rfl hij
    | waiting j₁ rest₁ turn₁ n₁ h hi =>
      rw [hphase] at h
      cases h
      exact hi
    | stopped r h =>
      rw [hphase] at h
      cases h
  obtain ⟨-, rfl⟩ | ⟨k, rest', rfl, hnext⟩ := next_phase rest
  · cases hi
  · rw [hnext] at hphase'
    rcases List.mem_cons.mp hi with rfl | hi
    · exact .serving rest' .popAvail 0 hphase'
    · exact .waiting k rest' .popAvail 0 hphase' hi

/-- Each reason to be attended carries over by itself. -/
theorem Wired.Attended.kept (h : w.Attended i) (hsettled : w.loop.Settled i → w'.loop.Settled i)
    (howed : w'.owed i = w.owed i) (hpending : w'.pending i = w.pending i)
    (hbusy : w.loop.Busy i → w'.loop.Busy i) : w'.Attended i := by
  cases h with
  | settled h => exact .settled (hsettled h)
  | owed h => exact .owed (howed.trans h)
  | kicked h => exact .kicked (lt_of_lt_of_eq h hpending.symm)
  | busy h => exact .busy (hbusy h)

end Attended

section Messages
variable {env : MsgEnv} {m : Message} {i : ℕ}

theorem spares_slot (h : m.spares i = true) (slot : VringSlot) :
    ((Happening.handled m).onSlot i slot).vq = slot.vq ∧
      ((Happening.handled m).onSlot i slot).kickFd = slot.kickFd := by
  unfold Message.spares at h
  rw [Bool.and_eq_true] at h
  obtain ⟨hasks, -⟩ := h
  simp only [Happening.onSlot]
  cases hm : m.asks i with
  | none => exact ⟨rfl, rfl⟩
  | some r =>
    rw [hm] at hasks
    cases r with
    | addr a => cases hasks
    | base n => cases hasks
    | kick fd => cases hasks
    | num n => exact ⟨rfl, rfl⟩
    | getBase => exact ⟨rfl, rfl⟩
    | call fd => exact ⟨rfl, rfl⟩
    | enable n => exact ⟨rfl, rfl⟩

private theorem onRings_get (m : Message) (vrings : List VringSlot) (i : ℕ) :
    (m.onRings vrings)[i]? = vrings[i]?.map ((Happening.handled m).onSlot i) := by
  unfold Message.onRings
  cases hm : m.ringMsg with
  | none =>
    have hon : (Happening.handled m).onSlot i = id := by
      funext slot
      simp only [Happening.onSlot, Message.asks, hm]
      rfl
    rw [hon, Option.map_id]
    rfl
  | some x =>
    obtain ⟨j, r⟩ := x
    have hon : (Happening.handled m).onSlot i = if j = i then r.apply else id := by
      funext slot
      simp only [Happening.onSlot, Message.asks, hm]
      by_cases hij : j = i
      · simp [hij]
      · simp [hij]
    simp only [List.getElem?_modify, hon]
    by_cases hij : j = i
    · simp [hij]
    · simp [hij]

/-- A message that spares ring `i` leaves all of it that matters here. -/
theorem spares_ring {srv srv' : Server} (h : m.spares i = true)
    (hm : srv.handleOneMessage env m = .ok srv') :
    srv'.mem = srv.mem ∧ srv'.vrings[i]?.bind VringSlot.vq = srv.vrings[i]?.bind VringSlot.vq ∧
      srv'.vrings[i]?.bind VringSlot.kickFd = srv.vrings[i]?.bind VringSlot.kickFd := by
  have hslot : srv'.vrings[i]? = srv.vrings[i]?.map ((Happening.handled m).onSlot i) := by
    rw [handleOneMessage_vrings hm, onRings_get]
  have hmem : srv'.mem = srv.mem := by
    unfold Message.spares at h
    rw [Bool.and_eq_true] at h
    obtain ⟨-, hreq⟩ := h
    unfold Server.handleOneMessage at hm
    cases hr : Request.tryFrom m.header.request with
    | error e =>
      rw [hr] at hm
      rw [← Except.ok.inj hm]
    | ok request =>
      rw [hr] at hm hreq
      have hne : request ≠ .setMemTable := by
        intro heq
        rw [heq] at hreq
        cases hreq
      have hdispatch : Server.dispatch env { srv with openFds := srv.openFds ++ m.fds } m request =
          .ok srv' := hm
      have hsame := dispatch_mem_same hne hdispatch
      exact hsame
  refine ⟨hmem, ?_, ?_⟩
  · rw [hslot]
    cases srv.vrings[i]? with
    | none => rfl
    | some slot => exact (spares_slot h slot).1
  · rw [hslot]
    cases srv.vrings[i]? with
    | none => rfl
    | some slot => exact (spares_slot h slot).2

end Messages

section Steps
variable {w w' : Wired} {i : ℕ}

theorem settled_congr {l l' : Loop} (hring : l'.ring i = l.ring i)
    (hidx : l'.availIdx i = l.availIdx i) (h : l.Settled i) : l'.Settled i := by
  obtain ⟨vq, hvq, hlast⟩ := h
  exact ⟨vq, hring.trans hvq, hidx.trans hlast⟩

private theorem busy_congr {l l' : Loop} (hphase : l'.phase = l.phase) (h : l.Busy i) :
    l'.Busy i := by
  cases h with
  | serving rest turn n h => exact .serving rest turn n (hphase.trans h)
  | waiting j rest turn n h hi => exact .waiting j rest turn n (hphase.trans h) hi
  | stopped r h => exact .stopped r (hphase.trans h)

private theorem availIdx_congr {l l' : Loop} (hmem : l'.server.mem = l.server.mem)
    (hring : l'.ring i = l.ring i) : l'.availIdx i = l.availIdx i := by
  unfold Loop.availIdx
  rw [hmem, hring]

theorem pending_congr (hkicks : w'.kicks = w.kicks) (hfd : w'.loop.kickFd i = w.loop.kickFd i) :
    w'.pending i = w.pending i := by
  unfold Wired.pending
  rw [hkicks, hfd]

/-- `poll` returns only to a server that waits in it. -/
theorem poll_polling {l l' : Loop} {env : MsgEnv} {result : PollResult}
    (h : l.step (.poll env result) = some l') : l.phase = .polling := by
  unfold Loop.step at h
  cases hphase : l.phase with
  | polling => rfl
  | serving j rest turn n =>
    simp only [hphase] at h
    cases h
  | stopped r =>
    simp only [hphase] at h
    cases h

/-- A write of the guest leaves all but the bytes of its memory. -/
theorem guest_step {l l' : Loop} {bytes : ℕ → UInt8} (h : l.step (.guest bytes) = some l') :
    l'.phase = l.phase ∧ l'.ring = l.ring ∧ l'.kickFd = l.kickFd ∧
      (l.server.mem ≠ none → l'.server.mem ≠ none) := by
  cases h
  refine ⟨rfl, rfl, rfl, fun hmem hnone => ?_⟩
  exact hmem (Option.map_eq_none_iff.mp hnone)

private theorem guest_watched {bytes : ℕ → UInt8} (h : w.Watched i)
    (hs : w.step (.guest bytes) = some w') : w'.Watched i := by
  unfold Wired.step at hs
  obtain ⟨l, hl, rfl⟩ := Option.map_eq_some_iff.mp hs
  obtain ⟨hphase, hring, hfd, hmem⟩ := guest_step hl
  refine ⟨hmem h.mem, ?_, ?_, ?_⟩
  · show l.ring i ≠ none
    rw [hring]
    exact h.ring
  · by_cases hsame : l.availIdx i = w.loop.availIdx i
    · apply h.attended.kept
      · exact settled_congr (congrFun hring i) hsame
      · simp [hsame]
      · exact pending_congr rfl (congrFun hfd i)
      · exact busy_congr hphase
    · apply Wired.Attended.owed
      simp [hsame]
  · show ∀ j, j ≠ i → ∀ fd, w.polled j = some fd → l.kickFd i ≠ some fd
    rw [hfd]
    exact h.apart

private theorem kick_watched {fd : RawFd} {n : ℕ} (h : w.Watched i)
    (hs : w.step (.kick fd n) = some w') : w'.Watched i := by
  have hdef : w.step (.kick fd n) = if n = 0 then none else some { w with
      kicks := Function.update w.kicks fd { w.kicks fd with pending := (w.kicks fd).pending + n }
      owed := fun i => w.owed i && w.loop.kickFd i != some fd } := rfl
  rw [hdef] at hs
  split_ifs at hs with hn
  cases hs
  refine ⟨h.mem, h.ring, ?_, h.apart⟩
  by_cases hfd : w.loop.kickFd i = some fd
  · apply Wired.Attended.kicked
    unfold Wired.pending
    simp only [hfd, Option.map_some, Option.getD_some, Function.update_self]
    omega
  · refine h.attended.kept id ?_ ?_ id
    · simp [hfd]
    · unfold Wired.pending
      cases hown : w.loop.kickFd i with
      | none => rfl
      | some own =>
        have hne : own ≠ fd := fun heq => hfd (heq ▸ hown)
        simp only [Option.map_some, Option.getD_some, Function.update_of_ne hne]

/-- Returning from `poll`, with a message or without, leaves ring `i` attended. -/
theorem poll_watched {env : MsgEnv} {recv : Option (Except ProtoError Message)} {hangup : Bool}
    (h : w.Watched i) (hf : w.Fair i (.poll env recv hangup))
    (hs : w.step (.poll env recv hangup) = some w') : w'.Watched i := by
  obtain ⟨happart, hspares⟩ := hf
  unfold Wired.step at hs
  simp only at hs
  split_ifs at hs
  obtain ⟨l, hl, rfl⟩ := Option.map_eq_some_iff.mp hs
  have hkept : (l.server.mem = w.loop.server.mem ∧ l.ring i = w.loop.ring i ∧
      l.kickFd i = w.loop.kickFd i) ∧ w.loop.phase = .polling := by
    have hphase := poll_polling hl
    refine ⟨?_, hphase⟩
    unfold Loop.step at hl
    rw [hphase] at hl
    simp only [Option.some.injEq] at hl
    subst hl
    unfold Loop.onReady
    cases recv with
    | none => exact ⟨rfl, rfl, rfl⟩
    | some r =>
      cases r with
      | error e =>
        cases e with
        | disconnected => exact ⟨rfl, rfl, rfl⟩
        | _ => exact ⟨rfl, rfl, rfl⟩
      | ok m =>
        cases hm : w.loop.server.handleOneMessage env m with
        | error e =>
          simp only [hm]
          cases e with
          | disconnected => exact ⟨rfl, rfl, rfl⟩
          | _ => exact ⟨rfl, rfl, rfl⟩
        | ok srv =>
          simp only [hm]
          exact spares_ring (hspares m rfl) hm
  obtain ⟨⟨hmem, hring, hfd⟩, hphase⟩ := hkept
  have hidx : l.availIdx i = w.loop.availIdx i := availIdx_congr hmem hring
  refine ⟨?_, ?_, ?_, ?_⟩
  · intro hnone
    exact h.mem (hmem.symm.trans hnone)
  · intro hnone
    exact h.ring (hring.symm.trans hnone)
  · exact h.attended.kept (settled_congr hring hidx) rfl (pending_congr rfl hfd)
      fun hbusy => (not_busy_polling hbusy hphase).elim
  · intro j hj fd hpolled hown
    exact happart j hj fd hpolled (hfd.symm.trans hown)

/-- A read of `drain_fd` takes from the kick of the ring being served, and leaves the rest. -/
theorem read_step (hs : w.step .read = some w') : ∃ j rest turn n fd,
    w.loop.phase = .serving j rest turn n ∧ w.polled j = some fd ∧
    w'.loop = w.loop ∧ w'.polled = w.polled ∧ w'.owed = w.owed ∧ w'.untold = w.untold ∧
    (w'.kicks = w.kicks ∨ ∃ kick, w'.kicks = Function.update w.kicks fd kick) := by
  unfold Wired.step at hs
  cases hphase : w.loop.phase with
  | polling =>
    simp only [hphase] at hs
    cases hs
  | stopped r =>
    simp only [hphase] at hs
    cases hs
  | serving j rest turn n =>
    simp only [hphase] at hs
    split_ifs at hs
    obtain ⟨fd, hfd, hs⟩ := Option.bind_eq_some_iff.mp hs
    refine ⟨j, rest, turn, n, fd, rfl, hfd, ?_⟩
    unfold Wired.drainRead at hs
    split_ifs at hs
    · split at hs
      · cases hs
      · cases hs
        exact ⟨rfl, rfl, rfl, rfl, Or.inl rfl⟩
      · cases hs
        exact ⟨rfl, rfl, rfl, rfl, Or.inr ⟨_, rfl⟩⟩
    · cases hs
      exact ⟨rfl, rfl, rfl, rfl, Or.inl rfl⟩

/-- Draining the kick of another ring leaves that of ring `i`. -/
theorem read_watched (h : w.Watched i) (hs : w.step .read = some w') : w'.Watched i := by
  obtain ⟨j, rest, turn, n, fd, hphase, hfd, hloop, hpolled, howed, -, hkicks⟩ := read_step hs
  refine ⟨?_, ?_, ?_, ?_⟩
  · rw [hloop]
    exact h.mem
  · rw [hloop]
    exact h.ring
  · by_cases hij : j = i
    · subst hij
      exact .busy (.serving rest turn n (by rw [hloop, hphase]))
    · have hpending : w'.pending i = w.pending i := by
        unfold Wired.pending
        rw [hloop]
        cases hown : w.loop.kickFd i with
        | none => rfl
        | some own =>
          have hne : own ≠ fd := fun heq => h.apart j hij fd hfd (heq ▸ hown)
          rcases hkicks with hkicks | ⟨kick, hkicks⟩
          · rw [hkicks]
          · simp only [hkicks, Option.map_some, Option.getD_some, Function.update_of_ne hne]
      apply h.attended.kept
      · rw [hloop]
        exact id
      · rw [howed]
      · exact hpending
      · rw [hloop]
        exact id
  · rw [hloop, hpolled]
    exact h.apart

/-- A step of a turn leaves ring `i` attended: its own turn ends when nothing is available. -/
theorem serve_watched {env : Env} (h : w.Watched i) (hf : w.Fair i (.serve env))
    (hs : w.step (.serve env) = some w') : w'.Watched i := by
  unfold Wired.step at hs
  simp only at hs
  split_ifs at hs
  obtain ⟨l, hl, rfl⟩ := Option.map_eq_some_iff.mp hs
  unfold Loop.step at hl
  cases hphase : w.loop.phase with
  | polling =>
    simp only [hphase] at hl
    cases hl
  | stopped r =>
    simp only [hphase] at hl
    cases hl
  | serving j rest turn n =>
    simp only [hphase] at hl
    have hl : w.loop.onServe env j rest turn n = l := Option.some.inj hl
    obtain ⟨mem, hmem⟩ := Option.ne_none_iff_exists'.mp h.mem
    obtain ⟨vq, hvq⟩ := Option.ne_none_iff_exists'.mp h.ring
    cases hvqj : w.loop.ring j with
    | none =>
      have hij : j ≠ i := by
        rintro rfl
        exact h.ring hvqj
      rw [onServe_unbuilt env rest turn n (Or.inr hvqj)] at hl
      subst hl
      refine ⟨h.mem, h.ring, ?_, h.apart⟩
      exact h.attended.kept id rfl rfl fun hbusy => hbusy.passed hij hphase rfl
    | some vqj =>
      rcases onServe_cases env rest turn n hmem hvqj with ⟨r, hstop, hmem', hrings⟩ | hturned
      · rw [hl] at hstop hmem' hrings
        refine ⟨hmem', ?_, .busy (.stopped r hstop), ?_⟩
        · unfold Loop.ring
          rw [hrings]
          exact h.ring
        · unfold Loop.kickFd
          rw [hrings]
          exact h.apart
      · obtain ⟨vq', next, d', hstep, hmem', hrings, hnext, -⟩ := hturned
        rw [hl] at hmem' hrings hnext
        obtain ⟨hstored, hempty⟩ := turnStep_stores hstep
        have hown : j = i → l.ring i = some vq' := by
          intro hij
          rw [← hij]
          exact ring_modify_eq hvqj hrings
        have hother : j ≠ i → l.ring i = w.loop.ring i := by
          intro hij
          unfold Loop.ring
          rw [hrings, ring_modify_ne hij]
        have hfd : l.kickFd = w.loop.kickFd := kickFd_modify hrings
        have hkept : j ≠ i → w.loop.Settled i → l.Settled i := by
          intro hij
          apply settled_congr (hother hij)
          unfold Loop.availIdx
          rw [hmem', hmem, hother hij, hvq]
          exact readU16_kept hstored fun p hp =>
            hf mem vq vqj j rest turn n p hmem hvq hphase hvqj hp
        refine ⟨?_, ?_, ?_, ?_⟩
        · show l.server.mem ≠ none
          rw [hmem']
          exact Option.some_ne_none _
        · show l.ring i ≠ none
          by_cases hij : j = i
          · rw [hown hij]
            exact Option.some_ne_none _
          · rw [hother hij]
            exact h.ring
        · cases next with
          | some turn' =>
            have hphase' : l.phase = .serving j rest turn' (countProcessed n turn) := hnext
            by_cases hij : j = i
            · rw [hij] at hphase'
              exact .busy (.serving rest turn' _ hphase')
            · apply h.attended.kept
              · exact hkept hij
              · rfl
              · exact pending_congr rfl (congrFun hfd i)
              · exact fun hbusy => hbusy.turned hphase hphase'
          | none =>
            have hphase' : l.phase = .next rest := hnext
            by_cases hij : j = i
            · obtain ⟨-, rfl, rfl, hread⟩ := hempty rfl
              refine .settled ⟨vq', hown hij, ?_⟩
              show l.availIdx i = _
              unfold Loop.availIdx
              rw [hmem', hown hij]
              exact hread
            · apply h.attended.kept
              · exact hkept hij
              · rfl
              · exact pending_congr rfl (congrFun hfd i)
              · exact fun hbusy => hbusy.passed hij hphase hphase'
        · show ∀ j, j ≠ i → ∀ fd, w.polled j = some fd → l.kickFd i ≠ some fd
          rw [hfd]
          exact h.apart

private theorem step_watched {x : Signal} (h : w.Watched i) (hf : w.Fair i x)
    (hs : w.step x = some w') :
    w'.Watched i := by
  cases x with
  | guest bytes => exact guest_watched h hs
  | kick fd n => exact kick_watched h hs
  | poll env recv hangup => exact poll_watched h hf hs
  | read => exact read_watched h hs
  | serve env => exact serve_watched h hf hs
  | interrupted env =>
    obtain ⟨l, hl, rfl⟩ := Option.map_eq_some_iff.mp hs
    have hphase := poll_polling hl
    unfold Loop.step at hl
    simp only [hphase] at hl
    cases hl
    exact ⟨h.mem, h.ring, h.attended.kept id rfl rfl id, h.apart⟩
  | failed env errno =>
    obtain ⟨l, hl, rfl⟩ := Option.map_eq_some_iff.mp hs
    have hphase := poll_polling hl
    unfold Loop.step at hl
    simp only [hphase] at hl
    cases hl
    exact ⟨h.mem, h.ring, .busy (.stopped _ rfl), h.apart⟩

end Steps

/-- However the guest's writes and kicks fall between the server's steps: once ring `i` is watched,
the server never waits in `poll` over a head that was published and kicked. -/
theorem no_lost_kick (i : ℕ) (w₀ w : Wired) (xs : List Signal) (h₀ : w₀.Watched i)
    (hfair : Along Wired.step (Wired.Fair i) w₀ xs) (hrun : run Wired.step w₀ xs = some w)
    (hrest : w.loop.phase = .polling) (hkicked : w.owed i = false) (hpending : w.pending i = 0) :
    w.loop.Settled i := by
  have hwatched : w.Watched i := by
    revert hfair
    refine run_induction (P := fun xs w => Along Wired.step (Wired.Fair i) w₀ xs → w.Watched i)
      ?_ ?_ hrun
    · intro _
      exact h₀
    · intro ys x w₁ w₂ hrun₁ ih hs halong
      obtain ⟨halong₁, hlast⟩ := along_concat.mp halong
      exact step_watched (ih halong₁) (hlast w₁ hrun₁) hs
  cases hwatched.attended with
  | settled h => exact h
  | owed h =>
    rw [hkicked] at h
    cases h
  | kicked h => omega
  | busy h => exact (not_busy_polling h hrest).elim

/-- A server and descriptors on which nothing has happened. -/
def Wired.new (session : Session) : Wired where
  loop := .new session
  kicks := fun _ => ⟨.eventfd, true, 0⟩
  polled := fun _ => none
  draining := false
  owed := fun _ => false
  untold := fun _ => 0

def hear (m : Message) : Signal := .poll ringHost (some (.ok m)) false

/-- The front-end sets up ring 0 with a kick and a call. -/
def wiredSetup : List Signal :=
  [ringMessage .setMemTable (MemoryRegions.toBytes [⟨0x1000, 0x1000, 0x10000, 0⟩]) [5],
    ringState .setVringNum 4, ringAddr,
    ringMessage .setVringKick (VringFdPayload.toBytes ⟨0, false⟩) [6],
    ringMessage .setVringCall (VringFdPayload.toBytes ⟨0, false⟩) [7]].map hear

/-- It enables the ring, and the guest kicks. -/
def wiredStart : List Signal := wiredSetup ++ [hear (ringState .setVringEnable 1)] ++ [.kick 6 1]

/-- The kick is taken and the request served; the guest kicks again in the middle of it. -/
def wiredService : List Signal :=
  [.poll ringHost none false, .read, .serve (calm 20 []), .kick 6 1] ++
    List.replicate 4 (.serve (calm 20 [])) ++
    [.poll ringHost none false, .read, .serve (calm 20 [])]

/-- The rings of the small memory lie before the buffers, and only ring 0 has a kick. -/
def smallLayout (w : Wired) : Bool :=
  w.loop.server.mem.all (fun mem => mem.regions == (smallMemory []).regions) &&
  (w.loop.ring 0).all (fun vq => vq.availAddr == 0x10080 && vq.usedAddr == 0x10090) &&
  w.loop.server.vrings.length == 2 && (w.loop.kickFd 1).isNone &&
  match w.loop.phase with
  | .serving i _ (.service _ chain) _ => i == 0 && chain.writable == ringChain.writable
  | .serving i _ _ _ => i == 0
  | _ => true

/-- Where an address of the small memory lies. -/
theorem slicePtr_small {mem : GuestMemory} {space : AddrSpace} {addr len : UInt64} {p : ℕ}
    (hr : mem.regions = (smallMemory []).regions) (h : mem.slicePtr space addr len = some p) :
    p + (if space = .gpa then 0x1000 else 0x10000) = 0x4000 + addr.toNat := by
  obtain ⟨r, hmem, hlow, -, rfl⟩ := slicePtr_some h
  rw [hr] at hmem
  rw [List.mem_singleton.mp hmem] at hlow ⊢
  cases space with
  | gpa =>
    have hbase : (Region.baseFor ⟨0x1000, 0x10000, 0x1000, 0x4000, 0x4000, 0x1000⟩ .gpa).toNat =
        0x1000 := rfl
    rw [hbase] at hlow ⊢
    simp only [if_true]
    omega
  | user =>
    have hbase : (Region.baseFor ⟨0x1000, 0x10000, 0x1000, 0x4000, 0x4000, 0x1000⟩ .user).toNat =
        0x10000 := rfl
    rw [hbase] at hlow ⊢
    simp only [reduceCtorEq, if_false]
    omega

private theorem smallLayout_indexClear {w : Wired} (h : smallLayout w = true) :
    w.loop.IndexClear 0 := by
  unfold smallLayout at h
  simp only [Bool.and_eq_true, beq_iff_eq] at h
  obtain ⟨⟨⟨⟨hregions, hring⟩, -⟩, -⟩, hturn⟩ := h
  intro mem vq vqj j rest turn n p hmem hvq hphase hvqj hp x hlow hhigh hstores
  rw [hmem] at hregions
  simp only [Option.all_some, beq_iff_eq] at hregions
  rw [hvq] at hring
  simp only [Option.all_some, Bool.and_eq_true, beq_iff_eq] at hring
  obtain ⟨havail, hused⟩ := hring
  rw [hphase] at hturn
  have hat := slicePtr_small hregions hp
  rw [havail] at hat
  simp only [reduceCtorEq, if_false] at hat
  have hindex : (0x10080 + 2 : UInt64).toNat = 0x10082 := rfl
  cases turn with
  | popAvail => exact hstores
  | readChain head => exact hstores
  | service head chain =>
    simp only [Bool.and_eq_true, beq_iff_eq] at hturn
    obtain ⟨s, hs, o, len, q, hle, hq, hx, -⟩ := hstores
    rw [hturn.2] at hs
    rw [List.mem_singleton.mp hs] at hle hq
    have hbuf := slicePtr_small hregions hq
    simp only [if_true] at hbuf
    have haddr : ((0x1800 : UInt64) + o).toNat = 0x1800 + o.toNat := by
      rw [UInt64.toNat_add]
      have hle : o.toNat + len.toNat ≤ 200 := hle
      have hbase : (0x1800 : UInt64).toNat = 0x1800 := rfl
      rw [hbase]
      omega
    omega
  | pushUsed head written =>
    have hj : j = 0 := by simpa using hturn
    rw [hj, hvq] at hvqj
    cases hvqj
    obtain ⟨idx, q, qid, qlen, hcells, hx⟩ := hstores
    have hq := slicePtr_small hregions hcells.index
    have hqid := slicePtr_small hregions hcells.id
    have hqlen := slicePtr_small hregions hcells.length
    simp only [reduceCtorEq, if_false] at hq hqid hqlen
    rw [hused] at hq
    have hslot : (idx % vq.queueSize).toUInt64.toNat < 2 ^ 16 := by
      rw [UInt16.toNat_toUInt64]
      exact UInt16.toNat_lt _
    have helem : (vq.usedElem idx).toNat =
        0x10094 + (idx % vq.queueSize).toUInt64.toNat * 8 := by
      simp only [Virtqueue.usedElem, hused, USED_RING_OFFSET, USED_ELEM_LEN, UInt64.toNat_add,
        UInt64.toNat_mul, UInt64.reduceToNat]
      omega
    have hlength : (vq.usedElem idx + 4).toNat = (vq.usedElem idx).toNat + 4 := by
      simp only [UInt64.toNat_add, UInt64.reduceToNat]
      omega
    have hnext : (0x10090 + 2 : UInt64).toNat = 0x10092 := rfl
    omega

theorem smallLayout_kickApart {w : Wired} (h : smallLayout w = true) : w.loop.KickApart 0 := by
  unfold smallLayout at h
  simp only [Bool.and_eq_true, beq_iff_eq, Option.isNone_iff_eq_none] at h
  obtain ⟨⟨⟨-, hlen⟩, hnone⟩, -⟩ := h
  intro j hj fd hfd
  by_cases hone : j = 1
  · rw [hone, hnone] at hfd
    cases hfd
  · have hout : w.loop.server.vrings[j]? = none := List.getElem?_eq_none (by omega)
    unfold Loop.kickFd at hfd
    rw [hout] at hfd
    cases hfd

/-- No message comes. -/
def Signal.silent : Signal → Bool
  | .poll _ recv _ => recv.isNone
  | _ => true

private theorem smallLayout_fair {w : Wired} {x : Signal}
    (h : smallLayout w = true ∧ x.silent = true) :
    w.Fair 0 x := by
  obtain ⟨hlayout, hsilent⟩ := h
  cases x with
  | poll env recv hangup =>
    have hnone : recv = none := Option.isNone_iff_eq_none.mp hsilent
    refine ⟨smallLayout_kickApart hlayout, fun m hm => ?_⟩
    rw [hnone] at hm
    cases hm
  | serve env => exact smallLayout_indexClear hlayout
  | _ => trivial

/-- After its last message, a front-end that kicks has ring 0 watched. -/
theorem setup_watched {w₁ w₂ w₃ : Wired} {env : MsgEnv} {recv : Option (Except ProtoError Message)}
    {n : ℕ} (hlayout : smallLayout w₁ = true) (hpoll : w₁.step (.poll env recv false) = some w₂)
    (hkick : w₂.step (.kick 6 n) = some w₃) (hfd : w₁.loop.kickFd 0 = some 6)
    (hbuilt : w₃.loop.server.mem.isSome = true ∧ (w₃.loop.ring 0).isSome = true ∧
      w₃.loop.kickFd 0 = some 6 ∧ 0 < w₃.pending 0) : w₃.Watched 0 := by
  obtain ⟨hmem, hring, hfd₃, hpending⟩ := hbuilt
  refine ⟨Option.isSome_iff_ne_none.mp hmem, Option.isSome_iff_ne_none.mp hring, .kicked hpending, ?_⟩
  have hpolled : w₃.polled = w₁.loop.kickFd := by
    unfold Wired.step at hpoll hkick
    simp only at hpoll hkick
    split_ifs at hkick
    cases hkick
    split_ifs at hpoll
    obtain ⟨l, -, rfl⟩ := Option.map_eq_some_iff.mp hpoll
    rfl
  intro j hj fd hpoll₃
  rw [hpolled] at hpoll₃
  rw [hfd₃, ← hfd]
  exact smallLayout_kickApart hlayout j hj fd hpoll₃

def Phase.waits : Phase → Bool
  | .polling => true
  | _ => false

private theorem waits_polling {phase : Phase} (h : phase.waits = true) : phase = .polling := by
  cases phase with
  | polling => rfl
  | serving i rest turn n => cases h
  | stopped r => cases h

/-- A request is published and served while the guest kicks a second time. -/
theorem no_lost_kick_request : ∃ w₀ w,
    run Wired.step (.new (.new smallWorld)) wiredStart = some w₀ ∧
    w₀.loop.availIdx 0 = some 1 ∧ (w₀.loop.ring 0).map Virtqueue.lastAvailIdx = some 0 ∧
    run Wired.step w₀ wiredService = some w ∧ w.loop.Settled 0 := by
  have hlayout : (run Wired.step (.new (.new smallWorld)) wiredSetup).map
      (fun w => (smallLayout w, w.loop.kickFd 0)) = some (true, some 6) := by decide +kernel
  have hready : (run Wired.step (.new (.new smallWorld)) wiredStart).map
      (fun w => (w.loop.server.mem.isSome, w.loop.kickFd 0, w.pending 0, w.loop.availIdx 0,
        (w.loop.ring 0).map Virtqueue.lastAvailIdx)) =
      some (true, some 6, 1, some 1, some 0) := by decide +kernel
  have hend : (run Wired.step (.new (.new smallWorld)) (wiredStart ++ wiredService)).map
      (fun w => (w.loop.phase.waits, w.owed 0, w.pending 0)) = some (true, false, 0) := by
    decide +kernel
  have halong : (run Wired.step (.new (.new smallWorld)) wiredStart).map
      (fun w => decide (Along Wired.step (fun w x => smallLayout w = true ∧ x.silent = true) w
        wiredService)) = some true := by decide +kernel
  obtain ⟨w, hrun, hw⟩ := Option.map_eq_some_iff.mp hend
  rw [run_append] at hrun
  obtain ⟨w₀, hrun₀, hservice⟩ := Option.bind_eq_some_iff.mp hrun
  rw [hrun₀] at hready halong
  obtain ⟨w₂, hrun₂, hkick⟩ := run_concat_some hrun₀
  obtain ⟨w₁, hrun₁, hpoll⟩ := run_concat_some hrun₂
  rw [hrun₁] at hlayout
  simp only [Option.map_some, Option.some.injEq, Prod.mk.injEq] at hlayout hready hw
  obtain ⟨hlayout, hfd⟩ := hlayout
  obtain ⟨hmem, hfd₀, hpending₀, havail, hlast⟩ := hready
  obtain ⟨hwaits, howed, hpending⟩ := hw
  have hring : (w₀.loop.ring 0).isSome = true := by
    rw [← Option.isSome_map, hlast]
    rfl
  refine ⟨w₀, w, hrun₀, havail, hlast, hservice, ?_⟩
  apply no_lost_kick 0 w₀ w wiredService
  · exact setup_watched hlayout hpoll hkick hfd ⟨hmem, hring, hfd₀, by omega⟩
  · have hfair := of_decide_eq_true (Option.some.inj halong)
    exact hfair.mono fun _ _ => smallLayout_fair
  · exact hservice
  · exact waits_polling hwaits
  · exact howed
  · exact hpending

end Riftlessfs.VhostUser
