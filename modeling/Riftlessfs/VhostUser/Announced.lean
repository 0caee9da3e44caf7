import Riftlessfs.VhostUser.NoLostKick

/-! No used element is left unannounced: what `process_vring` has pushed since the guest was last
notified was pushed in the turn that is still going on. -/
namespace Riftlessfs.VhostUser
open Lib.Flat Lib.Effect Lib.Run Riftlessfs.Core Riftlessfs.Proto Riftlessfs.Fuse

def Wired.Callable (w : Wired) : Signal → Prop
  | .serve _ => ∀ i rest turn n, w.loop.phase = .serving i rest turn n → w.loop.callFd i ≠ none
  | _ => True

/-- Nothing was pushed on other rings than the one being served, and on that one as much as the
turn counts. -/
structure Wired.Told (w : Wired) : Prop where
  polling : w.loop.phase = .polling → ∀ i, w.untold i = 0
  serving : ∀ i rest turn n, w.loop.phase = .serving i rest turn n →
    w.untold i = n ∧ ∀ j, j ≠ i → w.untold j = 0
  built : ∀ i rest turn n, w.loop.phase = .serving i rest turn n →
    (w.loop.server.mem ≠ none ∧ w.loop.ring i ≠ none) ∨ (turn = .popAvail ∧ n = 0)

section Steps
variable {w w' : Wired} {l l' : Loop} {i n : ℕ} {rest : List ℕ}

/-- With nothing untold, the rings that come next start afresh. -/
theorem told_next (hphase : w.loop.phase = .next rest) (h : ∀ i, w.untold i = 0) : w.Told := by
  obtain ⟨hnext, -⟩ | ⟨j, rest', -, hnext⟩ := next_phase rest
  · rw [hnext] at hphase
    refine ⟨fun _ => h, fun i rest turn n hserving => ?_, fun i rest turn n hserving => ?_⟩
    · rw [hphase] at hserving
      cases hserving
    · rw [hphase] at hserving
      cases hserving
  · rw [hnext] at hphase
    refine ⟨fun _ => h, fun i rest turn n hserving => ?_, fun i rest turn n hserving => ?_⟩
    · rw [hphase] at hserving
      cases hserving
      exact ⟨h _, fun k _ => h k⟩
    · rw [hphase] at hserving
      cases hserving
      exact Or.inr ⟨rfl, rfl⟩

theorem told_stopped {r : Except Halt Unit} (hphase : w.loop.phase = .stopped r) : w.Told := by
  refine ⟨fun hpolling => ?_, fun i rest turn n hserving => ?_, fun i rest turn n hserving => ?_⟩
  · rw [hphase] at hpolling
    cases hpolling
  · rw [hphase] at hserving
    cases hserving
  · rw [hphase] at hserving
    cases hserving

/-- Steps that leave the phase and the rings leave what is told. -/
theorem Wired.Told.kept (h : w.Told) (hphase : w'.loop.phase = w.loop.phase)
    (huntold : w'.untold = w.untold) (hmem : w.loop.server.mem ≠ none → w'.loop.server.mem ≠ none)
    (hring : w'.loop.ring = w.loop.ring) : w'.Told := by
  constructor
  · rw [hphase, huntold]
    exact h.polling
  · rw [hphase, huntold]
    exact h.serving
  · intro i rest turn n hserving
    rw [hphase] at hserving
    rcases h.built i rest turn n hserving with ⟨hsome, hvq⟩ | hfirst
    · left
      rw [hring]
      exact ⟨hmem hsome, hvq⟩
    · exact Or.inr hfirst

/-- What `poll` returning leads to. -/
theorem onReady_phase (env : MsgEnv) (recv : Option (Except ProtoError Message)) (hangup : Bool)
    (kicked : ℕ → Bool) : (∃ r, (l.onReady env recv hangup kicked).phase = .stopped r) ∨
      ∃ rest, (l.onReady env recv hangup kicked).phase = .next rest := by
  have hset : (∃ r, (if hangup then Phase.stopped (.ok ()) else
      .next (l.server.kickSlots.filter kicked)) = .stopped r) ∨
      ∃ rest, (if hangup then Phase.stopped (.ok ()) else
        .next (l.server.kickSlots.filter kicked)) = .next rest := by
    cases hangup with
    | true => exact Or.inl ⟨_, rfl⟩
    | false => exact Or.inr ⟨_, rfl⟩
  unfold Loop.onReady
  cases recv with
  | none => exact hset
  | some r =>
    cases r with
    | error e =>
      cases e with
      | disconnected => exact Or.inl ⟨_, rfl⟩
      | _ => exact Or.inl ⟨_, rfl⟩
    | ok m =>
      cases hm : l.server.handleOneMessage env m with
      | error e =>
        simp only [hm]
        cases e with
        | disconnected => exact Or.inl ⟨_, rfl⟩
        | _ => exact Or.inl ⟨_, rfl⟩
      | ok srv =>
        simp only [hm]
        exact hset

theorem announced_popped (heads : List UInt16)
    (h : l'.history = heads.map (.popped i) ++ l.history) (j : ℕ) : announced j l l' = false := by
  unfold announced
  rw [h]
  cases heads with
  | cons head heads => rfl
  | nil =>
    rw [List.map_nil, List.nil_append]
    cases hl : l.history with
    | nil => rfl
    | cons e older =>
      cases e with
      | handled m => rfl
      | popped j head => rfl
      | notified fd => simp

private theorem announced_notified {fd : RawFd} (h : l'.history = .notified fd :: l.history)
    (hcall : l.callFd i = some fd) : announced i l l' = true := by
  unfold announced
  rw [h]
  simp [hcall]

/-- Only a push makes an element untold. -/
theorem untoldAfter_quiet {untold : ℕ → ℕ} {turn : Turn} (hphase : l.phase = .serving i rest turn n)
    (hturn : ∀ head written, turn ≠ .pushUsed head written) :
    untoldAfter untold l l' = if announced i l l' then Function.update untold i 0 else untold := by
  unfold untoldAfter
  rw [hphase]
  cases turn with
  | popAvail => rfl
  | readChain head => rfl
  | service head chain => rfl
  | pushUsed head written => exact absurd rfl (hturn head written)

private theorem untoldAfter_push {untold : ℕ → ℕ} {turn' : Turn} {n' : ℕ} {head : UInt16}
    {written : UInt32} (hphase : l.phase = .serving i rest (.pushUsed head written) n)
    (hphase' : l'.phase = .serving i rest turn' n') :
    untoldAfter untold l l' = Function.update untold i (untold i + 1) := by
  unfold untoldAfter
  rw [hphase, hphase']

/-- What a turn that goes on has pushed is what it counts. -/
theorem untoldAfter_turned {untold : ℕ → ℕ} {turn turn' : Turn} {heads : List UInt16}
    (hphase : l.phase = .serving i rest turn n)
    (hphase' : l'.phase = .serving i rest turn' (countProcessed n turn))
    (hhistory : l'.history = heads.map (.popped i) ++ l.history) (huntold : untold i = n) :
    untoldAfter untold l l' = Function.update untold i (countProcessed n turn) := by
  cases turn with
  | pushUsed head written =>
    rw [untoldAfter_push hphase hphase', huntold]
    rfl
  | _ =>
    rw [untoldAfter_quiet hphase (by intro _ _ h; cases h), announced_popped heads hhistory i,
      ← huntold]
    exact (Function.update_eq_self i untold).symm

/-- The turn that ends tells its guest of all it has pushed. -/
theorem untoldAfter_end {untold : ℕ → ℕ} (hphase : l.phase = .serving i rest .popAvail n)
    (hhistory : l'.history = (l.callFdAfter i n).toList.map .notified ++ l.history)
    (hcall : l.callFd i ≠ none) (huntold : untold i = n) : untoldAfter untold l l' =
      Function.update untold i 0 := by
  rw [untoldAfter_quiet hphase (by intro _ _ h; cases h)]
  unfold Loop.callFdAfter at hhistory
  split_ifs at hhistory with hn
  · obtain ⟨fd, hfd⟩ := Option.ne_none_iff_exists'.mp hcall
    rw [hfd] at hhistory
    rw [announced_notified hhistory hfd]
    rfl
  · have hquiet : announced i l l' = false := announced_popped (i := i) [] hhistory i
    have hzero : untold i = 0 := by omega
    rw [hquiet, ← hzero, Function.update_eq_self]
    rfl

private theorem serve_told {env : Env} (h : w.Told) (hcall : w.Callable (.serve env))
    (hs : w.step (.serve env) = some w') : w'.Told := by
  unfold Wired.step at hs
  simp only at hs
  split_ifs at hs
  obtain ⟨l, hl, rfl⟩ := Option.map_eq_some_iff.mp hs
  unfold Loop.step at hl
  cases hphase : w.loop.phase with
  | polling =>
    simp only [hphase] at hl
    cases hl
  | stopped r =>
    simp only [hphase] at hl
    cases hl
  | serving i rest turn n =>
    simp only [hphase] at hl
    have hl : w.loop.onServe env i rest turn n = l := Option.some.inj hl
    obtain ⟨hown, hothers⟩ := h.serving i rest turn n hphase
    by_cases hbuilt : w.loop.server.mem ≠ none ∧ w.loop.ring i ≠ none
    · obtain ⟨mem, hmem⟩ := Option.ne_none_iff_exists'.mp hbuilt.1
      obtain ⟨vq, hvq⟩ := Option.ne_none_iff_exists'.mp hbuilt.2
      rcases onServe_cases env rest turn n hmem hvq with ⟨r, hstop, -⟩ | hturned
      · rw [hl] at hstop
        exact told_stopped hstop
      · obtain ⟨vq', next, d', hstep, hmem', hrings, hnext, hhistory⟩ := hturned
        rw [hl] at hmem' hrings hnext hhistory
        cases next with
        | some turn' =>
          have hphase' : l.phase = .serving i rest turn' (countProcessed n turn) := hnext
          have huntold := untoldAfter_turned hphase hphase' hhistory hown
          have hring : l.ring i = some vq' := ring_modify_eq hvq hrings
          refine ⟨fun hpolling => ?_, fun j rest₁ turn₁ n₁ hserving => ?_,
            fun j rest₁ turn₁ n₁ hserving => ?_⟩
          · rw [hphase'] at hpolling
            cases hpolling
          · rw [hphase'] at hserving
            cases hserving
            show untoldAfter w.untold w.loop l i = _ ∧ ∀ j, j ≠ i → untoldAfter w.untold w.loop l j = 0
            rw [huntold]
            refine ⟨Function.update_self .., fun j hj => ?_⟩
            rw [Function.update_of_ne hj]
            exact hothers j hj
          · rw [hphase'] at hserving
            cases hserving
            left
            show l.server.mem ≠ none ∧ l.ring i ≠ none
            rw [hmem', hring]
            exact ⟨Option.some_ne_none _, Option.some_ne_none _⟩
        | none =>
          obtain ⟨rfl, -⟩ := (turnStep_stores hstep).2 rfl
          have huntold := untoldAfter_end hphase hhistory (hcall i rest _ n hphase) hown
          apply told_next hnext
          intro j
          show untoldAfter w.untold w.loop l j = 0
          rw [huntold]
          by_cases hj : j = i
          · rw [hj]
            exact Function.update_self ..
          · rw [Function.update_of_ne hj]
            exact hothers j hj
    · have hfirst : turn = .popAvail ∧ n = 0 := (h.built i rest turn n hphase).resolve_left hbuilt
      obtain ⟨rfl, rfl⟩ := hfirst
      have hunbuilt : w.loop.server.mem = none ∨ w.loop.ring i = none := by
        by_contra hboth
        rw [not_or] at hboth
        exact hbuilt hboth
      rw [onServe_unbuilt env rest .popAvail 0 hunbuilt] at hl
      subst hl
      have hquiet : announced i w.loop { w.loop with phase := .next rest } = false :=
        announced_popped (i := i) [] rfl i
      refine told_next rfl fun j => ?_
      show untoldAfter w.untold w.loop { w.loop with phase := .next rest } j = 0
      rw [untoldAfter_quiet hphase (by intro _ _ h; cases h), hquiet]
      by_cases hj : j = i
      · rw [hj]
        exact hown
      · exact hothers j hj

private theorem step_told {x : Signal} (h : w.Told) (hcall : w.Callable x)
    (hs : w.step x = some w') :
    w'.Told := by
  cases x with
  | guest bytes =>
    unfold Wired.step at hs
    obtain ⟨l, hl, rfl⟩ := Option.map_eq_some_iff.mp hs
    obtain ⟨hphase, hring, -, hmem⟩ := guest_step hl
    exact h.kept hphase rfl hmem hring
  | kick fd m =>
    unfold Wired.step at hs
    simp only at hs
    split_ifs at hs
    cases hs
    exact h.kept rfl rfl id rfl
  | poll env recv hangup =>
    unfold Wired.step at hs
    simp only at hs
    split_ifs at hs
    obtain ⟨l, hl, rfl⟩ := Option.map_eq_some_iff.mp hs
    have hphase := poll_polling hl
    unfold Loop.step at hl
    simp only [hphase, Option.some.injEq] at hl
    rcases onReady_phase (l := w.loop) env recv hangup (fun i => decide (0 < w.pending i)) with
      ⟨r, hready⟩ | ⟨rest, hready⟩
    · rw [hl] at hready
      exact told_stopped hready
    · rw [hl] at hready
      exact told_next hready (h.polling hphase)
  | interrupted env =>
    obtain ⟨l, hl, rfl⟩ := Option.map_eq_some_iff.mp hs
    have hphase := poll_polling hl
    unfold Loop.step at hl
    simp only [hphase] at hl
    cases hl
    exact h.kept rfl rfl id rfl
  | failed env errno =>
    obtain ⟨l, hl, rfl⟩ := Option.map_eq_some_iff.mp hs
    have hphase := poll_polling hl
    unfold Loop.step at hl
    simp only [hphase] at hl
    cases hl
    exact told_stopped rfl
  | read =>
    obtain ⟨-, -, -, -, -, -, -, hloop, -, -, huntold, -⟩ := read_step hs
    have hmem : w.loop.server.mem ≠ none → w'.loop.server.mem ≠ none := by
      rw [hloop]
      exact id
    exact h.kept (by rw [hloop]) huntold hmem (by rw [hloop])
  | serve env => exact serve_told h hcall hs

end Steps

/-- Used elements the guest was not told of are those of the turn that is going on, unless the
server has stopped. -/
theorem used_announced (w₀ w : Wired) (xs : List Signal) (h₀ : w₀.loop.phase = .polling)
    (huntold : ∀ i, w₀.untold i = 0) (hcall : Along Wired.step Wired.Callable w₀ xs)
    (hrun : run Wired.step w₀ xs = some w) (i : ℕ) (hi : w.untold i ≠ 0) :
    (∃ rest turn, w.loop.phase = .serving i rest turn (w.untold i)) ∨
      ∃ r, w.loop.phase = .stopped r := by
  have htold : w.Told := by
    revert hcall
    refine run_induction (P := fun xs w => Along Wired.step Wired.Callable w₀ xs → w.Told)
      ?_ ?_ hrun
    · intro _
      have hphase : w₀.loop.phase = .next [] := h₀
      exact told_next hphase huntold
    · intro ys x w₁ w₂ hrun₁ ih hs halong
      obtain ⟨halong₁, hlast⟩ := along_concat.mp halong
      exact step_told (ih halong₁) (hlast w₁ hrun₁) hs
  cases hphase : w.loop.phase with
  | polling => exact absurd (htold.polling hphase i) hi
  | stopped r => exact Or.inr ⟨r, rfl⟩
  | serving j rest turn n =>
    obtain ⟨hown, hothers⟩ := htold.serving j rest turn n hphase
    by_cases hij : i = j
    · subst hij
      rw [hown]
      exact Or.inl ⟨rest, turn, rfl⟩
    · exact absurd (hothers i hij) hi

/-- The ring being served has a call fd. -/
def servedCalls (w : Wired) : Bool :=
  match w.loop.phase with
  | .serving i _ _ _ => (w.loop.callFd i).isSome
  | _ => true

private theorem servedCalls_callable {w : Wired} {x : Signal} (h : servedCalls w = true) :
    w.Callable x := by
  cases x with
  | serve env =>
    intro i rest turn n hphase
    unfold servedCalls at h
    rw [hphase] at h
    exact Option.isSome_iff_ne_none.mp h
  | _ => trivial

/-- Right after a push, its element is untold, and the turn goes on. -/
theorem used_announced_pushed : ∃ w,
    run Wired.step (.new (.new smallWorld)) (wiredStart ++ wiredService.take 7) = some w ∧
    w.untold 0 = 1 ∧ ((∃ rest turn, w.loop.phase = .serving 0 rest turn (w.untold 0)) ∨
      ∃ r, w.loop.phase = .stopped r) := by
  have hpushed : (run Wired.step (.new (.new smallWorld)) (wiredStart ++ wiredService.take 7)).map
      (fun w => w.untold 0) = some 1 := by decide +kernel
  have halong : Along Wired.step (fun w _ => servedCalls w = true) (.new (.new smallWorld))
      (wiredStart ++ wiredService.take 7) := by decide +kernel
  obtain ⟨w, hrun, hone⟩ := Option.map_eq_some_iff.mp hpushed
  refine ⟨w, hrun, hone, ?_⟩
  apply used_announced (.new (.new smallWorld)) w _ rfl (fun _ => rfl) _ hrun 0
  · rw [hone]
    exact one_ne_zero
  · exact halong.mono fun _ _ => servedCalls_callable

end Riftlessfs.VhostUser
