import Riftlessfs.VhostUser.RingConfig

/-! Which queue sizes are sound, and what follows when the front-end sends no other. -/
namespace Riftlessfs.VhostUser
open Lib.Effect Lib.Run Riftlessfs.Core Riftlessfs.Proto Riftlessfs.Fuse

/-- Sizes a virtqueue may have: the powers of two up to 32768. -/
def soundSize (n : ℕ) : Bool := (List.range 16).any fun k => n == 2 ^ k

def numSound (_ : Loop) : Event → Bool
  | .poll _ (.ready (some (.ok m)) _ _) =>
    match m.ringMsg with
    | some (_, .num n) => soundSize n.toNat
    | _ => true
  | _ => true

def NumsSound (history : List Happening) : Prop :=
  ∀ m i n, .handled m ∈ history → m.asks i = some (.num n) → soundSize n.toNat = true

section Sizes
variable {i : ℕ} {history : List Happening} {l l' : Loop} {e : Event}

private theorem soundSize_iff {n : ℕ} : soundSize n = true ↔ ∃ k, k ≤ 15 ∧ n = 2 ^ k := by
  unfold soundSize
  rw [List.any_eq_true]
  constructor
  · rintro ⟨k, hk, hn⟩
    have hlt := List.mem_range.mp hk
    exact ⟨k, by omega, beq_iff_eq.mp hn⟩
  · rintro ⟨k, hk, hn⟩
    exact ⟨k, List.mem_range.mpr (by omega), beq_iff_eq.mpr hn⟩

private theorem latest_mem {α : Type} {pick : RingMsg → Option α} {a : α}
    (h : latest i pick history = some a) :
    ∃ m r, .handled m ∈ history ∧ m.asks i = some r ∧ pick r = some a := by
  induction history with
  | nil => cases h
  | cons x older ih =>
    have hrest : latest i pick older = some a →
        ∃ m r, .handled m ∈ x :: older ∧ m.asks i = some r ∧ pick r = some a := by
      intro h'
      obtain ⟨m, r, hm, hr⟩ := ih h'
      exact ⟨m, r, List.mem_cons_of_mem x hm, hr⟩
    cases x with
    | handled m =>
      simp only [latest] at h
      cases hm : (m.asks i).bind pick with
      | none =>
        simp only [hm] at h
        exact hrest h
      | some a' =>
        simp only [hm] at h
        cases h
        obtain ⟨r, hr, hpick⟩ := Option.bind_eq_some_iff.mp hm
        exact ⟨m, r, List.mem_cons_self, hr, hpick⟩
    | popped j head => exact hrest h
    | notified fd => exact hrest h

/-- The size a queue was built with was sent. -/
theorem builtNum_mem {n : UInt32} (h : builtNum i history = some n) :
    ∃ m, .handled m ∈ history ∧ m.asks i = some (.num n) := by
  induction history with
  | nil => cases h
  | cons x older ih =>
    have hrest : builtNum i older = some n →
        ∃ m, .handled m ∈ x :: older ∧ m.asks i = some (.num n) := by
      intro h'
      obtain ⟨m, hm, hr⟩ := ih h'
      exact ⟨m, List.mem_cons_of_mem x hm, hr⟩
    cases x with
    | handled m =>
      simp only [builtNum] at h
      split at h
      · obtain ⟨m', r, hm', hr, hpick⟩ := latest_mem h
        cases r with
        | num n' =>
          cases hpick
          exact ⟨m', List.mem_cons_of_mem _ hm', hr⟩
        | _ => cases hpick
      · exact hrest h
    | popped j head => exact hrest h
    | notified fd => exact hrest h

theorem NumsSound.step (h : NumsSound l.history) (hsound : numSound l e = true)
    (hs : l.step e = some l') : NumsSound l'.history := by
  cases step_move hs with
  | quiet _ hhist _ => rwa [hhist]
  | polled _ _ _ _ _ _ hhist _ => rwa [hhist]
  | handled env m hangup kicked he _ _ hhist _ =>
    subst he
    rw [hhist]
    intro m' i n hm' hask
    rcases List.mem_cons.mp hm' with heq | hm'
    · cases heq
      simpa only [numSound, asks_iff.mp hask] using hsound
    · exact h m' i n hm' hask
  | turned _ _ _ _ _ _ _ _ _ hhist => rwa [hhist]
  | finished _ _ _ _ call _ _ _ hhist =>
    rw [hhist]
    intro m' i n hm' hask
    rcases List.mem_append.mp hm' with hm' | hm'
    · obtain ⟨fd, -, hfd⟩ := List.mem_map.mp hm'
      cases hfd
    · exact h m' i n hm' hask
  | popped _ _ _ _ _ _ _ _ _ _ _ _ hhist =>
    rw [hhist]
    intro m' i n hm' hask
    rcases List.mem_cons.mp hm' with heq | hm'
    · cases heq
    · exact h m' i n hm' hask

/-- Consecutive indices have consecutive slots, also at the wrap, when the size divides
`2 ^ 16`. -/
theorem slot_succ {qs : UInt16} {k : ℕ} (hk : k ≤ 15) (hqs : qs.toNat = 2 ^ k) (idx : UInt16) :
    ((idx + 1) % qs).toNat = ((idx % qs).toNat + 1) % qs.toNat := by
  have hdvd : 2 ^ k ∣ 2 ^ 16 := Nat.pow_dvd_pow 2 (by omega)
  rw [UInt16.toNat_mod, UInt16.toNat_mod, UInt16.toNat_add, hqs]
  show (idx.toNat + 1) % 2 ^ 16 % 2 ^ k = (idx.toNat % 2 ^ k + 1) % 2 ^ k
  rw [Nat.mod_mod_of_dvd _ hdvd, Nat.mod_add_mod]

private theorem popAvail_no_panic {vq : Virtqueue} (hpos : vq.queueSize ≠ 0) (mem : GuestMemory) :
    vq.popAvail mem ≠ .error .panic := by
  unfold Virtqueue.popAvail
  intro h
  split at h
  · cases h
  split_ifs at h
  simp only at h
  split at h
  · cases h
  · cases h

end Sizes

/-- In every run in which each `SET_VRING_NUM` carries a power of two up to 32768, every queue has
the size that was sent, popping never divides by zero, and consecutive indices have consecutive
slots. -/
theorem queue_sizes_sound (session : Session) (xs : List Event) (l : Loop)
    (hrun : run Loop.step (.new session) xs = some l)
    (hsound : Along Loop.step (fun l e => numSound l e = true) (.new session) xs)
    (i : ℕ) (slot : VringSlot) (vq : Virtqueue) (hslot : l.server.vrings[i]? = some slot)
    (hvq : slot.vq = some vq) :
    (∃ n k, builtNum i l.history = some n ∧ vq.queueSize.toNat = n.toNat ∧ k ≤ 15 ∧
        vq.queueSize.toNat = 2 ^ k) ∧
      vq.queueSize ≠ 0 ∧ (∀ mem, vq.popAvail mem ≠ .error .panic) ∧
      ∀ idx : UInt16, ((idx + 1) % vq.queueSize).toNat =
        ((idx % vq.queueSize).toNat + 1) % vq.queueSize.toNat := by
  have hnums : NumsSound l.history := by
    revert hsound
    refine run_induction (P := fun xs l =>
      Along Loop.step (fun l e => numSound l e = true) (.new session) xs → NumsSound l.history)
      ?_ ?_ hrun
    · intro _ m i n hm
      cases hm
    · intro ys e l₁ l₂ hrun₁ ih hs hsound
      obtain ⟨hsound₁, hlast⟩ := along_concat.mp hsound
      exact (ih hsound₁).step (hlast l₁ hrun₁) hs
  have hr := run_replayed hrun
  have hi := hr.lt hslot
  rw [hr.get hi] at hslot
  cases hslot
  obtain ⟨n, a, hbuilt, -, hsize, -⟩ := queueSize_slotAfter hvq
  obtain ⟨m, hm, hask⟩ := builtNum_mem hbuilt
  obtain ⟨k, hk, hn⟩ := soundSize_iff.mp (hnums m i n hm hask)
  have hlt : n.toNat < 2 ^ 16 := by
    rw [hn]
    exact Nat.pow_lt_pow_right (by omega) (by omega)
  have hqs : vq.queueSize.toNat = n.toNat := by
    rw [hsize, UInt32.toNat_toUInt16]
    exact Nat.mod_eq_of_lt hlt
  have hpos : vq.queueSize ≠ 0 := by
    intro hzero
    have hpow : 0 < 2 ^ k := Nat.two_pow_pos k
    rw [hzero] at hqs
    have h0 : (0 : UInt16).toNat = 0 := rfl
    omega
  refine ⟨⟨n, k, hbuilt, hqs, hk, hqs.trans hn⟩, hpos, popAvail_no_panic hpos, ?_⟩
  exact slot_succ hk (hqs.trans hn)

def panicked (l : Loop) : Bool :=
  match l.phase with
  | .stopped (.error .panic) => true
  | _ => false

/-- A size of 65536 is taken as 0 and makes the server panic at the first kick; a size of 3 is
taken as it is, and its slots repeat at the wrap. -/
theorem unsound_sizes_admitted :
    (run Loop.step (.new (.new smallWorld)) (ringSetupOf 65536 ++ ringService.take 2)).map
      panicked = some true ∧
    ((run Loop.step (.new (.new smallWorld)) (ringSetupOf 3)).bind fun l =>
      (l.server.vrings[0]?.bind VringSlot.vq).map Virtqueue.queueSize) = some 3 ∧
    (65535 : UInt16) % 3 = 0 ∧ ((65535 : UInt16) + 1) % 3 = 0 := by
  constructor
  · decide +kernel
  constructor
  · decide +kernel
  · decide

/-- The queue of a front-end that asks for a size of 4 is sound. -/
theorem queue_sizes_sound_four : ∃ l slot vq,
    run Loop.step (.new (.new smallWorld)) ringSetup = some l ∧
    l.server.vrings[0]? = some slot ∧ slot.vq = some vq ∧ vq.queueSize ≠ 0 ∧
    ∀ mem, vq.popAvail mem ≠ .error .panic := by
  have hsound : Along Loop.step (fun l e => numSound l e = true) (.new (.new smallWorld))
      ringSetup := by decide +kernel
  have hbuilt : (run Loop.step (.new (.new smallWorld)) ringSetup).bind
      (fun l => l.server.vrings[0]?.bind VringSlot.vq) = some ringQueue := by decide +kernel
  obtain ⟨l, hrun, hl⟩ := Option.bind_eq_some_iff.mp hbuilt
  obtain ⟨slot, hslot, hvq⟩ := Option.bind_eq_some_iff.mp hl
  obtain ⟨-, hpos, hpop, -⟩ := queue_sizes_sound _ _ l hrun hsound 0 slot _ hslot hvq
  exact ⟨l, slot, _, hrun, hslot, hvq, hpos, hpop⟩

end Riftlessfs.VhostUser
