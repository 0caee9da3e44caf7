import Riftlessfs.Core.HandleOwners

/-! Any number of callers of one handle table, in any interleaving: a system call made through a
handle reaches the file that was opened for it, and no other. -/
namespace Riftlessfs.Core.SharedHandles

open Lib.Locks
open Lib.Run

variable {n : ℕ}

section Steps
variable {s s' : State n} {t : Fin n} {e : Event n}

private theorem withFile_ok {store : HandleStore} {id : UInt64} {fd : Fd}
    (h : store.withFile id = .ok fd) :
    store.handles id = some (.file fd) := by
  unfold HandleStore.withFile at h
  split at h
  · cases h
    assumption
  · cases h
  · cases h

private theorem withDir_ok {store : HandleStore} {id : UInt64} {fd : Fd}
    (h : store.withDir id = .ok fd) :
    store.handles id = some (.dir fd) := by
  unfold HandleStore.withDir at h
  split at h
  · cases h
    assumption
  · cases h
  · cases h

theorem State.Inv.next (h : s.Inv) (hleft : s.world.store.nextId.toNat + 1 < 2 ^ 64)
    {r : World × Pc} (hnext : s.world.next (s.threads t) = some r)
    (hex : Exclusive (s.moved t r).holds) : (s.moved t r).Inv := by
  have hfit := h.fits t
  cases hpc : s.threads t with
  | idle =>
    rw [hpc] at hnext
    cases hnext
  | insertId data file =>
    rw [hpc] at hnext
    cases hnext
    exact h.draws hpc hleft hex
  | insertLock data file id =>
    rw [hpc] at hnext hfit
    cases hnext
    exact h.still hex hfit (by rw [hpc]; rfl) (by rw [hpc]; exact fun _ hp => hp)
  | insertPut data file id =>
    rw [hpc] at hnext
    cases hnext
    exact h.puts hpc hex
  | removeTake id =>
    rw [hpc] at hnext
    simp only [World.next, HandleStore.remove] at hnext
    cases hid : s.world.store.handles id with
    | none =>
      rw [hid] at hnext
      cases hnext
      exact h.still hex trivial (by rw [hpc]; rfl) (by intro _ hp; cases hp)
    | some data =>
      rw [hid] at hnext
      cases hnext
      exact h.takes hpc hid hex
  | close fd =>
    rw [hpc] at hnext
    cases hnext
    exact h.closes hpc hex
  | fileFind id =>
    rw [hpc] at hnext
    simp only [World.next] at hnext
    split at hnext
    · rename_i fd hfd
      cases hnext
      exact h.still hex (withFile_ok hfd) (by rw [hpc]; rfl) (by intro _ hp; cases hp)
    · cases hnext
      exact h.still hex trivial (by rw [hpc]; rfl) (by intro _ hp; cases hp)
  | dirFind id =>
    rw [hpc] at hnext
    simp only [World.next] at hnext
    split at hnext
    · rename_i fd hfd
      cases hnext
      exact h.still hex (withDir_ok hfd) (by rw [hpc]; rfl) (by intro _ hp; cases hp)
    · cases hnext
      exact h.still hex trivial (by rw [hpc]; rfl) (by intro _ hp; cases hp)
  | dirMutex id fd =>
    rw [hpc] at hnext hfit
    cases hnext
    exact h.still hex hfit (by rw [hpc]; rfl) (by intro _ hp; cases hp)
  | _ =>
    rw [hpc] at hnext
    cases hnext
    exact h.still hex trivial (by rw [hpc]; rfl) (by intro _ hp; cases hp)

theorem State.Inv.step (h : s.Inv) (hleft : s.world.store.nextId.toNat + 1 < 2 ^ 64)
    (hs : s.step e = some s') : s'.Inv := by
  have hex := State.exclusive_step h.exclusive hs
  cases e with
  | start t call =>
    simp only [State.step] at hs
    split at hs
    · rename_i hidle
      obtain ⟨⟨w, pc⟩, hentry, rfl⟩ := Option.map_eq_some_iff.mp hs
      cases call with
      | opened data =>
        simp only [World.entry] at hentry
        split_ifs at hentry with hfree
        cases hentry
        exact h.opens hidle hfree hex
      | _ =>
        cases hentry
        exact h.still hex trivial (by rw [hidle]; rfl) (by intro _ hp; cases hp)
    · cases hs
  | step t =>
    simp only [State.step] at hs
    split_ifs at hs
    obtain ⟨r, hnext, rfl⟩ := Option.map_eq_some_iff.mp hs
    exact h.next hleft hnext hex
  | use t =>
    obtain ⟨w, huse, rfl⟩ := Option.map_eq_some_iff.mp hs
    have hfit := h.fits t
    cases hpc : s.threads t with
    | fileUse id fd =>
      rw [hpc] at huse hfit
      cases huse
      exact h.uses hfit
    | dirUse id fd =>
      rw [hpc] at huse hfit
      cases huse
      exact h.uses hfit
    | _ =>
      rw [hpc] at huse
      cases huse
  | openElsewhere fd =>
    simp only [State.step] at hs
    split_ifs at hs with hfree
    cases hs
    exact h.opensElsewhere hfree
  | closeElsewhere fd =>
    simp only [State.step] at hs
    split_ifs at hs with helse
    cases hs
    exact h.closesElsewhere helse

/-- A step draws one id at most. -/
theorem State.nextId_step (hs : s.step e = some s') :
    s'.world.store.nextId.toNat ≤ s.world.store.nextId.toNat + 1 := by
  have hadd : (s.world.store.nextId + 1).toNat ≤ s.world.store.nextId.toNat + 1 := by
    rw [UInt64.toNat_add]
    exact Nat.mod_le _ _
  cases e with
  | start t call =>
    simp only [State.step] at hs
    split at hs
    · obtain ⟨⟨w, pc⟩, hentry, rfl⟩ := Option.map_eq_some_iff.mp hs
      cases call with
      | opened data =>
        simp only [World.entry] at hentry
        split_ifs at hentry
        cases hentry
        exact Nat.le_succ _
      | _ =>
        cases hentry
        exact Nat.le_succ _
    · cases hs
  | step t =>
    simp only [State.step] at hs
    split_ifs at hs
    obtain ⟨r, hnext, rfl⟩ := Option.map_eq_some_iff.mp hs
    cases hpc : s.threads t with
    | insertId data file =>
      rw [hpc] at hnext
      cases hnext
      exact hadd
    | insertPut data file id =>
      rw [hpc] at hnext
      cases hnext
      exact Nat.le_succ _
    | removeTake id =>
      rw [hpc] at hnext
      simp only [World.next, HandleStore.remove] at hnext
      split at hnext
      · rename_i hok
        split at hok
        · cases hok
          cases hnext
          exact Nat.le_succ _
        · cases hok
      · cases hnext
        exact Nat.le_succ _
    | fileFind id =>
      rw [hpc] at hnext
      simp only [World.next] at hnext
      split at hnext <;> cases hnext <;> exact Nat.le_succ _
    | dirFind id =>
      rw [hpc] at hnext
      simp only [World.next] at hnext
      split at hnext <;> cases hnext <;> exact Nat.le_succ _
    | idle =>
      rw [hpc] at hnext
      cases hnext
    | _ =>
      rw [hpc] at hnext
      cases hnext
      exact Nat.le_succ _
  | use t =>
    obtain ⟨w, huse, rfl⟩ := Option.map_eq_some_iff.mp hs
    unfold World.use at huse
    split at huse <;> cases huse <;> exact Nat.le_succ _
  | openElsewhere fd =>
    simp only [State.step] at hs
    split_ifs at hs
    cases hs
    exact Nat.le_succ _
  | closeElsewhere fd =>
    simp only [State.step] at hs
    split_ifs at hs
    cases hs
    exact Nat.le_succ _

/-- Ids last for as many steps as there are numbers. -/
theorem State.inv_of_run {xs : List (Event n)} (hrun : run State.step (State.new n) xs = some s)
    (hlen : xs.length + 2 ≤ 2 ^ 64) : s.Inv := by
  have hboth : xs.length + 2 ≤ 2 ^ 64 → s.world.store.nextId.toNat ≤ xs.length + 1 ∧ s.Inv := by
    refine run_induction (P := fun xs (s : State n) => xs.length + 2 ≤ 2 ^ 64 →
      s.world.store.nextId.toNat ≤ xs.length + 1 ∧ s.Inv) ?_ ?_ hrun
    · intro _
      exact ⟨le_refl _, Inv.new⟩
    · intro xs x s₁ s₂ _ ih hs hlen
      rw [List.length_append, List.length_singleton] at hlen ⊢
      obtain ⟨hnext, hinv⟩ := ih (by omega)
      have hstep := nextId_step hs
      refine ⟨by omega, hinv.step ?_ hs⟩
      omega
  exact (hboth hlen).2

end Steps

section Results
variable {s : State n}

/-- The table's lock comes before that of a directory. -/
def rank : Lock → ℕ
  | .handles => 0
  | .dir _ => 1

theorem not_deadlocked (s : State n) : ¬Deadlocked s.holds s.wants := by
  apply not_deadlocked_of_order rank 1
  · intro l
    cases l with
    | handles => exact Nat.zero_le 1
    | dir id => exact le_refl 1
  · intro t l m l' m' hh hw
    simp only [State.holds, State.wants] at hh hw
    cases hpc : s.threads t with
    | dirMutex id fd =>
      rw [hpc] at hh hw
      cases hw
      cases l with
      | handles => exact Nat.zero_lt_one
      | dir id' => cases hh
    | dirUse id fd =>
      rw [hpc] at hw
      cases hw
    | _ =>
      rw [hpc] at hh hw
      cases l <;> cases hh <;> cases hw

/-- While a call is in progress, one can make its next step. -/
theorem going (hbusy : ∃ t, s.threads t ≠ .idle) : ∃ t, (s.step (.step t)).isSome := by
  obtain ⟨t, hidle, hfree⟩ := exists_unblocked (not_deadlocked s)
    (A := {t | s.threads t ≠ .idle}) hbusy (by
      intro t l m hh hidle
      rw [State.holds, hidle] at hh
      cases l <;> cases hh)
  have hready : s.ready t = true := by
    unfold State.ready
    cases hw : s.wants t with
    | none => rfl
    | some want =>
      obtain ⟨l, m⟩ := want
      apply decide_eq_true
      intro t'
      by_contra hno
      exact hfree t' ⟨l, m, hw, Bool.not_eq_true _ |>.mp hno⟩
  refine ⟨t, ?_⟩
  simp only [State.step]
  rw [if_pos hready, Option.isSome_map]
  have hidle : s.threads t ≠ .idle := hidle
  cases hpc : s.threads t with
  | idle => exact absurd hpc hidle
  | removeTake id =>
    simp only [World.next]
    split <;> rfl
  | fileFind id =>
    simp only [World.next]
    split <;> rfl
  | dirFind id =>
    simp only [World.next]
    split <;> rfl
  | _ => rfl

/-- What holds of a handle table whatever its callers do. -/
structure State.Good (s : State n) : Prop where
  reached : ∀ id file, (id, file) ∈ s.world.uses → ∃ o, file = some o ∧ (id, o) ∈ s.world.returned
  distinct : (s.world.returned.map Prod.fst).Nodup
  kept : ∀ id file, (id, file) ∈ s.world.returned → id ∉ s.world.removed →
    ∃ data, s.world.store.handles id = some data ∧ s.world.files data.num = some file
  closed : (∀ t, s.threads t = .idle) → ∀ fd, s.world.files fd ≠ none ↔
    s.world.elsewhere fd = true ∨ ∃ id data, s.world.store.handles id = some data ∧ data.num = fd
  free : ¬Deadlocked s.holds s.wants
  going : (∃ t, s.threads t ≠ .idle) → ∃ t, (s.step (.step t)).isSome

theorem World.Sound.kept_file {w : World} (h : w.Sound) {id : UInt64} {file : ℕ}
    (hid : (id, file) ∈ w.returned) (hkept : id ∉ w.removed) :
    ∃ data, w.store.handles id = some data ∧ w.files data.num = some file := by
  obtain ⟨data, hdata⟩ := Option.ne_none_iff_exists'.mp (h.kept id file hid hkept)
  obtain ⟨o, ho, hreturned⟩ := h.entries id data hdata
  have hsame : (id, o) = (id, file) := List.inj_on_of_nodup_map h.distinct hreturned hid rfl
  cases hsame
  exact ⟨data, hdata, ho⟩

/-- Between calls, the open descriptors are those of the table and of the rest of the process. -/
theorem State.Inv.closed (h : s.Inv) (hidle : ∀ t, s.threads t = .idle) (fd : ℕ) :
    s.world.files fd ≠ none ↔
      s.world.elsewhere fd = true ∨
        ∃ id data, s.world.store.handles id = some data ∧ data.num = fd := by
  have hcovers := h.books.covers fd
  constructor
  · intro hopen
    rcases hcovers.mp hopen with hloose | ⟨o, ho⟩
    · cases hloose
    · cases o with
      | entry id =>
        right
        obtain ⟨data, hdata, hfd⟩ := Option.map_eq_some_iff.mp ho
        exact ⟨id, data, hdata, hfd⟩
      | thread t =>
        simp only [own, hidle t] at ho
        cases ho
      | rest fd' =>
        left
        simp only [own] at ho
        split_ifs at ho with helse
        cases ho
        exact helse
  · intro howned
    apply hcovers.mpr
    right
    rcases howned with helse | ⟨id, data, hid, hfd⟩
    · exact ⟨.rest fd, if_pos helse⟩
    · refine ⟨.entry id, ?_⟩
      simp only [own, hid, ← hfd]
      rfl

/-- Any number of callers, interleaved in any way: a system call made through a handle reaches the
file that was opened for that handle, also when the numbers of closed descriptors are given out
again; handles are distinct, stay until they are released, and leave no descriptor behind; and no
callers wait for each other. -/
theorem interleaved_handles (n : ℕ) (xs : List (Event n)) (s : State n)
    (hrun : run State.step (State.new n) xs = some s) (hlen : xs.length + 2 ≤ 2 ^ 64) : s.Good := by
  have hinv := State.inv_of_run hrun hlen
  constructor
  · exact hinv.sound.used
  · exact hinv.sound.distinct
  · intro id file hid hkept
    exact hinv.sound.kept_file hid hkept
  · exact hinv.closed
  · exact not_deadlocked s
  · exact going

/-- One thread reads through handle 1 while the other releases it; its number then goes to a file
opened for handle 2. -/
def reuse : List (Event 2) :=
  [.start 0 (.opened (.file ⟨10, ⟨1, 1⟩, 0⟩)), .step 0, .step 0, .step 0,
    .start 0 (.withFile 1), .step 0, .step 0, .start 1 (.release 1), .use 0, .step 0,
    .step 1, .step 1, .step 1,
    .start 1 (.opened (.file ⟨10, ⟨1, 2⟩, 0⟩)), .step 1, .step 1, .step 1,
    .start 0 (.withFile 2), .step 0, .step 0, .use 0, .step 0]

theorem interleaved_handles_reuse : ∃ s, run State.step (State.new 2) reuse = some s ∧
    s.world.uses = [(2, some 1), (1, some 0)] ∧ s.Good := by
  have hend : (run State.step (State.new 2) reuse).map (fun s => s.world.uses) =
      some [(2, some 1), (1, some 0)] := by decide +kernel
  obtain ⟨s, hrun, huses⟩ := Option.map_eq_some_iff.mp hend
  exact ⟨s, hrun, huses, interleaved_handles 2 reuse s hrun (by decide)⟩

end Results

end Riftlessfs.Core.SharedHandles
