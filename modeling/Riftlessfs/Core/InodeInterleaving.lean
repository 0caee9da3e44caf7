import Riftlessfs.Core.InodeSteps

/-! Any number of `register`, `forget` and `get` calls on one inode table, in any interleaving
of their steps. -/
namespace Riftlessfs.Core.Shared

open Lib.Locks
open Lib.Run

variable {n : ℕ}

/-- The table when no call is in progress: the maps are inverse, no two ids stand for one file,
an inode's count is its registrations less its forgets, and an id with registrations left is
there. -/
structure State.Settled (s : State n) : Prop where
  inv : s.table.store.Inv
  distinct : ∀ id id' d d', s.table.store.byId id = some d → s.table.store.byId id' = some d' →
    d.key = d'.key → id = id'
  counted : ∀ id d, s.table.store.byId id = some d →
    d.lookups.toNat + s.forgets id = s.registrations id
  kept : ∀ id, s.forgets id < s.registrations id → (s.table.store.byId id).isSome

/-- No calls wait on each other's locks, one of the calls in progress can go on, and the table
is in order whenever none is. -/
structure State.Good (s : State n) : Prop where
  free : ¬ Deadlocked s.holds s.wants
  going : (∃ t, s.threads t ≠ .idle) → ∃ t, (s.step (.step t)).isSome
  settled : (∀ t, s.threads t = .idle) → s.Settled

section Order

/-- `register` takes `by_key` first and `forget` takes `by_id` first. -/
def rankRegister : Lock → ℕ
  | .byKey => 0
  | .byId => 1
  | .parent _ | .name _ => 2

def rankForget : Lock → ℕ
  | .byId => 0
  | .byKey => 1
  | .parent _ | .name _ => 2

variable {pc : Pc} {l l' : Lock} {m m' : Mode}

theorem Pc.ranked_register (hno : pc.forgetting = false) (hh : pc.holds l = some m)
    (hw : pc.wants = some (l', m')) : rankRegister l < rankRegister l' := by
  cases pc <;> cases hw <;> cases l <;> simp_all [holds, rankRegister, forgetting, stage, Stage.forgetting]

theorem Pc.ranked_forget (hno : pc.registering = none) (hh : pc.holds l = some m)
    (hw : pc.wants = some (l', m')) : rankForget l < rankForget l' := by
  cases pc <;> cases hw <;> cases l <;> simp_all [holds, rankForget, registering, stage, Stage.key]

end Order

section Results

variable {s : State n} {m : ℕ}

/-- Registers take the locks in one order and forgets in the other, and only one kind of call
is in progress. -/
theorem Sound.not_deadlocked (h : Sound s.view m) : ¬ Deadlocked s.holds s.wants := by
  rcases h.apart with hno | hno
  · refine not_deadlocked_of_order rankRegister 2 (fun l => ?_) fun t l m l' m' hh hw =>
      Pc.ranked_register (hno t) hh hw
    cases l <;> simp [rankRegister]
  · refine not_deadlocked_of_order rankForget 2 (fun l => ?_) fun t l m l' m' hh hw =>
      Pc.ranked_forget (hno t) hh hw
    cases l <;> simp [rankForget]

theorem State.ready_of_free {t : Fin n} (h : ∀ t', ¬ WaitsOn s.holds s.wants t t') :
    s.ready t = true := by
  unfold ready
  cases hw : s.wants t with
  | none => rfl
  | some want =>
    obtain ⟨l, m⟩ := want
    refine decide_eq_true fun t' => ?_
    by_contra hno
    exact h t' ⟨l, m, hw, Bool.not_eq_true _ |>.mp hno⟩

theorem Table.next_isSome {tab : Table} {pc : Pc} (hidle : pc ≠ .idle) (hpanic : pc ≠ .panicked) :
    (tab.next pc).isSome := by
  cases pc with
  | idle => exact absurd rfl hidle
  | panicked => exact absurd rfl hpanic
  | regFind r =>
    simp only [next]
    cases tab.byKey r.key <;> rfl
  | regClone r id =>
    simp only [next]
    cases tab.byId id <;> rfl
  | fgFind id count =>
    simp only [next]
    cases tab.byId id <;> rfl
  | fgUnlock id count shouldEvict => cases shouldEvict <;> rfl
  | fgRemove id count =>
    simp only [next]
    cases tab.byId id <;> rfl
  | _ => rfl

/-- While a call is in progress, one can make its next step. -/
theorem Sound.going (h : Sound s.view m) (hbusy : ∃ t, s.threads t ≠ .idle) :
    ∃ t, (s.step (.step t)).isSome := by
  obtain ⟨t, hidle, hfree⟩ := exists_unblocked h.not_deadlocked
    (A := {t | s.threads t ≠ .idle}) hbusy (by
      intro t l m hh hidle
      rw [State.holds, hidle] at hh
      cases hh)
  have hpanic : s.threads t ≠ .panicked := by
    intro hp
    have hfit := h.fit (t := t) rfl
    rw [show s.view.stages t = .panicked from congrArg Pc.stage hp] at hfit
    exact hfit
  refine ⟨t, ?_⟩
  simp only [State.step]
  rw [if_pos (State.ready_of_free hfree), Option.isSome_map]
  exact Table.next_isSome hidle hpanic

theorem Table.store_byId {tab : Table} {id : UInt64} {d : InodeData}
    (h : tab.store.byId id = some d) : ∃ arc, tab.byId id = some arc ∧ tab.arcs arc = d :=
  Option.map_eq_some_iff.mp h

theorem Sound.settled (h : Sound s.view m) (hidle : ∀ t, s.threads t = .idle) : s.Settled := by
  have hout : ∀ t, s.view.stages t = .out := fun t => congrArg Pc.stage (hidle t)
  have hno : ∀ t, (s.view.stages t).forgetting = false := fun t => by rw [hout t]; rfl
  have hkeys : ∀ t, (s.view.stages t).key = none := fun t => by rw [hout t]; rfl
  have hcounted : ∀ id arc, s.table.byId id = some arc →
      (s.table.arcs arc).lookups.toNat + s.forgets id = s.registrations id ∧
        s.forgets id < s.registrations id := by
    intro id arc harc
    have hlt := h.taken_lt hno harc
    have hcount := h.accounts.counted id arc harc hlt
    rw [View.joined_out hout, View.taken_out hout] at hlt hcount
    exact ⟨hcount, hlt⟩
  have hinv : s.table.store.Inv := by
    refine ⟨fun k id => ⟨fun hk => ?_, ?_⟩, ?_, ?_, ?_, ?_⟩
    · obtain ⟨arc, harc, hkey⟩ := h.keyed_inode hno hk
      exact ⟨_, Option.map_eq_some_iff.mpr ⟨arc, harc, rfl⟩, hkey⟩
    · rintro ⟨d, hd, rfl⟩
      obtain ⟨arc, harc, rfl⟩ := Table.store_byId hd
      exact h.byKey_inode hkeys harc
    · intro id d hd
      obtain ⟨arc, harc, rfl⟩ := Table.store_byId hd
      exact (h.numbered.inode id arc harc).2
    · intro id d hd
      obtain ⟨arc, harc, rfl⟩ := Table.store_byId hd
      exact (h.numbered.issued_byId harc).2
    · obtain ⟨arc, harc⟩ := h.numbered.root
      exact Option.isSome_iff_exists.mpr ⟨_, Option.map_eq_some_iff.mpr ⟨arc, harc, rfl⟩⟩
    · intro id d _ hd
      obtain ⟨arc, harc, rfl⟩ := Table.store_byId hd
      have := hcounted id arc harc
      omega
  refine ⟨hinv, fun id id' d d' hd hd' hk => hinv.key_inj hd hd' hk, ?_, ?_⟩
  · intro id d hd
    obtain ⟨arc, harc, rfl⟩ := Table.store_byId hd
    exact (hcounted id arc harc).1
  · intro id hlt
    cases hid : s.table.byId id with
    | some arc =>
      exact Option.isSome_iff_exists.mpr ⟨_, Option.map_eq_some_iff.mpr ⟨arc, hid, rfl⟩⟩
    | none =>
      -- an id that is not there was never given out, or its registrations were forgotten
      rw [← show s.view.joined id = s.registrations id from congrFun (View.joined_out hout) id,
        ← show s.view.taken id = s.forgets id from congrFun (View.taken_out hout) id] at hlt
      by_cases hi : s.table.Issued id
      · rcases h.accounts.covered id hi hid with hle | ⟨t, k, arc, hs⟩
        · omega
        · rw [hout t] at hs
          cases hs
      · have := h.accounts.unissued id hi
        omega

theorem Sound.good (h : Sound s.view m) : s.Good :=
  ⟨h.not_deadlocked, h.going, h.settled⟩

end Results

/-- Any interleaving of calls in which no `register` overlaps a `forget`, nor another `register`
of a file that is not known, keeps the table. -/
theorem interleaved_calls_keep_table (rootFd : Fd) (rootStat : Stat) {xs : List (Event n)}
    {s : State n} (hlen : xs.length + 3 < 2 ^ 64)
    (hadm : Along State.step State.Admits (State.new n rootFd rootStat) xs)
    (hrun : run State.step (State.new n rootFd rootStat) xs = some s) : s.Good :=
  (Sound.of_run rootFd rootStat hlen hadm hrun).good

/-- Two threads at work on one known file, first with a `register` each and then with a `forget`
each. -/
theorem interleaved_calls_known_file :
    let fd : Fd := ⟨3, ⟨1, 10⟩, O_DIRECTORY⟩
    let root : Stat := ⟨1, 10, 0, 0, (0, 0), (0, 0), (0, 0), S_IFDIR, 1, 0, 0, 0, 4096⟩
    let file : Stat := { root with ino := 11, mode := S_IFREG }
    let register : Call := .register ⟨1, [97], ⟨4, ⟨1, 11⟩, O_PATH⟩, file⟩
    let steps : Fin 2 → ℕ → List (Event 2) := fun t k => List.replicate k (.step t)
    let xs : List (Event 2) := .start 0 register :: steps 0 7 ++
      .start 0 register :: steps 0 3 ++ .start 1 register :: steps 1 10 ++ steps 0 7 ++
      .start 0 (.forget 2 1) :: steps 0 3 ++ .start 1 (.forget 2 1) :: steps 1 5 ++ steps 0 2
    xs.length + 3 < 2 ^ 64 ∧ Along State.step State.Admits (State.new 2 fd root) xs ∧
      ∃ s, run State.step (State.new 2 fd root) xs = some s ∧ s.threads 0 = .idle ∧
        s.threads 1 = .idle ∧ (s.table.store.byId 2).map (·.lookups) = some 1 ∧ s.Good := by
  intro fd root file register steps xs
  have hlen : xs.length + 3 < 2 ^ 64 := by decide
  have hadm : Along State.step State.Admits (State.new 2 fd root) xs := by decide +kernel
  have hend : (run State.step (State.new 2 fd root) xs).map
      (fun s => (s.threads 0, s.threads 1, (s.table.store.byId 2).map (·.lookups))) =
        some (.idle, .idle, some 1) := by decide +kernel
  obtain ⟨s, hs, heq⟩ := Option.map_eq_some_iff.mp hend
  simp only [Prod.mk.injEq] at heq
  exact ⟨hlen, hadm, s, hs, heq.1, heq.2.1, heq.2.2,
    interleaved_calls_keep_table fd root hlen hadm hs⟩

/-- A `register` of a known file between its two locks and a `forget` that evicts wait on each
other. Two `register`s of a file that look for its key before either enters it make two inodes
for it. A `forget` that has decided to evict takes the inode from a `register` that has just
found it. -/
theorem overlapping_calls_break_table :
    let fd : Fd := ⟨3, ⟨1, 10⟩, O_DIRECTORY⟩
    let root : Stat := ⟨1, 10, 0, 0, (0, 0), (0, 0), (0, 0), S_IFDIR, 1, 0, 0, 0, 4096⟩
    let file : Stat := { root with ino := 11, mode := S_IFREG }
    let register : Call := .register ⟨1, [97], ⟨4, ⟨1, 11⟩, O_PATH⟩, file⟩
    let steps : Fin 2 → ℕ → List (Event 2) := fun t k => List.replicate k (.step t)
    let known : List (Event 2) := .start 0 register :: steps 0 7
    (∃ s, run State.step (State.new 2 fd root)
        (known ++ .start 0 register :: steps 0 2 ++ .start 1 (.forget 2 1) :: steps 1 7) =
          some s ∧ Deadlocked s.holds s.wants) ∧
      (∃ s, run State.step (State.new 2 fd root)
        (.start 0 register :: steps 0 2 ++ .start 1 register :: steps 1 2 ++ steps 0 5 ++
          steps 1 5) = some s ∧ s.threads 0 = .idle ∧ s.threads 1 = .idle ∧
        (s.table.store.byId 2).map (·.key) = some file.key ∧
        (s.table.store.byId 3).map (·.key) = some file.key) ∧
      ∃ s, run State.step (State.new 2 fd root)
        (known ++ .start 0 register :: steps 0 4 ++ .start 1 (.forget 2 1) :: steps 1 7 ++
          steps 0 6 ++ steps 1 2) = some s ∧ s.threads 0 = .idle ∧ s.threads 1 = .idle ∧
        s.registrations 2 = 2 ∧ s.forgets 2 = 1 ∧ (s.table.store.byId 2).isNone := by
  intro fd root file register steps known
  refine ⟨?_, ?_, ?_⟩
  · have hend : (run State.step (State.new 2 fd root)
        (known ++ .start 0 register :: steps 0 2 ++ .start 1 (.forget 2 1) :: steps 1 7)).map
          (fun s => (s.threads 0, s.threads 1)) =
        some (.regLockId ⟨1, [97], ⟨4, ⟨1, 11⟩, O_PATH⟩, file⟩ 2, .fgKeyLock 2 1 file.key) := by
      decide +kernel
    obtain ⟨s, hs, heq⟩ := Option.map_eq_some_iff.mp hend
    simp only [Prod.mk.injEq] at heq
    refine ⟨s, hs, Set.univ, ⟨0, trivial⟩, fun t _ => ?_⟩
    fin_cases t
    · refine ⟨1, trivial, .byId, .read, ?_, ?_⟩
      · exact congrArg Pc.wants heq.1
      · exact congrArg (fun pc : Pc => Mode.read.allows (pc.holds .byId)) heq.2
    · refine ⟨0, trivial, .byKey, .write, ?_, ?_⟩
      · exact congrArg Pc.wants heq.2
      · exact congrArg (fun pc : Pc => Mode.write.allows (pc.holds .byKey)) heq.1
  · have hend : (run State.step (State.new 2 fd root)
        (.start 0 register :: steps 0 2 ++ .start 1 register :: steps 1 2 ++ steps 0 5 ++
          steps 1 5)).map (fun s => (s.threads 0, s.threads 1,
            (s.table.store.byId 2).map (·.key), (s.table.store.byId 3).map (·.key))) =
        some (.idle, .idle, some file.key, some file.key) := by decide +kernel
    obtain ⟨s, hs, heq⟩ := Option.map_eq_some_iff.mp hend
    simp only [Prod.mk.injEq] at heq
    exact ⟨s, hs, heq⟩
  · have hend : (run State.step (State.new 2 fd root)
        (known ++ .start 0 register :: steps 0 4 ++ .start 1 (.forget 2 1) :: steps 1 7 ++
          steps 0 6 ++ steps 1 2)).map (fun s => (s.threads 0, s.threads 1, s.registrations 2,
            s.forgets 2, (s.table.store.byId 2).isNone)) =
        some (.idle, .idle, 2, 1, true) := by decide +kernel
    obtain ⟨s, hs, heq⟩ := Option.map_eq_some_iff.mp hend
    simp only [Prod.mk.injEq] at heq
    exact ⟨s, hs, heq⟩

end Riftlessfs.Core.Shared
