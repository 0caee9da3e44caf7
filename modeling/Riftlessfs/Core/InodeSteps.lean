import Riftlessfs.Core.InodeForgetMoves
import Riftlessfs.Core.InodeRegisterMoves

/-! The invariant of the shared inode table along runs of overlapping calls. -/
namespace Riftlessfs.Core.Shared

open Lib.Run

variable {n : ℕ}

namespace Sound

variable {v : View n} {m : ℕ} {t : Fin n}

private theorem toNat_min_bounds (a b : UInt64) :
    (min a b).toNat ≤ a.toNat ∧ min a.toNat b.toNat ≤ (min a b).toNat := by
  by_cases hab : a ≤ b
  · rw [show min a b = a from if_pos hab]
    exact ⟨le_rfl, Nat.min_le_left _ _⟩
  · rw [show min a b = b from if_neg hab]
    have := UInt64.lt_iff_toNat_lt.mp (UInt64.not_le.mp hab)
    exact ⟨this.le, Nat.min_le_right _ _⟩

/-- Every move keeps the invariant. -/
theorem move (h : Sound v m) (hm : m + 3 < 2 ^ 64) {table : Table} {s : Stage} {done : Done}
    (hmove : Move v.table (v.stages t) table s done) :
    Sound (v.after t table s done) (m + 1) := by
  have hle : m ≤ m + 1 := Nat.le_succ m
  generalize hs : v.stages t = s₀ at hmove
  have hfit := h.fit hs
  cases hmove with
  | stay =>
    rw [← hs, View.after_self]
    exact h.mono hle
  | find hk =>
    exact Sound.mono (h.still hs (.refl _)
      ⟨fun _ => rfl, fun _ => rfl, rfl, rfl⟩ nofun (fun _ hk => hk) nofun hk) hle
  | miss hk =>
    exact Sound.mono (h.still hs (.refl _)
      ⟨fun _ => rfl, fun _ => rfl, rfl, rfl⟩ nofun (fun _ hk => hk) nofun hk) hle
  | clone hid =>
    exact Sound.mono (h.still hs (.refl _)
      ⟨fun _ => rfl, fun _ => rfl, rfl, rfl⟩ nofun (fun _ hk => hk) nofun ⟨hfit, hid⟩) hle
  | @crash k id hid =>
    -- the id of a known key has its inode
    have hno := h.registering (t := t) (k := k) (by rw [hs]; rfl)
    obtain ⟨arc, harc, -⟩ := h.keyed_inode hno hfit
    rw [hid] at harc
    cases harc
  | bump => exact h.bump hs hm
  | locate parent name =>
    exact Sound.mono (h.still hs (v.table.alike_relocate _ parent name)
      ⟨fun _ => rfl, fun _ => rfl, rfl, rfl⟩ nofun (fun _ hk => hk) nofun hfit) hle
  | grant =>
    exact Sound.mono (h.still hs (.refl _)
      ⟨fun _ => Nat.zero_add _, fun _ => rfl, rfl, rfl⟩ nofun nofun nofun trivial) hle
  | create r => exact h.create hs hm
  | insert => exact (h.insert hs).mono hle
  | enter => exact (h.enter hs).mono hle
  | take hid =>
    exact Sound.mono (h.still hs (.refl _)
      ⟨fun _ => rfl, fun _ => rfl, rfl, rfl⟩ (fun _ => rfl) nofun nofun
      ⟨hfit, h.numbered.inode _ _ hid⟩) hle
  | ignore hid =>
    exact Sound.mono (h.still hs (.refl _)
      ⟨fun _ => rfl, fun _ => rfl, rfl, rfl⟩ nofun nofun nofun trivial) hle
  | @load id count arc =>
    obtain ⟨hroot, hlt, hid⟩ := hfit
    have hmin := toNat_min_bounds count (v.table.arcs arc).lookups
    exact Sound.mono (h.still hs (.refl _)
      ⟨fun _ => rfl, fun _ => rfl, rfl, rfl⟩ (fun _ => rfl) nofun nofun
      ⟨hroot, hlt, hid, hmin.1, fun _ => hmin.2⟩) hle
  | spend hlow => exact (h.lower hs (Or.inl ⟨hlow, rfl⟩)).mono hle
  | doom hlow => exact (h.lower hs (Or.inr ⟨hlow, rfl⟩)).mono hle
  | leave =>
    exact Sound.mono (h.still hs (.refl _)
      ⟨fun _ => rfl, fun _ => Nat.zero_add _, rfl, rfl⟩ nofun nofun nofun trivial) hle
  | evict hid => exact (h.evict hs hid).mono hle
  | late hid =>
    refine Sound.mono (h.still hs (.refl _)
      ⟨fun _ => rfl, fun _ => Nat.zero_add _, rfl, rfl⟩ nofun nofun ?_ trivial) hle
    intro id' count' heq
    cases heq
    exact hid
  | unkey => exact (h.unkey hs).mono hle

end Sound

def Pc.registering (pc : Pc) : Option FileKey := pc.stage.key

def Pc.forgetting (pc : Pc) : Bool := pc.stage.forgetting

/-- A `register` starts while no `forget` is in progress, and no other `register` of its file
unless the file is known. A `forget` starts while no `register` is in progress. -/
def State.Admits (s : State n) : Event n → Prop
  | .start _ (.register r) =>
    (∀ t, (s.threads t).forgetting = false) ∧
      (s.table.byKey r.key = none → ∀ t, (s.threads t).registering ≠ some r.key)
  | .start _ (.forget id _) => id ≠ ROOT_ID → ∀ t, (s.threads t).registering = none
  | _ => True

instance (s : State n) (e : Event n) : Decidable (s.Admits e) :=
  match e with
  | .start _ (.register r) =>
    inferInstanceAs (Decidable ((∀ t, (s.threads t).forgetting = false) ∧
      (s.table.byKey r.key = none → ∀ t, (s.threads t).registering ≠ some r.key)))
  | .start _ (.forget id _) =>
    inferInstanceAs (Decidable (id ≠ ROOT_ID → ∀ t, (s.threads t).registering = none))
  | .start _ (.get _) | .step _ => .isTrue trivial

def State.view (s : State n) : View n where
  table := s.table
  stages := fun t => (s.threads t).stage
  registrations := s.registrations
  forgets := s.forgets

section Steps

variable {s s' : State n} {t : Fin n} {m : ℕ}

theorem State.view_update (s : State n) (t : Fin n) (table : Table) (pc : Pc) (done : Done) :
    State.view
      { table := table
        threads := Function.update s.threads t pc
        registrations := fun id => s.registrations id + done.registrations id
        forgets := fun id => s.forgets id + done.forgets id } =
      s.view.after t table pc.stage done := by
  simp only [view, View.after, View.mk.injEq, true_and, and_true]
  funext x
  exact Function.apply_update (fun _ => Pc.stage) s.threads t pc x

theorem State.step_view (h : s.step (.step t) = some s') :
    ∃ table pc done, s.table.next (s.threads t) = some (table, pc, done) ∧
      s'.view = s.view.after t table pc.stage done := by
  simp only [step] at h
  split_ifs at h
  obtain ⟨⟨table, pc, done⟩, hnext, rfl⟩ := Option.map_eq_some_iff.mp h
  exact ⟨table, pc, done, hnext, s.view_update t table pc done⟩

theorem State.start_view {call : Call} (h : s.step (.start t call) = some s') :
    s.threads t = .idle ∧ s'.view = s.view.after t s.table call.entry.stage .nothing := by
  unfold step at h
  cases hs : s.threads t with
  | idle =>
    simp only [hs] at h
    cases h
    exact ⟨rfl, s.view_update t s.table call.entry .nothing⟩
  | _ =>
    simp only [hs] at h
    cases h

/-- A call that starts finds the table as it was. -/
theorem Sound.start (h : Sound s.view m) {call : Call} (hadm : s.Admits (.start t call))
    (hidle : s.threads t = .idle) :
    Sound (s.view.after t s.table call.entry.stage .nothing) m := by
  have hs : s.view.stages t = .out := by
    show (s.threads t).stage = .out
    rw [hidle]
    rfl
  have hstay : Sound (s.view.after t s.table .out .nothing) m := by
    have heq : s.view.after t s.table .out .nothing = s.view := by
      rw [← hs]
      exact s.view.after_self t
    rw [heq]
    exact h
  cases call with
  | get id => exact hstay
  | register r =>
    obtain ⟨hno, halone⟩ := hadm
    refine h.passing hs (.refl _) ⟨fun _ => rfl, fun _ => rfl, rfl, rfl⟩ ?_ ?_ nofun trivial
    · exact Or.inl (View.forall_after (P := fun s => s.forgetting = false) (fun t' _ => hno t') rfl)
    · have hother : ∀ t' k, t' ≠ t → ((s.view.after t s.table (.seeking r.key) .nothing).stages
          t').key = some k → (s.view.stages t').key = some k := by
        intro t' k hne hk
        simpa only [View.after, Function.update_of_ne hne] using hk
      have hself : ∀ k, ((s.view.after t s.table (.seeking r.key) .nothing).stages t).key =
          some k → r.key = k := by
        intro k hk
        simpa [View.after, Stage.key] using hk
      intro t₁ t₂ k hne h₁ h₂ hnone
      by_cases e₁ : t₁ = t
      · subst e₁
        have hk := hself k h₁
        subst hk
        exact halone hnone t₂ (hother t₂ _ hne.symm h₂)
      · by_cases e₂ : t₂ = t
        · subst e₂
          have hk := hself k h₂
          subst hk
          exact halone hnone t₁ (hother t₁ _ hne h₁)
        · exact h.sole t₁ t₂ k hne (hother t₁ k e₁ h₁) (hother t₂ k e₂ h₂) hnone
  | forget id count =>
    by_cases hroot : id = ROOT_ID
    · rw [show (Call.forget id count).entry = .idle from if_pos hroot]
      exact hstay
    · rw [show (Call.forget id count).entry = .fgLock id count from if_neg hroot]
      have hnokey : ∀ t', ((s.view.after t s.table (.asking id count) .nothing).stages t').key =
          none :=
        View.forall_after (P := fun s => s.key = none) (fun t' _ => hadm hroot t') rfl
      refine h.passing hs (.refl _) ⟨fun _ => rfl, fun _ => rfl, rfl, rfl⟩ (Or.inr hnokey) ?_
        nofun hroot
      intro t₁ t₂ k _ h₁
      exact absurd (h₁.symm.trans (hnokey t₁)) (Option.some_ne_none k)

theorem Sound.step (h : Sound s.view m) (hm : m + 3 < 2 ^ 64) {e : Event n}
    (hadm : s.Admits e) (hstep : s.step e = some s') : Sound s'.view (m + 1) := by
  cases e with
  | start t call =>
    obtain ⟨hidle, hview⟩ := State.start_view hstep
    rw [hview]
    exact (h.start hadm hidle).mono (Nat.le_succ m)
  | step t =>
    obtain ⟨table, pc, done, hnext, hview⟩ := State.step_view hstep
    rw [hview]
    exact h.move hm (Table.next_move hnext)

end Steps

section Idle

variable {v : View n}

theorem View.joined_out (h : ∀ t, v.stages t = .out) : v.joined = v.registrations := by
  funext id
  simp [joined, h, Stage.owes]

theorem View.taken_out (h : ∀ t, v.stages t = .out) : v.taken = v.forgets := by
  funext id
  simp [taken, h, Stage.spends]

end Idle

section New

variable (rootFd : Fd) (rootStat : Stat)

theorem Table.new_byId (id : UInt64) :
    (Table.new rootFd rootStat).byId id = if id = ROOT_ID then some 0 else none :=
  Function.update_apply (fun _ => none) ROOT_ID (some 0) id

theorem Table.new_byKey (k : FileKey) :
    (Table.new rootFd rootStat).byKey k = if k = rootStat.key then some ROOT_ID else none :=
  Function.update_apply (fun _ => none) rootStat.key (some ROOT_ID) k

theorem Table.new_byId_some {id : UInt64} {arc : ℕ}
    (h : (Table.new rootFd rootStat).byId id = some arc) : id = ROOT_ID ∧ arc = 0 := by
  rw [new_byId] at h
  split_ifs at h with hid
  exact ⟨hid, (Option.some.inj h).symm⟩

theorem Table.new_numbered : (Table.new rootFd rootStat).Numbered := by
  refine ⟨rfl, fun arc harc => ?_, fun id arc harc => ?_, 0, rfl⟩
  · have hzero : arc = 0 := Nat.lt_one_iff.mp harc
    rw [hzero]
    rfl
  · obtain ⟨rfl, rfl⟩ := new_byId_some rootFd rootStat harc
    exact ⟨Nat.one_pos, rfl⟩

theorem State.new_joined (id : UInt64) :
    (State.new n rootFd rootStat).view.joined id = if id = ROOT_ID then 1 else 0 := by
  rw [View.joined_out fun _ => rfl]
  exact Function.update_apply (fun _ => 0) ROOT_ID 1 id

theorem State.new_taken (id : UInt64) : (State.new n rootFd rootStat).view.taken id = 0 := by
  rw [View.taken_out fun _ => rfl]
  rfl

theorem State.new_mapped : (State.new n rootFd rootStat).view.Mapped := by
  constructor
  · intro k id hk
    left
    rw [show (State.new n rootFd rootStat).view.table = .new rootFd rootStat from rfl,
      Table.new_byKey] at hk
    split_ifs at hk with hroot
    cases hk
    exact ⟨0, rfl, hroot.symm⟩
  · intro id arc harc
    left
    obtain ⟨rfl, rfl⟩ := Table.new_byId_some rootFd rootStat harc
    exact (Table.new_byKey rootFd rootStat rootStat.key).trans (if_pos rfl)

theorem State.new_accounts : (State.new n rootFd rootStat).view.Accounts := by
  constructor
  · intro id arc harc _
    obtain ⟨rfl, rfl⟩ := Table.new_byId_some rootFd rootStat harc
    rw [new_joined, new_taken]
    rfl
  · intro id arc harc hle
    obtain ⟨rfl, rfl⟩ := Table.new_byId_some rootFd rootStat harc
    rw [new_joined, new_taken, if_pos rfl] at hle
    cases hle
  · intro id hi hnone
    left
    have hne : id ≠ ROOT_ID := by
      rintro rfl
      cases hnone
    rw [new_joined, if_neg hne]
    exact Nat.zero_le _
  · intro id hnot
    have hne : id ≠ ROOT_ID := by
      rintro rfl
      exact hnot ⟨le_rfl, Nat.one_lt_two⟩
    rw [new_joined, if_neg hne, new_taken]
    exact ⟨rfl, rfl⟩

/-- The store starts with its root registered once. -/
theorem Sound.new : Sound (State.new n rootFd rootStat).view 0 where
  numbered := Table.new_numbered rootFd rootStat
  apart := Or.inl fun _ => rfl
  sole := nofun
  once := nofun
  fits := fun _ => trivial
  mapped := State.new_mapped rootFd rootStat
  accounts := State.new_accounts rootFd rootStat
  few := by
    refine ⟨le_rfl, fun id => ?_⟩
    rw [State.new_joined]
    split_ifs
    · exact le_rfl
    · exact Nat.zero_le _

end New

/-- The invariant along a run whose calls start as they may. -/
theorem Sound.of_run (rootFd : Fd) (rootStat : Stat) {xs : List (Event n)} {s : State n}
    (hlen : xs.length + 3 < 2 ^ 64)
    (hadm : Along State.step State.Admits (State.new n rootFd rootStat) xs)
    (hrun : run State.step (State.new n rootFd rootStat) xs = some s) :
    Sound s.view xs.length := by
  revert hlen hadm
  refine run_induction (P := fun xs s => xs.length + 3 < 2 ^ 64 →
    Along State.step State.Admits (State.new n rootFd rootStat) xs → Sound s.view xs.length)
    (fun _ _ => Sound.new rootFd rootStat) ?_ hrun
  intro xs e s s' hs ih hstep hlen hadm
  rw [List.length_append, List.length_singleton] at hlen ⊢
  obtain ⟨hadm', hlast⟩ := along_concat.mp hadm
  exact (ih (by omega) hadm').step (by omega) (hlast s hs) hstep

end Riftlessfs.Core.Shared
