import Riftlessfs.Core.InodeInvariant
import Riftlessfs.Lib.Run

/-! Sequential runs of `register` and `forget` on one inode table. -/
namespace Riftlessfs.Core.InodeStore
open Lib.Run

variable {s : InodeStore}

inductive Op where
  | register (parent : UInt64) (name : Name) (fd : Fd) (st : Stat)
  | forget (id count : UInt64)

/-- The table after a call; `none` is a panic. -/
def Op.apply (s : InodeStore) : Op → Option InodeStore
  | .register parent name fd st => (s.register parent name fd st).map fun r => r.2.1
  | .forget id count => some (s.forget id count).1

def Op.returns (s : InodeStore) : Op → Option UInt64
  | .register parent name fd st => (s.register parent name fd st).map fun r => r.1.id
  | .forget .. => none

def Op.isRegister : Op → Bool
  | .register .. => true
  | .forget .. => false

def registrations (ops : List Op) : ℕ := ops.countP Op.isRegister

def registered (id : UInt64) : InodeStore → List Op → ℕ
  | _, [] => 0
  | s, op :: ops => (if op.returns s = some id then 1 else 0) +
      match op.apply s with
      | some s' => registered id s' ops
      | none => 0

def forgotten (id : UInt64) : List Op → ℕ
  | [] => 0
  | .forget id' count :: ops => (if id' = id then count.toNat else 0) + forgotten id ops
  | .register .. :: ops => forgotten id ops

private theorem registered_concat {id : UInt64} {s s' : InodeStore} {ops : List Op} {op : Op}
    (h : run Op.apply s ops = some s') :
    registered id s (ops ++ [op]) =
      registered id s ops + if op.returns s' = some id then 1 else 0 := by
  induction ops generalizing s with
  | nil =>
    cases h
    simp only [List.nil_append, registered, zero_add]
    cases op.apply s' <;> simp
  | cons x ops ih =>
    simp only [run] at h
    cases hx : x.apply s with
    | none => simp [hx] at h
    | some s₁ =>
      rw [hx, Option.bind_some] at h
      simp only [List.cons_append, registered, hx, ih h]
      ring

private theorem forgotten_append (id : UInt64) (xs ys : List Op) :
    forgotten id (xs ++ ys) = forgotten id xs + forgotten id ys := by
  induction xs with
  | nil => simp [forgotten]
  | cons x xs ih =>
    cases x with
    | register => simpa only [List.cons_append, forgotten] using ih
    | forget id' count =>
      simp only [List.cons_append, forgotten, ih]
      ring

theorem registrations_concat (ops : List Op) (op : Op) :
    registrations (ops ++ [op]) = registrations ops + if op.isRegister then 1 else 0 := by
  simp [registrations, List.countP_append, List.countP_cons]

theorem Bounded.mono {n m : ℕ} (hb : Bounded s n) (hnm : n ≤ m) : Bounded s m :=
  ⟨hb.next.trans (by omega), fun id d hd => (hb.lookups id d hd).trans (by omega)⟩

/-- One call keeps the invariant, as long as the counters cannot wrap. -/
theorem Op.apply_inv (op : Op) {n : ℕ} (hi : Inv s) (hb : Bounded s n) (hn : n + 3 < 2 ^ 64) :
    ∃ s', op.apply s = some s' ∧ Inv s' ∧ Bounded s' (n + if op.isRegister then 1 else 0) := by
  cases op with
  | register parent name fd st =>
    rcases hi.register_cases parent name fd st with
      ⟨id, d, -, hd, -, hreg⟩ | ⟨hk, hreg⟩
    · have hl := hb.lookups id d hd
      have hsucc : (d.lookups + 1).toNat = d.lookups.toNat + 1 := toNat_succ (by omega)
      refine ⟨_, by simp only [Op.apply, hreg, Option.map_some]; rfl, ?_, ?_⟩
      · exact hi.setData hd rfl rfl (Or.inl (by simp only [bumped, hsucc]; omega))
      · refine ⟨hb.next.trans (by simp), fun id' e he => ?_⟩
        rw [setData_byId] at he
        split_ifs at he with h
        · cases he
          simp only [bumped, hsucc, Op.isRegister, if_true]
          omega
        · exact (hb.lookups id' e he).trans (by simp)
    · have hnext := hb.next
      refine ⟨_, by simp only [Op.apply, hreg, Option.map_some]; rfl, ?_, ?_⟩
      · exact hi.addFresh rfl hk (by simp [fresh]) (by omega)
      · refine ⟨?_, fun id' e he => ?_⟩
        · have hsucc : (s.nextId + 1).toNat = s.nextId.toNat + 1 := toNat_succ (by omega)
          simp only [InodeStore.addFresh, hsucc, Op.isRegister, if_true]
          omega
        · rw [addFresh_byId] at he
          split_ifs at he with h
          · cases he
            simp [fresh]
          · exact (hb.lookups id' e he).trans (by simp)
  | forget id count =>
    rcases forget_cases s id count with ⟨-, hf⟩ | ⟨d, hr, hd, hlt, hf⟩ | ⟨d, hr, hd, -, hf⟩
    · exact ⟨s, by simp only [Op.apply, hf], hi, hb⟩
    · have hsub : (d.lookups - count).toNat = d.lookups.toNat - count.toNat :=
        UInt64.toNat_sub_of_le _ _ (UInt64.le_of_lt hlt)
      have hlt' : count.toNat < d.lookups.toNat := UInt64.lt_iff_toNat_lt.mp hlt
      refine ⟨_, by simp only [Op.apply, hf]; rfl, ?_, ?_⟩
      · exact hi.setData hd rfl rfl (Or.inl (by simp only [hsub]; omega))
      · refine ⟨hb.next, fun id' e he => ?_⟩
        rw [setData_byId] at he
        split_ifs at he with h
        · cases he
          have := hb.lookups id d hd
          simp only [hsub, Op.isRegister]
          omega
        · exact hb.lookups id' e he
    · refine ⟨_, by simp only [Op.apply, hf], hi.evict hr hd, hb.next, fun id' e he => ?_⟩
      rw [evict_byId] at he
      split_ifs at he with h
      exact hb.lookups id' e he

theorem new_inv (rootFd : Fd) (rootStat : Stat) : Inv (new rootFd rootStat) := by
  constructor
  · intro k id
    by_cases hk : k = rootStat.key <;> by_cases hid : id = ROOT_ID <;>
      simp [new, hk, hid, eq_comm]
  · intro id d hd
    by_cases hid : id = ROOT_ID
    · subst id
      simp only [new, Function.update_self, Option.some.injEq] at hd
      rw [← hd]
    · simp [new, Function.update_of_ne hid] at hd
  · intro id d hd
    by_cases hid : id = ROOT_ID
    · subst id
      show ROOT_ID.toNat < (ROOT_ID + 1).toNat
      decide
    · simp [new, Function.update_of_ne hid] at hd
  · simp [new]
  · intro id d hr hd
    simp [new, Function.update_of_ne hr] at hd

theorem new_bounded (rootFd : Fd) (rootStat : Stat) : Bounded (new rootFd rootStat) 0 := by
  refine ⟨show (ROOT_ID + 1).toNat ≤ 0 + 2 by decide, fun id d hd => ?_⟩
  by_cases hid : id = ROOT_ID
  · subst id
    simp only [new, Function.update_self, Option.some.injEq] at hd
    rw [← hd]
    show (1 : UInt64).toNat ≤ 0 + 1
    decide
  · simp [new, Function.update_of_ne hid] at hd

/-- Along a run that starts at `s₀`, the count of `id` is what was registered since
the call that made it, less what was forgotten since. -/
def Accounted (s₀ : InodeStore) (ops : List Op) (id : UInt64) (d : InodeData) : Prop :=
  ∃ before since s₁, ops = before ++ since ∧ run Op.apply s₀ before = some s₁ ∧
    s₁.byId id = none ∧ (∃ op ∈ since.head?, op.returns s₁ = some id) ∧
    d.lookups.toNat + forgotten id since = registered id s₁ since

/-- Appending a call that changes the count of `id` by what it registers less what it
forgets. -/
theorem Accounted.concat {s₀ s : InodeStore} {ops : List Op} {op : Op} {id : UInt64}
    {d d' : InodeData} (h : Accounted s₀ ops id d) (hs : run Op.apply s₀ ops = some s)
    (hd : d'.lookups.toNat + forgotten id [op] =
      d.lookups.toNat + if op.returns s = some id then 1 else 0) :
    Accounted s₀ (ops ++ [op]) id d' := by
  obtain ⟨before, since, s₁, rfl, hs₁, hnone, ⟨first, hfirst, hret⟩, hcount⟩ := h
  have hsince : run Op.apply s₁ since = some s := by
    rwa [run_append, hs₁, Option.bind_some] at hs
  refine ⟨before, since ++ [op], s₁, List.append_assoc .., hs₁, hnone, ⟨first, ?_, hret⟩, ?_⟩
  · cases since with
    | nil => simp at hfirst
    | cons x xs => simpa using hfirst
  · rw [forgotten_append, registered_concat hsince]
    omega

/-- The accounting survives one call. -/
theorem accounted_step {s₀ s s' : InodeStore} {ops : List Op} {op : Op} {n : ℕ}
    (hs : run Op.apply s₀ ops = some s) (hi : Inv s) (hb : Bounded s n) (hn : n + 3 < 2 ^ 64)
    (ha : ∀ id d, id ≠ ROOT_ID → s.byId id = some d → Accounted s₀ ops id d)
    (hop : op.apply s = some s') :
    ∀ id d, id ≠ ROOT_ID → s'.byId id = some d → Accounted s₀ (ops ++ [op]) id d := by
  intro id e hr he
  cases op with
  | register parent name fd st =>
    rcases hi.register_cases parent name fd st with
      ⟨id₀, d, -, hd, -, hreg⟩ | ⟨hk, hreg⟩
    · have hret : Op.returns s (.register parent name fd st) = some id₀ := by
        simp [Op.returns, hreg, bumped, hi.ids id₀ d hd]
      simp only [Op.apply, hreg, Option.map_some, Option.some.injEq] at hop
      rw [← hop, setData_byId] at he
      split_ifs at he with h
      · subst id
        cases he
        refine (ha id₀ d hr hd).concat hs ?_
        have hl := hb.lookups id₀ d hd
        have hsucc : (d.lookups + 1).toNat = d.lookups.toNat + 1 := toNat_succ (by omega)
        simp [forgotten, hret, bumped, hsucc]
      · refine (ha id e hr he).concat hs ?_
        simp [forgotten, hret, Ne.symm h]
    · have hret : Op.returns s (.register parent name fd st) = some s.nextId := by
        simp [Op.returns, hreg, fresh]
      simp only [Op.apply, hreg, Option.map_some, Option.some.injEq] at hop
      rw [← hop, addFresh_byId] at he
      split_ifs at he with h
      · subst id
        cases he
        refine ⟨ops, [_], s, rfl, hs, hi.nextId_free, ⟨_, rfl, hret⟩, ?_⟩
        simp [forgotten, registered, hret, Op.apply, hreg, fresh]
      · refine (ha id e hr he).concat hs ?_
        simp [forgotten, hret, Ne.symm h]
  | forget id₀ count =>
    simp only [Op.apply, Option.some.injEq] at hop
    have hkeep : s.byId id = some e → id₀ ≠ id → Accounted s₀ (ops ++ [.forget id₀ count]) id e := by
      intro hsame hne
      exact (ha id e hr hsame).concat hs (by simp [forgotten, Op.returns, hne])
    rcases forget_cases s id₀ count with ⟨hnop, hf⟩ | ⟨d, -, hd, hlt, hf⟩ | ⟨d, -, hd, -, hf⟩
    · rw [← hop, hf] at he
      refine hkeep he ?_
      rintro rfl
      rcases hnop with hroot | hnone
      · exact hr hroot
      · simp only [hnone, reduceCtorEq] at he
    · rw [← hop, hf, setData_byId] at he
      split_ifs at he with h
      · subst id
        cases he
        refine (ha id₀ d hr hd).concat hs ?_
        have hsub : (d.lookups - count).toNat = d.lookups.toNat - count.toNat :=
          UInt64.toNat_sub_of_le _ _ (UInt64.le_of_lt hlt)
        have hlt' : count.toNat < d.lookups.toNat := UInt64.lt_iff_toNat_lt.mp hlt
        simp only [forgotten, Op.returns, hsub, if_true, reduceCtorEq, if_false]
        omega
      · exact hkeep he (Ne.symm h)
    · rw [← hop, hf, evict_byId] at he
      split_ifs at he with h
      exact hkeep he (Ne.symm h)

/-- A call evicts an inode exactly when it forgets all that is held, and then from
both maps. -/
theorem Op.apply_evicts {op : Op} {s' : InodeStore} (hi : Inv s) (hop : op.apply s = some s')
    {id : UInt64} {d : InodeData} (hd : s.byId id = some d) (hr : id ≠ ROOT_ID) :
    (s'.byId id = none ↔ ∃ count, op = .forget id count ∧ d.lookups - min count d.lookups = 0) ∧
      (s'.byId id = none → s'.byKey d.key = none) := by
  cases op with
  | register parent name fd st =>
    have hlive : s'.byId id ≠ none := by
      rcases hi.register_cases parent name fd st with
        ⟨id₀, d₀, -, -, -, hreg⟩ | ⟨-, hreg⟩
      · simp only [Op.apply, hreg, Option.map_some, Option.some.injEq] at hop
        rw [← hop, setData_byId]
        split_ifs <;> simp [hd]
      · simp only [Op.apply, hreg, Option.map_some, Option.some.injEq] at hop
        rw [← hop, addFresh_byId]
        split_ifs <;> simp [hd]
    simp [hlive]
  | forget id₀ count =>
    simp only [Op.apply, Option.some.injEq] at hop
    have hpos := hi.counted id d hr hd
    rcases forget_cases s id₀ count with ⟨hnop, hf⟩ | ⟨d₀, -, hd₀, hlt, hf⟩ | ⟨d₀, -, hd₀, hle, hf⟩
    · rw [← hop, hf]
      have hne : id₀ ≠ id := by
        rintro rfl
        rcases hnop with hroot | hnone
        · exact hr hroot
        · simp [hnone] at hd
      simp [hd, hne]
    · rw [← hop, hf, setData_byId]
      split_ifs with h
      · subst id
        rw [hd] at hd₀
        cases hd₀
        have hmin : min count d.lookups = count := if_pos (UInt64.le_of_lt hlt)
        have hsub : d.lookups - count ≠ 0 := by
          intro h0
          have := congrArg UInt64.toNat h0
          rw [UInt64.toNat_sub_of_le _ _ (UInt64.le_of_lt hlt)] at this
          have := UInt64.lt_iff_toNat_lt.mp hlt
          simp at *
          omega
        simp [hmin, hsub]
      · simp [hd, Ne.symm h]
    · rw [← hop, hf, evict_byId]
      split_ifs with h
      · subst id
        rw [hd] at hd₀
        cases hd₀
        have hmin : min count d.lookups = d.lookups := by
          show (if count ≤ d.lookups then count else d.lookups) = d.lookups
          split_ifs with hc
          · exact UInt64.le_antisymm hc hle
          · rfl
        simp [hmin, InodeStore.evict]
      · simp [hd, Ne.symm h]

/-- An id issued before a call and live after it was live before, for the same file. -/
theorem Op.apply_persists {op : Op} {s' : InodeStore} (hi : Inv s)
    (hnext : s.nextId.toNat + 1 < 2 ^ 64) (hop : op.apply s = some s') :
    s.nextId.toNat ≤ s'.nextId.toNat ∧ ∀ id d', id.toNat < s.nextId.toNat →
      s'.byId id = some d' → ∃ d, s.byId id = some d ∧ d.key = d'.key := by
  cases op with
  | register parent name fd st =>
    rcases hi.register_cases parent name fd st with
      ⟨id₀, d₀, -, hd₀, -, hreg⟩ | ⟨-, hreg⟩
    all_goals
      simp only [Op.apply, hreg, Option.map_some, Option.some.injEq] at hop
      subst hop
    · refine ⟨le_rfl, fun id d' _ hd' => ?_⟩
      rw [setData_byId] at hd'
      split_ifs at hd' with h
      · cases hd'
        exact ⟨d₀, h ▸ hd₀, rfl⟩
      · exact ⟨d', hd', rfl⟩
    · refine ⟨?_, fun id d' hlt hd' => ?_⟩
      · show s.nextId.toNat ≤ (s.nextId + 1).toNat
        rw [toNat_succ hnext]
        omega
      · rw [addFresh_byId] at hd'
        split_ifs at hd' with h
        · subst id
          exact absurd hlt (lt_irrefl _)
        · exact ⟨d', hd', rfl⟩
  | forget id₀ count =>
    simp only [Op.apply, Option.some.injEq] at hop
    subst hop
    rcases forget_cases s id₀ count with ⟨-, hf⟩ | ⟨d₀, -, hd₀, -, hf⟩ | ⟨d₀, -, hd₀, -, hf⟩
    all_goals rw [hf]
    · exact ⟨le_rfl, fun id d' _ hd' => ⟨d', hd', rfl⟩⟩
    · refine ⟨le_rfl, fun id d' _ hd' => ?_⟩
      rw [setData_byId] at hd'
      split_ifs at hd' with h
      · cases hd'
        exact ⟨d₀, h ▸ hd₀, rfl⟩
      · exact ⟨d', hd', rfl⟩
    · refine ⟨le_rfl, fun id d' _ hd' => ?_⟩
      rw [evict_byId] at hd'
      split_ifs at hd' with h
      exact ⟨d', hd', rfl⟩

/-- A run of calls from a table within its bounds never panics and keeps them. -/
theorem run_inv {n : ℕ} (hi : Inv s) (hb : Bounded s n) (ops : List Op)
    (hn : n + registrations ops + 3 < 2 ^ 64) :
    ∃ s', run Op.apply s ops = some s' ∧ Inv s' ∧ Bounded s' (n + registrations ops) := by
  induction ops using List.reverseRecOn with
  | nil => exact ⟨s, rfl, hi, hb⟩
  | append_singleton ops op ih =>
    rw [registrations_concat] at hn ⊢
    obtain ⟨s₁, hs₁, hi₁, hb₁⟩ := ih (by omega)
    obtain ⟨s', hs', hi', hb'⟩ := op.apply_inv hi₁ hb₁ (by omega)
    refine ⟨s', ?_, hi', ?_⟩
    · rw [run_concat, hs₁, Option.bind_some, hs']
    · rwa [← add_assoc]

/-- The persistence of issued ids, over a whole run. -/
theorem run_persists {n : ℕ} (hi : Inv s) (hb : Bounded s n) {ops : List Op}
    (hn : n + registrations ops + 3 < 2 ^ 64) {s' : InodeStore}
    (hrun : run Op.apply s ops = some s') :
    s.nextId.toNat ≤ s'.nextId.toNat ∧ ∀ id d', id.toNat < s.nextId.toNat →
      s'.byId id = some d' → ∃ d, s.byId id = some d ∧ d.key = d'.key := by
  induction ops using List.reverseRecOn generalizing s' with
  | nil =>
    cases hrun
    exact ⟨le_rfl, fun id d' _ hd' => ⟨d', hd', rfl⟩⟩
  | append_singleton ops op ih =>
    rw [registrations_concat] at hn
    obtain ⟨s₁, hs₁, hop⟩ := run_concat_some hrun
    obtain ⟨hmono, hkeep⟩ := ih (by omega) hs₁
    obtain ⟨s₂, hs₂, hi₁, hb₁⟩ := run_inv hi hb ops (by omega)
    rw [hs₁] at hs₂
    cases hs₂
    have hnext := hb₁.next
    obtain ⟨hmono', hkeep'⟩ := Op.apply_persists hi₁ (by omega) hop
    refine ⟨hmono.trans hmono', fun id d' hlt hd' => ?_⟩
    obtain ⟨d, hd, hk⟩ := hkeep' id d' (by omega) hd'
    obtain ⟨d₁, hd₁, hk₁⟩ := hkeep id d hlt hd
    exact ⟨d₁, hd₁, hk₁.trans hk⟩

private theorem run_accounted {rootFd : Fd} {rootStat : Stat} {ops : List Op} {s : InodeStore}
    (hn : registrations ops + 3 < 2 ^ 64)
    (hrun : run Op.apply (new rootFd rootStat) ops = some s) :
    ∀ id d, id ≠ ROOT_ID → s.byId id = some d →
      Accounted (new rootFd rootStat) ops id d := by
  induction ops using List.reverseRecOn generalizing s with
  | nil =>
    cases hrun
    intro id d hr hd
    simp [new, Function.update_of_ne hr] at hd
  | append_singleton ops op ih =>
    rw [registrations_concat] at hn
    obtain ⟨s₁, hs₁, hop⟩ := run_concat_some hrun
    obtain ⟨s₂, hs₂, hi₁, hb₁⟩ :=
      run_inv (new_inv rootFd rootStat) (new_bounded rootFd rootStat) ops (by omega)
    rw [hs₁] at hs₂
    cases hs₂
    exact accounted_step hs₁ hi₁ hb₁ (by omega) (ih (by omega) hs₁) hop

/-- The inode table over any sequence of fewer than `2 ^ 63` registrations and any
forgets: no panic, inverse maps, exact counts, eviction exactly at zero, and ids that
denote one file for good. -/
theorem sequential_representation (rootFd : Fd) (rootStat : Stat) (ops : List Op)
    (hn : registrations ops < 2 ^ 63) :
    ∃ s, run Op.apply (new rootFd rootStat) ops = some s ∧
      (∀ k id, s.byKey k = some id ↔ ∃ d, s.byId id = some d ∧ d.key = k) ∧
      (∀ id₁ id₂ d₁ d₂, s.byId id₁ = some d₁ → s.byId id₂ = some d₂ → d₁.key = d₂.key →
        id₁ = id₂) ∧
      (∃ d, s.byId ROOT_ID = some d ∧ d.key = rootStat.key) ∧
      (∀ id d, id ≠ ROOT_ID → s.byId id = some d →
        1 ≤ d.lookups.toNat ∧ Accounted (new rootFd rootStat) ops id d) ∧
      (∀ op s', Op.apply s op = some s' → ∀ id d, s.byId id = some d → id ≠ ROOT_ID →
        (s'.byId id = none ↔
          ∃ count, op = .forget id count ∧ d.lookups - min count d.lookups = 0) ∧
        (s'.byId id = none → s'.byKey d.key = none)) ∧
      (∀ id d, s.byId id = some d → id.toNat < s.nextId.toNat) ∧
      (∀ p n fd st d s' dropped, s.register p n fd st = some (d, s', dropped) →
        s'.byId d.id = some d ∧ d.key = st.key) ∧
      (∀ before between after s₁ s₂, ops = before ++ between ++ after →
        run Op.apply (new rootFd rootStat) before = some s₁ →
        run Op.apply s₁ between = some s₂ → ∀ id d₁, s₁.byId id = some d₁ →
          (s₂.byId id = none → s.byId id = none) ∧
          ∀ d, s.byId id = some d → d.key = d₁.key) := by
  have hi₀ := new_inv rootFd rootStat
  have hb₀ := new_bounded rootFd rootStat
  obtain ⟨s, hs, hi, -⟩ := run_inv hi₀ hb₀ ops (by omega)
  refine ⟨s, hs, hi.inverse, fun _ _ _ _ h₁ h₂ hk => hi.key_inj h₁ h₂ hk, ?_,
    fun id d hr hd => ⟨hi.counted id d hr hd, run_accounted (by omega) hs id d hr hd⟩,
    fun op s' hop id d hd hr => Op.apply_evicts hi hop hd hr, hi.below,
    fun p n fd st d s' dropped hreg => hi.register_live hreg, ?_⟩
  · obtain ⟨d, hd⟩ := Option.isSome_iff_exists.mp hi.root
    obtain ⟨d₀, hd₀, hk⟩ := (run_persists hi₀ hb₀ (by omega) hs).2 ROOT_ID d
      (show ROOT_ID.toNat < (ROOT_ID + 1).toNat by decide) hd
    refine ⟨d, hd, hk.symm.trans ?_⟩
    simp only [new, Function.update_self, Option.some.injEq] at hd₀
    rw [← hd₀]
  · rintro before between after s₁ s₂ rfl hs₁ hs₂ id d₁ hd₁
    simp only [registrations, List.countP_append] at hn
    obtain ⟨t₁, ht₁, hi₁, hb₁⟩ := run_inv hi₀ hb₀ before (by simp only [registrations]; omega)
    rw [hs₁] at ht₁
    cases ht₁
    obtain ⟨t₂, ht₂, hi₂, hb₂⟩ := run_inv hi₁ hb₁ between (by simp only [registrations]; omega)
    rw [hs₂] at ht₂
    cases ht₂
    have hafter : run Op.apply s₂ after = some s := by
      rwa [List.append_assoc, run_append, hs₁, Option.bind_some, run_append, hs₂,
        Option.bind_some] at hs
    have hlt := hi₁.below id d₁ hd₁
    have hmid := run_persists hi₁ hb₁ (by simp only [registrations]; omega) hs₂
    have hend := run_persists hi₂ hb₂ (by simp only [registrations]; omega) hafter
    have hback : ∀ d, s.byId id = some d → ∃ e, s₂.byId id = some e ∧ e.key = d.key :=
      fun d hd => hend.2 id d (by omega) hd
    refine ⟨fun hnone => ?_, fun d hd => ?_⟩
    · cases hd : s.byId id with
      | none => rfl
      | some d =>
        obtain ⟨e, he, -⟩ := hback d hd
        rw [hnone] at he
        cases he
    · obtain ⟨e, he, hke⟩ := hback d hd
      obtain ⟨f, hf, hkf⟩ := hmid.2 id e hlt he
      rw [hd₁] at hf
      cases hf
      exact (hkf.trans hke).symm

/-- A file registered twice under two names and forgotten once is still held once. -/
theorem sequential_representation_hard_link :
    let fd : Fd := ⟨3, ⟨1, 10⟩, O_DIRECTORY⟩
    let root : Stat := ⟨1, 10, 0, 0, (0, 0), (0, 0), (0, 0), S_IFDIR, 1, 0, 0, 0, 4096⟩
    let file : Stat := { root with ino := 11, mode := S_IFREG }
    let ops : List Op := [.register 1 [97] ⟨4, ⟨1, 11⟩, O_PATH⟩ file,
      .register 1 [98] ⟨5, ⟨1, 11⟩, O_PATH⟩ file, .forget 2 1]
    registrations ops < 2 ^ 63 ∧ ∃ s, run Op.apply (new fd root) ops = some s ∧
      (∃ d, s.byId ROOT_ID = some d ∧ d.key = root.key) ∧
      ∃ d, s.byId 2 = some d ∧ d.key = file.key ∧ d.lookups = 1 ∧
        Accounted (new fd root) ops 2 d := by
  intro fd root file ops
  have hn : registrations ops < 2 ^ 63 := by decide
  have hlive : (run Op.apply (new fd root) ops).map
      (fun s => (s.byId 2).map fun d => (d.key, d.lookups)) = some (some (file.key, 1)) := by
    decide +kernel
  obtain ⟨s, hs, -, -, hroot, hcount, -⟩ := sequential_representation fd root ops hn
  rw [hs] at hlive
  obtain ⟨d, hd, hfacts⟩ := Option.map_eq_some_iff.mp (Option.some.inj hlive)
  obtain ⟨hkey, hlookups⟩ := Prod.mk.inj hfacts
  exact ⟨hn, s, hs, hroot, d, hd, hkey, hlookups, (hcount 2 d (by decide) hd).2⟩

end Riftlessfs.Core.InodeStore
