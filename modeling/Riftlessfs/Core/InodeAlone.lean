import Mathlib.Logic.Relation
import Riftlessfs.Core.InodeMoves

/-! A call that nobody overlaps does to the shared inode table what the sequential function
does. -/
namespace Riftlessfs.Core.Shared

open Lib.Locks (Mode)
open Lib.Run
open Relation (ReflTransGen)

/-- A step of a call that never waits. -/
inductive Solo : Table × Pc → Table × Pc → Prop where
  | step {tab tab' : Table} {pc pc' : Pc} {done : Done}
    (h : tab.next pc = some (tab', pc', done)) : Solo (tab, pc) (tab', pc')

section Waits

variable {n : ℕ} {s : State n} {t : Fin n}

/-- Every other thread is out of its calls. -/
def State.Alone (s : State n) (t : Fin n) : Prop := ∀ t', t' ≠ t → s.threads t' = .idle

/-- A call never wants a lock that it has. -/
theorem Pc.holds_wanted {pc : Pc} {l : Lock} {m : Mode} (h : pc.wants = some (l, m)) :
    pc.holds l = none := by
  cases pc <;> cases h <;> rfl

theorem State.Alone.ready (h : s.Alone t) : s.ready t = true := by
  unfold State.ready
  cases hw : s.wants t with
  | none => rfl
  | some want =>
    obtain ⟨l, m⟩ := want
    refine decide_eq_true fun t' => ?_
    have hfree : s.holds t' l = none := by
      by_cases ht' : t' = t
      · rw [ht']
        exact Pc.holds_wanted hw
      · rw [State.holds, h t' ht']
        rfl
    rw [hfree]
    rfl

def State.stepped (s : State n) (t : Fin n) (tab : Table) (pc : Pc) (done : Done) : State n where
  table := tab
  threads := Function.update s.threads t pc
  registrations := fun id => s.registrations id + done.registrations id
  forgets := fun id => s.forgets id + done.forgets id

theorem State.Alone.step (h : s.Alone t) {tab : Table} {pc : Pc} {done : Done}
    (hnext : s.table.next (s.threads t) = some (tab, pc, done)) :
    s.step (.step t) = some (s.stepped t tab pc done) ∧ (s.stepped t tab pc done).Alone t := by
  constructor
  · simp only [State.step]
    rw [if_pos h.ready, hnext]
    rfl
  · intro t' hne
    exact (Function.update_of_ne hne _ _).trans (h t' hne)

/-- A call that nobody overlaps takes its steps one after the other. -/
theorem State.Alone.run {x y : Table × Pc} (hsolo : ReflTransGen Solo x y) {s : State n}
    (h : s.Alone t) (hx : (s.table, s.threads t) = x) :
    ∃ k s', Lib.Run.run State.step s (List.replicate k (.step t)) = some s' ∧
      (s'.table, s'.threads t) = y ∧ s'.Alone t := by
  induction hsolo using ReflTransGen.head_induction_on generalizing s with
  | refl => exact ⟨0, s, rfl, hx, h⟩
  | head hstep _ ih =>
    obtain ⟨hnext⟩ := hstep
    obtain ⟨rfl, rfl⟩ := Prod.mk.inj hx
    obtain ⟨hs, halone⟩ := h.step hnext
    obtain ⟨k, s', hrun, hend⟩ := ih halone (Prod.ext rfl (Function.update_self _ _ _))
    refine ⟨k + 1, s', ?_, hend⟩
    rw [List.replicate_succ, Lib.Run.run, hs]
    exact hrun

end Waits

section Stores

variable {tab : Table} {id : UInt64} {arc : ℕ}

theorem Table.setArc_self (tab : Table) (arc : ℕ) (d : InodeData) :
    (tab.setArc arc d).arcs arc = d :=
  Function.update_self _ _ _

theorem Table.setArc_setArc (tab : Table) (arc : ℕ) (d d' : InodeData) :
    (tab.setArc arc d).setArc arc d' = tab.setArc arc d' := by
  unfold setArc
  rw [Function.update_idem]

/-- An inode that changes is the one of its id only. -/
theorem Table.Numbered.store_setArc (h : tab.Numbered) (hid : tab.byId id = some arc)
    (d : InodeData) : (tab.setArc arc d).store = tab.store.setData id d := by
  have hbyId : (tab.setArc arc d).store.byId = Function.update tab.store.byId id (some d) := by
    funext id'
    by_cases hne : id' = id
    · subst hne
      rw [Function.update_self]
      show (tab.byId id').map (Function.update tab.arcs arc d) = some d
      rw [hid, Option.map_some, Function.update_self]
    · rw [Function.update_of_ne hne]
      show (tab.byId id').map (Function.update tab.arcs arc d) = (tab.byId id').map tab.arcs
      cases hid' : tab.byId id' with
      | none => rfl
      | some arc' =>
        have hne' : arc' ≠ arc := by
          rintro rfl
          exact hne ((h.inode id' arc' hid').2.symm.trans (h.inode id arc' hid).2)
        rw [Option.map_some, Option.map_some, Function.update_of_ne hne']
  unfold InodeStore.setData
  rw [← hbyId]
  rfl

theorem Table.Numbered.store_fresh (h : tab.Numbered) (r : Registration) :
    (((tab.add r).setId tab.nextId (some tab.made)).setKey r.key (some tab.nextId)).store =
      { byId := Function.update tab.store.byId tab.nextId (some (tab.fresh r))
        byKey := Function.update tab.byKey r.key (some tab.nextId)
        nextId := tab.nextId + 1 } := by
  have hbyId : (((tab.add r).setId tab.nextId (some tab.made)).setKey r.key
      (some tab.nextId)).store.byId =
        Function.update tab.store.byId tab.nextId (some (tab.fresh r)) := by
    funext id'
    show (Function.update tab.byId tab.nextId (some tab.made) id').map
      (Function.update tab.arcs tab.made (tab.fresh r)) = _
    by_cases hne : id' = tab.nextId
    · subst hne
      rw [Function.update_self, Function.update_self, Option.map_some, Function.update_self]
    · rw [Function.update_of_ne hne, Function.update_of_ne hne]
      show _ = (tab.byId id').map tab.arcs
      cases hid' : tab.byId id' with
      | none => rfl
      | some arc' =>
        have hne' : arc' ≠ tab.made := Nat.ne_of_lt (h.inode id' arc' hid').1
        rw [Option.map_some, Option.map_some, Function.update_of_ne hne']
  rw [← hbyId]
  rfl

theorem Table.store_evict (tab : Table) (id : UInt64) (k : FileKey) :
    ((tab.setId id none).setKey k none).store =
      { tab.store with byId := Function.update tab.store.byId id none
                       byKey := Function.update tab.store.byKey k none } := by
  have hbyId : ((tab.setId id none).setKey k none).store.byId =
      Function.update tab.store.byId id none :=
    Function.comp_update (Option.map tab.arcs) tab.byId id none
  rw [← hbyId]
  rfl

end Stores

section Calls

variable {tab : Table}

theorem Table.store_byId_eq {id : UInt64} {o : Option ℕ} (h : tab.byId id = o) :
    tab.store.byId id = o.map tab.arcs :=
  congrArg (Option.map tab.arcs) h

/-- A `register` on its own. -/
theorem Table.Numbered.register_solo (h : tab.Numbered) (r : Registration) {d : InodeData}
    {store : InodeStore} {fd : Option Fd}
    (hseq : tab.store.register r.parent r.name r.fd r.st = some (d, store, fd)) :
    ∃ tab', ReflTransGen Solo (tab, .regLock r) (tab', .idle) ∧ tab'.store = store := by
  unfold InodeStore.register at hseq
  cases hk : tab.byKey r.key with
  | none =>
    rw [show tab.store.byKey r.st.key = none from hk] at hseq
    cases hseq
    have hfind : tab.next (.regFind r) = some (tab, .regNextId r, .nothing) := by
      simp only [Table.next, hk]
    exact ⟨_, .head (.step rfl) (.head (.step hfind) (.head (.step rfl) (.head (.step rfl)
      (.head (.step rfl) (.head (.step rfl) (.head (.step rfl) .refl)))))), h.store_fresh r⟩
  | some id =>
    rw [show tab.store.byKey r.st.key = some id from hk] at hseq
    cases hid : tab.byId id with
    | none =>
      simp only [Table.store_byId_eq hid, Option.map_none] at hseq
      cases hseq
    | some arc =>
      simp only [Table.store_byId_eq hid, Option.map_some] at hseq
      cases hseq
      have hfind : tab.next (.regFind r) = some (tab, .regLockId r id, .nothing) := by
        simp only [Table.next, hk]
      have hclone : tab.next (.regClone r id) = some (tab, .regBump r id arc, .nothing) := by
        simp only [Table.next, hid]
      refine ⟨_, .head (.step rfl) (.head (.step hfind) (.head (.step rfl) (.head (.step hclone)
        (.head (.step rfl) (.head (.step rfl) (.head (.step rfl) (.head (.step rfl)
          (.head (.step rfl) (.head (.step rfl) .refl))))))))), ?_⟩
      rw [Table.setArc_setArc, Table.setArc_setArc, Table.setArc_self, Table.setArc_self]
      exact h.store_setArc hid _

/-- A `forget` on its own. -/
theorem Table.Numbered.forget_solo (h : tab.Numbered) (id count : UInt64) :
    ∃ tab', ReflTransGen Solo (tab, (Call.forget id count).entry) (tab', .idle) ∧
      tab'.store = (tab.store.forget id count).1 := by
  unfold InodeStore.forget
  by_cases hroot : id = ROOT_ID
  · rw [show (Call.forget id count).entry = .idle from if_pos hroot, if_pos hroot]
    exact ⟨tab, .refl, rfl⟩
  rw [show (Call.forget id count).entry = .fgLock id count from if_neg hroot, if_neg hroot]
  cases hid : tab.byId id with
  | none =>
    have hfind : tab.next (.fgFind id count) = some (tab, .idle, .nothing) := by
      simp only [Table.next, hid]
    simp only [Table.store_byId_eq hid, Option.map_none]
    exact ⟨tab, .head (.step rfl) (.head (.step hfind) .refl), rfl⟩
  | some arc =>
    have hfind : tab.next (.fgFind id count) = some (tab, .fgLoad id count arc, .nothing) := by
      simp only [Table.next, hid]
    simp only [Table.store_byId_eq hid, Option.map_some]
    generalize hl : (tab.arcs arc).lookups = l
    have hload : tab.next (.fgLoad id count arc) =
        some (tab, .fgSub id count arc (min count l), .nothing) := by
      simp only [Table.next, hl]
    generalize htab : tab.setArc arc { tab.arcs arc with lookups := l - min count l } = tab₁
    have hstore : tab₁.store = tab.store.setData id
        { tab.arcs arc with lookups := l - min count l } := by
      rw [← htab]
      exact h.store_setArc hid _
    have hsub : tab.next (.fgSub id count arc (min count l)) =
        some (tab₁, .fgUnlock id count (l ≤ count), .nothing) := by
      simp only [Table.next, hl, htab]
    by_cases hle : l ≤ count
    · rw [if_pos hle, ← hstore]
      rw [decide_eq_true hle] at hsub
      have hremove : tab₁.next (.fgRemove id count) =
          some (tab₁.setId id none, .fgKeyLock id count (tab.arcs arc).key, .nothing) := by
        rw [← htab]
        simp only [Table.next, show (tab.setArc arc _).byId id = some arc from hid,
          Table.setArc_self]
        rfl
      exact ⟨_, .head (.step rfl) (.head (.step hfind) (.head (.step hload) (.head (.step hsub)
        (.head (.step rfl) (.head (.step rfl) (.head (.step hremove) (.head (.step rfl)
          (.head (.step rfl) .refl)))))))), tab₁.store_evict id (tab.arcs arc).key⟩
    · rw [if_neg hle]
      rw [decide_eq_false hle] at hsub
      exact ⟨tab₁, .head (.step rfl) (.head (.step hfind) (.head (.step hload) (.head (.step hsub)
        (.head (.step rfl) .refl)))), hstore⟩

end Calls

section Runs

variable {n : ℕ} {s : State n} {t : Fin n}

/-- A call that starts while no other is in progress, and is not overlapped, returns. -/
theorem State.run_alone (hidle : ∀ t', s.threads t' = .idle) {call : Call} {tab : Table}
    (hsolo : ReflTransGen Solo (s.table, call.entry) (tab, .idle)) :
    ∃ k s', run State.step s (.start t call :: List.replicate k (.step t)) = some s' ∧
      s'.table = tab ∧ ∀ t', s'.threads t' = .idle := by
  have hstart : s.step (.start t call) =
      some { s with threads := Function.update s.threads t call.entry } := by
    simp only [State.step, hidle t]
  have halone : State.Alone { s with threads := Function.update s.threads t call.entry } t := by
    intro t' hne
    exact (Function.update_of_ne hne _ _).trans (hidle t')
  obtain ⟨k, s', hrun, hend, hothers⟩ :=
    State.Alone.run hsolo halone (Prod.ext rfl (Function.update_self _ _ _))
  refine ⟨k, s', ?_, congrArg Prod.fst hend, fun t' => ?_⟩
  · rw [run, hstart]
    exact hrun
  · by_cases hne : t' = t
    · rw [hne]
      exact congrArg Prod.snd hend
    · exact hothers t' hne

/-- Calls one at a time are the sequential functions. -/
theorem State.alone_sequential (hnum : s.table.Numbered) (hidle : ∀ t', s.threads t' = .idle)
    (t : Fin n) :
    (∀ r d store fd, s.table.store.register r.parent r.name r.fd r.st = some (d, store, fd) →
      ∃ k s', run State.step s (.start t (.register r) :: List.replicate k (.step t)) = some s' ∧
        s'.table.store = store ∧ ∀ t', s'.threads t' = .idle) ∧
    ∀ id count,
      ∃ k s', run State.step s (.start t (.forget id count) :: List.replicate k (.step t)) =
          some s' ∧
        s'.table.store = (s.table.store.forget id count).1 ∧ ∀ t', s'.threads t' = .idle := by
  constructor
  · intro r d store fd hseq
    obtain ⟨tab, hsolo, hstore⟩ := hnum.register_solo r hseq
    obtain ⟨k, s', hrun, htab, hend⟩ := State.run_alone (t := t) hidle (show ReflTransGen Solo
      (s.table, (Call.register r).entry) (tab, .idle) from hsolo)
    exact ⟨k, s', hrun, by rw [htab, hstore], hend⟩
  · intro id count
    obtain ⟨tab, hsolo, hstore⟩ := hnum.forget_solo id count
    obtain ⟨k, s', hrun, htab, hend⟩ := State.run_alone (t := t) hidle hsolo
    exact ⟨k, s', hrun, by rw [htab, hstore], hend⟩

end Runs

end Riftlessfs.Core.Shared
