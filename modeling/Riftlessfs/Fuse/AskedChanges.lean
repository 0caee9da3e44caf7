import Riftlessfs.Core.Asked
import Riftlessfs.Fuse.DataPath

/-! What files hold changes only when a request asks for it. -/
namespace Riftlessfs.Core

namespace Host
variable {h : Host} {follow : Bool} {cur base d : FileKey} {l path : Name}

/-- A walk ends at entries of directories only, if the walks through links do. -/
theorem walkAux_isDir {onLink : FileKey → Name → List Name → Except Errno Place}
    (hlink : ∀ x t rest, onLink x t rest = .ok (.entry d l) → h.isDir d = true)
    {names : List Name} (hw : h.walkAux follow onLink cur names = .ok (.entry d l)) :
    h.isDir d = true := by
  induction names generalizing cur with
  | nil => cases hw
  | cons c rest ih =>
    unfold walkAux at hw
    cases hup : h.dirParent cur with
    | none => simp [hup] at hw
    | some up =>
      have hcur : h.isDir cur = true := by
        unfold isDir
        rw [hup]
        rfl
      simp only [hup] at hw
      split at hw
      · exact ih hw
      split at hw
      · exact ih hw
      split at hw
      · split at hw
        · cases hw
          exact hcur
        · cases hw
      · split at hw
        · split at hw
          · cases hw
            exact hcur
          · exact hlink _ _ _ hw
        · split at hw
          · cases hw
            exact hcur
          · exact ih hw

private theorem walk_isDir {links : ℕ} {names : List Name}
    (hw : h.walk follow links cur names = .ok (.entry d l)) : h.isDir d = true := by
  induction links generalizing cur names with
  | zero => exact walkAux_isDir (fun _ _ _ he => by cases he) hw
  | succ links ih => exact walkAux_isDir (fun _ _ _ he => ih he) hw

theorem EntryIn.isDir (he : h.EntryIn base path d) : h.isDir d = true := by
  have hdir : ∀ follow, h.entryDir follow base path = some d → h.isDir d = true := by
    intro follow hd
    unfold entryDir at hd
    split at hd
    · rename_i l hr
      cases hd
      unfold resolve at hr
      split_ifs at hr <;> exact walk_isDir hr
    · cases hd
  rcases he with he | he
  · exact hdir false he
  · exact hdir true he

def IsLink (h : Host) (k : FileKey) : Prop := ∃ t, h.contents k = some (.target t)

theorem IsLink.not_file {k : FileKey} (hl : h.IsLink k) : ¬ (h.fileData k).isSome = true := by
  obtain ⟨t, ht⟩ := hl
  rw [fileData_eq, ht]
  simp [Contents.data]

theorem IsLink.not_dir {k : FileKey} (hl : h.IsLink k) : ¬ h.isDir k = true := by
  obtain ⟨t, ht⟩ := hl
  intro hdir
  obtain ⟨up, hup⟩ := Option.isSome_iff_exists.mp hdir
  obtain ⟨es, dead, info, hv⟩ := node_of_dirParent hup
  unfold contents at ht
  rw [hv] at ht
  cases ht

end Host

/-- No call asks for a change of a symbolic link. -/
theorem Call.not_asks_link {w : World} {k : FileKey} (hl : w.host.IsLink k) (c : Call) :
    ¬ c.Asks w k := by
  have hname : ∀ p n, ¬ w.EntryIn p n k := by
    rintro p n ⟨pd, -, he⟩
    exact hl.not_dir he.isDir
  intro ha
  cases c with
  | write i off data => exact hl.not_file ha.1
  | setattr ino attr => exact hl.not_file ha.1
  | openFile ino flags =>
    rcases ha with ha | ⟨-, loc, -, he⟩
    · exact hl.not_file ha.1
    · exact hl.not_dir he.isDir
  | create p n flags mode => exact hname p n ha
  | mkdir p n mode => exact hname p n ha
  | symlink p n t => exact hname p n ha
  | unlink p n => exact hname p n ha
  | rmdir p n => exact hname p n ha
  | link ino p n => exact hname p n ha
  | rename p n p' n' =>
    rcases ha with ha | ha
    · exact hname p n ha
    · exact hname p' n' ha
  | _ => exact ha

end Riftlessfs.Core

namespace Riftlessfs.Fuse
open Riftlessfs.Core Lib.Run

def Input.Asks (x : Input) (s : Session) (k : FileKey) : Prop := x.call.2.Asks s.world k

section Runs
variable {s s' : Session} {x : Input} {xs : List Input} {k : FileKey}

theorem Session.step_contents (hlive : s.world.host.inUse k = true) (hask : ¬ x.Asks s k)
    (hstep : s.step x = some s') : s'.world.host.contents k = s.world.host.contents k := by
  have hworld : s.world.step x.call = some s'.world := by
    rw [← Session.step_world, hstep]
    rfl
  exact World.step_contents hlive hask hworld

/-- Whatever the guest sends, a file in use holds what it held until a request asks to
change it, and a symbolic link always does. -/
theorem contents_change_when_asked (hrun : run Session.step s xs = some s')
    (hlive : Along Session.step (fun s _ => s.world.host.inUse k = true) s xs) :
    (Along Session.step (fun s x => ¬ x.Asks s k) s xs →
      s'.world.host.contents k = s.world.host.contents k) ∧
    (s.world.host.IsLink k → s'.world.host.contents k = s.world.host.contents k) := by
  induction xs generalizing s with
  | nil =>
    cases hrun
    exact ⟨fun _ => rfl, fun _ => rfl⟩
  | cons x xs ih =>
    unfold run at hrun
    obtain ⟨s₁, hstep, hrun⟩ := Option.bind_eq_some_iff.mp hrun
    unfold Along at hlive
    rw [hstep] at hlive
    obtain ⟨hasked, hlink⟩ := ih hrun hlive.2
    constructor
    · intro hnone
      unfold Along at hnone
      rw [hstep] at hnone
      have hsame := Session.step_contents hlive.1 hnone.1 hstep
      exact (hasked hnone.2).trans hsame
    · intro hl
      have hsame := Session.step_contents hlive.1 (Call.not_asks_link hl x.call.2) hstep
      have hl₁ : s₁.world.host.IsLink k := by
        obtain ⟨t, ht⟩ := hl
        exact ⟨t, hsame.trans ht⟩
      exact (hlink hl₁).trans hsame

end Runs

instance (x : Input) (s : Session) (k : FileKey) : Decidable (x.Asks s k) :=
  inferInstanceAs (Decidable (x.call.2.Asks s.world k))

def writeX : List Input :=
  [(calm 20 [], createX O_RDWR), (calm 21 [], encodeWrite 1 0 [7, 7])]

/-- The guest creates `y`, writes to it, and removes `x`, which is still open. -/
def replaceX : List Input :=
  [(calm 21 [], encodeRequest 35 1
      (((((Writer.new.u32 O_RDWR).u32 0o644).u32 0).u32 0).cstr [121]).intoVec),
   (calm 22 [], encodeWrite 2 0 [9]),
   (calm 22 [], encodeRequest 10 1 [120, 0])]

def afterWrite : Session := (run Session.step (.new smallWorld) writeX).getD (.new smallWorld)

def afterReplace : Session := (run Session.step afterWrite replaceX).getD afterWrite

theorem run_getD {s d : Session} {xs : List Input}
    (hsome : (run Session.step s xs).isSome = true) :
    run Session.step s xs = some ((run Session.step s xs).getD d) := by
  obtain ⟨s', hs⟩ := Option.isSome_iff_exists.mp hsome
  rw [hs]
  rfl

theorem contents_change_when_asked_removed :
    run Session.step (.new smallWorld) writeX = some afterWrite ∧
    afterWrite.world.host.fileData ⟨1, 20⟩ = some [7, 7] ∧
    afterReplace.world.host.entry ⟨1, 10⟩ [120] = none ∧
    afterReplace.world.host.contents ⟨1, 20⟩ = afterWrite.world.host.contents ⟨1, 20⟩ := by
  have hrun : run Session.step afterWrite replaceX = some afterReplace :=
    run_getD (by decide +kernel)
  refine ⟨run_getD (by decide +kernel), by decide +kernel, by decide +kernel, ?_⟩
  exact (contents_change_when_asked hrun (by decide +kernel)).1 (by decide +kernel)

end Riftlessfs.Fuse
