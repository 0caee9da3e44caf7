import Riftlessfs.Core.HandleMoves
import Riftlessfs.Core.FileData

/-! What files hold, and the files whose contents a syscall may change. -/
namespace Riftlessfs.Core
open Lib.Effect

/-- What a file holds: bytes, the target of a link, or entries. Where a directory lies and
whether it has been removed are no part of it. -/
inductive Contents where
  | bytes (data : List UInt8)
  | target (t : Name)
  | entries (es : AList fun _ : Name => FileKey)
  | other

def Body.contents : Body → Contents
  | .dir _ es _ => .entries es
  | .file data => .bytes data
  | .symlink t => .target t
  | .other => .other

def Contents.data : Contents → Option (List UInt8)
  | .bytes data => some data
  | _ => none

namespace Host

variable {h h' h₁ h₂ : Host} {S : Set FileKey} {base d k fresh : FileKey} {n : Name} {fd : Fd}
  {flags mode : UInt32} {v v₀ : Node}

def contents (h : Host) (k : FileKey) : Option Contents := (h.node k).map fun v => v.body.contents

def reached (h : Host) (follow : Bool) (base : FileKey) (path : Name) : Option FileKey :=
  match h.resolve follow base path with
  | .ok place => h.fileAt place
  | .error _ => none

/-- The directory of the entry a path leads to, bound or not. -/
def entryDir (h : Host) (follow : Bool) (base : FileKey) (path : Name) : Option FileKey :=
  match h.resolve follow base path with
  | .ok (.entry d _) => some d
  | _ => none

/-- The path leads to file `k`, whether or not a link at its end is followed. -/
def LeadsTo (h : Host) (base : FileKey) (path : Name) (k : FileKey) : Prop :=
  h.reached false base path = some k ∨ h.reached true base path = some k

def EntryIn (h : Host) (base : FileKey) (path : Name) (d : FileKey) : Prop :=
  h.entryDir false base path = some d ∨ h.entryDir true base path = some d

instance (base : FileKey) (path : Name) (k : FileKey) : Decidable (h.LeadsTo base path k) :=
  inferInstanceAs (Decidable (_ ∨ _))

instance (base : FileKey) (path : Name) (d : FileKey) : Decidable (h.EntryIn base path d) :=
  inferInstanceAs (Decidable (_ ∨ _))

/-- Only files in `S` may hold something else than before. -/
def Within (S : Set FileKey) (h h' : Host) : Prop := ∀ k, k ∉ S → h'.contents k = h.contents k

theorem Within.refl (h : Host) : Within S h h := fun _ _ => rfl

theorem Within.trans (ha : Within S h h₁) (hb : Within S h₁ h₂) : Within S h h₂ :=
  fun k hk => (hb k hk).trans (ha k hk)

theorem contents_setNode (v : Node) (x : FileKey) :
    (h.setNode k v).contents x = if x = k then some v.body.contents else h.contents x := by
  unfold contents
  rw [node_setNode]
  split_ifs <;> rfl

theorem within_setNode (hk : k ∈ S) (v : Node) : Within S h (h.setNode k v) := by
  intro x hx
  have hne : x ≠ k := fun heq => hx (heq ▸ hk)
  rw [contents_setNode, if_neg hne]

/-- A node replaced by one with the same contents. -/
theorem within_sameContents (hv : h.node k = some v₀)
    (hc : v.body.contents = v₀.body.contents) : Within S h (h.setNode k v) := by
  intro x _
  rw [contents_setNode]
  split_ifs with hx
  · subst hx
    unfold contents
    rw [hv, hc]
    rfl
  · rfl

theorem within_mapEntries (hd : d ∈ S)
    (f : (AList fun _ : Name => FileKey) → AList fun _ : Name => FileKey) :
    Within S h (h.mapEntries d f) := by
  unfold mapEntries
  split
  · exact within_setNode hd _
  · exact Within.refl h

private theorem within_reparent (up : FileKey) : Within S h (h.reparent k up) := by
  unfold reparent
  split
  · rename_i hv
    exact within_sameContents hv rfl
  · exact Within.refl h

theorem within_markDead : Within S h (h.markDead k) := by
  unfold markDead
  split
  · rename_i hv
    exact within_sameContents hv rfl
  · exact Within.refl h

theorem within_mapInfo (f : Meta → Meta) : Within S h (h.mapInfo k f) := by
  unfold mapInfo
  split
  · rename_i hv
    exact within_sameContents hv rfl
  · exact Within.refl h

theorem within_setData (hk : k ∈ S) (data : List UInt8) : Within S h (h.setData k data) := by
  unfold setData
  split
  · exact within_setNode hk _
  · exact Within.refl h

/-- Files that are not in use are fair game for new ones. -/
def Spent (h : Host) (S : Set FileKey) : Prop := ∀ k, h.inUse k = false → k ∈ S

theorem allocate_within (hS : h.Spent S) {body : Body}
    (ha : h.allocate fresh body mode = .ok h') : Within S h h' := by
  unfold allocate at ha
  split at ha
  · cases ha
  · rename_i hfree
    cases ha
    exact within_setNode (hS fresh (Bool.eq_false_of_not_eq_true hfree)) _

theorem create_within (hS : h.Spent S) (hd : d ∈ S) {body : Body}
    (hc : h.create d n fresh body mode = .ok h') : Within S h h' := by
  unfold create at hc
  simp only [Bind.bind, Except.bind] at hc
  split at hc
  · cases hc
  cases ha : h.allocate fresh body mode with
  | error e => simp [ha] at hc
  | ok h₁ =>
    simp only [ha, Except.ok.injEq] at hc
    subst hc
    have hbind : Within S h₁ (h₁.bind d n fresh) := within_mapEntries hd _
    exact (allocate_within hS ha).trans hbind

section Paths
variable {follow : Bool} {place : Place} {l : Name}

theorem leadsTo_of_resolve (hr : h.resolve follow base n = .ok place)
    (hk : h.fileAt place = some k) : h.LeadsTo base n k := by
  have hreached : h.reached follow base n = some k := by
    unfold reached
    rw [hr]
    exact hk
  cases follow with
  | false => exact Or.inl hreached
  | true => exact Or.inr hreached

theorem entryIn_of_resolve (hr : h.resolve follow base n = .ok (.entry d l)) :
    h.EntryIn base n d := by
  have hdir : h.entryDir follow base n = some d := by
    unfold entryDir
    rw [hr]
  cases follow with
  | false => exact Or.inl hdir
  | true => exact Or.inr hdir

theorem leadsTo_of_lookupPath (hl : h.lookupPath follow base n = .ok k) : h.LeadsTo base n k := by
  unfold lookupPath at hl
  obtain ⟨place, hr, hl⟩ := except_bind_ok hl
  split at hl
  · cases hl
  · rename_i x hx
    split_ifs at hl
    cases hl
    exact leadsTo_of_resolve hr hx

end Paths

/-! Syscalls that open or change one file. -/

theorem fileData_eq : h.fileData k = (h.contents k).bind Contents.data := by
  unfold fileData contents
  cases h.node k with
  | none => rfl
  | some v =>
    obtain ⟨body, info⟩ := v
    cases body <;> rfl

theorem fileData_isSome {data : List UInt8} {info : Meta}
    (hv : h.node k = some ⟨.file data, info⟩) : (h.fileData k).isSome = true := by
  unfold fileData
  rw [hv]
  rfl

/-- An open changes the file itself at most, and that only to truncate it. -/
theorem finishOpen_within
    (hk : hasFlag flags O_TRUNC = true → (h.fileData k).isSome = true → k ∈ S) :
    Gives (fun _ => Within S h) (h.finishOpen k flags) := by
  unfold finishOpen
  split
  · exact gives_error _
  · exact gives_error _
  · exact gives_unless (gives_ok (Within.refl h))
  · rename_i data info hv
    refine gives_unless ?_
    split
    · rename_i htrunc
      exact gives_ok (within_setData (hk htrunc (fileData_isSome hv)) [])
    · exact gives_ok (Within.refl h)
  · exact gives_unless (gives_ok (Within.refl h))

/-- What an `openat` may change: the file it truncates, the directory it creates in, and
keys not in use. -/
structure OpenFootprint (h : Host) (base : FileKey) (n : Name) (flags : UInt32)
    (S : Set FileKey) : Prop where
  trunc : ∀ k, hasFlag flags O_TRUNC = true → ¬(hasFlag flags O_CREAT ∧ hasFlag flags O_EXCL) →
    (h.fileData k).isSome = true → h.LeadsTo base n k → k ∈ S
  creat : ∀ d, hasFlag flags O_CREAT = true → h.EntryIn base n d → d ∈ S
  spent : hasFlag flags O_CREAT = true ∨ hasFlag flags O_TMPFILE = true → h.Spent S

/-- Without the flags that truncate or create, an open changes no file. -/
theorem openFootprint_plain (ht : hasFlag flags O_TRUNC = false)
    (hc : hasFlag flags O_CREAT = false) (htmp : hasFlag flags O_TMPFILE = false) :
    OpenFootprint h base n flags S := by
  constructor
  · intro k htrunc
    rw [ht] at htrunc
    cases htrunc
  · intro d hcreat
    rw [hc] at hcreat
    cases hcreat
  · rw [hc, htmp]
    simp

private theorem openCreate_within (hS : OpenFootprint h base n flags S)
    (hc : hasFlag flags O_CREAT = true) :
    Gives (fun _ => Within S h) (h.openCreate base n flags mode fresh) := by
  refine gives_unless (gives_bind fun place hr => ?_)
  split
  · exact gives_error _
  rename_i d l
  split
  · rename_i k hk
    split
    · exact gives_error _
    · rename_i hexcl
      exact finishOpen_within fun htrunc hfile =>
        hS.trunc k htrunc (fun hboth => hexcl hboth.2) hfile (leadsTo_of_resolve hr hk)
  · refine gives_unless (gives_bind fun h₁ hcreate => ?_)
    have hmade : Within S h h₁ :=
      create_within (hS.spent (Or.inl hc)) (hS.creat d hc (entryIn_of_resolve hr)) hcreate
    exact gives_ok hmade

theorem openat_within (hS : OpenFootprint h base n flags S) :
    Gives (fun _ => Within S h) (h.openat base n flags mode fresh) := by
  unfold openat
  split
  · exact gives_bind fun _ _ => gives_unless (gives_ok (Within.refl h))
  split
  · rename_i htmp
    refine gives_unless (gives_bind fun _ _ => gives_unless (gives_bind fun h₁ ha => ?_))
    have hmade : Within S h h₁ := allocate_within (hS.spent (Or.inr htmp)) ha
    exact gives_ok hmade
  split
  · rename_i hc
    exact openCreate_within hS hc
  · rename_i hno
    refine gives_bind fun k hl => finishOpen_within fun htrunc hfile => ?_
    exact hS.trunc k htrunc (fun hboth => hno hboth.1) hfile (leadsTo_of_lookupPath hl)

theorem ftruncate_within (hk : (h.fileData fd.file).isSome = true → fd.file ∈ S) (size : UInt64) :
    Gives (fun _ => Within S h) (h.ftruncate fd size) := by
  refine gives_unless ?_
  split
  · rename_i data info hv
    exact gives_ok (within_setData (hk (fileData_isSome hv)) _)
  · exact gives_error _

theorem pwrite_within
    (hk : writable fd.flags = true → (h.fileData fd.file).isSome = true → fd.file ∈ S)
    (room : Option ℕ) (off : UInt64) (new : List UInt8) :
    Gives (fun _ => Within S h) (h.pwrite room fd off new) := by
  unfold pwrite
  split
  · exact gives_error _
  rename_i hflags
  push Not at hflags
  refine gives_unless ?_
  split
  · rename_i data info hv
    exact gives_unless (gives_unless
      (gives_ok (within_setData (hk hflags.2 (fileData_isSome hv)) _)))
  · exact gives_error _
  · exact gives_error _

theorem fchmodat_within : Gives (fun _ => Within S h) (h.fchmodat base n mode) :=
  gives_bind fun _ _ => gives_unless (gives_ok (within_mapInfo _))

theorem fchownat_within (uid gid : UInt32) :
    Gives (fun _ => Within S h) (h.fchownat base n uid gid) :=
  gives_bind fun _ _ => gives_ok (within_mapInfo _)

theorem utimensat_within (now atime mtime : Time) :
    Gives (fun _ => Within S h) (h.utimensat base n now atime mtime) := by
  refine gives_bind fun k _ => ?_
  split
  · exact gives_error _
  · exact gives_bind fun _ _ => gives_bind fun _ _ => gives_ok (within_mapInfo _)

theorem readlinkat_within (size : ℕ) : Gives (fun _ => Within S h) (h.readlinkat base n size) := by
  refine gives_bind fun k _ => ?_
  split
  · exact gives_ok (Within.refl h)
  · exact gives_error _

/-! Syscalls on names: they change the directories whose entries their paths lead to. -/

section Names
variable (hS : ∀ d, h.EntryIn base n d → d ∈ S)
include hS

theorem mkdirat_within (hfree : h.Spent S) :
    Gives (fun _ => Within S h) (h.mkdirat base n mode fresh) := by
  refine gives_bind fun place hr => ?_
  split
  · exact gives_error _
  split
  · exact gives_error _
  · exact gives_bind fun h₁ hc =>
      gives_ok (create_within hfree (hS _ (entryIn_of_resolve hr)) hc)

theorem symlinkat_within (hfree : h.Spent S) (t : Name) :
    Gives (fun _ => Within S h) (h.symlinkat t base n fresh) := by
  refine gives_unless (gives_bind fun place hr => ?_)
  split
  · exact gives_error _
  split
  · exact gives_error _
  · exact gives_unless (gives_bind fun h₁ hc =>
      gives_ok (create_within hfree (hS _ (entryIn_of_resolve hr)) hc))

theorem unlinkat_within (removedir : Bool) :
    Gives (fun _ => Within S h) (h.unlinkat base n removedir) := by
  refine gives_bind fun place hr => ?_
  split
  · exact gives_error _
  rename_i d l
  have hunbind : Within S h (h.unbind d l) := within_mapEntries (hS d (entryIn_of_resolve hr)) _
  split
  · exact gives_error _
  apply gives_ite
  · exact gives_unless (gives_unless (gives_ok (hunbind.trans within_markDead)))
  · exact gives_unless (gives_unless (gives_ok hunbind))

theorem linkat_within : Gives (fun _ => Within S h) (h.linkat fd base n) := by
  refine gives_bind fun place hr => ?_
  split
  · exact gives_error _
  rename_i d l
  have hbind : Within S h (h.bind d l fd.file) :=
    within_mapEntries (hS d (entryIn_of_resolve hr)) _
  split
  · exact gives_error _
  · exact gives_unless (gives_unless (gives_unless (gives_unless (gives_ok hbind))))

theorem renameat_within {base' : FileKey} {n' : Name}
    (hS' : ∀ d, h.EntryIn base' n' d → d ∈ S) :
    Gives (fun _ => Within S h) (h.renameat base n base' n') := by
  refine gives_bind fun place hr => gives_bind fun place' hr' => ?_
  split
  · rename_i d l d' l'
    split
    · exact gives_error _
    rename_i m _
    have hmove : Within S h (h.moveEntry d l d' l' m) := by
      have hout : Within S h (h.unbind d l) := within_mapEntries (hS d (entryIn_of_resolve hr)) _
      have hin : Within S (h.unbind d l) ((h.unbind d l).bind d' l' m) :=
        within_mapEntries (hS' d' (entryIn_of_resolve hr')) _
      exact (hout.trans hin).trans (within_reparent d')
    refine gives_unless (gives_unless (gives_unless ?_))
    split
    · exact gives_unless (gives_ok hmove)
    · refine gives_ite (gives_ok (Within.refl h)) (gives_bind fun _ _ => gives_ok ?_)
      exact hmove.trans within_markDead
  · exact gives_error _

end Names

end Host

end Riftlessfs.Core
