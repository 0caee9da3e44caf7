import Riftlessfs.Core.Contents
import Riftlessfs.Core.CallRuns

/-! The calls that ask for a change of what a file holds. A call changes the contents of the
files it asks about, and of keys no file in use has. -/
namespace Riftlessfs.Core
open Lib.Effect PassthroughFs Host

/-- Under name `n` of the directory of node `p` there is an entry of directory `d`. -/
def World.EntryIn (w : World) (p : UInt64) (n : Name) (d : FileKey) : Prop :=
  ∃ pd ∈ w.inodes.byId p, w.host.EntryIn pd.fd.file n d

/-- The name the engine keeps for node `ino`, in the directory of the parent it keeps. -/
def World.kept (w : World) (ino : UInt64) : Option (FileKey × Name) :=
  (w.inodes.byId ino).bind fun d =>
    (w.inodes.byId (d.parent.getD ROOT_ID)).map fun pd => (pd.fd.file, d.name)

def World.OpensAs (w : World) (ino : UInt64) (k : FileKey) : Prop :=
  (ino = ROOT_ID ∧ ∃ d ∈ w.inodes.byId ino, d.fd.file = k) ∨
    ∃ loc ∈ w.kept ino, w.host.LeadsTo loc.1 loc.2 k

/-- The call asks for a change of what file `k` holds: of the bytes of a regular file, through a
handle opened for writing or by truncating the file that a node's remembered location now leads to,
or of the entries of a directory. -/
def Call.Asks (w : World) (k : FileKey) : Call → Prop
  | .write handle _ _ => (w.host.fileData k).isSome = true ∧
      ∃ fd ∈ (w.handles.withFile handle).toOption, fd.file = k ∧ writable fd.flags = true
  | .setattr ino attr => (w.host.fileData k).isSome = true ∧ attr.size.isSome = true ∧ w.OpensAs ino k
  | .openFile ino flags =>
      ((w.host.fileData k).isSome = true ∧ hasFlag flags O_TRUNC = true ∧ w.OpensAs ino k) ∨
      (hasFlag flags O_CREAT = true ∧ ∃ loc ∈ w.kept ino, w.host.EntryIn loc.1 loc.2 k)
  | .create p n _ _ | .mkdir p n _ | .symlink p n _ | .unlink p n | .rmdir p n | .link _ p n =>
      w.EntryIn p n k
  | .rename p n p' n' => w.EntryIn p n k ∨ w.EntryIn p' n' k
  | _ => False

instance (w : World) (p : UInt64) (n : Name) (d : FileKey) : Decidable (w.EntryIn p n d) :=
  inferInstanceAs (Decidable (∃ pd ∈ w.inodes.byId p, w.host.EntryIn pd.fd.file n d))

instance (w : World) (ino : UInt64) (k : FileKey) : Decidable (w.OpensAs ino k) :=
  inferInstanceAs (Decidable (_ ∨ _))

instance decidableAsks (w : World) (k : FileKey) : (c : Call) → Decidable (c.Asks w k)
  | .write .. | .setattr .. => inferInstanceAs (Decidable (_ ∧ _))
  | .openFile .. | .rename .. => inferInstanceAs (Decidable (_ ∨ _))
  | .create p n _ _ | .mkdir p n _ | .symlink p n _ | .unlink p n | .rmdir p n | .link _ p n =>
      inferInstanceAs (Decidable (w.EntryIn p n k))
  | .nothing | .lookup .. | .forget _ | .getattr _ | .readlink _ | .read .. | .fsync _
  | .release _ | .opendir _ | .statfs _ => inferInstanceAs (Decidable False)

/-- The files a call may change. -/
def Call.footprint (w : World) (c : Call) : Set FileKey :=
  {k | c.Asks w k ∨ w.host.inUse k = false}

/-- Only files in `S` may hold something else than before. -/
def contentsFrame (S : Set FileKey) : Frame Stop World where
  pre _ := True
  rel w w' := Within S w.host w'.host
  err _ := True
  refl w := Within.refl w.host
  trans h₁ h₂ := h₁.trans h₂
  stable _ _ := trivial

section Ops
variable {α : Type} {env : Env} {S : Set FileKey} {w w' : World} {m : FsM α} {ino p : UInt64}
  {n : Name} {flags mode : UInt32}

theorem within_of_final (h : ∀ w, Within S w.host (final (m w)).host) :
    Keeps (contentsFrame S) m :=
  fun w _ => ⟨h w, fun _ _ _ => trivial⟩

theorem withinAt_final (h : Within S w.host (final (m w)).host) :
    KeepsAt (contentsFrame S) m w :=
  ⟨h, fun _ _ _ => trivial⟩

/-- One syscall. -/
theorem sys_withinAt (site : Site) {f : Host → Except Errno (α × Host)}
    (hf : Gives (fun _ => Within S w.host) (f w.host)) :
    KeepsAt (contentsFrame S) (sys env site f) w := by
  rcases sys_cases env site f w with ⟨e, he⟩ | ⟨a, h, hok, heq⟩
  · exact keepsAt_of_error he (Within.refl _) trivial
  · exact keepsAt_of_ok heq (hf a h hok)

theorem sys_within (site : Site) {f : Host → Except Errno (α × Host)}
    (hf : ∀ h, Gives (fun _ => Within S h) (f h)) : Keeps (contentsFrame S) (sys env site f) :=
  fun w _ => sys_withinAt site (hf w.host)

/-- A syscall that only looks. -/
theorem look_within (site : Site) {f : Host → Except Errno (α × Host)}
    (hf : ∀ h a h', f h = .ok (a, h') → h' = h) : Keeps (contentsFrame S) (sys env site f) := by
  refine sys_within site fun h a h' heq => ?_
  rw [hf h a h' heq]
  exact Within.refl h

theorem liftExcept_within (x : World → Except FsError α) :
    Keeps (contentsFrame S) fun w => liftExcept (x w) w := by
  refine within_of_final fun w => ?_
  rcases liftExcept_cases (x w) w with ⟨e, he⟩ | ⟨a, -, hok⟩
  · rw [he]
    exact Within.refl _
  · rw [hok]
    exact Within.refl _

theorem inode_within (id : UInt64) : Keeps (contentsFrame S) (inode id) :=
  liftExcept_within fun w => w.inodes.get id

theorem cstring_within (n : Name) : Keeps (contentsFrame S) (cstring n) :=
  liftExcept_within fun _ => toCString n

theorem fileFd_within (handle : UInt64) : Keeps (contentsFrame S) (fileFd handle) :=
  liftExcept_within fun w => w.handles.withFile handle

theorem parentFdName_within (d : InodeData) : Keeps (contentsFrame S) (parentFdName d) :=
  keeps_bind (inode_within _) fun _ => keeps_bind (cstring_within _) fun _ => keeps_pure _

theorem dropFd_within (fd : Option Fd) : Keeps (contentsFrame S) (dropFd fd) := by
  cases fd with
  | none => exact keeps_pure ()
  | some fd => exact within_of_final fun w => Within.refl w.host

private theorem register_within (p : UInt64) (n : Name) (fd : Fd) (st : Stat) :
    Keeps (contentsFrame S) (register p n fd st) := by
  refine within_of_final fun w => ?_
  unfold register
  split
  · exact Within.refl _
  · next data inodes dropped _ =>
    exact (keeps_bind (dropFd_within dropped) (fun _ => keeps_pure data)
      { w with inodes := inodes } trivial).1

theorem lookup_within (p : UInt64) (n : Name) : Keeps (contentsFrame S) (lookup env p n) := by
  have hopen : ∀ fd c, Keeps (contentsFrame S) (openChild env fd c) := by
    intro fd c
    refine keeps_bind (look_within _ fun h a h' heq => ?_) fun st =>
      keeps_bind (sys_within _ fun h => ?_) fun _ => keeps_pure _
    · unfold fstatat at heq
      obtain ⟨k, -, heq⟩ := except_bind_ok heq
      split at heq
      · cases heq
      · cases heq
        rfl
    · exact gives_bind fun _ _ => gives_unless (gives_ok (Within.refl h))
  exact keeps_bind (inode_within p) fun _ => keeps_bind (cstring_within n) fun _ =>
    keeps_bind (hopen _ _) fun _ => keeps_bind (register_within _ _ _ _) fun _ => keeps_pure _

private theorem forget_within (entries : List (UInt64 × UInt64)) :
    Keeps (contentsFrame S) (forgetEntries entries) := by
  induction entries with
  | nil => exact keeps_pure ()
  | cons e rest ih =>
    refine keeps_bind (fun w _ => ?_) fun _ => ih
    exact dropFd_within (w.inodes.forget e.1 e.2).2 { w with inodes := (w.inodes.forget e.1 e.2).1 }
      trivial

theorem getattr_within (ino : UInt64) : Keeps (contentsFrame S) (getattr env ino) :=
  keeps_bind (inode_within ino) fun _ =>
    keeps_bind (look_within _ fun _ _ _ heq => (fstat_ok heq).1) fun _ => keeps_pure _

private theorem setInfo_within (d : InodeData) (attr : SetAttr) :
    Keeps (contentsFrame S) (setInfo env d attr) := by
  have hmode : ∀ fd c, Keeps (contentsFrame S) (setMode env fd c attr.mode) := by
    intro fd c
    cases attr.mode with
    | none => exact keeps_pure ()
    | some mode => exact sys_within _ fun _ => fchmodat_within
  have howner : ∀ fd c, Keeps (contentsFrame S) (setOwner env fd c attr.uid attr.gid) := by
    intro fd c
    unfold setOwner
    split_ifs
    · exact sys_within _ fun _ => fchownat_within _ _
    · exact keeps_pure ()
  have htimes : ∀ fd c, Keeps (contentsFrame S) (setTimes env fd c attr.atime attr.mtime) := by
    intro fd c
    unfold setTimes
    split_ifs
    · exact sys_within _ fun _ => utimensat_within _ _ _
    · exact keeps_pure ()
  unfold setInfo
  split_ifs
  · exact keeps_bind (parentFdName_within d) fun r => keeps_bind (hmode _ _) fun _ =>
      keeps_bind (howner _ _) fun _ => htimes _ _
  · exact keeps_pure ()

private theorem readlink_within (ino : UInt64) : Keeps (contentsFrame S) (readlink env ino) :=
  keeps_bind (inode_within ino) fun d => keeps_bind (parentFdName_within d) fun _ =>
    sys_within _ fun _ => readlinkat_within _

private theorem read_within (handle off : UInt64) (size : ℕ) :
    Keeps (contentsFrame S) (read env handle off size) :=
  keeps_bind (fileFd_within handle) fun _ =>
    look_within _ fun _ _ _ heq => (pread_ok heq).2.2.2

private theorem fsync_within (handle : UInt64) : Keeps (contentsFrame S) (fsync env handle) :=
  keeps_bind (fileFd_within handle) fun _ => sys_within _ fun h => gives_ok (Within.refl h)

private theorem statfs_within (ino : UInt64) : Keeps (contentsFrame S) (statfs env ino) :=
  keeps_bind (inode_within ino) fun _ => sys_within _ fun h => gives_ok (Within.refl h)

theorem insertHandle_within (data : HandleData) : Keeps (contentsFrame S) (insertHandle data) :=
  within_of_final fun w => Within.refl w.host

private theorem release_within (handle : UInt64) : Keeps (contentsFrame S) (release handle) := by
  refine within_of_final fun w => ?_
  unfold release
  split <;> exact Within.refl _

/-! Calls that may change a file, from a given world. -/

/-- What a call that starts with a change and goes on without one may change. -/
theorem withinAt_congr {m' : FsM α} (heq : m w = m' w') (hw : Within S w.host w'.host)
    (hm : Keeps (contentsFrame S) m') : KeepsAt (contentsFrame S) m w := by
  refine withinAt_final ?_
  rw [heq]
  exact hw.trans (hm w' trivial).1

theorem withinAt_fails (hf : Fails (m w) w) : KeepsAt (contentsFrame S) m w := by
  obtain ⟨e, he⟩ := hf
  exact keepsAt_of_error he (Within.refl _) trivial

private theorem write_within {handle off : UInt64} {data : List UInt8}
    (hS : ∀ fd, w.handles.withFile handle = .ok fd → writable fd.flags = true →
      (w.host.fileData fd.file).isSome = true → fd.file ∈ S) :
    KeepsAt (contentsFrame S) (write env handle off data) w := by
  refine keepsAt_bind (fileFd_within handle w trivial) fun fd w₁ hok => ?_
  unfold fileFd at hok
  rcases liftExcept_cases (w.handles.withFile handle) w with ⟨e, he⟩ | ⟨fd', hfd, hok'⟩
  · rw [he] at hok
    cases hok
  · rw [hok'] at hok
    cases hok
    exact sys_withinAt _ (pwrite_within (hS fd hfd) _ _ _)

theorem World.kept_eq {d pd : InodeData} (hd : w.inodes.byId ino = some d)
    (hp : w.inodes.byId (d.parent.getD ROOT_ID) = some pd) :
    w.kept ino = some (pd.fd.file, d.name) := by
  unfold World.kept
  rw [hd, Option.bind_some, hp]
  rfl

/-- Opening a node anew. -/
theorem reopenViaParent_within
    (hS : ∀ loc, w.kept ino = some loc → OpenFootprint w.host loc.1 loc.2 flags S) :
    KeepsAt (contentsFrame S) (reopenViaParent env ino flags) w := by
  rcases reopenViaParent_cases env ino flags w with
    hf | ⟨d, fd, h₁, -, -, hdup, hok⟩ | ⟨d, pd, fd, h₁, -, hd, hp, hopen, hok⟩
  · exact withinAt_fails hf
  · cases hdup
    exact keepsAt_of_ok hok (Within.refl w.host)
  · exact keepsAt_of_ok hok (openat_within (hS _ (World.kept_eq hd hp)) fd h₁ hopen)

/-- The file that a node reopened for writing turns out to be. -/
theorem reopenViaParent_file {fd : Fd}
    (hok : reopenViaParent env ino O_WRONLY w = .ok fd w') : w.OpensAs ino fd.file := by
  rcases reopenViaParent_cases env ino O_WRONLY w with
    ⟨e, he⟩ | ⟨d, fd', h₁, hroot, hd, hdup, hok'⟩ | ⟨d, pd, fd', h₁, -, hd, hp, hopen, hok'⟩
  · rw [he] at hok
    cases hok
  · rw [hok'] at hok
    cases hok
    cases hdup
    exact Or.inl ⟨hroot, d, hd, rfl⟩
  · rw [hok'] at hok
    cases hok
    refine Or.inr ⟨_, World.kept_eq hd hp, ?_⟩
    have hplain : w.host.openat pd.fd.file d.name O_WRONLY 0 env.fresh = (do
        let k ← w.host.lookupPath (!hasFlag O_WRONLY O_NOFOLLOW) pd.fd.file d.name
        w.host.finishOpen k O_WRONLY) := rfl
    rw [hplain] at hopen
    obtain ⟨k, hl, hfin⟩ := except_bind_ok hopen
    rw [(finishOpen_ok hfin).eq]
    exact leadsTo_of_lookupPath hl

private theorem openFile_within
    (hS : ∀ loc, w.kept ino = some loc → OpenFootprint w.host loc.1 loc.2 flags S) :
    KeepsAt (contentsFrame S) (openFile env ino flags) w :=
  keepsAt_bind (reopenViaParent_within hS) fun _ w₁ _ => insertHandle_within _ w₁ trivial

private theorem dirFromFd_within (fd : Fd) : Keeps (contentsFrame S) (dirFromFd env fd) := by
  refine within_of_final fun w => ?_
  rcases dirFromFd_cases env fd w with ⟨e, he⟩ | hok
  · rw [he]
    exact Within.refl w.host
  · rw [hok]
    exact Within.refl w.host

private theorem opendir_within (ino : UInt64) : Keeps (contentsFrame S) (opendir env ino) := by
  intro w _
  have hplain : ∀ loc, w.kept ino = some loc →
      OpenFootprint w.host loc.1 loc.2 O_DIRECTORY S :=
    fun _ _ => openFootprint_plain (by decide) (by decide) (by decide)
  refine keepsAt_bind (reopenViaParent_within hplain) fun fd w₁ _ => ?_
  exact keepsAt_bind (dirFromFd_within fd w₁ trivial) fun _ w₂ _ => insertHandle_within _ w₂ trivial

private theorem truncateClose_within {fd : Fd} {size : UInt64}
    (hS : (w.host.fileData fd.file).isSome = true → fd.file ∈ S) :
    KeepsAt (contentsFrame S) (truncateClose env fd size) w := by
  refine withinAt_final ?_
  rcases truncateClose_cases env fd size w with ⟨e, he⟩ | ⟨h₁, ht, hok⟩
  · rw [he]
    exact Within.refl w.host
  · rw [hok]
    exact ftruncate_within hS size () h₁ ht

/-- `setattr` changes the file it truncates, if it is to set a size, and no other. -/
theorem setattr_within {attr : SetAttr}
    (hS : ∀ k, attr.size.isSome = true → (w.host.fileData k).isSome = true → w.OpensAs ino k →
      k ∈ S) : KeepsAt (contentsFrame S) (setattr env ino attr) w := by
  have hsize : KeepsAt (contentsFrame S) (setSize env ino attr.size) w := by
    cases hs : attr.size with
    | none => exact keepsAt_pure () w
    | some size =>
      have hplain : ∀ (S : Set FileKey) loc, w.kept ino = some loc →
          OpenFootprint w.host loc.1 loc.2 O_WRONLY S :=
        fun _ _ _ => openFootprint_plain (by decide) (by decide) (by decide)
      refine keepsAt_bind (reopenViaParent_within (hplain S)) fun fd w₁ hok => ?_
      -- reopening leaves every file as it was, so the file to truncate is one before it too
      have hsame : Within ∅ w.host w₁.host := by
        have hrel := (@reopenViaParent_within env ∅ w ino O_WRONLY (hplain ∅)).1
        rw [hok] at hrel
        exact hrel
      refine truncateClose_within fun hfile => hS fd.file (by rw [hs]; rfl) ?_
        (reopenViaParent_file hok)
      rw [fileData_eq, hsame fd.file (Set.notMem_empty _), ← fileData_eq] at hfile
      exact hfile
  refine keepsAt_bind (inode_within ino w trivial) fun d w₁ hok => ?_
  obtain ⟨rfl, -⟩ := inode_ok hok
  exact keepsAt_bind hsize fun _ w₂ _ => keepsAt_bind (setInfo_within d attr w₂ trivial)
    fun _ w₃ _ => getattr_within ino w₃ trivial

theorem create_within
    (hS : ∀ pd, w.inodes.byId p = some pd →
      OpenFootprint w.host pd.fd.file n (flags ||| O_CREAT ||| O_EXCL) S) :
    KeepsAt (contentsFrame S) (create env p n flags mode) w := by
  rcases create_cases env p n flags mode w with hf | ⟨pd, fd, h₁, hp, hopen, heq⟩
  · exact withinAt_fails hf
  · refine withinAt_congr heq (openat_within (hS pd hp) fd h₁ hopen) ?_
    exact keeps_bind (lookup_within p n) fun _ => keeps_bind (insertHandle_within _) fun _ =>
      keeps_pure _

/-- The directories of a name, once the node of its parent is known. -/
theorem entryIn_node {pd : InodeData} (hS : ∀ d, w.EntryIn p n d → d ∈ S)
    (hp : w.inodes.byId p = some pd) : ∀ d, w.host.EntryIn pd.fd.file n d → d ∈ S :=
  fun d hd => hS d ⟨pd, hp, hd⟩

section Names
variable (hS : ∀ d, w.EntryIn p n d → d ∈ S)
include hS

private theorem mkdir_within (hfree : w.host.Spent S) :
    KeepsAt (contentsFrame S) (mkdir env p n mode) w := by
  rcases mkdir_cases env p n mode w with hf | ⟨pd, h₁, hp, hm, heq⟩
  · exact withinAt_fails hf
  · have hdirs := entryIn_node hS hp
    exact withinAt_congr heq (mkdirat_within hdirs hfree () h₁ hm) (lookup_within p n)

private theorem symlink_within (hfree : w.host.Spent S) (t : Name) :
    KeepsAt (contentsFrame S) (symlink env p n t) w := by
  rcases symlink_cases env p n t w with hf | ⟨pd, h₁, hp, hm, heq⟩
  · exact withinAt_fails hf
  · have hdirs := entryIn_node hS hp
    exact withinAt_congr heq (symlinkat_within hdirs hfree t () h₁ hm) (lookup_within p n)

private theorem unlink_within : KeepsAt (contentsFrame S) (unlink env p n) w := by
  rcases unlink_cases env p n w with hf | ⟨pd, h₁, hp, hu, hok⟩
  · exact withinAt_fails hf
  · have hdirs := entryIn_node hS hp
    exact keepsAt_of_ok hok (unlinkat_within hdirs false () h₁ hu)

private theorem rmdir_within : KeepsAt (contentsFrame S) (rmdir env p n) w := by
  rcases rmdir_cases env p n w with hf | ⟨pd, h₁, hp, hu, hok⟩
  · exact withinAt_fails hf
  · have hdirs := entryIn_node hS hp
    exact keepsAt_of_ok hok (unlinkat_within hdirs true () h₁ hu)

private theorem link_within (ino : UInt64) : KeepsAt (contentsFrame S) (link env ino p n) w := by
  rcases link_cases env p ino n w with hf | ⟨d, pd, h₁, -, hp, hl, heq⟩
  · exact withinAt_fails hf
  · have hdirs := entryIn_node hS hp
    exact withinAt_congr heq (linkat_within hdirs () h₁ hl) (getattr_within ino)

private theorem rename_within {p' : UInt64} {n' : Name} (hS' : ∀ d, w.EntryIn p' n' d → d ∈ S) :
    KeepsAt (contentsFrame S) (rename env p n p' n') w := by
  rcases rename_cases env p p' n n' w with hf | ⟨pd, pd', h₁, hp, hp', hren, hok⟩
  · exact withinAt_fails hf
  · have hdirs := entryIn_node hS hp
    have hdirs' := entryIn_node hS' hp'
    exact keepsAt_of_ok hok (renameat_within hdirs hdirs' () h₁ hren)

end Names

end Ops

section Calls
variable {env : Env} {w : World} {c : Call} {k : FileKey}

/-- A call changes the contents of the files it asks about and of keys not in use, whether
it succeeds or fails. -/
theorem Call.run_within (env : Env) (w : World) (c : Call) :
    KeepsAt (contentsFrame (c.footprint w)) (c.run env) w := by
  have hfree : w.host.Spent (c.footprint w) := fun k hk => Or.inr hk
  have hall : ∀ {α : Type} {m : FsM α} {g : α → Option UInt64},
      (∀ S, Keeps (contentsFrame S) m) → KeepsAt (contentsFrame (c.footprint w)) (g <$> m) w :=
    fun hm => keepsAt_map (hm _ w trivial)
  cases c with
  | nothing => exact keepsAt_pure _ w
  | lookup p n => exact hall fun _ => lookup_within p n
  | forget entries => exact hall fun _ => forget_within entries
  | getattr ino => exact hall fun _ => getattr_within ino
  | readlink ino => exact hall fun _ => readlink_within ino
  | read i off size => exact hall fun _ => read_within i off size
  | fsync i => exact hall fun _ => fsync_within i
  | statfs ino => exact hall fun _ => statfs_within ino
  | release i => exact hall fun _ => release_within i
  | opendir ino => exact hall fun _ => opendir_within ino
  | setattr ino attr =>
    exact keepsAt_map (setattr_within fun k hsize hfile hopen => Or.inl ⟨hfile, hsize, hopen⟩)
  | write i off data =>
    refine keepsAt_map (write_within fun fd hfd hw hfile => Or.inl ⟨hfile, fd, ?_, rfl, hw⟩)
    rw [hfd]
    rfl
  | mkdir p n mode => exact keepsAt_map (mkdir_within (fun d hd => Or.inl hd) hfree)
  | symlink p n t => exact keepsAt_map (symlink_within (fun d hd => Or.inl hd) hfree t)
  | unlink p n => exact keepsAt_map (unlink_within fun d hd => Or.inl hd)
  | rmdir p n => exact keepsAt_map (rmdir_within fun d hd => Or.inl hd)
  | link ino p n => exact keepsAt_map (link_within (fun d hd => Or.inl hd) ino)
  | rename p n p' n' =>
    exact keepsAt_map (rename_within (fun d hd => Or.inl (Or.inl hd)) fun d hd =>
      Or.inl (Or.inr hd))
  | openFile ino flags =>
    refine keepsAt_map (openFile_within fun loc hloc => ⟨fun k ht _ hfile hlead => ?_,
      fun d hcreat hd => ?_, fun _ => hfree⟩)
    · exact Or.inl (Or.inl ⟨hfile, ht, Or.inr ⟨loc, hloc, hlead⟩⟩)
    · exact Or.inl (Or.inr ⟨hcreat, loc, hloc, hd⟩)
  | create p n flags mode =>
    have hboth : hasFlag (flags ||| O_CREAT ||| O_EXCL) O_CREAT = true ∧
        hasFlag (flags ||| O_CREAT ||| O_EXCL) O_EXCL = true := by
      have hc : hasFlag O_CREAT O_CREAT = true := by decide
      have he : hasFlag O_EXCL O_EXCL = true := by decide
      simp [hasFlag_or, hc, he]
    refine keepsAt_map (create_within fun pd hp => ⟨fun k _ hnot => ?_, fun d _ hd => ?_,
      fun _ => hfree⟩)
    · exact absurd hboth hnot
    · exact Or.inl ⟨pd, hp, hd⟩

/-- A file in use that the call does not ask about holds what it held. -/
theorem Call.run_contents (hlive : w.host.inUse k = true) (hask : ¬ c.Asks w k) :
    (final (c.run env w)).host.contents k = w.host.contents k := by
  refine (c.run_within env w).1 k ?_
  rintro (hasks | hdead)
  · exact hask hasks
  · rw [hlive] at hdead
    cases hdead

theorem World.step_contents {w' : World} {x : Env × Call} (hlive : w.host.inUse k = true)
    (hask : ¬ x.2.Asks w k) (hstep : w.step x = some w') :
    w'.host.contents k = w.host.contents k := by
  have hcall : (final (x.2.run x.1 w)).host.contents k = w.host.contents k :=
    Call.run_contents hlive hask
  unfold World.step at hstep
  split at hstep
  · rename_i hrun
    cases hstep
    rw [hrun] at hcall
    exact hcall
  · rename_i hrun
    cases hstep
    rw [hrun] at hcall
    exact hcall
  · cases hstep

end Calls

end Riftlessfs.Core
