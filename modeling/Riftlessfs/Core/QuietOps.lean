import Riftlessfs.Core.OpCases
import Riftlessfs.Core.SyscallFds

/-! The operations that neither open nor close a descriptor: they leave both tables alone,
whether they succeed or fail. -/
namespace Riftlessfs.Core
open Lib.Effect PassthroughFs Host

/-- Tables and descriptors stay, and no operation panics. -/
def quietFrame : Frame Stop World where
  pre _ := True
  rel w w' := w'.inodes = w.inodes ∧ w'.handles = w.handles ∧ SameFds w.host w'.host
  err e := e ≠ .panic
  refl w := ⟨rfl, rfl, .refl w.host⟩
  trans h₁ h₂ := ⟨h₂.1.trans h₁.1, h₂.2.1.trans h₁.2.1, h₁.2.2.trans h₂.2.2⟩
  stable _ _ := trivial

section Quiet
variable {α : Type} {env : Env}

theorem quiet_liftExcept (x : World → Except FsError α) :
    Keeps quietFrame fun w => liftExcept (x w) w := by
  intro w _
  rcases liftExcept_cases (x w) w with ⟨e, he⟩ | ⟨a, -, hok⟩
  · exact keepsAt_of_error he (quietFrame.refl w) fun hp => by cases hp
  · exact keepsAt_of_ok hok (quietFrame.refl w)

theorem quiet_sys (site : Site) {f : Host → Except Errno (α × Host)}
    (hf : ∀ h, Gives (fun _ => SameFds h) (f h)) : Keeps quietFrame (sys env site f) := by
  intro w _
  rcases sys_cases env site f w with ⟨e, he⟩ | ⟨a, h, hok, heq⟩
  · exact keepsAt_of_error he (quietFrame.refl w) fun hp => by cases hp
  · exact keepsAt_of_ok heq ⟨rfl, rfl, hf w.host a h hok⟩

theorem quiet_inode (id : UInt64) : Keeps quietFrame (inode id) :=
  quiet_liftExcept fun w => w.inodes.get id

theorem quiet_cstring (n : Name) : Keeps quietFrame (cstring n) :=
  quiet_liftExcept fun _ => toCString n

theorem quiet_fileFd (handle : UInt64) : Keeps quietFrame (fileFd handle) :=
  quiet_liftExcept fun w => w.handles.withFile handle

private theorem quiet_dirFd (handle : UInt64) : Keeps quietFrame (dirFd handle) :=
  quiet_liftExcept fun w => w.handles.withDir handle

theorem quiet_parentFdName (d : InodeData) : Keeps quietFrame (parentFdName d) :=
  keeps_bind (quiet_inode _) fun _ => keeps_bind (quiet_cstring _) fun _ => keeps_pure _

theorem quiet_setMode (fd : Fd) (n : Name) (mode : Option UInt32) :
    Keeps quietFrame (setMode env fd n mode) := by
  cases mode with
  | none => exact keeps_pure ()
  | some mode => exact quiet_sys _ fun _ => fchmodat_same

theorem quiet_setOwner (fd : Fd) (n : Name) (uid gid : Option UInt32) :
    Keeps quietFrame (setOwner env fd n uid gid) := by
  unfold setOwner
  split_ifs
  · exact quiet_sys _ fun _ => fchownat_same _ _
  · exact keeps_pure ()

private theorem quiet_setTimes (fd : Fd) (n : Name) (atime mtime : Option Time) :
    Keeps quietFrame (setTimes env fd n atime mtime) := by
  unfold setTimes
  split_ifs
  · exact quiet_sys _ fun _ => utimensat_same _ _ _
  · exact keeps_pure ()

theorem quiet_setInfo (d : InodeData) (attr : SetAttr) :
    Keeps quietFrame (setInfo env d attr) := by
  unfold setInfo
  split_ifs
  · refine keeps_bind (quiet_parentFdName d) fun r => ?_
    exact keeps_bind (quiet_setMode _ _ _) fun _ => keeps_bind (quiet_setOwner _ _ _ _) fun _ =>
      quiet_setTimes _ _ _ _
  · exact keeps_pure ()

theorem quiet_getattr (ino : UInt64) : Keeps quietFrame (getattr env ino) :=
  keeps_bind (quiet_inode ino) fun _ => keeps_bind (quiet_sys _ fun _ => fstat_same) fun _ =>
    keeps_pure _

theorem quiet_readlink (ino : UInt64) : Keeps quietFrame (readlink env ino) :=
  keeps_bind (quiet_inode ino) fun d => keeps_bind (quiet_parentFdName d) fun _ =>
    quiet_sys _ fun _ => readlinkat_same _

theorem quiet_link (ino p : UInt64) (n : Name) : Keeps quietFrame (link env ino p n) :=
  keeps_bind (quiet_inode ino) fun _ => keeps_bind (quiet_inode p) fun _ =>
    keeps_bind (quiet_cstring n) fun _ => keeps_bind (quiet_sys _ fun _ => linkat_same) fun _ =>
      quiet_getattr ino

theorem quiet_unlink (p : UInt64) (n : Name) : Keeps quietFrame (unlink env p n) :=
  keeps_bind (quiet_inode p) fun _ => keeps_bind (quiet_cstring n) fun _ =>
    quiet_sys _ fun _ => unlinkat_same false

theorem quiet_rmdir (p : UInt64) (n : Name) : Keeps quietFrame (rmdir env p n) :=
  keeps_bind (quiet_inode p) fun _ => keeps_bind (quiet_cstring n) fun _ =>
    quiet_sys _ fun _ => unlinkat_same true

theorem quiet_read (handle off : UInt64) (size : ℕ) :
    Keeps quietFrame (read env handle off size) :=
  keeps_bind (quiet_fileFd handle) fun _ => quiet_sys _ fun _ => pread_same off size

theorem quiet_write (handle off : UInt64) (data : List UInt8) :
    Keeps quietFrame (write env handle off data) :=
  keeps_bind (quiet_fileFd handle) fun _ => quiet_sys _ fun _ => pwrite_same _ off data

theorem quiet_readVectored (handle off : UInt64) (sizes : List ℕ) :
    Keeps quietFrame (readVectored env handle off sizes) :=
  keeps_bind (quiet_fileFd handle) fun _ => quiet_sys _ fun _ => preadv_same off sizes

theorem quiet_writeVectored (handle off : UInt64) (bufs : List (List UInt8)) :
    Keeps quietFrame (writeVectored env handle off bufs) :=
  keeps_bind (quiet_fileFd handle) fun _ => quiet_sys _ fun _ => pwritev_same _ off bufs

theorem quiet_fsync (handle : UInt64) : Keeps quietFrame (fsync env handle) :=
  keeps_bind (quiet_fileFd handle) fun _ => quiet_sys _ fun h => gives_ok (.refl h)

theorem quiet_readdir (pos : ℕ) (handle : UInt64) : Keeps quietFrame (readdir env pos handle) :=
  keeps_bind (quiet_dirFd handle) fun _ => keeps_bind (quiet_sys _ fun _ => listDir_same pos)
    fun _ => keeps_pure _

theorem quiet_statfs (ino : UInt64) : Keeps quietFrame (statfs env ino) :=
  keeps_bind (quiet_inode ino) fun _ => quiet_sys _ fun h => gives_ok (.refl h)

end Quiet

end Riftlessfs.Core
