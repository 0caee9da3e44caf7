import Riftlessfs.Core.Passthrough
import Riftlessfs.Core.InodeInvariant

/-! What each operation of the engine can do, in terms of the syscalls it makes: it
fails before its first effect, or goes on from the host that syscall left. -/
namespace Riftlessfs.Core
open Lib.Effect

/-- The operation ends with an error and leaves the world `w`. -/
def Fails {α : Type} (r : EStateM.Result Stop World α) (w : World) : Prop :=
  ∃ e, r = .error (.fail e) w

def World.withHost (w : World) (h : Host) : World := { w with host := h }

@[simp] theorem World.withHost_inodes (w : World) (h : Host) :
    (w.withHost h).inodes = w.inodes := rfl

@[simp] theorem World.withHost_handles (w : World) (h : Host) :
    (w.withHost h).handles = w.handles := rfl

@[simp] theorem World.withHost_host (w : World) (h : Host) : (w.withHost h).host = h := rfl

def Host.dropOpt (h : Host) : Option Fd → Host
  | some fd => h.closeFd fd
  | none => h

variable {α β : Type} {w w₁ : World}

theorem Fails.bind {m : FsM α} {f : α → FsM β} (h : Fails (m w) w₁) :
    Fails ((m >>= f) w) w₁ := by
  obtain ⟨e, he⟩ := h
  exact ⟨e, bind_of_error he⟩

theorem sys_cases (env : Env) (site : Site) (f : Host → Except Errno (α × Host)) (w : World) :
    Fails (sys env site f w) w ∨
      ∃ a h, f w.host = .ok (a, h) ∧ sys env site f w = .ok a (w.withHost h) := by
  unfold sys
  cases env.fault site with
  | some e => exact Or.inl ⟨.io e, rfl⟩
  | none =>
    cases hf : f w.host with
    | error e => exact Or.inl ⟨.io e, rfl⟩
    | ok r => exact Or.inr ⟨r.1, r.2, rfl, rfl⟩

theorem sys_ok {env : Env} {site : Site} {f : Host → Except Errno (α × Host)} {w : World} {a : α}
    {h : Host} (hfault : env.fault site = none) (hf : f w.host = .ok (a, h)) :
    sys env site f w = .ok a (w.withHost h) := by
  unfold sys
  rw [hfault]
  simp only [hf]
  rfl

theorem liftExcept_cases (x : Except FsError α) (w : World) :
    Fails (liftExcept x w) w ∨ ∃ a, x = .ok a ∧ liftExcept x w = .ok a w := by
  cases x with
  | error e => exact Or.inl ⟨e, rfl⟩
  | ok a => exact Or.inr ⟨a, rfl, rfl⟩

namespace PassthroughFs

theorem inode_cases (id : UInt64) (w : World) :
    Fails (inode id w) w ∨ ∃ d, w.inodes.byId id = some d ∧ inode id w = .ok d w := by
  unfold inode InodeStore.get
  cases h : w.inodes.byId id with
  | none => exact Or.inl ⟨.unknownInode id, rfl⟩
  | some d => exact Or.inr ⟨d, rfl, rfl⟩

theorem cstring_cases (n : Name) (w : World) :
    Fails (cstring n w) w ∨ cstring n w = .ok n w := by
  unfold cstring toCString
  split
  · exact Or.inl ⟨_, rfl⟩
  · exact Or.inr rfl

/-- The common start of the operations on a name in a directory. -/
theorem inode_cstring_cases (p : UInt64) (n : Name) (f : InodeData → Name → FsM α) (w : World) :
    Fails ((do let pd ← inode p; let c ← cstring n; f pd c) w) w ∨
      ∃ pd, w.inodes.byId p = some pd ∧
        (do let pd ← inode p; let c ← cstring n; f pd c) w = f pd n w := by
  rcases inode_cases p w with hf | ⟨pd, hpd, hok⟩
  · exact Or.inl hf.bind
  rw [bind_of_ok hok]
  rcases cstring_cases n w with hf | hok
  · exact Or.inl hf.bind
  rw [bind_of_ok hok]
  exact Or.inr ⟨pd, hpd, rfl⟩

/-- A step of an operation that makes one syscall and goes on. -/
theorem sys_bind_cases (env : Env) (site : Site) (f : Host → Except Errno (α × Host))
    (m : α → FsM β) (w : World) : Fails ((sys env site f >>= m) w) w ∨
      ∃ a h, f w.host = .ok (a, h) ∧ (sys env site f >>= m) w = m a (w.withHost h) := by
  rcases sys_cases env site f w with hf | ⟨a, h, hfa, hok⟩
  · exact Or.inl hf.bind
  · exact Or.inr ⟨a, h, hfa, bind_of_ok hok⟩

section Ops
variable (env : Env) (p p' ino : UInt64) (n n' t : Name) (flags mode : UInt32)

private theorem register_eq {d : InodeData} {s : InodeStore} {dropped : Option Fd} {fd : Fd}
    {st : Stat}
    (h : w.inodes.register p n fd st = some (d, s, dropped)) :
    register p n fd st w = .ok d ⟨s, w.handles, w.host.dropOpt dropped⟩ := by
  unfold register
  rw [h]
  cases dropped <;> rfl

/-- What `lookup` can do on a table that keeps its invariant. -/
theorem lookup_cases (hi : w.inodes.Inv) :
    Fails (lookup env p n w) w ∨
    ∃ pd st h₀ flags fd h₁ d s dropped, w.inodes.byId p = some pd ∧
      w.host.fstatat pd.fd.file n = .ok (st, h₀) ∧
      flags = referenceOpenFlags (FileKind.fromMode st.mode = .dir)
        (FileKind.fromMode st.mode = .symlink) ∧
      h₀.openPath pd.fd.file n flags .referenced = .ok (fd, h₁) ∧
      w.inodes.register p n fd st = some (d, s, dropped) ∧
      lookup env p n w = .ok (d.id, .fromStat st) ⟨s, w.handles, h₁.dropOpt dropped⟩ := by
  unfold lookup
  rcases inode_cstring_cases p n _ w with hf | ⟨pd, hpd, heq⟩
  · exact Or.inl hf
  rw [heq]
  unfold openChild
  simp only [bind_assoc, pure_bind]
  rcases sys_bind_cases env .fstatat (fun h => h.fstatat pd.fd.file n) _ w with
    hf | ⟨st, h₀, hst, heq⟩
  · exact Or.inl hf
  rw [heq]
  rcases sys_cases env .openatRef (fun h => h.openPath pd.fd.file n
    (referenceOpenFlags (FileKind.fromMode st.mode = .dir)
      (FileKind.fromMode st.mode = .symlink)) .referenced) (w.withHost h₀) with
    hf | ⟨fd, h₁, hfd, hok⟩
  · obtain ⟨e, he⟩ := hf
    have hst' : h₀ = w.host := by
      unfold Host.fstatat at hst
      obtain ⟨k, -, hst⟩ := except_bind_ok hst
      split at hst
      · cases hst
      · cases hst
        rfl
    refine Or.inl ⟨e, ?_⟩
    rw [bind_of_error he, hst']
    rfl
  rw [bind_of_ok hok]
  obtain ⟨r, hr⟩ : ∃ r, w.inodes.register p n fd st = some r := by
    rcases hi.register_cases p n fd st with ⟨_, _, _, _, _, hreg⟩ | ⟨_, hreg⟩
    · exact ⟨_, hreg⟩
    · exact ⟨_, hreg⟩
  obtain ⟨d, s, dropped⟩ := r
  refine Or.inr ⟨pd, st, h₀, _, fd, h₁, d, s, dropped, hpd, hst, rfl, hfd, hr, ?_⟩
  have hreg := register_eq p n (w := (w.withHost h₀).withHost h₁) hr
  rw [bind_of_ok hreg]
  rfl

theorem forget_eq (id count : UInt64) (w : World) :
    PassthroughFs.forget id count w = .ok ()
      ⟨(w.inodes.forget id count).1, w.handles,
        w.host.dropOpt (w.inodes.forget id count).2⟩ := by
  unfold PassthroughFs.forget
  generalize w.inodes.forget id count = r
  obtain ⟨s, fd⟩ := r
  cases fd <;> rfl

theorem mkdir_cases (w : World) :
    Fails (mkdir env p n mode w) w ∨ ∃ pd h₁, w.inodes.byId p = some pd ∧
      w.host.mkdirat pd.fd.file n mode env.fresh = .ok ((), h₁) ∧
      mkdir env p n mode w = lookup env p n (w.withHost h₁) := by
  unfold mkdir
  rcases inode_cstring_cases p n _ w with hf | ⟨pd, hpd, heq⟩
  · exact Or.inl hf
  rw [heq]
  rcases sys_bind_cases env .mkdirat _ _ w with hf | ⟨_, h₁, hok, heq⟩
  · exact Or.inl hf
  · exact Or.inr ⟨pd, h₁, hpd, hok, heq⟩

theorem symlink_cases (w : World) :
    Fails (symlink env p n t w) w ∨ ∃ pd h₁, w.inodes.byId p = some pd ∧
      w.host.symlinkat t pd.fd.file n env.fresh = .ok ((), h₁) ∧
      symlink env p n t w = lookup env p n (w.withHost h₁) := by
  unfold symlink
  rcases inode_cstring_cases p n _ w with hf | ⟨pd, hpd, heq⟩
  · exact Or.inl hf
  rw [heq]
  rcases cstring_cases t w with hf | hok
  · exact Or.inl hf.bind
  rw [bind_of_ok hok]
  rcases sys_bind_cases env .symlinkat _ _ w with hf | ⟨_, h₁, hok, heq⟩
  · exact Or.inl hf
  · exact Or.inr ⟨pd, h₁, hpd, hok, heq⟩

theorem create_cases (w : World) :
    Fails (create env p n flags mode w) w ∨ ∃ pd fd h₁, w.inodes.byId p = some pd ∧
      w.host.openat pd.fd.file n (flags ||| O_CREAT ||| O_EXCL) mode env.fresh = .ok (fd, h₁) ∧
      create env p n flags mode w = (do
        let r ← lookup env p n
        let handle ← insertHandle (.file fd)
        pure (r.1, handle, r.2)) (w.withHost h₁) := by
  unfold create
  rcases inode_cstring_cases p n _ w with hf | ⟨pd, hpd, heq⟩
  · exact Or.inl hf
  rw [heq]
  rcases sys_bind_cases env .openatCreate _ _ w with hf | ⟨fd, h₁, hok, heq⟩
  · exact Or.inl hf
  · exact Or.inr ⟨pd, fd, h₁, hpd, hok, heq⟩

theorem unlink_cases (w : World) :
    Fails (unlink env p n w) w ∨ ∃ pd h₁, w.inodes.byId p = some pd ∧
      w.host.unlinkat pd.fd.file n false = .ok ((), h₁) ∧
      unlink env p n w = .ok () (w.withHost h₁) := by
  unfold unlink
  rcases inode_cstring_cases p n _ w with hf | ⟨pd, hpd, heq⟩
  · exact Or.inl hf
  rw [heq]
  rcases sys_cases env .unlinkat _ w with hf | ⟨_, h₁, hok, heq⟩
  · exact Or.inl hf
  · exact Or.inr ⟨pd, h₁, hpd, hok, heq⟩

theorem rmdir_cases (w : World) :
    Fails (rmdir env p n w) w ∨ ∃ pd h₁, w.inodes.byId p = some pd ∧
      w.host.unlinkat pd.fd.file n true = .ok ((), h₁) ∧
      rmdir env p n w = .ok () (w.withHost h₁) := by
  unfold rmdir
  rcases inode_cstring_cases p n _ w with hf | ⟨pd, hpd, heq⟩
  · exact Or.inl hf
  rw [heq]
  rcases sys_cases env .unlinkat _ w with hf | ⟨_, h₁, hok, heq⟩
  · exact Or.inl hf
  · exact Or.inr ⟨pd, h₁, hpd, hok, heq⟩

theorem rename_cases (w : World) :
    Fails (rename env p n p' n' w) w ∨ ∃ pd pd' h₁, w.inodes.byId p = some pd ∧
      w.inodes.byId p' = some pd' ∧
      w.host.renameat pd.fd.file n pd'.fd.file n' = .ok ((), h₁) ∧
      rename env p n p' n' w = .ok ()
        ⟨w.inodes.noteRename env.order p n p' n', w.handles, h₁⟩ := by
  unfold rename
  rcases inode_cases p w with hf | ⟨pd, hpd, hok⟩
  · exact Or.inl hf.bind
  rw [bind_of_ok hok]
  rcases inode_cstring_cases p' n _ w with hf | ⟨pd', hpd', heq⟩
  · exact Or.inl hf
  rw [heq]
  rcases cstring_cases n' w with hf | hok
  · exact Or.inl hf.bind
  rw [bind_of_ok hok]
  rcases sys_bind_cases env .renameat _ _ w with hf | ⟨_, h₁, hok, heq⟩
  · exact Or.inl hf
  · exact Or.inr ⟨pd, pd', h₁, hpd, hpd', hok, heq⟩

theorem getattr_cases (w : World) :
    Fails (getattr env ino w) w ∨ ∃ d st h₁, w.inodes.byId ino = some d ∧
      w.host.fstat d.fd = .ok (st, h₁) ∧
      getattr env ino w = .ok (.fromStat st) (w.withHost h₁) := by
  unfold getattr
  rcases inode_cases ino w with hf | ⟨d, hd, hok⟩
  · exact Or.inl hf.bind
  rw [bind_of_ok hok]
  rcases sys_bind_cases env .fstat _ _ w with hf | ⟨st, h₁, hok, heq⟩
  · exact Or.inl hf
  · exact Or.inr ⟨d, st, h₁, hd, hok, heq⟩

theorem link_cases (w : World) :
    Fails (link env ino p n w) w ∨ ∃ d pd h₁, w.inodes.byId ino = some d ∧
      w.inodes.byId p = some pd ∧ w.host.linkat d.fd pd.fd.file n = .ok ((), h₁) ∧
      link env ino p n w = getattr env ino (w.withHost h₁) := by
  unfold link
  rcases inode_cases ino w with hf | ⟨d, hd, hok⟩
  · exact Or.inl hf.bind
  rw [bind_of_ok hok]
  rcases inode_cstring_cases p n _ w with hf | ⟨pd, hpd, heq⟩
  · exact Or.inl hf
  rw [heq]
  rcases sys_bind_cases env .linkat _ _ w with hf | ⟨_, h₁, hok, heq⟩
  · exact Or.inl hf
  · exact Or.inr ⟨d, pd, h₁, hd, hpd, hok, heq⟩

theorem parentFdName_cases (d : InodeData) (w : World) :
    Fails (parentFdName d w) w ∨ ∃ pd, w.inodes.byId (d.parent.getD ROOT_ID) = some pd ∧
      parentFdName d w = .ok (pd.fd, d.name) w := by
  unfold parentFdName
  exact inode_cstring_cases (d.parent.getD ROOT_ID) d.name (fun pd n => pure (pd.fd, n)) w

theorem readlink_cases (w : World) :
    Fails (readlink env ino w) w ∨ ∃ d pd out h₁, w.inodes.byId ino = some d ∧
      w.inodes.byId (d.parent.getD ROOT_ID) = some pd ∧
      w.host.readlinkat pd.fd.file d.name 4096 = .ok (out, h₁) ∧
      readlink env ino w = .ok out (w.withHost h₁) := by
  unfold readlink
  rcases inode_cases ino w with hf | ⟨d, hd, hok⟩
  · exact Or.inl hf.bind
  rw [bind_of_ok hok]
  rcases parentFdName_cases d w with hf | ⟨pd, hpd, hok⟩
  · exact Or.inl hf.bind
  rw [bind_of_ok hok]
  rcases sys_cases env .readlinkat _ w with hf | ⟨out, h₁, hok, heq⟩
  · exact Or.inl hf
  · exact Or.inr ⟨d, pd, out, h₁, hd, hpd, hok, heq⟩

/-- What `reopen_via_parent` can do: fail, duplicate the root's descriptor, or open the
tracked name. -/
theorem reopenViaParent_cases (w : World) :
    Fails (reopenViaParent env ino flags w) w ∨
    (∃ d fd h₁, ino = ROOT_ID ∧ w.inodes.byId ino = some d ∧ w.host.dup d.fd = .ok (fd, h₁) ∧
      reopenViaParent env ino flags w = .ok fd (w.withHost h₁)) ∨
    (∃ d pd fd h₁, ino ≠ ROOT_ID ∧ w.inodes.byId ino = some d ∧
      w.inodes.byId (d.parent.getD ROOT_ID) = some pd ∧
      w.host.openat pd.fd.file d.name flags 0 env.fresh = .ok (fd, h₁) ∧
      reopenViaParent env ino flags w = .ok fd (w.withHost h₁)) := by
  unfold reopenViaParent
  rcases inode_cases ino w with hf | ⟨d, hd, hok⟩
  · exact Or.inl hf.bind
  rw [bind_of_ok hok]
  by_cases hr : ino = ROOT_ID
  · rw [if_pos hr]
    rcases sys_cases env .dup (fun h => h.dup d.fd) w with hf | ⟨fd, h₁, hok, heq⟩
    · exact Or.inl hf
    · exact Or.inr (Or.inl ⟨d, fd, h₁, hr, hd, hok, heq⟩)
  · rw [if_neg hr]
    rcases parentFdName_cases d w with hf | ⟨pd, hpd, hok⟩
    · exact Or.inl hf.bind
    rw [bind_of_ok hok]
    rcases sys_cases env .openat
      (fun h => h.openat pd.fd.file d.name flags 0 env.fresh) w with hf | ⟨fd, h₁, hok, heq⟩
    · exact Or.inl hf
    · exact Or.inr (Or.inr ⟨d, pd, fd, h₁, hr, hd, hpd, hok, heq⟩)

private theorem listDir_host {h h₁ : Host} {fd : Fd} {pos : ℕ} {l : List (Name × UInt64 × FileKind)}
    (hl : h.listDir fd pos = .ok (l, h₁)) : h₁ = h := by
  unfold Host.listDir at hl
  split at hl
  · cases hl
    rfl
  · cases hl

/-- `readdir` leaves the world as it is. -/
theorem readdir_cases (pos : ℕ) (handle : UInt64) (w : World) :
    Fails (readdir env pos handle w) w ∨ ∃ l, readdir env pos handle w = .ok l w := by
  unfold readdir dirFd
  rcases liftExcept_cases (w.handles.withDir handle) w with hf | ⟨fd, -, hok⟩
  · exact Or.inl (Fails.bind (m := fun w => liftExcept (w.handles.withDir handle) w) hf)
  rw [bind_of_ok (m := fun w => liftExcept (w.handles.withDir handle) w) hok]
  rcases sys_bind_cases env .readdir (fun h => h.listDir fd pos) _ w with
    hf | ⟨l, h₁, hl, heq⟩
  · exact Or.inl hf
  · rw [heq, listDir_host hl]
    exact Or.inr ⟨_, rfl⟩

theorem truncateClose_cases (fd : Fd) (size : UInt64) (w : World) :
    Fails (truncateClose env fd size w) (w.withHost (w.host.closeFd fd)) ∨
      ∃ h₁, w.host.ftruncate fd size = .ok ((), h₁) ∧
        truncateClose env fd size w = .ok () (w.withHost (h₁.closeFd fd)) := by
  unfold truncateClose
  rcases sys_cases env .ftruncate (fun h => h.ftruncate fd size) w with
    ⟨e, he⟩ | ⟨_, h₁, hok, heq⟩
  · rw [he]
    exact Or.inl ⟨e, rfl⟩
  · rw [heq]
    exact Or.inr ⟨h₁, hok, rfl⟩

private theorem fdopendir_host {h h₁ : Host} {fd : Fd} (hf : h.fdopendir fd = .ok ((), h₁)) :
    h₁ = h := by
  unfold Host.fdopendir at hf
  split_ifs at hf
  cases hf
  rfl

/-- `Dir::from_fd` leaves the world as it is, or fails and closes the descriptor. -/
theorem dirFromFd_cases (fd : Fd) (w : World) :
    Fails (dirFromFd env fd w) (w.withHost (w.host.closeFd fd)) ∨
      dirFromFd env fd w = .ok () w := by
  unfold dirFromFd
  rcases sys_cases env .fdopendir (fun h => h.fdopendir fd) w with
    ⟨e, he⟩ | ⟨_, h₁, hok, heq⟩
  · rw [he]
    exact Or.inl ⟨e, rfl⟩
  · rw [heq, fdopendir_host hok]
    exact Or.inr rfl

end Ops

end PassthroughFs

end Riftlessfs.Core
