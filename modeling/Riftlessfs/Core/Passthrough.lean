import Riftlessfs.Core.Inode
import Riftlessfs.Core.Handle
import Riftlessfs.Lib.Effect

/-! The passthrough engine: file operations on inode ids and handles, carried out
by syscalls on the host. -/
namespace Riftlessfs.Core

structure DirEntry where
  name : Name
  ino : UInt64
  kind : FileKind
  nextOffset : ℤ
  deriving DecidableEq, Repr

/-- `libc::statvfs`, as far as the protocol reports it. -/
structure Statvfs where
  blocks : UInt64
  bfree : UInt64
  bavail : UInt64
  files : UInt64
  ffree : UInt64
  bsize : UInt64
  namemax : UInt64
  frsize : UInt64
  deriving DecidableEq, Repr

/-- The engine's call sites of syscalls. No operation reaches one of them twice. -/
inductive Site where
  | fstatat | openatRef | fstat | openat | ftruncate | fchmodat | fchownat | utimensat
  | dup | mkdirat | openatCreate | unlinkat | renameat | symlinkat | readlinkat | linkat
  | pread | pwrite | fsync | fdopendir | readdir | fstatvfs
  deriving DecidableEq, Repr

/-- What the host decides during one operation: which syscalls fail for reasons
outside the tree, the key a new file gets, the clock, the space left, the answer of
`fstatvfs`, the iteration order of the inode hash map, and the blocks (by their size in bytes) that
the allocator grants. -/
structure Env where
  fault : Site → Option Errno
  fresh : FileKey
  now : Time
  room : Option ℕ
  statvfs : Statvfs
  order : List UInt64
  grants : ℕ → Bool

/-- What goes on once a block of `bytes` bytes is there; `none` if the allocator refuses it, which
aborts the process. A block of no bytes is not asked for. -/
def reserving {α : Type} (grants : ℕ → Bool) (bytes : ℕ) (a : α) : Option α :=
  if bytes = 0 ∨ grants bytes then some a else none

section Reserving
variable {α : Type} {grants : ℕ → Bool} {bytes : ℕ} {a : α}

theorem reserving_refused (hpos : bytes ≠ 0) (h : grants bytes = false) :
    reserving grants bytes a = none := by
  unfold reserving
  rw [if_neg]
  rintro (h0 | hyes)
  · exact hpos h0
  · rw [h] at hyes
    cases hyes

end Reserving

/-- `PassthroughFs` together with the host it runs on. -/
structure World where
  inodes : InodeStore
  handles : HandleStore
  host : Host

abbrev FsM := EStateM Stop World

/-- One syscall at `site`. A failed syscall changes nothing. -/
def sys {α : Type} (env : Env) (site : Site) (f : Host → Except Errno (α × Host)) : FsM α :=
  fun w => match env.fault site with
    | some e => .error (.fail (.io e)) w
    | none => match f w.host with
      | .ok (a, h) => .ok a { w with host := h }
      | .error e => .error (.fail (.io e)) w

/-- A syscall that cannot fail. -/
def sysClose (fd : Fd) : FsM Unit :=
  fun w => .ok () { w with host := w.host.closeFd fd }

def liftExcept {α : Type} (x : Except FsError α) : FsM α :=
  fun w => match x with
    | .ok a => .ok a w
    | .error e => .error (.fail e) w

def dropFd : Option Fd → FsM Unit
  | some fd => sysClose fd
  | none => pure ()

def toCString (name : Name) : Except FsError Name :=
  if name.contains 0 then .error (.invalidArgument "name contains NUL") else .ok name

/-- `reference_open_flags` on Linux. -/
def referenceOpenFlags (isDir isSymlink : Bool) : UInt32 :=
  let base := if isDir then O_DIRECTORY else 0
  if isSymlink then O_PATH ||| O_NOFOLLOW ||| O_CLOEXEC
  else base ||| (O_PATH ||| O_NOFOLLOW ||| O_CLOEXEC)

/-- `open_child`. The flags of the second call always include `O_PATH`. -/
def openChild (env : Env) (parentFd : Fd) (name : Name) : FsM (Fd × Stat) := do
  let st ← sys env .fstatat fun h => h.fstatat parentFd.file name
  let kind := FileKind.fromMode st.mode
  let flags := referenceOpenFlags (kind = .dir) (kind = .symlink)
  let fd ← sys env .openatRef fun h => h.openPath parentFd.file name flags .referenced
  pure (fd, st)

namespace PassthroughFs

/-- `PassthroughFs::new` on the directory `root`. -/
def new (host : Host) (root : FileKey) : Option World :=
  match host.node root with
  | some ⟨.dir up es dead, info⟩ =>
    let (fd, host) := host.openFd root (O_DIRECTORY ||| O_CLOEXEC)
    some ⟨.new fd (host.statOf root ⟨.dir up es dead, info⟩), .new, host⟩
  | _ => none

def inode (id : UInt64) : FsM InodeData := fun w => liftExcept (w.inodes.get id) w

def cstring (name : Name) : FsM Name := liftExcept (toCString name)

/-- The call of `InodeStore::register`, and the drop of a duplicate descriptor. -/
def register (parent : UInt64) (name : Name) (fd : Fd) (st : Stat) : FsM InodeData :=
  fun w => match w.inodes.register parent name fd st with
    | none => .error .panic w
    | some (data, inodes, dropped) =>
      (do dropFd dropped; pure data) { w with inodes := inodes }

def lookup (env : Env) (parent : UInt64) (name : Name) : FsM (UInt64 × Attr) := do
  let parentData ← inode parent
  let cname ← cstring name
  let (fd, st) ← openChild env parentData.fd cname
  let data ← register parent name fd st
  pure (data.id, .fromStat st)

def forget (ino count : UInt64) : FsM Unit := fun w =>
  let (inodes, dropped) := w.inodes.forget ino count
  dropFd dropped { w with inodes := inodes }

def getattr (env : Env) (ino : UInt64) : FsM Attr := do
  let data ← inode ino
  let st ← sys env .fstat fun h => h.fstat data.fd
  pure (.fromStat st)

def parentFdName (data : InodeData) : FsM (Fd × Name) := do
  let parent ← inode (data.parent.getD ROOT_ID)
  let name ← cstring data.name
  pure (parent.fd, name)

/-- `reopen_via_parent`. The mode of a file that `O_CREAT` makes here is unset. -/
def reopenViaParent (env : Env) (ino : UInt64) (flags : UInt32) : FsM Fd := do
  let data ← inode ino
  if ino = ROOT_ID then
    sys env .dup fun h => h.dup data.fd
  else do
    let (parentFd, name) ← parentFdName data
    sys env .openat fun h => h.openat parentFd.file name flags 0 env.fresh

/-- The end of the `size` branch of `setattr`: the descriptor is closed whether or not
`ftruncate` succeeds. -/
def truncateClose (env : Env) (wfd : Fd) (size : UInt64) : FsM Unit := fun w =>
  match sys env .ftruncate (fun h => h.ftruncate wfd size) w with
  | .ok () w => sysClose wfd w
  | .error e w => (do sysClose wfd; throw e) w

/-- The `size` branch of `setattr`. -/
def setSize (env : Env) (ino : UInt64) : Option UInt64 → FsM Unit
  | some size => do
    let wfd ← reopenViaParent env ino O_WRONLY
    truncateClose env wfd size
  | none => pure ()

def optTime (t : Option Time) : Time := t.getD (0, UTIME_OMIT)

def setMode (env : Env) (parentFd : Fd) (name : Name) : Option UInt32 → FsM Unit
  | some mode => sys env .fchmodat fun h => h.fchmodat parentFd.file name mode
  | none => pure ()

def setOwner (env : Env) (parentFd : Fd) (name : Name) (uid gid : Option UInt32) : FsM Unit :=
  if uid.isSome || gid.isSome then
    sys env .fchownat fun h =>
      h.fchownat parentFd.file name (uid.getD 0xffffffff) (gid.getD 0xffffffff)
  else pure ()

def setTimes (env : Env) (parentFd : Fd) (name : Name) (atime mtime : Option Time) : FsM Unit :=
  if atime.isSome || mtime.isSome then
    sys env .utimensat fun h =>
      h.utimensat parentFd.file name env.now (optTime atime) (optTime mtime)
  else pure ()

/-- The branch of `setattr` for mode, owner and times. -/
def setInfo (env : Env) (data : InodeData) (attr : SetAttr) : FsM Unit :=
  if attr.mode.isSome || attr.uid.isSome || attr.gid.isSome
      || attr.atime.isSome || attr.mtime.isSome then do
    let (parentFd, name) ← parentFdName data
    setMode env parentFd name attr.mode
    setOwner env parentFd name attr.uid attr.gid
    setTimes env parentFd name attr.atime attr.mtime
  else pure ()

def setattr (env : Env) (ino : UInt64) (attr : SetAttr) : FsM Attr := do
  let data ← inode ino
  setSize env ino attr.size
  setInfo env data attr
  getattr env ino

def mkdir (env : Env) (parent : UInt64) (name : Name) (mode : UInt32) :
    FsM (UInt64 × Attr) := do
  let parentData ← inode parent
  let cname ← cstring name
  sys env .mkdirat fun h => h.mkdirat parentData.fd.file cname mode env.fresh
  lookup env parent name

def insertHandle (data : HandleData) : FsM UInt64 := fun w =>
  let (id, handles) := w.handles.insert data
  .ok id { w with handles := handles }

/-- `PassthroughFs::create`. The descriptor is owned only after `lookup` succeeds. -/
def create (env : Env) (parent : UInt64) (name : Name) (flags mode : UInt32) :
    FsM (UInt64 × UInt64 × Attr) := do
  let parentData ← inode parent
  let cname ← cstring name
  let fd ← sys env .openatCreate fun h =>
    h.openat parentData.fd.file cname (flags ||| O_CREAT ||| O_EXCL) mode env.fresh
  let (ino, attr) ← lookup env parent name
  let handle ← insertHandle (.file fd)
  pure (ino, handle, attr)

def unlink (env : Env) (parent : UInt64) (name : Name) : FsM Unit := do
  let parentData ← inode parent
  let cname ← cstring name
  sys env .unlinkat fun h => h.unlinkat parentData.fd.file cname false

def rmdir (env : Env) (parent : UInt64) (name : Name) : FsM Unit := do
  let parentData ← inode parent
  let cname ← cstring name
  sys env .unlinkat fun h => h.unlinkat parentData.fd.file cname true

def rename (env : Env) (parent : UInt64) (name : Name) (newParent : UInt64)
    (newName : Name) : FsM Unit := do
  let parentData ← inode parent
  let newParentData ← inode newParent
  let cname ← cstring name
  let cnew ← cstring newName
  sys env .renameat fun h =>
    h.renameat parentData.fd.file cname newParentData.fd.file cnew
  fun w => .ok () { w with inodes := w.inodes.noteRename env.order parent name newParent newName }

def symlink (env : Env) (parent : UInt64) (name target : Name) : FsM (UInt64 × Attr) := do
  let parentData ← inode parent
  let cname ← cstring name
  let ctarget ← cstring target
  sys env .symlinkat fun h => h.symlinkat ctarget parentData.fd.file cname env.fresh
  lookup env parent name

def readlink (env : Env) (ino : UInt64) : FsM Name := do
  let data ← inode ino
  let (parentFd, name) ← parentFdName data
  sys env .readlinkat fun h => h.readlinkat parentFd.file name 4096

def link (env : Env) (ino newParent : UInt64) (newName : Name) : FsM Attr := do
  let data ← inode ino
  let newParentData ← inode newParent
  let cnew ← cstring newName
  sys env .linkat fun h => h.linkat data.fd newParentData.fd.file cnew
  getattr env ino

/-- `PassthroughFs::open`. -/
def openFile (env : Env) (ino : UInt64) (flags : UInt32) : FsM UInt64 := do
  let fd ← reopenViaParent env ino flags
  insertHandle (.file fd)

def fileFd (handle : UInt64) : FsM Fd := fun w => liftExcept (w.handles.withFile handle) w

def dirFd (handle : UInt64) : FsM Fd := fun w => liftExcept (w.handles.withDir handle) w

def read (env : Env) (handle offset : UInt64) (size : ℕ) : FsM (List UInt8) := do
  let fd ← fileFd handle
  sys env .pread fun h => h.pread fd offset size

def write (env : Env) (handle offset : UInt64) (data : List UInt8) : FsM ℕ := do
  let fd ← fileFd handle
  sys env .pwrite fun h => h.pwrite env.room fd offset data

/-- `PassthroughFs::read_vectored` into buffers of the given sizes: the bytes they get. -/
def readVectored (env : Env) (handle offset : UInt64) (sizes : List ℕ) : FsM (List UInt8) := do
  let fd ← fileFd handle
  sys env .pread fun h => h.preadv fd offset sizes

/-- `PassthroughFs::write_vectored` from buffers with the given contents. -/
def writeVectored (env : Env) (handle offset : UInt64) (bufs : List (List UInt8)) : FsM ℕ := do
  let fd ← fileFd handle
  sys env .pwrite fun h => h.pwritev env.room fd offset bufs

def fsync (env : Env) (handle : UInt64) : FsM Unit := do
  let _ ← fileFd handle
  sys env .fsync fun h => .ok ((), h)

/-- `PassthroughFs::release` and `PassthroughFs::releasedir`. -/
def release (handle : UInt64) : FsM Unit := fun w =>
  match w.handles.remove handle with
  | .ok (data, handles) => sysClose data.fd { w with handles := handles }
  | .error e => .error (.fail e) w

def releasedir (handle : UInt64) : FsM Unit := release handle

/-- `Dir::from_fd`: the descriptor is closed when `fdopendir` fails. -/
def dirFromFd (env : Env) (fd : Fd) : FsM Unit := fun w =>
  match sys env .fdopendir (fun h => h.fdopendir fd) w with
  | .ok () w => .ok () w
  | .error e w => (do sysClose fd; throw e) w

def opendir (env : Env) (ino : UInt64) : FsM UInt64 := do
  let fd ← reopenViaParent env ino O_DIRECTORY
  dirFromFd env fd
  insertHandle (.dir fd)

/-- `PassthroughFs::readdir`, with the position `pos` at which the stream stands. -/
def readdir (env : Env) (pos : ℕ) (handle : UInt64) : FsM (List DirEntry) := do
  let fd ← dirFd handle
  let listing ← sys env .readdir fun h => h.listDir fd pos
  pure ((listing.filter fun e => e.1 ≠ dot ∧ e.1 ≠ dotdot).map
    fun e => ⟨e.1, e.2.1, e.2.2, 0⟩)

def statfs (env : Env) (ino : UInt64) : FsM Statvfs := do
  let _ ← inode ino
  sys env .fstatvfs fun h => .ok (env.statvfs, h)

end PassthroughFs

end Riftlessfs.Core
