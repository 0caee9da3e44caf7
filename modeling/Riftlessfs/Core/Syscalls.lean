import Riftlessfs.Core.Host

/-! The syscalls the engine makes, as partial functions on the host. Permission,
space and I/O failures come from outside (see `Env.fault`); the failures written
here are those the tree itself decides. Flag values are those of x86-64 Linux. -/
namespace Riftlessfs.Core

def O_WRONLY : UInt32 := 1
def O_RDWR : UInt32 := 2
def O_ACCMODE : UInt32 := 3
def O_CREAT : UInt32 := 0o100
def O_EXCL : UInt32 := 0o200
def O_TRUNC : UInt32 := 0o1000
def O_APPEND : UInt32 := 0o2000
def O_DIRECT : UInt32 := 0o40000
def O_DIRECTORY : UInt32 := 0o200000
def O_NOFOLLOW : UInt32 := 0o400000
def O_CLOEXEC : UInt32 := 0o2000000
def O_PATH : UInt32 := 0o10000000
def O_TMPFILE : UInt32 := 0o20000000

def UTIME_NOW : UInt32 := 0x3fffffff
def UTIME_OMIT : UInt32 := 0x3ffffffe

/-- The most a single read or write transfers on Linux. -/
def MAX_RW_COUNT : ℕ := 0x7ffff000

def IOV_MAX : ℕ := 1024

def hasFlag (flags bit : UInt32) : Bool := flags &&& bit != 0

def readable (flags : UInt32) : Bool :=
  flags &&& O_ACCMODE = 0 || flags &&& O_ACCMODE = O_RDWR

def writable (flags : UInt32) : Bool :=
  flags &&& O_ACCMODE = O_WRONLY || flags &&& O_ACCMODE = O_RDWR

/-- Resize a file's bytes, padding with zeros. -/
def resize (data : List UInt8) (size : ℕ) : List UInt8 :=
  data.take size ++ List.replicate (size - data.length) 0

/-- Overwrite `data` at `off` with `new`, zero-filling a gap before `off`. -/
def writeAt (data : List UInt8) (off : ℕ) (new : List UInt8) : List UInt8 :=
  if new = [] then data
  else resize data off ++ new ++ data.drop (off + new.length)

namespace Host

/-- The permission bits of a new file. `mkdir` takes the sticky bit but no setuid and setgid bits,
and the mode of a symlink does not depend on the umask. -/
def newPerm (h : Host) (body : Body) (mode : UInt32) : UInt32 :=
  match body with
  | .dir .. => mode &&& 0o1777 &&& ~~~h.umask
  | .symlink _ => 0o777
  | _ => mode &&& 0o7777 &&& ~~~h.umask

/-- Give key `fresh` to a new file with body `body`. -/
def allocate (h : Host) (fresh : FileKey) (body : Body) (mode : UInt32) : Except Errno Host :=
  if h.inUse fresh then .error ENOSPC
  else .ok ((h.setNode fresh ⟨body, ⟨h.newPerm body mode, 0, 0, 0, (0, 0), (0, 0), (0, 0)⟩⟩).note
    .created fresh)

/-- Bind a new file at an unbound entry of directory `d`. -/
def create (h : Host) (d : FileKey) (n : Name) (fresh : FileKey) (body : Body)
    (mode : UInt32) : Except Errno Host := do
  if h.isDead d then .error ENOENT
  let h ← h.allocate fresh body mode
  .ok (h.bind d n fresh)

def fstatat (h : Host) (base : FileKey) (path : Name) : Except Errno (Stat × Host) := do
  let k ← h.lookupPath false base path
  match h.node k with
  | none => .error ENOENT
  | some v => .ok (h.statOf k v, h)

def fstat (h : Host) (fd : Fd) : Except Errno (Stat × Host) :=
  match h.node fd.file with
  | none => .error EBADF
  | some v => .ok (h.statOf fd.file v, h)

/-- The end of `openat`, once the file is known: type checks and `O_TRUNC`. -/
def finishOpen (h : Host) (k : FileKey) (flags : UInt32) : Except Errno (Fd × Host) :=
  match h.node k with
  | none => .error ENOENT
  | some ⟨.symlink _, _⟩ => .error ELOOP
  | some ⟨.dir .., _⟩ =>
    if flags &&& O_ACCMODE ≠ 0 ∨ hasFlag flags O_TRUNC ∨ hasFlag flags O_CREAT then .error EISDIR
    else .ok ((h.note .opened k).openFd k flags)
  | some ⟨.file _, _⟩ =>
    if hasFlag flags O_DIRECTORY then .error ENOTDIR
    else if hasFlag flags O_TRUNC then
      .ok ((((h.setData k []).note .opened k).note .truncated k).openFd k flags)
    else .ok ((h.note .opened k).openFd k flags)
  | some ⟨.other, _⟩ =>
    if hasFlag flags O_DIRECTORY then .error ENOTDIR
    else .ok ((h.note .opened k).openFd k flags)

/-- `O_PATH` masks every flag but `O_DIRECTORY` and `O_NOFOLLOW`. -/
def openPath (h : Host) (base : FileKey) (path : Name) (flags : UInt32) (kind : EventKind) :
    Except Errno (Fd × Host) := do
  let k ← h.lookupPath (!hasFlag flags O_NOFOLLOW) base path
  if hasFlag flags O_DIRECTORY && !h.isDir k then .error ENOTDIR
  .ok ((h.note kind k).openFd k flags)

/-- `O_TMPFILE`: an unnamed file in an existing directory. -/
def openTmpfile (h : Host) (base : FileKey) (path : Name) (flags mode : UInt32)
    (fresh : FileKey) : Except Errno (Fd × Host) := do
  if hasFlag flags O_CREAT ∨ ¬ hasFlag flags O_DIRECTORY ∨ ¬ writable flags then .error EINVAL
  let k ← h.lookupPath (!hasFlag flags O_NOFOLLOW) base path
  if !h.isDir k then .error ENOTDIR
  let h ← h.allocate fresh (.file []) mode
  .ok ((h.note .opened fresh).openFd fresh flags)

/-- `O_CREAT`: create the file when the path names none. -/
def openCreate (h : Host) (base : FileKey) (path : Name) (flags mode : UInt32)
    (fresh : FileKey) : Except Errno (Fd × Host) := do
  if hasFlag flags O_DIRECTORY then .error EINVAL
  let place ← h.resolve (!hasFlag flags O_NOFOLLOW && !hasFlag flags O_EXCL) base path
  match place with
  | .dir _ => .error (if hasFlag flags O_EXCL then EEXIST else EISDIR)
  | .entry d n =>
    match h.entry d n with
    | some k => if hasFlag flags O_EXCL then .error EEXIST else h.finishOpen k flags
    | none =>
      if mustDir path then .error EISDIR
      else do
        let h ← h.create d n fresh (.file []) mode
        .ok ((h.note .opened fresh).openFd fresh flags)

def openat (h : Host) (base : FileKey) (path : Name) (flags mode : UInt32)
    (fresh : FileKey) : Except Errno (Fd × Host) :=
  if hasFlag flags O_PATH then h.openPath base path flags .opened
  else if hasFlag flags O_TMPFILE then h.openTmpfile base path flags mode fresh
  else if hasFlag flags O_CREAT then h.openCreate base path flags mode fresh
  else do
    let k ← h.lookupPath (!hasFlag flags O_NOFOLLOW) base path
    h.finishOpen k flags

/-- `fcntl(F_DUPFD_CLOEXEC)`. -/
def dup (h : Host) (fd : Fd) : Except Errno (Fd × Host) :=
  .ok ((h.note .opened fd.file).openFd fd.file fd.flags)

def close (h : Host) (fd : Fd) : Except Errno (Unit × Host) := .ok ((), h.closeFd fd)

def ftruncate (h : Host) (fd : Fd) (size : UInt64) : Except Errno (Unit × Host) :=
  if size.toNat ≥ 2 ^ 63 ∨ ¬ writable fd.flags then .error EINVAL
  else match h.node fd.file with
    | some ⟨.file data, _⟩ =>
      .ok ((), (h.setData fd.file (resize data size.toNat)).note .truncated fd.file)
    | _ => .error EINVAL

def fchmodat (h : Host) (base : FileKey) (path : Name) (mode : UInt32) :
    Except Errno (Unit × Host) := do
  let k ← h.lookupPath false base path
  if h.isSymlink k then .error EOPNOTSUPP
  .ok ((), (h.mapInfo k fun i => { i with perm := mode &&& 0o7777 }).note .chmoded k)

/-- An id of `u32::MAX` leaves that owner as it is. -/
def fchownat (h : Host) (base : FileKey) (path : Name) (uid gid : UInt32) :
    Except Errno (Unit × Host) := do
  let k ← h.lookupPath false base path
  .ok ((), (h.mapInfo k fun i =>
    { i with uid := if uid = 0xffffffff then i.uid else uid
             gid := if gid = 0xffffffff then i.gid else gid }).note .chowned k)

def timeArg (now old t : Time) : Except Errno Time :=
  if t.2 = UTIME_OMIT then .ok old
  else if t.2 = UTIME_NOW then .ok now
  else if t.2.toNat > 999999999 then .error EINVAL
  else .ok t

def utimensat (h : Host) (base : FileKey) (path : Name) (now atime mtime : Time) :
    Except Errno (Unit × Host) := do
  let k ← h.lookupPath false base path
  match h.node k with
  | none => .error ENOENT
  | some v => do
    let a ← timeArg now v.info.atime atime
    let m ← timeArg now v.info.mtime mtime
    .ok ((), (h.mapInfo k fun i => { i with atime := a, mtime := m }).note .timed k)

def mkdirat (h : Host) (base : FileKey) (path : Name) (mode : UInt32) (fresh : FileKey) :
    Except Errno (Unit × Host) := do
  match ← h.resolve false base path with
  | .dir _ => .error EEXIST
  | .entry d n =>
    match h.entry d n with
    | some _ => .error EEXIST
    | none => do
      let h ← h.create d n fresh (.dir d ∅ false) mode
      .ok ((), h)

def symlinkat (h : Host) (target : Name) (base : FileKey) (path : Name) (fresh : FileKey) :
    Except Errno (Unit × Host) := do
  if target = [] then .error ENOENT
  match ← h.resolve false base path with
  | .dir _ => .error EEXIST
  | .entry d n =>
    match h.entry d n with
    | some _ => .error EEXIST
    | none =>
      if mustDir path then .error ENOENT
      else do
        let h ← h.create d n fresh (.symlink target) 0o777
        .ok ((), h)

/-- Why `rmdir` refuses a path that ends in `..`, in `.`, or is a root. -/
def rmdirRefusal (path : Name) : Errno :=
  match (components path).getLast? with
  | some n => if n = dotdot then ENOTEMPTY else EINVAL
  | none => EBUSY

/-- `unlinkat`, with `AT_REMOVEDIR` when `removedir` is set. -/
def unlinkat (h : Host) (base : FileKey) (path : Name) (removedir : Bool) :
    Except Errno (Unit × Host) := do
  match ← h.resolve false base path with
  | .dir _ => .error (if removedir then rmdirRefusal path else EISDIR)
  | .entry d n =>
    match h.entry d n with
    | none => .error ENOENT
    | some k =>
      if removedir then
        if !h.isDir k then .error ENOTDIR
        else if !h.isEmptyDir k then .error ENOTEMPTY
        else .ok ((), ((h.unbind d n).markDead k).note .removed k)
      else if h.isDir k then .error EISDIR
      else if mustDir path then .error ENOTDIR
      else .ok ((), (h.unbind d n).note .removed k)

/-- What `renameat` asks of a target that exists. -/
def renameTarget (h : Host) (m t : FileKey) : Except Errno Unit :=
  if h.isDir m then
    if !h.isDir t then .error ENOTDIR
    else if !h.isEmptyDir t then .error ENOTEMPTY
    else .ok ()
  else if h.isDir t then .error EISDIR
  else .ok ()

/-- Move entry `n` of `d`, naming `m`, over entry `n'` of `d'`. -/
def moveEntry (h : Host) (d : FileKey) (n : Name) (d' : FileKey) (n' : Name) (m : FileKey) :
    Host :=
  (((h.unbind d n).bind d' n' m).reparent m d').note .renamed m

def renameat (h : Host) (base : FileKey) (path : Name) (base' : FileKey) (path' : Name) :
    Except Errno (Unit × Host) := do
  match ← h.resolve false base path, ← h.resolve false base' path' with
  | .entry d n, .entry d' n' =>
    match h.entry d n with
    | none => .error ENOENT
    | some m =>
      if d.dev ≠ d'.dev then .error EXDEV
      else if (mustDir path ∨ mustDir path') ∧ ¬ h.isDir m then .error ENOTDIR
      else if h.isDir m ∧ h.isBelow m h.nodes.entries.length d' then .error EINVAL
      else match h.entry d' n' with
        | none => if h.isDead d' then .error ENOENT else .ok ((), h.moveEntry d n d' n' m)
        | some t =>
          if t = m then .ok ((), h)
          else do
            h.renameTarget m t
            .ok ((), ((h.moveEntry d n d' n' m).markDead t).note .removed t)
  | _, _ => .error EBUSY

/-- `linkat` with `AT_EMPTY_PATH`: a new name for an open file. -/
def linkat (h : Host) (fd : Fd) (base : FileKey) (path : Name) :
    Except Errno (Unit × Host) := do
  match ← h.resolve false base path with
  | .dir _ => .error EEXIST
  | .entry d n =>
    match h.entry d n with
    | some _ => .error EEXIST
    | none =>
      if mustDir path ∨ h.isDead d then .error ENOENT
      else if h.isDir fd.file then .error EPERM
      else if h.linkCount fd.file = 0 then .error ENOENT
      else if d.dev ≠ fd.file.dev then .error EXDEV
      else .ok ((), (h.bind d n fd.file).note .linked fd.file)

/-- `readlinkat` into a buffer of `size` bytes. -/
def readlinkat (h : Host) (base : FileKey) (path : Name) (size : ℕ) :
    Except Errno (Name × Host) := do
  let k ← h.lookupPath false base path
  match h.node k with
  | some ⟨.symlink t, _⟩ => .ok (t.take size, h.note .linkRead k)
  | _ => .error EINVAL

/-- `O_DIRECT` transfers must be aligned. -/
def misaligned (h : Host) (fd : Fd) (off len : ℕ) : Bool :=
  hasFlag fd.flags O_DIRECT && (off % h.dioAlign != 0 || len % h.dioAlign != 0)

def pread (h : Host) (fd : Fd) (off : UInt64) (size : ℕ) :
    Except Errno (List UInt8 × Host) :=
  if hasFlag fd.flags O_PATH ∨ ¬ readable fd.flags then .error EBADF
  else if off.toNat ≥ 2 ^ 63 then .error EINVAL
  else match h.node fd.file with
    | some ⟨.file data, _⟩ =>
      if h.misaligned fd off.toNat size then .error EINVAL
      else .ok ((data.drop off.toNat).take (min size MAX_RW_COUNT), h)
    | some ⟨.dir .., _⟩ => .error EISDIR
    | _ => .error ESPIPE

/-- `pwrite`; `room` is the space left on the device, when it is limited. -/
def pwrite (h : Host) (room : Option ℕ) (fd : Fd) (off : UInt64) (new : List UInt8) :
    Except Errno (ℕ × Host) :=
  if hasFlag fd.flags O_PATH ∨ ¬ writable fd.flags then .error EBADF
  else if off.toNat ≥ 2 ^ 63 then .error EINVAL
  else match h.node fd.file with
    | some ⟨.file data, _⟩ =>
      if h.misaligned fd off.toNat new.length then .error EINVAL
      else
        let want := min new.length MAX_RW_COUNT
        let n := min want (room.getD want)
        if n = 0 ∧ want ≠ 0 then .error ENOSPC
        else
          let pos := if hasFlag fd.flags O_APPEND then data.length else off.toNat
          .ok (n, (h.setData fd.file (writeAt data pos (new.take n))).note .written fd.file)
    | some ⟨.dir .., _⟩ => .error EISDIR
    | _ => .error ESPIPE

/-- `preadv` into buffers of the given sizes, which acts as `pread` of their total. -/
def preadv (h : Host) (fd : Fd) (off : UInt64) (sizes : List ℕ) :
    Except Errno (List UInt8 × Host) :=
  if sizes.length > IOV_MAX then .error EINVAL else h.pread fd off sizes.sum

/-- `pwritev` of buffers with the given contents, which acts as `pwrite` of their
concatenation. -/
def pwritev (h : Host) (room : Option ℕ) (fd : Fd) (off : UInt64) (bufs : List (List UInt8)) :
    Except Errno (ℕ × Host) :=
  if bufs.length > IOV_MAX then .error EINVAL else h.pwrite room fd off bufs.flatten

def fdopendir (h : Host) (fd : Fd) : Except Errno (Unit × Host) :=
  if h.isDir fd.file then .ok ((), h) else .error ENOTDIR

/-- A directory stream read from position `pos` to its end: `.`, `..`, then the entries, each with
inode number and type. -/
def listDir (h : Host) (fd : Fd) (pos : ℕ) :
    Except Errno (List (Name × UInt64 × FileKind) × Host) :=
  match h.node fd.file with
  | some ⟨.dir up es _, _⟩ =>
    let kindOf := fun k => match h.node k with
      | some v => v.body.kind
      | none => .other
    .ok (((dot, fd.file.ino, .dir) :: (dotdot, up.ino, .dir) ::
      es.entries.map fun e => (e.1, e.2.ino, kindOf e.2)).drop pos, h)
  | _ => .error ENOTDIR

end Host

end Riftlessfs.Core
