import Riftlessfs.Fuse.Wire

/-! Dispatch: decode one gathered request, call the engine, encode the reply. -/
namespace Riftlessfs.Fuse
open Riftlessfs.Core Riftlessfs.Proto

inductive Reply where
  | bytes (b : Bytes)
  | none
  deriving DecidableEq, Repr

/-- An open file description of a directory: the root's, which all handles on the root share
because their descriptors are duplicates, or that of a handle opened by name. -/
inductive Description where
  | root
  | own (handle : UInt64)
  deriving DecidableEq, Repr

/-- What the kernel keeps about directory streams: the description behind a handle, and the
position at which a description stands. -/
structure Streams where
  desc : UInt64 → Description
  pos : Description → ℕ

namespace Streams

def new : Streams := ⟨fun _ => .root, fun _ => 0⟩

def stands (s : Streams) (handle : UInt64) : ℕ := s.pos (s.desc handle)

/-- `opendir` of a node gave a handle. -/
def opened (s : Streams) (nodeid handle : UInt64) : Streams :=
  if nodeid = ROOT_ID then { s with desc := Function.update s.desc handle .root }
  else ⟨Function.update s.desc handle (.own handle), Function.update s.pos (.own handle) 0⟩

/-- `rewinddir`. -/
def rewind (s : Streams) (handle : UInt64) : Streams :=
  { s with pos := Function.update s.pos (s.desc handle) 0 }

end Streams

/-- `Session`, with the positions of the directory streams it has open. -/
structure Session where
  world : World
  readdirCache : UInt64 → Option (List DirEntry)
  streams : Streams

def errnoReply (unique : UInt64) (e : FsError) : Reply :=
  .bytes (OutHeader.errorFor unique e.errno)

def okReply (unique : UInt64) (body : Bytes) : Reply := .bytes (OutHeader.reply unique 0 body)

def dtType : FileKind → UInt32
  | .dir => DT_DIR
  | .regular => DT_REG
  | .symlink => DT_LNK
  | .other => DT_UNKNOWN

def trimNul (buf : Bytes) : Bytes :=
  match buf.findIdx? (· == 0) with
  | some i => buf.take i
  | none => buf

/-- `split_two_cstrs`, asked for both strings. -/
def splitTwoCstrs (buf : Bytes) : Option (Bytes × Bytes) := do
  let i ← buf.findIdx? (· == 0)
  let rest := buf.drop (i + 1)
  let j ← rest.findIdx? (· == 0)
  pure (buf.take i, rest.take j)

/-- A request handler. It leaves early with a reply, or with none when the process
panics. -/
abbrev HandleM := EStateM (Option Reply) Session

def tryFs {α : Type} (unique : UInt64) (m : FsM α) : HandleM α := fun s =>
  match m s.world with
  | .ok a w => .ok a { s with world := w }
  | .error (.fail e) w => .error (some (errnoReply unique e)) { s with world := w }
  | .error .panic w => .error none { s with world := w }

def tryParse {α : Type} (unique : UInt64) (x : Except ProtoError α) : HandleM α := fun s =>
  match x with
  | .ok a => .ok a s
  | .error _ => .error (some (.bytes (OutHeader.errorFor unique EINVAL))) s

def setattrOf (now : Time) (s : SetattrIn) : SetAttr where
  size := if hasFlag s.valid FATTR_SIZE then some s.size else none
  mode := if hasFlag s.valid FATTR_MODE then some s.mode else none
  uid := if hasFlag s.valid FATTR_UID then some s.uid else none
  gid := if hasFlag s.valid FATTR_GID then some s.gid else none
  atime := if hasFlag s.valid FATTR_ATIME_NOW then some now
    else if hasFlag s.valid FATTR_ATIME then some (s.atime.toInt64, s.atimensec) else none
  mtime := if hasFlag s.valid FATTR_MTIME_NOW then some now
    else if hasFlag s.valid FATTR_MTIME then some (s.mtime.toInt64, s.mtimensec) else none

def forgetAll : List ForgetOne → FsM Unit
  | [] => pure ()
  | e :: rest => do
    PassthroughFs.forget e.nodeid e.nlookup
    forgetAll rest

/-- `r.size as usize - out.len()` on a 64-bit `usize`. -/
def usizeSub (a b : ℕ) : ℕ := (a + 2 ^ 64 - b) % 2 ^ 64

/-- The `READDIR` loop over the entries from index `i` on. -/
def fillDirents (size : ℕ) : ℕ → List DirEntry → Bytes → Bytes
  | _, [], out => out
  | i, e :: rest, out =>
    let fit := pushDirent out (usizeSub size out.length) e.ino (.ofNat (i + 1)) (dtType e.kind)
      e.name
    if fit.1 then fillDirents size (i + 1) rest fit.2 else fit.2

/-- The drop of the iterator over a directory, which rewinds its stream. Without a directory behind
the handle there is none. -/
def Session.dropIter (s : Session) (fh : UInt64) : Session :=
  match s.world.handles.withDir fh with
  | .ok _ => { s with streams := s.streams.rewind fh }
  | .error _ => s

/-- `self.fs.readdir`, from where the stream stands. The iterator is dropped after the last entry
and after an error. -/
def readdirStream (env : Env) (unique fh : UInt64) : HandleM (List DirEntry) := fun s =>
  tryFs unique (PassthroughFs.readdir env (s.streams.stands fh) fh) (s.dropIter fh)

/-- The listing a `READDIR` pages through: read afresh at offset 0 or when none is
cached. -/
def readdirEntries (env : Env) (unique : UInt64) (r : ReadIn) : HandleM (List DirEntry) :=
  fun s =>
    if r.offset = 0 ∨ s.readdirCache r.fh = none then
      (do
        let listing ← readdirStream env unique r.fh
        fun s => .ok listing
          { s with readdirCache := Function.update s.readdirCache r.fh (some listing) }) s
    else .ok ((s.readdirCache r.fh).getD []) s

namespace Session

def new (world : World) : Session := ⟨world, fun _ => none, .new⟩

/-- The arms of `Session::handle`, after the header is parsed. -/
def dispatch (env : Env) (header : InHeader) (body : Bytes) : HandleM Reply :=
  let unique := header.unique
  let nodeid := header.nodeid
  match Opcode.ofU32 header.opcode with
  | .init => do
    let init ← tryParse unique (InitIn.fromBytes body)
    pure (okReply unique (initOut init.maxReadahead))
  | .destroy => pure (okReply unique [])
  | .forget => do
    let nlookup ← tryParse unique (ForgetIn.fromBytes body)
    tryFs unique (PassthroughFs.forget nodeid nlookup)
    pure .none
  | .batchForget => do
    let entries ← tryParse unique (parseBatchForget body)
    tryFs unique (forgetAll entries)
    pure .none
  | .lookup => do
    let (ino, attr) ← tryFs unique (PassthroughFs.lookup env nodeid (trimNul body))
    pure (okReply unique (entryOut ino attr))
  | .getattr => do
    let _ ← tryParse unique (GetattrIn.fromBytes body)
    let attr ← tryFs unique (PassthroughFs.getattr env nodeid)
    pure (okReply unique (attrOut attr))
  | .setattr => do
    let s ← tryParse unique (SetattrIn.fromBytes body)
    let attr ← tryFs unique (PassthroughFs.setattr env nodeid (setattrOf env.now s))
    pure (okReply unique (attrOut attr))
  | .readlink => do
    let target ← tryFs unique (PassthroughFs.readlink env nodeid)
    pure (okReply unique target)
  | .symlink =>
    match splitTwoCstrs body with
    | none => pure (.bytes (OutHeader.errorFor unique EINVAL))
    | some (name, target) => do
      let (ino, attr) ← tryFs unique (PassthroughFs.symlink env nodeid name target)
      pure (okReply unique (entryOut ino attr))
  | .mkdir => do
    let (mode, name) ← tryParse unique (MkdirIn.fromBytes body)
    let (ino, attr) ← tryFs unique (PassthroughFs.mkdir env nodeid name mode)
    pure (okReply unique (entryOut ino attr))
  | .unlink => do
    tryFs unique (PassthroughFs.unlink env nodeid (trimNul body))
    pure (okReply unique [])
  | .rmdir => do
    tryFs unique (PassthroughFs.rmdir env nodeid (trimNul body))
    pure (okReply unique [])
  | .rename => do
    let (newdir, old, new) ← tryParse unique (RenameIn.fromBytes body)
    tryFs unique (PassthroughFs.rename env nodeid old newdir new)
    pure (okReply unique [])
  | .rename2 => do
    let (newdir, old, new) ← tryParse unique (RenameIn.fromBytesV2 body)
    tryFs unique (PassthroughFs.rename env nodeid old newdir new)
    pure (okReply unique [])
  | .link => do
    let (oldnodeid, name) ← tryParse unique (LinkIn.fromBytes body)
    let attr ← tryFs unique (PassthroughFs.link env oldnodeid nodeid name)
    pure (okReply unique (entryOut oldnodeid attr))
  | .open => do
    let flags ← tryParse unique (OpenIn.fromBytes body)
    let handle ← tryFs unique (PassthroughFs.openFile env nodeid flags)
    pure (okReply unique (openOut handle))
  | .create => do
    let (c, name) ← tryParse unique (CreateIn.fromBytes body)
    let (ino, handle, attr) ← tryFs unique (PassthroughFs.create env nodeid name c.flags c.mode)
    pure (okReply unique (entryOut ino attr ++ openOut handle))
  | .read => do
    let r ← tryParse unique (ReadIn.fromBytes body)
    let data ← tryFs unique (PassthroughFs.read env r.fh r.offset r.size.toNat)
    pure (okReply unique data)
  | .write => do
    let (w, data) ← tryParse unique (WriteIn.fromBytes body)
    let n := min w.size.toNat data.length
    let written ← tryFs unique (PassthroughFs.write env w.fh w.offset (data.take n))
    pure (okReply unique (writeOut (.ofNat written)))
  | .flush => do
    let _ ← tryParse unique (FlushIn.fromBytes body)
    pure (okReply unique [])
  | .fsync => do
    let fh ← tryParse unique (Reader.parse Reader.u64 body)
    tryFs unique (PassthroughFs.fsync env fh)
    pure (okReply unique [])
  | .release => do
    let fh ← tryParse unique (ReleaseIn.fromBytes body)
    tryFs unique (PassthroughFs.release fh)
    pure (okReply unique [])
  | .opendir => do
    let _ ← tryParse unique (OpenIn.fromBytes body)
    let handle ← tryFs unique (PassthroughFs.opendir env nodeid)
    fun s => .ok () { s with streams := s.streams.opened nodeid handle }
    pure (okReply unique (openOut handle))
  | .readdir => do
    let r ← tryParse unique (ReadIn.fromBytes body)
    let entries ← readdirEntries env unique r
    let start := r.offset.toNat
    pure (okReply unique (fillDirents r.size.toNat start (entries.drop start) []))
  | .releasedir => do
    let fh ← tryParse unique (ReleaseIn.fromBytes body)
    fun s => .ok () { s with readdirCache := Function.update s.readdirCache fh none }
    tryFs unique (PassthroughFs.releasedir fh)
    pure (okReply unique [])
  | .fsyncdir => pure (okReply unique [])
  | .statfs => do
    let stat ← tryFs unique (PassthroughFs.statfs env nodeid)
    pure (okReply unique (statfsOut stat))
  | .access => do
    let _ ← tryParse unique (AccessIn.fromBytes body)
    pure (okReply unique [])
  | .getxattr | .listxattr | .setxattr | .removexattr =>
    pure (.bytes (OutHeader.errorFor unique ENOSYS))
  | .unknown _ => pure (.bytes (OutHeader.errorFor unique ENOSYS))

/-- `Session::handle`, when it has the room it reserves: the reply, `none` in a panic, and the
session after it. -/
def handle (env : Env) (s : Session) (request : Bytes) : Option Reply × Session :=
  match InHeader.fromBytes request with
  | .error _ => (some .none, s)
  | .ok header =>
    match dispatch env header (InHeader.body request) s with
    | .ok r s => (some r, s)
    | .error r s => (r, s)

end Session

end Riftlessfs.Fuse
