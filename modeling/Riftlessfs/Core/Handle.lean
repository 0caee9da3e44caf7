import Riftlessfs.Core.Syscalls

/-! The table of open file and directory handles. -/
namespace Riftlessfs.Core

inductive HandleData where
  | file (fd : Fd)
  | dir (fd : Fd)
  deriving DecidableEq, Repr

def HandleData.fd : HandleData → Fd
  | .file fd => fd
  | .dir fd => fd

structure HandleStore where
  handles : UInt64 → Option HandleData
  nextId : UInt64

namespace HandleStore

def new : HandleStore := ⟨fun _ => none, 1⟩

def insert (s : HandleStore) (data : HandleData) : UInt64 × HandleStore :=
  (s.nextId, ⟨Function.update s.handles s.nextId (some data), s.nextId + 1⟩)

def remove (s : HandleStore) (id : UInt64) : Except FsError (HandleData × HandleStore) :=
  match s.handles id with
  | some data => .ok (data, { s with handles := Function.update s.handles id none })
  | none => .error (.unknownHandle id)

/-- The lookup of `HandleStore::with_file`. -/
def withFile (s : HandleStore) (id : UInt64) : Except FsError Fd :=
  match s.handles id with
  | some (.file fd) => .ok fd
  | some (.dir _) => .error (.invalidArgument "handle is a directory, not a file")
  | none => .error (.unknownHandle id)

/-- The lookup of `HandleStore::with_dir`. -/
def withDir (s : HandleStore) (id : UInt64) : Except FsError Fd :=
  match s.handles id with
  | some (.dir fd) => .ok fd
  | some (.file _) => .error (.invalidArgument "handle is a file, not a directory")
  | none => .error (.unknownHandle id)

end HandleStore

end Riftlessfs.Core
