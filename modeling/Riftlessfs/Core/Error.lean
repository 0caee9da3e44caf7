import Mathlib.Data.Nat.Basic

/-! Errors of the passthrough engine and the errno numbers of a Linux host. -/
namespace Riftlessfs.Core

abbrev Errno := ℕ

def EPERM : Errno := 1
def ENOENT : Errno := 2
def EIO : Errno := 5
def EBADF : Errno := 9
def EACCES : Errno := 13
def EBUSY : Errno := 16
def EEXIST : Errno := 17
def EXDEV : Errno := 18
def ENOTDIR : Errno := 20
def EISDIR : Errno := 21
def EINVAL : Errno := 22
def ENOSPC : Errno := 28
def ESPIPE : Errno := 29
def ENAMETOOLONG : Errno := 36
def ENOSYS : Errno := 38
def ENOTEMPTY : Errno := 39
def ELOOP : Errno := 40
def EOPNOTSUPP : Errno := 95

/-- `FsError`. The `io::Error` beside the errno of `Io` is determined by that errno. -/
inductive FsError where
  | io (errno : Errno)
  | unknownInode (id : UInt64)
  | unknownHandle (id : UInt64)
  | unsupported (what : String)
  | invalidArgument (what : String)
  | nameTooLong
  | pathEscape
  deriving DecidableEq, Repr

def FsError.errno : FsError → Errno
  | .io e => e
  | .unknownInode _ => EBADF
  | .unknownHandle _ => EBADF
  | .unsupported _ => ENOSYS
  | .invalidArgument _ => EINVAL
  | .nameTooLong => ENAMETOOLONG
  | .pathEscape => EACCES

/-- How an engine operation stops short: with an error, or in a panic, which
aborts the process. -/
inductive Stop where
  | fail (e : FsError)
  | panic
  deriving DecidableEq, Repr

end Riftlessfs.Core
