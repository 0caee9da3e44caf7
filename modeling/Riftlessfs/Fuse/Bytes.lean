import Riftlessfs.Lib.LittleEndian
import Riftlessfs.Lib.Effect

/-! Little-endian cursor reader and writer, and the protocol error type. -/
namespace Riftlessfs.Proto

inductive VirtqueueError where
  | outOfBounds
  | chainTooLong
  | indirectUnsupported
  deriving DecidableEq, Repr

/-- `ProtoError`; an I/O error is known by its errno. -/
inductive ProtoError where
  | io (errno : ℕ)
  | unknownRequest (code : UInt32)
  | truncated
  | disconnected
  | payloadTooLarge (size : ℕ)
  | missingFd
  | virtqueue (e : VirtqueueError)
  deriving DecidableEq, Repr

end Riftlessfs.Proto

namespace Riftlessfs.Fuse
open Lib.LittleEndian Lib.Effect Riftlessfs.Proto

structure Reader where
  buf : List UInt8
  pos : ℕ
  deriving DecidableEq, Repr

/-- A computation that advances a reader. -/
abbrev ReadM := EStateM ProtoError Reader

namespace Reader

def new (buf : List UInt8) : Reader := ⟨buf, 0⟩

/-- Run a parser over a whole buffer, as the `from_bytes` functions do. -/
def parse {α : Type} (m : ReadM α) (buf : List UInt8) : Except ProtoError α :=
  match m (new buf) with
  | .ok a _ => .ok a
  | .error e _ => .error e

def take (n : ℕ) : ReadM (List UInt8) := fun r =>
  if r.pos + n ≤ r.buf.length then .ok ((r.buf.drop r.pos).take n) { r with pos := r.pos + n }
  else .error .truncated r

def u16 : ReadM UInt16 := do
  let s ← take 2
  pure (.ofNat (leNat s))

def u32 : ReadM UInt32 := do
  let s ← take 4
  pure (.ofNat (leNat s))

def i32 : ReadM Int32 := do
  let s ← take 4
  pure (UInt32.ofNat (leNat s)).toInt32

def u64 : ReadM UInt64 := do
  let s ← take 8
  pure (.ofNat (leNat s))

def skip (n : ℕ) : ReadM Unit := do
  let _ ← take n

/-- Everything not yet consumed. -/
def remaining : ReadM (List UInt8) := fun r => .ok (r.buf.drop r.pos) r

/-- A NUL-terminated string, without its NUL. -/
def cstr : ReadM (List UInt8) := fun r =>
  let rest := r.buf.drop r.pos
  match rest.findIdx? (· == 0) with
  | some nul => .ok (rest.take nul) { r with pos := r.pos + nul + 1 }
  | none => .error .truncated r

/-- `unwrap_or` on a read. -/
def orElse {α : Type} (m : ReadM α) (default : α) : ReadM α := fun r =>
  match m r with
  | .ok a r => .ok a r
  | .error _ r => .ok default r

end Reader

/-- The little-endian number in bytes `off ..< off + w` of a buffer. -/
def natAt (buf : List UInt8) (off w : ℕ) : ℕ := leNat ((buf.drop off).take w)

namespace Reader

theorem take_apply (n : ℕ) (buf : List UInt8) (pos : ℕ) :
    take n ⟨buf, pos⟩ = if pos + n ≤ buf.length then
      .ok ((buf.drop pos).take n) ⟨buf, pos + n⟩ else .error .truncated ⟨buf, pos⟩ := rfl

theorem u32_apply (buf : List UInt8) (pos : ℕ) :
    u32 ⟨buf, pos⟩ = if pos + 4 ≤ buf.length then
      .ok (.ofNat (natAt buf pos 4)) ⟨buf, pos + 4⟩ else .error .truncated ⟨buf, pos⟩ := by
  unfold u32
  rw [bind_apply, take_apply]
  split_ifs <;> rfl

theorem u64_apply (buf : List UInt8) (pos : ℕ) :
    u64 ⟨buf, pos⟩ = if pos + 8 ≤ buf.length then
      .ok (.ofNat (natAt buf pos 8)) ⟨buf, pos + 8⟩ else .error .truncated ⟨buf, pos⟩ := by
  unfold u64
  rw [bind_apply, take_apply]
  split_ifs <;> rfl

theorem skip_apply (n : ℕ) (buf : List UInt8) (pos : ℕ) :
    skip n ⟨buf, pos⟩ = if pos + n ≤ buf.length then
      .ok () ⟨buf, pos + n⟩ else .error .truncated ⟨buf, pos⟩ := by
  unfold skip
  rw [bind_apply, take_apply]
  split_ifs <;> rfl

end Reader

structure Writer where
  buf : List UInt8
  deriving DecidableEq, Repr

namespace Writer

def new : Writer := ⟨[]⟩

def bytes (w : Writer) (b : List UInt8) : Writer := ⟨w.buf ++ b⟩

def u16 (w : Writer) (v : UInt16) : Writer := w.bytes (leBytes 2 v.toNat)

def u32 (w : Writer) (v : UInt32) : Writer := w.bytes (leBytes 4 v.toNat)

def i32 (w : Writer) (v : Int32) : Writer := w.bytes (leBytes 4 v.toUInt32.toNat)

def u64 (w : Writer) (v : UInt64) : Writer := w.bytes (leBytes 8 v.toNat)

/-- Append a string and its NUL terminator. -/
def cstr (w : Writer) (s : List UInt8) : Writer := w.bytes (s ++ [0])

def padTo (w : Writer) (len : ℕ) : Writer := w.bytes (List.replicate (len - w.buf.length) 0)

def intoVec (w : Writer) : List UInt8 := w.buf

end Writer

end Riftlessfs.Fuse
