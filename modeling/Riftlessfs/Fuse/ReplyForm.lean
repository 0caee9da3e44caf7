import Riftlessfs.Fuse.LookupCounts
import Riftlessfs.Fuse.Replies
import Riftlessfs.Fuse.SessionRuns

/-! The form of every reply: its header fields, and the size of its body by opcode. -/
namespace Riftlessfs.Fuse
open Riftlessfs.Core Riftlessfs.Proto Lib.LittleEndian Lib.Run

def errorField (b : Bytes) : Int32 := (UInt32.ofNat (natAt b 4 4)).toInt32

def opcodeOf (request : Bytes) : Opcode := .ofU32 (.ofNat (natAt request 4 4))

/-- A reply to `request` that a FUSE client can take: none where none is due, or a header whose
length and unique id are right, followed by the body of a success or by nothing after an errno. -/
def WellFormed (request : Bytes) : Reply → Prop
  | .none => request.length < IN_HEADER_LEN ∨ opcodeOf request = .forget ∨
      opcodeOf request = .batchForget
  | .bytes b => OUT_HEADER_LEN ≤ b.length ∧ (b.length < 2 ^ 32 → natAt b 0 4 = b.length) ∧
      (b.drop 8).take 8 = (request.drop 8).take 8 ∧
      (errorField b = 0 ∧
          (∀ n, (opcodeOf request).bodySize = some n → b.length = OUT_HEADER_LEN + n) ∨
        -133 ≤ (errorField b).toInt ∧ (errorField b).toInt ≤ -1 ∧ b.length = OUT_HEADER_LEN)

section Fields
variable (unique : UInt64) (error : Int32) (body : Bytes)

theorem OutHeader.reply_errorField : errorField (OutHeader.reply unique error body) = error := by
  unfold errorField
  rw [OutHeader.reply_error, UInt32.ofNat_toNat]
  exact Int32.toInt32_toUInt32 error

/-- What an error header carries is the negative of an errno that Linux knows. -/
theorem errorFor_range (e : Errno) : -133 ≤ (-(Int32.ofNat (toLinuxErrno e))).toInt ∧
    (-(Int32.ofNat (toLinuxErrno e))).toInt ≤ -1 := by
  have hmem : toLinuxErrno e ∈ 5 :: knownErrnos := by
    unfold toLinuxErrno
    split_ifs with h
    · exact List.mem_cons_of_mem 5 h
    · exact List.mem_cons_self
  have hall : ∀ n ∈ 5 :: knownErrnos, -133 ≤ (-(Int32.ofNat n)).toInt ∧
      (-(Int32.ofNat n)).toInt ≤ -1 := by decide
  exact hall _ hmem

end Fields

/-- A session keeps the invariant of its inode table, and so never panics. -/
theorem Session.run_inv {w : World} (hi : w.inodes.Inv) (hb : w.inodes.Bounded 0)
    {xs : List Input} (hn : xs.length + 3 < 2 ^ 64) :
    ∃ s, run Session.step (.new w) xs = some s ∧ s.world.inodes.Inv ∧
      s.world.inodes.Bounded xs.length := by
  induction xs using List.reverseRecOn with
  | nil => exact ⟨.new w, rfl, hi, hb⟩
  | append_singleton xs x ih =>
    rw [List.length_append, List.length_singleton] at hn ⊢
    obtain ⟨s, hrun, hi', hb'⟩ := ih (by omega)
    obtain ⟨g, hstep, hi'', hb''⟩ :=
      Guest.step_inv (g := ⟨s, fun _ => 0⟩) (x := x) hi' hb' (by omega)
    refine ⟨g.session, ?_, hi'', hb''⟩
    rw [run_concat, hrun, Option.bind_some]
    unfold Guest.step at hstep
    unfold Session.step
    split at hstep
    · rename_i heq
      cases hstep
      rw [heq]
    · cases hstep

end Riftlessfs.Fuse
