import Riftlessfs.Fuse.BatchForget
import Riftlessfs.VhostUser.PayloadCodecs

/-! How much room the two counted-list parsers reserve. -/
namespace Riftlessfs.VhostUser
open Lib.LittleEndian Riftlessfs.Core Riftlessfs.Proto Riftlessfs.Fuse

def wholeEntries (size : ℕ) (buf : Bytes) : ℕ := (buf.length - 8) / size

/-- Both parsers reserve what the count field says as soon as the prefix is there. -/
theorem batchForgetReserves_eq (buf : Bytes) :
    batchForgetReserves buf = if buf.length < 8 then 0 else natAt buf 0 4 := by
  unfold batchForgetReserves
  rw [batchForgetHead_fixed.parse]
  by_cases h8 : 8 ≤ buf.length
  · rw [if_pos h8, if_neg (by omega)]
    exact UInt32.toNat_ofNat_of_lt' (natAt_lt buf 0 4)
  · rw [if_neg h8, if_pos (by omega)]

/-- A reservation of what the count says stays within the message exactly when the message lacks
its prefix or holds all its entries. -/
theorem reserves_within_iff {size : ℕ} (hsize : 0 < size) (buf : Bytes) :
    (if buf.length < 8 then 0 else natAt buf 0 4) ≤ wholeEntries size buf ↔
      buf.length < 8 ∨ 8 + size * natAt buf 0 4 ≤ buf.length := by
  unfold wholeEntries
  by_cases h8 : buf.length < 8
  · rw [if_pos h8]
    exact iff_of_true (Nat.zero_le _) (Or.inl h8)
  · rw [if_neg h8, Nat.le_div_iff_mul_le hsize, Nat.mul_comm]
    constructor
    · intro h
      exact Or.inr (by omega)
    · intro h
      have hfit := h.resolve_left h8
      omega

/-- The parsers reserve no more elements than the message holds whole entries exactly for the
messages without a whole prefix and those with as many entries as their count says. -/
theorem counted_lists_reserve_iff (buf : Bytes) :
    (batchForgetReserves buf ≤ wholeEntries 16 buf ↔
      buf.length < 8 ∨ 8 + 16 * natAt buf 0 4 ≤ buf.length) ∧
    (memoryRegionsReserves buf ≤ wholeEntries 32 buf ↔
      buf.length < 8 ∨ 8 + 32 * natAt buf 0 4 ≤ buf.length) := by
  rw [batchForgetReserves_eq, memoryRegionsReserves]
  exact ⟨reserves_within_iff (by decide) buf, reserves_within_iff (by decide) buf⟩

/-- A prefix that announces `2 ^ 32 - 1` entries, and none of them. -/
def hugeCount : Bytes := [255, 255, 255, 255, 0, 0, 0, 0]

/-- Both parsers reserve room for every entry the message announces, though it holds none, and the
process aborts if the allocator does not have it. -/
theorem huge_count_reserved :
    wholeEntries 16 hugeCount = 0 ∧ batchForgetReserves hugeCount = 4294967295 ∧
    (∀ grants : ℕ → Bool, grants (16 * 4294967295) = false →
      parseBatchForgetOrAbort grants hugeCount = none) ∧
    wholeEntries 32 hugeCount = 0 ∧ memoryRegionsReserves hugeCount = 4294967295 ∧
    (∀ grants : ℕ → Bool, grants (32 * 4294967295) = false →
      MemoryRegions.fromBytesOrAbort grants hugeCount = none) := by
  have hforget : batchForgetReserves hugeCount = 4294967295 := by decide +kernel
  have hregions : memoryRegionsReserves hugeCount = 4294967295 := by decide +kernel
  refine ⟨rfl, hforget, ?_, rfl, hregions, ?_⟩
  · intro grants hno
    unfold parseBatchForgetOrAbort
    rw [hforget]
    exact reserving_refused (by decide) hno
  · intro grants hno
    unfold MemoryRegions.fromBytesOrAbort
    rw [hregions]
    exact reserving_refused (by decide) hno

end Riftlessfs.VhostUser
