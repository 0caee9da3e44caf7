import Riftlessfs.VhostUser.Mapping

/-! The slices of a mapped region against the mapping behind it. -/
namespace Riftlessfs.VhostUser
open Lib.Flat Lib.Effect Riftlessfs.Core Riftlessfs.Proto

section MapOne
variable {env : MapEnv} {region : MemoryRegion} {fd : RawFd} {r : Region}

/-- What rounding `off` down to a page cuts off. -/
theorem extra_eq (off page : UInt64) : off - (off - off % page) = off % page := by
  have hle : off.toNat % page.toNat ≤ off.toNat := Nat.mod_le _ _
  have hmod : off % page ≤ off := by
    rw [UInt64.le_iff_toNat_le, UInt64.toNat_mod]
    exact hle
  have hsub : off - off % page ≤ off := by
    rw [UInt64.le_iff_toNat_le, UInt64.toNat_sub_of_le _ _ hmod]
    exact Nat.sub_le _ _
  apply UInt64.toNat_inj.mp
  rw [UInt64.toNat_sub_of_le _ _ hsub, UInt64.toNat_sub_of_le _ _ hmod, UInt64.toNat_mod]
  omega

/-- What `map_one` records of a region. -/
theorem mapOne_ok (h : mapOne env region fd = .ok r) :
    r.baseFor .gpa = region.guestPhysAddr ∧ r.baseFor .user = region.userspaceAddr ∧
      r.len = region.memorySize ∧
      r.ptr = r.mmapBase + region.mmapOffset.toNat % env.pageSize.toNat ∧
      r.mmapLen.toNat =
        (region.memorySize.toNat + region.mmapOffset.toNat % env.pageSize.toNat) % 2 ^ 64 := by
  unfold mapOne at h
  obtain ⟨base, -, h⟩ := except_bind_ok h
  cases h
  rw [extra_eq]
  constructor
  · rfl
  constructor
  · rfl
  constructor
  · rfl
  constructor
  · show base + (region.mmapOffset % env.pageSize).toNat = _
    rw [UInt64.toNat_mod]
  · show (region.memorySize + region.mmapOffset % env.pageSize).toNat = _
    rw [UInt64.toNat_add, UInt64.toNat_mod]

end MapOne

/-- The range of every slice that `find` accepts in the region lies in what was mapped. -/
def Region.Contained (r : Region) : Prop :=
  ∀ (mem : GuestMemory) (space : AddrSpace) (addr len : UInt64) (p : ℕ),
    mem.find space addr len = some r → mem.slicePtr space addr len = some p →
      r.mmapBase ≤ p ∧ p + len.toNat ≤ r.mmapBase + r.mmapLen.toNat

/-- The whole region is a slice that `find` accepts. -/
theorem slicePtr_whole (r : Region) (b : ℕ → UInt8) :
    GuestMemory.find ⟨[r], b⟩ .gpa r.gpa r.len = some r ∧
      GuestMemory.slicePtr ⟨[r], b⟩ .gpa r.gpa r.len = some r.ptr := by
  have hfind : GuestMemory.find ⟨[r], b⟩ .gpa r.gpa r.len = some r := by
    unfold GuestMemory.find
    apply List.find?_cons_of_pos
    exact find_test.mpr ⟨le_refl _, le_refl _⟩
  constructor
  · exact hfind
  · unfold GuestMemory.slicePtr
    rw [hfind]
    show some (r.ptr + (r.gpa - r.gpa).toNat) = some r.ptr
    rw [UInt64.sub_self]
    rfl

/-- The slices of a region that `map_one` mapped lie in its mapping exactly when the region's
size and the part of its offset below a page do not wrap. -/
theorem mapped_slices_contained_iff (env : MapEnv) (region : MemoryRegion) (fd : RawFd) (r : Region)
    (h : mapOne env region fd = .ok r) :
    r.Contained ↔
      region.memorySize.toNat + region.mmapOffset.toNat % env.pageSize.toNat < 2 ^ 64 := by
  obtain ⟨-, -, hlen, hptr, hmap⟩ := mapOne_ok h
  constructor
  · intro hall
    obtain ⟨hfind, hslice⟩ := slicePtr_whole r env.bytes
    have hend := (hall _ _ _ _ _ hfind hslice).2
    rw [hptr, hmap, hlen] at hend
    omega
  · intro hfits mem space addr len p hfind hslice
    obtain ⟨-, hbase, hrange⟩ := find_some hfind
    have hp : p = r.ptr + (addr.toNat - (r.baseFor space).toNat) := by
      unfold GuestMemory.slicePtr at hslice
      rw [hfind] at hslice
      rw [← UInt64.toNat_sub_of_le _ _ (UInt64.le_iff_toNat_le.mpr hbase)]
      exact (Option.some.inj hslice).symm
    rw [Nat.mod_eq_of_lt hfits] at hmap
    rw [hlen] at hrange
    rw [hp, hptr, hmap]
    omega

/-- A host that maps everything at one place, in pages of 4096 bytes. -/
def roomyHost : MapEnv := ⟨4096, fun _ _ _ => .ok 0x4000, fun _ => 0⟩

/-- A region of almost the whole address space at an offset of two bytes is mapped with a
length of one byte, and yet sliced as a whole. -/
theorem wrapped_mapping_escapes : ∃ r, mapOne roomyHost ⟨0, 2 ^ 64 - 1, 0, 2⟩ 3 = .ok r ∧
    ∃ p, GuestMemory.slicePtr ⟨[r], roomyHost.bytes⟩ .gpa 0 (2 ^ 64 - 1) = some p ∧
      r.mmapBase + r.mmapLen.toNat < p + (2 ^ 64 - 1 : UInt64).toNat := by
  refine ⟨⟨0, 0, 2 ^ 64 - 1, 0x4002, 0x4000, 1⟩, by decide +kernel, 0x4002, by decide +kernel, ?_⟩
  decide +kernel

theorem mapped_slices_contained_small : ∃ r,
    mapOne roomyHost ⟨0x1000, 0x1000, 0x10000, 2⟩ 3 = .ok r ∧ r.Contained := by
  have hmap : mapOne roomyHost ⟨0x1000, 0x1000, 0x10000, 2⟩ 3 =
      .ok ⟨0x1000, 0x10000, 0x1000, 0x4002, 0x4000, 0x1002⟩ := by decide +kernel
  exact ⟨_, hmap, (mapped_slices_contained_iff _ _ _ _ hmap).mpr (by decide)⟩

end Riftlessfs.VhostUser
