import Riftlessfs.VhostUser.ExactAddresses

/-! When the address arithmetic wraps: for every queue past the bounds some memory makes it. -/
namespace Riftlessfs.VhostUser
open Lib.Flat Lib.LittleEndian Riftlessfs.Proto

/-- Memory of one region, which begins at `base` of the user addresses. -/
def oneRegion (base len : UInt64) (bytes : ℕ → UInt8) : GuestMemory where
  regions := [⟨0, base, len, 0, 0, len⟩]
  bytes := bytes

section OneRegion
variable {base len k n : UInt64} {bytes : ℕ → UInt8}

theorem oneRegion_slicePtr (hk : base.toNat + k.toNat < 2 ^ 64)
    (hin : k.toNat + n.toNat ≤ len.toNat) (hpos : 0 < n.toNat) :
    (oneRegion base len bytes).slicePtr .user (base + k) n = some k.toNat := by
  have hadd := toNat_add_of_fits hk
  have hapart : (oneRegion base len bytes).SpaceApart .user := List.pairwise_singleton _ _
  have hbase : base.toNat ≤ (base + k).toNat := by omega
  have hend : (base + k).toNat + n.toNat ≤ base.toNat + len.toNat := by omega
  rw [hapart.slicePtr_eq (List.mem_singleton.mpr rfl) hbase hend hpos]
  show some (0 + ((base + k).toNat - base.toNat)) = some k.toNat
  rw [hadd]
  congr 1
  omega

theorem oneRegion_getSlice (hk : base.toNat + k.toNat < 2 ^ 64)
    (hin : k.toNat + n.toNat ≤ len.toNat) (hpos : 0 < n.toNat) :
    (oneRegion base len bytes).getSlice .user (base + k) n =
      some (load bytes k.toNat n.toNat) := by
  unfold GuestMemory.getSlice
  rw [oneRegion_slicePtr hk hin hpos]
  rfl

end OneRegion

section Necessary
variable {vq : Virtqueue} {segments : List Segment}

/-- The last slot of the available ring is read when the server is there. -/
theorem avail_fits (hpos : 1 ≤ vq.queueSize.toNat) (hsize : vq.queueSize.toNat ≤ 32768)
    (h : ∀ mem idx, ∀ s ∈ (vq.setAvailBase idx).popAdditions mem, s.Exact) :
    vq.availAddr.toNat + 4 + 2 * (vq.queueSize.toNat - 1) < 2 ^ 64 := by
  obtain ⟨last, hlast⟩ : ∃ last : UInt16, last.toNat = vq.queueSize.toNat - 1 :=
    ⟨.ofNat (vq.queueSize.toNat - 1), UInt16.toNat_ofNat_of_lt' (by show _ < 65536; omega)⟩
  obtain ⟨mem, hmem⟩ : ∃ mem, mem = oneRegion vq.availAddr 4 fun _ => 0xff := ⟨_, rfl⟩
  have htwo : vq.availAddr.toNat + (2 : UInt64).toNat < 2 ^ 64 :=
    h mem last (vq.availAddr, 2) (List.mem_cons_self ..)
  have hidx : mem.readU16 .user (vq.availAddr + 2) = some 0xffff := by
    unfold GuestMemory.readU16
    rw [hmem, oneRegion_getSlice htwo (by decide) (by decide)]
    decide
  have hne : ¬ ((0xffff : UInt16) = last ∨ vq.queueSize = 0) := by
    rintro (rfl | hzero)
    · have hff : (0xffff : UInt16).toNat = 65535 := by decide
      omega
    · rw [hzero] at hpos
      exact absurd hpos (by decide)
  have hring : vq.availAddr.toNat +
      (AVAIL_RING_OFFSET + (last % vq.queueSize).toUInt64 * 2).toNat < 2 ^ 64 := by
    refine h mem last (vq.availAddr, _) ?_
    unfold Virtqueue.popAdditions Virtqueue.setAvailBase
    dsimp only
    rw [hidx]
    dsimp only
    rw [if_neg hne]
    simp
  rw [slot_offset, UInt16.toNat_mod, hlast, Nat.mod_eq_of_lt (by omega)] at hring
  omega

/-- Index 65535 is read when the guest publishes it. -/
theorem desc_fits (h : ∀ mem head, ∀ s ∈ vq.chainAdditions mem head, s.Exact) :
    vq.descAddr.toNat + 16 * 65535 + 14 < 2 ^ 64 := by
  obtain ⟨off, hoff⟩ : ∃ off, off = vq.descAddr + (0xffff : UInt16).toUInt64 * DESC_LEN := ⟨_, rfl⟩
  obtain ⟨mem, hmem⟩ : ∃ mem, mem = oneRegion off 16 fun _ => 0 := ⟨_, rfl⟩
  have hall : ∀ x y : UInt64, (x, y) ∈ vq.entryAdditions mem 0xffff →
      x.toNat + y.toNat < 2 ^ 64 := by
    intro x y hs
    refine h mem 0xffff (x, y) (List.mem_flatMap.mpr ⟨0xffff, ?_, hs⟩)
    exact List.mem_cons_self ..
  unfold Virtqueue.entryAdditions at hall
  dsimp only at hall
  rw [← hoff] at hall
  have hslice : ∀ k n : UInt64, off.toNat + k.toNat < 2 ^ 64 → k.toNat + n.toNat ≤ 16 →
      0 < n.toNat → ∃ b, mem.getSlice .user (off + k) n = some b := by
    intro k n hk hin hpos
    rw [hmem]
    exact ⟨_, oneRegion_getSlice hk hin hpos⟩
  have h0 : mem.readU64 .user off ≠ none := by
    obtain ⟨b, hb⟩ := hslice 0 8 (by simpa using off.toNat_lt) (by decide) (by decide)
    rw [UInt64.add_zero] at hb
    simp [GuestMemory.readU64, hb]
  rw [if_neg h0] at hall
  have h8 : mem.readU32 .user (off + 8) ≠ none := by
    obtain ⟨b, hb⟩ := hslice 8 4 (hall off 8 (by simp)) (by decide) (by decide)
    simp [GuestMemory.readU32, hb]
  rw [if_neg h8] at hall
  have h12 : mem.readU16 .user (off + 12) ≠ none := by
    obtain ⟨b, hb⟩ := hslice 12 2 (hall off 12 (by simp)) (by decide) (by decide)
    simp [GuestMemory.readU16, hb]
  rw [if_neg h12] at hall
  have hbase : vq.descAddr.toNat + ((0xffff : UInt16).toUInt64 * DESC_LEN).toNat < 2 ^ 64 :=
    hall _ _ (List.mem_cons_self ..)
  have hlast : off.toNat + (14 : UInt64).toNat < 2 ^ 64 := hall off 14 (by simp)
  have hexact : off.toNat = vq.descAddr.toNat + 16 * (0xffff : UInt16).toNat := by
    rw [hoff, ← entry_offset]
    exact toNat_add_of_fits hbase
  have hff : (0xffff : UInt16).toNat = 65535 := by decide
  have h14 : (14 : UInt64).toNat = 14 := by decide
  omega

/-- The last element of the used ring is written when its index says so. -/
theorem used_fits (hpos : 1 ≤ vq.queueSize.toNat) (hsize : vq.queueSize.toNat ≤ 32768)
    (h : ∀ mem, ∀ s ∈ vq.pushAdditions mem, s.Exact) :
    vq.usedAddr.toNat + 4 + 8 * (vq.queueSize.toNat - 1) + 4 < 2 ^ 64 := by
  obtain ⟨last, hlast⟩ : ∃ last : UInt16, last.toNat = vq.queueSize.toNat - 1 :=
    ⟨.ofNat (vq.queueSize.toNat - 1), UInt16.toNat_ofNat_of_lt' (by show _ < 65536; omega)⟩
  obtain ⟨mem, hmem⟩ : ∃ mem, mem = oneRegion vq.usedAddr 0x100000
      (store (fun _ => 0) 2 (leBytes 2 last.toNat)) := ⟨_, rfl⟩
  have hall : ∀ x y : UInt64, (x, y) ∈ vq.pushAdditions mem → x.toNat + y.toNat < 2 ^ 64 :=
    fun x y hs => h mem (x, y) hs
  have htwo : vq.usedAddr.toNat + (2 : UInt64).toNat < 2 ^ 64 := hall _ _ (List.mem_cons_self ..)
  have hidx : mem.readU16 .user (vq.usedAddr + 2) = some last := by
    unfold GuestMemory.readU16
    rw [hmem, oneRegion_getSlice htwo (by decide) (by decide)]
    show some (UInt16.ofNat (leNat (load (store _ 2 (leBytes 2 last.toNat)) 2
      (leBytes 2 last.toNat).length))) = _
    rw [load_store, leNat_leBytes last.toNat_lt, UInt16.ofNat_toNat]
  have hmod : last % vq.queueSize = last := by
    apply UInt16.toNat_inj.mp
    rw [UInt16.toNat_mod]
    exact Nat.mod_eq_of_lt (by omega)
  unfold Virtqueue.pushAdditions at hall
  dsimp only at hall
  rw [hidx] at hall
  dsimp only at hall
  rw [hmod] at hall
  have hring : vq.usedAddr.toNat + USED_RING_OFFSET.toNat < 2 ^ 64 := hall _ _ (by simp)
  have hslot : (vq.usedAddr + USED_RING_OFFSET).toNat +
      (last.toUInt64 * USED_ELEM_LEN).toNat < 2 ^ 64 := hall _ _ (by simp)
  have hfour : USED_RING_OFFSET.toNat = 4 := by decide
  have hbase := toNat_add_of_fits hring
  have helem := toNat_add_of_fits hslot
  have hscaled := elem_offset last
  have hoffset : (USED_RING_OFFSET + last.toUInt64 * USED_ELEM_LEN).toNat = 4 + 8 * last.toNat := by
    have hsum := toNat_add_of_fits
      (show USED_RING_OFFSET.toNat + (last.toUInt64 * USED_ELEM_LEN).toNat < 2 ^ 64 by omega)
    omega
  have hmapped : mem.slicePtr .user
      (vq.usedAddr + USED_RING_OFFSET + last.toUInt64 * USED_ELEM_LEN) 4 ≠ none := by
    have hfits : (4 + 8 * last.toNat) + (4 : UInt64).toNat ≤ (0x100000 : UInt64).toNat := by
      show 4 + 8 * last.toNat + 4 ≤ 0x100000
      omega
    rw [UInt64.add_assoc, hmem, oneRegion_slicePtr (by omega) (hoffset ▸ hfits) (by decide)]
    exact Option.some_ne_none _
  rw [if_neg hmapped] at hall
  have hlen : (vq.usedAddr + USED_RING_OFFSET + last.toUInt64 * USED_ELEM_LEN).toNat +
      (4 : UInt64).toNat < 2 ^ 64 := hall _ _ (by simp)
  have h4 : (4 : UInt64).toNat = 4 := by decide
  omega

/-- Some `skip` ends just before the last byte of a segment. -/
theorem iovec_last_byte (mem : GuestMemory) {s : Segment} (hs : s ∈ segments)
    (hpos : 0 < s.2.toNat) (htotal : (segments.map fun s => s.2.toNat).sum < 2 ^ 64) :
    ∃ skip : UInt64, skip.toNat < (segments.map fun s => s.2.toNat).sum ∧
      (s.1, s.2 - 1) ∈ iovecAdditions mem segments skip 1 := by
  induction segments with
  | nil => cases hs
  | cons seg rest ih =>
    obtain ⟨addr, len⟩ := seg
    rw [List.map_cons, List.sum_cons] at *
    dsimp only at htotal ⊢
    rcases List.mem_cons.mp hs with rfl | hs
    · have hone : (len - 1).toNat = len.toNat - 1 :=
        UInt64.toNat_sub_of_le len 1 (UInt64.le_iff_toNat_le.mpr hpos)
      dsimp only at hpos
      refine ⟨len - 1, by omega, ?_⟩
      have hlt : ¬ len - 1 ≥ len := by
        rw [ge_iff_le, UInt64.le_iff_toNat_le, hone]
        omega
      unfold iovecAdditions
      rw [if_neg (by decide), if_neg hlt]
      exact List.mem_cons_self ..
    · obtain ⟨skip, hskip, hmem⟩ := ih hs (by omega)
      have hadd : (len + skip).toNat = len.toNat + skip.toNat :=
        toNat_add_of_fits (show len.toNat + skip.toNat < 2 ^ 64 by omega)
      refine ⟨len + skip, by omega, ?_⟩
      have hge : len + skip ≥ len := by
        rw [ge_iff_le, UInt64.le_iff_toNat_le, hadd]
        omega
      have hrest : len + skip - len = skip := by
        rw [UInt64.add_comm, UInt64.add_sub_cancel]
      unfold iovecAdditions
      rw [if_neg (by decide), if_pos hge, hrest]
      exact hmem

private theorem segments_fit (htotal : (segments.map fun s => s.2.toNat).sum < 2 ^ 64)
    (h : ∀ mem skip total, ∀ s ∈ iovecAdditions mem segments skip total, s.Exact) :
    SegmentsFit segments := by
  intro s hs hpos
  obtain ⟨skip, -, hmem⟩ := iovec_last_byte (oneRegion 0 0 fun _ => 0) hs hpos htotal
  have hexact : s.1.toNat + (s.2 - 1).toNat < 2 ^ 64 := h _ skip 1 _ hmem
  rw [UInt64.toNat_sub_of_le s.2 1 (UInt64.le_iff_toNat_le.mpr hpos)] at hexact
  exact hexact

end Necessary

/-- The total length of the segments of a chain. -/
theorem chain_total {segments : List Segment} (hcount : segments.length ≤ MAX_CHAIN_LEN)
    (hlens : ∀ s ∈ segments, s.2.toNat < 2 ^ 32) :
    (segments.map fun s => s.2.toNat).sum < 2 ^ 64 := by
  have hle : (segments.map fun s => s.2.toNat).sum ≤ segments.length * 2 ^ 32 := by
    have hsum := List.sum_le_card_nsmul (segments.map fun s => s.2.toNat) (2 ^ 32) (by
      intro x hx
      obtain ⟨s, hs, rfl⟩ := List.mem_map.mp hx
      exact (hlens s hs).le)
    simpa using hsum
  have hmul : segments.length * 2 ^ 32 ≤ 512 * 2 ^ 32 := Nat.mul_le_mul_right _ hcount
  omega

/-- The address arithmetic is exact for every guest exactly when the rings, a table of all
16-bit indices and the segments end in the address space. -/
theorem address_arithmetic_exact_iff (vq : Virtqueue) (segments : List Segment)
    (hpos : 1 ≤ vq.queueSize.toNat) (hsize : vq.queueSize.toNat ≤ 32768)
    (hcount : segments.length ≤ MAX_CHAIN_LEN) (hlens : ∀ s ∈ segments, s.2.toNat < 2 ^ 32) :
    NeverWraps vq segments ∧ ExactAccess vq segments ↔ RingFits vq ∧ SegmentsFit segments := by
  constructor
  · rintro ⟨hnever, -⟩
    exact ⟨⟨avail_fits hpos hsize hnever.pop, desc_fits hnever.chain,
      used_fits hpos hsize hnever.push⟩,
      segments_fit (chain_total hcount hlens) hnever.iovecs⟩
  · rintro ⟨hring, hsegs⟩
    have hbase : ∀ idx, RingFits (vq.setAvailBase idx) :=
      fun idx => ⟨hring.avail, hring.desc, hring.used⟩
    constructor
    · constructor
      · exact fun mem idx => (hbase idx).popAdditions hpos
      · intro mem head s hs
        obtain ⟨i, -, hi⟩ := List.mem_flatMap.mp hs
        exact hring.entryAdditions i s hi
      · exact fun mem => hring.pushAdditions hpos
      · exact fun mem skip total => hsegs.iovecAdditions skip total
    · constructor
      · exact fun mem idx => (hbase idx).popAvail_eq hpos mem
      · exact fun mem => entry_eq hring.desc
      · exact hring.pushUsed_eq hpos
      · exact fun mem skip total iov hiov => hsegs.iovecsFrom_inside hiov

theorem address_arithmetic_exact_page :
    NeverWraps pageQueue [(0x1800, 40)] ∧ ExactAccess pageQueue [(0x1800, 40)] := by
  refine (address_arithmetic_exact_iff pageQueue [(0x1800, 40)] (by decide) (by decide)
    (by decide) ?_).mpr ⟨⟨by decide, by decide, by decide⟩, ?_⟩
  · intro s hs
    rw [List.mem_singleton.mp hs]
    decide
  · intro s hs _
    rw [List.mem_singleton.mp hs]
    decide

/-- A queue at the end of the user addresses. -/
def topQueue : Virtqueue :=
  .new 4 0xfffffffffffffff0 0xfffffffffffffffe 0xfffffffffffffffe

/-- One region at address 0 of both spaces. -/
def bottomMemory : GuestMemory where
  regions := [⟨0, 0, 0x1000, 0x4000, 0x4000, 0x1000⟩]
  bytes := store (fun _ => 0) 0x4000 [1, 0, 5, 0]

/-- Sums that wrap to address 0 are served from there: a head, a descriptor, a used element, and
an iovec for a segment that the region does not hold. -/
theorem wrapped_accesses_served :
    (topQueue.popAvail bottomMemory = .ok (some 5, topQueue.setAvailBase 1) ∧
      popAvailExact topQueue bottomMemory = .error (.error .outOfBounds)) ∧
    (topQueue.entry bottomMemory 1 = some ⟨0x50001, 0, 0, 0⟩ ∧
      tableEntry bottomMemory topQueue.descAddr.toNat 1 = none) ∧
    (match topQueue.pushUsed 5 8 bottomMemory with
      | .ok _ mem => some (mem.bytes 0x400a)
      | .error _ _ => none) = some 5 ∧
    iovecsFrom bottomMemory [(0xfffffffffffffff0, 256)] 16 16 = .ok [(0x4000, 16)] ∧
    bottomMemory.slicePtr .gpa 0xfffffffffffffff0 256 = none ∧
    ¬ NeverWraps topQueue [] ∧ ¬ NeverWraps pageQueue [(0xfffffffffffffff0, 256)] := by
  refine ⟨⟨by decide +kernel, by decide +kernel⟩, ⟨by decide +kernel, by decide +kernel⟩,
    by decide +kernel, by decide +kernel, by decide +kernel, ?_, ?_⟩
  · intro hnever
    exact absurd (hnever.pop bottomMemory 0 _ (List.mem_cons_self ..)) (by decide)
  · intro hnever
    have hsum := hnever.iovecs bottomMemory 16 16 (0xfffffffffffffff0, 16) (by decide +kernel)
    exact absurd hsum (by decide)

end Riftlessfs.VhostUser
