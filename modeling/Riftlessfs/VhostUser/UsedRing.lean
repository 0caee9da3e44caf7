import Riftlessfs.VhostUser.ChainReply
import Riftlessfs.VhostUser.ProcessVring

/-! The words of the used ring, and what publishing an element stores in them. -/
namespace Riftlessfs.VhostUser
open Lib.Flat Lib.Effect Lib.LittleEndian Riftlessfs.Proto

section Words
variable {mem : GuestMemory} {space : AddrSpace} {addr : UInt64} {p : ℕ} {b : ℕ → UInt8}

theorem readU16_eq (h : mem.slicePtr space addr 2 = some p) :
    mem.readU16 space addr = some (.ofNat (leNat (load mem.bytes p 2))) := by
  unfold GuestMemory.readU16 GuestMemory.getSlice
  rw [h]
  rfl

private theorem readU32_eq (h : mem.slicePtr space addr 4 = some p) :
    mem.readU32 space addr = some (.ofNat (leNat (load mem.bytes p 4))) := by
  unfold GuestMemory.readU32 GuestMemory.getSlice
  rw [h]
  rfl

/-- A word where a `u16` was stored reads as that `u16`. -/
theorem readU16_word {v : UInt16} (h : mem.slicePtr space addr 2 = some p)
    (hw : load b p 2 = leBytes 2 v.toNat) :
    GuestMemory.readU16 { mem with bytes := b } space addr = some v := by
  have hp : GuestMemory.slicePtr { mem with bytes := b } space addr 2 = some p := h
  have hv : v.toNat < 256 ^ 2 := v.toNat_lt
  rw [readU16_eq hp, hw, leNat_leBytes hv, UInt16.ofNat_toNat]

/-- A word where a `u32` was stored reads as that `u32`. -/
theorem readU32_word {v : UInt32} (h : mem.slicePtr space addr 4 = some p)
    (hw : load b p 4 = leBytes 4 v.toNat) :
    GuestMemory.readU32 { mem with bytes := b } space addr = some v := by
  have hp : GuestMemory.slicePtr { mem with bytes := b } space addr 4 = some p := h
  have hv : v.toNat < 256 ^ 4 := v.toNat_lt
  rw [readU32_eq hp, hw, leNat_leBytes hv, UInt32.ofNat_toNat]

theorem inBounds_ok {α : Type} {x : GuestMemory → Option α} {a : α} {mem' : GuestMemory}
    (h : inBounds x mem = .ok a mem') : x mem = some a ∧ mem' = mem := by
  unfold inBounds at h
  cases hx : x mem with
  | none =>
    rw [hx] at h
    cases h
  | some a' =>
    rw [hx] at h
    cases h
    exact ⟨rfl, rfl⟩

theorem copyIntoSlice_ok {len : UInt64} {bs : List UInt8} {mem' : GuestMemory}
    (h : copyIntoSlice space addr len bs mem = .ok () mem') :
    ∃ p, mem.slicePtr space addr len = some p ∧ mem' = mem.poke p bs := by
  unfold copyIntoSlice at h
  obtain ⟨p, mem₁, hfound, hstore⟩ := bind_ok h
  obtain ⟨hp, hmem⟩ := inBounds_ok hfound
  rw [hmem] at hstore
  cases hstore
  exact ⟨p, hp, rfl⟩

end Words

def Virtqueue.usedElem (vq : Virtqueue) (idx : UInt16) : UInt64 :=
  vq.usedAddr + USED_RING_OFFSET + (idx % vq.queueSize).toUInt64 * USED_ELEM_LEN

theorem slot_lt {vq : Virtqueue} (hpos : vq.queueSize ≠ 0) (idx : UInt16) :
    (idx % vq.queueSize).toNat < vq.queueSize.toNat := by
  rw [UInt16.toNat_mod]
  apply Nat.mod_lt
  rw [Nat.pos_iff_ne_zero]
  intro hzero
  exact hpos (UInt16.toNat_inj.mp hzero)

/-- Where the used index and the two words of an element lie in the server's memory. -/
structure UsedCells (vq : Virtqueue) (mem : GuestMemory) (idx : UInt16) (q qid qlen : ℕ) :
    Prop where
  index : mem.slicePtr .user (vq.usedAddr + 2) 2 = some q
  id : mem.slicePtr .user (vq.usedElem idx) 4 = some qid
  length : mem.slicePtr .user (vq.usedElem idx + 4) 4 = some qlen

/-- Memory after an element and the next index are stored. -/
def usedStored (b : ℕ → UInt8) (q qid qlen : ℕ) (idx head : UInt16) (n : UInt32) : ℕ → UInt8 :=
  store (store (store b qid (leBytes 4 head.toUInt32.toNat)) qlen (leBytes 4 n.toNat)) q
    (leBytes 2 (idx + 1).toNat)

section Publish
variable {vq : Virtqueue} {mem mem' : GuestMemory} {idx head : UInt16} {n : UInt32}
  {q qid qlen : ℕ} {b : ℕ → UInt8}

/-- What `push_used` does when it succeeds. -/
theorem pushUsed_ok (h : vq.pushUsed head n mem = .ok () mem') :
    ∃ idx q qid qlen, mem.readU16 .user (vq.usedAddr + 2) = some idx ∧
      UsedCells vq mem idx q qid qlen ∧
      mem' = { mem with bytes := usedStored mem.bytes q qid qlen idx head n } := by
  unfold Virtqueue.pushUsed at h
  obtain ⟨idx, mem₀, hread, hrest⟩ := bind_ok h
  obtain ⟨hidx, hmem₀⟩ := inBounds_ok hread
  obtain ⟨_, mem₁, hputId, hrest₁⟩ := bind_ok hrest
  obtain ⟨qid, hqid, hmem₁⟩ := copyIntoSlice_ok hputId
  obtain ⟨_, mem₂, hputLen, hputIdx⟩ := bind_ok hrest₁
  obtain ⟨qlen, hqlen, hmem₂⟩ := copyIntoSlice_ok hputLen
  obtain ⟨q, hq, hmem'⟩ := copyIntoSlice_ok hputIdx
  subst hmem₀ hmem₁ hmem₂ hmem'
  exact ⟨idx, q, qid, qlen, hidx, ⟨hq, hqid, hqlen⟩, rfl⟩

/-- The three words share no byte. -/
theorem UsedCells.apart (c : UsedCells vq mem idx q qid qlen) (hh : mem.HostApart) :
    Apart qid 4 qlen 4 ∧ Apart q 2 qid 4 ∧ Apart q 2 qlen 4 := by
  have hslot : (idx % vq.queueSize).toUInt64.toNat < 2 ^ 16 := by
    rw [UInt16.toNat_toUInt64]
    exact UInt16.toNat_lt _
  have helem : (vq.usedElem idx).toNat =
      (vq.usedAddr.toNat + 4 + (idx % vq.queueSize).toUInt64.toNat * 8) % 2 ^ 64 := by
    simp [Virtqueue.usedElem, USED_RING_OFFSET, USED_ELEM_LEN, UInt64.toNat_add, UInt64.toNat_mul]
  have hnext : (vq.usedElem idx + 4).toNat = ((vq.usedElem idx).toNat + 4) % 2 ^ 64 := by
    simp [UInt64.toNat_add]
  have hindex : (vq.usedAddr + 2).toNat = (vq.usedAddr.toNat + 2) % 2 ^ 64 := by
    simp [UInt64.toNat_add]
  have hbound := vq.usedAddr.toNat_lt
  have h2 : (2 : UInt64).toNat = 2 := rfl
  have h4 : (4 : UInt64).toNat = 4 := rfl
  generalize (idx % vq.queueSize).toUInt64.toNat = slot at hslot helem
  constructor
  · apply slicePtr_apart hh c.id c.length
    unfold Apart
    omega
  constructor
  · apply slicePtr_apart hh c.index c.id
    unfold Apart
    omega
  · apply slicePtr_apart hh c.index c.length
    unfold Apart
    omega

/-- Outside the three words nothing is stored. -/
theorem usedStored_outside {x : ℕ} (hid : x < qid ∨ qid + 4 ≤ x) (hlen : x < qlen ∨ qlen + 4 ≤ x)
    (hq : x < q ∨ q + 2 ≤ x) : usedStored b q qid qlen idx head n x = b x := by
  unfold usedStored
  rw [store_outside (by rwa [leBytes_length]), store_outside (by rwa [leBytes_length]),
    store_outside (by rwa [leBytes_length])]

/-- The words read back as the head, the length and the next index. -/
theorem UsedCells.read (c : UsedCells vq mem idx q qid qlen) (hh : mem.HostApart)
    (b : ℕ → UInt8) (head : UInt16) (n : UInt32) {mem' : GuestMemory}
    (hmem : mem' = { mem with bytes := usedStored b q qid qlen idx head n }) :
    mem'.readU16 .user (vq.usedAddr + 2) = some (idx + 1) ∧
      mem'.readU32 .user (vq.usedElem idx) = some head.toUInt32 ∧
      mem'.readU32 .user (vq.usedElem idx + 4) = some n := by
  subst hmem
  obtain ⟨hwords, hindex, hindex'⟩ := c.apart hh
  unfold usedStored
  constructor
  · apply readU16_word c.index
    exact load_store _ _ (leBytes 2 (idx + 1).toNat)
  constructor
  · apply readU32_word c.id
    rw [load_store_apart (by rwa [leBytes_length]),
      load_store_apart (by rw [leBytes_length]; exact hwords.symm)]
    exact load_store _ _ (leBytes 4 head.toUInt32.toNat)
  · apply readU32_word c.length
    rw [load_store_apart (by rwa [leBytes_length])]
    exact load_store _ _ (leBytes 4 n.toNat)

end Publish

end Riftlessfs.VhostUser
