import Riftlessfs.VhostUser.BufferFrame

/-! The words of the available and the used ring, as the guest and the server see them. -/
namespace Riftlessfs.VhostUser
open Lib.Flat Lib.Effect Lib.LittleEndian Riftlessfs.Proto Riftlessfs.Fuse

/-- The two rings lie apart, neither beyond the end of the address space. -/
structure Virtqueue.RingsApart (vq : Virtqueue) : Prop where
  avail : vq.availAddr.toNat + (4 + 2 * vq.queueSize.toNat) ≤ 2 ^ 64
  used : vq.usedAddr.toNat + (4 + 8 * vq.queueSize.toNat) ≤ 2 ^ 64
  apart : vq.availAddr.toNat + (4 + 2 * vq.queueSize.toNat) ≤ vq.usedAddr.toNat ∨
    vq.usedAddr.toNat + (4 + 8 * vq.queueSize.toNat) ≤ vq.availAddr.toNat

/-- `len` bytes at `addr` belong to the available or the used ring. -/
def Virtqueue.InRings (vq : Virtqueue) (addr len : UInt64) : Prop := ∃ o : UInt64,
  addr = vq.availAddr + o ∧ o.toNat + len.toNat ≤ 4 + 2 * vq.queueSize.toNat ∨
    addr = vq.usedAddr + o ∧ o.toNat + len.toNat ≤ 4 + 8 * vq.queueSize.toNat

/-- The `n` bytes at `p` of the server's memory belong to neither ring. -/
def ClearOfRings (mem : GuestMemory) (vq : Virtqueue) (p n : ℕ) : Prop :=
  ∀ addr len q, vq.InRings addr len → mem.slicePtr .user addr len = some q → Apart p n q len.toNat

/-- The words that guest and server exchange. -/
inductive Word where
  | availIdx
  | avail (slot : ℕ)
  | usedIdx
  | usedId (slot : ℕ)
  | usedLen (slot : ℕ)
  deriving DecidableEq, Repr

def Word.len : Word → UInt64
  | .availIdx | .avail _ | .usedIdx => 2
  | .usedId _ | .usedLen _ => 4

/-- The slot, if any, is one of the ring. -/
def Word.Fits (q : ℕ) : Word → Prop
  | .availIdx | .usedIdx => True
  | .avail slot | .usedId slot | .usedLen slot => slot < q

def Virtqueue.wordAddr (vq : Virtqueue) : Word → UInt64
  | .availIdx => vq.availAddr + 2
  | .avail slot => vq.availSlot (.ofNat slot)
  | .usedIdx => vq.usedAddr + 2
  | .usedId slot => vq.usedElem (.ofNat slot)
  | .usedLen slot => vq.usedElem (.ofNat slot) + 4

/-- The distance of a word from the start of its ring. -/
def Word.offset : Word → ℕ
  | .availIdx | .usedIdx => 2
  | .avail slot => 4 + slot * 2
  | .usedId slot => 4 + slot * 8
  | .usedLen slot => 4 + slot * 8 + 4

def Virtqueue.ringAddr (vq : Virtqueue) : Word → UInt64
  | .availIdx | .avail _ => vq.availAddr
  | .usedIdx | .usedId _ | .usedLen _ => vq.usedAddr

section Words
variable {vq : Virtqueue} {w w' : Word} {mem mem' : GuestMemory}

theorem Word.offset_le (hw : w.Fits vq.queueSize.toNat) :
    w.offset + w.len.toNat ≤ 4 + 8 * vq.queueSize.toNat := by
  have h2 : (2 : UInt64).toNat = 2 := rfl
  have h4 : (4 : UInt64).toNat = 4 := rfl
  cases w <;> simp only [Word.Fits, Word.offset, Word.len] at hw ⊢ <;> omega

/-- A word lies at its offset. -/
theorem wordAddr_eq (hw : w.Fits vq.queueSize.toNat) :
    vq.wordAddr w = vq.ringAddr w + .ofNat w.offset := by
  have hsize := vq.queueSize.toNat_lt
  have hslot : ∀ j, j < vq.queueSize.toNat →
      (UInt16.ofNat j % vq.queueSize).toUInt64 = .ofNat j := by
    intro j hj
    have hof : (UInt16.ofNat j).toNat = j := UInt16.toNat_ofNat_of_lt' (lt_trans hj hsize)
    rw [← UInt64.toNat_inj, UInt16.toNat_toUInt64, UInt16.toNat_mod, hof, Nat.mod_eq_of_lt hj]
    exact (UInt64.toNat_ofNat_of_lt' (lt_trans (lt_trans hj hsize) (by decide))).symm
  cases w with
  | availIdx => rfl
  | usedIdx => rfl
  | avail j =>
    unfold Virtqueue.wordAddr Virtqueue.availSlot
    simp only [hslot j hw]
    rw [Word.offset, UInt64.ofNat_add, UInt64.ofNat_mul]
    rfl
  | usedId j =>
    unfold Virtqueue.wordAddr Virtqueue.usedElem
    simp only [hslot j hw]
    rw [Word.offset, UInt64.ofNat_add, UInt64.ofNat_mul, UInt64.add_assoc]
    rfl
  | usedLen j =>
    unfold Virtqueue.wordAddr Virtqueue.usedElem
    simp only [hslot j hw]
    rw [Word.offset, UInt64.ofNat_add, UInt64.ofNat_add, UInt64.ofNat_mul]
    simp only [UInt64.add_assoc]
    rfl

theorem wordAddr_toNat (hr : vq.RingsApart) (hw : w.Fits vq.queueSize.toNat) :
    (vq.wordAddr w).toNat = (vq.ringAddr w).toNat + w.offset := by
  have hsize := vq.queueSize.toNat_lt
  have hoff := Word.offset_le hw
  have hof : (UInt64.ofNat w.offset).toNat = w.offset :=
    UInt64.toNat_ofNat_of_lt' (lt_of_le_of_lt (by omega : w.offset ≤ 4 + 8 * 2 ^ 16) (by decide))
  rw [wordAddr_eq hw, UInt64.toNat_add, hof]
  apply Nat.mod_eq_of_lt
  have havail := hr.avail
  have hused := hr.used
  cases w <;> simp only [Word.Fits, Word.offset, Virtqueue.ringAddr] at hw ⊢ <;> omega

theorem Word.inRings (hw : w.Fits vq.queueSize.toNat) : vq.InRings (vq.wordAddr w) w.len := by
  have hsize := vq.queueSize.toNat_lt
  have hoff := Word.offset_le hw
  have hof : (UInt64.ofNat w.offset).toNat = w.offset :=
    UInt64.toNat_ofNat_of_lt' (lt_of_le_of_lt (by omega : w.offset ≤ 4 + 8 * 2 ^ 16) (by decide))
  refine ⟨.ofNat w.offset, ?_⟩
  rw [hof, wordAddr_eq hw]
  have h2 : (2 : UInt64).toNat = 2 := rfl
  have h4 : (4 : UInt64).toNat = 4 := rfl
  cases w with
  | availIdx => exact Or.inl ⟨rfl, by simp only [Word.offset, Word.len]; omega⟩
  | avail j =>
    refine Or.inl ⟨rfl, ?_⟩
    simp only [Word.Fits, Word.offset, Word.len] at hw ⊢
    omega
  | usedIdx => exact Or.inr ⟨rfl, hoff⟩
  | usedId j => exact Or.inr ⟨rfl, hoff⟩
  | usedLen j => exact Or.inr ⟨rfl, hoff⟩

/-- Different words share no byte. -/
theorem words_apart (hr : vq.RingsApart) (hw : w.Fits vq.queueSize.toNat)
    (hw' : w'.Fits vq.queueSize.toNat) (hne : w ≠ w') :
    Apart (vq.wordAddr w).toNat w.len.toNat (vq.wordAddr w').toNat w'.len.toNat := by
  rw [wordAddr_toNat hr hw, wordAddr_toNat hr hw']
  have h2 : (2 : UInt64).toNat = 2 := rfl
  have h4 : (4 : UInt64).toNat = 4 := rfl
  have hapart := hr.apart
  unfold Apart
  cases w <;> cases w' <;>
    simp only [Word.Fits, Word.offset, Word.len, Virtqueue.ringAddr, ne_eq, Word.avail.injEq,
      Word.usedId.injEq, Word.usedLen.injEq, not_true_eq_false] at hw hw' hne ⊢ <;> omega

def Virtqueue.word (vq : Virtqueue) (mem : GuestMemory) (w : Word) : Option Bytes :=
  mem.getSlice .user (vq.wordAddr w) w.len

/-- A word depends only on its own bytes. -/
theorem word_congr (hr : mem'.regions = mem.regions)
    (hb : ∀ q, mem.slicePtr .user (vq.wordAddr w) w.len = some q →
      load mem'.bytes q w.len.toNat = load mem.bytes q w.len.toNat) :
    vq.word mem' w = vq.word mem w := by
  unfold Virtqueue.word GuestMemory.getSlice
  rw [slicePtr_regions hr]
  cases hq : mem.slicePtr .user (vq.wordAddr w) w.len with
  | none => rfl
  | some q =>
    show some (load mem'.bytes q w.len.toNat) = some (load mem.bytes q w.len.toNat)
    rw [hb q hq]

/-- What is stored in a word is read from it, and no other word changes. -/
theorem word_stored {bs : Bytes} (hh : mem.HostApart) (hr : vq.RingsApart)
    (hw : w.Fits vq.queueSize.toNat) (hlen : bs.length = w.len.toNat)
    (h : copyIntoSlice .user (vq.wordAddr w) w.len bs mem = .ok () mem') :
    mem'.regions = mem.regions ∧ vq.word mem' w = some bs ∧
      ∀ w', w'.Fits vq.queueSize.toNat → w' ≠ w → vq.word mem' w' = vq.word mem w' := by
  obtain ⟨p, hp, rfl⟩ := copyIntoSlice_ok h
  refine ⟨rfl, ?_, ?_⟩
  · have hp' : (mem.poke p bs).slicePtr .user (vq.wordAddr w) w.len = some p := hp
    unfold Virtqueue.word GuestMemory.getSlice
    rw [hp']
    show some (load (store mem.bytes p bs) p w.len.toNat) = some bs
    rw [← hlen, load_store]
  · intro w' hw' hne
    have hregions : (mem.poke p bs).regions = mem.regions := rfl
    apply word_congr hregions
    intro q hq
    apply load_store_apart
    rw [hlen]
    exact slicePtr_apart hh hp hq (words_apart hr hw hw' hne.symm)

/-- Stores clear of the rings leave every word alone. -/
theorem word_kept {touched : ℕ → Prop} (h : SameBeyond touched mem mem')
    (hclear : ∀ x, touched x → ClearOfRings mem vq x 1) (hw : w.Fits vq.queueSize.toNat) :
    vq.word mem' w = vq.word mem w := by
  apply word_congr h.regions
  intro q hq
  unfold load
  apply List.map_congr_left
  intro i hi
  have hlt := List.mem_range.mp hi
  apply h.bytes
  intro htouched
  have hapart := hclear _ htouched _ _ q (Word.inRings hw) hq
  unfold Apart at hapart
  omega

end Words

/-- The rings as guest and server see them. -/
@[ext]
structure RingView where
  availIdx : Option UInt16
  avail : ℕ → Option UInt16
  usedIdx : Option UInt16
  used : ℕ → Option UInt32

def viewOf (q : ℕ) (word : Word → Option Bytes) : RingView where
  availIdx := (word .availIdx).map fun s => .ofNat (leNat s)
  avail j := if j < q then (word (.avail j)).map fun s => .ofNat (leNat s) else none
  usedIdx := (word .usedIdx).map fun s => .ofNat (leNat s)
  used j := if j < q then (word (.usedId j)).map fun s => .ofNat (leNat s) else none

def Virtqueue.view (vq : Virtqueue) (mem : GuestMemory) : RingView :=
  viewOf vq.queueSize.toNat (vq.word mem)

section Views
variable {vq : Virtqueue} {w : Word} {mem mem' : GuestMemory} {idx head : UInt16}

theorem viewOf_congr {q : ℕ} {word word' : Word → Option Bytes}
    (h : ∀ w : Word, w.Fits q → word w = word' w) : viewOf q word = viewOf q word' := by
  unfold viewOf
  congr 1
  · rw [h .availIdx trivial]
  · funext j
    split_ifs with hj
    · rw [h (.avail j) hj]
    · rfl
  · rw [h .usedIdx trivial]
  · funext j
    split_ifs with hj
    · rw [h (.usedId j) hj]
    · rfl

section Update
variable (q : ℕ) (word : Word → Option Bytes) (bs : Bytes)

private theorem viewOf_availIdx : viewOf q (Function.update word .availIdx (some bs)) =
    { viewOf q word with availIdx := some (.ofNat (leNat bs)) } := by
  simp [viewOf, Function.update]

private theorem viewOf_usedIdx : viewOf q (Function.update word .usedIdx (some bs)) =
    { viewOf q word with usedIdx := some (.ofNat (leNat bs)) } := by
  simp [viewOf, Function.update]

private theorem viewOf_usedLen (j : ℕ) :
    viewOf q (Function.update word (.usedLen j) (some bs)) = viewOf q word := by
  simp [viewOf, Function.update]

private theorem viewOf_avail {j : ℕ} (hj : j < q) :
    viewOf q (Function.update word (.avail j) (some bs)) =
      { viewOf q word with
        avail := Function.update (viewOf q word).avail j (some (.ofNat (leNat bs))) } := by
  apply RingView.ext
  · simp [viewOf]
  · funext k
    by_cases hk : k = j
    · subst hk
      simp [viewOf, hj]
    · simp [viewOf, Function.update, hk]
  · simp [viewOf]
  · simp [viewOf]

private theorem viewOf_usedId {j : ℕ} (hj : j < q) :
    viewOf q (Function.update word (.usedId j) (some bs)) =
      { viewOf q word with
        used := Function.update (viewOf q word).used j (some (.ofNat (leNat bs))) } := by
  apply RingView.ext
  · simp [viewOf]
  · simp [viewOf]
  · simp [viewOf]
  · funext k
    by_cases hk : k = j
    · subst hk
      simp [viewOf, hj]
    · simp [viewOf, Function.update, hk]

end Update

/-- A store in one word updates the view at that word. -/
theorem view_stored {bs : Bytes} (hh : mem.HostApart) (hr : vq.RingsApart)
    (hw : w.Fits vq.queueSize.toNat) (hlen : bs.length = w.len.toNat)
    (h : copyIntoSlice .user (vq.wordAddr w) w.len bs mem = .ok () mem') :
    mem'.regions = mem.regions ∧
      vq.view mem' = viewOf vq.queueSize.toNat (Function.update (vq.word mem) w (some bs)) := by
  obtain ⟨hregions, hsame, hother⟩ := word_stored hh hr hw hlen h
  refine ⟨hregions, viewOf_congr ?_⟩
  intro w' hw'
  by_cases heq : w' = w
  · subst heq
    rw [Function.update_self, hsame]
  · rw [Function.update_of_ne heq, hother w' hw' heq]

theorem mod_slot (vq : Virtqueue) (idx : UInt16) :
    UInt16.ofNat (idx % vq.queueSize).toNat % vq.queueSize = idx % vq.queueSize := by
  rw [UInt16.ofNat_toNat, ← UInt16.toNat_inj, UInt16.toNat_mod, UInt16.toNat_mod, Nat.mod_mod]

theorem wordAddr_avail (vq : Virtqueue) (idx : UInt16) :
    vq.wordAddr (.avail (idx % vq.queueSize).toNat) = vq.availSlot idx := by
  unfold Virtqueue.wordAddr Virtqueue.availSlot
  simp only [mod_slot]

theorem wordAddr_usedId (vq : Virtqueue) (idx : UInt16) :
    vq.wordAddr (.usedId (idx % vq.queueSize).toNat) = vq.usedElem idx := by
  unfold Virtqueue.wordAddr Virtqueue.usedElem
  simp only [mod_slot]

theorem wordAddr_usedLen (vq : Virtqueue) (idx : UInt16) :
    vq.wordAddr (.usedLen (idx % vq.queueSize).toNat) = vq.usedElem idx + 4 := by
  unfold Virtqueue.wordAddr Virtqueue.usedElem
  simp only [mod_slot]

theorem view_avail (hpos : vq.queueSize ≠ 0) (idx : UInt16) :
    (vq.view mem).avail (idx % vq.queueSize).toNat = mem.readU16 .user (vq.availSlot idx) := by
  unfold Virtqueue.view viewOf Virtqueue.word
  simp only [wordAddr_avail]
  rw [if_pos (slot_lt hpos idx)]
  rfl

theorem view_used (hpos : vq.queueSize ≠ 0) (idx : UInt16) :
    (vq.view mem).used (idx % vq.queueSize).toNat = mem.readU32 .user (vq.usedElem idx) := by
  unfold Virtqueue.view viewOf Virtqueue.word
  simp only [wordAddr_usedId]
  rw [if_pos (slot_lt hpos idx)]
  rfl

theorem view_kept {touched : ℕ → Prop} (h : SameBeyond touched mem mem')
    (hclear : ∀ x, touched x → ClearOfRings mem vq x 1) : vq.view mem' = vq.view mem :=
  viewOf_congr fun _ hw => word_kept h hclear hw

theorem u16_leBytes (v : UInt16) : UInt16.ofNat (leNat (leBytes 2 v.toNat)) = v := by
  have hv : v.toNat < 256 ^ 2 := v.toNat_lt
  rw [leNat_leBytes hv, UInt16.ofNat_toNat]

theorem u32_leBytes (v : UInt32) : UInt32.ofNat (leNat (leBytes 4 v.toNat)) = v := by
  have hv : v.toNat < 256 ^ 4 := v.toNat_lt
  rw [leNat_leBytes hv, UInt32.ofNat_toNat]

/-- The guest writes a slot of the available ring. -/
theorem view_offered (hh : mem.HostApart) (hr : vq.RingsApart) (hpos : vq.queueSize ≠ 0)
    (h : writeU16 .user (vq.availSlot idx) head mem = .ok () mem') :
    mem'.regions = mem.regions ∧ vq.view mem' = { vq.view mem with
      avail := Function.update (vq.view mem).avail (idx % vq.queueSize).toNat (some head) } := by
  have hfits : Word.Fits vq.queueSize.toNat (.avail (idx % vq.queueSize).toNat) := slot_lt hpos idx
  unfold writeU16 at h
  rw [← wordAddr_avail] at h
  obtain ⟨hregions, hview⟩ := view_stored hh hr hfits (leBytes_length 2 head.toNat) h
  rw [viewOf_avail _ _ _ hfits, u16_leBytes] at hview
  exact ⟨hregions, hview⟩

/-- The guest writes the index of the available ring. -/
theorem view_published (hh : mem.HostApart) (hr : vq.RingsApart)
    (h : writeU16 .user (vq.availAddr + 2) idx mem = .ok () mem') :
    mem'.regions = mem.regions ∧ vq.view mem' = { vq.view mem with availIdx := some idx } := by
  have hfits : Word.Fits vq.queueSize.toNat .availIdx := trivial
  obtain ⟨hregions, hview⟩ := view_stored hh hr hfits (leBytes_length 2 idx.toNat) h
  rw [viewOf_availIdx, u16_leBytes] at hview
  exact ⟨hregions, hview⟩

/-- `push_used` stores the head in the next element and moves the index. -/
theorem view_pushed {n : UInt32} (hh : mem.HostApart) (hr : vq.RingsApart)
    (hpos : vq.queueSize ≠ 0) (h : vq.pushUsed head n mem = .ok () mem') :
    ∃ idx, (vq.view mem).usedIdx = some idx ∧ mem'.regions = mem.regions ∧
      vq.view mem' = { vq.view mem with
        usedIdx := some (idx + 1)
        used := Function.update (vq.view mem).used (idx % vq.queueSize).toNat
          (some head.toUInt32) } := by
  unfold Virtqueue.pushUsed at h
  obtain ⟨idx, mem₀, hread, hrest⟩ := bind_ok h
  obtain ⟨hidx, rfl⟩ := inBounds_ok hread
  obtain ⟨_, mem₁, hputId, hrest₁⟩ := bind_ok hrest
  obtain ⟨_, mem₂, hputLen, hputIdx⟩ := bind_ok hrest₁
  have hid : Word.Fits vq.queueSize.toNat (.usedId (idx % vq.queueSize).toNat) := slot_lt hpos idx
  have hlen : Word.Fits vq.queueSize.toNat (.usedLen (idx % vq.queueSize).toNat) := slot_lt hpos idx
  have hindex : Word.Fits vq.queueSize.toNat .usedIdx := trivial
  have hputId' : copyIntoSlice .user (vq.wordAddr (.usedId (idx % vq.queueSize).toNat)) 4
      (leBytes 4 head.toUInt32.toNat) mem₀ = .ok () mem₁ := by
    rw [wordAddr_usedId]
    exact hputId
  have hputLen' : copyIntoSlice .user (vq.wordAddr (.usedLen (idx % vq.queueSize).toNat)) 4
      (leBytes 4 n.toNat) mem₁ = .ok () mem₂ := by
    rw [wordAddr_usedLen]
    exact hputLen
  obtain ⟨hregions₁, hview₁⟩ := view_stored hh hr hid (leBytes_length 4 _) hputId'
  have hh₁ : mem₁.HostApart := by
    unfold GuestMemory.HostApart
    rw [hregions₁]
    exact hh
  obtain ⟨hregions₂, hview₂⟩ := view_stored hh₁ hr hlen (leBytes_length 4 _) hputLen'
  have hh₂ : mem₂.HostApart := by
    unfold GuestMemory.HostApart
    rw [hregions₂]
    exact hh₁
  obtain ⟨hregions₃, hview₃⟩ := view_stored hh₂ hr hindex (leBytes_length 2 (idx + 1).toNat) hputIdx
  rw [viewOf_usedId _ _ _ hid, u32_leBytes] at hview₁
  rw [viewOf_usedLen] at hview₂
  rw [viewOf_usedIdx, u16_leBytes] at hview₃
  refine ⟨idx, hidx, by rw [hregions₃, hregions₂, hregions₁], ?_⟩
  rw [hview₃]
  show { vq.view mem₂ with usedIdx := some (idx + 1) } = _
  rw [hview₂]
  show { vq.view mem₁ with usedIdx := some (idx + 1) } = _
  rw [hview₁]
  rfl

end Views

end Riftlessfs.VhostUser
