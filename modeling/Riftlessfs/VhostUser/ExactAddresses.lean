import Riftlessfs.VhostUser.Mapping
import Riftlessfs.VhostUser.TableBounds

/-! The additions of the address arithmetic, against the same accesses in exact arithmetic. -/
namespace Riftlessfs.VhostUser
open Lib.Flat Lib.LittleEndian Riftlessfs.Proto

/-- An addition of two 64-bit numbers, by its operands. -/
abbrev Addition := UInt64 × UInt64

/-- Its sum does not wrap. -/
def Addition.Exact (s : Addition) : Prop := s.1.toNat + s.2.toNat < 2 ^ 64

instance (s : Addition) : Decidable s.Exact := inferInstanceAs (Decidable (_ < _))

namespace Virtqueue

def popAdditions (vq : Virtqueue) (mem : GuestMemory) : List Addition :=
  (vq.availAddr, 2) ::
    match mem.readU16 .user (vq.availAddr + 2) with
    | none => []
    | some availIdx =>
      if availIdx = vq.lastAvailIdx ∨ vq.queueSize = 0 then []
      else
        let slot := vq.lastAvailIdx % vq.queueSize
        [(AVAIL_RING_OFFSET, slot.toUInt64 * 2),
          (vq.availAddr, AVAIL_RING_OFFSET + slot.toUInt64 * 2)]

def entryAdditions (vq : Virtqueue) (mem : GuestMemory) (i : UInt16) : List Addition :=
  let descOff := vq.descAddr + i.toUInt64 * DESC_LEN
  (vq.descAddr, i.toUInt64 * DESC_LEN) ::
    if mem.readU64 .user descOff = none then []
    else (descOff, 8) ::
      if mem.readU32 .user (descOff + 8) = none then []
      else (descOff, 12) ::
        if mem.readU16 .user (descOff + 12) = none then [] else [(descOff, 14)]

def chainAdditions (vq : Virtqueue) (mem : GuestMemory) (head : UInt16) : List Addition :=
  (vq.reached mem MAX_CHAIN_LEN head).flatMap (vq.entryAdditions mem)

def pushAdditions (vq : Virtqueue) (mem : GuestMemory) : List Addition :=
  (vq.usedAddr, 2) ::
    match mem.readU16 .user (vq.usedAddr + 2) with
    | none => []
    | some usedIdx =>
      let slot := usedIdx % vq.queueSize
      let elemOff := vq.usedAddr + USED_RING_OFFSET + slot.toUInt64 * USED_ELEM_LEN
      (vq.usedAddr, USED_RING_OFFSET) ::
        (vq.usedAddr + USED_RING_OFFSET, slot.toUInt64 * USED_ELEM_LEN) ::
        if mem.slicePtr .user elemOff 4 = none then []
        else (elemOff, 4) ::
          if mem.slicePtr .user (elemOff + 4) 4 = none then [] else [(vq.usedAddr, 2)]

end Virtqueue

def iovecAdditions (mem : GuestMemory) : List Segment → UInt64 → UInt64 → List Addition
  | [], _, _ => []
  | (addr, len) :: rest, skip, remaining =>
    if remaining = 0 then []
    else if skip ≥ len then iovecAdditions mem rest (skip - len) remaining
    else
      let segLen := min (len - skip) remaining
      (addr, skip) ::
        if mem.slicePtr .gpa (addr + skip) segLen = none then []
        else iovecAdditions mem rest 0 (remaining - segLen)

/-- None of these additions wraps, whatever the guest writes and wherever the server is in the
rings. -/
structure NeverWraps (vq : Virtqueue) (segments : List Segment) : Prop where
  pop : ∀ mem idx, ∀ s ∈ (vq.setAvailBase idx).popAdditions mem, s.Exact
  chain : ∀ mem head, ∀ s ∈ vq.chainAdditions mem head, s.Exact
  push : ∀ mem, ∀ s ∈ vq.pushAdditions mem, s.Exact
  iovecs : ∀ mem skip total, ∀ s ∈ iovecAdditions mem segments skip total, s.Exact

/-- `f` on the address `a`, which is out of bounds when 64 bits do not hold it. -/
def exactly {α : Type} (a : ℕ) (f : UInt64 → MemM α) : MemM α :=
  match exactAddr a with
  | some addr => f addr
  | none => throw .outOfBounds

def popAvailExact (vq : Virtqueue) (mem : GuestMemory) :
    Except Virtqueue.PopStop (Option UInt16 × Virtqueue) :=
  match (exactAddr (vq.availAddr.toNat + 2)).bind (mem.readU16 .user) with
  | none => .error (.error .outOfBounds)
  | some availIdx =>
    if availIdx = vq.lastAvailIdx then .ok (none, vq)
    else if vq.queueSize = 0 then .error .panic
    else
      let slot := vq.lastAvailIdx.toNat % vq.queueSize.toNat
      match (exactAddr (vq.availAddr.toNat + 4 + 2 * slot)).bind (mem.readU16 .user) with
      | none => .error (.error .outOfBounds)
      | some head => .ok (some head, vq.setAvailBase (vq.lastAvailIdx + 1))

def pushUsedExact (vq : Virtqueue) (head : UInt16) (writtenLen : UInt32) : MemM Unit := do
  let usedIdx ← exactly (vq.usedAddr.toNat + 2) fun addr =>
    inBounds fun mem => mem.readU16 .user addr
  let elem := vq.usedAddr.toNat + 4 + 8 * (usedIdx.toNat % vq.queueSize.toNat)
  exactly elem fun addr => writeU32 .user addr head.toUInt32
  exactly (elem + 4) fun addr => writeU32 .user addr writtenLen
  exactly (vq.usedAddr.toNat + 2) fun addr => writeU16 .user addr (usedIdx + 1)

/-- Every access is at base plus offset in exact arithmetic or out of bounds, and an iovec is
inside the segment it comes from. -/
structure ExactAccess (vq : Virtqueue) (segments : List Segment) : Prop where
  pop : ∀ mem idx, (vq.setAvailBase idx).popAvail mem = popAvailExact (vq.setAvailBase idx) mem
  chain : ∀ mem, vq.entry mem = tableEntry mem vq.descAddr.toNat
  push : ∀ head writtenLen, vq.pushUsed head writtenLen = pushUsedExact vq head writtenLen
  iovecs : ∀ mem skip total iov, iovecsFrom mem segments skip total = .ok iov →
    ∀ v ∈ iov, ∃ s ∈ segments, ∃ start : UInt64, s.1.toNat ≤ start.toNat ∧
      start.toNat + v.2 ≤ s.1.toNat + s.2.toNat ∧ mem.slicePtr .gpa start (.ofNat v.2) = some v.1

/-- The rings end in the address space, and so would a table of all 16-bit indices. -/
structure RingFits (vq : Virtqueue) : Prop where
  avail : vq.availAddr.toNat + 4 + 2 * (vq.queueSize.toNat - 1) < 2 ^ 64
  desc : vq.descAddr.toNat + 16 * 65535 + 14 < 2 ^ 64
  used : vq.usedAddr.toNat + 4 + 8 * (vq.queueSize.toNat - 1) + 4 < 2 ^ 64

/-- The last byte of each segment has an address. -/
def SegmentsFit (segments : List Segment) : Prop :=
  ∀ s ∈ segments, 0 < s.2.toNat → s.1.toNat + (s.2.toNat - 1) < 2 ^ 64

section Fits
variable {vq : Virtqueue} {mem : GuestMemory} {segments : List Segment}

theorem slot_double (slot : UInt16) : (slot.toUInt64 * 2).toNat = 2 * slot.toNat :=
  scaled_toNat slot (by decide)

theorem slot_offset (slot : UInt16) :
    (AVAIL_RING_OFFSET + slot.toUInt64 * 2).toNat = 4 + 2 * slot.toNat := by
  have := slot.toNat_lt
  rw [UInt64.toNat_add, slot_double]
  show (4 + 2 * slot.toNat) % 2 ^ 64 = _
  omega

theorem elem_offset (slot : UInt16) : (slot.toUInt64 * USED_ELEM_LEN).toNat = 8 * slot.toNat :=
  scaled_toNat slot (by decide)

theorem entry_offset (i : UInt16) : (i.toUInt64 * DESC_LEN).toNat = 16 * i.toNat :=
  scaled_toNat i (by decide)

theorem slot_le (idx : UInt16) (hpos : 1 ≤ vq.queueSize.toNat) :
    (idx % vq.queueSize).toNat ≤ vq.queueSize.toNat - 1 := by
  rw [UInt16.toNat_mod]
  have := Nat.mod_lt idx.toNat hpos
  omega

theorem RingFits.popAdditions (h : RingFits vq) (hpos : 1 ≤ vq.queueSize.toNat) :
    ∀ s ∈ vq.popAdditions mem, s.Exact := by
  have havail := h.avail
  have hslot := slot_le vq.lastAvailIdx hpos
  have htwo : Addition.Exact (vq.availAddr, 2) := by
    show vq.availAddr.toNat + 2 < _
    omega
  unfold Virtqueue.popAdditions
  rw [List.forall_mem_cons]
  refine ⟨htwo, ?_⟩
  cases mem.readU16 .user (vq.availAddr + 2) with
  | none => simp
  | some availIdx =>
    dsimp only
    split_ifs with hstop
    · simp
    · rw [List.forall_mem_cons, List.forall_mem_singleton]
      constructor
      · show 4 + ((vq.lastAvailIdx % vq.queueSize).toUInt64 * 2).toNat < _
        rw [slot_double]
        omega
      · show vq.availAddr.toNat + (AVAIL_RING_OFFSET + _).toNat < _
        rw [slot_offset]
        omega

theorem RingFits.entryAdditions (h : RingFits vq) (i : UInt16) :
    ∀ s ∈ vq.entryAdditions mem i, s.Exact := by
  have hdesc := h.desc
  have hi := i.toNat_lt
  have hbase : vq.descAddr.toNat + (i.toUInt64 * DESC_LEN).toNat < 2 ^ 64 := by
    rw [entry_offset]
    omega
  have hfield : ∀ k : UInt64, k.toNat ≤ 14 →
      Addition.Exact (vq.descAddr + i.toUInt64 * DESC_LEN, k) := by
    intro k hk
    show (vq.descAddr + i.toUInt64 * DESC_LEN).toNat + k.toNat < _
    rw [toNat_add_of_fits hbase, entry_offset]
    omega
  unfold Virtqueue.entryAdditions
  dsimp only
  rw [List.forall_mem_cons]
  refine ⟨hbase, ?_⟩
  split_ifs
  · simp
  · simpa using hfield 8 (by decide)
  · simpa using ⟨hfield 8 (by decide), hfield 12 (by decide)⟩
  · simpa using ⟨hfield 8 (by decide), hfield 12 (by decide), hfield 14 (by decide)⟩

theorem RingFits.pushAdditions (h : RingFits vq) (hpos : 1 ≤ vq.queueSize.toNat) :
    ∀ s ∈ vq.pushAdditions mem, s.Exact := by
  have hused := h.used
  have htwo : Addition.Exact (vq.usedAddr, 2) := by
    show vq.usedAddr.toNat + 2 < _
    omega
  have hring : vq.usedAddr.toNat + USED_RING_OFFSET.toNat < 2 ^ 64 := by
    show vq.usedAddr.toNat + 4 < _
    omega
  unfold Virtqueue.pushAdditions
  rw [List.forall_mem_cons]
  refine ⟨htwo, ?_⟩
  cases mem.readU16 .user (vq.usedAddr + 2) with
  | none => simp
  | some usedIdx =>
    have hslot := slot_le usedIdx hpos
    have hbase : (vq.usedAddr + USED_RING_OFFSET).toNat = vq.usedAddr.toNat + 4 := toNat_add_of_fits hring
    have helem : (vq.usedAddr + USED_RING_OFFSET).toNat +
        ((usedIdx % vq.queueSize).toUInt64 * USED_ELEM_LEN).toNat < 2 ^ 64 := by
      rw [hbase, elem_offset]
      omega
    have hlen : Addition.Exact (vq.usedAddr + USED_RING_OFFSET +
        (usedIdx % vq.queueSize).toUInt64 * USED_ELEM_LEN, 4) := by
      show (vq.usedAddr + USED_RING_OFFSET + _).toNat + 4 < _
      rw [toNat_add_of_fits helem, hbase, elem_offset]
      omega
    dsimp only
    rw [List.forall_mem_cons, List.forall_mem_cons]
    refine ⟨hring, helem, ?_⟩
    split_ifs
    · simp
    · simpa using hlen
    · simpa using ⟨hlen, htwo⟩

theorem SegmentsFit.iovecAdditions (h : SegmentsFit segments) (skip total : UInt64) :
    ∀ s ∈ iovecAdditions mem segments skip total, s.Exact := by
  induction segments generalizing skip total with
  | nil => simp [VhostUser.iovecAdditions]
  | cons seg rest ih =>
    obtain ⟨addr, len⟩ := seg
    obtain ⟨hseg, hrest⟩ := List.forall_mem_cons.mp h
    unfold VhostUser.iovecAdditions
    split_ifs with hzero hskip
    · simp
    · exact ih hrest _ _
    · have hlt : skip.toNat < len.toNat := UInt64.not_le.mp hskip
      have hsum : Addition.Exact (addr, skip) := by
        have hend := hseg (Nat.zero_lt_of_lt hlt)
        show addr.toNat + skip.toNat < _
        dsimp only at hend
        omega
      dsimp only
      rw [List.forall_mem_cons]
      refine ⟨hsum, ?_⟩
      split_ifs
      · simp
      · exact ih hrest _ _

end Fits

section Accesses
variable {vq : Virtqueue} {segments : List Segment}

theorem RingFits.popAvail_eq (h : RingFits vq) (hpos : 1 ≤ vq.queueSize.toNat)
    (mem : GuestMemory) : vq.popAvail mem = popAvailExact vq mem := by
  have havail := h.avail
  have hslot := slot_le vq.lastAvailIdx hpos
  have hidx : exactAddr (vq.availAddr.toNat + 2) = some (vq.availAddr + 2) :=
    exactAddr_add (y := 2) (show vq.availAddr.toNat + 2 < _ by omega)
  have hring : exactAddr (vq.availAddr.toNat + 4 +
      2 * (vq.lastAvailIdx.toNat % vq.queueSize.toNat)) =
      some (vq.availAddr + (AVAIL_RING_OFFSET +
        (vq.lastAvailIdx % vq.queueSize).toUInt64 * 2)) := by
    rw [add_assoc, ← UInt16.toNat_mod, ← slot_offset]
    apply exactAddr_add
    rw [slot_offset]
    omega
  unfold Virtqueue.popAvail popAvailExact
  dsimp only
  rw [hidx, hring]
  rfl

theorem exactly_add {α : Type} {x y : UInt64} (h : x.toNat + y.toNat < 2 ^ 64)
    (f : UInt64 → MemM α) : exactly (x.toNat + y.toNat) f = f (x + y) := by
  unfold exactly
  rw [exactAddr_add h]

theorem RingFits.pushUsed_eq (h : RingFits vq) (hpos : 1 ≤ vq.queueSize.toNat) (head : UInt16)
    (writtenLen : UInt32) : vq.pushUsed head writtenLen = pushUsedExact vq head writtenLen := by
  have hused := h.used
  have htwo : ∀ {α : Type} (f : UInt64 → MemM α),
      exactly (vq.usedAddr.toNat + 2) f = f (vq.usedAddr + 2) :=
    exactly_add (y := 2) (show vq.usedAddr.toNat + 2 < _ by omega)
  have hbase : (vq.usedAddr + USED_RING_OFFSET).toNat = vq.usedAddr.toNat + 4 :=
    toNat_add_of_fits (show vq.usedAddr.toNat + 4 < _ by omega)
  unfold Virtqueue.pushUsed pushUsedExact
  rw [htwo]
  congr 1
  funext usedIdx
  have hslot := slot_le usedIdx hpos
  have hoff : (vq.usedAddr + USED_RING_OFFSET).toNat +
      ((usedIdx % vq.queueSize).toUInt64 * USED_ELEM_LEN).toNat =
      vq.usedAddr.toNat + 4 + 8 * (usedIdx.toNat % vq.queueSize.toNat) := by
    rw [hbase, elem_offset, UInt16.toNat_mod]
  have hfits : (vq.usedAddr + USED_RING_OFFSET).toNat +
      ((usedIdx % vq.queueSize).toUInt64 * USED_ELEM_LEN).toNat + 4 < 2 ^ 64 := by
    rw [hbase, elem_offset]
    omega
  have helem : (vq.usedAddr + USED_RING_OFFSET +
      (usedIdx % vq.queueSize).toUInt64 * USED_ELEM_LEN).toNat = _ :=
    toNat_add_of_fits (Nat.lt_of_le_of_lt (Nat.le_add_right _ 4) hfits)
  have hlen : ∀ {α : Type} (f : UInt64 → MemM α), exactly ((vq.usedAddr + USED_RING_OFFSET +
      (usedIdx % vq.queueSize).toUInt64 * USED_ELEM_LEN).toNat + 4) f = f (_ + 4) :=
    exactly_add (y := 4) (by rw [helem]; exact hfits)
  dsimp only
  rw [← hoff, exactly_add (by omega), htwo, ← helem, hlen]

/-- What is left of a segment behind `skip` is inside it. -/
theorem SegmentsFit.iovecsFrom_inside (h : SegmentsFit segments) {mem : GuestMemory}
    {skip total : UInt64} {iov : List (ℕ × ℕ)}
    (hiov : iovecsFrom mem segments skip total = .ok iov) :
    ∀ v ∈ iov, ∃ s ∈ segments, ∃ start : UInt64, s.1.toNat ≤ start.toNat ∧
      start.toNat + v.2 ≤ s.1.toNat + s.2.toNat ∧
      mem.slicePtr .gpa start (.ofNat v.2) = some v.1 := by
  induction segments generalizing skip total iov with
  | nil =>
    cases hiov
    simp
  | cons seg rest ih =>
    obtain ⟨addr, len⟩ := seg
    obtain ⟨hseg, hrest⟩ := List.forall_mem_cons.mp h
    have hlater : ∀ {skip' total' iov'}, iovecsFrom mem rest skip' total' = .ok iov' →
        ∀ v ∈ iov', ∃ s ∈ (addr, len) :: rest, ∃ start : UInt64, s.1.toNat ≤ start.toNat ∧
          start.toNat + v.2 ≤ s.1.toNat + s.2.toNat ∧
          mem.slicePtr .gpa start (.ofNat v.2) = some v.1 := by
      intro skip' total' iov' hiov' v hv
      obtain ⟨s, hs, hin⟩ := ih hrest hiov' v hv
      exact ⟨s, List.mem_cons_of_mem _ hs, hin⟩
    unfold iovecsFrom at hiov
    split_ifs at hiov with hzero hskip
    · cases hiov
      simp
    · exact hlater hiov
    · have hlt : skip.toNat < len.toNat := UInt64.not_le.mp hskip
      have hsum : (addr + skip).toNat = addr.toNat + skip.toNat := by
        have hend := hseg (Nat.zero_lt_of_lt hlt)
        dsimp only at hend
        exact toNat_add_of_fits (show addr.toNat + skip.toNat < _ by omega)
      dsimp only at hiov
      split at hiov
      · cases hiov
      rename_i p hp
      split at hiov
      · cases hiov
      rename_i iov' hiov'
      cases hiov
      rw [List.forall_mem_cons]
      refine ⟨⟨(addr, len), List.mem_cons_self .., addr + skip, ?_, ?_, ?_⟩, hlater hiov'⟩
      · rw [hsum]
        exact Nat.le_add_right _ _
      · have hle : (min (len - skip) total).toNat ≤ len.toNat - skip.toNat := by
          rw [toNat_min, UInt64.toNat_sub_of_le _ _ (UInt64.le_iff_toNat_le.mpr hlt.le)]
          exact min_le_left _ _
        dsimp only
        rw [hsum]
        omega
      · dsimp only
        rw [UInt64.ofNat_toNat]
        exact hp

end Accesses

end Riftlessfs.VhostUser
