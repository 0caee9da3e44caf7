import Riftlessfs.VhostUser.ChainReply

/-! Guest-physical and user addresses as two views of the bytes of the same regions. -/
namespace Riftlessfs.VhostUser
open Lib.Flat Lib.Effect Lib.LittleEndian Riftlessfs.Proto

def Region.Contains (r : Region) (space : AddrSpace) (addr : UInt64) (n : ℕ) : Prop :=
  (r.baseFor space).toNat ≤ addr.toNat ∧
    addr.toNat + n ≤ (r.baseFor space).toNat + r.len.toNat

instance (r : Region) (space : AddrSpace) (addr : UInt64) (n : ℕ) :
    Decidable (r.Contains space addr n) :=
  inferInstanceAs (Decidable (_ ∧ _))

/-- A write to guest memory through one of its address spaces. -/
inductive GuestWrite where
  | u16 (space : AddrSpace) (addr : UInt64) (val : UInt16)
  | u32 (space : AddrSpace) (addr : UInt64) (val : UInt32)
  | slice (space : AddrSpace) (addr : UInt64) (b : List UInt8)

namespace GuestWrite

def perform : GuestWrite → MemM Unit
  | .u16 space addr val => writeU16 space addr val
  | .u32 space addr val => writeU32 space addr val
  | .slice space addr b => copyIntoSlice space addr (.ofNat b.length) b

def space : GuestWrite → AddrSpace
  | .u16 space _ _ => space
  | .u32 space _ _ => space
  | .slice space _ _ => space

def addr : GuestWrite → UInt64
  | .u16 _ addr _ => addr
  | .u32 _ addr _ => addr
  | .slice _ addr _ => addr

def bytes : GuestWrite → List UInt8
  | .u16 _ _ val => leBytes 2 val.toNat
  | .u32 _ _ val => leBytes 4 val.toNat
  | .slice _ _ b => b

/-- The byte that the write puts at offset `o` of region `r`, if it does. -/
def puts (w : GuestWrite) (r : Region) (o : ℕ) : Option UInt8 :=
  if r.Contains w.space w.addr w.bytes.length ∧
      w.addr.toNat - (r.baseFor w.space).toNat ≤ o then
    w.bytes[o - (w.addr.toNat - (r.baseFor w.space).toNat)]?
  else none

end GuestWrite

/-- Memory after the writes. One that is rejected changes nothing. -/
def writes (mem : GuestMemory) (ws : List GuestWrite) : GuestMemory :=
  ws.foldl (fun mem w => final (w.perform mem)) mem

/-- The last value written at offset `o` of region `r`, and the one found there before. -/
def lastWritten (ws : List GuestWrite) (r : Region) (o : ℕ) (before : UInt8) : UInt8 :=
  ws.foldl (fun v w => (w.puts r o).getD v) before

section Find
variable {mem : GuestMemory} {space : AddrSpace} {addr len : UInt64} {r : Region}

theorem find_isSome : (mem.find space addr len).isSome = true ↔
    ∃ r ∈ mem.regions, r.Contains space addr len.toNat := by
  unfold GuestMemory.find
  rw [List.find?_isSome]
  constructor
  · rintro ⟨r, hr, htest⟩
    exact ⟨r, hr, find_test.mp htest⟩
  · rintro ⟨r, hr, hin⟩
    exact ⟨r, hr, find_test.mpr hin⟩

/-- A range that no region of the space holds is out of bounds. -/
theorem slicePtr_none (h : ∀ r ∈ mem.regions, ¬ r.Contains space addr len.toNat) :
    mem.slicePtr space addr len = none := by
  have hfind : mem.find space addr len = none := by
    cases hf : mem.find space addr len with
    | none => rfl
    | some r =>
      obtain ⟨r', hr', hin⟩ := find_isSome.mp (Option.isSome_of_mem hf)
      exact absurd hin (h r' hr')
  unfold GuestMemory.slicePtr
  rw [hfind]
  rfl

end Find

section Writes
variable {mem : GuestMemory} {w : GuestWrite} {ws : List GuestWrite} {r : Region} {o : ℕ}

theorem GuestWrite.perform_eq (w : GuestWrite) :
    w.perform = copyIntoSlice w.space w.addr (.ofNat w.bytes.length) w.bytes := by
  cases w with
  | u16 space addr val => simp [perform, bytes, writeU16, GuestWrite.space, GuestWrite.addr]
  | u32 space addr val => simp [perform, bytes, writeU32, GuestWrite.space, GuestWrite.addr]
  | slice space addr b => rfl

theorem GuestWrite.perform_none
    (h : mem.slicePtr w.space w.addr (.ofNat w.bytes.length) = none) :
    w.perform mem = .error .outOfBounds mem := by
  have hout : inBounds (fun mem => mem.slicePtr w.space w.addr (.ofNat w.bytes.length)) mem =
      .error .outOfBounds mem := inBounds_none h
  rw [perform_eq]
  exact bind_of_error hout

theorem GuestWrite.perform_some {p : ℕ}
    (h : mem.slicePtr w.space w.addr (.ofNat w.bytes.length) = some p) :
    w.perform mem = .ok () (mem.poke p w.bytes) := by
  rw [perform_eq]
  exact copyIntoSlice_eq mem h w.bytes

/-- A write changes the bytes it puts somewhere and no others. -/
theorem GuestWrite.perform_bytes (ha : mem.SpaceApart w.space) (hh : mem.HostApart)
    (hlen : w.bytes.length < 2 ^ 64) (hr : r ∈ mem.regions) (ho : o < r.len.toNat) :
    (final (w.perform mem)).bytes (r.ptr + o) = (w.puts r o).getD (mem.bytes (r.ptr + o)) := by
  have hof : (UInt64.ofNat w.bytes.length).toNat = w.bytes.length :=
    UInt64.toNat_ofNat_of_lt' hlen
  unfold puts
  cases hp : mem.slicePtr w.space w.addr (.ofNat w.bytes.length) with
  | none =>
    have hout : ¬ r.Contains w.space w.addr w.bytes.length := by
      intro hin
      rw [← hof] at hin
      have hsome := find_isSome.mpr ⟨r, hr, hin⟩
      unfold GuestMemory.slicePtr at hp
      obtain ⟨r', hf⟩ := Option.isSome_iff_exists.mp hsome
      rw [hf] at hp
      cases hp
    rw [perform_none hp, if_neg fun h => hout h.1]
    rfl
  | some p =>
    obtain ⟨r₀, hr₀, hbase, hend, rfl⟩ := slicePtr_some hp
    rw [hof] at hend
    rw [perform_some hp]
    show store mem.bytes _ w.bytes (r.ptr + o) = _
    by_cases hin : r.Contains w.space w.addr w.bytes.length
    · by_cases hnil : w.bytes.length = 0
      · rw [List.eq_nil_of_length_eq_zero hnil, store_nil]
        split_ifs
        · rfl
        · rfl
      · have hplace := ha.slicePtr_eq hr hin.1 (by rw [hof]; exact hin.2) (by rw [hof]; omega)
        rw [hp] at hplace
        rw [Option.some.inj hplace]
        unfold store
        by_cases hle : w.addr.toNat - (r.baseFor w.space).toNat ≤ o
        · have hsub : r.ptr + o - (r.ptr + (w.addr.toNat - (r.baseFor w.space).toNat)) =
              o - (w.addr.toNat - (r.baseFor w.space).toNat) := by omega
          rw [if_pos (by omega), if_pos ⟨hin, hle⟩, hsub]
        · rw [if_neg (by omega), if_neg fun h => hle h.2]
          rfl
    · have hne : r ≠ r₀ := by
        intro heq
        subst heq
        exact hin ⟨hbase, hend⟩
      have hsymm : Std.Symm fun r r' : Region => Apart r.ptr r.len.toNat r'.ptr r'.len.toNat :=
        ⟨fun _ _ h => h.symm⟩
      have hapart := List.Pairwise.forall hh hr hr₀ hne
      unfold Apart at hapart
      rw [if_neg fun h => hin h.1]
      apply store_outside
      omega

theorem writes_regions (mem : GuestMemory) (ws : List GuestWrite) :
    (writes mem ws).regions = mem.regions := by
  induction ws generalizing mem with
  | nil => rfl
  | cons w ws ih =>
    have hone : (final (w.perform mem)).regions = mem.regions := by
      cases hp : mem.slicePtr w.space w.addr (.ofNat w.bytes.length) with
      | none => rw [GuestWrite.perform_none hp]; rfl
      | some p => rw [GuestWrite.perform_some hp]; rfl
    exact (ih _).trans hone

/-- After any writes a byte of a region is the last one written there. -/
theorem writes_bytes (ha : ∀ space, mem.SpaceApart space) (hh : mem.HostApart)
    (hlen : ∀ w ∈ ws, w.bytes.length < 2 ^ 64) (hr : r ∈ mem.regions) (ho : o < r.len.toNat) :
    (writes mem ws).bytes (r.ptr + o) = lastWritten ws r o (mem.bytes (r.ptr + o)) := by
  induction ws generalizing mem with
  | nil => rfl
  | cons w ws ih =>
    have hone := GuestWrite.perform_bytes (ha w.space) hh (hlen w List.mem_cons_self) hr ho
    have hregions : (final (w.perform mem)).regions = mem.regions := writes_regions mem [w]
    have ha' : ∀ space, (final (w.perform mem)).SpaceApart space := by
      intro space
      unfold GuestMemory.SpaceApart
      rw [hregions]
      exact ha space
    have hh' : (final (w.perform mem)).HostApart := by
      unfold GuestMemory.HostApart
      rw [hregions]
      exact hh
    have hrest := ih ha' hh' (fun w' hw' => hlen w' (List.mem_cons_of_mem w hw'))
      (hregions.symm ▸ hr)
    rw [hone] at hrest
    exact hrest

/-- What a range of a region reads as, through either space. -/
theorem getSlice_region {space : AddrSpace} {addr n : UInt64} (ha : mem.SpaceApart space)
    (hr : r ∈ mem.regions) (haddr : addr.toNat = (r.baseFor space).toNat + o)
    (hend : o + n.toNat ≤ r.len.toNat) :
    mem.getSlice space addr n = some (load mem.bytes (r.ptr + o) n.toNat) := by
  have hin : r.Contains space addr n.toNat := ⟨by omega, by omega⟩
  unfold GuestMemory.getSlice
  by_cases hzero : n.toNat = 0
  · obtain ⟨r', hf⟩ := Option.isSome_iff_exists.mp (find_isSome.mpr ⟨r, hr, hin⟩)
    unfold GuestMemory.slicePtr
    rw [hf, hzero]
    rfl
  · rw [ha.slicePtr_eq hr hin.1 hin.2 (by omega)]
    have hoff : addr.toNat - (r.baseFor space).toNat = o := by omega
    rw [hoff]
    rfl

end Writes

/-- After any writes through either space, the two addresses of a range of a region read the same
bytes, the last ones written there. A range that no region holds in a space is rejected there. -/
theorem spaces_coherent (mem : GuestMemory) (ws : List GuestWrite) (hgpa : mem.SpaceApart .gpa)
    (huser : mem.SpaceApart .user) (hh : mem.HostApart)
    (hlen : ∀ w ∈ ws, w.bytes.length < 2 ^ 64) :
    (∀ r ∈ mem.regions, ∀ (o : ℕ) (gpa user n : UInt64), o + n.toNat ≤ r.len.toNat →
      gpa.toNat = r.gpa.toNat + o → user.toNat = r.userAddr.toNat + o →
      ∃ b, (writes mem ws).getSlice .gpa gpa n = some b ∧
        (writes mem ws).getSlice .user user n = some b ∧
        b = (List.range n.toNat).map fun i =>
          lastWritten ws r (o + i) (mem.bytes (r.ptr + (o + i)))) ∧
    ∀ (space : AddrSpace) (addr n : UInt64),
      (∀ r ∈ mem.regions, ¬ r.Contains space addr n.toNat) →
      (writes mem ws).getSlice space addr n = none ∧
      ∀ b, copyIntoSlice space addr n b (writes mem ws) =
        .error .outOfBounds (writes mem ws) := by
  have ha : ∀ space, mem.SpaceApart space := by
    intro space
    cases space with
    | gpa => exact hgpa
    | user => exact huser
  have hregions := writes_regions mem ws
  have ha' : ∀ space, (writes mem ws).SpaceApart space := by
    intro space
    unfold GuestMemory.SpaceApart
    rw [hregions]
    exact ha space
  constructor
  · intro r hr o gpa user n hend hg hu
    have hr' : r ∈ (writes mem ws).regions := by
      rw [hregions]
      exact hr
    refine ⟨_, getSlice_region (ha' .gpa) hr' hg hend, getSlice_region (ha' .user) hr' hu hend, ?_⟩
    unfold load
    apply List.map_congr_left
    intro i hi
    have hlt := List.mem_range.mp hi
    rw [Nat.add_assoc]
    exact writes_bytes ha hh hlen hr (by omega)
  · intro space addr n hout
    have hnone : (writes mem ws).slicePtr space addr n = none := by
      apply slicePtr_none
      rw [hregions]
      exact hout
    constructor
    · unfold GuestMemory.getSlice
      rw [hnone]
      rfl
    · intro b
      have hbounds : inBounds (fun mem => mem.slicePtr space addr n) (writes mem ws) =
          .error .outOfBounds (writes mem ws) := inBounds_none hnone
      exact bind_of_error hbounds

/-- Two regions whose order differs between the spaces. -/
def twoRegions : GuestMemory where
  regions := [⟨0x1000, 0x20000, 0x1000, 0x4000, 0x4000, 0x1000⟩,
    ⟨0x2000, 0x1f000, 0x1000, 0x6000, 0x6000, 0x1000⟩]
  bytes _ := 0

/-- A word written by guest-physical address, and half of it overwritten by user address. -/
theorem spaces_coherent_two : ∃ b,
    (writes twoRegions [.u32 .gpa 0x2000 0x44332211, .u16 .user 0x1f001 0xbbaa]).getSlice .gpa
      0x2000 4 = some b ∧
    (writes twoRegions [.u32 .gpa 0x2000 0x44332211, .u16 .user 0x1f001 0xbbaa]).getSlice .user
      0x1f000 4 = some b ∧ b = [0x11, 0xaa, 0xbb, 0x44] := by
  obtain ⟨hviews, -⟩ := spaces_coherent twoRegions
    [.u32 .gpa 0x2000 0x44332211, .u16 .user 0x1f001 0xbbaa]
    (by unfold GuestMemory.SpaceApart Apart; decide) (by unfold GuestMemory.SpaceApart Apart; decide)
    (by unfold GuestMemory.HostApart Apart; decide) (by simp [GuestWrite.bytes])
  obtain ⟨b, hg, hu, hb⟩ := hviews ⟨0x2000, 0x1f000, 0x1000, 0x6000, 0x6000, 0x1000⟩ (by decide) 0
    0x2000 0x1f000 4 (by decide) (by decide) (by decide)
  exact ⟨b, hg, hu, hb.trans (by decide +kernel)⟩

end Riftlessfs.VhostUser
