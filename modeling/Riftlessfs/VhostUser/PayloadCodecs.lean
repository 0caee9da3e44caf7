import Riftlessfs.Lib.Codec
import Riftlessfs.VhostUser.Message

/-! The vhost-user payloads are read back as they were written. -/
namespace Riftlessfs.VhostUser
open Lib.LittleEndian Lib.Codec Lib.Effect Riftlessfs.Proto Riftlessfs.Fuse

theorem if_short {α : Type} {buf : Bytes} {n : ℕ} {x : Except ProtoError α} (h : buf.length < n) :
    (if buf.length < n then .error .truncated else x) = .error .truncated := if_pos h

section Structs

theorem U64Payload.fromBytes_toBytes (v : UInt64) (t : Bytes) :
    U64Payload.fromBytes (U64Payload.toBytes v ++ t) = .ok v := by
  have hv : v.toNat < 256 ^ 8 := v.toNat_lt
  unfold fromBytes toBytes
  rw [if_neg (by simp), natAt_append_left (by simp), natAt_leBytes hv, UInt64.ofNat_toNat]

theorem U64Payload.inverse :
    Inverse U64Payload.toBytes U64Payload.fromBytes .truncated fun _ => True :=
  .of_length 8 (fun v => leBytes_length 8 v.toNat) (fun _ h => if_short h) fromBytes_toBytes

theorem VringState.inverse :
    Inverse VringState.toBytes VringState.fromBytes .truncated fun _ => True := by
  refine .of_length 8 (fun s => ?_) (fun _ h => if_short h) fromBytes_toBytes
  simp [toBytes]

theorem VringAddr.inverse :
    Inverse VringAddr.toBytes VringAddr.fromBytes .truncated fun _ => True := by
  refine .of_length 40 (fun a => ?_) (fun _ h => if_short h) fromBytes_toBytes
  simp [toBytes]

/-- The word of a doorbell message gives back its index and its flag. -/
theorem nofd_word (i : UInt8) (noFd : Bool) :
    ((if noFd then i.toUInt64 ||| VRING_NOFD_MASK else i.toUInt64) &&& 0xff).toUInt8 = i ∧
      ((if noFd then i.toUInt64 ||| VRING_NOFD_MASK else i.toUInt64) &&& VRING_NOFD_MASK != 0) =
        noFd := by
  have hall : ∀ (n : Fin 256) (b : Bool),
      ((if b then (UInt8.ofNat n).toUInt64 ||| VRING_NOFD_MASK else (UInt8.ofNat n).toUInt64) &&&
        0xff).toUInt8 = UInt8.ofNat n ∧
      ((if b then (UInt8.ofNat n).toUInt64 ||| VRING_NOFD_MASK else (UInt8.ofNat n).toUInt64) &&&
        VRING_NOFD_MASK != 0) = b := by
    decide +kernel
  have hi := hall ⟨i.toNat, i.toNat_lt⟩ noFd
  rwa [UInt8.ofNat_toNat] at hi

theorem VringFdPayload.inverse :
    Inverse VringFdPayload.toBytes VringFdPayload.fromBytes .truncated fun _ => True := by
  refine .of_length 8 (fun p => leBytes_length 8 _) (fun p h => ?_) (fun p t => ?_)
  · unfold fromBytes
    rw [show U64Payload.fromBytes p = .error .truncated from if_short h]
    rfl
  · obtain ⟨hindex, hflag⟩ := nofd_word p.index p.noFd
    unfold fromBytes toBytes
    rw [U64Payload.fromBytes_toBytes]
    exact congrArg Except.ok (by rw [hindex, hflag])

end Structs

section Regions

theorem MemoryRegion.toBytes_length (r : MemoryRegion) : r.toBytes.length = 32 := by
  simp [toBytes]

theorem MemoryRegion.fromBytes_toBytes (r : MemoryRegion) :
    MemoryRegion.fromBytes r.toBytes = .ok r := by
  have h₁ : r.guestPhysAddr.toNat < 256 ^ 8 := r.guestPhysAddr.toNat_lt
  have h₂ : r.memorySize.toNat < 256 ^ 8 := r.memorySize.toNat_lt
  have h₃ : r.userspaceAddr.toNat < 256 ^ 8 := r.userspaceAddr.toNat_lt
  have h₄ : r.mmapOffset.toNat < 256 ^ 8 := r.mmapOffset.toNat_lt
  unfold fromBytes
  rw [if_neg (by rw [toBytes_length]; omega)]
  unfold toBytes
  simp (disch := simp) only [natAt_append_left, natAt_append_right, leBytes_length, Nat.reduceSub,
    Nat.sub_self, natAt_leBytes h₁, natAt_leBytes h₂, natAt_leBytes h₃, natAt_leBytes h₄,
    UInt64.ofNat_toNat]

/-- A word of a buffer is its eight bytes. -/
theorem leBytes_natAt {buf : Bytes} {off : ℕ} (h : off + 8 ≤ buf.length) :
    leBytes 8 (UInt64.ofNat (natAt buf off 8)).toNat = (buf.drop off).take 8 := by
  have hlen : ((buf.drop off).take 8).length = 8 := by
    rw [List.length_take, List.length_drop]
    omega
  have hback := leBytes_leNat ((buf.drop off).take 8)
  rw [hlen] at hback
  rw [UInt64.toNat_ofNat_of_lt' (natAt_lt buf off 8)]
  exact hback

theorem MemoryRegion.toBytes_fromBytes {buf : Bytes} {r : MemoryRegion} (hlen : buf.length = 32)
    (h : MemoryRegion.fromBytes buf = .ok r) : r.toBytes = buf := by
  unfold fromBytes at h
  rw [if_neg (by omega)] at h
  cases h
  have hsplit : ∀ n, n ≤ buf.length → ∀ k, (buf.drop n).take k ++ buf.drop (n + k) = buf.drop n := by
    intro n _ k
    rw [← List.drop_drop]
    exact List.take_append_drop k (buf.drop n)
  have hlast : (buf.drop 24).take 8 = buf.drop 24 := by
    rw [List.take_of_length_le]
    rw [List.length_drop]
    omega
  unfold toBytes
  dsimp only
  rw [leBytes_natAt (by omega), leBytes_natAt (by omega), leBytes_natAt (by omega),
    leBytes_natAt (by omega), hlast, hsplit 16 (by omega) 8, hsplit 8 (by omega) 8,
    hsplit 0 (by omega) 8, List.drop_zero]

/-- The loop reads `regions` back from where they were written. -/
theorem MemoryRegions.readFrom_written (regions : List MemoryRegion) (a t : Bytes) :
    readFrom (a ++ ((regions.map MemoryRegion.toBytes).flatten ++ t)) regions.length a.length =
      .ok regions := by
  induction regions generalizing a with
  | nil => rfl
  | cons r rest ih =>
    have hr := MemoryRegion.toBytes_length r
    have hbuf : a ++ (((r :: rest).map MemoryRegion.toBytes).flatten ++ t) =
        (a ++ r.toBytes) ++ ((rest.map MemoryRegion.toBytes).flatten ++ t) := by
      simp
    have hentry : ((a ++ (r.toBytes ++ ((rest.map MemoryRegion.toBytes).flatten ++ t))).drop
        a.length).take 32 = r.toBytes := by
      rw [List.drop_left, ← hr, List.take_left]
    rw [hbuf, List.length_cons, readFrom, if_pos (by simp [hr]), List.append_assoc, hentry,
      MemoryRegion.fromBytes_toBytes]
    have hnext := ih (a ++ r.toBytes)
    rw [List.length_append, hr, List.append_assoc] at hnext
    rw [hnext]
    rfl

theorem MemoryRegions.readFrom_short {buf : Bytes} {n off : ℕ} (hoff : off ≤ buf.length)
    (h : buf.length < off + 32 * n) : readFrom buf n off = .error .truncated := by
  induction n generalizing off with
  | zero => omega
  | succ n ih =>
    rw [readFrom]
    split_ifs with hfit
    · have hlen : ((buf.drop off).take 32).length = 32 := by
        rw [List.length_take, List.length_drop]
        omega
      unfold MemoryRegion.fromBytes
      rw [if_neg (by omega), ih hfit (by omega)]
      rfl
    · rfl

/-- What the loop accepts: as many entries as asked for, which encode to the bytes they were read
from. -/
theorem MemoryRegions.readFrom_ok {buf : Bytes} {n off : ℕ} {regions : List MemoryRegion}
    (hoff : off ≤ buf.length) (h : readFrom buf n off = .ok regions) :
    regions.length = n ∧ off + 32 * n ≤ buf.length ∧
      (regions.map MemoryRegion.toBytes).flatten = (buf.drop off).take (32 * n) := by
  induction n generalizing off regions with
  | zero =>
    cases h
    exact ⟨rfl, hoff, by simp⟩
  | succ n ih =>
    rw [readFrom] at h
    split_ifs at h with hfit
    obtain ⟨r, hr, h₁⟩ := except_bind_ok h
    obtain ⟨rest, hrest, h₂⟩ := except_bind_ok h₁
    cases h₂
    obtain ⟨hcount, hend, hbytes⟩ := ih hfit hrest
    have hlen : ((buf.drop off).take 32).length = 32 := by
      rw [List.length_take, List.length_drop]
      omega
    refine ⟨by rw [List.length_cons, hcount], by omega, ?_⟩
    rw [List.map_cons, List.flatten_cons, hbytes, MemoryRegion.toBytes_fromBytes hlen hr,
      show 32 * (n + 1) = 32 + 32 * n by omega, List.take_add, List.drop_drop]

theorem MemoryRegions.toBytes_length (regions : List MemoryRegion) :
    (MemoryRegions.toBytes regions).length = 8 + 32 * regions.length := by
  have hsum : ((regions.map MemoryRegion.toBytes).flatten).length = 32 * regions.length := by
    induction regions with
    | nil => rfl
    | cons r rest ih =>
      rw [List.map_cons, List.flatten_cons, List.length_append, ih, MemoryRegion.toBytes_length,
        List.length_cons]
      omega
  unfold toBytes
  rw [List.length_append, List.length_append, leBytes_length, leBytes_length, hsum]
  omega

/-- The count in front of an encoded list. -/
theorem MemoryRegions.count_toBytes {regions : List MemoryRegion} (hn : regions.length < 2 ^ 32)
    {p : Bytes} (hp : p <+: MemoryRegions.toBytes regions) (hlen : 4 ≤ p.length) :
    natAt p 0 4 = regions.length := by
  obtain ⟨t, ht⟩ := hp
  have hwhole : natAt (p ++ t) 0 4 = regions.length := by
    rw [ht, toBytes, UInt32.toNat_ofNat_of_lt' hn, natAt_append_left (by simp),
      natAt_leBytes (by simpa using hn)]
  rw [← hwhole, natAt_append_left (by omega)]

theorem MemoryRegions.inverse : Inverse MemoryRegions.toBytes MemoryRegions.fromBytes .truncated
    fun regions => regions.length < 2 ^ 32 := by
  refine ⟨fun regions t hn => ?_, fun regions p hn hp hne => ?_⟩
  · have hlen := toBytes_length regions
    have hcount : natAt (MemoryRegions.toBytes regions ++ t) 0 4 = regions.length := by
      rw [natAt_append_left (by omega)]
      exact count_toBytes hn List.prefix_rfl (by omega)
    unfold fromBytes
    rw [if_neg (by rw [List.length_append]; omega), hcount]
    have hread := readFrom_written regions
      (leBytes 4 (UInt32.ofNat regions.length).toNat ++ leBytes 4 0) t
    rw [List.length_append, leBytes_length, leBytes_length] at hread
    unfold toBytes
    simpa using hread
  · have hshort := length_lt_of_cut hp hne
    rw [toBytes_length] at hshort
    unfold fromBytes
    split_ifs with h8
    · rfl
    · rw [count_toBytes hn hp (by omega)]
      exact readFrom_short (by omega) hshort

/-- What an accepted buffer holds: whole entries, as many as its count, which encode to its own
bytes but for the padding. -/
theorem MemoryRegions.toBytes_fromBytes {buf : Bytes} {regions : List MemoryRegion}
    (h : MemoryRegions.fromBytes buf = .ok regions) :
    regions.length = natAt buf 0 4 ∧ 8 + 32 * natAt buf 0 4 ≤ buf.length ∧
      MemoryRegions.toBytes regions =
        buf.take 4 ++ ([0, 0, 0, 0] ++ (buf.take (8 + 32 * natAt buf 0 4)).drop 8) := by
  unfold fromBytes at h
  split_ifs at h with h8
  obtain ⟨hcount, hend, hbytes⟩ := readFrom_ok (by omega) h
  have hlen : (buf.take 4).length = 4 := by
    rw [List.length_take]
    omega
  have hback := leBytes_leNat (buf.take 4)
  rw [hlen] at hback
  refine ⟨hcount, hend, ?_⟩
  unfold toBytes
  rw [hcount, UInt32.toNat_ofNat_of_lt' (natAt_lt buf 0 4), hbytes, List.drop_take]
  congr 1
  congr 2
  omega

end Regions

/-- Reading undoes writing for the header and every payload, whatever follows a payload, and a cut
payload is refused. A region list that is accepted encodes to the bytes it was read from, with the
padding cleared. -/
theorem payload_codecs_inverse :
    (∀ h : MsgHeader, MsgHeader.fromBytes h.toBytes = h) ∧
    Inverse U64Payload.toBytes U64Payload.fromBytes .truncated (fun _ => True) ∧
    Inverse VringState.toBytes VringState.fromBytes .truncated (fun _ => True) ∧
    Inverse VringAddr.toBytes VringAddr.fromBytes .truncated (fun _ => True) ∧
    Inverse VringFdPayload.toBytes VringFdPayload.fromBytes .truncated (fun _ => True) ∧
    Inverse MemoryRegions.toBytes MemoryRegions.fromBytes .truncated
      (fun regions => regions.length < 2 ^ 32) ∧
    ∀ buf regions, MemoryRegions.fromBytes buf = .ok regions →
      regions.length = natAt buf 0 4 ∧ 8 + 32 * natAt buf 0 4 ≤ buf.length ∧
        MemoryRegions.toBytes regions =
          buf.take 4 ++ ([0, 0, 0, 0] ++ (buf.take (8 + 32 * natAt buf 0 4)).drop 8) :=
  ⟨MsgHeader.fromBytes_toBytes, U64Payload.inverse, VringState.inverse, VringAddr.inverse,
    VringFdPayload.inverse, MemoryRegions.inverse, fun _ _ h => MemoryRegions.toBytes_fromBytes h⟩

/-- One region in a buffer with padding set and a byte to spare. -/
def paddedTable : Bytes :=
  [1, 0, 0, 0, 9, 9, 9, 9] ++ MemoryRegion.toBytes ⟨0x1000, 0x1000, 0x10000, 0⟩ ++ [7]

theorem payload_codecs_padded : MemoryRegions.toBytes [⟨0x1000, 0x1000, 0x10000, 0⟩] =
    paddedTable.take 4 ++ ([0, 0, 0, 0] ++ (paddedTable.take 40).drop 8) := by
  have hread : MemoryRegions.fromBytes paddedTable = .ok [⟨0x1000, 0x1000, 0x10000, 0⟩] := by
    decide +kernel
  exact (payload_codecs_inverse.2.2.2.2.2.2 _ _ hread).2.2

end Riftlessfs.VhostUser
