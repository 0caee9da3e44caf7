import Riftlessfs.Fuse.Wire

/-! Where the fields of a request lie: parsing as reads at fixed offsets. -/
namespace Riftlessfs.Fuse
open Riftlessfs.Core Riftlessfs.Proto Lib.LittleEndian Lib.Effect

section NatAt
variable {a b : Bytes} {off w : ℕ}

theorem natAt_append_right (h : a.length ≤ off) :
    natAt (a ++ b) off w = natAt b (off - a.length) w := by
  unfold natAt
  rw [List.drop_append, List.drop_eq_nil_of_le h, List.nil_append]

theorem natAt_append_left (h : off + w ≤ a.length) : natAt (a ++ b) off w = natAt a off w := by
  unfold natAt
  rw [List.drop_append_of_le_length (by omega), List.take_append_of_le_length]
  rw [List.length_drop]
  omega

theorem natAt_leBytes {v : ℕ} (hv : v < 256 ^ w) : natAt (leBytes w v) 0 w = v := by
  unfold natAt
  rw [List.drop_zero, List.take_of_length_le (by simp), leNat_leBytes hv]

theorem natAt_lt (buf : Bytes) (off w : ℕ) : natAt buf off w < 256 ^ w := by
  have hlen : ((buf.drop off).take w).length ≤ w := List.length_take_le _ _
  exact lt_of_lt_of_le (leNat_lt _) (Nat.pow_le_pow_right (by norm_num) hlen)

/-- Skip a whole field. -/
theorem drop_leBytes_append {v n : ℕ} (h : w ≤ n) :
    (leBytes w v ++ b).drop n = b.drop (n - w) := by
  rw [List.drop_append, leBytes_length, List.drop_eq_nil_of_le, List.nil_append]
  rwa [leBytes_length]

/-- A field reads the same in a buffer and in a start of it that holds the field. -/
theorem natAt_take {n : ℕ} (h : off + w ≤ n) : natAt (a.take n) off w = natAt a off w := by
  unfold natAt
  rw [List.drop_take, List.take_take, Nat.min_eq_left (by omega)]

end NatAt

/-- The reader consumes `n` bytes, from which `f` gives its value, or finds the buffer too
short. -/
def Reader.Fixed {α : Type} (m : ReadM α) (n : ℕ) (f : Bytes → ℕ → α) : Prop :=
  ∀ buf pos, pos ≤ buf.length → if pos + n ≤ buf.length then m ⟨buf, pos⟩ = .ok (f buf pos) ⟨buf, pos + n⟩
    else ∃ r, m ⟨buf, pos⟩ = .error .truncated r

namespace Reader
variable {α β : Type} {m : ReadM α} {k : α → ReadM β} {n n' : ℕ} {f : Bytes → ℕ → α}
  {g : α → Bytes → ℕ → β}

theorem fixed_u32 : Fixed u32 4 fun buf pos => .ofNat (natAt buf pos 4) := by
  intro buf pos hpos
  rw [u32_apply]
  split_ifs
  · rfl
  · exact ⟨_, rfl⟩

theorem fixed_u64 : Fixed u64 8 fun buf pos => .ofNat (natAt buf pos 8) := by
  intro buf pos hpos
  rw [u64_apply]
  split_ifs
  · rfl
  · exact ⟨_, rfl⟩

theorem fixed_skip (n : ℕ) : Fixed (skip n) n fun _ _ => () := by
  intro buf pos hpos
  rw [skip_apply]
  split_ifs
  · rfl
  · exact ⟨_, rfl⟩

theorem fixed_pure (a : α) : Fixed (pure a) 0 fun _ _ => a := by
  intro buf pos hpos
  rw [Nat.add_zero, if_pos hpos]
  rfl

private theorem fixed_remaining : Fixed remaining 0 fun buf pos => buf.drop pos := by
  intro buf pos hpos
  rw [Nat.add_zero, if_pos hpos]
  rfl

theorem Fixed.bind (hm : Fixed m n f) (hk : ∀ a, Fixed (k a) n' (g a)) :
    Fixed (m >>= k) (n + n') fun buf pos => g (f buf pos) buf (pos + n) := by
  intro buf pos hpos
  have hfirst := hm buf pos hpos
  by_cases hn : pos + n ≤ buf.length
  · have hrest := hk (f buf pos) buf (pos + n) hn
    rw [if_pos hn] at hfirst
    rw [bind_of_ok hfirst, ← Nat.add_assoc]
    exact hrest
  · rw [if_neg hn] at hfirst
    obtain ⟨r, hr⟩ := hfirst
    rw [if_neg (by omega)]
    exact ⟨r, bind_of_error hr⟩

theorem Fixed.parse (hm : Fixed m n f) (buf : Bytes) :
    Reader.parse m buf = if n ≤ buf.length then .ok (f buf 0) else .error .truncated := by
  have h := hm buf 0 (Nat.zero_le _)
  rw [Nat.zero_add] at h
  unfold Reader.parse Reader.new
  by_cases hn : n ≤ buf.length
  · rw [if_pos hn] at h ⊢
    rw [h]
  · rw [if_neg hn] at h ⊢
    obtain ⟨r, hr⟩ := h
    rw [hr]

end Reader

def InHeader.at (buf : Bytes) : InHeader where
  len := .ofNat (natAt buf 0 4)
  opcode := .ofNat (natAt buf 4 4)
  unique := .ofNat (natAt buf 8 8)
  nodeid := .ofNat (natAt buf 16 8)
  uid := .ofNat (natAt buf 24 4)
  gid := .ofNat (natAt buf 28 4)
  pid := .ofNat (natAt buf 32 4)

open Reader in
theorem InHeader.fromBytes_eq (buf : Bytes) : InHeader.fromBytes buf =
    if IN_HEADER_LEN ≤ buf.length then .ok (InHeader.at buf) else .error .truncated :=
  Fixed.parse (fixed_u32.bind fun _ => fixed_u32.bind fun _ => fixed_u64.bind fun _ =>
    fixed_u64.bind fun _ => fixed_u32.bind fun _ => fixed_u32.bind fun _ =>
    fixed_u32.bind fun _ => (fixed_skip 4).bind fun _ => fixed_pure _) buf

open Reader in
theorem ReadIn.fromBytes_eq (buf : Bytes) : ReadIn.fromBytes buf =
    if 20 ≤ buf.length then
      .ok ⟨.ofNat (natAt buf 0 8), .ofNat (natAt buf 8 8), .ofNat (natAt buf 16 4)⟩
    else .error .truncated :=
  Fixed.parse (fixed_u64.bind fun _ => fixed_u64.bind fun _ => fixed_u32.bind fun _ =>
    fixed_pure _) buf

open Reader in
theorem WriteIn.fromBytes_eq (buf : Bytes) : WriteIn.fromBytes buf =
    if 40 ≤ buf.length then
      .ok (⟨.ofNat (natAt buf 0 8), .ofNat (natAt buf 8 8), .ofNat (natAt buf 16 4)⟩,
        buf.drop 40)
    else .error .truncated :=
  Fixed.parse (fixed_u64.bind fun _ => fixed_u64.bind fun _ => fixed_u32.bind fun _ =>
    (fixed_skip 4).bind fun _ => (fixed_skip 8).bind fun _ => (fixed_skip 4).bind fun _ =>
    (fixed_skip 4).bind fun _ => fixed_remaining.bind fun _ => fixed_pure _) buf

theorem InHeader.fromBytes_opcode {buf : Bytes} {header : InHeader}
    (h : InHeader.fromBytes buf = .ok header) : header.opcode = .ofNat (natAt buf 4 4) := by
  rw [InHeader.fromBytes_eq] at h
  split_ifs at h
  cases h
  rfl

section Take
variable (buf : Bytes)

/-- A start of a request that covers the header parses to the same header. -/
theorem InHeader.fromBytes_take {n : ℕ} (hn : IN_HEADER_LEN ≤ n) :
    InHeader.fromBytes (buf.take n) = InHeader.fromBytes buf := by
  have hat : InHeader.at (buf.take n) = InHeader.at buf := by
    unfold IN_HEADER_LEN at hn
    unfold InHeader.at
    simp (disch := omega) only [natAt_take]
  rw [InHeader.fromBytes_eq, InHeader.fromBytes_eq, hat, List.length_take]
  by_cases hlen : IN_HEADER_LEN ≤ buf.length
  · rw [if_pos hlen, if_pos (by omega)]
  · rw [if_neg hlen, if_neg (by omega)]

theorem InHeader.body_eq : InHeader.body buf = buf.drop IN_HEADER_LEN := by
  unfold InHeader.body
  by_cases h : IN_HEADER_LEN ≤ buf.length
  · rw [Nat.min_eq_left h]
  · rw [Nat.min_eq_right (by omega), List.drop_eq_nil_of_le (le_refl _),
      List.drop_eq_nil_of_le (by omega)]

theorem InHeader.body_take (n : ℕ) :
    InHeader.body (buf.take (IN_HEADER_LEN + n)) = (InHeader.body buf).take n := by
  rw [InHeader.body_eq, InHeader.body_eq, List.drop_take, Nat.add_sub_cancel_left]

theorem ReadIn.fromBytes_take {n : ℕ} (hn : 20 ≤ n) :
    ReadIn.fromBytes (buf.take n) = ReadIn.fromBytes buf := by
  rw [ReadIn.fromBytes_eq, ReadIn.fromBytes_eq, List.length_take]
  simp (disch := omega) only [natAt_take]
  by_cases hlen : 20 ≤ buf.length
  · rw [if_pos hlen, if_pos (by omega)]
  · rw [if_neg hlen, if_neg (by omega)]

theorem WriteIn.fromBytes_take : WriteIn.fromBytes (buf.take 40) =
    (WriteIn.fromBytes buf).map fun q => (q.1, []) := by
  rw [WriteIn.fromBytes_eq, WriteIn.fromBytes_eq, List.length_take]
  simp (disch := omega) only [natAt_take]
  by_cases hlen : 40 ≤ buf.length
  · rw [if_pos hlen, if_pos (by omega), List.drop_eq_nil_of_le (by rw [List.length_take]; omega)]
    rfl
  · rw [if_neg hlen, if_neg (by omega)]
    rfl

/-- The payload of a `WRITE` is what follows the fixed part. -/
theorem WriteIn.payload {q : WriteIn} {data : Bytes}
    (h : WriteIn.fromBytes buf = .ok (q, data)) : data = buf.drop 40 := by
  rw [WriteIn.fromBytes_eq] at h
  split_ifs at h
  cases h
  rfl

end Take

def encodeRequest (opcode : UInt32) (nodeid : UInt64) (body : Bytes) : Bytes :=
  (((((((((Writer.new.u32 (.ofNat (IN_HEADER_LEN + body.length))).u32 opcode).u64 1).u64
    nodeid).u32 0).u32 0).u32 0).u32 0).bytes body).intoVec

def encodeRead (fh offset : UInt64) (size : UInt32) : Bytes :=
  encodeRequest 15 0 (((Writer.new.u64 fh).u64 offset).u32 size).intoVec

def encodeWrite (fh offset : UInt64) (data : Bytes) : Bytes :=
  encodeRequest 16 0 ((((((((Writer.new.u64 fh).u64 offset).u32 (.ofNat data.length)).u32 0).u64
    0).u32 0).u32 0).bytes data).intoVec

section Encode
variable (opcode : UInt32) (nodeid fh offset : UInt64) (size : UInt32) (body data : Bytes)

theorem encodeRequest_eq : encodeRequest opcode nodeid body =
    leBytes 4 (UInt32.ofNat (IN_HEADER_LEN + body.length)).toNat ++ (leBytes 4 opcode.toNat ++
      (leBytes 8 1 ++ (leBytes 8 nodeid.toNat ++ (leBytes 16 0 ++ body)))) := by
  have hzero : leBytes 16 0 = leBytes 4 0 ++ (leBytes 4 0 ++ (leBytes 4 0 ++ leBytes 4 0)) := rfl
  rw [hzero]
  simp [encodeRequest, Writer.u32, Writer.u64, Writer.bytes, Writer.new, Writer.intoVec]

theorem header_encodeRequest : ∃ header,
    InHeader.fromBytes (encodeRequest opcode nodeid body) = .ok header ∧
      header.opcode = opcode ∧ InHeader.body (encodeRequest opcode nodeid body) = body := by
  have hlen : (encodeRequest opcode nodeid body).length = IN_HEADER_LEN + body.length := by
    rw [encodeRequest_eq]
    simp only [List.length_append, leBytes_length, IN_HEADER_LEN]
    omega
  have hop : natAt (encodeRequest opcode nodeid body) 4 4 = opcode.toNat := by
    have hlt : opcode.toNat < 256 ^ 4 := opcode.toNat_lt
    rw [encodeRequest_eq, natAt_append_right (by simp), natAt_append_left (by simp)]
    simpa using natAt_leBytes hlt
  refine ⟨InHeader.at (encodeRequest opcode nodeid body), ?_, ?_, ?_⟩
  · rw [InHeader.fromBytes_eq, if_pos (by omega)]
  · show UInt32.ofNat (natAt (encodeRequest opcode nodeid body) 4 4) = opcode
    rw [hop, UInt32.ofNat_toNat]
  · unfold InHeader.body
    rw [Nat.min_eq_left (by omega), encodeRequest_eq]
    simp (disch := decide) only [IN_HEADER_LEN, drop_leBytes_append]
    rfl

theorem parse_encodeRead : ∃ header, InHeader.fromBytes (encodeRead fh offset size) = .ok header ∧
    Opcode.ofU32 header.opcode = .read ∧
    ReadIn.fromBytes (InHeader.body (encodeRead fh offset size)) = .ok ⟨fh, offset, size⟩ := by
  have heq : (((Writer.new.u64 fh).u64 offset).u32 size).intoVec =
      leBytes 8 fh.toNat ++ (leBytes 8 offset.toNat ++ leBytes 4 size.toNat) := by
    simp [Writer.u32, Writer.u64, Writer.bytes, Writer.new, Writer.intoVec]
  have hfh : fh.toNat < 256 ^ 8 := fh.toNat_lt
  have hoff : offset.toNat < 256 ^ 8 := offset.toNat_lt
  have hsize : size.toNat < 256 ^ 4 := size.toNat_lt
  obtain ⟨header, hparse, hop, hbody⟩ :=
    header_encodeRequest 15 0 (((Writer.new.u64 fh).u64 offset).u32 size).intoVec
  refine ⟨header, hparse, by rw [hop]; rfl, ?_⟩
  unfold encodeRead
  rw [hbody, heq, ReadIn.fromBytes_eq, if_pos (by simp)]
  rw [natAt_append_left (by simp), natAt_append_right (by simp), natAt_append_left (by simp),
    natAt_append_right (by simp), natAt_append_right (by simp)]
  simp only [leBytes_length, Nat.sub_self, Nat.reduceSub]
  rw [natAt_leBytes hfh, natAt_leBytes hoff, natAt_leBytes hsize, UInt64.ofNat_toNat,
    UInt64.ofNat_toNat, UInt32.ofNat_toNat]

theorem parse_encodeWrite : ∃ header,
    InHeader.fromBytes (encodeWrite fh offset data) = .ok header ∧
    Opcode.ofU32 header.opcode = .write ∧
    WriteIn.fromBytes (InHeader.body (encodeWrite fh offset data)) =
      .ok (⟨fh, offset, .ofNat data.length⟩, data) := by
  have heq : ((((((((Writer.new.u64 fh).u64 offset).u32 (.ofNat data.length)).u32 0).u64 0).u32
      0).u32 0).bytes data).intoVec = leBytes 8 fh.toNat ++ (leBytes 8 offset.toNat ++
        (leBytes 4 (UInt32.ofNat data.length).toNat ++ (leBytes 20 0 ++ data))) := by
    have hzero : leBytes 20 0 = leBytes 4 0 ++ (leBytes 8 0 ++ (leBytes 4 0 ++ leBytes 4 0)) := rfl
    rw [hzero]
    simp [Writer.u32, Writer.u64, Writer.bytes, Writer.new, Writer.intoVec]
  have hfh : fh.toNat < 256 ^ 8 := fh.toNat_lt
  have hoff : offset.toNat < 256 ^ 8 := offset.toNat_lt
  have hsize : (UInt32.ofNat data.length).toNat < 256 ^ 4 := (UInt32.ofNat data.length).toNat_lt
  obtain ⟨header, hparse, hop, hbody⟩ := header_encodeRequest 16 0 ((((((((Writer.new.u64 fh).u64
    offset).u32 (.ofNat data.length)).u32 0).u64 0).u32 0).u32 0).bytes data).intoVec
  refine ⟨header, hparse, by rw [hop]; rfl, ?_⟩
  unfold encodeWrite
  have hlong : 40 ≤ (leBytes 8 fh.toNat ++ (leBytes 8 offset.toNat ++
      (leBytes 4 (UInt32.ofNat data.length).toNat ++ (leBytes 20 0 ++ data)))).length := by
    simp only [List.length_append, leBytes_length]
    omega
  rw [hbody, heq, WriteIn.fromBytes_eq, if_pos hlong]
  rw [natAt_append_left (by simp), natAt_append_right (by simp), natAt_append_left (by simp),
    natAt_append_right (by simp), natAt_append_right (by simp), natAt_append_left (by simp)]
  simp only [leBytes_length, Nat.sub_self, Nat.reduceSub]
  rw [natAt_leBytes hfh, natAt_leBytes hoff, natAt_leBytes hsize, UInt64.ofNat_toNat,
    UInt64.ofNat_toNat, UInt32.ofNat_toNat]
  simp (disch := decide) only [drop_leBytes_append]
  rfl

end Encode

end Riftlessfs.Fuse
