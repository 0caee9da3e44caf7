import Riftlessfs.Fuse.RecordShapes

/-! Reading a record field by field: what each read takes from the front of what is left. -/
namespace Riftlessfs.Fuse
open Riftlessfs.Core Riftlessfs.Proto Lib.LittleEndian Lib.Effect Lib.Codec

namespace Reader

/-- The bytes the reader has not consumed. -/
def Stands (r : Reader) (rest : Bytes) : Prop :=
  r.pos ≤ r.buf.length ∧ r.buf.drop r.pos = rest

variable {α : Type} {m : ReadM α} {a : α} {buf rest : Bytes}

private theorem stands_new (buf : Bytes) : (Reader.new buf).Stands buf :=
  ⟨Nat.zero_le _, List.drop_zero⟩

theorem parse_of_reads (h : Reads Stands m buf a rest) : parse m buf = .ok a := by
  obtain ⟨r, hok, -⟩ := h (.new buf) (stands_new buf)
  unfold parse
  rw [hok]

theorem Stands.split {r : Reader} {x y : Bytes} (h : r.Stands (x ++ y)) :
    ∃ a, r.buf = a ++ (x ++ y) ∧ a.length = r.pos := by
  refine ⟨r.buf.take r.pos, ?_, List.length_take_of_le h.1⟩
  rw [← h.2, List.take_append_drop]

/-- A field is read from the front. -/
theorem reads_field (f : Field) (rest : Bytes) :
    Reads Stands f.kind.read (f.encoding ++ rest) f.item rest := by
  rintro ⟨buf, pos⟩ hs
  obtain ⟨a, hbuf, hpos⟩ := hs.split
  simp only at hbuf hpos
  subst hbuf hpos
  refine ⟨_, (undoes f).whole a rest, ?_, ?_⟩
  · show a.length + f.encoding.length ≤ (a ++ (f.encoding ++ rest)).length
    rw [List.length_append, List.length_append]
    omega
  · show (a ++ (f.encoding ++ rest)).drop (a.length + f.encoding.length) = rest
    rw [← List.length_append, ← List.append_assoc]
    exact List.drop_left

/-- A read that a field's read is made of reads its value. -/
theorem reads_of_item {g : α → Item} (hg : Function.Injective g) {input : Bytes}
    (h : Reads Stands (do pure (g (← m))) input (g a) rest) : Reads Stands m input a rest := by
  intro r hr
  obtain ⟨r', hok, hrest⟩ := h r hr
  obtain ⟨a', r₁, hm, hlast⟩ := bind_ok hok
  have hlast : EStateM.Result.ok (g a') r₁ = (.ok (g a) r' : EStateM.Result ProtoError Reader Item) :=
    hlast
  injection hlast with hvalue hreader
  rw [hg hvalue, hreader] at hm
  exact ⟨r', hm, hrest⟩

theorem reads_u32 (v : UInt32) (rest : Bytes) :
    Reads Stands u32 ((Field.u32 v).encoding ++ rest) v rest :=
  reads_of_item (fun _ _ h => Item.u32.inj h) (reads_field (.u32 v) rest)

theorem reads_u16 (v : UInt16) (rest : Bytes) :
    Reads Stands u16 ((Field.u16 v).encoding ++ rest) v rest :=
  reads_of_item (fun _ _ h => Item.u16.inj h) (reads_field (.u16 v) rest)

theorem reads_i32 (v : Int32) (rest : Bytes) :
    Reads Stands i32 ((Field.i32 v).encoding ++ rest) v rest :=
  reads_of_item (fun _ _ h => Item.i32.inj h) (reads_field (.i32 v) rest)

theorem reads_u64 (v : UInt64) (rest : Bytes) :
    Reads Stands u64 ((Field.u64 v).encoding ++ rest) v rest :=
  reads_of_item (fun _ _ h => Item.u64.inj h) (reads_field (.u64 v) rest)

theorem reads_cstr (s : { s : Bytes // 0 ∉ s }) (rest : Bytes) :
    Reads Stands cstr ((Field.cstr s).encoding ++ rest) s.1 rest :=
  reads_of_item (fun _ _ h => Item.cstr.inj h) (reads_field (.cstr s) rest)

theorem reads_skip {n : ℕ} {x : Bytes} (hx : x.length = n) (rest : Bytes) :
    Reads Stands (skip n) (x ++ rest) () rest := by
  rintro ⟨buf, pos⟩ hs
  obtain ⟨a, hbuf, hpos⟩ := hs.split
  simp only at hbuf hpos
  subst hbuf hpos hx
  refine ⟨⟨a ++ (x ++ rest), a.length + x.length⟩, ?_, ?_, ?_⟩
  · rw [skip_apply, if_pos (by simp)]
  · show a.length + x.length ≤ (a ++ (x ++ rest)).length
    rw [List.length_append, List.length_append]
    omega
  · show (a ++ (x ++ rest)).drop (a.length + x.length) = rest
    rw [← List.length_append, ← List.append_assoc]
    exact List.drop_left

/-- Fields that are skipped one by one. -/
theorem reads_skip_u32 (v : UInt32) (rest : Bytes) :
    Reads Stands (skip 4) ((Field.u32 v).encoding ++ rest) () rest :=
  reads_skip (leBytes_length 4 _) rest

theorem reads_skip_u64 (v : UInt64) (rest : Bytes) :
    Reads Stands (skip 8) ((Field.u64 v).encoding ++ rest) () rest :=
  reads_skip (leBytes_length 8 _) rest

theorem reads_remaining (rest : Bytes) : Reads Stands remaining rest rest rest := by
  intro r hr
  refine ⟨r, ?_, hr⟩
  show EStateM.Result.ok (r.buf.drop r.pos) r = _
  rw [hr.2]

theorem reads_orElse {d : α} {input : Bytes} (h : Reads Stands m input a rest) :
    Reads Stands (orElse m d) input a rest := by
  intro r hr
  obtain ⟨r', hok, hrest⟩ := h r hr
  refine ⟨r', ?_, hrest⟩
  unfold orElse
  rw [hok]

end Reader

end Riftlessfs.Fuse
