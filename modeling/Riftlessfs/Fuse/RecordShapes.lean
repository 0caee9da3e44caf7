import Riftlessfs.Fuse.Layout
import Riftlessfs.Lib.Codec

/-! Records of any shape: what a sequence of writes put down, the same sequence of reads gives
back. -/
namespace Riftlessfs.Fuse
open Riftlessfs.Core Riftlessfs.Proto Lib.LittleEndian Lib.Effect Lib.Codec

/-- A field as it is written. A string has no NUL inside. -/
inductive Field where
  | u16 (v : UInt16)
  | u32 (v : UInt32)
  | i32 (v : Int32)
  | u64 (v : UInt64)
  | bytes (b : Bytes)
  | cstr (s : { s : Bytes // 0 ∉ s })

/-- What a reader asks for. -/
inductive Kind where
  | u16 | u32 | i32 | u64
  | skip (n : ℕ)
  | cstr

/-- What a read returns. -/
inductive Item where
  | u16 (v : UInt16)
  | u32 (v : UInt32)
  | i32 (v : Int32)
  | u64 (v : UInt64)
  | skipped
  | cstr (s : Bytes)
  deriving DecidableEq

namespace Field

def write (w : Writer) : Field → Writer
  | u16 v => w.u16 v
  | u32 v => w.u32 v
  | i32 v => w.i32 v
  | u64 v => w.u64 v
  | bytes b => w.bytes b
  | cstr s => w.cstr s

def kind : Field → Kind
  | u16 _ => .u16
  | u32 _ => .u32
  | i32 _ => .i32
  | u64 _ => .u64
  | bytes b => .skip b.length
  | cstr _ => .cstr

def item : Field → Item
  | u16 v => .u16 v
  | u32 v => .u32 v
  | i32 v => .i32 v
  | u64 v => .u64 v
  | bytes _ => .skipped
  | cstr s => .cstr s

def encoding (f : Field) : Bytes := (f.write .new).buf

private theorem write_eq (w : Writer) (f : Field) : f.write w = w.bytes f.encoding := by
  cases f <;> rfl

def record (fields : List Field) : Bytes := (fields.foldl write .new).intoVec

theorem record_cons (f : Field) (fields : List Field) :
    record (f :: fields) = f.encoding ++ record fields := by
  have hfold : ∀ (fields : List Field) (w : Writer),
      (fields.foldl write w).buf = w.buf ++ (fields.foldl write .new).buf := by
    intro fields
    induction fields with
    | nil => intro w; simp [Writer.new]
    | cons f fields ih =>
      intro w
      rw [List.foldl_cons, List.foldl_cons, ih (f.write w), ih (f.write .new), write_eq,
        ← List.append_assoc]
      rfl
  exact hfold fields (f.write .new)

end Field

def Kind.read : Kind → ReadM Item
  | .u16 => do pure (.u16 (← Reader.u16))
  | .u32 => do pure (.u32 (← Reader.u32))
  | .i32 => do pure (.i32 (← Reader.i32))
  | .u64 => do pure (.u64 (← Reader.u64))
  | .skip n => do
    Reader.skip n
    pure .skipped
  | .cstr => do pure (.cstr (← Reader.cstr))

/-- Read one field after the other: the values returned, and where the reader stands at the end or
the error of the read that failed. -/
def readFields : List Kind → Reader → List Item × Except ProtoError Reader
  | [], r => ([], .ok r)
  | k :: ks, r =>
    match k.read r with
    | .ok v r' => (v :: (readFields ks r').1, (readFields ks r').2)
    | .error e _ => ([], .error e)

section Reads

theorem Reader.fixed_u16 : Fixed u16 2 fun buf pos => .ofNat (natAt buf pos 2) := by
  intro buf pos hpos
  unfold u16
  rw [bind_apply, take_apply]
  split_ifs
  · rfl
  · exact ⟨_, rfl⟩

theorem Reader.fixed_i32 :
    Fixed i32 4 fun buf pos => (UInt32.ofNat (natAt buf pos 4)).toInt32 := by
  intro buf pos hpos
  unfold i32
  rw [bind_apply, take_apply]
  split_ifs
  · rfl
  · exact ⟨_, rfl⟩

/-- The number a fixed-width field was written as. -/
theorem natAt_written {a t : Bytes} {w v : ℕ} (hv : v < 256 ^ w) :
    natAt (a ++ (leBytes w v ++ t)) a.length w = v := by
  rw [natAt_append_right le_rfl, Nat.sub_self, natAt_append_left (by simp), natAt_leBytes hv]

/-- The read of a field returns the value written there, and refuses a cut. -/
structure Undoes (f : Field) : Prop where
  whole : ∀ a t, f.kind.read ⟨a ++ (f.encoding ++ t), a.length⟩ =
    .ok f.item ⟨a ++ (f.encoding ++ t), a.length + f.encoding.length⟩
  cut : ∀ a p, p <+: f.encoding → p ≠ f.encoding →
    ∃ r, f.kind.read ⟨a ++ p, a.length⟩ = .error .truncated r

theorem Undoes.of_fixed {f : Field} {n : ℕ} {g : Bytes → ℕ → Item}
    (hread : Reader.Fixed f.kind.read n g) (hlen : f.encoding.length = n)
    (hvalue : ∀ a t, g (a ++ (f.encoding ++ t)) a.length = f.item) : Undoes f := by
  constructor
  · intro a t
    have h := hread (a ++ (f.encoding ++ t)) a.length (by simp)
    rw [if_pos (by simp [hlen]), hvalue, ← hlen] at h
    exact h
  · intro a p hp hne
    have hshort := length_lt_of_cut hp hne
    have h := hread (a ++ p) a.length (by simp)
    rwa [if_neg (by rw [List.length_append]; omega)] at h

theorem cstr_apply (a b : Bytes) : Reader.cstr ⟨a ++ b, a.length⟩ =
    match b.findIdx? (· == 0) with
    | some nul => .ok (b.take nul) ⟨a ++ b, a.length + nul + 1⟩
    | none => .error .truncated ⟨a ++ b, a.length⟩ := by
  have hrest : (a ++ b).drop a.length = b := List.drop_left
  unfold Reader.cstr
  cases hnul : b.findIdx? (· == 0) with
  | none => simp only [hrest, hnul]
  | some nul => simp only [hrest, hnul]

theorem findIdx_nul_none {s : Bytes} (hs : 0 ∉ s) : s.findIdx? (· == 0) = none := by
  rw [List.findIdx?_eq_none_iff]
  intro b hb
  have hne : b ≠ 0 := fun h => hs (h ▸ hb)
  simp [hne]

theorem findIdx_nul_written {s : Bytes} (hs : 0 ∉ s) (t : Bytes) :
    (s ++ 0 :: t).findIdx? (· == 0) = some s.length := by
  rw [List.findIdx?_append, findIdx_nul_none hs, List.findIdx?_cons]
  simp

/-- A strict start of a string and its NUL is a start of the string. -/
theorem no_nul_of_cut {s p : Bytes} (hs : 0 ∉ s) (hp : p <+: s ++ [0]) (hne : p ≠ s ++ [0]) :
    0 ∉ p := by
  have hshort := length_lt_of_cut hp hne
  rw [List.length_append, List.length_singleton] at hshort
  have hstart : p <+: s := List.prefix_of_prefix_length_le hp (List.prefix_append s [0]) (by omega)
  exact fun h => hs (hstart.subset h)

private theorem undoes_cstr (s : { s : Bytes // 0 ∉ s }) : Undoes (.cstr s) := by
  constructor
  · intro a t
    have hbuf : (Field.cstr s).encoding ++ t = s.1 ++ 0 :: t := by
      simp [Field.encoding, Field.write, Writer.cstr, Writer.bytes, Writer.new]
    have hlen : (Field.cstr s).encoding.length = s.1.length + 1 := by
      simp [Field.encoding, Field.write, Writer.cstr, Writer.bytes, Writer.new]
    have hread : Reader.cstr ⟨a ++ (s.1 ++ 0 :: t), a.length⟩ =
        .ok s.1 ⟨a ++ (s.1 ++ 0 :: t), a.length + s.1.length + 1⟩ := by
      rw [cstr_apply, findIdx_nul_written s.2]
      dsimp only
      rw [List.take_left]
    rw [hbuf, hlen]
    exact bind_of_ok hread
  · intro a p hp hne
    have hread : Reader.cstr ⟨a ++ p, a.length⟩ = .error .truncated ⟨a ++ p, a.length⟩ := by
      rw [cstr_apply, findIdx_nul_none (no_nul_of_cut s.2 hp hne)]
    exact ⟨_, bind_of_error hread⟩

theorem undoes (f : Field) : Undoes f := by
  cases f with
  | u16 v =>
    refine .of_fixed (Reader.fixed_u16.bind fun _ => Reader.fixed_pure _) (leBytes_length 2 _) ?_
    intro a t
    have hv : v.toNat < 256 ^ 2 := v.toNat_lt
    exact congrArg Item.u16 (by
      rw [show (Field.u16 v).encoding = leBytes 2 v.toNat from rfl, natAt_written hv,
        UInt16.ofNat_toNat])
  | u32 v =>
    refine .of_fixed (Reader.fixed_u32.bind fun _ => Reader.fixed_pure _) (leBytes_length 4 _) ?_
    intro a t
    have hv : v.toNat < 256 ^ 4 := v.toNat_lt
    exact congrArg Item.u32 (by
      rw [show (Field.u32 v).encoding = leBytes 4 v.toNat from rfl, natAt_written hv,
        UInt32.ofNat_toNat])
  | i32 v =>
    refine .of_fixed (Reader.fixed_i32.bind fun _ => Reader.fixed_pure _) (leBytes_length 4 _) ?_
    intro a t
    have hv : v.toUInt32.toNat < 256 ^ 4 := v.toUInt32.toNat_lt
    exact congrArg Item.i32 (by
      rw [show (Field.i32 v).encoding = leBytes 4 v.toUInt32.toNat from rfl, natAt_written hv,
        UInt32.ofNat_toNat]
      rfl)
  | u64 v =>
    refine .of_fixed (Reader.fixed_u64.bind fun _ => Reader.fixed_pure _) (leBytes_length 8 _) ?_
    intro a t
    have hv : v.toNat < 256 ^ 8 := v.toNat_lt
    exact congrArg Item.u64 (by
      rw [show (Field.u64 v).encoding = leBytes 8 v.toNat from rfl, natAt_written hv,
        UInt64.ofNat_toNat])
  | bytes b =>
    exact .of_fixed ((Reader.fixed_skip b.length).bind fun _ => Reader.fixed_pure _) rfl
      fun _ _ => rfl
  | cstr s => exact undoes_cstr s

end Reads

section Records

/-- From anywhere in a buffer, the reads of a record return what was written and stop after it. -/
theorem readFields_record (fields : List Field) (a t : Bytes) :
    readFields (fields.map Field.kind) ⟨a ++ (Field.record fields ++ t), a.length⟩ =
      (fields.map Field.item,
        .ok ⟨a ++ (Field.record fields ++ t), a.length + (Field.record fields).length⟩) := by
  induction fields generalizing a with
  | nil => rfl
  | cons f fields ih =>
    have hnext := ih (a ++ f.encoding)
    rw [List.append_assoc, List.length_append] at hnext
    rw [Field.record_cons, List.append_assoc, List.map_cons, readFields,
      (undoes f).whole a (Field.record fields ++ t)]
    dsimp only
    rw [hnext, List.length_append, Nat.add_assoc, List.map_cons]

/-- In a cut record the reads that succeed return what was written, and one finds too little. -/
theorem readFields_cut (fields : List Field) (a : Bytes) {p : Bytes} (hp : p <+: Field.record fields)
    (hne : p ≠ Field.record fields) : ∃ vs,
      readFields (fields.map Field.kind) ⟨a ++ p, a.length⟩ = (vs, .error .truncated) ∧
      vs <+: fields.map Field.item := by
  induction fields generalizing a p with
  | nil =>
    have hnil : p = [] := List.prefix_nil.mp hp
    exact absurd hnil hne
  | cons f fields ih =>
    rw [Field.record_cons] at hp hne
    rw [List.map_cons, List.map_cons, readFields]
    -- the cut falls inside the first field or after it
    by_cases hfirst : f.encoding <+: p
    · obtain ⟨q, rfl⟩ := hfirst
      have hq : q <+: Field.record fields := (List.prefix_append_right_inj f.encoding).mp hp
      have hq' : q ≠ Field.record fields := fun heq => hne (by rw [heq])
      obtain ⟨vs, hvs, hstart⟩ := ih (a ++ f.encoding) hq hq'
      rw [List.append_assoc, List.length_append] at hvs
      rw [(undoes f).whole a q]
      dsimp only
      rw [hvs]
      exact ⟨f.item :: vs, rfl, List.cons_prefix_cons.mpr ⟨rfl, hstart⟩⟩
    · have hin : p <+: f.encoding := by
        rcases List.prefix_or_prefix_of_prefix hp (List.prefix_append f.encoding _) with h | h
        · exact h
        · exact absurd h hfirst
      obtain ⟨r, hr⟩ := (undoes f).cut a p hin fun heq => hfirst (heq ▸ List.prefix_rfl)
      rw [hr]
      exact ⟨[], rfl, List.nil_prefix⟩

/-- A read keeps the buffer and leaves the cursor inside it. -/
theorem Kind.read_bounds {k : Kind} {r r' : Reader} {v : Item} (hr : r.pos ≤ r.buf.length)
    (h : k.read r = .ok v r') : r'.buf = r.buf ∧ r'.pos ≤ r'.buf.length := by
  have hfixed : ∀ {m : ReadM Item} {n : ℕ} {g : Bytes → ℕ → Item}, Reader.Fixed m n g →
      m r = .ok v r' → r'.buf = r.buf ∧ r'.pos ≤ r'.buf.length := by
    intro m n g hm h
    have hcase := hm r.buf r.pos hr
    split_ifs at hcase with hn
    · rw [hcase] at h
      cases h
      exact ⟨rfl, hn⟩
    · obtain ⟨_, herr⟩ := hcase
      rw [herr] at h
      cases h
  cases k with
  | u16 => exact hfixed (Reader.fixed_u16.bind fun _ => Reader.fixed_pure _) h
  | u32 => exact hfixed (Reader.fixed_u32.bind fun _ => Reader.fixed_pure _) h
  | i32 => exact hfixed (Reader.fixed_i32.bind fun _ => Reader.fixed_pure _) h
  | u64 => exact hfixed (Reader.fixed_u64.bind fun _ => Reader.fixed_pure _) h
  | skip n => exact hfixed ((Reader.fixed_skip n).bind fun _ => Reader.fixed_pure _) h
  | cstr =>
    obtain ⟨s, r₁, hread, hpure⟩ := bind_ok h
    cases hpure
    unfold Reader.cstr at hread
    dsimp only at hread
    split at hread
    · next nul hnul =>
      cases hread
      have hlt := (List.findIdx?_eq_some_iff_getElem.mp hnul).1
      rw [List.length_drop] at hlt
      exact ⟨rfl, by dsimp only; omega⟩
    · cases hread

/-- The cursor stays inside the buffer over any number of reads of any kinds. -/
theorem readFields_bounds {ks : List Kind} {r r' : Reader} {vs : List Item}
    (hr : r.pos ≤ r.buf.length) (h : readFields ks r = (vs, .ok r')) :
    r'.buf = r.buf ∧ r'.pos ≤ r'.buf.length := by
  induction ks generalizing r vs with
  | nil =>
    cases h
    exact ⟨rfl, hr⟩
  | cons k ks ih =>
    rw [readFields] at h
    split at h
    · next v r₁ hread =>
      obtain ⟨hbuf, hpos⟩ := Kind.read_bounds hr hread
      have hrest : readFields ks r₁ = ((readFields ks r₁).1, .ok r') :=
        Prod.ext rfl (Prod.ext_iff.mp h).2
      obtain ⟨hbuf', hpos'⟩ := ih hpos hrest
      exact ⟨hbuf'.trans hbuf, hpos'⟩
    · cases h

end Records

/-- Reading undoes writing for every sequence of fields, whatever follows. Every cut of a record
makes some read fail, after right values only. No cursor leaves its buffer, so neither does the
slice that `remaining` and `cstr` take from it. -/
theorem reader_undoes_writer (fields : List Field) :
    (∀ t, ∃ r, readFields (fields.map Field.kind) (.new (Field.record fields ++ t)) =
      (fields.map Field.item, .ok r) ∧ Reader.remaining r = .ok t r) ∧
    (∀ p, p <+: Field.record fields → p ≠ Field.record fields → ∃ vs,
      readFields (fields.map Field.kind) (.new p) = (vs, .error .truncated) ∧
        vs <+: fields.map Field.item) ∧
    ∀ buf ks vs r, readFields ks (.new buf) = (vs, .ok r) → r.buf = buf ∧ r.pos ≤ buf.length := by
  refine ⟨fun t => ?_, fun p hp hne => readFields_cut fields [] hp hne, fun buf ks vs r h => ?_⟩
  · refine ⟨_, readFields_record fields [] t, ?_⟩
    unfold Reader.remaining
    simp
  · obtain ⟨hbuf, hpos⟩ := readFields_bounds (Nat.zero_le _) h
    rw [hbuf] at hpos
    exact ⟨hbuf, hpos⟩

/-- A record of every shape, cut inside its string. -/
def sampleFields : List Field :=
  [.u16 7, .i32 (-1), .bytes [1, 2, 3], .cstr ⟨[97, 98], by decide⟩, .u64 5, .u32 9]

theorem reader_undoes_writer_cut : ∃ vs, readFields (sampleFields.map Field.kind)
    (.new ((Field.record sampleFields).take 10)) = (vs, .error .truncated) ∧
      vs <+: sampleFields.map Field.item :=
  (reader_undoes_writer sampleFields).2.1 _ (List.take_prefix _ _) (by decide +kernel)

end Riftlessfs.Fuse
