import Riftlessfs.Fuse.Dispatch
import Riftlessfs.Fuse.Layout

/-! Directory records: the body of a `READDIR` reply decodes to the entries that fitted. -/
namespace Riftlessfs.Fuse
open Riftlessfs.Core Riftlessfs.Proto Lib.LittleEndian

/-- A `fuse_dirent` record, as its reader sees it. -/
structure Dirent where
  ino : UInt64
  off : UInt64
  kind : UInt32
  name : Bytes
  deriving DecidableEq, Repr

/-- The length of a record, a multiple of 8. -/
def direntLen (nameLen : ℕ) : ℕ := (24 + nameLen + 7) / 8 * 8

/-- The record at the head of a body, and what follows it. -/
def decodeDirent (buf : Bytes) : Option (Dirent × Bytes) :=
  let nameLen := natAt buf 16 4
  if direntLen nameLen ≤ buf.length then
    some (⟨.ofNat (natAt buf 0 8), .ofNat (natAt buf 8 8), .ofNat (natAt buf 20 4),
      (buf.drop 24).take nameLen⟩, buf.drop (direntLen nameLen))
  else none

/-- Read a body as records that follow each other; `none` when it is not that. Every record has a
byte, so as many rounds as there are bytes suffice. -/
def decodeDirents : ℕ → Bytes → Option (List Dirent)
  | _, [] => some []
  | 0, _ :: _ => none
  | rounds + 1, b :: bs => do
    let (d, rest) ← decodeDirent (b :: bs)
    let ds ← decodeDirents rounds rest
    some (d :: ds)

def Dirent.decodeAll (body : Bytes) : Option (List Dirent) := decodeDirents body.length body

def Dirent.encode (d : Dirent) : Bytes :=
  leBytes 8 d.ino.toNat ++ (leBytes 8 d.off.toNat ++ (leBytes 4 d.name.length ++
    (leBytes 4 d.kind.toNat ++ (d.name ++
      List.replicate (direntLen d.name.length - (24 + d.name.length)) 0))))

/-- The records of a listing whose first entry has index `i`: the offset of each is that of the
entry after it. -/
def direntsFrom : ℕ → List DirEntry → List Dirent
  | _, [] => []
  | i, e :: rest => ⟨e.ino, .ofNat (i + 1), dtType e.kind, e.name⟩ :: direntsFrom (i + 1) rest

section Records
variable {d : Dirent}

theorem direntLen_bounds (n : ℕ) : 24 + n ≤ direntLen n ∧ direntLen n ≤ 24 + n + 7 := by
  unfold direntLen
  omega

theorem encode_length (d : Dirent) : d.encode.length = direntLen d.name.length := by
  have hbounds := direntLen_bounds d.name.length
  unfold Dirent.encode
  simp only [List.length_append, leBytes_length, List.length_replicate]
  omega

theorem natAt_field {v w : ℕ} (hv : v < 256 ^ w) (b : Bytes) : natAt (leBytes w v ++ b) 0 w = v := by
  rw [natAt_append_left (by rw [leBytes_length]; omega), natAt_leBytes hv]

/-- A record at the head of a body is read back. -/
theorem decodeDirent_encode (hname : d.name.length < 2 ^ 32) (rest : Bytes) :
    decodeDirent (d.encode ++ rest) = some (d, rest) := by
  have hbounds := direntLen_bounds d.name.length
  have hlen := encode_length d
  have hino₀ : d.ino.toNat < 256 ^ 8 := d.ino.toNat_lt
  have hoff₀ : d.off.toNat < 256 ^ 8 := d.off.toNat_lt
  have hkind₀ : d.kind.toNat < 256 ^ 4 := d.kind.toNat_lt
  have hsize₀ : d.name.length < 256 ^ 4 := hname
  have hino : natAt (d.encode ++ rest) 0 8 = d.ino.toNat := by
    unfold Dirent.encode
    rw [List.append_assoc, natAt_field hino₀]
  have hoff : natAt (d.encode ++ rest) 8 8 = d.off.toNat := by
    unfold Dirent.encode
    rw [List.append_assoc, natAt_append_right (by simp), List.append_assoc]
    simp only [leBytes_length, Nat.sub_self]
    exact natAt_field hoff₀ _
  have hsize : natAt (d.encode ++ rest) 16 4 = d.name.length := by
    unfold Dirent.encode
    rw [List.append_assoc, natAt_append_right (by simp), List.append_assoc,
      natAt_append_right (by simp), List.append_assoc]
    simp only [leBytes_length, Nat.reduceSub]
    exact natAt_field hsize₀ _
  have hkind : natAt (d.encode ++ rest) 20 4 = d.kind.toNat := by
    unfold Dirent.encode
    rw [List.append_assoc, natAt_append_right (by simp), List.append_assoc,
      natAt_append_right (by simp), List.append_assoc, natAt_append_right (by simp),
      List.append_assoc]
    simp only [leBytes_length, Nat.reduceSub]
    exact natAt_field hkind₀ _
  have hbytes : ((d.encode ++ rest).drop 24).take d.name.length = d.name := by
    unfold Dirent.encode
    simp only [List.append_assoc]
    simp (disch := decide) only [drop_leBytes_append, Nat.reduceSub]
    rw [List.drop_zero, List.take_left' rfl]
  have hdrop : (d.encode ++ rest).drop (direntLen d.name.length) = rest := by
    rw [← hlen]
    exact List.drop_left' rfl
  have hfits : direntLen (natAt (d.encode ++ rest) 16 4) ≤ (d.encode ++ rest).length := by
    rw [hsize, List.length_append]
    omega
  unfold decodeDirent
  simp only
  rw [if_pos hfits, hsize, hino, hoff, hkind, hbytes, hdrop, UInt64.ofNat_toNat,
    UInt64.ofNat_toNat, UInt32.ofNat_toNat]

private theorem decode_records {ds : List Dirent} (hnames : ∀ d ∈ ds, d.name.length < 2 ^ 32)
    {rounds : ℕ}
    (hrounds : ds.length ≤ rounds) : decodeDirents rounds (ds.flatMap Dirent.encode) = some ds := by
  induction ds generalizing rounds with
  | nil => cases rounds <;> rfl
  | cons d ds ih =>
    cases rounds with
    | zero => cases hrounds
    | succ rounds =>
      have htail := ih (fun d' hd' => hnames d' (List.mem_cons_of_mem d hd'))
        (Nat.le_of_succ_le_succ hrounds)
      have hhead := decodeDirent_encode (hnames d List.mem_cons_self) (ds.flatMap Dirent.encode)
      rw [List.flatMap_cons]
      cases hbuf : d.encode ++ ds.flatMap Dirent.encode with
      | nil =>
        have hlen := congrArg List.length hbuf
        have hbounds := direntLen_bounds d.name.length
        rw [List.length_append, encode_length, List.length_nil] at hlen
        omega
      | cons b bs =>
        rw [hbuf] at hhead
        simp only [decodeDirents, hhead, Option.bind_eq_bind, Option.bind_some, htail]

private theorem records_length_le (ds : List Dirent) :
    ds.length ≤ (ds.flatMap Dirent.encode).length := by
  induction ds with
  | nil => exact Nat.le_refl 0
  | cons d ds ih =>
    have hlen := encode_length d
    have hbounds := direntLen_bounds d.name.length
    rw [List.flatMap_cons, List.length_append, List.length_cons]
    omega

/-- Records that follow each other are decoded one by one. -/
theorem decodeAll_records {ds : List Dirent} (hnames : ∀ d ∈ ds, d.name.length < 2 ^ 32) :
    Dirent.decodeAll (ds.flatMap Dirent.encode) = some ds :=
  decode_records hnames (records_length_le ds)

end Records

section Fill
variable {i size : ℕ} {entries : List DirEntry}

theorem direntsFrom_length (i : ℕ) (entries : List DirEntry) :
    (direntsFrom i entries).length = entries.length := by
  induction entries generalizing i with
  | nil => rfl
  | cons e entries ih => rw [direntsFrom, List.length_cons, List.length_cons, ih]

theorem direntsFrom_drop (i k : ℕ) (entries : List DirEntry) :
    direntsFrom (i + k) (entries.drop k) = (direntsFrom i entries).drop k := by
  induction k generalizing i entries with
  | zero => rfl
  | succ k ih =>
    cases entries with
    | nil => rfl
    | cons e entries =>
      have hnext : i + (k + 1) = i + 1 + k := by omega
      rw [hnext, List.drop_succ_cons, ih]
      rfl

/-- The offset of a record is the number of records up to it. -/
theorem direntsFrom_off {n : ℕ} (h : n < entries.length) :
    ((direntsFrom i entries)[n]?).map Dirent.off = some (.ofNat (i + n + 1)) := by
  induction n generalizing i entries with
  | zero =>
    cases entries with
    | nil => cases h
    | cons e entries => rfl
  | succ n ih =>
    cases entries with
    | nil => cases h
    | cons e entries =>
      have hnext : i + (n + 1) + 1 = i + 1 + n + 1 := by omega
      rw [direntsFrom, List.getElem?_cons_succ, ih (Nat.lt_of_succ_lt_succ h), hnext]

private theorem pushDirent_eq (out : Bytes) (remaining : ℕ) (ino off : UInt64) (kind : UInt32)
    (name : Bytes) : pushDirent out remaining ino off kind name =
      if direntLen name.length > remaining then (false, out)
      else (true, out ++ Dirent.encode ⟨ino, off, kind, name⟩) := by
  unfold pushDirent Dirent.encode direntLen
  simp only [List.append_assoc]

private theorem usizeSub_eq {a b : ℕ} (hb : b ≤ a) (ha : a < 2 ^ 64) : usizeSub a b = a - b := by
  unfold usizeSub
  omega

private theorem fillDirents_cons (hsize : size < 2 ^ 32) {out : Bytes} (hout : out.length ≤ size)
    (e : DirEntry) : fillDirents size i (e :: entries) out =
      if direntLen e.name.length > size - out.length then out
      else fillDirents size (i + 1) entries
        (out ++ Dirent.encode ⟨e.ino, .ofNat (i + 1), dtType e.kind, e.name⟩) := by
  have hremaining := usizeSub_eq hout (lt_trans hsize (by decide))
  have hpush := pushDirent_eq out (usizeSub size out.length) e.ino (.ofNat (i + 1)) (dtType e.kind)
    e.name
  rw [hremaining] at hpush
  rw [fillDirents, hremaining]
  by_cases hfits : direntLen e.name.length > size - out.length
  · rw [if_pos hfits] at hpush ⊢
    rw [hpush]
    rfl
  · rw [if_neg hfits] at hpush ⊢
    rw [hpush]
    rfl

/-- The loop appends records as long as they fit, and the first of them if it does. -/
theorem fillDirents_eq (i : ℕ) (entries : List DirEntry) (out : Bytes) (hsize : size < 2 ^ 32)
    (hout : out.length ≤ size) :
    ∃ n, n ≤ entries.length ∧
      fillDirents size i entries out =
        out ++ ((direntsFrom i entries).take n).flatMap Dirent.encode ∧
      (fillDirents size i entries out).length ≤ size ∧
      (∀ d ∈ (direntsFrom i entries).take n, d.name.length < 2 ^ 32) ∧
      ∀ e, entries.head? = some e → direntLen e.name.length ≤ size - out.length → 0 < n := by
  induction entries generalizing i out with
  | nil =>
    refine ⟨0, Nat.le_refl 0, ?_, hout, ?_, ?_⟩
    · rw [List.take_zero, List.flatMap_nil, List.append_nil]
      rfl
    · intro d hd
      cases hd
    · intro e he
      cases he
  | cons e entries ih =>
    rw [fillDirents_cons hsize hout]
    by_cases hfits : direntLen e.name.length > size - out.length
    · rw [if_pos hfits]
      refine ⟨0, Nat.zero_le _, ?_, hout, ?_, ?_⟩
      · rw [List.take_zero, List.flatMap_nil, List.append_nil]
      · intro d hd
        cases hd
      · intro e' he' hroom
        cases he'
        omega
    · rw [if_neg hfits]
      have hbounds := direntLen_bounds e.name.length
      have hlen : (Dirent.encode ⟨e.ino, .ofNat (i + 1), dtType e.kind, e.name⟩).length =
          direntLen e.name.length := encode_length _
      have hout' : (out ++ Dirent.encode ⟨e.ino, .ofNat (i + 1), dtType e.kind, e.name⟩).length ≤
          size := by
        rw [List.length_append, hlen]
        omega
      obtain ⟨n, hn, heq, hle, hnames, -⟩ := ih (i + 1) _ hout'
      refine ⟨n + 1, Nat.succ_le_succ hn, ?_, hle, ?_, fun _ _ _ => Nat.succ_pos n⟩
      · rw [heq, direntsFrom, List.take_succ_cons, List.flatMap_cons, List.append_assoc]
      · intro d hd
        rw [direntsFrom, List.take_succ_cons] at hd
        rcases List.mem_cons.mp hd with rfl | hd
        · show e.name.length < 2 ^ 32
          omega
        · exact hnames d hd

end Fill

end Riftlessfs.Fuse
