import Riftlessfs.Core.CallActs

/-! The bytes of an open file: what reads and writes through a handle do to them, and how
that depends on the flags the file was opened with. -/
namespace Riftlessfs.Core
open Lib.Effect PassthroughFs

/-- `new` is `old` with `data` put at `off`: a gap before `off` is zero, and every other
byte stays. -/
structure Patched (old : List UInt8) (off : ℕ) (data new : List UInt8) : Prop where
  written : ∀ i, i < data.length → new[off + i]? = data[i]?
  kept : ∀ i, i < old.length → i < off ∨ off + data.length ≤ i → new[i]? = old[i]?
  zeros : ∀ i, old.length ≤ i → i < off → data ≠ [] → new[i]? = some 0
  length : new.length = if data = [] then old.length else max old.length (off + data.length)

section Bytes
variable {old data : List UInt8} {off : ℕ}

@[simp] theorem length_resize : (resize old off).length = off := by
  unfold resize
  rw [List.length_append, List.length_take, List.length_replicate]
  omega

theorem getElem?_resize {i : ℕ} (hi : i < off) :
    (resize old off)[i]? = some (old[i]?.getD 0) := by
  unfold resize
  by_cases hlt : i < old.length
  · rw [List.getElem?_append_left (by rw [List.length_take]; omega), List.getElem?_take_of_lt hi,
      List.getElem?_eq_getElem hlt]
    rfl
  · have hlen : (old.take off).length = old.length := by
      rw [List.length_take]
      omega
    rw [List.getElem?_append_right (by omega), hlen, List.getElem?_replicate_of_lt (by omega),
      List.getElem?_eq_none (by omega)]
    rfl

theorem patched_writeAt (old : List UInt8) (off : ℕ) (data : List UInt8) :
    Patched old off data (writeAt old off data) := by
  unfold writeAt
  split_ifs with hnil
  · subst hnil
    refine ⟨fun i hi => ?_, fun i _ _ => rfl, fun i _ _ hne => ?_, ?_⟩
    · simp at hi
    · exact absurd rfl hne
    · simp
  · have hpos : 0 < data.length := List.length_pos_iff.mpr hnil
    constructor
    · intro i hi
      rw [List.append_assoc, List.getElem?_append_right (by simp), length_resize,
        Nat.add_sub_cancel_left, List.getElem?_append_left hi]
    · intro i hi hout
      rcases hout with hlt | hge
      · rw [List.append_assoc, List.getElem?_append_left (by simpa using hlt),
          getElem?_resize hlt, List.getElem?_eq_getElem hi]
        rfl
      · have hlen : (resize old off ++ data).length = off + data.length := by simp
        rw [List.getElem?_append_right (by omega), hlen, List.getElem?_drop]
        congr 1
        omega
    · intro i hge hlt _
      rw [List.append_assoc, List.getElem?_append_left (by simpa using hlt), getElem?_resize hlt,
        List.getElem?_eq_none hge]
      rfl
    · rw [if_neg hnil]
      simp only [List.length_append, length_resize, List.length_drop]
      omega

/-- Appending is no patch one byte before the end, nor one past it. -/
theorem not_patched_append {b : UInt8} {new : List UInt8}
    (hnew : new = writeAt old old.length [b]) :
    ¬ Patched old (if old = [] then 1 else 0) [b] new := by
  intro hp
  have hlen := hp.length
  have happ := (patched_writeAt old old.length [b]).length
  rw [hnew, happ] at hlen
  simp only [List.cons_ne_nil, if_false, List.length_singleton] at hlen
  split_ifs at hlen with hnil
  · subst hnil
    simp at hlen
  · have hpos : 0 < old.length := List.length_pos_iff.mpr hnil
    omega

end Bytes

def Host.fileData (h : Host) (k : FileKey) : Option (List UInt8) :=
  match h.node k with
  | some ⟨.file data, _⟩ => some data
  | _ => none

/-- The open flags under which a handle's offsets mean what they say, and reads succeed:
read and write access, no appending, no unaligned direct transfers, and an open file
rather than a mere path. -/
structure Positional (align : ℕ) (flags : UInt32) : Prop where
  access : flags &&& O_ACCMODE = O_RDWR
  append : hasFlag flags O_APPEND = false
  path : hasFlag flags O_PATH = false
  direct : hasFlag flags O_DIRECT = true → align = 1

section Data
variable {h h' : Host} {k : FileKey} {data new : List UInt8} {fd : Fd} {off : UInt64}
  {size n : ℕ} {room : Option ℕ} {base : FileKey} {path : Name} {flags mode : UInt32}
  {fresh : FileKey}

theorem Host.fileData_some (hd : h.fileData k = some data) :
    ∃ info, h.node k = some ⟨.file data, info⟩ := by
  unfold fileData at hd
  split at hd
  · rename_i d info hn
    cases hd
    exact ⟨info, hn⟩
  · cases hd

theorem Host.fileData_setData (hd : h.fileData k = some data) :
    (h.setData k new).fileData k = some new := by
  obtain ⟨info, hn⟩ := fileData_some hd
  unfold setData
  simp only [hn]
  unfold fileData
  rw [node_setNode, if_pos rfl]

theorem Host.dioAlign_setData : (h.setData k new).dioAlign = h.dioAlign := by
  unfold setData
  split <;> rfl

theorem Host.openat_flags (ho : h.openat base path flags mode fresh = .ok (fd, h')) :
    fd.flags = flags := by
  unfold openat at ho
  split_ifs at ho
  · unfold openPath at ho
    obtain ⟨k, -, ho⟩ := except_bind_ok ho
    simp only [Bind.bind, Except.bind] at ho
    split_ifs at ho
    cases ho
    rfl
  · unfold openTmpfile at ho
    simp only [Bind.bind, Except.bind] at ho
    split at ho
    · cases ho
    split at ho
    · cases ho
    split at ho
    · cases ho
    split at ho
    · cases ho
    cases ho
    rfl
  · unfold openCreate at ho
    simp only [Bind.bind, Except.bind] at ho
    split at ho
    · cases ho
    split at ho
    · cases ho
    split at ho
    · cases ho
    split at ho
    · split at ho
      · cases ho
      · rw [(finishOpen_ok ho).eq]
    · split at ho
      · cases ho
      split at ho
      · cases ho
      cases ho
      rfl
  · obtain ⟨k, -, ho⟩ := except_bind_ok ho
    rw [(finishOpen_ok ho).eq]

/-- What a successful read tells about the descriptor, and what it returns. -/
theorem Host.pread_ok {b : List UInt8} (hp : h.pread fd off size = .ok (b, h')) :
    hasFlag fd.flags O_PATH = false ∧ readable fd.flags = true ∧
      h.misaligned fd off.toNat size = false ∧ h' = h := by
  unfold pread at hp
  split at hp
  · cases hp
  rename_i hflags
  push Not at hflags
  split at hp
  · cases hp
  split at hp
  · split at hp
    · cases hp
    · rename_i hal
      cases hp
      exact ⟨Bool.eq_false_of_not_eq_true hflags.1, hflags.2, Bool.eq_false_of_not_eq_true hal, rfl⟩
  · cases hp
  · cases hp

theorem Host.pread_length {b : List UInt8} (hp : h.pread fd off size = .ok (b, h')) :
    b.length ≤ size := by
  unfold pread at hp
  split at hp
  · cases hp
  split at hp
  · cases hp
  split at hp
  · split at hp
    · cases hp
    · cases hp
      rw [List.length_take]
      omega
  · cases hp
  · cases hp

theorem Positional.aligned (hf : Positional h.dioAlign fd.flags) (off len : ℕ) :
    h.misaligned fd off len = false := by
  unfold Host.misaligned
  cases hd : hasFlag fd.flags O_DIRECT with
  | false => rfl
  | true =>
    rw [hf.direct hd]
    simp [Nat.mod_one]

theorem Positional.readable (hf : Positional n flags) : readable flags = true := by
  unfold Core.readable
  rw [hf.access]
  rfl

/-- Reads through positional handles return the bytes there are. -/
theorem Host.pread_positional (hf : Positional h.dioAlign fd.flags)
    (hd : h.fileData fd.file = some data) (hoff : off.toNat + size < 2 ^ 63)
    (hsize : size ≤ MAX_RW_COUNT) :
    h.pread fd off size = .ok ((data.drop off.toNat).take size, h) := by
  obtain ⟨info, hn⟩ := fileData_some hd
  unfold pread
  rw [if_neg, if_neg (by omega)]
  · simp only [hn]
    rw [hf.aligned, Nat.min_eq_left hsize]
    rfl
  · rw [hf.path, hf.readable]
    simp

/-- Writes through positional handles patch the file where they say. -/
theorem Host.pwrite_positional (hf : Positional h.dioAlign fd.flags)
    (hd : h.fileData fd.file = some data) (hw : h.pwrite room fd off new = .ok (n, h')) :
    n ≤ new.length ∧ n ≤ MAX_RW_COUNT ∧ h'.dioAlign = h.dioAlign ∧
      h'.fileData fd.file = some (writeAt data off.toNat (new.take n)) ∧
      ∀ k, k ≠ fd.file → h'.node k = h.node k := by
  obtain ⟨info, hn⟩ := fileData_some hd
  unfold pwrite at hw
  split at hw
  · cases hw
  split at hw
  · cases hw
  simp only [hn] at hw
  split at hw
  · cases hw
  split at hw
  · cases hw
  rw [hf.append] at hw
  cases hw
  refine ⟨by omega, by omega, dioAlign_setData, fileData_setData hd, fun k hk => ?_⟩
  exact node_setData_ne _ hk

theorem Positional.writable (hf : Positional n flags) : writable flags = true := by
  unfold Core.writable
  rw [hf.access]
  rfl

/-- With room for it, a write through a positional handle is done in full. -/
theorem Host.pwrite_full (hf : Positional h.dioAlign fd.flags)
    (hd : h.fileData fd.file = some data) (hoff : off.toNat < 2 ^ 63)
    (hlen : new.length ≤ MAX_RW_COUNT) :
    ∃ h', h.pwrite none fd off new = .ok (new.length, h') ∧ h'.dioAlign = h.dioAlign ∧
      h'.fileData fd.file = some (writeAt data off.toNat new) := by
  obtain ⟨info, hn⟩ := fileData_some hd
  have hflags : ¬ (hasFlag fd.flags O_PATH = true ∨ ¬ Core.writable fd.flags = true) := by
    rw [hf.path, hf.writable]
    simp
  unfold pwrite
  rw [if_neg hflags, if_neg (by omega)]
  simp only [hn, hf.aligned, hf.append, Option.getD_none, Nat.min_self, Nat.min_eq_left hlen,
    List.take_length, Bool.false_eq_true, if_false]
  rw [if_neg (by tauto)]
  exact ⟨_, rfl, dioAlign_setData, fileData_setData hd⟩

/-- An append lands at the end of the file, wherever it was asked for. -/
theorem Host.pwrite_append {b : UInt8} (hf : hasFlag fd.flags O_PATH = false)
    (hw : writable fd.flags = true) (ha : hasFlag fd.flags O_APPEND = true)
    (hal : h.misaligned fd off.toNat 1 = false) (hoff : off.toNat < 2 ^ 63)
    (hd : h.fileData fd.file = some data) :
    ∃ h', h.pwrite none fd off [b] = .ok (1, h') ∧
      h'.fileData fd.file = some (writeAt data data.length [b]) := by
  obtain ⟨info, hn⟩ := fileData_some hd
  unfold pwrite
  rw [if_neg, if_neg (by omega)]
  · simp only [hn, List.length_singleton]
    rw [hal, if_neg (by decide), if_neg (by decide), if_pos ha]
    exact ⟨_, rfl, fileData_setData hd⟩
  · rw [hf, hw]
    simp

end Data

section Handle
variable {env : Env} {w w' : World} {ino fh : UInt64} {flags mode : UInt32} {p : UInt64}
  {n : Name} {r : UInt64 × UInt64 × Attr}

/-- The descriptor of an opened handle carries the flags asked for. -/
theorem openFile_flags (hr : ino ≠ ROOT_ID) (ho : openFile env ino flags w = .ok fh w') :
    ∃ fd, w'.handles.handles fh = some (.file fd) ∧ fd.flags = flags := by
  unfold openFile at ho
  obtain ⟨fd, w₁, hre, hins⟩ := bind_ok ho
  rcases reopenViaParent_cases env ino flags w with
    ⟨e, he⟩ | ⟨d, fd', h₁, hroot, -⟩ | ⟨d, pd, fd', h₁, -, -, -, hopen, hok⟩
  · rw [he] at hre
    cases hre
  · exact absurd hroot hr
  · rw [hok] at hre
    cases hre
    cases hins
    exact ⟨fd, Function.update_self _ _ _, Host.openat_flags hopen⟩

/-- A created file's descriptor also carries `O_CREAT` and `O_EXCL`. -/
theorem create_flags (ho : create env p n flags mode w = .ok r w') :
    ∃ fd, w'.handles.handles r.2.1 = some (.file fd) ∧ fd.flags = flags ||| O_CREAT ||| O_EXCL := by
  rcases create_cases env p n flags mode w with ⟨e, he⟩ | ⟨pd, fd, h₁, -, hopen, heq⟩
  · rw [he] at ho
    cases ho
  · rw [heq] at ho
    obtain ⟨r₁, w₁, -, ho⟩ := bind_ok ho
    cases ho
    exact ⟨fd, Function.update_self _ _ _, Host.openat_flags hopen⟩

theorem hasFlag_created (flags bit : UInt32) (hb : hasFlag (O_CREAT ||| O_EXCL) bit = false) :
    hasFlag (flags ||| O_CREAT ||| O_EXCL) bit = hasFlag flags bit := by
  rw [UInt32.or_assoc, hasFlag_or, hb, Bool.or_false]

theorem accmode_created : (flags ||| O_CREAT ||| O_EXCL) &&& O_ACCMODE = flags &&& O_ACCMODE := by
  have hdistrib : (flags ||| (O_CREAT ||| O_EXCL)) &&& O_ACCMODE =
      (flags &&& O_ACCMODE) ||| ((O_CREAT ||| O_EXCL) &&& O_ACCMODE) :=
    UInt32.toBitVec_inj.mp BitVec.and_or_distrib_right
  have hzero : (O_CREAT ||| O_EXCL) &&& O_ACCMODE = 0 := by decide
  rw [UInt32.or_assoc, hdistrib, hzero, UInt32.or_zero]

/-- Creating does not change whether a handle is positional. -/
theorem positional_created {align : ℕ} :
    Positional align (flags ||| O_CREAT ||| O_EXCL) ↔ Positional align flags := by
  have happ := hasFlag_created flags O_APPEND (by decide)
  have hpath := hasFlag_created flags O_PATH (by decide)
  have hdir := hasFlag_created flags O_DIRECT (by decide)
  constructor
  · rintro ⟨h₁, h₂, h₃, h₄⟩
    rw [accmode_created] at h₁
    rw [happ] at h₂
    rw [hpath] at h₃
    rw [hdir] at h₄
    exact ⟨h₁, h₂, h₃, h₄⟩
  · rintro ⟨h₁, h₂, h₃, h₄⟩
    exact ⟨accmode_created.trans h₁, happ.trans h₂, hpath.trans h₃,
      fun h => h₄ (hdir.symm.trans h)⟩

end Handle

end Riftlessfs.Core
