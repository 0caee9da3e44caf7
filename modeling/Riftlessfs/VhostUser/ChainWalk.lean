import Riftlessfs.VhostUser.Virtqueue

/-! `read_chain` against the path of links it follows. -/
namespace Riftlessfs.VhostUser
open Lib.Flat Lib.LittleEndian Riftlessfs.Proto

structure Desc where
  addr : UInt64
  len : UInt32
  flags : UInt16
  next : UInt16
  deriving DecidableEq, Repr

namespace Desc

def isNext (d : Desc) : Prop := d.flags &&& VIRTQ_DESC_F_NEXT ≠ 0

def isWrite (d : Desc) : Prop := d.flags &&& VIRTQ_DESC_F_WRITE ≠ 0

def isIndirect (d : Desc) : Prop := d.flags &&& VIRTQ_DESC_F_INDIRECT ≠ 0

instance (d : Desc) : Decidable d.isNext := inferInstanceAs (Decidable (_ ≠ _))

instance (d : Desc) : Decidable d.isIndirect := inferInstanceAs (Decidable (_ ≠ _))

instance (d : Desc) : Decidable d.isWrite := inferInstanceAs (Decidable (_ ≠ _))

def segment (d : Desc) : Segment := (d.addr, d.len.toUInt64)

/-- The entry as it lies in the table. -/
def encode (d : Desc) : List UInt8 :=
  leBytes 8 d.addr.toNat ++ leBytes 4 d.len.toNat ++ leBytes 2 d.flags.toNat ++
    leBytes 2 d.next.toNat

end Desc

/-- The address `a`, if 64 bits hold it. -/
def exactAddr (a : ℕ) : Option UInt64 := if a < 2 ^ 64 then some (.ofNat a) else none

private theorem exactAddr_of_lt {a : ℕ} (h : a < 2 ^ 64) : exactAddr a = some (.ofNat a) := if_pos h

theorem toNat_add_of_fits {x y : UInt64} (h : x.toNat + y.toNat < 2 ^ 64) :
    (x + y).toNat = x.toNat + y.toNat := by
  rw [UInt64.toNat_add]
  exact Nat.mod_eq_of_lt h

theorem exactAddr_add {x y : UInt64} (h : x.toNat + y.toNat < 2 ^ 64) :
    exactAddr (x.toNat + y.toNat) = some (x + y) := by
  rw [exactAddr_of_lt h]
  congr 1

/-- Scaling a 16-bit index to bytes does not wrap. -/
theorem scaled_toNat (i : UInt16) {k : UInt64} (hk : k.toNat ≤ 16) :
    (i.toUInt64 * k).toNat = k.toNat * i.toNat := by
  have hi : i.toNat < 2 ^ 16 := i.toNat_lt
  have hlt : i.toNat * k.toNat < 2 ^ 16 * 17 :=
    Nat.mul_lt_mul_of_lt_of_le hi (by omega) (by decide)
  rw [UInt64.toNat_mul, mul_comm k.toNat]
  exact Nat.mod_eq_of_lt (hlt.trans (by decide))

/-- The entry with index `i` of the table at `table`, if its four fields are mapped. -/
def tableEntry (mem : GuestMemory) (table : ℕ) (i : UInt16) : Option Desc := do
  let addr ← (exactAddr (table + 16 * i.toNat)).bind (mem.readU64 .user)
  let len ← (exactAddr (table + 16 * i.toNat + 8)).bind (mem.readU32 .user)
  let flags ← (exactAddr (table + 16 * i.toNat + 12)).bind (mem.readU16 .user)
  let next ← (exactAddr (table + 16 * i.toNat + 14)).bind (mem.readU16 .user)
  pure ⟨addr, len, flags, next⟩

/-- The links from entry `i` lead along the entries `path` to one without a link, and none is
indirect. -/
inductive Linked (entry : UInt16 → Option Desc) : UInt16 → List (UInt16 × Desc) → Prop
  | last {i : UInt16} {d : Desc} (hentry : entry i = some d) (hplain : ¬ d.isIndirect)
      (hend : ¬ d.isNext) : Linked entry i [(i, d)]
  | link {i : UInt16} {d : Desc} {path : List (UInt16 × Desc)} (hentry : entry i = some d)
      (hplain : ¬ d.isIndirect) (hnext : d.isNext) (hpath : Linked entry d.next path) :
      Linked entry i ((i, d) :: path)

/-- The buffers of the entries that the device may write. -/
def writableOf (path : List (UInt16 × Desc)) : List Segment :=
  (path.filter fun x => x.2.isWrite).map fun x => x.2.segment

/-- The buffers of the other entries. -/
def readableOf (path : List (UInt16 × Desc)) : List Segment :=
  (path.filter fun x => ¬ x.2.isWrite).map fun x => x.2.segment

def follow (entry : UInt16 → Option Desc) (head : UInt16) : ℕ → Option UInt16
  | 0 => some head
  | k + 1 => do
    let i ← follow entry head k
    let d ← entry i
    if d.isNext then some d.next else none

section Path
variable {entry : UInt16 → Option Desc} {i : UInt16} {path path' : List (UInt16 × Desc)}

theorem Linked.length_pos (h : Linked entry i path) : 0 < path.length := by
  cases h with
  | last => exact Nat.one_pos
  | link => exact Nat.succ_pos _

/-- There is one path from an entry. -/
theorem Linked.unique (h : Linked entry i path) (h' : Linked entry i path') : path = path' := by
  induction h generalizing path' with
  | last hentry hplain hend =>
    cases h' with
    | last hentry' =>
      rw [hentry] at hentry'
      cases hentry'
      rfl
    | link hentry' hplain' hnext =>
      rw [hentry] at hentry'
      cases hentry'
      exact absurd hnext hend
  | link hentry hplain hnext hpath ih =>
    cases h' with
    | last hentry' hplain' hend =>
      rw [hentry] at hentry'
      cases hentry'
      exact absurd hnext hend
    | link hentry' hplain' hnext' hpath' =>
      rw [hentry] at hentry'
      cases hentry'
      rw [ih hpath']

/-- From every entry of a path the rest of it is linked. -/
theorem Linked.suffix (h : Linked entry i path) {x : UInt16 × Desc} (hx : x ∈ path) :
    ∃ rest, Linked entry x.1 rest ∧ rest.length ≤ path.length := by
  induction h with
  | last hentry hplain hend =>
    rw [List.mem_singleton.mp hx]
    exact ⟨_, .last hentry hplain hend, le_refl _⟩
  | @link i d path hentry hplain hnext hpath ih =>
    rcases List.mem_cons.mp hx with rfl | hx
    · exact ⟨_, .link hentry hplain hnext hpath, le_refl _⟩
    · obtain ⟨rest, hrest, hle⟩ := ih hx
      exact ⟨rest, hrest, hle.trans (Nat.le_succ _)⟩

/-- A path visits no entry twice. -/
theorem Linked.nodup (h : Linked entry i path) : (path.map Prod.fst).Nodup := by
  induction h with
  | last => exact List.nodup_singleton _
  | @link i d path hentry hplain hnext hpath ih =>
    rw [List.map_cons, List.nodup_cons]
    refine ⟨?_, ih⟩
    intro hmem
    obtain ⟨x, hx, hxi⟩ := List.mem_map.mp hmem
    obtain ⟨rest, hrest, hle⟩ := hpath.suffix hx
    rw [hxi] at hrest
    have heq := (Linked.link hentry hplain hnext hpath).unique hrest
    rw [← heq, List.length_cons] at hle
    omega

/-- Following links, seen from the first one. -/
theorem follow_succ (entry : UInt16 → Option Desc) (i : UInt16) (k : ℕ) :
    follow entry i (k + 1) =
      (entry i).bind fun d => if d.isNext then follow entry d.next k else none := by
  induction k with
  | zero => rfl
  | succ k ih =>
    rw [follow, ih]
    cases entry i with
    | none => rfl
    | some d =>
      by_cases hnext : d.isNext
      · simp only [Option.bind_some, hnext, if_true]
        rfl
      · simp only [Option.bind_some, hnext, if_false]
        rfl

theorem follow_of_next {d : Desc} (hentry : entry i = some d) (hnext : d.isNext) (k : ℕ) :
    follow entry i (k + 1) = follow entry d.next k := by
  rw [follow_succ, hentry, Option.bind_some, if_pos hnext]

/-- Following links along a path visits its entries in order, and then ends. -/
theorem Linked.follow_eq (h : Linked entry i path) (k : ℕ) :
    follow entry i k = (path.map Prod.fst)[k]? := by
  induction h generalizing k with
  | last hentry hplain hend =>
    cases k with
    | zero => rfl
    | succ k =>
      rw [follow_succ, hentry, Option.bind_some, if_neg hend]
      rfl
  | link hentry hplain hnext hpath ih =>
    cases k with
    | zero => rfl
    | succ k =>
      rw [follow_of_next hentry hnext, ih]
      rfl

/-- Links that come back to an entry lead along no path. -/
theorem Linked.not_revisited (h : Linked entry i path) {a b : ℕ} (hab : a < b) {j : UInt16}
    (ha : follow entry i a = some j) (hb : follow entry i b = some j) : False := by
  rw [h.follow_eq] at ha hb
  have hlt : b < (path.map Prod.fst).length := (List.getElem?_eq_some_iff.mp hb).1
  exact List.nodup_iff_getElem?_ne_getElem?.mp h.nodup a b hab hlt (ha.trans hb.symm)

private theorem parts_length (path : List (UInt16 × Desc)) :
    (readableOf path).length + (writableOf path).length = path.length := by
  induction path with
  | nil => rfl
  | cons x path ih =>
    unfold readableOf writableOf at *
    by_cases hw : x.2.isWrite
    · simp [hw] at *
      omega
    · simp [hw] at *
      omega

end Path

/-- What the loop of `read_chain` adds to a chain along a path. -/
def DescChain.along (chain : DescChain) (path : List (UInt16 × Desc)) : DescChain :=
  { chain with
    readable := chain.readable ++ readableOf path
    writable := chain.writable ++ writableOf path }

theorem DescChain.along_cons (chain : DescChain) (x : UInt16 × Desc)
    (path : List (UInt16 × Desc)) :
    chain.along (x :: path) = (chain.along [x]).along path := by
  unfold DescChain.along readableOf writableOf
  by_cases hw : x.2.isWrite
  · simp [hw]
  · simp [hw]

section Read
variable {vq : Virtqueue} {mem : GuestMemory}

/-- The entry that `read_chain` reads for index `i`. -/
def Virtqueue.entry (vq : Virtqueue) (mem : GuestMemory) (i : UInt16) : Option Desc :=
  (vq.readDesc mem i).map fun (addr, len, flags, next) => ⟨addr, len, flags, next⟩

/-- Below this bound the sums of the address arithmetic are exact. -/
theorem entry_eq (htable : vq.descAddr.toNat + 16 * 65535 + 14 < 2 ^ 64) :
    vq.entry mem = tableEntry mem vq.descAddr.toNat := by
  funext i
  have hi : i.toNat < 2 ^ 16 := i.toNat_lt
  have hoff : (vq.descAddr + i.toUInt64 * DESC_LEN).toNat = vq.descAddr.toNat + 16 * i.toNat := by
    rw [UInt64.toNat_add, scaled_toNat i (by decide)]
    show (vq.descAddr.toNat + 16 * i.toNat) % 2 ^ 64 = _
    omega
  have hexact : ∀ k : UInt64, k.toNat ≤ 14 →
      exactAddr (vq.descAddr.toNat + 16 * i.toNat + k.toNat) =
        some (vq.descAddr + i.toUInt64 * DESC_LEN + k) := by
    intro k hk
    rw [← hoff]
    exact exactAddr_add (by omega)
  have h0 : exactAddr (vq.descAddr.toNat + 16 * i.toNat) =
      some (vq.descAddr + i.toUInt64 * DESC_LEN) := by
    simpa using hexact 0 (by decide)
  have h8 : exactAddr (vq.descAddr.toNat + 16 * i.toNat + 8) = _ := hexact 8 (by decide)
  have h12 : exactAddr (vq.descAddr.toNat + 16 * i.toNat + 12) = _ := hexact 12 (by decide)
  have h14 : exactAddr (vq.descAddr.toNat + 16 * i.toNat + 14) = _ := hexact 14 (by decide)
  unfold Virtqueue.entry Virtqueue.readDesc tableEntry
  rw [h0, h8, h12, h14]
  simp [Option.map_bind]

/-- One turn of the loop. -/
theorem readChainFrom_succ (n : ℕ) (i : UInt16) (chain : DescChain) :
    vq.readChainFrom mem (n + 1) i chain =
      match vq.entry mem i with
      | none => .error .outOfBounds
      | some d =>
        if d.isIndirect then .error .indirectUnsupported
        else if d.isNext then vq.readChainFrom mem n d.next (chain.along [(i, d)])
        else .ok (chain.along [(i, d)]) := by
  rw [Virtqueue.readChainFrom, Virtqueue.entry]
  cases vq.readDesc mem i with
  | none => rfl
  | some r =>
    obtain ⟨addr, len, flags, next⟩ := r
    let d : Desc := ⟨addr, len, flags, next⟩
    have hadd : (if flags &&& VIRTQ_DESC_F_WRITE ≠ 0 then
          { chain with writable := chain.writable ++ [(addr, len.toUInt64)] }
        else { chain with readable := chain.readable ++ [(addr, len.toUInt64)] }) =
        chain.along [(i, d)] := by
      unfold DescChain.along readableOf writableOf
      by_cases hw : d.isWrite
      · refine (if_pos hw).trans ?_
        simp [hw, Desc.segment, d]
      · refine (if_neg hw).trans ?_
        simp [hw, Desc.segment, d]
    dsimp only [Option.map]
    rw [hadd]
    by_cases hind : d.isIndirect
    · exact (if_pos hind).trans (if_pos hind).symm
    · rw [if_neg hind]
      refine (if_neg hind).trans ?_
      by_cases hnext : d.isNext
      · exact (if_neg hnext).trans (if_pos hnext).symm
      · exact (if_pos (not_not.mp hnext)).trans (if_neg hnext).symm

/-- The loop with `n` entries left succeeds along a path of at most that many, and only so. -/
theorem readChainFrom_ok (n : ℕ) (i : UInt16) (chain chain' : DescChain) :
    vq.readChainFrom mem n i chain = .ok chain' ↔
      ∃ path, Linked (vq.entry mem) i path ∧ path.length ≤ n ∧ chain' = chain.along path := by
  induction n generalizing i chain with
  | zero =>
    constructor
    · intro h
      cases h
    · rintro ⟨path, hpath, hlen, -⟩
      exact absurd hpath.length_pos (Nat.not_lt.mpr hlen)
  | succ n ih =>
    rw [readChainFrom_succ]
    constructor
    · intro h
      cases hentry : vq.entry mem i with
      | none => simp [hentry] at h
      | some d =>
        simp only [hentry] at h
        by_cases hind : d.isIndirect
        · simp [hind] at h
        · rw [if_neg hind] at h
          by_cases hnext : d.isNext
          · rw [if_pos hnext] at h
            obtain ⟨path, hpath, hlen, rfl⟩ := (ih _ _).mp h
            exact ⟨_, .link hentry hind hnext hpath, Nat.succ_le_succ hlen,
              (chain.along_cons (i, d) path).symm⟩
          · rw [if_neg hnext] at h
            cases h
            exact ⟨_, .last hentry hind hnext, Nat.succ_le_succ (Nat.zero_le n), rfl⟩
    · rintro ⟨path, hpath, hlen, rfl⟩
      cases hpath with
      | last hentry hplain hend =>
        simp only [hentry]
        rw [if_neg hplain, if_neg hend]
      | link hentry hplain hnext hpath =>
        simp only [hentry]
        rw [if_neg hplain, if_pos hnext]
        exact (ih _ _).mpr ⟨_, hpath, Nat.le_of_succ_le_succ hlen, chain.along_cons _ _⟩

end Read

/-- `read_chain` succeeds along a path of at most 512 entries, and gives the buffers of that
path; otherwise it fails, and it does so when the links come back to an entry. -/
theorem readChain_exact (vq : Virtqueue) (mem : GuestMemory) (head : UInt16)
    (htable : vq.descAddr.toNat ≤ 2 ^ 64 - 2 ^ 20) :
    (∀ chain, vq.readChain mem head = .ok chain ↔
      ∃ path, Linked (tableEntry mem vq.descAddr.toNat) head path ∧
        1 ≤ path.length ∧ path.length ≤ 512 ∧
        chain = ⟨head, readableOf path, writableOf path⟩) ∧
    (∀ chain path, vq.readChain mem head = .ok chain →
      Linked (tableEntry mem vq.descAddr.toNat) head path →
      chain.readable.length + chain.writable.length = path.length) ∧
    ((¬ ∃ path, Linked (tableEntry mem vq.descAddr.toNat) head path ∧ path.length ≤ 512) →
      ∃ e, vq.readChain mem head = .error e) ∧
    (∀ a b i, a < b → follow (tableEntry mem vq.descAddr.toNat) head a = some i →
      follow (tableEntry mem vq.descAddr.toNat) head b = some i →
      ∃ e, vq.readChain mem head = .error e) := by
  have hok : ∀ chain, vq.readChain mem head = .ok chain ↔
      ∃ path, Linked (tableEntry mem vq.descAddr.toNat) head path ∧ path.length ≤ 512 ∧
        chain = ⟨head, readableOf path, writableOf path⟩ := by
    intro chain
    rw [← entry_eq (by omega)]
    exact readChainFrom_ok MAX_CHAIN_LEN head ⟨head, [], []⟩ chain
  have herror : (¬ ∃ path, Linked (tableEntry mem vq.descAddr.toNat) head path ∧
      path.length ≤ 512) → ∃ e, vq.readChain mem head = .error e := by
    intro hnone
    cases h : vq.readChain mem head with
    | error e => exact ⟨e, rfl⟩
    | ok chain =>
      obtain ⟨path, hpath, hlen, -⟩ := (hok chain).mp h
      exact absurd ⟨path, hpath, hlen⟩ hnone
  refine ⟨?_, ?_, herror, ?_⟩
  · intro chain
    rw [hok]
    constructor
    · rintro ⟨path, hpath, hlen, rfl⟩
      exact ⟨path, hpath, hpath.length_pos, hlen, rfl⟩
    · rintro ⟨path, hpath, -, hlen, rfl⟩
      exact ⟨path, hpath, hlen, rfl⟩
  · intro chain path h hpath
    obtain ⟨path', hpath', -, rfl⟩ := (hok chain).mp h
    rw [hpath.unique hpath']
    exact parts_length path'
  · intro a b i hab ha hb
    apply herror
    rintro ⟨path, hpath, -⟩
    exact hpath.not_revisited hab ha hb

/-- A table with a chain of two entries and an entry that links to itself. -/
def linkedTable : GuestMemory where
  regions := [⟨0x1000, 0x10000, 0x1000, 0x4000, 0x4000, 0x1000⟩]
  bytes := store (fun _ => 0) 0x4000 (List.flatMap Desc.encode
    [⟨0x1800, 40, 1, 1⟩, ⟨0x1900, 16, 2, 0⟩, ⟨0x1a00, 8, 1, 2⟩])

theorem readChain_exact_linked :
    (Virtqueue.new 4 0x10000 0x10080 0x10090).readChain linkedTable 0 =
      .ok ⟨0, [(0x1800, 40)], [(0x1900, 16)]⟩ ∧
    ∃ e, (Virtqueue.new 4 0x10000 0x10080 0x10090).readChain linkedTable 2 = .error e := by
  have h₀ : tableEntry linkedTable 0x10000 0 = some ⟨0x1800, 40, 1, 1⟩ := by decide +kernel
  have h₁ : tableEntry linkedTable 0x10000 1 = some ⟨0x1900, 16, 2, 0⟩ := by decide +kernel
  constructor
  · refine ((readChain_exact (.new 4 0x10000 0x10080 0x10090) linkedTable 0 (by decide)).1 _).mpr
      ⟨_, .link h₀ (by decide) (by decide) (.last h₁ (by decide) (by decide)), ?_⟩
    decide
  · exact (readChain_exact (.new 4 0x10000 0x10080 0x10090) linkedTable 2 (by decide)).2.2.2
      0 1 2 (by decide) rfl (by decide +kernel)

end Riftlessfs.VhostUser
