import Riftlessfs.VhostUser.Service

/-! Chains whose segments are mapped: the loops over them as loads and stores of the
server's own memory. -/
namespace Riftlessfs.VhostUser
open Lib.Flat Lib.Effect Riftlessfs.Proto

def GuestMemory.SpaceApart (mem : GuestMemory) (space : AddrSpace) : Prop :=
  mem.regions.Pairwise fun r r' =>
    Apart (r.baseFor space).toNat r.len.toNat (r'.baseFor space).toNat r'.len.toNat

/-- The regions do not overlap in the address space, and none extends past its end. -/
structure GuestMemory.Regular (mem : GuestMemory) (space : AddrSpace) : Prop where
  apart : mem.regions.Pairwise fun r r' =>
    Apart (r.baseFor space).toNat r.len.toNat (r'.baseFor space).toNat r'.len.toNat
  fits : ∀ r ∈ mem.regions, (r.baseFor space).toNat + r.len.toNat ≤ 2 ^ 64

section Find
variable {mem : GuestMemory} {space : AddrSpace} {addr len : UInt64} {r r' : Region} {p : ℕ}

/-- The test of `find`, as the range it asks for. -/
theorem find_test : (addr ≥ r.baseFor space && len ≤ r.len &&
      addr - r.baseFor space ≤ r.len - len) = true ↔
    (r.baseFor space).toNat ≤ addr.toNat ∧
      addr.toNat + len.toNat ≤ (r.baseFor space).toNat + r.len.toNat := by
  rw [Bool.and_eq_true, Bool.and_eq_true, decide_eq_true_eq, decide_eq_true_eq, decide_eq_true_eq,
    ge_iff_le, UInt64.le_iff_toNat_le, UInt64.le_iff_toNat_le, UInt64.le_iff_toNat_le]
  constructor
  · rintro ⟨⟨hbase, hlen⟩, hoff⟩
    rw [UInt64.toNat_sub_of_le _ _ (UInt64.le_iff_toNat_le.mpr hbase),
      UInt64.toNat_sub_of_le _ _ (UInt64.le_iff_toNat_le.mpr hlen)] at hoff
    omega
  · rintro ⟨hbase, hend⟩
    have hlen : len.toNat ≤ r.len.toNat := by omega
    refine ⟨⟨hbase, hlen⟩, ?_⟩
    rw [UInt64.toNat_sub_of_le _ _ (UInt64.le_iff_toNat_le.mpr hbase),
      UInt64.toNat_sub_of_le _ _ (UInt64.le_iff_toNat_le.mpr hlen)]
    omega

theorem find_some (hf : mem.find space addr len = some r) :
    r ∈ mem.regions ∧ (r.baseFor space).toNat ≤ addr.toNat ∧
      addr.toNat + len.toNat ≤ (r.baseFor space).toNat + r.len.toNat := by
  unfold GuestMemory.find at hf
  have htest := List.find?_some hf
  exact ⟨List.mem_of_find?_eq_some hf, find_test.mp htest⟩

/-- When regions do not overlap, one that holds a non-empty range is the one found for it. -/
theorem GuestMemory.SpaceApart.find_eq (ha : mem.SpaceApart space) (hr : r ∈ mem.regions)
    (hbase : (r.baseFor space).toNat ≤ addr.toNat)
    (hend : addr.toNat + len.toNat ≤ (r.baseFor space).toNat + r.len.toNat)
    (hpos : 0 < len.toNat) : mem.find space addr len = some r := by
  cases hf : mem.find space addr len with
  | none =>
    unfold GuestMemory.find at hf
    have hno := List.find?_eq_none.mp hf r hr
    exact absurd (find_test.mpr ⟨hbase, hend⟩) hno
  | some r' =>
    obtain ⟨hr', hbase', hend'⟩ := find_some hf
    by_contra hne
    have hsymm : Std.Symm fun r r' : Region =>
        Apart (r.baseFor space).toNat r.len.toNat (r'.baseFor space).toNat r'.len.toNat :=
      ⟨fun _ _ h => h.symm⟩
    have hapart := List.Pairwise.forall ha hr' hr fun h => hne (congrArg some h)
    unfold Apart at hapart
    omega

theorem slicePtr_some (hs : mem.slicePtr space addr len = some p) :
    ∃ r ∈ mem.regions, (r.baseFor space).toNat ≤ addr.toNat ∧
      addr.toNat + len.toNat ≤ (r.baseFor space).toNat + r.len.toNat ∧
      p = r.ptr + (addr.toNat - (r.baseFor space).toNat) := by
  unfold GuestMemory.slicePtr at hs
  obtain ⟨r, hf, hp⟩ := Option.bind_eq_some_iff.mp hs
  obtain ⟨hr, hbase, hend⟩ := find_some hf
  refine ⟨r, hr, hbase, hend, ?_⟩
  rw [← UInt64.toNat_sub_of_le _ _ (UInt64.le_iff_toNat_le.mpr hbase)]
  exact (Option.some.inj hp).symm

theorem GuestMemory.SpaceApart.slicePtr_eq (ha : mem.SpaceApart space) (hr : r ∈ mem.regions)
    (hbase : (r.baseFor space).toNat ≤ addr.toNat)
    (hend : addr.toNat + len.toNat ≤ (r.baseFor space).toNat + r.len.toNat)
    (hpos : 0 < len.toNat) :
    mem.slicePtr space addr len = some (r.ptr + (addr.toNat - (r.baseFor space).toNat)) := by
  unfold GuestMemory.slicePtr
  rw [ha.find_eq hr hbase hend hpos,
    ← UInt64.toNat_sub_of_le _ _ (UInt64.le_iff_toNat_le.mpr hbase)]
  rfl

/-- A non-empty part of a mapped slice is mapped, next to the rest of it. -/
theorem GuestMemory.Regular.slicePtr_part (hm : mem.Regular space)
    (hs : mem.slicePtr space addr len = some p) {o n : UInt64}
    (hend : o.toNat + n.toNat ≤ len.toNat) (hpos : 0 < n.toNat) :
    mem.slicePtr space (addr + o) n = some (p + o.toNat) := by
  obtain ⟨r, hr, hbase, hlen, rfl⟩ := slicePtr_some hs
  have hfits := hm.fits r hr
  have hadd : (addr + o).toNat = addr.toNat + o.toNat := by
    rw [UInt64.toNat_add]
    exact Nat.mod_eq_of_lt (by omega)
  rw [GuestMemory.SpaceApart.slicePtr_eq hm.apart hr (by omega) (by omega) hpos, hadd]
  congr 1
  omega

end Find

/-- `hs` are the segments `segs` as they lie in the server's memory. -/
def Hosts (mem : GuestMemory) (segs : List Segment) (hs : List (ℕ × ℕ)) : Prop :=
  List.Forall₂ (fun s h => mem.slicePtr .gpa s.1 s.2 = some h.1 ∧ h.2 = s.2.toNat) segs hs

def Mapped (mem : GuestMemory) (segs : List Segment) : Prop :=
  ∀ s ∈ segs, (mem.slicePtr .gpa s.1 s.2).isSome = true

instance (mem : GuestMemory) (segs : List Segment) : Decidable (Mapped mem segs) :=
  List.decidableBAll (fun s : Segment => (mem.slicePtr .gpa s.1 s.2).isSome = true) segs

theorem toNat_min (a b : UInt64) : (min a b).toNat = min a.toNat b.toNat := by
  show (if a ≤ b then a else b).toNat = min a.toNat b.toNat
  split_ifs with h
  · rw [Nat.min_eq_left (UInt64.le_iff_toNat_le.mp h)]
  · rw [UInt64.le_iff_toNat_le] at h
    rw [Nat.min_eq_right (by omega)]

section Loops
variable {mem : GuestMemory} {segs : List Segment} {hs : List (ℕ × ℕ)} {buf data : List UInt8}

theorem Mapped.hosts (h : Mapped mem segs) : ∃ hs, Hosts mem segs hs := by
  induction segs with
  | nil => exact ⟨[], .nil⟩
  | cons s segs ih =>
    obtain ⟨hs, hhs⟩ := ih fun t ht => h t (List.mem_cons_of_mem _ ht)
    obtain ⟨p, hp⟩ := Option.isSome_iff_exists.mp (h s List.mem_cons_self)
    exact ⟨(p, s.2.toNat) :: hs, .cons ⟨hp, rfl⟩ hhs⟩

theorem Hosts.length (h : Hosts mem segs hs) : hs.length = segs.length :=
  (List.Forall₂.length_eq h).symm

theorem Hosts.exists_segment (h : Hosts mem segs hs) {t : ℕ × ℕ} (ht : t ∈ hs) :
    ∃ s ∈ segs, mem.slicePtr .gpa s.1 s.2 = some t.1 ∧ t.2 = s.2.toNat := by
  induction h with
  | nil => cases ht
  | @cons s t' segs hs hst _ ih =>
    rcases List.mem_cons.mp ht with rfl | ht
    · exact ⟨s, List.mem_cons_self, hst⟩
    · obtain ⟨s', hs', hst'⟩ := ih ht
      exact ⟨s', List.mem_cons_of_mem _ hs', hst'⟩

theorem gatherSegments_eq (h : Hosts mem segs hs) (buf : List UInt8) :
    gatherSegments mem segs buf = .ok (buf ++ gather mem.bytes hs) := by
  induction h generalizing buf with
  | nil => simp [gatherSegments, gather]
  | @cons s t segs hs hst _ ih =>
    obtain ⟨addr, len⟩ := s
    obtain ⟨p, n⟩ := t
    obtain ⟨hp, rfl⟩ := hst
    have hslice : mem.getSlice .gpa addr len = some (load mem.bytes p len.toNat) := by
      unfold GuestMemory.getSlice
      rw [hp]
      rfl
    unfold gatherSegments
    simp only [hslice]
    rw [ih, gather, List.append_assoc]

/-- The front of a mapped segment is mapped. -/
theorem GuestMemory.Regular.slicePtr_front (hm : mem.Regular .gpa) {addr len : UInt64} {p n : ℕ}
    (hp : mem.slicePtr .gpa addr len = some p) (hn : n ≤ len.toNat) (hpos : 0 < n ∨ len.toNat = 0) :
    mem.slicePtr .gpa addr (.ofNat n) = some p ∧ (UInt64.ofNat n).toNat = n := by
  have hlt : n < 2 ^ 64 := lt_of_le_of_lt hn len.toNat_lt
  have hof : (UInt64.ofNat n).toNat = n := UInt64.toNat_ofNat_of_lt' hlt
  refine ⟨?_, hof⟩
  by_cases hz : 0 < n
  · have h := hm.slicePtr_part hp (o := 0) (n := .ofNat n) (by rw [hof]; simpa using hn) (by omega)
    simpa using h
  · have hlen : len = .ofNat n := by
      apply UInt64.toNat_inj.mp
      omega
    rwa [← hlen]

theorem gatherPrefix_eq (hm : mem.Regular .gpa) (h : Hosts mem segs hs) (maxLen : ℕ)
    (buf : List UInt8) :
    gatherPrefix mem maxLen segs buf =
      .ok (buf ++ (gather mem.bytes hs).take (maxLen - buf.length)) := by
  induction h generalizing buf with
  | nil => simp [gatherPrefix, gather]
  | @cons s t segs hs hst _ ih =>
    obtain ⟨addr, len⟩ := s
    obtain ⟨p, n⟩ := t
    obtain ⟨hp, rfl⟩ := hst
    unfold gatherPrefix
    split_ifs with hfull
    · rw [Nat.sub_eq_zero_of_le hfull, List.take_zero, List.append_nil]
    · have hroom : 0 < min (maxLen - buf.length) len.toNat ∨ len.toNat = 0 := by omega
      obtain ⟨hfront, hof⟩ := hm.slicePtr_front hp (Nat.min_le_right (maxLen - buf.length) _) hroom
      have hslice : mem.getSlice .gpa addr (.ofNat (min (maxLen - buf.length) len.toNat)) =
          some (load mem.bytes p (min (maxLen - buf.length) len.toNat)) := by
        unfold GuestMemory.getSlice
        rw [hfront, hof]
        rfl
      simp only [hslice]
      have hrest : maxLen - (buf.length + min (maxLen - buf.length) len.toNat) =
          maxLen - buf.length - len.toNat := by omega
      rw [ih, gather, List.take_append, load_length, List.length_append, load_length,
        List.append_assoc, load_take_min, hrest]

theorem iovecsFrom_eq (hm : mem.Regular .gpa) (h : Hosts mem segs hs) (skip max : UInt64) :
    iovecsFrom mem segs skip max = .ok (window hs skip.toNat max.toNat) := by
  induction h generalizing skip max with
  | nil => rfl
  | @cons s t segs hs hst _ ih =>
    obtain ⟨addr, len⟩ := s
    obtain ⟨p, n⟩ := t
    obtain ⟨hp, rfl⟩ := hst
    have hzero : max = 0 ↔ max.toNat = 0 := by
      rw [← UInt64.toNat_inj]
      rfl
    unfold iovecsFrom window
    by_cases hmax : max = 0
    · rw [if_pos hmax, if_pos (hzero.mp hmax)]
    rw [if_neg hmax, if_neg fun h => hmax (hzero.mpr h)]
    by_cases hskip : skip ≥ len
    · have hle : len.toNat ≤ skip.toNat := UInt64.le_iff_toNat_le.mp hskip
      rw [if_pos hskip, if_pos hle, ih, UInt64.toNat_sub_of_le _ _ hskip]
    have hlt : skip.toNat < len.toNat := by
      rw [ge_iff_le, UInt64.le_iff_toNat_le] at hskip
      omega
    rw [if_neg hskip, if_neg (by simpa using hlt)]
    have hsub : (len - skip).toNat = len.toNat - skip.toNat :=
      UInt64.toNat_sub_of_le _ _ (UInt64.le_iff_toNat_le.mpr hlt.le)
    have hmin : (min (len - skip) max).toNat = min (len.toNat - skip.toNat) max.toNat := by
      rw [← hsub]
      exact toNat_min _ _
    have hpos : 0 < max.toNat := Nat.pos_of_ne_zero fun h => hmax (hzero.mpr h)
    have hpart := hm.slicePtr_part hp (o := skip) (n := min (len - skip) max)
      (by simp only [hmin]; omega) (by omega)
    have hrest : (max - min (len - skip) max).toNat =
        max.toNat - min (len.toNat - skip.toNat) max.toNat := by
      rw [UInt64.toNat_sub_of_le, hmin]
      rw [UInt64.le_iff_toNat_le, hmin]
      exact Nat.min_le_right _ _
    simp only [hpart, ih, hmin, hrest]
    rfl

theorem inBounds_some {α : Type} {x : GuestMemory → Option α} {a : α} (h : x mem = some a) :
    inBounds x mem = .ok a mem := by
  unfold inBounds
  rw [h]

theorem inBounds_none {α : Type} {x : GuestMemory → Option α} (h : x mem = none) :
    inBounds x mem = .error .outOfBounds mem := by
  unfold inBounds
  rw [h]

theorem copyIntoSlice_eq (mem : GuestMemory) {space : AddrSpace} {addr len : UInt64} {p : ℕ}
    (hp : mem.slicePtr space addr len = some p) (b : List UInt8) :
    copyIntoSlice space addr len b mem = .ok () (mem.poke p b) := by
  have hok : inBounds (fun mem => mem.slicePtr space addr len) mem = .ok p mem := inBounds_some hp
  unfold copyIntoSlice
  rw [bind_of_ok hok]
  rfl

theorem scatterSegments_eq (hm : mem.Regular .gpa) (h : Hosts mem segs hs) (data : List UInt8)
    (bytes : ℕ → UInt8) (written : UInt32) :
    scatterSegments segs data written { mem with bytes := bytes } =
      .ok (written + .ofNat (min data.length (capacity hs)))
        { mem with bytes := scatter bytes hs data } := by
  induction h generalizing data bytes written with
  | nil => simp [scatterSegments, scatter, capacity, pure_apply]
  | @cons s t segs hs hst hrest ih =>
    obtain ⟨addr, len⟩ := s
    obtain ⟨p, n⟩ := t
    obtain ⟨hp, rfl⟩ := hst
    unfold scatterSegments
    split_ifs with hnil
    · subst hnil
      simp [pure_apply]
    · have hlen : 0 < data.length := List.length_pos_iff.mpr hnil
      have hroom : 0 < min data.length len.toNat ∨ len.toNat = 0 := by omega
      obtain ⟨hfront, -⟩ := hm.slicePtr_front hp (Nat.min_le_right data.length _) hroom
      have hcopy := copyIntoSlice_eq { mem with bytes := bytes } hfront
        (data.take (min data.length len.toNat))
      rw [bind_of_ok hcopy]
      have htake : data.take (min data.length len.toNat) = data.take len.toNat := by
        rw [Nat.min_comm, ← List.take_take, List.take_of_length_le (le_refl _)]
      have hdrop : data.drop (min data.length len.toNat) = data.drop len.toNat := by
        by_cases hc : len.toNat ≤ data.length
        · rw [Nat.min_eq_right hc]
        · rw [Nat.min_eq_left (by omega), List.drop_eq_nil_of_le (le_refl _),
            List.drop_eq_nil_of_le (by omega)]
      rw [htake, hdrop]
      have hnext := ih (data.drop len.toNat) (store bytes p (data.take len.toNat))
        (written + .ofNat (min data.length len.toNat))
      refine hnext.trans ?_
      have hsum : min data.length len.toNat + min (data.length - len.toNat) (capacity hs) =
          min data.length (len.toNat + capacity hs) := by omega
      rw [List.length_drop, UInt32.add_assoc, ← UInt32.ofNat_add, hsum]
      rfl

end Loops

end Riftlessfs.VhostUser
