import Riftlessfs.VhostUser.ZeroCopy

/-! The segments of the chains that `read_chain` yields: how many and how long they are, and
where they lie in the server's memory. -/
namespace Riftlessfs.VhostUser
open Lib.Flat Lib.Effect Riftlessfs.Core Riftlessfs.Proto Riftlessfs.Fuse

/-- The regions are mapped apart in the server's memory. -/
def GuestMemory.HostApart (mem : GuestMemory) : Prop :=
  mem.regions.Pairwise fun r r' => Apart r.ptr r.len.toNat r'.ptr r'.len.toNat

theorem smallMemory_hostApart (image : Bytes) : (smallMemory image).HostApart :=
  List.pairwise_singleton _ _

def SegmentsApart (segs : List Segment) : Prop :=
  segs.Pairwise fun s t => Apart s.1.toNat s.2.toNat t.1.toNat t.2.toNat

structure DescChain.Bounded (chain : DescChain) : Prop where
  segments : chain.readable.length + chain.writable.length ≤ MAX_CHAIN_LEN
  lengths : ∀ s ∈ chain.writable, s.2.toNat < 2 ^ 32

instance (chain : DescChain) : Decidable chain.Bounded :=
  have : Decidable (∀ s ∈ chain.writable, s.2.toNat < 2 ^ 32) :=
    List.decidableBAll (fun s : Segment => s.2.toNat < 2 ^ 32) chain.writable
  decidable_of_iff (chain.readable.length + chain.writable.length ≤ MAX_CHAIN_LEN ∧
      ∀ s ∈ chain.writable, s.2.toNat < 2 ^ 32)
    ⟨fun h => ⟨h.1, h.2⟩, fun h => ⟨h.segments, h.lengths⟩⟩

section Bounded
variable {vq : Virtqueue} {mem : GuestMemory} {chain chain' : DescChain}

private theorem readChainFrom_bounded {n : ℕ} {idx : UInt16}
    (h : vq.readChainFrom mem n idx chain = .ok chain')
    (hlen : ∀ s ∈ chain.writable, s.2.toNat < 2 ^ 32) :
    chain'.head = chain.head ∧ chain'.readable.length + chain'.writable.length ≤
      chain.readable.length + chain.writable.length + n ∧
      ∀ s ∈ chain'.writable, s.2.toNat < 2 ^ 32 := by
  induction n generalizing idx chain with
  | zero => cases h
  | succ n ih =>
    unfold Virtqueue.readChainFrom at h
    split at h
    · cases h
    rename_i addr len flags next hdesc
    split at h
    · cases h
    have hshort : len.toUInt64.toNat < 2 ^ 32 := by
      rw [UInt32.toNat_toUInt64]
      exact len.toNat_lt
    simp only at h
    generalize hc : (if flags &&& VIRTQ_DESC_F_WRITE ≠ 0 then
        { chain with writable := chain.writable ++ [(addr, len.toUInt64)] }
      else { chain with readable := chain.readable ++ [(addr, len.toUInt64)] }) = chain₁ at h
    have hnext : chain₁.head = chain.head ∧ chain₁.readable.length + chain₁.writable.length =
        chain.readable.length + chain.writable.length + 1 ∧
        ∀ s ∈ chain₁.writable, s.2.toNat < 2 ^ 32 := by
      split_ifs at hc
      · subst hc
        refine ⟨rfl, by simp; omega, fun s hs => ?_⟩
        rcases List.mem_append.mp hs with hs | hs
        · exact hlen s hs
        · rw [List.mem_singleton.mp hs]
          exact hshort
      · subst hc
        exact ⟨rfl, by simp; omega, hlen⟩
    obtain ⟨hhead₁, hcount₁, hlen₁⟩ := hnext
    split at h
    · cases h
      exact ⟨hhead₁, by omega, hlen₁⟩
    · obtain ⟨hhead, hcount, hall⟩ := ih h hlen₁
      exact ⟨hhead.trans hhead₁, by omega, hall⟩

/-- The chains that `read_chain` yields are bounded, and carry the head asked for. -/
theorem readChain_bounded {head : UInt16} (h : vq.readChain mem head = .ok chain) :
    chain.head = head ∧ chain.Bounded := by
  obtain ⟨hhead, hcount, hall⟩ := readChainFrom_bounded h (by simp)
  refine ⟨hhead, ⟨?_, hall⟩⟩
  simpa using hcount

end Bounded

section Writable
variable {mem : GuestMemory} {segs : List Segment} {hs : List (ℕ × ℕ)}

/-- Two mapped slices that share no guest-physical address share no byte of the server's
memory. -/
theorem slicePtr_apart {space : AddrSpace} {addr len addr' len' : UInt64} {p p' : ℕ}
    (hh : mem.HostApart) (hs : mem.slicePtr space addr len = some p)
    (hs' : mem.slicePtr space addr' len' = some p')
    (ha : Apart addr.toNat len.toNat addr'.toNat len'.toNat) : Apart p len.toNat p' len'.toNat := by
  obtain ⟨r, hr, hbase, hend, rfl⟩ := slicePtr_some hs
  obtain ⟨r', hr', hbase', hend', rfl⟩ := slicePtr_some hs'
  by_cases heq : r = r'
  · subst heq
    unfold Apart at ha ⊢
    omega
  · have hsymm : Std.Symm fun r r' : Region => Apart r.ptr r.len.toNat r'.ptr r'.len.toNat :=
      ⟨fun _ _ h => h.symm⟩
    have hapart := hh.forall hr hr' heq
    unfold Apart at ha hapart ⊢
    omega

theorem Hosts.separate (hh : mem.HostApart) (h : Hosts mem segs hs)
    (ha : SegmentsApart segs) : Separate hs := by
  unfold Separate
  induction h with
  | nil => exact List.Pairwise.nil
  | @cons s t segs hs hst hrest ih =>
    obtain ⟨hhead, htail⟩ := List.pairwise_cons.mp ha
    refine List.pairwise_cons.mpr ⟨fun t' ht' => ?_, ih htail⟩
    obtain ⟨s', hs', hst'⟩ := Hosts.exists_segment hrest ht'
    rw [hst.2, hst'.2]
    exact slicePtr_apart hh hst.1 hst'.1 (hhead s' hs')

/-- The capacity of a bounded chain, as the server sums it up. -/
theorem Hosts.sum_lengths (h : Hosts mem segs hs) (hlen : ∀ s ∈ segs, s.2.toNat < 2 ^ 32)
    (hcount : segs.length ≤ MAX_CHAIN_LEN) : (segs.map Prod.snd).sum.toNat = capacity hs := by
  have hboth : capacity hs ≤ segs.length * 2 ^ 32 ∧
      (segs.map Prod.snd).sum.toNat = capacity hs % 2 ^ 64 := by
    clear hcount
    induction h with
    | nil => exact ⟨le_refl _, rfl⟩
    | @cons s t segs hs hst _ ih =>
      obtain ⟨hle, hsum⟩ := ih fun t ht => hlen t (List.mem_cons_of_mem _ ht)
      have hs := hlen s List.mem_cons_self
      obtain ⟨p, n⟩ := t
      have hn : n = s.2.toNat := hst.2
      rw [List.map_cons, List.sum_cons, UInt64.toNat_add, hsum, List.length_cons,
        capacity_cons]
      omega
  obtain ⟨hle, hsum⟩ := hboth
  unfold MAX_CHAIN_LEN at hcount
  omega

end Writable

end Riftlessfs.VhostUser
