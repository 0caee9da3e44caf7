import Riftlessfs.VhostUser.ChainReply

/-! The loops over the segments of a chain as views of one buffer: a prefix and what follows it,
and what was stored against what is read back. -/
namespace Riftlessfs.VhostUser
open Lib.Flat Lib.Effect Riftlessfs.Proto Riftlessfs.Fuse

def segmentBytes (mem : GuestMemory) (segs : List Segment) : List UInt8 :=
  segs.flatMap fun s => (mem.getSlice .gpa s.1 s.2).getD []

/-- The buffer `v` of the server's memory lies inside the segment `s`. -/
def InSegment (mem : GuestMemory) (v : ℕ × ℕ) (s : Segment) : Prop :=
  ∃ p, mem.slicePtr .gpa s.1 s.2 = some p ∧ p ≤ v.1 ∧ v.1 + v.2 ≤ p + s.2.toNat

section Views
variable {mem : GuestMemory} {segs : List Segment} {hs : List (ℕ × ℕ)}

theorem Hosts.segmentBytes_eq (h : Hosts mem segs hs) :
    segmentBytes mem segs = gather mem.bytes hs := by
  induction h with
  | nil => rfl
  | @cons s t segs hs hst _ ih =>
    obtain ⟨hp, hlen⟩ := hst
    have hslice : mem.getSlice .gpa s.1 s.2 = some (load mem.bytes t.1 t.2) := by
      unfold GuestMemory.getSlice
      rw [hp, hlen]
      rfl
    unfold segmentBytes at ih ⊢
    rw [List.flatMap_cons, hslice, ih]
    rfl

theorem Hosts.inSegment (h : Hosts mem segs hs) {k max : ℕ} {v : ℕ × ℕ}
    (hv : v ∈ window hs k max) : ∃ s ∈ segs, InSegment mem v s := by
  obtain ⟨t, ht, hstart, hend⟩ := mem_window hv
  obtain ⟨s, hs, hp, hlen⟩ := h.exists_segment ht
  exact ⟨s, hs, t.1, hp, hstart, by rw [← hlen]; exact hend⟩

end Views

/-- A prefix of the readable bytes, and the buffers that skip it, make up all of them, wherever the
cut falls. -/
theorem front_iovecs_split (mem : GuestMemory) (chain : DescChain) (hm : mem.Regular .gpa)
    (hmapped : Mapped mem chain.readable) :
    gatherReadable mem chain = .ok (segmentBytes mem chain.readable) ∧
    (∀ k, gatherReadablePrefix mem chain k = .ok ((segmentBytes mem chain.readable).take k)) ∧
    (∀ skip max : UInt64, ∃ iov, iovecsFrom mem chain.readable skip max = .ok iov ∧
      iov.length ≤ chain.readable.length ∧
      (∀ v ∈ iov, 1 ≤ v.2 ∧ ∃ s ∈ chain.readable, InSegment mem v s) ∧
      gather mem.bytes iov =
        ((segmentBytes mem chain.readable).drop skip.toNat).take max.toNat) ∧
    ∀ k all : UInt64, all.toNat = (segmentBytes mem chain.readable).length →
      ∃ front iov, gatherReadablePrefix mem chain k.toNat = .ok front ∧
        iovecsFrom mem chain.readable k all = .ok iov ∧
        front ++ gather mem.bytes iov = segmentBytes mem chain.readable := by
  obtain ⟨hs, hhs⟩ := hmapped.hosts
  have hbytes := hhs.segmentBytes_eq
  have hfront : ∀ k, gatherReadablePrefix mem chain k =
      .ok ((segmentBytes mem chain.readable).take k) := by
    intro k
    have h := gatherPrefix_eq hm hhs k []
    rw [List.nil_append, List.length_nil, Nat.sub_zero, ← hbytes] at h
    exact h
  have hiov : ∀ skip max : UInt64, iovecsFrom mem chain.readable skip max =
      .ok (window hs skip.toNat max.toNat) := iovecsFrom_eq hm hhs
  have hview : ∀ k max, gather mem.bytes (window hs k max) =
      ((segmentBytes mem chain.readable).drop k).take max := by
    intro k max
    rw [gather_window, hbytes]
  refine ⟨?_, hfront, ?_, ?_⟩
  · have h := gatherSegments_eq hhs []
    rw [List.nil_append, ← hbytes] at h
    exact h
  · intro skip max
    refine ⟨_, hiov skip max, ?_, ?_, hview _ _⟩
    · rw [← hhs.length]
      exact window_length_le hs _ _
    · intro v hv
      exact ⟨window_pos hv, hhs.inSegment hv⟩
  · intro k all hall
    refine ⟨_, _, hfront _, hiov k all, ?_⟩
    have hrest : ((segmentBytes mem chain.readable).drop k.toNat).take all.toNat =
        (segmentBytes mem chain.readable).drop k.toNat := by
      apply List.take_of_length_le
      rw [List.length_drop]
      omega
    rw [hview, hrest, List.take_append_drop]

/-- A `WRITE` cut into pieces, one of them empty, and its header cut off. -/
theorem front_iovecs_split_cut : ∃ front iov,
    gatherReadablePrefix (smallMemory (encodeWrite 1 0 [1, 2, 3])) cutWrite 80 = .ok front ∧
    iovecsFrom (smallMemory (encodeWrite 1 0 [1, 2, 3])) cutWrite.readable 80 83 = .ok iov ∧
    front ++ gather (smallMemory (encodeWrite 1 0 [1, 2, 3])).bytes iov =
      encodeWrite 1 0 [1, 2, 3] := by
  have hbytes : segmentBytes (smallMemory (encodeWrite 1 0 [1, 2, 3])) cutWrite.readable =
      encodeWrite 1 0 [1, 2, 3] := by decide +kernel
  obtain ⟨-, -, -, hsplit⟩ := front_iovecs_split (smallMemory (encodeWrite 1 0 [1, 2, 3])) cutWrite
    (smallMemory_regular _ _) (by decide)
  rw [hbytes] at hsplit
  exact hsplit 80 83 (by decide +kernel)

/-- Scattering over separate segments and gathering them again yields what was scattered, as far as
it fits, and storing what follows a header before the header comes to the same memory. -/
theorem scatter_gather_fits (mem : GuestMemory) (chain : DescChain) (data : List UInt8)
    (hm : mem.Regular .gpa) (hh : mem.HostApart) (hmapped : Mapped mem chain.writable)
    (hapart : SegmentsApart chain.writable) (hdata : data.length < 2 ^ 32) :
    ∃ w mem', scatterWritable chain data mem = .ok w mem' ∧
      w.toNat = min data.length (chain.writable.map fun s => s.2.toNat).sum ∧
      mem'.regions = mem.regions ∧
      (∀ x, (∀ s ∈ chain.writable, ¬ InSegment mem (x, 1) s) → mem'.bytes x = mem.bytes x) ∧
      gatherReadable mem' { chain with readable := chain.writable } =
        .ok (data.take w.toNat ++ (segmentBytes mem chain.writable).drop w.toNat) ∧
      (16 ≤ data.length → ∃ iov w₁,
        iovecsFrom mem chain.writable 16 (.ofNat (data.length - 16)) = .ok iov ∧
        scatterWritable chain (data.take 16)
          { mem with bytes := scatter mem.bytes iov (data.drop 16) } = .ok w₁ mem') := by
  obtain ⟨hs, hhs⟩ := hmapped.hosts
  have hsep : Separate hs := hhs.separate hh hapart
  have hscatter : ∀ (b : List UInt8) (bytes : ℕ → UInt8),
      scatterWritable chain b { mem with bytes := bytes } =
        .ok (.ofNat (min b.length (capacity hs))) { mem with bytes := scatter bytes hs b } := by
    intro b bytes
    have h := scatterSegments_eq hm hhs b bytes 0
    rw [UInt32.zero_add] at h
    exact h
  have hw : (UInt32.ofNat (min data.length (capacity hs))).toNat =
      min data.length (capacity hs) :=
    UInt32.toNat_ofNat_of_lt' (lt_of_le_of_lt (Nat.min_le_left _ _) hdata)
  refine ⟨_, _, hscatter data mem.bytes, ?_, rfl, ?_, ?_, ?_⟩
  · rw [hw, hhs.capacity_eq]
  · intro x hx
    apply scatter_outside
    intro t ht
    obtain ⟨s, hs', hp, hlen⟩ := hhs.exists_segment ht
    have hout := hx s hs'
    by_contra hin
    exact hout ⟨t.1, hp, by simp only; omega, by simp only; omega⟩
  · have hmapped' : Hosts { mem with bytes := scatter mem.bytes hs data } chain.writable hs := hhs
    have hgather := gatherSegments_eq hmapped' []
    rw [List.nil_append] at hgather
    refine hgather.trans ?_
    have hlen : (gather mem.bytes hs).length = capacity hs := gather_length _ _
    rw [hw, hhs.segmentBytes_eq, gather_scatter hsep]
    by_cases hfits : data.length ≤ capacity hs
    · rw [Nat.min_eq_left hfits, List.take_of_length_le hfits, List.take_of_length_le (le_refl _)]
    · have hcap : capacity hs ≤ data.length := by omega
      rw [Nat.min_eq_right hcap, List.drop_eq_nil_of_le (hlen.trans_le hcap),
        List.drop_eq_nil_of_le (le_of_eq hlen)]
  · intro hlong
    have hlt : data.length - 16 < 2 ^ 64 := by omega
    have hmax : (UInt64.ofNat (data.length - 16)).toNat = data.length - 16 :=
      UInt64.toNat_ofNat_of_lt' hlt
    have hiov : iovecsFrom mem chain.writable 16 (.ofNat (data.length - 16)) =
        .ok (window hs 16 (data.length - 16)) := by
      have h := iovecsFrom_eq hm hhs 16 (.ofNat (data.length - 16))
      rw [hmax] at h
      exact h
    have hhead : (data.take 16).length = 16 := by
      rw [List.length_take]
      omega
    have hsame : scatter (scatter mem.bytes (window hs (data.take 16).length (data.length - 16))
        (data.drop 16)) hs (data.take 16) = scatter mem.bytes hs data := by
      by_cases hcap : 16 ≤ capacity hs
      · rw [scatter_header hsep (by omega) (by rw [List.length_drop]), List.take_append_drop]
      · rw [window_of_capacity_le (by omega), scatter_take (by omega)]
        rfl
    rw [hhead] at hsame
    have hstored := hscatter (data.take 16)
      (scatter mem.bytes (window hs 16 (data.length - 16)) (data.drop 16))
    rw [hsame] at hstored
    exact ⟨_, _, hiov, hstored⟩

/-- Twenty bytes over a reply area of three pieces. -/
theorem scatter_gather_fits_cut : ∃ w mem',
    scatterWritable cutRead (List.range 20 |>.map .ofNat) (smallMemory []) = .ok w mem' ∧
    w = 20 ∧ gatherReadable mem' { cutRead with readable := cutRead.writable } =
      .ok ((List.range 20 |>.map .ofNat) ++ List.replicate 23 0) := by
  obtain ⟨w, mem', hw, hlen, -, -, hgather, -⟩ := scatter_gather_fits (smallMemory []) cutRead
    (List.range 20 |>.map .ofNat) (smallMemory_regular _ _) (smallMemory_hostApart _) (by decide)
    (by unfold SegmentsApart Apart; decide) (by decide)
  have hval : w.toNat = 20 := hlen.trans (by decide)
  have hw20 : w = 20 := UInt32.toNat_inj.mp hval
  have hrest : (segmentBytes (smallMemory []) cutRead.writable).drop 20 = List.replicate 23 0 := by
    decide +kernel
  rw [hval, hrest] at hgather
  exact ⟨w, mem', hw, hw20, hgather⟩

end Riftlessfs.VhostUser
