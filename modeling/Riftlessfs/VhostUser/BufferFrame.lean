import Riftlessfs.VhostUser.ZeroCopy
import Riftlessfs.VhostUser.UsedRing

/-! Serving a chain stores nothing outside the chain's writable buffers. -/
namespace Riftlessfs.VhostUser
open Lib.Flat Lib.Effect Riftlessfs.Core Riftlessfs.Proto Riftlessfs.Fuse

def InBuffers (mem : GuestMemory) (segs : List Segment) (x : ℕ) : Prop :=
  ∃ s ∈ segs, ∃ (o n : UInt64) (p : ℕ), o.toNat + n.toNat ≤ s.2.toNat ∧
    mem.slicePtr .gpa (s.1 + o) n = some p ∧ p ≤ x ∧ x < p + n.toNat

/-- Two memories with the same regions, and the same bytes outside the buffers. -/
structure SameBeyond (buffers : ℕ → Prop) (mem mem' : GuestMemory) : Prop where
  regions : mem'.regions = mem.regions
  bytes : ∀ x, ¬buffers x → mem'.bytes x = mem.bytes x

section Same
variable {buffers : ℕ → Prop} {mem mem' mem'' : GuestMemory}

theorem SameBeyond.refl (mem : GuestMemory) : SameBeyond buffers mem mem :=
  ⟨rfl, fun _ _ => rfl⟩

theorem SameBeyond.trans (h : SameBeyond buffers mem mem') (h' : SameBeyond buffers mem' mem'') :
    SameBeyond buffers mem mem'' := by
  constructor
  · rw [h'.regions, h.regions]
  · intro x hx
    rw [h'.bytes x hx, h.bytes x hx]

theorem slicePtr_regions (h : mem'.regions = mem.regions) (space : AddrSpace) (addr len : UInt64) :
    mem'.slicePtr space addr len = mem.slicePtr space addr len := by
  unfold GuestMemory.slicePtr GuestMemory.find
  rw [h]

theorem InBuffers.regions {segs : List Segment} {x : ℕ} (h : InBuffers mem segs x)
    (hr : mem'.regions = mem.regions) : InBuffers mem' segs x := by
  obtain ⟨s, hs, o, n, p, hle, hp, hx⟩ := h
  rw [← slicePtr_regions hr] at hp
  exact ⟨s, hs, o, n, p, hle, hp, hx⟩

end Same

def memFrame (mem₀ : GuestMemory) (segs : List Segment) : Frame VirtqueueError GuestMemory where
  pre mem := mem.regions = mem₀.regions
  rel := SameBeyond (InBuffers mem₀ segs)
  err _ := True
  refl := SameBeyond.refl
  trans := SameBeyond.trans
  stable h hr := hr.regions.trans h

def deviceFrame (mem₀ : GuestMemory) (segs : List Segment) : Frame Halt Device where
  pre d := d.mem.regions = mem₀.regions
  rel d d' := SameBeyond (InBuffers mem₀ segs) d.mem d'.mem
  err _ := True
  refl d := SameBeyond.refl d.mem
  trans := SameBeyond.trans
  stable h hr := hr.regions.trans h

section Stores
variable {mem₀ : GuestMemory} {segs : List Segment}

private theorem inBounds_keeps {α : Type} (x : GuestMemory → Option α) :
    Keeps (memFrame mem₀ segs) (inBounds x) := by
  intro mem _
  cases hx : x mem with
  | none =>
    have herror : inBounds x mem = .error .outOfBounds mem := by
      unfold inBounds
      rw [hx]
    exact keepsAt_of_error herror (SameBeyond.refl mem) trivial
  | some a => exact keepsAt_of_ok (inBounds_some hx) (SameBeyond.refl mem)

private theorem copyIntoSlice_keeps {s : Segment} {len : UInt64} {b : Bytes} (hs : s ∈ segs)
    (hlen : len.toNat ≤ s.2.toNat) (hb : b.length ≤ len.toNat) :
    Keeps (memFrame mem₀ segs) (copyIntoSlice .gpa s.1 len b) := by
  intro mem hmem
  unfold copyIntoSlice
  apply keepsAt_bind (inBounds_keeps _ mem hmem)
  intro p mem₁ hfound
  obtain ⟨hp, rfl⟩ := inBounds_ok hfound
  have hstored : (modify fun mem => mem.poke p b : MemM Unit) mem₁ = .ok () (mem₁.poke p b) := rfl
  apply keepsAt_of_ok hstored
  constructor
  · rfl
  · intro x hx
    apply store_outside
    by_contra hin
    rw [slicePtr_regions hmem] at hp
    apply hx
    refine ⟨s, hs, 0, len, p, ?_, ?_, by omega, by omega⟩
    · show 0 + len.toNat ≤ s.2.toNat
      omega
    · rwa [UInt64.add_zero]

private theorem scatterSegments_keeps {part : List Segment} (hpart : ∀ s ∈ part, s ∈ segs)
    (data : Bytes)
    (written : UInt32) : Keeps (memFrame mem₀ segs) (scatterSegments part data written) := by
  induction part generalizing data written with
  | nil => exact keeps_pure written
  | cons s part ih =>
    obtain ⟨addr, len⟩ := s
    unfold scatterSegments
    split_ifs with hnil
    · exact keeps_pure written
    · have hbound := len.toNat_lt
      have hn : (UInt64.ofNat (min data.length len.toNat)).toNat = min data.length len.toNat :=
        UInt64.toNat_ofNat_of_lt' (lt_of_le_of_lt (Nat.min_le_right _ _) hbound)
      apply keeps_bind
      · apply copyIntoSlice_keeps (hpart (addr, len) List.mem_cons_self)
        · rw [hn]
          exact Nat.min_le_right _ _
        · rw [hn]
          exact List.length_take_le _ _
      · intro _
        exact ih (fun s hs => hpart s (List.mem_cons_of_mem _ hs)) _ _

/-- The kernel's buffers are slices of the segments. -/
theorem iovecsFrom_inBuffers {mem : GuestMemory} {part : List Segment} {skip remaining : UInt64}
    {iov : List (ℕ × ℕ)} (h : iovecsFrom mem part skip remaining = .ok iov) {v : ℕ × ℕ}
    (hv : v ∈ iov) {x : ℕ} (hlow : v.1 ≤ x) (hhigh : x < v.1 + v.2) : InBuffers mem part x := by
  induction part generalizing skip remaining iov with
  | nil =>
    cases h
    cases hv
  | cons s part ih =>
    obtain ⟨addr, len⟩ := s
    have hlater : InBuffers mem part x → InBuffers mem ((addr, len) :: part) x := by
      intro ⟨s, hs, hin⟩
      exact ⟨s, List.mem_cons_of_mem _ hs, hin⟩
    unfold iovecsFrom at h
    split_ifs at h with hzero hskip
    · cases h
      cases hv
    · exact hlater (ih h hv)
    · simp only at h
      split at h
      · cases h
      rename_i p hp
      split at h
      · cases h
      rename_i rest hrest
      cases h
      rcases List.mem_cons.mp hv with rfl | hv
      · have hlt : skip.toNat < len.toNat := UInt64.not_le.mp hskip
        have hsub : (len - skip).toNat = len.toNat - skip.toNat :=
          UInt64.toNat_sub_of_le _ _ (UInt64.le_iff_toNat_le.mpr hlt.le)
        refine ⟨(addr, len), List.mem_cons_self, skip, min (len - skip) remaining, p, ?_, hp, hlow,
          hhigh⟩
        rw [toNat_min, hsub]
        simp only
        omega
      · exact hlater (ih hrest hv)

end Stores

section Device
variable {mem₀ : GuestMemory} {segs : List Segment} {α : Type}

private theorem onMem_keeps {m : MemM α} (h : Keeps (memFrame mem₀ segs) m) :
    Keeps (deviceFrame mem₀ segs) (onMem m) := by
  intro d hd
  have hrel := (h d.mem hd).1
  unfold KeepsAt onMem
  cases hm : m d.mem with
  | ok a mem' =>
    rw [hm] at hrel
    exact ⟨hrel, fun _ _ _ => trivial⟩
  | error e mem' =>
    rw [hm] at hrel
    exact ⟨hrel, fun _ _ _ => trivial⟩

/-- What leaves guest memory alone keeps the frame. -/
theorem keeps_of_mem {m : ServeM α} (h : ∀ d, (final (m d)).mem = d.mem) :
    Keeps (deviceFrame mem₀ segs) m := by
  intro d _
  constructor
  · show SameBeyond (InBuffers mem₀ segs) d.mem (final (m d)).mem
    rw [h d]
    exact SameBeyond.refl d.mem
  · exact fun _ _ _ => trivial

theorem onQueue_mem (f : GuestMemory → Except VirtqueueError α) (d : Device) :
    final (onQueue f d) = d := by
  unfold onQueue
  cases f d.mem with
  | ok a => rfl
  | error e => rfl

theorem onQueue_inv {f : GuestMemory → Except VirtqueueError α} {d d' : Device} {a : α}
    (h : onQueue f d = .ok a d') : f d.mem = .ok a ∧ d' = d := by
  unfold onQueue at h
  split at h
  · cases h
    constructor
    · assumption
    · rfl
  · cases h

theorem onFs_mem (m : FsM α) (d : Device) : (final (onFs m d)).mem = d.mem := by
  unfold onFs
  cases m d.session.world with
  | ok a w => rfl
  | error e w =>
    cases e with
    | fail e => rfl
    | panic => rfl

private theorem onFs_ok_mem {m : FsM α} {d d' : Device} {r : Except FsError α}
    (h : onFs m d = .ok r d') :
    d'.mem = d.mem := by
  have hsame := onFs_mem m d
  rwa [h] at hsame

private theorem onSession_mem (env : Env) (request : Bytes) (d : Device) :
    (final (onSession env request d)).mem = d.mem := by
  unfold onSession
  cases Session.handle env d.session request with
  | mk reply s =>
    cases reply with
    | some reply => rfl
    | none => rfl

variable {env : Env} {chain : DescChain}

theorem scatterWritable_keeps (data : Bytes) :
    Keeps (deviceFrame mem₀ chain.writable) (onMem (scatterWritable chain data)) :=
  onMem_keeps (scatterSegments_keeps (fun _ hs => hs) data 0)

theorem onQueue_keeps (f : GuestMemory → Except VirtqueueError α) :
    Keeps (deviceFrame mem₀ segs) (onQueue f) :=
  keeps_of_mem fun d => by rw [onQueue_mem]

theorem dispatchGeneric_keeps :
    Keeps (deviceFrame mem₀ chain.writable) (dispatchGeneric env chain) := by
  apply keeps_bind (onQueue_keeps _)
  intro request
  apply keeps_bind (keeps_of_mem (onSession_mem env request))
  intro reply
  cases reply with
  | bytes b => exact scatterWritable_keeps b
  | none => exact keeps_pure 0

private theorem tryWriteZeroCopy_keeps {headerPrefix : Bytes} {m : ServeM UInt32}
    (h : tryWriteZeroCopy env chain headerPrefix = some m) :
    Keeps (deviceFrame mem₀ chain.writable) m := by
  unfold tryWriteZeroCopy at h
  split at h
  · cases h
    apply keeps_bind (onQueue_keeps _)
    intro iov
    apply keeps_bind (keeps_of_mem fun d => rfl)
    intro d
    apply keeps_bind (keeps_of_mem (onFs_mem _))
    intro result
    exact scatterWritable_keeps _
  · cases h

private theorem tryReadZeroCopy_keeps {headerPrefix : Bytes} {m : ServeM UInt32}
    (h : tryReadZeroCopy env chain headerPrefix = some m) :
    Keeps (deviceFrame mem₀ chain.writable) m := by
  unfold tryReadZeroCopy at h
  split at h
  · cases h
    intro d hd
    apply keepsAt_bind (onQueue_keeps _ d hd)
    intro iov d₁ hiov
    obtain ⟨hiov, rfl⟩ := onQueue_inv hiov
    apply keepsAt_bind (keeps_of_mem (onFs_mem _) d₁ hd)
    intro result d₂ hread
    have hd₂ : d₂.mem = d₁.mem := onFs_ok_mem hread
    have hregions : d₂.mem.regions = mem₀.regions := by
      rw [hd₂]
      exact hd
    cases result with
    | error e => exact scatterWritable_keeps _ d₂ hregions
    | ok bytes =>
      have hstored : (modify fun d : Device =>
          { d with mem := { d.mem with bytes := scatter d.mem.bytes iov bytes } } : ServeM Unit) d₂ =
            .ok () { d₂ with mem := { d₂.mem with bytes := scatter d₂.mem.bytes iov bytes } } := rfl
      have hkeeps : KeepsAt (deviceFrame mem₀ chain.writable) (modify fun d : Device =>
          { d with mem := { d.mem with bytes := scatter d.mem.bytes iov bytes } }) d₂ := by
        apply keepsAt_of_ok hstored
        constructor
        · rfl
        · intro x hx
          apply scatter_outside
          intro v hv
          by_contra hin
          apply hx
          exact (iovecsFrom_inBuffers hiov hv (by omega) (by omega)).regions hd.symm
      apply keepsAt_bind hkeeps
      intro _ d₃ hd₃
      rw [hstored] at hd₃
      cases hd₃
      apply keepsAt_bind
      · apply scatterWritable_keeps
        exact hregions
      · intro headerWritten d₄ _
        exact keepsAt_pure _ d₄
  · cases h

theorem servePath_keeps (headerPrefix : Bytes) (opcode : Opcode) :
    Keeps (deviceFrame mem₀ chain.writable) (servePath env chain headerPrefix opcode) := by
  unfold servePath
  split
  · cases h : tryWriteZeroCopy env chain headerPrefix with
    | none => exact dispatchGeneric_keeps
    | some m => exact tryWriteZeroCopy_keeps h
  · cases h : tryReadZeroCopy env chain headerPrefix with
    | none => exact dispatchGeneric_keeps
    | some m => exact tryReadZeroCopy_keeps h
  · exact dispatchGeneric_keeps

/-- Serving a chain, on every path, stores only into its writable buffers. -/
theorem serveChain_stores {d d' : Device} {n : UInt32} (h : serveChain env chain d = .ok n d') :
    SameBeyond (InBuffers d.mem chain.writable) d.mem d'.mem := by
  have hkeeps : Keeps (deviceFrame d.mem chain.writable) (serveChain env chain) :=
    keeps_bind (onQueue_keeps _) fun headerPrefix => servePath_keeps headerPrefix _
  exact hkeeps.ok rfl h

end Device

end Riftlessfs.VhostUser
