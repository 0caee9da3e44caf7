import Riftlessfs.Lib.Agreement
import Riftlessfs.VhostUser.BufferFrame
import Riftlessfs.VhostUser.ServerRuns

/-! The server's own memory, outside the regions the guest shares with it: whatever the guest puts
into its memory, nothing there is stored to, and nothing there has a say in what the server does. -/
namespace Riftlessfs.VhostUser
open Lib.Flat Lib.Effect Lib.Agreement Lib.Run Riftlessfs.Core Riftlessfs.Proto Riftlessfs.Fuse

/-- The byte belongs to the usable part of a region. -/
def GuestMemory.Shares (mem : GuestMemory) (x : ℕ) : Prop :=
  ∃ r ∈ mem.regions, r.ptr ≤ x ∧ x < r.ptr + r.len.toNat

/-- The same regions, and the same bytes in `S`. -/
structure GuestMemory.AlikeOn (S : ℕ → Prop) (mem mem' : GuestMemory) : Prop where
  regions : mem'.regions = mem.regions
  within : ∀ x, mem.Shares x → S x
  bytes : ∀ x, S x → mem'.bytes x = mem.bytes x

section Reads
variable {S : ℕ → Prop} {mem mem' : GuestMemory} {space : AddrSpace} {addr len : UInt64} {p x : ℕ}

theorem slicePtr_shares (h : mem.slicePtr space addr len = some p) (hlow : p ≤ x)
    (hhigh : x < p + len.toNat) : mem.Shares x := by
  obtain ⟨r, hr, hbase, hend, rfl⟩ := slicePtr_some h
  exact ⟨r, hr, by omega, by omega⟩

theorem inBuffers_shares {segs : List Segment} (h : InBuffers mem segs x) : mem.Shares x := by
  obtain ⟨s, -, o, n, p, -, hp, hlow, hhigh⟩ := h
  exact slicePtr_shares hp hlow hhigh

theorem load_congr {m m' : ℕ → UInt8} {n : ℕ} (h : ∀ x, p ≤ x → x < p + n → m' x = m x) :
    load m' p n = load m p n := by
  unfold load
  apply List.map_congr_left
  intro i hi
  have hlt := List.mem_range.mp hi
  exact h (p + i) (by omega) (by omega)

def InSlice (mem : GuestMemory) (space : AddrSpace) (addr len : UInt64) (x : ℕ) : Prop :=
  ∃ p, mem.slicePtr space addr len = some p ∧ p ≤ x ∧ x < p + len.toNat

/-- A slice to which nothing was stored reads as before. -/
theorem getSlice_kept {touched : ℕ → Prop} (h : SameBeyond touched mem mem')
    (hclear : ∀ x, InSlice mem space addr len x → ¬touched x) :
    mem'.getSlice space addr len = mem.getSlice space addr len := by
  unfold GuestMemory.getSlice
  rw [slicePtr_regions h.regions]
  cases hp : mem.slicePtr space addr len with
  | none => rfl
  | some p =>
    have hload : load mem'.bytes p len.toNat = load mem.bytes p len.toNat := by
      apply load_congr
      intro x hlow hhigh
      exact h.bytes x (hclear x ⟨p, hp, hlow, hhigh⟩)
    show some (load mem'.bytes p len.toNat) = some (load mem.bytes p len.toNat)
    rw [hload]

theorem store_congr {m m' : ℕ → UInt8} {bs : List UInt8} (h : m' x = m x) :
    store m' p bs x = store m p bs x := by
  unfold store
  rw [h]

private theorem scatter_congr {m m' : ℕ → UInt8} {segs : List (ℕ × ℕ)} {bs : List UInt8}
    (h : m' x = m x) : scatter m' segs bs x = scatter m segs bs x := by
  induction segs generalizing m m' bs with
  | nil => exact h
  | cons s segs ih => exact ih (store_congr h)

variable (h : mem.AlikeOn S mem')
include h

theorem slicePtr_alike (space : AddrSpace) (addr len : UInt64) :
    mem'.slicePtr space addr len = mem.slicePtr space addr len :=
  slicePtr_regions h.regions space addr len

theorem getSlice_alike (space : AddrSpace) (addr len : UInt64) :
    mem'.getSlice space addr len = mem.getSlice space addr len := by
  unfold GuestMemory.getSlice
  rw [slicePtr_alike h]
  cases hp : mem.slicePtr space addr len with
  | none => rfl
  | some p =>
    have hload : load mem'.bytes p len.toNat = load mem.bytes p len.toNat :=
      load_congr fun x hlow hhigh => h.bytes x (h.within x (slicePtr_shares hp hlow hhigh))
    simp only [Option.bind_eq_bind, Option.bind_some, hload]

theorem readU16_alike (space : AddrSpace) (addr : UInt64) :
    mem'.readU16 space addr = mem.readU16 space addr := by
  unfold GuestMemory.readU16
  rw [getSlice_alike h]

private theorem popAvail_alike (vq : Virtqueue) : vq.popAvail mem' = vq.popAvail mem := by
  unfold Virtqueue.popAvail
  simp only [readU16_alike h]

private theorem readDesc_alike (vq : Virtqueue) (idx : UInt16) :
    vq.readDesc mem' idx = vq.readDesc mem idx := by
  unfold Virtqueue.readDesc
  simp only [readU16_alike h, GuestMemory.readU32, GuestMemory.readU64, getSlice_alike h]

private theorem readChainFrom_alike (vq : Virtqueue) (n : ℕ) (idx : UInt16) (chain : DescChain) :
    vq.readChainFrom mem' n idx chain = vq.readChainFrom mem n idx chain := by
  induction n generalizing idx chain with
  | zero => rfl
  | succ n ih => simp only [Virtqueue.readChainFrom, readDesc_alike h, ih]

private theorem gatherSegments_alike (segs : List Segment) (buf : List UInt8) :
    gatherSegments mem' segs buf = gatherSegments mem segs buf := by
  induction segs generalizing buf with
  | nil => rfl
  | cons s segs ih =>
    obtain ⟨addr, len⟩ := s
    simp only [gatherSegments, getSlice_alike h, ih]

private theorem gatherPrefix_alike (maxLen : ℕ) (segs : List Segment) (buf : List UInt8) :
    gatherPrefix mem' maxLen segs buf = gatherPrefix mem maxLen segs buf := by
  induction segs generalizing buf with
  | nil => rfl
  | cons s segs ih =>
    obtain ⟨addr, len⟩ := s
    simp only [gatherPrefix, getSlice_alike h, ih]

theorem iovecsFrom_alike (segs : List Segment) (skip remaining : UInt64) :
    iovecsFrom mem' segs skip remaining = iovecsFrom mem segs skip remaining := by
  induction segs generalizing skip remaining with
  | nil => rfl
  | cons s segs ih =>
    obtain ⟨addr, len⟩ := s
    simp only [iovecsFrom, slicePtr_alike h, ih]

/-- The kernel finds the same bytes in the buffers it writes from. -/
theorem iovecs_load_alike {segs : List Segment} {skip remaining : UInt64} {iov : List (ℕ × ℕ)}
    (hiov : iovecsFrom mem segs skip remaining = .ok iov) :
    iov.map (fun v => load mem'.bytes v.1 v.2) = iov.map fun v => load mem.bytes v.1 v.2 := by
  apply List.map_congr_left
  intro v hv
  apply load_congr
  intro x hlow hhigh
  exact h.bytes x (h.within x (inBuffers_shares (iovecsFrom_inBuffers hiov hv hlow hhigh)))

private theorem poke_alike (p : ℕ) (bs : List UInt8) : (mem.poke p bs).AlikeOn S (mem'.poke p bs) :=
  ⟨h.regions, h.within, fun x hx => store_congr (h.bytes x hx)⟩

end Reads

/-- The same session, and memories alike on `S`. -/
structure Device.AlikeOn (S : ℕ → Prop) (d d' : Device) : Prop where
  session : d'.session = d.session
  mem : d.mem.AlikeOn S d'.mem

section Stores
variable {S : ℕ → Prop} {α : Type}

theorem inBounds_agrees {x : GuestMemory → Option α}
    (hx : ∀ mem mem' : GuestMemory, mem.AlikeOn S mem' → x mem' = x mem) :
    Agrees (GuestMemory.AlikeOn S) (inBounds x) := by
  intro mem mem' h
  unfold inBounds
  rw [hx mem mem' h]
  cases x mem with
  | none => exact .error _ h
  | some a => exact .ok a h

theorem copyIntoSlice_agrees (space : AddrSpace) (addr len : UInt64) (bs : List UInt8) :
    Agrees (GuestMemory.AlikeOn S) (copyIntoSlice space addr len bs) := by
  apply agrees_bind (inBounds_agrees fun mem mem' h => slicePtr_alike h space addr len)
  intro p mem mem' h
  exact .ok () (poke_alike h p bs)

private theorem scatterSegments_agrees (segs : List Segment) (data : List UInt8)
    (written : UInt32) :
    Agrees (GuestMemory.AlikeOn S) (scatterSegments segs data written) := by
  induction segs generalizing data written with
  | nil => exact agrees_pure written
  | cons s segs ih =>
    obtain ⟨addr, len⟩ := s
    unfold scatterSegments
    split_ifs
    · exact agrees_pure written
    · exact agrees_bind (copyIntoSlice_agrees _ _ _ _) fun _ => ih _ _

private theorem pushUsed_agrees (vq : Virtqueue) (head : UInt16) (written : UInt32) :
    Agrees (GuestMemory.AlikeOn S) (vq.pushUsed head written) := by
  apply agrees_bind (inBounds_agrees fun mem mem' h => readU16_alike h _ _)
  intro usedIdx
  apply agrees_bind (copyIntoSlice_agrees _ _ _ _)
  intro _
  apply agrees_bind (copyIntoSlice_agrees _ _ _ _)
  intro _
  exact copyIntoSlice_agrees _ _ _ _

theorem onMem_agrees {m : MemM α} (hm : Agrees (GuestMemory.AlikeOn S) m) :
    Agrees (Device.AlikeOn S) (onMem m) := by
  intro d d' h
  have hsame := hm d.mem d'.mem h.mem
  unfold onMem
  generalize m d.mem = x at hsame
  generalize m d'.mem = y at hsame
  cases hsame with
  | ok a hmem => exact .ok a ⟨h.session, hmem⟩
  | error e hmem => exact .error _ ⟨h.session, hmem⟩

theorem onQueue_agrees {f : GuestMemory → Except VirtqueueError α}
    (hf : ∀ mem mem' : GuestMemory, mem.AlikeOn S mem' → f mem' = f mem) :
    Agrees (Device.AlikeOn S) (onQueue f) := by
  intro d d' h
  unfold onQueue
  rw [hf d.mem d'.mem h.mem]
  cases f d.mem with
  | ok a => exact .ok a h
  | error e => exact .error _ h

private theorem onPop_agrees (vq : Virtqueue) : Agrees (Device.AlikeOn S) (onPop vq) := by
  intro d d' h
  unfold onPop
  rw [popAvail_alike h.mem]
  cases vq.popAvail d.mem with
  | ok a => exact .ok a h
  | error e =>
    cases e with
    | error e => exact .error _ h
    | panic => exact .error _ h

theorem onFs_agrees (m : FsM α) : Agrees (Device.AlikeOn S) (onFs m) := by
  intro d d' h
  unfold onFs
  rw [h.session]
  cases m d.session.world with
  | ok a w => exact .ok _ ⟨rfl, h.mem⟩
  | error e w =>
    cases e with
    | fail e => exact .ok _ ⟨rfl, h.mem⟩
    | panic => exact .error _ ⟨rfl, h.mem⟩

private theorem onSession_agrees (env : Env) (request : Bytes) :
    Agrees (Device.AlikeOn S) (onSession env request) := by
  intro d d' h
  unfold onSession
  rw [h.session]
  cases Session.handle env d.session request with
  | mk reply s =>
    cases reply with
    | some reply => exact .ok _ ⟨rfl, h.mem⟩
    | none => exact .error _ ⟨rfl, h.mem⟩

end Stores

section Serving
variable {S : ℕ → Prop} {env : Env} {chain : DescChain}

theorem scatterWritable_agrees (data : Bytes) :
    Agrees (Device.AlikeOn S) (onMem (scatterWritable chain data)) :=
  onMem_agrees (scatterSegments_agrees chain.writable data 0)

theorem dispatchGeneric_agrees : Agrees (Device.AlikeOn S) (dispatchGeneric env chain) := by
  apply agrees_bind (onQueue_agrees fun mem mem' h => gatherSegments_alike h _ _)
  intro request
  apply agrees_bind (onSession_agrees env request)
  intro reply
  cases reply with
  | bytes b => exact scatterWritable_agrees b
  | none => exact agrees_pure 0

private theorem tryWriteZeroCopy_agrees {headerPrefix : Bytes} {m : ServeM UInt32}
    (h : tryWriteZeroCopy env chain headerPrefix = some m) : Agrees (Device.AlikeOn S) m := by
  unfold tryWriteZeroCopy at h
  split at h
  · cases h
    intro d d' h
    apply same_bind (onQueue_agrees (fun mem mem' h => iovecsFrom_alike h _ _ _) d d' h)
    intro iov d₁ d₁' hiov _ h₁
    obtain ⟨hiov, rfl⟩ := onQueue_inv hiov
    apply same_get
    rw [iovecs_load_alike h₁.mem hiov]
    exact agrees_bind (onFs_agrees _) (fun result => scatterWritable_agrees _) d₁ d₁' h₁
  · cases h

private theorem tryReadZeroCopy_agrees {headerPrefix : Bytes} {m : ServeM UInt32}
    (h : tryReadZeroCopy env chain headerPrefix = some m) : Agrees (Device.AlikeOn S) m := by
  unfold tryReadZeroCopy at h
  split at h
  · cases h
    apply agrees_bind (onQueue_agrees fun mem mem' h => iovecsFrom_alike h _ _ _)
    intro iov
    apply agrees_bind (onFs_agrees _)
    intro result
    cases result with
    | error e => exact scatterWritable_agrees _
    | ok bytes =>
      apply agrees_bind
      · intro d d' h
        exact .ok () ⟨h.session, h.mem.regions, h.mem.within,
          fun x hx => scatter_congr (h.mem.bytes x hx)⟩
      · intro _
        exact agrees_bind (scatterWritable_agrees _) fun n => agrees_pure _
  · cases h

private theorem serveChain_agrees : Agrees (Device.AlikeOn S) (serveChain env chain) := by
  apply agrees_bind (onQueue_agrees fun mem mem' h => gatherPrefix_alike h _ _ _)
  intro headerPrefix
  unfold servePath
  split
  · cases h : tryWriteZeroCopy env chain headerPrefix with
    | none => exact dispatchGeneric_agrees
    | some m => exact tryWriteZeroCopy_agrees h
  · cases h : tryReadZeroCopy env chain headerPrefix with
    | none => exact dispatchGeneric_agrees
    | some m => exact tryReadZeroCopy_agrees h
  · exact dispatchGeneric_agrees

/-- A step of a turn does the same, whatever lies outside `S`. -/
theorem turnStep_agrees (vq : Virtqueue) (turn : Turn) :
    Agrees (Device.AlikeOn S) (turnStep env vq turn) := by
  cases turn with
  | popAvail => exact agrees_bind (onPop_agrees vq) fun r => agrees_pure _
  | readChain head =>
    apply agrees_bind (onQueue_agrees fun mem mem' h => readChainFrom_alike h _ _ _ _)
    exact fun chain => agrees_pure _
  | service head chain => exact agrees_bind serveChain_agrees fun n => agrees_pure _
  | pushUsed head written =>
    exact agrees_bind (onMem_agrees (pushUsed_agrees vq head written)) fun _ => agrees_pure _

end Serving

end Riftlessfs.VhostUser
