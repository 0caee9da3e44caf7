import Riftlessfs.VhostUser.UsedRing
import Riftlessfs.VhostUser.UsedLength

/-! What a turn of `process_vring` stores in guest memory, and what it leaves alone. -/
namespace Riftlessfs.VhostUser
open Lib.Flat Lib.Effect Lib.LittleEndian Riftlessfs.Core Riftlessfs.Proto Riftlessfs.Fuse

/-- `len` bytes at `addr` belong to one of the three rings. -/
def Virtqueue.InRing (vq : Virtqueue) (addr len : UInt64) : Prop := ∃ o : UInt64,
  addr = vq.descAddr + o ∧ o.toNat + len.toNat ≤ 16 * vq.queueSize.toNat ∨
    addr = vq.availAddr + o ∧ o.toNat + len.toNat ≤ 4 + 2 * vq.queueSize.toNat ∨
    addr = vq.usedAddr + o ∧ o.toNat + len.toNat ≤ 4 + 8 * vq.queueSize.toNat

def RingsClear (mem : GuestMemory) (vq : Virtqueue) (segs : List Segment) : Prop :=
  ∀ s ∈ segs, ∀ p, mem.slicePtr .gpa s.1 s.2 = some p → ∀ addr len q, vq.InRing addr len →
    mem.slicePtr .user addr len = some q → Apart p s.2.toNat q len.toNat

section Rings
variable {vq vq' : Virtqueue} {mem : GuestMemory} {idx : UInt16} {q qid qlen : ℕ}
  {segs : List Segment} {hs : List (ℕ × ℕ)}

private theorem usedElem_offset (hpos : vq.queueSize ≠ 0) (idx : UInt16) :
    ∃ o : UInt64, vq.usedElem idx = vq.usedAddr + o ∧ o.toNat + 8 ≤ 4 + 8 * vq.queueSize.toNat := by
  have hlt := slot_lt hpos idx
  have hsize := vq.queueSize.toNat_lt
  refine ⟨USED_RING_OFFSET + (idx % vq.queueSize).toUInt64 * USED_ELEM_LEN, ?_, ?_⟩
  · exact UInt64.add_assoc _ _ _
  · have ho : (USED_RING_OFFSET + (idx % vq.queueSize).toUInt64 * USED_ELEM_LEN).toNat =
        4 + (idx % vq.queueSize).toNat * 8 := by
      rw [UInt64.toNat_add, UInt64.toNat_mul, UInt16.toNat_toUInt64]
      show (4 + (idx % vq.queueSize).toNat * 8 % 2 ^ 64) % 2 ^ 64 = _
      omega
    omega

/-- The words that `push_used` stores to belong to the used ring. -/
theorem UsedCells.clear (c : UsedCells vq mem idx q qid qlen) (hpos : vq.queueSize ≠ 0)
    (hclear : RingsClear mem vq segs) (hhs : Hosts mem segs hs) :
    ∀ t ∈ hs, Apart q 2 t.1 t.2 ∧ Apart qid 4 t.1 t.2 ∧ Apart qlen 4 t.1 t.2 := by
  intro t ht
  obtain ⟨s, hs, hp, hlen⟩ := hhs.exists_segment ht
  obtain ⟨o, ho, hbound⟩ := usedElem_offset hpos idx
  have h4 : (4 : UInt64).toNat = 4 := rfl
  have hindex : vq.InRing (vq.usedAddr + 2) 2 := by
    refine ⟨2, Or.inr (Or.inr ⟨rfl, ?_⟩)⟩
    show 2 + 2 ≤ 4 + 8 * vq.queueSize.toNat
    omega
  have hid : vq.InRing (vq.usedElem idx) 4 :=
    ⟨o, Or.inr (Or.inr ⟨ho, by omega⟩)⟩
  have hnext : vq.InRing (vq.usedElem idx + 4) 4 := by
    have hsize := vq.queueSize.toNat_lt
    have ho4 : (o + 4).toNat = o.toNat + 4 := by
      rw [UInt64.toNat_add, h4]
      omega
    refine ⟨o + 4, Or.inr (Or.inr ⟨?_, by omega⟩)⟩
    rw [ho, UInt64.add_assoc]
  rw [hlen]
  constructor
  · exact (hclear s hs _ hp _ _ _ hindex c.index).symm
  constructor
  · exact (hclear s hs _ hp _ _ _ hid c.id).symm
  · exact (hclear s hs _ hp _ _ _ hnext c.length).symm

end Rings

def replyBytes : Reply → Bytes
  | .bytes b => b
  | .none => []

section Turns
variable {env : Env} {vq vq₁ : Virtqueue} {head : UInt16} {chain : DescChain} {d d' : Device}
  {hw : List (ℕ × ℕ)} {n : UInt32}

private theorem popAvail_some (h : vq.popAvail d.mem = .ok (some head, vq₁)) :
    vq.queueSize ≠ 0 ∧ vq₁ = { vq with lastAvailIdx := vq.lastAvailIdx + 1 } := by
  obtain ⟨idx, -, ⟨-, hnone, -⟩ | ⟨-, hpos, -, -, hvq⟩⟩ := popAvail_ok h
  · cases hnone
  · exact ⟨hpos, hvq⟩

/-- A turn that finds a head and reads its chain serves it and publishes it. -/
theorem serveNext_some {r : Option Virtqueue} (hpop : vq.popAvail d.mem = .ok (some head, vq₁))
    (hchain : vq₁.readChain d.mem head = .ok chain) (h : serveNext env vq d = .ok r d') :
    ∃ n d₁, serveChain env chain d = .ok n d₁ ∧ r = some vq₁ ∧ d'.session = d₁.session ∧
      vq₁.pushUsed head n d₁.mem = .ok () d'.mem := by
  have hpopped : onPop vq d = .ok (some head, vq₁) d := by
    unfold onPop
    rw [hpop]
  have hread : onQueue (fun mem => vq₁.readChain mem head) d = .ok chain d := onQueue_ok hchain
  unfold serveNext at h
  rw [bind_of_ok hpopped] at h
  simp only at h
  rw [bind_of_ok hread] at h
  obtain ⟨n, d₁, hserve, hrest⟩ := bind_ok h
  obtain ⟨_, d₂, hpush, hend⟩ := bind_ok hrest
  cases hend
  obtain ⟨hpushed, hsession⟩ := onMem_ok hpush
  exact ⟨n, d₁, hserve, rfl, hsession, hpushed⟩

/-- A chain that is served has a reply, and what fits of it is stored. -/
theorem serveChain_ok (hm : d.mem.Regular .gpa) (hhw : Hosts d.mem chain.writable hw)
    (hsep : Separate hw) (hb : chain.Bounded) (h : serveChain env chain d = .ok n d') :
    ∃ reply s', chainReply env (capacity hw) chain d = .ok (some reply, s') ∧
      n = .ofNat (min (replyBytes reply).length (capacity hw)) ∧
      d' = ⟨s', { d.mem with bytes := scatter d.mem.bytes hw (replyBytes reply) }⟩ := by
  rw [serveChain_settled env hm hhw hsep hb] at h
  cases hreply : chainReply env (capacity hw) chain d with
  | error e =>
    rw [hreply] at h
    cases h
  | ok x =>
    rw [hreply] at h
    obtain ⟨reply, s'⟩ := x
    cases reply with
    | none => cases h
    | some reply =>
      cases reply with
      | bytes b =>
        cases h
        exact ⟨.bytes b, s', rfl, rfl, rfl⟩
      | none =>
        cases h
        refine ⟨.none, s', rfl, ?_, ?_⟩
        · simp [replyBytes]
        · simp [replyBytes]

end Turns

/-- A turn of `process_vring` that completes for a chain publishes `(head, n)`, where `n` is
what fits of the reply; it stores the first `n` bytes of the writable area, and of all other
bytes it changes only those of the used element and of the used index. -/
theorem service_frame (env : Env) (vq vq₁ : Virtqueue) (head : UInt16) (chain : DescChain)
    (d d' : Device) (r : Option Virtqueue)
    (hg : d.mem.Regular .gpa) (hh : d.mem.HostApart)
    (hpop : vq.popAvail d.mem = .ok (some head, vq₁))
    (hchain : vq₁.readChain d.mem head = .ok chain) (hwrite : Mapped d.mem chain.writable)
    (hapart : SegmentsApart chain.writable) (hclear : RingsClear d.mem vq chain.writable)
    (hsmall : ∀ b s', chainReply env chain.capacity chain d = .ok (some (.bytes b), s') →
      b.length < 2 ^ 32)
    (hrun : serveNext env vq d = .ok r d') :
    ∃ hw reply s' n idx q qid qlen, r = some vq₁ ∧ Hosts d.mem chain.writable hw ∧
      chainReply env chain.capacity chain d = .ok (some reply, s') ∧
      n.toNat = min (replyBytes reply).length chain.capacity ∧
      d.mem.readU16 .user (vq.usedAddr + 2) = some idx ∧ UsedCells vq d.mem idx q qid qlen ∧
      d'.mem.regions = d.mem.regions ∧
      d'.mem.readU16 .user (vq.usedAddr + 2) = some (idx + 1) ∧
      d'.mem.readU32 .user (vq.usedElem idx) = some head.toUInt32 ∧
      d'.mem.readU32 .user (vq.usedElem idx + 4) = some n ∧
      gather d'.mem.bytes (window hw 0 n.toNat) = (replyBytes reply).take n.toNat ∧
      ∀ x, (∀ s ∈ window hw 0 n.toNat, x < s.1 ∨ s.1 + s.2 ≤ x) → (x < qid ∨ qid + 4 ≤ x) →
        (x < qlen ∨ qlen + 4 ≤ x) → (x < q ∨ q + 2 ≤ x) → d'.mem.bytes x = d.mem.bytes x := by
  obtain ⟨hw, hhw⟩ := hwrite.hosts
  have hsep := hhw.separate hh hapart
  have hcap : capacity hw = chain.capacity := hhw.capacity_eq
  obtain ⟨hpos, hvq⟩ := popAvail_some hpop
  obtain ⟨-, hb⟩ := readChain_bounded hchain
  obtain ⟨n, d₁, hserve, hr, -, hpush⟩ := serveNext_some hpop hchain hrun
  obtain ⟨reply, s', hreply, hn, hd₁⟩ := serveChain_ok hg hhw hsep hb hserve
  rw [hcap] at hreply
  obtain ⟨idx, q, qid, qlen, hidx, hcells, hmem'⟩ := pushUsed_ok hpush
  subst hvq hd₁
  have hsize : (replyBytes reply).length < 2 ^ 32 := by
    cases reply with
    | bytes b => exact hsmall b s' hreply
    | none => exact Nat.two_pow_pos 32
  have hnum : n.toNat = min (replyBytes reply).length (capacity hw) := by
    rw [hn]
    exact UInt32.toNat_ofNat_of_lt' (lt_of_le_of_lt (Nat.min_le_left _ _) hsize)
  have hc : UsedCells vq d.mem idx q qid qlen := ⟨hcells.index, hcells.id, hcells.length⟩
  have hoff := hc.clear hpos hclear hhw
  have hidx₀ : d.mem.readU16 .user (vq.usedAddr + 2) = some idx := by
    rw [← hidx, readU16_eq hc.index, readU16_eq hcells.index]
    simp only
    rw [load_scatter_apart fun t ht => (hoff t ht).1]
  obtain ⟨hindex, hid, hlen⟩ := hc.read hh _ head n hmem'
  have hfront : ∀ t ∈ window hw 0 n.toNat,
      Apart q 2 t.1 t.2 ∧ Apart qid 4 t.1 t.2 ∧ Apart qlen 4 t.1 t.2 := by
    intro t ht
    obtain ⟨t', ht', hlow, hhigh⟩ := mem_window ht
    have h := hoff t' ht'
    unfold Apart at h ⊢
    omega
  have hstored : gather d'.mem.bytes (window hw 0 n.toNat) = (replyBytes reply).take n.toNat := by
    rw [hmem']
    unfold usedStored
    simp only
    rw [gather_store_apart fun t ht => by rw [leBytes_length]; exact (hfront t ht).1,
      gather_store_apart fun t ht => by rw [leBytes_length]; exact (hfront t ht).2.2,
      gather_store_apart fun t ht => by rw [leBytes_length]; exact (hfront t ht).2.1,
      hnum, gather_scatter_front hsep]
  refine ⟨hw, reply, s', n, idx, q, qid, qlen, hr, hhw, hreply, hcap ▸ hnum, hidx₀, hc, ?_,
    hindex, hid, hlen, hstored, ?_⟩
  · rw [hmem']
  · intro x harea hxid hxlen hxq
    rw [hnum] at harea
    rw [hmem']
    simp only
    rw [usedStored_outside hxid hxlen hxq]
    exact scatter_outside_front harea

/-- Small memory with a request, and a queue of four whose only published chain holds it. -/
def ringImage (request : Bytes) : Bytes :=
  request ++ List.replicate (64 - request.length) 0 ++
    (leBytes 8 0x1000 ++ leBytes 4 request.length ++ leBytes 2 1 ++ leBytes 2 1) ++
    (leBytes 8 0x1800 ++ leBytes 4 200 ++ leBytes 2 2 ++ leBytes 2 0) ++
    List.replicate 32 0 ++ [0, 0, 1, 0, 0, 0]

def ringQueue : Virtqueue := .new 4 0x10040 0x10080 0x10090

def ringChain : DescChain := ⟨0, [(0x1000, 56)], [(0x1800, 200)]⟩

private theorem ringQueue_clear (image : Bytes) :
    RingsClear (smallMemory image) ringQueue ringChain.writable := by
  intro s hs p hp addr len q hring hq
  rw [List.mem_singleton.mp hs] at hp ⊢
  obtain ⟨r, hr, -, -, rfl⟩ := slicePtr_some hp
  obtain ⟨r', hr', hlow, -, rfl⟩ := slicePtr_some hq
  rw [List.mem_singleton.mp hr, List.mem_singleton.mp hr'] at *
  obtain ⟨o, h⟩ := hring
  have hdesc : ringQueue.descAddr.toNat = 0x10040 := rfl
  have havail : ringQueue.availAddr.toNat = 0x10080 := rfl
  have hused : ringQueue.usedAddr.toNat = 0x10090 := rfl
  have hsize : ringQueue.queueSize.toNat = 4 := rfl
  have haddr : addr.toNat + len.toNat ≤ 0x10040 + 0x100 := by
    rcases h with ⟨rfl, h⟩ | ⟨rfl, h⟩ | ⟨rfl, h⟩
    · rw [UInt64.toNat_add]
      omega
    · rw [UInt64.toNat_add]
      omega
    · rw [UInt64.toNat_add]
      omega
  have hbase : (Region.baseFor ⟨0x1000, 0x10000, 0x1000, 0x4000, 0x4000, 0x1000⟩
      AddrSpace.user).toNat = 0x10000 := rfl
  rw [hbase] at hlow ⊢
  show Apart (0x4000 + (0x1800 - 0x1000)) 200 (0x4000 + (addr.toNat - 0x10000)) len.toNat
  unfold Apart
  omega

/-- Serving a `GETATTR` of the root publishes its head. -/
theorem service_frame_getattr : ∃ d', serveNext (calm 20 []) ringQueue
      (smallDevice (ringImage getattrRoot)) = .ok (some { ringQueue with lastAvailIdx := 1 }) d' ∧
    d'.mem.readU16 .user (ringQueue.usedAddr + 2) = some 1 ∧
    d'.mem.readU32 .user (ringQueue.usedElem 0) = some 0 := by
  have heval : value (serveNext (calm 20 []) ringQueue (smallDevice (ringImage getattrRoot))) =
      some (some { ringQueue with lastAvailIdx := 1 }) := by decide +kernel
  have hreply : ((chainReply (calm 20 []) ringChain.capacity ringChain
      (smallDevice (ringImage getattrRoot))).toOption.bind Prod.fst).map
        (fun reply => (replyBytes reply).length) = some 120 := by decide +kernel
  obtain ⟨d', hrun⟩ := ok_of_value heval
  have hpop : ringQueue.popAvail (smallDevice (ringImage getattrRoot)).mem =
      .ok (some 0, { ringQueue with lastAvailIdx := 1 }) := by decide +kernel
  have hchain : Virtqueue.readChain { ringQueue with lastAvailIdx := 1 }
      (smallDevice (ringImage getattrRoot)).mem 0 = .ok ringChain := by decide +kernel
  have hidx₀ : (smallDevice (ringImage getattrRoot)).mem.readU16 .user (ringQueue.usedAddr + 2) =
      some 0 := by decide +kernel
  have hsmall : ∀ b s', chainReply (calm 20 []) ringChain.capacity ringChain
      (smallDevice (ringImage getattrRoot)) = .ok (some (.bytes b), s') → b.length < 2 ^ 32 := by
    intro b s' h
    rw [h] at hreply
    have hlen : b.length = 120 := Option.some.inj hreply
    omega
  obtain ⟨hw, reply, s', n, idx, q, qid, qlen, -, -, -, -, hidx, -, -, hnext, hid, -⟩ :=
    service_frame (calm 20 []) ringQueue _ 0 ringChain
      (smallDevice (ringImage getattrRoot)) d' _ (smallMemory_regular _ _)
      (smallMemory_hostApart _) hpop hchain (by decide)
      (List.pairwise_singleton _ _) (ringQueue_clear _) hsmall hrun
  rw [hidx₀] at hidx
  cases hidx
  exact ⟨d', hrun, hnext, hid⟩

end Riftlessfs.VhostUser
