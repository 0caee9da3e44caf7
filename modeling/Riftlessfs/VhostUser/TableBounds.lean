import Riftlessfs.Lib.Run
import Riftlessfs.VhostUser.ChainWalk
import Riftlessfs.VhostUser.ProcessVring

/-! Which descriptors the server reads: neither `pop_avail` nor `read_chain` compares an
index with the queue size. -/
namespace Riftlessfs.VhostUser
open Lib.Flat Lib.LittleEndian Lib.Run Riftlessfs.Proto

namespace Virtqueue

/-- Where `read_chain` reads the entry with index `i`. -/
def entryAddr (vq : Virtqueue) (i : UInt16) : UInt64 := vq.descAddr + i.toUInt64 * DESC_LEN

/-- That place is in the descriptor table. -/
def InTable (vq : Virtqueue) (i : UInt16) : Prop :=
  vq.descAddr.toNat ≤ (vq.entryAddr i).toNat ∧
    (vq.entryAddr i).toNat + 16 ≤ vq.descAddr.toNat + 16 * vq.queueSize.toNat

instance (vq : Virtqueue) (i : UInt16) : Decidable (vq.InTable i) :=
  inferInstanceAs (Decidable (_ ∧ _))

/-- The indices that the loop of `read_chain` reads with `n` descriptors still allowed. -/
def reached (vq : Virtqueue) (mem : GuestMemory) : ℕ → UInt16 → List UInt16
  | 0, _ => []
  | n + 1, i =>
    i :: match vq.entry mem i with
      | none => []
      | some d => if d.isNext ∧ ¬ d.isIndirect then vq.reached mem n d.next else []

/-- The heads that `pop_avail` takes one after another out of unchanged memory, up to `n`. -/
def heads (mem : GuestMemory) : ℕ → Virtqueue → List UInt16
  | 0, _ => []
  | n + 1, vq =>
    match vq.popAvail mem with
    | .ok (some head, vq') => head :: heads mem n vq'
    | _ => []

/-- The queue after a call of `pop_avail`. -/
def advance (vq : Virtqueue) (mem : GuestMemory) : Virtqueue :=
  match vq.popAvail mem with
  | .ok (_, vq') => vq'
  | .error _ => vq

/-- How far the guest's index in `mem` is ahead of the server's position. -/
def ahead (vq : Virtqueue) (mem : GuestMemory) : ℕ :=
  match mem.readU16 .user (vq.availAddr + 2) with
  | some idx => (idx - vq.lastAvailIdx).toNat
  | none => 0

/-- A call of `pop_avail` on `mem` and of `read_chain` on its head stay inside: a head is
taken only from an index at most the queue size ahead, and every entry read as a descriptor
is in the table. -/
def StaysInside (vq : Virtqueue) (mem : GuestMemory) : Prop :=
  (∀ n, (heads mem n vq).length ≤ vq.queueSize.toNat) ∧
  ∀ head vq', vq.popAvail mem = .ok (some head, vq') →
    vq.ahead mem ≤ vq.queueSize.toNat ∧
    ∀ i ∈ vq.reached mem MAX_CHAIN_LEN head, vq.entry mem i ≠ none → vq.InTable i

/-- What the guest published in `mem` is within the queue: its index is at most the queue
size ahead, and the next head and every mapped entry that 511 links from it lead to, without
passing an indirect one, are below the queue size. -/
def Published (vq : Virtqueue) (mem : GuestMemory) : Prop :=
  ∀ head, 0 < vq.ahead mem → mem.readU16 .user (vq.availSlot vq.lastAvailIdx) = some head →
    vq.ahead mem ≤ vq.queueSize.toNat ∧
    ∀ k < MAX_CHAIN_LEN, ∀ i, follow (vq.entry mem) head k = some i →
      (∀ l < k, ∀ j d, follow (vq.entry mem) head l = some j → vq.entry mem j = some d →
        ¬ d.isIndirect) →
      vq.entry mem i ≠ none → i.toNat < vq.queueSize.toNat

end Virtqueue

section Reached
variable {vq vq' : Virtqueue} {mem mem' : GuestMemory} {i j : UInt16}

/-- What `read_chain` answers depends on the reached entries only. -/
theorem readChainFrom_congr (n : ℕ) (i : UInt16) (chain : DescChain)
    (h : ∀ j ∈ vq.reached mem n i, vq'.entry mem' j = vq.entry mem j) :
    vq'.readChainFrom mem' n i chain = vq.readChainFrom mem n i chain := by
  induction n generalizing i chain with
  | zero => rfl
  | succ n ih =>
    unfold Virtqueue.reached at h
    rw [readChainFrom_succ, readChainFrom_succ, h i (List.mem_cons_self ..)]
    cases hentry : vq.entry mem i with
    | none => rfl
    | some d =>
      dsimp only
      split_ifs with hind hnext
      · rfl
      · apply ih
        intro j hj
        apply h j
        rw [hentry]
        simp only [hnext, hind, not_false_eq_true, and_self, if_true]
        exact List.mem_cons_of_mem _ hj
      · rfl

/-- The reached entries are those that links lead to without passing an indirect one. -/
theorem mem_reached (n : ℕ) (i j : UInt16) :
    j ∈ vq.reached mem n i ↔ ∃ k < n, follow (vq.entry mem) i k = some j ∧
      ∀ l < k, ∀ j' d, follow (vq.entry mem) i l = some j' → vq.entry mem j' = some d →
        ¬ d.isIndirect := by
  induction n generalizing i with
  | zero => simp [Virtqueue.reached]
  | succ n ih =>
    rw [Virtqueue.reached, List.mem_cons]
    constructor
    · rintro (rfl | hj)
      · exact ⟨0, Nat.succ_pos n, rfl, fun l hl => absurd hl (Nat.not_lt_zero l)⟩
      · cases hentry : vq.entry mem i with
        | none => simp [hentry] at hj
        | some d =>
          simp only [hentry] at hj
          split_ifs at hj with hlink
          · obtain ⟨k, hk, hfollow, hplain⟩ := (ih _).mp hj
            refine ⟨k + 1, Nat.succ_lt_succ hk, ?_, ?_⟩
            · rw [follow_of_next hentry hlink.1]
              exact hfollow
            · intro l hl j' d' hj' hd'
              cases l with
              | zero =>
                cases hj'
                cases hentry.symm.trans hd'
                exact hlink.2
              | succ l =>
                rw [follow_of_next hentry hlink.1] at hj'
                exact hplain l (Nat.lt_of_succ_lt_succ hl) j' d' hj' hd'
          · simp at hj
    · rintro ⟨k, hk, hfollow, hplain⟩
      cases k with
      | zero =>
        cases hfollow
        exact Or.inl rfl
      | succ k =>
        right
        rw [follow_succ] at hfollow
        obtain ⟨d, hentry, hfollow⟩ := Option.bind_eq_some_iff.mp hfollow
        have hind : ¬ d.isIndirect := hplain 0 (Nat.succ_pos k) i d rfl hentry
        split_ifs at hfollow with hnext
        simp only [hentry, hnext, hind, not_false_eq_true, and_self, if_true]
        refine (ih _).mpr ⟨k, Nat.lt_of_succ_lt_succ hk, hfollow, ?_⟩
        intro l hl j' d' hj' hd'
        refine hplain (l + 1) (Nat.succ_lt_succ hl) j' d' ?_ hd'
        rw [follow_of_next hentry hnext]
        exact hj'

end Reached

section Turn
variable {vq vq' : Virtqueue} {mem : GuestMemory} {head : UInt16}

/-- When `pop_avail` takes a head. -/
theorem popAvail_takes (hpos : vq.queueSize ≠ 0) :
    vq.popAvail mem = .ok (some head, vq') ↔
      0 < vq.ahead mem ∧ mem.readU16 .user (vq.availSlot vq.lastAvailIdx) = some head ∧
        vq' = { vq with lastAvailIdx := vq.lastAvailIdx + 1 } := by
  constructor
  · intro h
    obtain ⟨idx, hidx, ⟨-, hnone, -⟩ | ⟨hne, -, hhead, -, hvq⟩⟩ := popAvail_ok h
    · cases hnone
    · refine ⟨?_, hhead.symm, hvq⟩
      unfold Virtqueue.ahead
      rw [hidx]
      have hi := idx.toNat_lt
      have hl := vq.lastAvailIdx.toNat_lt
      have hdiff : idx.toNat ≠ vq.lastAvailIdx.toNat := fun heq => hne (UInt16.toNat_inj.mp heq)
      simp only [UInt16.toNat_sub]
      omega
  · rintro ⟨hahead, hhead, rfl⟩
    unfold Virtqueue.ahead at hahead
    unfold Virtqueue.popAvail
    cases hidx : mem.readU16 .user (vq.availAddr + 2) with
    | none => simp [hidx] at hahead
    | some idx =>
      have hne : idx ≠ vq.lastAvailIdx := by
        rintro rfl
        simp [hidx] at hahead
      have hslot : mem.readU16 .user (vq.availAddr + (AVAIL_RING_OFFSET +
          (vq.lastAvailIdx % vq.queueSize).toUInt64 * 2)) = some head := hhead
      simp only [if_neg hne, if_neg hpos, hslot]

private theorem ahead_next (h : 0 < vq.ahead mem) :
    Virtqueue.ahead { vq with lastAvailIdx := vq.lastAvailIdx + 1 } mem + 1 = vq.ahead mem := by
  unfold Virtqueue.ahead at *
  cases hidx : mem.readU16 .user (vq.availAddr + 2) with
  | none =>
    rw [hidx] at h
    cases h
  | some idx =>
    rw [hidx] at h
    have hi := idx.toNat_lt
    have hl := vq.lastAvailIdx.toNat_lt
    have hone : (1 : UInt16).toNat = 1 := rfl
    simp only [UInt16.toNat_sub, UInt16.toNat_add, hone] at *
    omega

/-- Out of unchanged memory no more heads are taken than the index is ahead. -/
theorem heads_length_le (hpos : vq.queueSize ≠ 0) (n : ℕ) :
    (Virtqueue.heads mem n vq).length ≤ vq.ahead mem := by
  induction n generalizing vq with
  | zero => exact Nat.zero_le _
  | succ n ih =>
    unfold Virtqueue.heads
    split
    · rename_i head vq' hpop
      obtain ⟨hahead, -, rfl⟩ := (popAvail_takes hpos).mp hpop
      have hnext := ahead_next hahead
      have hrest : (Virtqueue.heads mem n { vq with lastAvailIdx := vq.lastAvailIdx + 1 }).length ≤
          ({ vq with lastAvailIdx := vq.lastAvailIdx + 1 } : Virtqueue).ahead mem := ih hpos
      rw [List.length_cons]
      omega
    · exact Nat.zero_le _

private theorem heads_eq_nil (h : ¬ ∃ head vq', vq.popAvail mem = .ok (some head, vq')) (n : ℕ) :
    Virtqueue.heads mem n vq = [] := by
  cases n with
  | zero => rfl
  | succ n =>
    unfold Virtqueue.heads
    split
    · rename_i head vq' hpop
      exact absurd ⟨head, vq', hpop⟩ h
    · rfl

/-- A table that ends in the address space holds the entries below the queue size, and no
other index wraps around into it. -/
theorem inTable_iff (htable : vq.descAddr.toNat + 16 * vq.queueSize.toNat ≤ 2 ^ 64) (i : UInt16) :
    vq.InTable i ↔ i.toNat < vq.queueSize.toNat := by
  have hi := i.toNat_lt
  have hdesc := vq.descAddr.toNat_lt
  have haddr : (vq.entryAddr i).toNat = (vq.descAddr.toNat + 16 * i.toNat) % 2 ^ 64 := by
    unfold Virtqueue.entryAddr
    rw [UInt64.toNat_add, scaled_toNat i (by decide)]
    rfl
  unfold Virtqueue.InTable
  rw [haddr]
  omega

private theorem staysInside_iff (hpos : vq.queueSize ≠ 0)
    (htable : vq.descAddr.toNat + 16 * vq.queueSize.toNat ≤ 2 ^ 64) :
    vq.StaysInside mem ↔ vq.Published mem := by
  constructor
  · rintro ⟨-, htaken⟩ head hahead hhead
    obtain ⟨hle, hin⟩ := htaken head _ ((popAvail_takes hpos).mpr ⟨hahead, hhead, rfl⟩)
    refine ⟨hle, ?_⟩
    intro k hk i hfollow hplain hmapped
    exact (inTable_iff htable i).mp
      (hin i ((mem_reached _ _ _).mpr ⟨k, hk, hfollow, hplain⟩) hmapped)
  · intro hpub
    constructor
    · intro n
      by_cases htakes : ∃ head vq', vq.popAvail mem = .ok (some head, vq')
      · obtain ⟨head, vq', hpop⟩ := htakes
        obtain ⟨hahead, hhead, -⟩ := (popAvail_takes hpos).mp hpop
        exact (heads_length_le hpos n).trans (hpub head hahead hhead).1
      · rw [heads_eq_nil htakes]
        exact Nat.zero_le _
    · intro head vq' hpop
      obtain ⟨hahead, hhead, -⟩ := (popAvail_takes hpos).mp hpop
      obtain ⟨hle, hlinks⟩ := hpub head hahead hhead
      refine ⟨hle, ?_⟩
      intro i hi hmapped
      obtain ⟨k, hk, hfollow, hplain⟩ := (mem_reached _ _ _).mp hi
      exact (inTable_iff htable i).mpr (hlinks k hk i hfollow hplain hmapped)

/-- No call moves or resizes the queue. -/
theorem advance_layout (vq : Virtqueue) (mem : GuestMemory) :
    vq.advance mem = { vq with lastAvailIdx := (vq.advance mem).lastAvailIdx } := by
  unfold Virtqueue.advance
  split
  · rename_i head vq' hpop
    obtain ⟨idx, -, ⟨-, -, rfl⟩ | ⟨-, -, -, -, rfl⟩⟩ := popAvail_ok hpop
    · rfl
    · rfl
  · rfl

end Turn

/-- Calls of `pop_avail` and `read_chain`, each on the memory the guest has left by then, stay
inside the queue exactly as long as the guest's published indices do. -/
theorem stays_inside_iff_published (vq : Virtqueue) (mems : List GuestMemory)
    (hpos : 1 ≤ vq.queueSize.toNat) (hsize : vq.queueSize.toNat ≤ 32768)
    (htable : vq.descAddr.toNat + 16 * vq.queueSize.toNat ≤ 2 ^ 64) :
    Along (fun vq mem => some (Virtqueue.advance vq mem)) Virtqueue.StaysInside vq mems ↔
      Along (fun vq mem => some (Virtqueue.advance vq mem)) Virtqueue.Published vq mems := by
  induction mems generalizing vq with
  | nil => exact Iff.rfl
  | cons mem mems ih =>
    have hne : vq.queueSize ≠ 0 := by
      intro hzero
      rw [hzero] at hpos
      exact absurd hpos (by decide)
    have hlayout := advance_layout vq mem
    have hq : (vq.advance mem).queueSize = vq.queueSize := by rw [hlayout]
    have hd : (vq.advance mem).descAddr = vq.descAddr := by rw [hlayout]
    unfold Along
    rw [staysInside_iff hne htable]
    refine and_congr_right fun _ => ?_
    apply ih
    · rw [hq]
      exact hpos
    · rw [hq]
      exact hsize
    · rw [hq, hd]
      exact htable

/-- A queue of four: table, available ring and used ring in the first page of a region. -/
def pageQueue : Virtqueue := .new 4 0x10000 0x10040 0x10060

/-- The page of that queue. The guest's index is `idx`, its first head is `head`, and entry 0
links to `link`; behind the rings lies what would be entry 9. -/
def pageRing (idx head link : UInt16) : GuestMemory where
  regions := [⟨0x1000, 0x10000, 0x1000, 0x4000, 0x4000, 0x1000⟩]
  bytes := store (fun _ => 0) 0x4000 (
    Desc.encode ⟨0x1900, 8, 1, link⟩ ++ Desc.encode ⟨0x1a00, 8, 0, 0⟩ ++ List.replicate 32 0 ++
    leBytes 2 0 ++ leBytes 2 idx.toNat ++ leBytes 2 head.toNat ++ List.replicate 74 0 ++
    Desc.encode ⟨0x1800, 40, 0, 0⟩)

/-- A head and a link past the queue size are read as descriptors from behind the table, and
six heads are taken from a queue of four. -/
theorem stray_descriptors_read :
    (pageQueue.popAvail (pageRing 1 9 1) = .ok (some 9, { pageQueue with lastAvailIdx := 1 }) ∧
      pageQueue.readChain (pageRing 1 9 1) 9 = .ok ⟨9, [(0x1800, 40)], []⟩ ∧
      ¬ pageQueue.InTable 9) ∧
    pageQueue.readChain (pageRing 1 0 9) 0 = .ok ⟨0, [(0x1900, 8), (0x1800, 40)], []⟩ ∧
    (Virtqueue.heads (pageRing 6 0 1) 6 pageQueue).length = 6 ∧
    ¬ pageQueue.StaysInside (pageRing 1 9 1) ∧ ¬ pageQueue.StaysInside (pageRing 1 0 9) ∧
    ¬ pageQueue.StaysInside (pageRing 6 0 1) := by
  have hpop : pageQueue.popAvail (pageRing 1 9 1) =
      .ok (some 9, { pageQueue with lastAvailIdx := 1 }) := by decide +kernel
  have hlink : pageQueue.popAvail (pageRing 1 0 9) =
      .ok (some 0, { pageQueue with lastAvailIdx := 1 }) := by decide +kernel
  have hout : ¬ pageQueue.InTable 9 := by decide
  have hheads : (Virtqueue.heads (pageRing 6 0 1) 6 pageQueue).length = 6 := by decide +kernel
  refine ⟨⟨hpop, by decide +kernel, hout⟩, by decide +kernel, hheads, ?_, ?_, ?_⟩
  · rintro ⟨-, hin⟩
    refine hout ((hin _ _ hpop).2 9 ?_ ?_)
    · exact List.mem_cons_self ..
    · decide +kernel
  · rintro ⟨-, hin⟩
    refine hout ((hin _ _ hlink).2 9 ?_ ?_)
    · decide +kernel
    · decide +kernel
  · rintro ⟨hfew, -⟩
    have hle := hfew 6
    rw [hheads] at hle
    exact absurd hle (by decide)

theorem stays_inside_page :
    Along (fun vq mem => some (Virtqueue.advance vq mem)) Virtqueue.StaysInside pageQueue
      [pageRing 1 0 1] := by
  refine (stays_inside_iff_published pageQueue [pageRing 1 0 1] (by decide) (by decide)
    (by decide)).mpr ⟨?_, trivial⟩
  intro head _ hhead
  have hslot : (pageRing 1 0 1).readU16 .user (pageQueue.availSlot pageQueue.lastAvailIdx) =
      some 0 := by decide +kernel
  rw [hslot] at hhead
  cases hhead
  have hreached : pageQueue.reached (pageRing 1 0 1) MAX_CHAIN_LEN 0 = [0, 1] := by
    decide +kernel
  refine ⟨by decide +kernel, ?_⟩
  intro k hk i hfollow hplain _
  have hi := (mem_reached _ _ _).mpr ⟨k, hk, hfollow, hplain⟩
  rw [hreached] at hi
  rcases List.mem_pair.mp hi with rfl | rfl
  · decide
  · decide

end Riftlessfs.VhostUser
