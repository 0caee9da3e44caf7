import Riftlessfs.VhostUser.QueueWords
import Riftlessfs.VhostUser.TableBounds
import Riftlessfs.VhostUser.Isolation

/-! What the reads of a turn depend on, and what `push_used` stores, byte by byte. -/
namespace Riftlessfs.VhostUser
open Lib.Flat Lib.Effect Lib.LittleEndian Riftlessfs.Core Riftlessfs.Proto Riftlessfs.Fuse

/-- The byte belongs to the entry that `read_chain` reads for index `i`. -/
def Virtqueue.InEntry (vq : Virtqueue) (mem : GuestMemory) (i : UInt16) (x : ℕ) : Prop :=
  InSlice mem .user (vq.entryAddr i) 8 x ∨ InSlice mem .user (vq.entryAddr i + 8) 4 x ∨
    InSlice mem .user (vq.entryAddr i + 12) 2 x ∨ InSlice mem .user (vq.entryAddr i + 14) 2 x

def Word.used : Word → Bool
  | .usedIdx | .usedId _ | .usedLen _ => true
  | .availIdx | .avail _ => false

/-- The byte belongs to a word of the used ring. -/
def Virtqueue.InUsed (vq : Virtqueue) (mem : GuestMemory) (x : ℕ) : Prop :=
  ∃ w : Word, w.used = true ∧ w.Fits vq.queueSize.toNat ∧
    InSlice mem .user (vq.wordAddr w) w.len x

section Reads
variable {touched : ℕ → Prop} {mem mem' : GuestMemory} {vq : Virtqueue}

private theorem entry_kept (h : SameBeyond touched mem mem') {i : UInt16}
    (hclear : ∀ x, vq.InEntry mem i x → ¬touched x) : vq.entry mem' i = vq.entry mem i := by
  have haddr : mem'.readU64 .user (vq.entryAddr i) = mem.readU64 .user (vq.entryAddr i) :=
    congrArg (Option.map _) (getSlice_kept h fun x hx => hclear x (Or.inl hx))
  have hlen : mem'.readU32 .user (vq.entryAddr i + 8) = mem.readU32 .user (vq.entryAddr i + 8) :=
    congrArg (Option.map _) (getSlice_kept h fun x hx => hclear x (Or.inr (Or.inl hx)))
  have hflags : mem'.readU16 .user (vq.entryAddr i + 12) =
      mem.readU16 .user (vq.entryAddr i + 12) :=
    congrArg (Option.map _) (getSlice_kept h fun x hx => hclear x (Or.inr (Or.inr (Or.inl hx))))
  have hnext : mem'.readU16 .user (vq.entryAddr i + 14) =
      mem.readU16 .user (vq.entryAddr i + 14) :=
    congrArg (Option.map _) (getSlice_kept h fun x hx => hclear x (Or.inr (Or.inr (Or.inr hx))))
  unfold Virtqueue.entryAddr at haddr hlen hflags hnext
  unfold Virtqueue.entry Virtqueue.readDesc
  simp only [haddr, hlen, hflags, hnext]

/-- A chain is read again when no entry that was read has changed. -/
theorem readChain_kept (h : SameBeyond touched mem mem') {head : UInt16}
    (hclear : ∀ i ∈ vq.reached mem MAX_CHAIN_LEN head, ∀ x, vq.InEntry mem i x → ¬touched x) :
    vq.readChain mem' head = vq.readChain mem head := by
  apply readChainFrom_congr
  intro i hi
  exact entry_kept h (hclear i hi)

theorem gatherSegments_kept (h : SameBeyond touched mem mem') {segs : List Segment}
    (hclear : ∀ x, InBuffers mem segs x → ¬touched x) (buf : List UInt8) :
    gatherSegments mem' segs buf = gatherSegments mem segs buf := by
  induction segs generalizing buf with
  | nil => rfl
  | cons s segs ih =>
    obtain ⟨addr, len⟩ := s
    have hslice : mem'.getSlice .gpa addr len = mem.getSlice .gpa addr len := by
      apply getSlice_kept h
      rintro x ⟨p, hp, hlow, hhigh⟩
      refine hclear x ⟨(addr, len), List.mem_cons_self, 0, len, p, ?_, ?_, hlow, hhigh⟩
      · exact (Nat.zero_add _).le
      · rwa [UInt64.add_zero]
    have hrest : ∀ buf, gatherSegments mem' segs buf = gatherSegments mem segs buf := by
      apply ih
      rintro x ⟨t, ht, hx⟩
      exact hclear x ⟨t, List.mem_cons_of_mem _ ht, hx⟩
    unfold gatherSegments
    rw [hslice]
    simp only [hrest]

end Reads

section Pushes
variable {vq : Virtqueue} {mem mem' : GuestMemory} {idx head : UInt16} {n : UInt32}

/-- With the words of the used ring mapped, an element can be published. -/
theorem pushUsed_total (hpos : vq.queueSize ≠ 0)
    (hmapped : ∀ w : Word, w.used = true → w.Fits vq.queueSize.toNat →
      (mem.slicePtr .user (vq.wordAddr w) w.len).isSome = true) (head : UInt16) (n : UInt32) :
    ∃ mem', vq.pushUsed head n mem = .ok () mem' := by
  obtain ⟨q, hq⟩ := Option.isSome_iff_exists.mp (hmapped .usedIdx rfl trivial)
  have hidx := readU16_eq hq
  generalize UInt16.ofNat (leNat (load mem.bytes q 2)) = idx at hidx
  obtain ⟨qid, hqid⟩ := Option.isSome_iff_exists.mp
    (hmapped (.usedId (idx % vq.queueSize).toNat) rfl (slot_lt hpos idx))
  obtain ⟨qlen, hqlen⟩ := Option.isSome_iff_exists.mp
    (hmapped (.usedLen (idx % vq.queueSize).toNat) rfl (slot_lt hpos idx))
  rw [wordAddr_usedId] at hqid
  rw [wordAddr_usedLen] at hqlen
  refine ⟨((mem.poke qid (leBytes 4 head.toUInt32.toNat)).poke qlen (leBytes 4 n.toNat)).poke q
    (leBytes 2 (idx + 1).toNat), ?_⟩
  unfold Virtqueue.pushUsed
  refine (bind_of_ok (inBounds_some hidx)).trans ?_
  refine (bind_of_ok (copyIntoSlice_eq mem hqid _)).trans ?_
  refine (bind_of_ok (copyIntoSlice_eq (mem.poke qid _) hqlen _)).trans ?_
  exact copyIntoSlice_eq ((mem.poke qid _).poke qlen _) hq _

/-- `push_used` changes the words of one element and the index, and nothing else. -/
theorem pushUsed_words (hh : mem.HostApart) (hr : vq.RingsApart) (hpos : vq.queueSize ≠ 0)
    (hidx : mem.readU16 .user (vq.usedAddr + 2) = some idx)
    (h : vq.pushUsed head n mem = .ok () mem') :
    vq.word mem' .usedIdx = some (leBytes 2 (idx + 1).toNat) ∧
      vq.word mem' (.usedId (idx % vq.queueSize).toNat) = some (leBytes 4 head.toUInt32.toNat) ∧
      vq.word mem' (.usedLen (idx % vq.queueSize).toNat) = some (leBytes 4 n.toNat) ∧
      ∀ w : Word, w.Fits vq.queueSize.toNat → w ≠ .usedIdx →
        w ≠ .usedId (idx % vq.queueSize).toNat → w ≠ .usedLen (idx % vq.queueSize).toNat →
        vq.word mem' w = vq.word mem w := by
  unfold Virtqueue.pushUsed at h
  obtain ⟨idx', mem₀, hread, hrest⟩ := bind_ok h
  obtain ⟨hidx', rfl⟩ := inBounds_ok hread
  cases hidx.symm.trans hidx'
  obtain ⟨_, mem₁, hputId, hrest₁⟩ := bind_ok hrest
  obtain ⟨_, mem₂, hputLen, hputIdx⟩ := bind_ok hrest₁
  have hid : Word.Fits vq.queueSize.toNat (.usedId (idx % vq.queueSize).toNat) := slot_lt hpos idx
  have hlen : Word.Fits vq.queueSize.toNat (.usedLen (idx % vq.queueSize).toNat) := slot_lt hpos idx
  have hindex : Word.Fits vq.queueSize.toNat .usedIdx := trivial
  have hputId : copyIntoSlice .user (vq.wordAddr (.usedId (idx % vq.queueSize).toNat)) 4
      (leBytes 4 head.toUInt32.toNat) mem₀ = .ok () mem₁ := by
    rw [wordAddr_usedId]
    exact hputId
  have hputLen : copyIntoSlice .user (vq.wordAddr (.usedLen (idx % vq.queueSize).toNat)) 4
      (leBytes 4 n.toNat) mem₁ = .ok () mem₂ := by
    rw [wordAddr_usedLen]
    exact hputLen
  obtain ⟨hregions₁, hself₁, hother₁⟩ := word_stored hh hr hid (leBytes_length 4 _) hputId
  have hh₁ : mem₁.HostApart := by
    unfold GuestMemory.HostApart
    rwa [hregions₁]
  obtain ⟨hregions₂, hself₂, hother₂⟩ := word_stored hh₁ hr hlen (leBytes_length 4 _) hputLen
  have hh₂ : mem₂.HostApart := by
    unfold GuestMemory.HostApart
    rwa [hregions₂]
  obtain ⟨-, hself₃, hother₃⟩ := word_stored hh₂ hr hindex (leBytes_length 2 _) hputIdx
  refine ⟨hself₃, ?_, ?_, ?_⟩
  · rw [hother₃ _ hid Word.noConfusion, hother₂ _ hid Word.noConfusion, hself₁]
  · rw [hother₃ _ hlen Word.noConfusion, hself₂]
  · intro w hw hneIdx hneId hneLen
    rw [hother₃ w hw hneIdx, hother₂ w hw hneLen, hother₁ w hw hneId]

/-- Only bytes of the used ring are stored to. -/
theorem pushUsed_inUsed (hpos : vq.queueSize ≠ 0) (h : vq.pushUsed head n mem = .ok () mem') :
    SameBeyond (vq.InUsed mem) mem mem' := by
  obtain ⟨idx, q, qid, qlen, -, hcells, hmem⟩ := pushUsed_ok h
  constructor
  · rw [hmem]
  · intro x hx
    have hid := hcells.id
    have hlen := hcells.length
    rw [← wordAddr_usedId] at hid
    rw [← wordAddr_usedLen] at hlen
    rw [hmem]
    apply usedStored_outside
    · by_contra hin
      exact hx ⟨.usedId (idx % vq.queueSize).toNat, rfl, slot_lt hpos idx, qid, hid, by omega,
        show x < qid + 4 by omega⟩
    · by_contra hin
      exact hx ⟨.usedLen (idx % vq.queueSize).toNat, rfl, slot_lt hpos idx, qlen, hlen, by omega,
        show x < qlen + 4 by omega⟩
    · by_contra hin
      exact hx ⟨.usedIdx, rfl, trivial, q, hcells.index, by omega, show x < q + 2 by omega⟩

end Pushes

section Chains
variable {env : Env} {d : Device} {chain : DescChain} {request : Bytes} {hr hw : List (ℕ × ℕ)}

/-- A mapped chain with room for what a `READ` asks for is answered as `Session::handle` answers
the request it holds. -/
theorem chainReply_handle (env : Env) (hm : d.mem.Regular .gpa)
    (hhr : Hosts d.mem chain.readable hr) (hb : chain.Bounded)
    (hreq : gatherReadable d.mem chain = .ok request) {cap : ℕ}
    (hcap : peekOpcode request = .read → ∀ r, ReadIn.fromBytes (InHeader.body request) = .ok r →
      OUT_HEADER_LEN + r.size.toNat ≤ cap) :
    chainReply env cap chain d = .ok (Session.handle env d.session request) := by
  have hsegs : chain.readable.length ≤ MAX_CHAIN_LEN := by
    have h := hb.segments
    omega
  cases hop : peekOpcode request with
  | read => exact chainReply_read env hm hhr hreq hop (hcap hop)
  | write => exact chainReply_write env hm hhr hsegs hreq hop cap
  | _ =>
    rw [chainReply_path env hm hhr hreq, hop]
    exact plainReply_eq env hreq

theorem delivered_some (d : Device) (hw : List (ℕ × ℕ)) (reply : Reply) (s : Session) :
    delivered d hw (some reply, s) =
      .ok (.ofNat (min (replyBytes reply).length (capacity hw)))
        ⟨s, { d.mem with bytes := scatter d.mem.bytes hw (replyBytes reply) }⟩ := by
  cases reply with
  | bytes b => rfl
  | none => simp [delivered, replyBytes]

end Chains

end Riftlessfs.VhostUser
