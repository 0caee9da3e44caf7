import Riftlessfs.Lib.Ring
import Riftlessfs.VhostUser.Footprints
import Riftlessfs.VhostUser.NoLostKick

/-! A batch of requests that the guest published before it fell quiet, served to its end. -/
namespace Riftlessfs.VhostUser
open Lib.Flat Lib.Effect Lib.LittleEndian Lib.Run Lib.Ring
open Riftlessfs.Core Riftlessfs.Proto Riftlessfs.Fuse

/-- A published request: its head, the chain behind the head, the bytes in the chain's readable
buffers, and how the host's calls go while it is served. -/
structure Job where
  head : UInt16
  chain : DescChain
  request : Bytes
  env : Env

namespace Job

/-- The job is found in memory, in mapped buffers with room for what it asks for. -/
structure Laid (mem : GuestMemory) (vq : Virtqueue) (job : Job) : Prop where
  chain : vq.readChain mem job.head = .ok job.chain
  request : gatherReadable mem job.chain = .ok job.request
  readable : Mapped mem job.chain.readable
  writable : Mapped mem job.chain.writable
  apart : SegmentsApart job.chain.writable
  room : peekOpcode job.request = .read →
    ∀ r, ReadIn.fromBytes (InHeader.body job.request) = .ok r →
      OUT_HEADER_LEN + r.size.toNat ≤ job.chain.capacity

/-- The bytes that tell the server what the job is. -/
def Reads (mem : GuestMemory) (vq : Virtqueue) (job : Job) (x : ℕ) : Prop :=
  InBuffers mem job.chain.readable x ∨
    ∃ i ∈ vq.reached mem MAX_CHAIN_LEN job.head, vq.InEntry mem i x

/-- The reply lies in the job's writable buffers, as far as it fits. -/
def Answered (mem : GuestMemory) (job : Job) (reply : Reply) : Prop :=
  ∃ b, gatherSegments mem job.chain.writable [] = .ok b ∧
    (replyBytes reply).take job.chain.capacity <+: b

/-- The used element for an index gives the job back with the length of what was stored. -/
def Returned (vq : Virtqueue) (mem : GuestMemory) (idx : UInt16) (job : Job) (reply : Reply) :
    Prop :=
  mem.readU32 .user (vq.usedElem idx) = some job.head.toUInt32 ∧
    mem.readU32 .user (vq.usedElem idx + 4) =
      some (.ofNat (min (replyBytes reply).length job.chain.capacity))

end Job

/-- The bytes that serving the jobs may store to. -/
def Touched (mem : GuestMemory) (vq : Virtqueue) (jobs : List Job) (x : ℕ) : Prop :=
  (∃ job ∈ jobs, InBuffers mem job.chain.writable x) ∨ vq.InUsed mem x

/-- The jobs are what the guest has published and the server not yet popped, and memory is laid
out as the guest is asked to: the rings, what the server reads of the jobs and what it writes for
each of them lie apart. -/
structure Batch (mem : GuestMemory) (vq : Virtqueue) (jobs : List Job) : Prop where
  regular : mem.Regular .gpa
  host : mem.HostApart
  rings : vq.RingsApart
  size : vq.queueSize.toNat ∣ 2 ^ 16
  count : jobs.length ≤ vq.queueSize.toNat
  mapped : ∀ w : Word, w.used = true → w.Fits vq.queueSize.toNat →
    (mem.slicePtr .user (vq.wordAddr w) w.len).isSome = true
  index : mem.readU16 .user (vq.availAddr + 2) = some (vq.lastAvailIdx + .ofNat jobs.length)
  slot : ∀ k job, jobs[k]? = some job →
    mem.readU16 .user (vq.availSlot (vq.lastAvailIdx + .ofNat k)) = some job.head
  laid : ∀ job ∈ jobs, job.Laid mem vq
  clear : ∀ job ∈ jobs, ∀ x, InBuffers mem job.chain.writable x → ClearOfRings mem vq x 1
  unread : ∀ job ∈ jobs, ∀ x, job.Reads mem vq x → ¬Touched mem vq jobs x
  disjoint : jobs.Pairwise fun a b =>
    ∀ x, InBuffers mem a.chain.writable x → ¬InBuffers mem b.chain.writable x

/-- Memory after the first jobs of a batch were served: each is returned in order from position
`base` of the used ring on, with its reply, and nothing else changed. -/
structure Served (mem₀ mem : GuestMemory) (vq : Virtqueue) (base : ℕ) (jobs : List Job)
    (done : List (Job × Reply)) : Prop where
  same : SameBeyond (Touched mem₀ vq jobs) mem₀ mem
  index : mem.readU16 .user (vq.usedAddr + 2) = some (.ofNat (base + done.length))
  returned : ∀ (k : ℕ) (x : Job × Reply), done[k]? = some x →
    x.1.Returned vq mem (.ofNat (base + k)) x.2
  answered : ∀ x ∈ done, x.1.Answered mem x.2

section Regions
variable {touched : ℕ → Prop} {mem mem' : GuestMemory} {vq : Virtqueue}

theorem SameBeyond.mono {touched' : ℕ → Prop} (h : SameBeyond touched mem mem')
    (hle : ∀ x, touched x → touched' x) : SameBeyond touched' mem mem' :=
  ⟨h.regions, fun x hx => h.bytes x fun ht => hx (hle x ht)⟩

theorem SameBeyond.regular (h : SameBeyond touched mem mem') {space : AddrSpace}
    (hm : mem.Regular space) : mem'.Regular space := by
  obtain ⟨hapart, hfits⟩ := hm
  rw [← h.regions] at hapart hfits
  exact ⟨hapart, hfits⟩

theorem SameBeyond.hostApart (h : SameBeyond touched mem mem') (hh : mem.HostApart) :
    mem'.HostApart := by
  unfold GuestMemory.HostApart
  rwa [h.regions]

theorem SameBeyond.mapped (h : SameBeyond touched mem mem') {segs : List Segment}
    (hm : Mapped mem segs) : Mapped mem' segs := by
  intro s hs
  rw [slicePtr_regions h.regions]
  exact hm s hs

private theorem inUsed_regions (h : mem'.regions = mem.regions) {x : ℕ} (hx : vq.InUsed mem' x) :
    vq.InUsed mem x := by
  obtain ⟨w, hused, hfits, p, hp, hin⟩ := hx
  rw [slicePtr_regions h] at hp
  exact ⟨w, hused, hfits, p, hp, hin⟩

/-- A byte clear of the rings is in no word of them. -/
theorem ClearOfRings.not_inUsed {x : ℕ} (h : ClearOfRings mem vq x 1) : ¬vq.InUsed mem x := by
  rintro ⟨w, -, hfits, p, hp, hlow, hhigh⟩
  have hapart := h _ _ p (Word.inRings hfits) hp
  unfold Apart at hapart
  omega

private theorem readU16_of_word {w : Word} {v : UInt16}
    (h : vq.word mem w = some (leBytes 2 v.toNat))
    (hlen : w.len = 2) : mem.readU16 .user (vq.wordAddr w) = some v := by
  unfold Virtqueue.word at h
  rw [hlen] at h
  unfold GuestMemory.readU16
  rw [h, Option.map_some, u16_leBytes]

theorem readU32_of_word {w : Word} {v : UInt32} (h : vq.word mem w = some (leBytes 4 v.toNat))
    (hlen : w.len = 4) : mem.readU32 .user (vq.wordAddr w) = some v := by
  unfold Virtqueue.word at h
  rw [hlen] at h
  unfold GuestMemory.readU32
  rw [h, Option.map_some, u32_leBytes]

end Regions

section Turn
variable {mem₀ : GuestMemory} {vq : Virtqueue} {jobs rest : List Job} {base : ℕ} {job : Job}
  {reply : Reply} {done : List (Job × Reply)} {d : Device} {s' : Session}

theorem Batch.pos (b : Batch mem₀ vq jobs) : vq.queueSize ≠ 0 := by
  intro h
  have hsize := b.size
  rw [h] at hsize
  exact absurd hsize (by decide)

/-- No byte of the available ring is stored to. -/
theorem Batch.avail_clear (b : Batch mem₀ vq jobs) {w : Word} (hw : w.used = false)
    (hfits : w.Fits vq.queueSize.toNat) {x : ℕ}
    (hx : InSlice mem₀ .user (vq.wordAddr w) w.len x) : ¬Touched mem₀ vq jobs x := by
  obtain ⟨p, hp, hlow, hhigh⟩ := hx
  rintro (⟨job, hjob, hbuf⟩ | ⟨w', hw', hfits', p', hp', hlow', hhigh'⟩)
  · have hapart := b.clear job hjob x hbuf _ _ p (Word.inRings hfits) hp
    unfold Apart at hapart
    omega
  · have hne : w ≠ w' := by
      rintro rfl
      rw [hw] at hw'
      cases hw'
    have hapart := slicePtr_apart b.host hp hp' (words_apart b.rings hfits hfits' hne)
    unfold Apart at hapart
    omega

theorem Served.availIdx (b : Batch mem₀ vq jobs) (h : Served mem₀ d.mem vq base jobs done) :
    d.mem.readU16 .user (vq.availAddr + 2) = some (vq.lastAvailIdx + .ofNat jobs.length) := by
  rw [← b.index]
  have hkept : d.mem.getSlice .user (vq.wordAddr .availIdx) 2 =
      mem₀.getSlice .user (vq.wordAddr .availIdx) 2 :=
    getSlice_kept h.same fun x hx => b.avail_clear (w := .availIdx) rfl trivial hx
  exact congrArg (Option.map _) hkept

theorem Served.availSlot (b : Batch mem₀ vq jobs) (h : Served mem₀ d.mem vq base jobs done)
    (idx : UInt16) :
    d.mem.readU16 .user (vq.availSlot idx) = mem₀.readU16 .user (vq.availSlot idx) := by
  have hfits : Word.Fits vq.queueSize.toNat (.avail (idx % vq.queueSize).toNat) :=
    slot_lt b.pos idx
  have hkept : d.mem.getSlice .user (vq.availSlot idx) 2 =
      mem₀.getSlice .user (vq.availSlot idx) 2 := by
    apply getSlice_kept h.same
    intro x hx
    rw [← wordAddr_avail] at hx
    exact b.avail_clear rfl hfits hx
  exact congrArg (Option.map _) hkept

/-- `pop_avail` finds the next job of the batch. -/
theorem Served.pop (b : Batch mem₀ vq jobs) (h : Served mem₀ d.mem vq base jobs done)
    (hjobs : jobs[done.length]? = some job) :
    (vq.setAvailBase (vq.lastAvailIdx + .ofNat done.length)).popAvail d.mem =
      .ok (some job.head, vq.setAvailBase (vq.lastAvailIdx + .ofNat (done.length + 1))) := by
  have hlt : done.length < jobs.length := (List.getElem?_eq_some_iff.mp hjobs).1
  have hcount := b.count
  have hsize := vq.queueSize.toNat_lt
  have hne : vq.lastAvailIdx + .ofNat jobs.length ≠ vq.lastAvailIdx + .ofNat done.length := by
    intro heq
    have hsame : UInt16.ofNat jobs.length = UInt16.ofNat done.length :=
      (UInt16.add_right_inj _).mp heq
    have hall : jobs.length < 2 ^ 16 := by omega
    have hpart : done.length < 2 ^ 16 := by omega
    have hnat := congrArg UInt16.toNat hsame
    rw [UInt16.toNat_ofNat_of_lt' hall, UInt16.toNat_ofNat_of_lt' hpart] at hnat
    omega
  have hindex := h.availIdx b
  have hslot := h.availSlot b (vq.lastAvailIdx + .ofNat done.length)
  rw [b.slot _ _ hjobs] at hslot
  have hstep : vq.lastAvailIdx + .ofNat done.length + 1 =
      vq.lastAvailIdx + .ofNat (done.length + 1) := by
    rw [UInt16.add_assoc, index_succ]
  unfold Virtqueue.popAvail Virtqueue.setAvailBase
  simp only [hindex]
  rw [if_neg hne, if_neg b.pos]
  unfold Virtqueue.availSlot at hslot
  simp only [hslot, hstep]

theorem Served.readChain (b : Batch mem₀ vq jobs) (h : Served mem₀ d.mem vq base jobs done)
    (hjob : job ∈ jobs) (idx : UInt16) :
    (vq.setAvailBase idx).readChain d.mem job.head = .ok job.chain := by
  -- the position in the available ring plays no part
  have hsame : (vq.setAvailBase idx).readChain d.mem job.head = vq.readChain d.mem job.head :=
    readChainFrom_congr _ _ _ fun _ _ => rfl
  rw [hsame, ← (b.laid job hjob).chain]
  apply readChain_kept h.same
  intro i hi x hx
  exact b.unread job hjob x (Or.inr ⟨i, hi, hx⟩)

theorem Served.request (b : Batch mem₀ vq jobs) (h : Served mem₀ d.mem vq base jobs done)
    (hjob : job ∈ jobs) : gatherReadable d.mem job.chain = .ok job.request := by
  rw [← (b.laid job hjob).request]
  apply gatherSegments_kept h.same
  intro x hx
  exact b.unread job hjob x (Or.inl hx)

/-- The next job is answered as `Session::handle` answers it, and the reply is stored. -/
theorem Served.serve (b : Batch mem₀ vq jobs) (h : Served mem₀ d.mem vq base jobs done)
    (hjob : job ∈ jobs) (hans : Session.handle job.env d.session job.request = (some reply, s')) :
    ∃ mem, serveChain job.env job.chain d =
        .ok (.ofNat (min (replyBytes reply).length job.chain.capacity)) ⟨s', mem⟩ ∧
      SameBeyond (InBuffers mem₀ job.chain.writable) d.mem mem ∧ job.Answered mem reply := by
  have laid := b.laid job hjob
  have hm := h.same.regular b.regular
  obtain ⟨hr, hhr⟩ := (h.same.mapped laid.readable).hosts
  obtain ⟨hw, hhw⟩ := (h.same.mapped laid.writable).hosts
  have hsep := hhw.separate (h.same.hostApart b.host) laid.apart
  have hcap : capacity hw = job.chain.capacity := hhw.capacity_eq
  obtain ⟨-, hb⟩ := readChain_bounded laid.chain
  have hreply : chainReply job.env (capacity hw) job.chain d = .ok (some reply, s') := by
    rw [← hans]
    apply chainReply_handle job.env hm hhr hb (h.request b hjob)
    rw [hcap]
    exact laid.room
  have hserve : serveChain job.env job.chain d = delivered d hw (some reply, s') := by
    rw [serveChain_settled job.env hm hhw hsep hb, hreply]
    rfl
  rw [delivered_some, hcap] at hserve
  refine ⟨_, hserve, ?_, ?_⟩
  · apply (serveChain_stores hserve).mono
    intro x hx
    exact hx.regions h.same.regions.symm
  · have hhw' : Hosts { d.mem with bytes := scatter d.mem.bytes hw (replyBytes reply) }
        job.chain.writable hw := hhw
    refine ⟨_, gatherSegments_eq hhw' [], ?_⟩
    rw [List.nil_append, gather_scatter hsep, hcap]
    exact List.prefix_append _ _

theorem Returned.kept {mem mem' : GuestMemory} {k n : ℕ} {x : Job × Reply}
    (hsize : vq.queueSize.toNat ∣ 2 ^ 16) (hpos : vq.queueSize ≠ 0) (hk : k < n)
    (hn : n < vq.queueSize.toNat)
    (hwords : ∀ w : Word, w.Fits vq.queueSize.toNat → w ≠ .usedIdx →
      w ≠ .usedId ((base + n) % vq.queueSize.toNat) →
      w ≠ .usedLen ((base + n) % vq.queueSize.toNat) → vq.word mem' w = vq.word mem w)
    (h : x.1.Returned vq mem (.ofNat (base + k)) x.2) :
    x.1.Returned vq mem' (.ofNat (base + k)) x.2 := by
  obtain ⟨hid, hlen⟩ := h
  have hcell : (base + k) % vq.queueSize.toNat ≠ (base + n) % vq.queueSize.toNat :=
    cell_ne (by omega) (by omega)
  have hlt := slot_lt hpos (.ofNat (base + k))
  rw [← wordAddr_usedId] at hid
  rw [← wordAddr_usedLen] at hlen
  unfold Job.Returned
  rw [← wordAddr_usedLen, ← wordAddr_usedId]
  rw [index_cell hsize] at hid hlen hlt ⊢
  have hwordId := hwords (.usedId ((base + k) % vq.queueSize.toNat)) hlt Word.noConfusion
    (fun heq => hcell (Word.usedId.inj heq)) Word.noConfusion
  have hwordLen := hwords (.usedLen ((base + k) % vq.queueSize.toNat)) hlt Word.noConfusion
    Word.noConfusion (fun heq => hcell (Word.usedLen.inj heq))
  constructor
  · rw [← hid]
    exact congrArg (Option.map _) hwordId
  · rw [← hlen]
    exact congrArg (Option.map _) hwordLen

/-- The words of the element that was just pushed. -/
theorem Returned.pushed {mem : GuestMemory} {idx : UInt16}
    (hid : vq.word mem (.usedId (idx % vq.queueSize).toNat) =
      some (leBytes 4 job.head.toUInt32.toNat))
    (hlen : vq.word mem (.usedLen (idx % vq.queueSize).toNat) = some (leBytes 4
      (UInt32.ofNat (min (replyBytes reply).length job.chain.capacity)).toNat)) :
    job.Returned vq mem idx reply := by
  unfold Job.Returned
  rw [← wordAddr_usedLen, ← wordAddr_usedId]
  exact ⟨readU32_of_word hid rfl, readU32_of_word hlen rfl⟩

/-- Earlier replies stay when the next job is served. -/
theorem Answered.kept (b : Batch mem₀ vq jobs) {mem mem' : GuestMemory} {x : Job × Reply}
    (hx : x.1 ∈ jobs) (hapart : ∀ y, InBuffers mem₀ x.1.chain.writable y →
      ¬InBuffers mem₀ job.chain.writable y)
    (hregions : mem.regions = mem₀.regions)
    (hsame : SameBeyond (fun y => InBuffers mem₀ job.chain.writable y ∨ vq.InUsed mem₀ y) mem mem')
    (h : x.1.Answered mem x.2) : x.1.Answered mem' x.2 := by
  obtain ⟨bytes, hread, hprefix⟩ := h
  refine ⟨bytes, ?_, hprefix⟩
  rw [← hread]
  apply gatherSegments_kept hsame
  intro y hy
  have hy₀ : InBuffers mem₀ x.1.chain.writable y := hy.regions hregions.symm
  rintro (hbuf | hused)
  · exact hapart y hy₀ hbuf
  · exact (b.clear x.1 hx y hy₀).not_inUsed hused

/-- One turn of the loop serves the next job. -/
theorem Served.turn (b : Batch mem₀ vq jobs) (h : Served mem₀ d.mem vq base jobs done)
    (hjobs : jobs = done.map Prod.fst ++ job :: rest)
    (hans : Session.handle job.env d.session job.request = (some reply, s')) :
    ∃ n mem mem', serveChain job.env job.chain d = .ok n ⟨s', mem⟩ ∧
      vq.pushUsed job.head n mem = .ok () mem' ∧
      Served mem₀ mem' vq base jobs (done ++ [(job, reply)]) := by
  have hmem : job ∈ jobs := by
    rw [hjobs]
    exact List.mem_append_right _ List.mem_cons_self
  have hdone : ∀ x ∈ done, x.1 ∈ jobs := by
    intro x hx
    rw [hjobs]
    exact List.mem_append_left _ (List.mem_map_of_mem hx)
  have hroom : done.length < vq.queueSize.toNat := by
    have hcount := b.count
    rw [hjobs, List.length_append, List.length_map, List.length_cons] at hcount
    omega
  obtain ⟨mem, hserve, hstored, hanswered⟩ := h.serve b hmem hans
  have hregions : mem.regions = mem₀.regions := hstored.regions.trans h.same.regions
  have hmapped : ∀ w : Word, w.used = true → w.Fits vq.queueSize.toNat →
      (mem.slicePtr .user (vq.wordAddr w) w.len).isSome = true := by
    intro w hw hfits
    rw [slicePtr_regions hregions]
    exact b.mapped w hw hfits
  obtain ⟨mem', hpush⟩ := pushUsed_total b.pos hmapped job.head
    (.ofNat (min (replyBytes reply).length job.chain.capacity))
  have hused : SameBeyond (vq.InUsed mem₀) mem mem' :=
    (pushUsed_inUsed b.pos hpush).mono fun x hx => inUsed_regions hregions hx
  -- serving the chain leaves the used ring alone
  have hclear : ∀ w : Word, w.Fits vq.queueSize.toNat → vq.word mem w = vq.word d.mem w := by
    intro w hfits
    apply word_kept hstored _ hfits
    intro x hx addr len q hring hq
    rw [slicePtr_regions h.same.regions] at hq
    exact b.clear job hmem x hx addr len q hring hq
  have hindex : mem.readU16 .user (vq.usedAddr + 2) = some (.ofNat (base + done.length)) := by
    rw [← h.index]
    exact congrArg (Option.map _) (hclear .usedIdx trivial)
  have hhost : mem.HostApart := hstored.hostApart (h.same.hostApart b.host)
  obtain ⟨hnext, hid, hlen, hother⟩ := pushUsed_words hhost b.rings b.pos hindex hpush
  have hboth : SameBeyond (fun x => InBuffers mem₀ job.chain.writable x ∨ vq.InUsed mem₀ x)
      d.mem mem' :=
    (hstored.mono fun x hx => Or.inl hx).trans (hused.mono fun x hx => Or.inr hx)
  refine ⟨_, mem, mem', hserve, hpush, ?_, ?_, ?_, ?_⟩
  · apply h.same.trans
    apply hboth.mono
    rintro x (hx | hx)
    · exact Or.inl ⟨job, hmem, hx⟩
    · exact Or.inr hx
  · have hread : mem'.readU16 .user (vq.wordAddr .usedIdx) =
        some (.ofNat (base + done.length) + 1) := readU16_of_word hnext rfl
    rw [List.length_append, List.length_singleton, ← Nat.add_assoc, ← index_succ]
    exact hread
  · intro k x hx
    by_cases hk : k < done.length
    · rw [List.getElem?_append_left hk] at hx
      apply Returned.kept b.size b.pos hk hroom _ (h.returned k x hx)
      intro w hfits hneIdx hneId hneLen
      rw [index_cell b.size] at hother
      rw [hother w hfits hneIdx hneId hneLen, hclear w hfits]
    · have hend : k = done.length := by
        have hlt := (List.getElem?_eq_some_iff.mp hx).1
        rw [List.length_append, List.length_singleton] at hlt
        omega
      subst hend
      rw [List.getElem?_concat_length] at hx
      cases hx
      exact Returned.pushed hid hlen
  · intro x hx
    rcases List.mem_append.mp hx with hx | hx
    · have hapart : ∀ y, InBuffers mem₀ x.1.chain.writable y →
          ¬InBuffers mem₀ job.chain.writable y := by
        have hpairs := b.disjoint
        rw [hjobs] at hpairs
        exact (List.pairwise_append.mp hpairs).2.2 x.1 (List.mem_map_of_mem hx) job
          List.mem_cons_self
      exact Answered.kept b (hdone x hx) hapart h.same.regions hboth (h.answered x hx)
    · rw [List.mem_singleton.mp hx]
      obtain ⟨bytes, hread, hprefix⟩ := hanswered
      refine ⟨bytes, ?_, hprefix⟩
      rw [← hread]
      apply gatherSegments_kept hused
      intro y hy
      exact (b.clear job hmem y (hy.regions hregions.symm)).not_inUsed

end Turn

end Riftlessfs.VhostUser
