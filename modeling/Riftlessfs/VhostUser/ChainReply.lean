import Riftlessfs.VhostUser.ChainSegments
import Riftlessfs.Core.FileData

/-! What serving a chain comes to: a reply, scattered over the writable segments. -/
namespace Riftlessfs.VhostUser
open Lib.Flat Lib.Effect Riftlessfs.Core Riftlessfs.Proto Riftlessfs.Fuse

/-- A reply scattered over the segments `hw` of the server's memory. -/
def delivered (d : Device) (hw : List (ℕ × ℕ)) :
    Option Reply × Session → EStateM.Result Halt Device UInt32
  | (some (.bytes b), s) => .ok (.ofNat (min b.length (capacity hw)))
      ⟨s, { d.mem with bytes := scatter d.mem.bytes hw b }⟩
  | (some .none, s) => .ok 0 ⟨s, d.mem⟩
  | (none, s) => .error .panic ⟨s, d.mem⟩

def plainReply (env : Env) (chain : DescChain) (d : Device) :
    Except VirtqueueError (Option Reply × Session) := do
  let request ← gatherReadable d.mem chain
  pure (Session.handle env d.session request)

/-- The reply of the path taken for an opcode when `cap` bytes are writable. -/
def pathReply (env : Env) (cap : ℕ) (chain : DescChain) (d : Device) (headerPrefix : Bytes) :
    Opcode → Except VirtqueueError (Option Reply × Session)
  | .write =>
    match InHeader.fromBytes headerPrefix, WriteIn.fromBytes (InHeader.body headerPrefix) with
    | .ok header, .ok (w, _) => do
      let iov ← iovecsFrom d.mem chain.readable (.ofNat REQUEST_HEADER_LEN) w.size.toUInt64
      let bufs := iov.map fun v => load d.mem.bytes v.1 v.2
      pure (answered header.unique d.session (fun n => writeOut (.ofNat n))
        (PassthroughFs.writeVectored env w.fh w.offset bufs d.session.world))
    | _, _ => plainReply env chain d
  | .read =>
    match InHeader.fromBytes headerPrefix, ReadIn.fromBytes (InHeader.body headerPrefix) with
    | .ok header, .ok r =>
      pure (answered header.unique d.session id (PassthroughFs.read env r.fh r.offset
        (min r.size.toNat (cap - OUT_HEADER_LEN)) d.session.world))
    | _, _ => plainReply env chain d
  | _ => plainReply env chain d

def chainReply (env : Env) (cap : ℕ) (chain : DescChain) (d : Device) :
    Except VirtqueueError (Option Reply × Session) := do
  let headerPrefix ← gatherReadablePrefix d.mem chain REQUEST_HEADER_LEN
  pathReply env cap chain d headerPrefix (peekOpcode headerPrefix)

/-- A chain that cannot be gathered ends the service; otherwise its reply is delivered. -/
def settled (d : Device) (hw : List (ℕ × ℕ)) :
    Except VirtqueueError (Option Reply × Session) → EStateM.Result Halt Device UInt32
  | .ok x => delivered d hw x
  | .error e => .error (.error (.virtqueue e)) d

section Delivery
variable {env : Env} {d : Device} {chain : DescChain} {request : Bytes} {hr hw : List (ℕ × ℕ)}

theorem scatterWritable_eq (hm : d.mem.Regular .gpa) (hhw : Hosts d.mem chain.writable hw)
    (s : Session) (bytes : ℕ → UInt8) (b : Bytes) :
    onMem (scatterWritable chain b) ⟨s, { d.mem with bytes := bytes }⟩ =
      .ok (.ofNat (min b.length (capacity hw)))
        ⟨s, { d.mem with bytes := scatter bytes hw b }⟩ := by
  have h := scatterSegments_eq hm hhw b bytes 0
  rw [UInt32.zero_add] at h
  unfold onMem scatterWritable
  simp only [h]

/-- Reading the queue and going on, as the reply it comes to. -/
theorem onQueue_settled {α : Type} {f : GuestMemory → Except VirtqueueError α}
    {k : α → ServeM UInt32} {g : α → Except VirtqueueError (Option Reply × Session)}
    (h : ∀ a, k a d = settled d hw (g a)) : (onQueue f >>= k) d = settled d hw (f d.mem >>= g) := by
  rw [bind_apply]
  unfold onQueue
  cases f d.mem with
  | error e => rfl
  | ok a => exact h a

theorem dispatchGeneric_settled (env : Env) (hm : d.mem.Regular .gpa) (hhw : Hosts d.mem chain.writable hw) :
    dispatchGeneric env chain d = settled d hw (plainReply env chain d) := by
  refine onQueue_settled fun request => ?_
  rw [bind_apply]
  unfold onSession
  show _ = delivered d hw (Session.handle env d.session request)
  obtain ⟨reply, s⟩ := Session.handle env d.session request
  cases reply with
  | none => rfl
  | some reply =>
    cases reply with
    | bytes b => exact scatterWritable_eq hm hhw s d.mem.bytes b
    | none => rfl

private theorem answerWith_delivered {α : Type} {unique : UInt64} {enc : α → Bytes} {m : FsM α}
    (hm : d.mem.Regular .gpa) (hhw : Hosts d.mem chain.writable hw) :
    answerWith chain unique enc m d =
      delivered d hw (answered unique d.session enc (m d.session.world)) := by
  unfold answerWith
  rw [bind_apply]
  unfold onFs
  cases m d.session.world with
  | ok a w => exact scatterWritable_eq hm hhw _ d.mem.bytes _
  | error e w =>
    cases e with
    | fail e => exact scatterWritable_eq hm hhw _ d.mem.bytes _
    | panic => rfl

theorem read_length {size : ℕ} {b : List UInt8} {w w' : World} {handle offset : UInt64}
    (h : PassthroughFs.read env handle offset size w = .ok b w') : b.length ≤ size := by
  unfold PassthroughFs.read at h
  obtain ⟨fd, w₁, -, hsys⟩ := bind_ok h
  rcases sys_cases env .pread (fun h => h.pread fd offset size) w₁ with ⟨e, he⟩ | ⟨b', h₁, hp, hok⟩
  · rw [he] at hsys
    cases hsys
  · rw [hok] at hsys
    cases hsys
    exact Host.pread_length hp

@[simp] theorem successHeaderOnly_length (unique : UInt64) (len : UInt32) :
    (OutHeader.successHeaderOnly unique len).length = OUT_HEADER_LEN := by
  simp [OutHeader.successHeaderOnly, Writer.u32, Writer.i32, Writer.u64, Writer.bytes,
    Writer.new, Writer.intoVec, OUT_HEADER_LEN]

theorem reply_success (unique : UInt64) (b : Bytes) : OutHeader.reply unique 0 b =
    OutHeader.successHeaderOnly unique (.ofNat (OUT_HEADER_LEN + b.length)) ++ b := by
  simp [OutHeader.reply, OutHeader.successHeaderOnly, Writer.bytes, Writer.intoVec]

/-- Payload first and header last is one scatter of the reply. -/
theorem scatter_success {bytes : ℕ → UInt8} {unique : UInt64} {b : Bytes} {want : ℕ}
    (hsep : Separate hw) (hwant : want ≤ capacity hw - OUT_HEADER_LEN) (hb : b.length ≤ want) :
    scatter (scatter bytes (window hw OUT_HEADER_LEN want) b) hw
        (OutHeader.successHeaderOnly unique (.ofNat (OUT_HEADER_LEN + b.length))) =
      scatter bytes hw (OutHeader.reply unique 0 b) := by
  have hlen := successHeaderOnly_length unique (.ofNat (OUT_HEADER_LEN + b.length))
  rw [reply_success]
  by_cases hcap : OUT_HEADER_LEN ≤ capacity hw
  · have h := scatter_header (m := bytes) hsep (hlen.trans_le hcap) hb
    rwa [hlen] at h
  · have hnil : b = [] := List.eq_nil_of_length_eq_zero (by omega)
    rw [hnil, scatter_nil, List.append_nil]

/-- `try_read_zero_copy` after its header is parsed, wanting `want` bytes. -/
def readInto (env : Env) (chain : DescChain) (unique fh offset want : UInt64) :
    ServeM UInt32 := do
  let iov ← onQueue fun mem => iovecsFrom mem chain.writable (.ofNat OUT_HEADER_LEN) want
  let result ← onFs (PassthroughFs.readVectored env fh offset (iov.map Prod.snd))
  match result with
  | .ok bytes => do
    modify fun d => { d with mem := { d.mem with bytes := scatter d.mem.bytes iov bytes } }
    let n := bytes.length
    let headerWritten ← onMem (scatterWritable chain
      (OutHeader.successHeaderOnly unique (.ofNat (OUT_HEADER_LEN + n))))
    pure (headerWritten + .ofNat n)
  | .error e => onMem (scatterWritable chain (OutHeader.errorFor unique e.errno))

private theorem readInto_delivered (env : Env) (unique fh offset : UInt64) {want : UInt64}
    (hm : d.mem.Regular .gpa)
    (hhw : Hosts d.mem chain.writable hw) (hsep : Separate hw)
    (hcount : chain.writable.length ≤ MAX_CHAIN_LEN)
    (hwant : want.toNat ≤ capacity hw - OUT_HEADER_LEN) :
    readInto env chain unique fh offset want d = delivered d hw (answered unique d.session id
      (PassthroughFs.read env fh offset want.toNat d.session.world)) := by
  have hiov : onQueue (fun mem => iovecsFrom mem chain.writable (.ofNat OUT_HEADER_LEN) want) d =
      .ok (window hw OUT_HEADER_LEN want.toNat) d := onQueue_ok (iovecsFrom_eq hm hhw _ _)
  have hshort : ((window hw OUT_HEADER_LEN want.toNat).map Prod.snd).length ≤ IOV_MAX := by
    rw [List.length_map]
    calc (window hw OUT_HEADER_LEN want.toNat).length
        ≤ hw.length := window_length_le _ _ _
      _ = chain.writable.length := hhw.length
      _ ≤ MAX_CHAIN_LEN := hcount
      _ ≤ IOV_MAX := by decide
  unfold readInto
  rw [bind_of_ok hiov, readVectored_eq hshort, sum_snd, capacity_window, Nat.min_eq_left hwant,
    bind_apply]
  unfold onFs
  cases hread : PassthroughFs.read env fh offset want.toNat d.session.world with
  | error e w =>
    cases e with
    | fail e => exact scatterWritable_eq hm hhw _ d.mem.bytes _
    | panic => rfl
  | ok b w =>
    have hb := read_length hread
    have hput := scatterWritable_eq hm hhw { d.session with world := w }
      (scatter d.mem.bytes (window hw OUT_HEADER_LEN want.toNat) b)
      (OutHeader.successHeaderOnly unique (.ofNat (OUT_HEADER_LEN + b.length)))
    rw [scatter_success hsep hwant hb, successHeaderOnly_length] at hput
    show (onMem (scatterWritable chain (OutHeader.successHeaderOnly unique
        (.ofNat (OUT_HEADER_LEN + b.length)))) >>= fun n => pure (n + .ofNat b.length))
      ⟨{ d.session with world := w },
        { d.mem with bytes := scatter d.mem.bytes (window hw OUT_HEADER_LEN want.toNat) b }⟩ =
      .ok (.ofNat (min (OutHeader.reply unique 0 b).length (capacity hw)))
        ⟨{ d.session with world := w },
          { d.mem with bytes := scatter d.mem.bytes hw (OutHeader.reply unique 0 b) }⟩
    have hcount : min OUT_HEADER_LEN (capacity hw) + b.length =
        min (OUT_HEADER_LEN + b.length) (capacity hw) := by omega
    rw [bind_of_ok hput, pure_apply, ← UInt32.ofNat_add, reply_success, List.length_append,
      successHeaderOnly_length, hcount]

/-- What `try_read_zero_copy` finds room for. -/
theorem want_toNat (hhw : Hosts d.mem chain.writable hw) (hb : chain.Bounded) (size : UInt32) :
    (min size.toUInt64 (if (chain.writable.map Prod.snd).sum ≤ .ofNat OUT_HEADER_LEN then 0
      else (chain.writable.map Prod.snd).sum - .ofNat OUT_HEADER_LEN)).toNat =
      min size.toNat (capacity hw - OUT_HEADER_LEN) := by
  have hcount : chain.writable.length ≤ MAX_CHAIN_LEN := by
    have h := hb.segments
    omega
  have hcap := hhw.sum_lengths hb.lengths hcount
  have hheader : (UInt64.ofNat OUT_HEADER_LEN).toNat = OUT_HEADER_LEN := by decide
  rw [toNat_min, UInt32.toNat_toUInt64]
  congr 1
  split_ifs with hle
  · rw [UInt64.le_iff_toNat_le, hheader, hcap] at hle
    rw [Nat.sub_eq_zero_of_le hle]
    rfl
  · have hge : UInt64.ofNat OUT_HEADER_LEN ≤ (chain.writable.map Prod.snd).sum := by
      rw [UInt64.le_iff_toNat_le] at hle ⊢
      omega
    rw [UInt64.toNat_sub_of_le _ _ hge, hcap, hheader]

/-- Serving a chain delivers its reply. -/
theorem serveChain_settled (env : Env) (hm : d.mem.Regular .gpa) (hhw : Hosts d.mem chain.writable hw)
    (hsep : Separate hw) (hb : chain.Bounded) :
    serveChain env chain d = settled d hw (chainReply env (capacity hw) chain d) := by
  have hplain := dispatchGeneric_settled env hm hhw
  have hcount : chain.writable.length ≤ MAX_CHAIN_LEN := by
    have h := hb.segments
    omega
  refine onQueue_settled fun headerPrefix => ?_
  cases peekOpcode headerPrefix with
  | write =>
    unfold servePath pathReply tryWriteZeroCopy
    cases InHeader.fromBytes headerPrefix with
    | error e => exact hplain
    | ok header =>
      cases WriteIn.fromBytes (InHeader.body headerPrefix) with
      | error e => exact hplain
      | ok q =>
        refine onQueue_settled fun iov => ?_
        exact answerWith_delivered hm hhw
  | read =>
    unfold servePath pathReply tryReadZeroCopy
    cases InHeader.fromBytes headerPrefix with
    | error e => exact hplain
    | ok header =>
      cases ReadIn.fromBytes (InHeader.body headerPrefix) with
      | error e => exact hplain
      | ok r =>
        have hwant := want_toNat hhw hb r.size
        have hread := readInto_delivered env header.unique r.fh r.offset hm hhw hsep hcount (hwant.trans_le (Nat.min_le_right _ _))
        rw [hwant] at hread
        exact hread
  | _ => exact hplain

/-- A mapped chain's prefix is that of the request it holds. -/
theorem gatherReadablePrefix_eq (hm : d.mem.Regular .gpa) (hhr : Hosts d.mem chain.readable hr)
    (hreq : gatherReadable d.mem chain = .ok request) (n : ℕ) :
    gatherReadablePrefix d.mem chain n = .ok (request.take n) := by
  have h := gatherPrefix_eq hm hhr n []
  rw [List.nil_append, List.length_nil, Nat.sub_zero, ← gatherReadable_eq hhr hreq] at h
  exact h

theorem plainReply_eq (env : Env) (hreq : gatherReadable d.mem chain = .ok request) :
    plainReply env chain d = .ok (Session.handle env d.session request) := by
  unfold plainReply
  rw [hreq]
  rfl

/-- The path a mapped chain takes is read off the request it holds. -/
theorem chainReply_path (env : Env) (hm : d.mem.Regular .gpa) (hhr : Hosts d.mem chain.readable hr)
    (hreq : gatherReadable d.mem chain = .ok request) (cap : ℕ) :
    chainReply env cap chain d =
      pathReply env cap chain d (request.take REQUEST_HEADER_LEN) (peekOpcode request) := by
  unfold chainReply
  rw [gatherReadablePrefix_eq hm hhr hreq, ← peekOpcode_take (n := REQUEST_HEADER_LEN) (by decide)]
  rfl

/-- With room for what a `READ` asks for, its reply is that of the session. -/
theorem chainReply_read (env : Env) (hm : d.mem.Regular .gpa) (hhr : Hosts d.mem chain.readable hr)
    (hreq : gatherReadable d.mem chain = .ok request) (hop : peekOpcode request = .read) {cap : ℕ}
    (hcap : ∀ r, ReadIn.fromBytes (InHeader.body request) = .ok r →
      OUT_HEADER_LEN + r.size.toNat ≤ cap) :
    chainReply env cap chain d = .ok (Session.handle env d.session request) := by
  have hbody : InHeader.body (request.take REQUEST_HEADER_LEN) = (InHeader.body request).take 40 :=
    InHeader.body_take request 40
  have hplain := plainReply_eq env hreq
  rw [chainReply_path env hm hhr hreq, hop]
  unfold pathReply
  rw [InHeader.fromBytes_take request (by decide), hbody, ReadIn.fromBytes_take _ (by decide)]
  cases hh : InHeader.fromBytes request with
  | error e => exact hplain
  | ok header =>
    cases hparse : ReadIn.fromBytes (InHeader.body request) with
    | error e => exact hplain
    | ok r =>
      have hfits := hcap r hparse
      have hopc : Opcode.ofU32 header.opcode = .read := by
        rw [← peekOpcode_header hh, hop]
      have hmin : min r.size.toNat (cap - OUT_HEADER_LEN) = r.size.toNat :=
        Nat.min_eq_left (by omega)
      rw [handle_read _ _ hh hopc hparse]
      show Except.ok (answered header.unique d.session id (PassthroughFs.read env r.fh r.offset
        (min r.size.toNat (cap - OUT_HEADER_LEN)) d.session.world)) = _
      rw [hmin]

/-- The reply to a `WRITE` is that of the session. -/
theorem chainReply_write (env : Env) (hm : d.mem.Regular .gpa) (hhr : Hosts d.mem chain.readable hr)
    (hsegs : chain.readable.length ≤ MAX_CHAIN_LEN)
    (hreq : gatherReadable d.mem chain = .ok request) (hop : peekOpcode request = .write) (cap : ℕ) :
    chainReply env cap chain d = .ok (Session.handle env d.session request) := by
  have hbody : InHeader.body (request.take REQUEST_HEADER_LEN) = (InHeader.body request).take 40 :=
    InHeader.body_take request 40
  have hplain := plainReply_eq env hreq
  rw [chainReply_path env hm hhr hreq, hop]
  unfold pathReply
  rw [InHeader.fromBytes_take request (by decide), hbody, WriteIn.fromBytes_take]
  cases hh : InHeader.fromBytes request with
  | error e => exact hplain
  | ok header =>
    cases hw : WriteIn.fromBytes (InHeader.body request) with
    | error e => exact hplain
    | ok q =>
      obtain ⟨q, data⟩ := q
      have hopc : Opcode.ofU32 header.opcode = .write := by
        rw [← peekOpcode_header hh, hop]
      have hskip : (UInt64.ofNat REQUEST_HEADER_LEN).toNat = REQUEST_HEADER_LEN := by decide
      have hiov := iovecsFrom_eq hm hhr (.ofNat REQUEST_HEADER_LEN) q.size.toUInt64
      rw [hskip, UInt32.toNat_toUInt64] at hiov
      rw [handle_write _ _ hh hopc hw, ← writeVectored_window hhr hsegs hreq hw]
      show (iovecsFrom d.mem chain.readable (.ofNat REQUEST_HEADER_LEN) q.size.toUInt64 >>= _) = _
      rw [hiov]
      rfl

end Delivery

def DescChain.capacity (chain : DescChain) : ℕ := (chain.writable.map fun s => s.2.toNat).sum

theorem Hosts.capacity_eq {mem : GuestMemory} {segs : List Segment} {hs : List (ℕ × ℕ)}
    (h : Hosts mem segs hs) : Lib.Flat.capacity hs = (segs.map fun s => s.2.toNat).sum := by
  induction h with
  | nil => rfl
  | @cons s t segs hs hst _ ih =>
    obtain ⟨p, n⟩ := t
    have hn : n = s.2.toNat := hst.2
    rw [capacity_cons, List.map_cons, List.sum_cons, ih, hn]

/-- A chain whose opcode word is `READ`, with room for what it asks for, is served as by the
plain path. -/
theorem zero_copy_read_refines (env : Env) (d : Device) (chain : DescChain) (request : Bytes)
    (hm : d.mem.Regular .gpa) (hh : d.mem.HostApart) (hread : Mapped d.mem chain.readable)
    (hwrite : Mapped d.mem chain.writable) (hapart : SegmentsApart chain.writable)
    (hb : chain.Bounded) (hreq : gatherReadable d.mem chain = .ok request)
    (hlen : 8 ≤ request.length) (hop : Opcode.ofU32 (.ofNat (natAt request 4 4)) = .read)
    (hcap : ∀ r, ReadIn.fromBytes (InHeader.body request) = .ok r →
      OUT_HEADER_LEN + r.size.toNat ≤ chain.capacity) :
    serveChain env chain d = dispatchGeneric env chain d := by
  obtain ⟨hr, hhr⟩ := hread.hosts
  obtain ⟨hw, hhw⟩ := hwrite.hosts
  have hpeek : peekOpcode request = .read := by
    unfold peekOpcode
    rw [if_pos hlen, hop]
  unfold DescChain.capacity at hcap
  rw [← hhw.capacity_eq] at hcap
  rw [serveChain_settled env hm hhw (hhw.separate hh hapart) hb, dispatchGeneric_settled env hm hhw,
    chainReply_read env hm hhr hreq hpeek hcap, plainReply_eq env hreq]

/-- A `READ` of 60 bytes cut in two, with a reply area whose header straddles pieces. -/
def cutRead : DescChain :=
  ⟨0, [(0x1000, 37), (0x1025, 23)], [(0x1800, 3), (0x1803, 0), (0x1900, 40)]⟩

/-- A `READ` of an open file stores the header, in pieces, and the bytes of the file after it. -/
theorem zero_copy_read_cut :
    let served := serveChain (calm 21 []) cutRead (fileDevice [5, 6, 7, 8] (encodeRead 1 1 20))
    value served = some 19 ∧
    (gatherSegments (final served).mem cutRead.writable []).toOption.map (List.take 19) =
      some (OutHeader.reply 1 0 [6, 7, 8]) ∧
    served = dispatchGeneric (calm 21 []) cutRead (fileDevice [5, 6, 7, 8] (encodeRead 1 1 20)) := by
  refine ⟨?_, ?_, ?_⟩
  · decide +kernel
  · decide +kernel
  · refine zero_copy_read_refines _ _ _ (encodeRead 1 1 20) (smallMemory_regular _ _)
      (smallMemory_hostApart _) ?_ ?_ ?_ (by decide) ?_ (by decide) (by decide) ?_
    · decide
    · decide
    · unfold SegmentsApart Apart
      decide
    · rfl
    · intro r hr
      have hparse : ReadIn.fromBytes (InHeader.body (encodeRead 1 1 20)) = .ok ⟨1, 1, 20⟩ := by
        decide +kernel
      rw [hparse] at hr
      cases hr
      decide

end Riftlessfs.VhostUser
