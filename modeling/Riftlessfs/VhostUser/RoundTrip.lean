import Riftlessfs.VhostUser.ServeFrame
import Riftlessfs.Fuse.DataPath

/-! `WRITE` and `READ` chains on one handle, cut into segments in any way, act on one array
of bytes. -/
namespace Riftlessfs.VhostUser
open Lib.Flat Lib.Effect Lib.Run Riftlessfs.Core Riftlessfs.Proto Riftlessfs.Fuse

inductive FileOp where
  | write (off : ℕ) (payload : List UInt8)
  | read (off size : ℕ)
  deriving DecidableEq, Repr

def FileOp.apply (data : List UInt8) : FileOp → List UInt8
  | .write off payload => writeAt data off payload
  | .read .. => data

/-- A chain to serve, with guest memory as it is then and what the host decides. -/
structure Transfer where
  env : Env
  mem : GuestMemory
  chain : DescChain

def Transfer.serve (x : Transfer) (s : Session) : EStateM.Result Halt Device UInt32 :=
  serveChain x.env x.chain ⟨s, x.mem⟩

def serveStep (s : Session) (x : Transfer) : Option Session :=
  match x.serve s with
  | .ok _ d => some d.session
  | .error _ _ => none

/-- The memory of a transfer is regular, and its segments are mapped, the writable ones
apart. -/
structure Transfer.WellFormed (x : Transfer) : Prop where
  regular : x.mem.Regular .gpa
  hostApart : x.mem.HostApart
  readable : Mapped x.mem x.chain.readable
  writable : Mapped x.mem x.chain.writable
  apart : SegmentsApart x.chain.writable
  bounded : x.chain.Bounded

/-- The chain asks for `op` on handle `fh`, on a host that transfers what it is asked to. -/
inductive Transfer.Asks (fh : UInt64) (x : Transfer) : FileOp → Prop
  | read (request : Bytes) (header : InHeader) (r : ReadIn)
      (hreq : gatherReadable x.mem x.chain = .ok request)
      (hh : InHeader.fromBytes request = .ok header) (hop : Opcode.ofU32 header.opcode = .read)
      (hr : ReadIn.fromBytes (InHeader.body request) = .ok r) (hfh : r.fh = fh)
      (hoff : r.offset.toNat + r.size.toNat < 2 ^ 63)
      (hcap : OUT_HEADER_LEN + r.size.toNat ≤ x.chain.capacity)
      (hfault : x.env.fault .pread = none) (hsize : r.size.toNat ≤ MAX_RW_COUNT) :
      Asks fh x (.read r.offset.toNat r.size.toNat)
  | write (request : Bytes) (header : InHeader) (q : WriteIn) (data : Bytes)
      (hreq : gatherReadable x.mem x.chain = .ok request)
      (hh : InHeader.fromBytes request = .ok header) (hop : Opcode.ofU32 header.opcode = .write)
      (hq : WriteIn.fromBytes (InHeader.body request) = .ok (q, data)) (hfh : q.fh = fh)
      (hoff : q.offset.toNat + q.size.toNat < 2 ^ 63) (hfault : x.env.fault .pwrite = none)
      (hroom : x.env.room = none) (hsize : q.size.toNat ≤ MAX_RW_COUNT) :
      Asks fh x (.write q.offset.toNat (data.take (min q.size.toNat data.length)))

section Serve
variable {x : Transfer} {s : Session} {fh : UInt64} {fd : Fd} {data : List UInt8}

/-- Serving a well-formed transfer delivers its reply. -/
theorem Transfer.WellFormed.serve_eq (hx : x.WellFormed) :
    ∃ hw, Hosts x.mem x.chain.writable hw ∧ Separate hw ∧ capacity hw = x.chain.capacity ∧
      x.serve s = settled ⟨s, x.mem⟩ hw (chainReply x.env x.chain.capacity x.chain ⟨s, x.mem⟩) := by
  obtain ⟨hw, hhw⟩ := hx.writable.hosts
  have hsep := hhw.separate hx.hostApart hx.apart
  have hcap : capacity hw = x.chain.capacity := hhw.capacity_eq
  have hmem : (Device.mk s x.mem).mem.Regular .gpa := hx.regular
  have h := serveChain_settled x.env (d := ⟨s, x.mem⟩) hmem hhw hsep hx.bounded
  rw [hcap] at h
  exact ⟨hw, hhw, hsep, hcap, h⟩

/-- The reply to a `READ` holds the bytes there are. -/
theorem OpenOn.chainReply_read (ho : OpenOn s.world fh fd data)
    (hf : Positional s.world.host.dioAlign fd.flags) (hx : x.WellFormed) {off size : ℕ}
    (ha : x.Asks fh (.read off size)) :
    ∃ unique, chainReply x.env x.chain.capacity x.chain ⟨s, x.mem⟩ =
        .ok (some (.bytes (OutHeader.reply unique 0 ((data.drop off).take size))), s) ∧
      OUT_HEADER_LEN + size ≤ x.chain.capacity ∧ size ≤ MAX_RW_COUNT := by
  cases ha with
  | read request header r hreq hh hop hr hfh hoff hcap hfault hsize =>
    subst hfh
    obtain ⟨hs, hhs⟩ := hx.readable.hosts
    have hpeek : peekOpcode request = .read := by
      rw [peekOpcode_header hh, hop]
    have hfits : ∀ r', ReadIn.fromBytes (InHeader.body request) = .ok r' →
        OUT_HEADER_LEN + r'.size.toNat ≤ x.chain.capacity := by
      intro r' hr'
      rw [hr] at hr'
      cases hr'
      exact hcap
    have hreply := VhostUser.chainReply_read x.env (d := ⟨s, x.mem⟩) hx.regular hhs hreq
      hpeek hfits
    have hread : PassthroughFs.read x.env r.fh r.offset r.size.toNat s.world =
        .ok ((data.drop r.offset.toNat).take r.size.toNat) s.world := by
      rw [ho.read]
      exact sys_ok hfault (Host.pread_positional hf ho.file hoff hsize)
    refine ⟨header.unique, ?_, hcap, hsize⟩
    rw [hreply, handle_read _ _ hh hop hr, hread]
    rfl

/-- A `WRITE` is done in full, and the handle stays open. -/
theorem OpenOn.chainReply_write (ho : OpenOn s.world fh fd data)
    (hf : Positional s.world.host.dioAlign fd.flags) (hx : x.WellFormed) {off : ℕ}
    {payload : List UInt8} (ha : x.Asks fh (.write off payload)) :
    ∃ b s', chainReply x.env x.chain.capacity x.chain ⟨s, x.mem⟩ = .ok (some (.bytes b), s') ∧
      OpenOn s'.world fh fd (writeAt data off payload) ∧
      s'.world.host.dioAlign = s.world.host.dioAlign := by
  cases ha with
  | write request header q bytes hreq hh hop hq hfh hoff hfault hroom hsize =>
    subst hfh
    obtain ⟨hs, hhs⟩ := hx.readable.hosts
    have hpeek : peekOpcode request = .write := by
      rw [peekOpcode_header hh, hop]
    have hsegs : x.chain.readable.length ≤ MAX_CHAIN_LEN := by
      have h := hx.bounded.segments
      omega
    have hreply := VhostUser.chainReply_write x.env (d := ⟨s, x.mem⟩) hx.regular hhs hsegs
      hreq hpeek x.chain.capacity
    have hlen : (bytes.take (min q.size.toNat bytes.length)).length ≤ MAX_RW_COUNT := by
      rw [List.length_take]
      omega
    obtain ⟨h', hpw, halign, hdata⟩ := Host.pwrite_full hf ho.file (by omega : q.offset.toNat < 2 ^ 63)
      hlen
    have hwrite : PassthroughFs.write x.env q.fh q.offset
        (bytes.take (min q.size.toNat bytes.length)) s.world =
        .ok (bytes.take (min q.size.toNat bytes.length)).length (s.world.withHost h') := by
      rw [ho.write]
      apply sys_ok hfault
      rw [hroom]
      exact hpw
    rw [handle_write _ _ hh hop hq, hwrite] at hreply
    exact ⟨_, _, hreply, ⟨ho.handle, hdata⟩, halign⟩

/-- A transfer is served, and leaves the file with the bytes it asks for. -/
theorem OpenOn.serveStep (ho : OpenOn s.world fh fd data)
    (hf : Positional s.world.host.dioAlign fd.flags) (hx : x.WellFormed) {op : FileOp}
    (ha : x.Asks fh op) :
    ∃ s', serveStep s x = some s' ∧ OpenOn s'.world fh fd (op.apply data) ∧
      s'.world.host.dioAlign = s.world.host.dioAlign := by
  obtain ⟨hw, -, -, -, hserve⟩ := hx.serve_eq (s := s)
  unfold VhostUser.serveStep
  rw [hserve]
  cases op with
  | read off size =>
    obtain ⟨unique, hreply, -⟩ := OpenOn.chainReply_read ho hf hx ha
    rw [hreply]
    exact ⟨s, rfl, ho, rfl⟩
  | write off payload =>
    obtain ⟨b, s', hreply, ho', halign⟩ := OpenOn.chainReply_write ho hf hx ha
    rw [hreply]
    exact ⟨s', rfl, ho', halign⟩

/-- So does any sequence of transfers. -/
theorem OpenOn.run (ho : OpenOn s.world fh fd data)
    (hf : Positional s.world.host.dioAlign fd.flags) {xs : List (Transfer × FileOp)}
    (hxs : ∀ y ∈ xs, y.1.WellFormed ∧ y.1.Asks fh y.2) :
    ∃ s', Lib.Run.run VhostUser.serveStep s (xs.map Prod.fst) = some s' ∧
      OpenOn s'.world fh fd ((xs.map Prod.snd).foldl FileOp.apply data) ∧
      s'.world.host.dioAlign = s.world.host.dioAlign := by
  induction xs generalizing s data with
  | nil => exact ⟨s, rfl, ho, rfl⟩
  | cons y xs ih =>
    obtain ⟨hwf, hasks⟩ := hxs y List.mem_cons_self
    obtain ⟨s₁, hstep, ho₁, halign₁⟩ := OpenOn.serveStep ho hf hwf hasks
    have hrest : ∀ z ∈ xs, z.1.WellFormed ∧ z.1.Asks fh z.2 :=
      fun z hz => hxs z (List.mem_cons_of_mem y hz)
    obtain ⟨s', hrun, ho', halign⟩ := ih ho₁ (halign₁ ▸ hf) hrest
    refine ⟨s', ?_, ho', halign.trans halign₁⟩
    rw [List.map_cons, Lib.Run.run, hstep]
    exact hrun

end Serve

/-- After any sequence of transfers on a handle opened for reading and writing, however they
are cut into segments, a `READ` finds the bytes that the writes before it left. -/
theorem write_read_round_trip (env : Env) (s s₀ : Session) (request : Bytes) (flags : UInt32)
    (fh : UInt64) (fd : Fd) (data : List UInt8) (hopen : Opened env s request flags fh s₀)
    (hflags : Positional s₀.world.host.dioAlign flags) (hon : OpenOn s₀.world fh fd data)
    (xs : List (Transfer × FileOp)) (hxs : ∀ y ∈ xs, y.1.WellFormed ∧ y.1.Asks fh y.2)
    (x : Transfer) (off size : ℕ) (hx : x.WellFormed) (ha : x.Asks fh (.read off size)) :
    ∃ s₁ n d' area bytes, run serveStep s₀ (xs.map Prod.fst) = some s₁ ∧
      x.serve s₁ = .ok n d' ∧ gatherSegments d'.mem x.chain.writable [] = .ok area ∧
      bytes = (((xs.map Prod.snd).foldl FileOp.apply data).drop off).take size ∧
      (area.take n.toNat).drop OUT_HEADER_LEN = bytes ∧
      n.toNat = OUT_HEADER_LEN + bytes.length := by
  obtain ⟨fd', hfd', -, hpos⟩ := hopen.positional
  have hsame : fd' = fd := by
    rw [hon.handle] at hfd'
    cases hfd'
    rfl
  subst hsame
  obtain ⟨s₁, hrun, ho₁, halign⟩ := OpenOn.run hon ((hpos _).mpr hflags) hxs
  have hf₁ : Positional s₁.world.host.dioAlign fd'.flags := by
    rw [halign]
    exact (hpos _).mpr hflags
  obtain ⟨hw, hhw, hsep, hcap, hserve⟩ := hx.serve_eq (s := s₁)
  obtain ⟨unique, hreply, hroom, hsize⟩ := OpenOn.chainReply_read ho₁ hf₁ hx ha
  generalize hbytes : (((xs.map Prod.snd).foldl FileOp.apply data).drop off).take size = bytes
    at hreply
  have hshort : bytes.length ≤ size := by
    rw [← hbytes]
    exact List.length_take_le _ _
  have hlen : (OutHeader.reply unique 0 bytes).length = OUT_HEADER_LEN + bytes.length :=
    OutHeader.reply_length unique 0 bytes
  have hbody : (OutHeader.reply unique 0 bytes).drop OUT_HEADER_LEN = bytes := by
    rw [reply_success, List.drop_left' (successHeaderOnly_length _ _)]
  generalize OutHeader.reply unique 0 bytes = reply at hreply hlen hbody
  rw [hreply] at hserve
  have hfits : reply.length ≤ capacity hw := by omega
  have hnum : (UInt32.ofNat (min reply.length (capacity hw))).toNat = reply.length := by
    rw [Nat.min_eq_left hfits]
    apply UInt32.toNat_ofNat_of_lt'
    have hmax : OUT_HEADER_LEN + MAX_RW_COUNT < UInt32.size := by decide
    omega
  have hhw' : Hosts { x.mem with bytes := scatter x.mem.bytes hw reply } x.chain.writable hw := hhw
  refine ⟨s₁, _, _, _, bytes, hrun, hserve, gatherSegments_eq hhw' [], rfl, ?_, hnum.trans hlen⟩
  rw [hnum, List.nil_append]
  show ((gather (scatter x.mem.bytes hw reply) hw).take reply.length).drop OUT_HEADER_LEN = bytes
  rw [gather_scatter hsep, List.take_of_length_le hfits, List.take_left' rfl, hbody]

/-- A `WRITE` of three bytes at offset 2, cut in three. -/
def sampleWrite : Transfer := ⟨calm 21 [], smallMemory (encodeWrite 1 2 [1, 2, 3]), cutWrite⟩

/-- A `READ` of 20 bytes at offset 0, cut in two. -/
def sampleRead : Transfer := ⟨calm 21 [], smallMemory (encodeRead 1 0 20), cutRead⟩

private theorem sampleWrite_wellFormed : sampleWrite.WellFormed := by
  constructor
  · exact smallMemory_regular _ _
  · exact smallMemory_hostApart _
  · decide
  · decide
  · unfold SegmentsApart Apart
    decide
  · decide

private theorem sampleRead_wellFormed : sampleRead.WellFormed := by
  constructor
  · exact smallMemory_regular _ _
  · exact smallMemory_hostApart _
  · decide
  · decide
  · unfold SegmentsApart Apart
    decide
  · decide

private theorem sampleWrite_asks : sampleWrite.Asks 1 (.write 2 [1, 2, 3]) := by
  obtain ⟨header, hh, hop, hparse⟩ := parse_encodeWrite 1 2 [1, 2, 3]
  exact .write _ header _ _ rfl hh hop hparse rfl (by decide) rfl rfl (by decide)

private theorem sampleRead_asks : sampleRead.Asks 1 (.read 0 20) := by
  obtain ⟨header, hh, hop, hparse⟩ := parse_encodeRead 1 0 20
  exact .read _ header _ rfl hh hop hparse rfl (by decide) (by decide) rfl (by decide)

/-- What one transfer wrote behind a gap, the next one reads. -/
theorem write_read_round_trip_gap : ∃ s₀ s₁ n d' area,
    Opened (calm 20 []) (.new smallWorld) (createX O_RDWR) O_RDWR 1 s₀ ∧
    run serveStep s₀ [sampleWrite] = some s₁ ∧ sampleRead.serve s₁ = .ok n d' ∧
    gatherSegments d'.mem cutRead.writable [] = .ok area ∧
    (area.take n.toNat).drop OUT_HEADER_LEN = [0, 0, 1, 2, 3] ∧ n.toNat = 21 := by
  obtain ⟨s₀, hopen, hon⟩ := Opened.of_createX O_RDWR (c := ⟨O_RDWR, 0o644⟩)
    (by decide +kernel) (by decide +kernel) rfl (by decide +kernel)
  have hflags : Positional s₀.world.host.dioAlign O_RDWR := by
    constructor
    · decide
    · decide
    · decide
    · intro h
      exact absurd h (by decide)
  have hxs : ∀ y ∈ [(sampleWrite, FileOp.write 2 [1, 2, 3])], y.1.WellFormed ∧ y.1.Asks 1 y.2 := by
    intro y hy
    rw [List.mem_singleton.mp hy]
    exact ⟨sampleWrite_wellFormed, sampleWrite_asks⟩
  obtain ⟨s₁, n, d', area, bytes, hrun, hserve, harea, hbytes, hread, hn⟩ :=
    write_read_round_trip (calm 20 []) _ s₀ _ O_RDWR 1 _ [] hopen hflags hon _ hxs sampleRead 0 20
      sampleRead_wellFormed sampleRead_asks
  have hvalue : bytes = [0, 0, 1, 2, 3] := by
    rw [hbytes]
    decide
  rw [hvalue] at hread hn
  exact ⟨s₀, s₁, n, d', area, hopen, hrun, hserve, harea, hread, hn⟩

end Riftlessfs.VhostUser
