import Riftlessfs.VhostUser.Mapping
import Riftlessfs.Fuse.Requests
import Riftlessfs.Core.FileData

/-! The zero-copy path of `WRITE` does what the plain path does. -/
namespace Riftlessfs.VhostUser
open Lib.Flat Lib.Effect Riftlessfs.Core Riftlessfs.Proto Riftlessfs.Fuse

section Vectored
variable {env : Env} {handle offset : UInt64}

private theorem writeVectored_eq {bufs : List (List UInt8)} (h : bufs.length ≤ IOV_MAX) :
    PassthroughFs.writeVectored env handle offset bufs =
      PassthroughFs.write env handle offset bufs.flatten := by
  unfold PassthroughFs.writeVectored PassthroughFs.write Host.pwritev
  simp only [gt_iff_lt, Nat.not_lt.mpr h, if_false]

theorem readVectored_eq {sizes : List ℕ} (h : sizes.length ≤ IOV_MAX) :
    PassthroughFs.readVectored env handle offset sizes =
      PassthroughFs.read env handle offset sizes.sum := by
  unfold PassthroughFs.readVectored PassthroughFs.read Host.preadv
  simp only [gt_iff_lt, Nat.not_lt.mpr h, if_false]

private theorem flatten_load (m : ℕ → UInt8) (segs : List (ℕ × ℕ)) :
    (segs.map fun v => load m v.1 v.2).flatten = gather m segs := by
  induction segs with
  | nil => rfl
  | cons s segs ih =>
    rw [List.map_cons, List.flatten_cons, ih]
    rfl

end Vectored

section Serve
variable {env : Env} {d : Device} {chain : DescChain} {request : Bytes} {hs : List (ℕ × ℕ)}

theorem onQueue_ok {α : Type} {f : GuestMemory → Except VirtqueueError α} {a : α}
    (h : f d.mem = .ok a) : onQueue f d = .ok a d := by
  unfold onQueue
  rw [h]

/-- An engine call, answered into the writable segments of the chain. -/
def answerWith {α : Type} (chain : DescChain) (unique : UInt64) (enc : α → Bytes) (m : FsM α) :
    ServeM UInt32 := do
  let result ← onFs m
  onMem (scatterWritable chain (wireReply unique enc result))

/-- The plain path of a request that makes one engine call. -/
theorem dispatchGeneric_answered {α : Type} {unique : UInt64} {enc : α → Bytes} {m : FsM α}
    (hreq : gatherReadable d.mem chain = .ok request)
    (hh : Session.handle env d.session request =
      answered unique d.session enc (m d.session.world)) :
    dispatchGeneric env chain d = answerWith chain unique enc m d := by
  have hq : onQueue (fun mem => gatherReadable mem chain) d = .ok request d := onQueue_ok hreq
  unfold dispatchGeneric answerWith
  rw [bind_of_ok hq, bind_apply, bind_apply]
  unfold onSession onFs
  rw [hh]
  cases m d.session.world with
  | ok a w => rfl
  | error e w =>
    cases e with
    | fail e => rfl
    | panic => rfl

theorem gatherReadable_eq (hhs : Hosts d.mem chain.readable hs)
    (hreq : gatherReadable d.mem chain = .ok request) : request = gather d.mem.bytes hs := by
  have h := gatherSegments_eq hhs []
  rw [List.nil_append] at h
  unfold gatherReadable at hreq
  rw [h] at hreq
  exact (Except.ok.inj hreq).symm

/-- The opcode peeked from the start of a request is the request's. -/
theorem peekOpcode_take {n : ℕ} (hn : 8 ≤ n) : peekOpcode (request.take n) = peekOpcode request := by
  unfold peekOpcode
  rw [natAt_take (by omega), List.length_take]
  by_cases hlen : 8 ≤ request.length
  · rw [if_pos hlen, if_pos (by omega)]
  · rw [if_neg hlen, if_neg (by omega)]

theorem peekOpcode_header {header : InHeader} (hh : InHeader.fromBytes request = .ok header) :
    peekOpcode request = Opcode.ofU32 header.opcode := by
  have hop := InHeader.fromBytes_opcode hh
  rw [InHeader.fromBytes_eq] at hh
  split_ifs at hh with hlen
  unfold IN_HEADER_LEN at hlen
  unfold peekOpcode
  rw [if_pos (by omega), hop]

/-- Serving a mapped chain: the path for the opcode of the request it holds. -/
theorem serveChain_path (hm : d.mem.Regular .gpa) (hhs : Hosts d.mem chain.readable hs)
    (hreq : gatherReadable d.mem chain = .ok request) :
    serveChain env chain d = servePath env chain (request.take REQUEST_HEADER_LEN)
      (peekOpcode request) d := by
  have hpre : gatherReadablePrefix d.mem chain REQUEST_HEADER_LEN =
      .ok (request.take REQUEST_HEADER_LEN) := by
    have h := gatherPrefix_eq hm hhs REQUEST_HEADER_LEN []
    rw [List.nil_append, List.length_nil, Nat.sub_zero, ← gatherReadable_eq hhs hreq] at h
    exact h
  have hq : onQueue (fun mem => gatherReadablePrefix mem chain REQUEST_HEADER_LEN) d =
      .ok (request.take REQUEST_HEADER_LEN) d := onQueue_ok hpre
  unfold serveChain
  rw [bind_of_ok hq, peekOpcode_take (by decide)]

/-- What the zero-copy path hands to `pwritev` is what the plain path hands to `pwrite`. -/
theorem writeVectored_window {q : WriteIn} {data : Bytes} (hhs : Hosts d.mem chain.readable hs)
    (hsegs : chain.readable.length ≤ MAX_CHAIN_LEN)
    (hreq : gatherReadable d.mem chain = .ok request)
    (hw : WriteIn.fromBytes (InHeader.body request) = .ok (q, data)) :
    PassthroughFs.writeVectored env q.fh q.offset
      ((window hs REQUEST_HEADER_LEN q.size.toNat).map fun v => load d.mem.bytes v.1 v.2) =
    PassthroughFs.write env q.fh q.offset (data.take (min q.size.toNat data.length)) := by
  have hdata : data = request.drop REQUEST_HEADER_LEN := by
    rw [WriteIn.payload _ hw, InHeader.body_eq, List.drop_drop]
    rfl
  have hshort : (window hs REQUEST_HEADER_LEN q.size.toNat).length ≤ IOV_MAX :=
    calc (window hs REQUEST_HEADER_LEN q.size.toNat).length
        ≤ hs.length := window_length_le _ _ _
      _ = chain.readable.length := hhs.length
      _ ≤ MAX_CHAIN_LEN := hsegs
      _ ≤ IOV_MAX := by decide
  rw [writeVectored_eq (by rw [List.length_map]; exact hshort), flatten_load, gather_window,
    ← gatherReadable_eq hhs hreq, ← hdata, ← List.take_take, List.take_length]

/-- The path of a request whose opcode word is `WRITE` is the plain one. -/
theorem servePath_write (hm : d.mem.Regular .gpa) (hhs : Hosts d.mem chain.readable hs)
    (hsegs : chain.readable.length ≤ MAX_CHAIN_LEN)
    (hreq : gatherReadable d.mem chain = .ok request) (hop : peekOpcode request = .write) :
    servePath env chain (request.take REQUEST_HEADER_LEN) .write d =
      dispatchGeneric env chain d := by
  have hbody : InHeader.body (request.take REQUEST_HEADER_LEN) = (InHeader.body request).take 40 :=
    InHeader.body_take request 40
  unfold servePath tryWriteZeroCopy
  rw [InHeader.fromBytes_take request (by decide), hbody, WriteIn.fromBytes_take]
  cases hh : InHeader.fromBytes request with
  | error e => rfl
  | ok header =>
    cases hw : WriteIn.fromBytes (InHeader.body request) with
    | error e => rfl
    | ok q =>
      obtain ⟨q, data⟩ := q
      have hopc : Opcode.ofU32 header.opcode = .write := by
        rw [← peekOpcode_header hh, hop]
      have hiov := iovecsFrom_eq hm hhs (.ofNat REQUEST_HEADER_LEN) q.size.toUInt64
      have hskip : (UInt64.ofNat REQUEST_HEADER_LEN).toNat = REQUEST_HEADER_LEN := by decide
      rw [hskip, UInt32.toNat_toUInt64] at hiov
      have hq : onQueue (fun mem => iovecsFrom mem chain.readable (.ofNat REQUEST_HEADER_LEN)
          q.size.toUInt64) d = .ok (window hs REQUEST_HEADER_LEN q.size.toNat) d := onQueue_ok hiov
      rw [dispatchGeneric_answered hreq (handle_write _ _ hh hopc hw),
        ← writeVectored_window hhs hsegs hreq hw]
      show (onQueue (fun mem => iovecsFrom mem chain.readable (.ofNat REQUEST_HEADER_LEN)
        q.size.toUInt64) >>= _) d = _
      rw [bind_of_ok hq]
      rfl

end Serve

/-- A chain whose opcode word is `WRITE` is served as by the plain path. -/
theorem zero_copy_write_refines (env : Env) (d : Device) (chain : DescChain) (request : Bytes)
    (hm : d.mem.Regular .gpa) (hmap : Mapped d.mem chain.readable)
    (hsegs : chain.readable.length ≤ MAX_CHAIN_LEN)
    (hreq : gatherReadable d.mem chain = .ok request) (hlen : 8 ≤ request.length)
    (hop : Opcode.ofU32 (.ofNat (natAt request 4 4)) = .write) :
    serveChain env chain d = dispatchGeneric env chain d := by
  obtain ⟨hs, hhs⟩ := hmap.hosts
  have hpeek : peekOpcode request = .write := by
    unfold peekOpcode
    rw [if_pos hlen, hop]
  rw [serveChain_path hm hhs hreq, hpeek, servePath_write hm hhs hsegs hreq hpeek]

/-- Guest memory of one region, at guest-physical address `0x1000`, that starts with
`image`. -/
def smallMemory (image : Bytes) : GuestMemory where
  regions := [⟨0x1000, 0x10000, 0x1000, 0x4000, 0x4000, 0x1000⟩]
  bytes := store (fun _ => 0) 0x4000 image

theorem smallMemory_regular (image : Bytes) (space : AddrSpace) :
    (smallMemory image).Regular space := by
  constructor
  · exact List.pairwise_singleton _ _
  · intro r hr
    rw [List.mem_singleton.mp hr]
    cases space <;> decide

def smallDevice (image : Bytes) : Device := ⟨.new smallWorld, smallMemory image⟩

/-- A `WRITE` of 83 bytes cut in three, with a reply area in two pieces. -/
def cutWrite : DescChain :=
  ⟨0, [(0x1000, 7), (0x1007, 0), (0x1007, 76)], [(0x1800, 3), (0x1900, 40)]⟩

/-- `CREATE f` in the shared directory, to read and write, and `WRITE` of `data` to it. -/
def fileSession (data : Bytes) : Session :=
  let made := (Session.handle (calm 20 []) (.new smallWorld)
    (encodeRequest 35 1 [2, 0, 0, 0, 0xa4, 1, 0, 0, 0, 0, 0, 0, 0, 0, 0, 0, 102, 0])).2
  (Session.handle (calm 21 []) made (encodeWrite 1 0 data)).2

def fileDevice (data image : Bytes) : Device := ⟨fileSession data, smallMemory image⟩

/-- The bytes of a `WRITE` to an open file reach the file. -/
theorem zero_copy_write_cut :
    let served := serveChain (calm 21 []) cutWrite (fileDevice [9, 9] (encodeWrite 1 1 [1, 2, 3]))
    value served = some 24 ∧
    (final served).session.world.host.fileData ⟨1, 20⟩ = some [9, 1, 2, 3] ∧
    served =
      dispatchGeneric (calm 21 []) cutWrite (fileDevice [9, 9] (encodeWrite 1 1 [1, 2, 3])) := by
  refine ⟨?_, ?_, ?_⟩
  · decide +kernel
  · decide +kernel
  · refine zero_copy_write_refines _ _ _ (encodeWrite 1 1 [1, 2, 3]) (smallMemory_regular _ _) ?_
      (by decide) ?_ (by decide) (by decide)
    · decide
    · rfl

end Riftlessfs.VhostUser
