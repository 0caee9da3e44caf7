import Riftlessfs.Fuse.Protocol
import Riftlessfs.Fuse.Requests

/-! The server's parsers read what a client encodes, and a client reads what the server encodes. -/
namespace Riftlessfs.Fuse
open Riftlessfs.Core Riftlessfs.Proto Lib.LittleEndian Lib.Effect Lib.Codec

namespace Field

@[simp] theorem record_nil : record [] = [] := rfl

theorem record_append (a b : List Field) : record (a ++ b) = record a ++ record b := by
  induction a with
  | nil => rfl
  | cons f a ih => rw [List.cons_append, record_cons, record_cons, ih, List.append_assoc]

@[simp] theorem encoding_bytes (b : Bytes) : (Field.bytes b).encoding = b := rfl

theorem encoding_cstr (s : CString) : (Field.cstr s).encoding = s.1 ++ [0] := rfl

end Field

open Reader

section Requests
variable {h : Sender} {op : Operation}

/-- The header of a request is read back. -/
theorem header_encoded (h : Sender) (op : Operation) :
    InHeader.fromBytes (h.encode op) =
      .ok ⟨h.len, op.code, h.unique, h.nodeid, h.uid, h.gid, h.pid⟩ := by
  unfold Sender.encode
  simp only [List.cons_append, Field.record_cons]
  apply parse_of_reads
  apply (reads_u32 _ _).bind
  apply (reads_u32 _ _).bind
  apply (reads_u64 _ _).bind
  apply (reads_u64 _ _).bind
  apply (reads_u32 _ _).bind
  apply (reads_u32 _ _).bind
  apply (reads_u32 _ _).bind
  apply (reads_skip_u32 _ _).bind
  exact reads_pure _ _

theorem body_encoded (h : Sender) (op : Operation) :
    InHeader.body (h.encode op) = Field.record op.fields := by
  unfold Sender.encode InHeader.body
  rw [Field.record_append]
  apply List.drop_left'
  rw [List.length_append]
  have hlen : (Field.record [.u32 h.len, .u32 op.code, .u64 h.unique, .u64 h.nodeid, .u32 h.uid,
      .u32 h.gid, .u32 h.pid, .u32 h.padding]).length = 40 := by
    simp only [Field.record_cons, List.length_append]
    rfl
  rw [hlen]
  unfold IN_HEADER_LEN
  omega

theorem init_encoded (m : InitIn) :
    InitIn.fromBytes (Field.record [.u32 m.major, .u32 m.minor, .u32 m.maxReadahead,
      .u32 m.flags]) = .ok m := by
  simp only [Field.record_cons]
  apply parse_of_reads
  apply (reads_u32 _ _).bind
  apply (reads_u32 _ _).bind
  apply (reads_u32 _ _).bind
  apply (reads_orElse (reads_u32 _ _)).bind
  exact reads_pure _ _

theorem getattr_encoded (flags dummy : UInt32) (fh : UInt64) :
    GetattrIn.fromBytes (Field.record [.u32 flags, .u32 dummy, .u64 fh]) = .ok ⟨flags, fh⟩ := by
  simp only [Field.record_cons]
  apply parse_of_reads
  apply (reads_u32 _ _).bind
  apply (reads_skip_u32 _ _).bind
  apply (reads_u64 _ _).bind
  exact reads_pure _ _

theorem setattr_encoded (m : SetattrMsg) :
    SetattrIn.fromBytes (Field.record m.fields) = .ok m.asked := by
  simp only [SetattrMsg.fields, Field.record_cons]
  apply parse_of_reads
  apply (reads_u32 _ _).bind
  apply (reads_skip_u32 _ _).bind
  apply (reads_skip_u64 _ _).bind
  apply (reads_u64 _ _).bind
  apply (reads_skip_u64 _ _).bind
  apply (reads_u64 _ _).bind
  apply (reads_u64 _ _).bind
  apply (reads_skip_u64 _ _).bind
  apply (reads_u32 _ _).bind
  apply (reads_u32 _ _).bind
  apply (reads_skip_u32 _ _).bind
  apply (reads_u32 _ _).bind
  apply (reads_skip_u32 _ _).bind
  apply (reads_u32 _ _).bind
  apply (reads_u32 _ _).bind
  exact reads_pure _ _

theorem mkdir_encoded (mode umask : UInt32) (name : CString) :
    MkdirIn.fromBytes (Field.record [.u32 mode, .u32 umask, .cstr name]) =
      .ok (mode, name.1) := by
  simp only [Field.record_cons]
  apply parse_of_reads
  apply (reads_u32 _ _).bind
  apply (reads_skip_u32 _ _).bind
  apply (reads_cstr _ _).bind
  exact reads_pure _ _

theorem rename_encoded (newdir : UInt64) (old new : CString) :
    RenameIn.fromBytes (Field.record [.u64 newdir, .cstr old, .cstr new]) =
      .ok (newdir, old.1, new.1) := by
  simp only [Field.record_cons]
  apply parse_of_reads
  apply (reads_u64 _ _).bind
  apply (reads_cstr _ _).bind
  apply (reads_cstr _ _).bind
  exact reads_pure _ _

theorem rename2_encoded (newdir : UInt64) (flags padding : UInt32) (old new : CString) :
    RenameIn.fromBytesV2 (Field.record [.u64 newdir, .u32 flags, .u32 padding, .cstr old,
      .cstr new]) = .ok (newdir, old.1, new.1) := by
  simp only [Field.record_cons]
  rw [← List.append_assoc (Field.u32 flags).encoding]
  apply parse_of_reads
  apply (reads_u64 _ _).bind
  apply (reads_skip (by rw [List.length_append]; rfl) _).bind
  apply (reads_cstr _ _).bind
  apply (reads_cstr _ _).bind
  exact reads_pure _ _

theorem link_encoded (oldnodeid : UInt64) (name : CString) :
    LinkIn.fromBytes (Field.record [.u64 oldnodeid, .cstr name]) =
      .ok (oldnodeid, name.1) := by
  simp only [Field.record_cons]
  apply parse_of_reads
  apply (reads_u64 _ _).bind
  apply (reads_cstr _ _).bind
  exact reads_pure _ _

theorem create_encoded (flags mode umask openFlags : UInt32) (name : CString) :
    CreateIn.fromBytes (Field.record [.u32 flags, .u32 mode, .u32 umask, .u32 openFlags,
      .cstr name]) = .ok (⟨flags, mode⟩, name.1) := by
  simp only [Field.record_cons]
  apply parse_of_reads
  apply (reads_u32 _ _).bind
  apply (reads_u32 _ _).bind
  apply (reads_skip_u32 _ _).bind
  apply (reads_skip_u32 _ _).bind
  apply (reads_cstr _ _).bind
  exact reads_pure _ _

theorem read_encoded (m : TransferMsg) (size : UInt32) :
    ReadIn.fromBytes (Field.record (m.fields size)) = .ok ⟨m.fh, m.offset, size⟩ := by
  simp only [TransferMsg.fields, Field.record_cons]
  apply parse_of_reads
  apply (reads_u64 _ _).bind
  apply (reads_u64 _ _).bind
  apply (reads_u32 _ _).bind
  exact reads_pure _ _

theorem write_encoded (m : TransferMsg) (data : { b : Bytes // b.length < 2 ^ 32 }) :
    WriteIn.fromBytes (Field.record (m.fields (.ofNat data.1.length) ++ [.bytes data])) =
      .ok (⟨m.fh, m.offset, .ofNat data.1.length⟩, data.1) := by
  simp only [TransferMsg.fields, List.cons_append, List.nil_append,
    Field.record_cons, Field.encoding_bytes, Field.record_nil, List.append_nil]
  apply parse_of_reads
  apply (reads_u64 _ _).bind
  apply (reads_u64 _ _).bind
  apply (reads_u32 _ _).bind
  apply (reads_skip_u32 _ _).bind
  apply (reads_skip_u64 _ _).bind
  apply (reads_skip_u32 _ _).bind
  apply (reads_skip_u32 _ _).bind
  apply (reads_remaining _).bind
  exact reads_pure _ _

/-- The first word of a record. -/
theorem first_u64_encoded (v : UInt64) (fields : List Field) :
    Reader.parse Reader.u64 (Field.record (.u64 v :: fields)) = .ok v := by
  rw [Field.record_cons]
  exact parse_of_reads (reads_u64 _ _)

theorem first_u32_encoded (v : UInt32) (fields : List Field) :
    Reader.parse Reader.u32 (Field.record (.u32 v :: fields)) = .ok v := by
  rw [Field.record_cons]
  exact parse_of_reads (reads_u32 _ _)

/-- The entries of a `BATCH_FORGET`, read one after the other. -/
theorem reads_forgets (entries : List ForgetOne) : Reads Stands (ForgetOne.read entries.length)
    (Field.record (entries.flatMap fun e => [.u64 e.nodeid, .u64 e.nlookup])) entries [] := by
  induction entries with
  | nil => exact reads_pure _ _
  | cons e rest ih =>
    rw [List.flatMap_cons, List.cons_append, List.cons_append, List.nil_append, Field.record_cons,
      Field.record_cons]
    apply (reads_u64 _ _).bind
    apply (reads_u64 _ _).bind
    apply ih.bind
    exact reads_pure _ _

theorem batchForget_encoded (dummy : UInt32)
    (entries : { l : List ForgetOne // l.length < 2 ^ 32 }) :
    parseBatchForget (Field.record (.u32 (.ofNat entries.1.length) :: .u32 dummy ::
      entries.1.flatMap fun e => [.u64 e.nodeid, .u64 e.nlookup])) = .ok entries.1 := by
  have hcount : (UInt32.ofNat entries.1.length).toNat = entries.1.length :=
    UInt32.toNat_ofNat_of_lt' entries.2
  simp only [Field.record_cons]
  apply parse_of_reads
  apply (reads_u32 _ _).bind
  apply (reads_skip_u32 _ _).bind
  rw [hcount]
  exact reads_forgets entries.1

theorem trimNul_encoded (name : CString) : trimNul (Field.record [.cstr name]) = name.1 := by
  rw [Field.record_cons, Field.encoding_cstr, Field.record_nil, List.append_nil]
  unfold trimNul
  rw [findIdx_nul_written name.2 []]
  exact List.take_left

theorem splitTwoCstrs_encoded (name target : CString) :
    splitTwoCstrs (Field.record [.cstr name, .cstr target]) = some (name.1, target.1) := by
  rw [Field.record_cons, Field.record_cons, Field.encoding_cstr, Field.encoding_cstr,
    Field.record_nil, List.append_nil, List.append_assoc, List.singleton_append]
  unfold splitTwoCstrs
  rw [findIdx_nul_written name.2]
  have hrest : (name.1 ++ 0 :: (target.1 ++ [0])).drop (name.1.length + 1) = target.1 ++ [0] := by
    rw [← List.singleton_append, ← List.append_assoc]
    exact List.drop_left' (by simp)
  simp only [Option.bind_eq_bind, Option.bind_some, hrest, findIdx_nul_written target.2 [],
    List.take_left, Option.pure_def]

end Requests

section Replies
variable {op : Operation} {unique : UInt64} {a : Answer} {body left : Bytes}

def attrFields (attr : Attr) : List Field :=
  [.u64 attr.ino, .u64 attr.size, .u64 attr.blocks, .u64 attr.atime.1.toUInt64,
    .u64 attr.mtime.1.toUInt64, .u64 attr.ctime.1.toUInt64, .u32 attr.atime.2, .u32 attr.mtime.2,
    .u32 attr.ctime.2, .u32 attr.mode, .u32 attr.nlink, .u32 attr.uid, .u32 attr.gid,
    .u32 attr.rdev, .u32 attr.blksize, .u32 0]

private theorem entryOut_record (nodeid : UInt64) (attr : Attr) : entryOut nodeid attr =
    Field.record ([.u64 nodeid, .u64 1, .u64 CACHE_TIMEOUT_SECS, .u64 CACHE_TIMEOUT_SECS, .u32 0,
      .u32 0] ++ attrFields attr) := rfl

private theorem attrOut_record (attr : Attr) : attrOut attr =
    Field.record ([.u64 CACHE_TIMEOUT_SECS, .u32 0, .u32 0] ++ attrFields attr) := rfl

private theorem openOut_record (fh : UInt64) :
    openOut fh = Field.record [.u64 fh, .u32 FOPEN_KEEP_CACHE, .i32 0] := rfl

private theorem reply_record (unique : UInt64) (body : Bytes) : OutHeader.reply unique 0 body =
    Field.record [.u32 (.ofNat (OUT_HEADER_LEN + body.length)), .i32 0, .u64 unique,
      .bytes body] := rfl

/-- A `fuse_attr` carries the attributes whole. -/
theorem reads_attr (attr : Attr) (rest : Bytes) :
    Reads Stands Answer.readAttr (Field.record (attrFields attr) ++ rest) attr rest := by
  simp only [attrFields, Field.record_cons, Field.record_nil, List.append_assoc, List.nil_append]
  apply (reads_u64 _ _).bind
  apply (reads_u64 _ _).bind
  apply (reads_u64 _ _).bind
  apply (reads_u64 _ _).bind
  apply (reads_u64 _ _).bind
  apply (reads_u64 _ _).bind
  apply (reads_u32 _ _).bind
  apply (reads_u32 _ _).bind
  apply (reads_u32 _ _).bind
  apply (reads_u32 _ _).bind
  apply (reads_u32 _ _).bind
  apply (reads_u32 _ _).bind
  apply (reads_u32 _ _).bind
  apply (reads_u32 _ _).bind
  apply (reads_u32 _ _).bind
  apply (reads_skip_u32 _ _).bind
  exact reads_pure _ _

def entryReply (nodeid : UInt64) (attr : Attr) : EntryReply :=
  ⟨nodeid, 1, CACHE_TIMEOUT_SECS, CACHE_TIMEOUT_SECS, 0, 0, attr⟩

theorem reads_entry (nodeid : UInt64) (attr : Attr) (rest : Bytes) :
    Reads Stands Answer.readEntry (entryOut nodeid attr ++ rest) (entryReply nodeid attr) rest := by
  rw [entryOut_record, Field.record_append]
  simp only [Field.record_cons, Field.record_nil, List.append_assoc, List.nil_append]
  apply (reads_u64 _ _).bind
  apply (reads_u64 _ _).bind
  apply (reads_u64 _ _).bind
  apply (reads_u64 _ _).bind
  apply (reads_u32 _ _).bind
  apply (reads_u32 _ _).bind
  apply (reads_attr _ _).bind
  exact reads_pure _ _

theorem reads_attrOut (attr : Attr) :
    Reads Stands Answer.readAttrOut (attrOut attr) (CACHE_TIMEOUT_SECS, attr) [] := by
  have hwhole : attrOut attr = attrOut attr ++ [] := (List.append_nil _).symm
  rw [hwhole, attrOut_record, Field.record_append]
  simp only [Field.record_cons, Field.record_nil, List.append_assoc, List.nil_append]
  apply (reads_u64 _ _).bind
  apply (reads_skip_u32 _ _).bind
  apply (reads_skip_u32 _ _).bind
  apply (reads_attr _ _).bind
  exact reads_pure _ _

def openReply (fh : UInt64) : OpenReply := ⟨fh, FOPEN_KEEP_CACHE⟩

theorem reads_open (fh : UInt64) : Reads Stands Answer.readOpen (openOut fh) (openReply fh) [] := by
  rw [openOut_record]
  simp only [Field.record_cons]
  apply (reads_u64 _ _).bind
  apply (reads_u32 _ _).bind
  apply (reads_skip (leBytes_length 4 _) _).bind
  exact reads_pure _ _

def initReply (maxReadahead : UInt32) : InitReply :=
  ⟨7, INIT_OUT_MINOR, maxReadahead, FUSE_WRITEBACK_CACHE ||| FUSE_ASYNC_READ ||| FUSE_MAX_PAGES,
    0xffff, 0xffff / 4 * 3, MAX_WRITE, 1, (MAX_WRITE / ASSUMED_GUEST_PAGE_SIZE).toUInt16⟩

/-- The words of an `INIT` reply, before its padding: those a client reads, and the rest. -/
def initFields (maxReadahead : UInt32) : List Field :=
  [.u32 7, .u32 INIT_OUT_MINOR, .u32 maxReadahead,
    .u32 (FUSE_WRITEBACK_CACHE ||| FUSE_ASYNC_READ ||| FUSE_MAX_PAGES), .u16 0xffff,
    .u16 (0xffff / 4 * 3), .u32 MAX_WRITE, .u32 1,
    .u16 (MAX_WRITE / ASSUMED_GUEST_PAGE_SIZE).toUInt16]

def initRest : List Field := [.u16 0, .u32 0, .u32 0, .u16 0]

private theorem initOut_record (maxReadahead : UInt32) : ∃ left,
    initOut maxReadahead = Field.record (initFields maxReadahead) ++ left := by
  let written := Field.record (initFields maxReadahead ++ initRest)
  have hout : initOut maxReadahead =
      written ++ List.replicate (INIT_OUT_LEN - written.length) 0 := rfl
  refine ⟨Field.record initRest ++ List.replicate (INIT_OUT_LEN - written.length) 0, ?_⟩
  rw [hout, ← List.append_assoc, ← Field.record_append]

theorem reads_init (maxReadahead : UInt32) : ∃ left,
    Reads Stands Answer.readInit (initOut maxReadahead) (initReply maxReadahead) left := by
  obtain ⟨left, hrecord⟩ := initOut_record maxReadahead
  refine ⟨left, ?_⟩
  rw [hrecord]
  simp only [initFields, Field.record_cons, Field.record_nil, List.append_assoc, List.nil_append]
  apply (reads_u32 _ _).bind
  apply (reads_u32 _ _).bind
  apply (reads_u32 _ _).bind
  apply (reads_u32 _ _).bind
  apply (reads_u16 _ _).bind
  apply (reads_u16 _ _).bind
  apply (reads_u32 _ _).bind
  apply (reads_u32 _ _).bind
  apply (reads_u16 _ _).bind
  exact reads_pure _ _

def statfsReply (st : Statvfs) : StatfsReply :=
  ⟨st.blocks, st.bfree, st.bavail, st.files, st.ffree, st.bsize.toUInt32, st.namemax.toUInt32,
    st.frsize.toUInt32⟩

theorem reads_statfs (st : Statvfs) : Reads Stands Answer.readStatfs (statfsOut st)
    (statfsReply st) (Field.record [.u32 0, .bytes (List.replicate 24 0)]) := by
  have hrecord : statfsOut st = Field.record [.u64 st.blocks, .u64 st.bfree, .u64 st.bavail,
      .u64 st.files, .u64 st.ffree, .u32 st.bsize.toUInt32, .u32 st.namemax.toUInt32,
      .u32 st.frsize.toUInt32, .u32 0, .bytes (List.replicate 24 0)] := rfl
  rw [hrecord]
  simp only [Field.record_cons]
  apply (reads_u64 _ _).bind
  apply (reads_u64 _ _).bind
  apply (reads_u64 _ _).bind
  apply (reads_u64 _ _).bind
  apply (reads_u64 _ _).bind
  apply (reads_u32 _ _).bind
  apply (reads_u32 _ _).bind
  apply (reads_u32 _ _).bind
  exact reads_pure _ _

/-- A reply to a request that went well is decoded by its body. -/
theorem decode_ok (h : Reads Stands (Answer.readBody op) body a left) :
    Answer.decode op unique (okReply unique body) = some a := by
  have hreads : Reads Stands (Answer.readReply op unique) (OutHeader.reply unique 0 body) (some a)
      left := by
    rw [reply_record]
    simp only [Field.record_cons, Field.encoding_bytes, Field.record_nil, List.append_nil]
    apply (reads_u32 _ _).bind
    apply (reads_i32 _ _).bind
    apply (reads_u64 _ _).bind
    rw [if_neg (not_not_intro rfl), if_neg (not_not_intro rfl)]
    apply h.bind
    exact reads_pure _ _
  unfold okReply Answer.decode
  simp only
  rw [parse_of_reads hreads]

/-- A refusal is decoded to its error. -/
theorem decode_error (op : Operation) (unique : UInt64) (e : Errno) :
    Answer.decode op unique (.bytes (OutHeader.errorFor unique e)) =
      some (.failed (-(Int32.ofNat (toLinuxErrno e)))) := by
  have hne : -(Int32.ofNat (toLinuxErrno e)) ≠ 0 := by
    have hmem : toLinuxErrno e ∈ 5 :: knownErrnos := by
      unfold toLinuxErrno
      split_ifs with h
      · exact List.mem_cons_of_mem 5 h
      · exact List.mem_cons_self
    have hall : ∀ n ∈ 5 :: knownErrnos, -(Int32.ofNat n) ≠ 0 := by decide
    exact hall _ hmem
  have hreads : Reads Stands (Answer.readReply op unique) (OutHeader.errorFor unique e)
      (some (.failed (-(Int32.ofNat (toLinuxErrno e))))) [] := by
    have hrecord : OutHeader.errorFor unique e = Field.record [.u32 (.ofNat OUT_HEADER_LEN),
        .i32 (-(Int32.ofNat (toLinuxErrno e))), .u64 unique] := by
      unfold OutHeader.errorFor OutHeader.reply
      simp only [if_neg hne]
      rfl
    rw [hrecord]
    simp only [Field.record_cons]
    apply (reads_u32 _ _).bind
    apply (reads_i32 _ _).bind
    apply (reads_u64 _ _).bind
    rw [if_neg (not_not_intro rfl), if_pos hne]
    exact reads_pure _ _
  unfold Answer.decode
  simp only
  rw [parse_of_reads hreads]

end Replies

end Riftlessfs.Fuse
