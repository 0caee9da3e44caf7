import Riftlessfs.Fuse.Requests

/-! Every reply of a session is a header followed by a body, and the header knows its
length. -/
namespace Riftlessfs.Fuse
open Riftlessfs.Core Riftlessfs.Proto Lib.LittleEndian Lib.Effect

section Header
variable (unique : UInt64) (error : Int32) (body : Bytes)

theorem OutHeader.reply_length : (OutHeader.reply unique error body).length =
    OUT_HEADER_LEN + (if error = 0 then body else []).length := by
  rw [OutHeader.reply_eq]
  simp only [List.length_append, leBytes_length, OUT_HEADER_LEN]
  omega

/-- The `len` field of a reply is the length of the reply, as far as 32 bits go. -/
theorem OutHeader.reply_len : natAt (OutHeader.reply unique error body) 0 4 =
    (OutHeader.reply unique error body).length % 2 ^ 32 := by
  have hlt : ∀ n, (UInt32.ofNat n).toNat < 256 ^ 4 := fun n => (UInt32.ofNat n).toNat_lt
  have hmod : ∀ n, (UInt32.ofNat n).toNat = n % 2 ^ 32 := fun n => rfl
  rw [OutHeader.reply_length, OutHeader.reply_eq, natAt_append_left (by simp),
    natAt_leBytes (hlt _), hmod]

end Header

/-- The size of the body of a success reply, for opcodes whose replies have one size. -/
def Opcode.bodySize : Opcode → Option ℕ
  | .lookup | .mkdir | .symlink | .link => some 128
  | .create => some 144
  | .getattr | .setattr => some 104
  | .open | .opendir => some 16
  | .write => some 8
  | .init => some 64
  | .statfs => some 80
  | .unlink | .rmdir | .rename | .rename2 | .flush | .fsync | .release | .releasedir | .fsyncdir
  | .access | .destroy => some 0
  | _ => none

/-- What a reply to request `unique` with opcode `op` is: an error header, a success header with
a body of the opcode's size, or nothing for the opcodes that want no reply. -/
def Answers (op : Opcode) (unique : UInt64) : Reply → Prop
  | .bytes b => (∃ e, b = OutHeader.errorFor unique e) ∨
      ∃ body, b = OutHeader.reply unique 0 body ∧ ∀ n, op.bodySize = some n → body.length = n
  | .none => op = .forget ∨ op = .batchForget

/-- However the handler ends, short of a panic, its reply answers the request. -/
def Answering (op : Opcode) (unique : UInt64) (m : HandleM Reply) : Prop :=
  ∀ s reply s', settle (m s) = (some reply, s') → Answers op unique reply

section Answering
variable {α : Type} {op : Opcode} {unique : UInt64} {k : α → HandleM Reply} {reply : Reply}

theorem answers_errorFor (op : Opcode) (unique : UInt64) (e : Errno) :
    Answers op unique (.bytes (OutHeader.errorFor unique e)) := Or.inl ⟨e, rfl⟩

theorem answering_pure (h : Answers op unique reply) : Answering op unique (pure reply) := by
  intro s r s' hs
  cases hs
  exact h

theorem answering_error (e : Errno) :
    Answering op unique (pure (.bytes (OutHeader.errorFor unique e))) :=
  answering_pure (answers_errorFor op unique e)

theorem answering_ok {body : Bytes} (h : ∀ n, op.bodySize = some n → body.length = n) :
    Answering op unique (pure (okReply unique body)) :=
  answering_pure (Or.inr ⟨body, rfl, h⟩)

theorem answering_tryFs {m : FsM α} (h : ∀ a, Answering op unique (k a)) :
    Answering op unique (tryFs unique m >>= k) := by
  intro s r s' hs
  rw [bind_apply] at hs
  unfold tryFs at hs
  cases hm : m s.world with
  | ok a w =>
    rw [hm] at hs
    exact h a _ r s' hs
  | error e w =>
    rw [hm] at hs
    cases e with
    | fail e =>
      cases hs
      exact answers_errorFor op unique _
    | panic => cases hs

theorem answering_tryParse {x : Except ProtoError α} (h : ∀ a, Answering op unique (k a)) :
    Answering op unique (tryParse unique x >>= k) := by
  intro s r s' hs
  cases x with
  | ok a => exact h a s r s' hs
  | error e =>
    cases hs
    exact answers_errorFor op unique _

theorem answering_modify {f : Session → Session} {m : HandleM Reply}
    (h : Answering op unique m) : Answering op unique ((fun s => .ok () (f s)) >>= fun _ => m) := by
  intro s r s' hs
  exact h _ r s' hs

private theorem answering_readdirEntries {env : Env} {q : ReadIn}
    {k : List DirEntry → HandleM Reply}
    (h : ∀ a, Answering op unique (k a)) :
    Answering op unique (readdirEntries env unique q >>= k) := by
  intro s r s' hs
  rcases readdirEntries_world env unique q s with ⟨l, s₁, hok, -⟩ | ⟨e, s₁, herr, -⟩
  · rw [bind_of_ok hok] at hs
    exact h l s₁ r s' hs
  · rw [bind_of_error herr] at hs
    cases hs
    exact answers_errorFor op unique _

end Answering

section Sizes

theorem attrOut_length (attr : Attr) : (attrOut attr).length = 104 := by
  simp [attrOut, FuseAttr.write, Writer.u32, Writer.u64, Writer.bytes, Writer.new, Writer.intoVec]

theorem openOut_length (fh : UInt64) : (openOut fh).length = 16 := by
  simp [openOut, Writer.u32, Writer.i32, Writer.u64, Writer.bytes, Writer.new, Writer.intoVec]

private theorem writeOut_length (size : UInt32) : (writeOut size).length = 8 := by
  simp [writeOut, Writer.u32, Writer.bytes, Writer.new, Writer.intoVec]

private theorem statfsOut_length (stat : Statvfs) : (statfsOut stat).length = 80 := by
  simp [statfsOut, Writer.u32, Writer.u64, Writer.bytes, Writer.new, Writer.intoVec]

private theorem initOut_length (maxReadahead : UInt32) : (initOut maxReadahead).length = 64 := by
  simp [initOut, Writer.u16, Writer.u32, Writer.bytes, Writer.padTo, Writer.new, Writer.intoVec,
    INIT_OUT_LEN]

end Sizes

private theorem dispatch_answers (env : Env) (header : InHeader) (body : Bytes) :
    Answering (Opcode.ofU32 header.opcode) header.unique (Session.dispatch env header body) := by
  have hsize : ∀ {op : Opcode} {b : Bytes} {size : ℕ}, op.bodySize = some size →
      b.length = size → ∀ n, op.bodySize = some n → b.length = n := by
    intro op b size hop hb n hn
    rw [hop] at hn
    cases hn
    exact hb
  have hfree : ∀ {op : Opcode} {b : Bytes}, op.bodySize = none →
      ∀ n, op.bodySize = some n → b.length = n := by
    intro op b hop n hn
    rw [hop] at hn
    cases hn
  unfold Session.dispatch
  cases hop : Opcode.ofU32 header.opcode with
  | init => exact answering_tryParse fun _ => answering_ok (hsize rfl (initOut_length _))
  | destroy => exact answering_ok (hsize rfl rfl)
  | forget =>
    exact answering_tryParse fun _ => answering_tryFs fun _ => answering_pure (Or.inl rfl)
  | batchForget =>
    exact answering_tryParse fun _ => answering_tryFs fun _ => answering_pure (Or.inr rfl)
  | lookup => exact answering_tryFs fun _ => answering_ok (hsize rfl (entryOut_length _ _))
  | getattr =>
    exact answering_tryParse fun _ => answering_tryFs fun _ =>
      answering_ok (hsize rfl (attrOut_length _))
  | setattr =>
    exact answering_tryParse fun _ => answering_tryFs fun _ =>
      answering_ok (hsize rfl (attrOut_length _))
  | readlink => exact answering_tryFs fun _ => answering_ok (hfree rfl)
  | symlink =>
    cases splitTwoCstrs body with
    | none => exact answering_error _
    | some q => exact answering_tryFs fun _ => answering_ok (hsize rfl (entryOut_length _ _))
  | mkdir =>
    exact answering_tryParse fun _ => answering_tryFs fun _ =>
      answering_ok (hsize rfl (entryOut_length _ _))
  | unlink => exact answering_tryFs fun _ => answering_ok (hsize rfl rfl)
  | rmdir => exact answering_tryFs fun _ => answering_ok (hsize rfl rfl)
  | rename =>
    exact answering_tryParse fun _ => answering_tryFs fun _ => answering_ok (hsize rfl rfl)
  | rename2 =>
    exact answering_tryParse fun _ => answering_tryFs fun _ => answering_ok (hsize rfl rfl)
  | link =>
    exact answering_tryParse fun _ => answering_tryFs fun _ =>
      answering_ok (hsize rfl (entryOut_length _ _))
  | «open» =>
    exact answering_tryParse fun _ => answering_tryFs fun _ =>
      answering_ok (hsize rfl (openOut_length _))
  | create =>
    refine answering_tryParse fun _ => answering_tryFs fun _ => answering_ok (hsize rfl ?_)
    rw [List.length_append, entryOut_length, openOut_length]
  | read => exact answering_tryParse fun _ => answering_tryFs fun _ => answering_ok (hfree rfl)
  | write =>
    exact answering_tryParse fun _ => answering_tryFs fun _ =>
      answering_ok (hsize rfl (writeOut_length _))
  | flush => exact answering_tryParse fun _ => answering_ok (hsize rfl rfl)
  | fsync =>
    exact answering_tryParse fun _ => answering_tryFs fun _ => answering_ok (hsize rfl rfl)
  | release =>
    exact answering_tryParse fun _ => answering_tryFs fun _ => answering_ok (hsize rfl rfl)
  | opendir =>
    exact answering_tryParse fun _ => answering_tryFs fun _ =>
      answering_modify (answering_ok (hsize rfl (openOut_length _)))
  | readdir =>
    exact answering_tryParse fun _ => answering_readdirEntries fun _ => answering_ok (hfree rfl)
  | releasedir =>
    exact answering_tryParse fun _ =>
      answering_modify (answering_tryFs fun _ => answering_ok (hsize rfl rfl))
  | fsyncdir => exact answering_ok (hsize rfl rfl)
  | statfs => exact answering_tryFs fun _ => answering_ok (hsize rfl (statfsOut_length _))
  | access => exact answering_tryParse fun _ => answering_ok (hsize rfl rfl)
  | getxattr => exact answering_error _
  | listxattr => exact answering_error _
  | setxattr => exact answering_error _
  | removexattr => exact answering_error _
  | unknown v => exact answering_error _

/-- A request with a whole header is answered. -/
theorem handle_answers {env : Env} {s s' : Session} {request : Bytes} {reply : Reply}
    (hlen : IN_HEADER_LEN ≤ request.length)
    (h : Session.handle env s request = (some reply, s')) :
    Answers (.ofU32 (InHeader.at request).opcode) (InHeader.at request).unique reply := by
  have hh : InHeader.fromBytes request = .ok (InHeader.at request) := by
    rw [InHeader.fromBytes_eq, if_pos hlen]
  rw [handle_settle hh] at h
  exact dispatch_answers env _ _ s reply s' h

/-- The reply to a request is framed. -/
theorem handle_framed {env : Env} {s s' : Session} {request b : Bytes}
    (h : Session.handle env s request = (some (.bytes b), s')) :
    ∃ unique error body, b = OutHeader.reply unique error body := by
  by_cases hlen : IN_HEADER_LEN ≤ request.length
  · rcases handle_answers hlen h with ⟨e, rfl⟩ | ⟨body, rfl, -⟩
    · exact ⟨_, _, _, rfl⟩
    · exact ⟨_, _, _, rfl⟩
  · unfold Session.handle at h
    rw [InHeader.fromBytes_eq, if_neg hlen] at h
    cases h

end Riftlessfs.Fuse
