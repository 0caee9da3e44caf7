import Riftlessfs.Fuse.Dispatch
import Riftlessfs.Fuse.Layout
import Riftlessfs.Core.Call

/-! Requests as calls on the engine: each request `Session::handle` serves performs the
one call its bytes ask for, and the reply carries an entry exactly when that call
returns one. -/
namespace Riftlessfs.Fuse
open Riftlessfs.Core Riftlessfs.Proto Lib.LittleEndian Lib.Effect

/-- The bytes of a reply: length, error, unique id, body. -/
theorem OutHeader.reply_eq (unique : UInt64) (error : Int32) (body : Bytes) :
    OutHeader.reply unique error body =
      leBytes 4 (UInt32.ofNat (OUT_HEADER_LEN + (if error = 0 then body else []).length)).toNat ++
        (leBytes 4 error.toUInt32.toNat ++
          (leBytes 8 unique.toNat ++ if error = 0 then body else [])) := by
  simp [OutHeader.reply, Writer.u32, Writer.i32, Writer.u64, Writer.bytes, Writer.new,
    Writer.intoVec]

theorem OutHeader.reply_error (unique : UInt64) (error : Int32) (body : Bytes) :
    natAt (OutHeader.reply unique error body) 4 4 = error.toUInt32.toNat := by
  rw [OutHeader.reply_eq, natAt_append_right (by simp), natAt_append_left (by simp)]
  have h : error.toUInt32.toNat < 256 ^ 4 := error.toUInt32.toNat_lt
  simpa using natAt_leBytes h

theorem OutHeader.reply_body (unique : UInt64) (body : Bytes) :
    natAt (OutHeader.reply unique 0 body) 16 8 = natAt body 0 8 := by
  rw [OutHeader.reply_eq, natAt_append_right (by simp), natAt_append_right (by simp),
    natAt_append_right (by simp)]
  simp

private theorem entryOut_nodeid (id : UInt64) (attr : Attr) (rest : Bytes) :
    natAt (entryOut id attr ++ rest) 0 8 = id.toNat := by
  have h : id.toNat < 256 ^ 8 := id.toNat_lt
  have hsplit : ∃ tail, entryOut id attr = leBytes 8 id.toNat ++ tail := by
    unfold entryOut FuseAttr.write Writer.new Writer.intoVec Writer.u64 Writer.u32 Writer.bytes
    simp only [List.nil_append, List.append_assoc]
    exact ⟨_, rfl⟩
  obtain ⟨tail, ht⟩ := hsplit
  rw [ht, List.append_assoc, natAt_append_left (by simp)]
  exact natAt_leBytes h

/-- Whether the reply to an opcode begins with a `fuse_entry_out`. -/
def Opcode.hasEntry : Opcode → Bool
  | .lookup | .symlink | .mkdir | .link | .create => true
  | _ => false

/-- The node id of the entry a reply hands the guest. -/
def entryOf (op : Opcode) : Reply → Option UInt64
  | .bytes b =>
    if op.hasEntry = true ∧ natAt b 4 4 = 0 then some (.ofNat (natAt b 16 8)) else none
  | .none => none

/-- The error word of an error reply is not zero. -/
theorem errorFor_error (unique : UInt64) (e : Errno) :
    natAt (OutHeader.errorFor unique e) 4 4 ≠ 0 := by
  have hmem : toLinuxErrno e ∈ 5 :: knownErrnos := by
    unfold toLinuxErrno
    split_ifs with h
    · exact List.mem_cons_of_mem 5 h
    · exact List.mem_cons_self
  have hall : ∀ n ∈ 5 :: knownErrnos, (-(Int32.ofNat n)).toUInt32.toNat ≠ 0 := by decide
  unfold OutHeader.errorFor
  rw [OutHeader.reply_error]
  exact hall _ hmem

theorem errorFor_entry (op : Opcode) (unique : UInt64) (e : Errno) :
    entryOf op (.bytes (OutHeader.errorFor unique e)) = none := by
  simp only [entryOf, errorFor_error, and_false, if_false]

private theorem errnoReply_entry (op : Opcode) (unique : UInt64) (e : FsError) :
    entryOf op (errnoReply unique e) = none :=
  errorFor_entry op unique e.errno

theorem okReply_entry (op : Opcode) (hop : op.hasEntry = true) (unique : UInt64) (id : UInt64)
    (attr : Attr) (rest : Bytes) :
    entryOf op (okReply unique (entryOut id attr ++ rest)) = some id := by
  unfold okReply
  simp only [entryOf, OutHeader.reply_error, OutHeader.reply_body, entryOut_nodeid,
    UInt64.ofNat_toNat]
  exact if_pos ⟨hop, rfl⟩

private theorem entryOf_of_not {op : Opcode} (hop : op.hasEntry = false) (r : Reply) :
    entryOf op r = none := by
  cases r with
  | none => rfl
  | bytes b =>
    simp [entryOf, hop]

/-- The call a parsed body asks for; a malformed one asks for nothing. -/
def parsed {α : Type} (x : Except ProtoError α) (c : α → Call) : Call :=
  match x with
  | .ok a => c a
  | .error _ => .nothing

/-- The call a request asks of the engine. `READDIR` only reads, and is left out. -/
def callOf (now : Time) (header : InHeader) (body : Bytes) : Call :=
  let nodeid := header.nodeid
  match Opcode.ofU32 header.opcode with
  | .forget => parsed (ForgetIn.fromBytes body) fun n => .forget [(nodeid, n)]
  | .batchForget => parsed (parseBatchForget body) fun entries =>
    .forget (entries.map fun e => (e.nodeid, e.nlookup))
  | .lookup => .lookup nodeid (trimNul body)
  | .getattr => parsed (GetattrIn.fromBytes body) fun _ => .getattr nodeid
  | .setattr => parsed (SetattrIn.fromBytes body) fun s => .setattr nodeid (setattrOf now s)
  | .readlink => .readlink nodeid
  | .symlink => match splitTwoCstrs body with
    | some (name, target) => .symlink nodeid name target
    | none => .nothing
  | .mkdir => parsed (MkdirIn.fromBytes body) fun m => .mkdir nodeid m.2 m.1
  | .unlink => .unlink nodeid (trimNul body)
  | .rmdir => .rmdir nodeid (trimNul body)
  | .rename => parsed (RenameIn.fromBytes body) fun r => .rename nodeid r.2.1 r.1 r.2.2
  | .rename2 => parsed (RenameIn.fromBytesV2 body) fun r => .rename nodeid r.2.1 r.1 r.2.2
  | .link => parsed (LinkIn.fromBytes body) fun l => .link l.1 nodeid l.2
  | .open => parsed (OpenIn.fromBytes body) fun flags => .openFile nodeid flags
  | .create => parsed (CreateIn.fromBytes body) fun c => .create nodeid c.2 c.1.flags c.1.mode
  | .read => parsed (ReadIn.fromBytes body) fun r => .read r.fh r.offset r.size.toNat
  | .write => parsed (WriteIn.fromBytes body) fun w =>
    .write w.1.fh w.1.offset (w.2.take (min w.1.size.toNat w.2.length))
  | .fsync => parsed (Reader.parse Reader.u64 body) fun fh => .fsync fh
  | .release | .releasedir => parsed (ReleaseIn.fromBytes body) fun fh => .release fh
  | .opendir => parsed (OpenIn.fromBytes body) fun _ => .opendir nodeid
  | .statfs => .statfs nodeid
  | _ => .nothing

def requestCall (now : Time) (request : Bytes) : Call :=
  match InHeader.fromBytes request with
  | .ok header => callOf now header (InHeader.body request)
  | .error _ => .nothing

def entryGranted (request : Bytes) (reply : Reply) : Option UInt64 :=
  match InHeader.fromBytes request with
  | .ok header => entryOf (Opcode.ofU32 header.opcode) reply
  | .error _ => none

/-- How a handler ends: its reply and the session after it. -/
def settle : EStateM.Result (Option Reply) Session Reply → Option Reply × Session
  | .ok r s => (some r, s)
  | .error r s => (r, s)

/-- The outcome `x` of a handler matches the outcome `y` of a call: the world it leaves,
the entry it hands out, and whether it panics. -/
def Performs (op : Opcode) (x : Option Reply × Session)
    (y : EStateM.Result Stop World (Option UInt64)) : Prop :=
  match y with
  | .ok r w => ∃ b, x.1 = some b ∧ x.2.world = w ∧ entryOf op b = r
  | .error (.fail _) w => ∃ b, x.1 = some b ∧ x.2.world = w ∧ entryOf op b = none
  | .error .panic w => x.1 = none ∧ x.2.world = w

private theorem forgetEntries_single (id n : UInt64) :
    forgetEntries [(id, n)] = PassthroughFs.forget id n :=
  bind_pure (PassthroughFs.forget id n)

private theorem forgetAll_eq (entries : List ForgetOne) :
    forgetAll entries = forgetEntries (entries.map fun e => (e.nodeid, e.nlookup)) := by
  induction entries with
  | nil => rfl
  | cons e rest ih =>
    unfold forgetAll
    rw [ih]
    rfl

section Performs
variable {op : Opcode} {env : Env} {s : Session} {unique : UInt64} {α : Type}

/-- An arm that makes one call and answers without touching the world again. -/
theorem performs_tryFs_bind {m : FsM α} {k : α → HandleM Reply} {f : α → Option UInt64}
    (hk : ∀ a s, ∃ b s', k a s = .ok b s' ∧ s'.world = s.world ∧ entryOf op b = f a) :
    Performs op (settle ((do let a ← tryFs unique m; k a) s)) ((f <$> m) s.world) := by
  rw [map_eq_pure_bind]
  cases h : m s.world with
  | ok a w =>
    have htry : tryFs unique m s = .ok a { s with world := w } := by
      unfold tryFs
      rw [h]
    obtain ⟨b, s', hb, hw, hentry⟩ := hk a { s with world := w }
    rw [bind_of_ok htry, bind_of_ok h, hb]
    exact ⟨b, rfl, hw, hentry⟩
  | error e w =>
    rw [bind_of_error h]
    cases e with
    | fail e =>
      have htry : tryFs unique m s =
          .error (some (errnoReply unique e)) { s with world := w } := by
        unfold tryFs
        rw [h]
      rw [bind_of_error htry]
      exact ⟨_, rfl, rfl, errnoReply_entry op unique e⟩
    | panic =>
      have htry : tryFs unique m s = .error none { s with world := w } := by
        unfold tryFs
        rw [h]
      rw [bind_of_error htry]
      exact ⟨rfl, rfl⟩

/-- An arm that makes one call and encodes its result. -/
theorem performs_tryFs {m : FsM α} {g : α → Reply} {f : α → Option UInt64}
    (hg : ∀ a, entryOf op (g a) = f a) :
    Performs op (settle ((do let a ← tryFs unique m; pure (g a)) s)) ((f <$> m) s.world) :=
  performs_tryFs_bind fun a s => ⟨g a, s, rfl, rfl, hg a⟩

/-- An arm that parses its body first. -/
theorem performs_tryParse {x : Except ProtoError α} {k : α → HandleM Reply} {c : α → Call}
    (hk : ∀ a, Performs op (settle (k a s)) ((c a).run env s.world)) :
    Performs op (settle ((do let a ← tryParse unique x; k a) s))
      ((parsed x c).run env s.world) := by
  cases x with
  | ok a =>
    have htry : tryParse unique (.ok a : Except ProtoError α) s = .ok a s := rfl
    rw [bind_of_ok htry]
    exact hk a
  | error e =>
    have htry : tryParse unique (.error e : Except ProtoError α) s =
        .error (some (.bytes (OutHeader.errorFor unique EINVAL))) s := rfl
    rw [bind_of_error htry]
    exact ⟨_, rfl, rfl, errorFor_entry op unique EINVAL⟩

/-- An arm that answers without a call. -/
theorem performs_pure {r : Reply} (hr : entryOf op r = none) :
    Performs op (settle ((pure r : HandleM Reply) s)) ((Call.nothing).run env s.world) :=
  ⟨r, rfl, rfl, hr⟩

@[simp] theorem dropIter_world (s : Session) (fh : UInt64) : (s.dropIter fh).world = s.world := by
  unfold Session.dropIter
  cases s.world.handles.withDir fh with
  | ok fd => rfl
  | error e => rfl

private theorem readdirStream_world (env : Env) (unique fh : UInt64) (s : Session) :
    (∃ l s', readdirStream env unique fh s = .ok l s' ∧ s'.world = s.world) ∨
      ∃ e s', readdirStream env unique fh s = .error (some (errnoReply unique e)) s' ∧
        s'.world = s.world := by
  unfold readdirStream tryFs
  rw [dropIter_world]
  rcases PassthroughFs.readdir_cases env (s.streams.stands fh) fh s.world with ⟨e, he⟩ | ⟨l, hl⟩
  · rw [he]
    exact Or.inr ⟨e, _, rfl, rfl⟩
  · rw [hl]
    exact Or.inl ⟨l, _, rfl, rfl⟩

/-- `READDIR` changes no file and hands out no entry. -/
theorem readdirEntries_world (env : Env) (unique : UInt64) (r : ReadIn) (s : Session) :
    (∃ l s', readdirEntries env unique r s = .ok l s' ∧ s'.world = s.world) ∨
      ∃ e s', readdirEntries env unique r s = .error (some (errnoReply unique e)) s' ∧
        s'.world = s.world := by
  unfold readdirEntries
  split_ifs
  · rcases readdirStream_world env unique r.fh s with ⟨l, s', hok, hw⟩ | ⟨e, s', herr, hw⟩
    · exact Or.inl ⟨l, _, bind_of_ok hok, hw⟩
    · exact Or.inr ⟨e, s', bind_of_error herr, hw⟩
  · exact Or.inl ⟨_, s, rfl, rfl⟩

end Performs

/-- The arms of `Session::handle` make the call the request asks for. -/
theorem dispatch_performs (env : Env) (header : InHeader) (body : Bytes) (s : Session) :
    Performs (Opcode.ofU32 header.opcode) (settle (Session.dispatch env header body s))
      ((callOf env.now header body).run env s.world) := by
  unfold Session.dispatch callOf
  have hplain : ∀ {op : Opcode}, op.hasEntry = false → ∀ r, entryOf op r = none :=
    fun hop r => entryOf_of_not hop r
  cases hop : Opcode.ofU32 header.opcode with
  | init =>
    cases InitIn.fromBytes body with
    | ok a => exact performs_pure (hplain rfl _)
    | error e => exact performs_pure (hplain rfl _)
  | lookup =>
    refine performs_tryFs fun a => ?_
    have h := okReply_entry .lookup rfl header.unique a.1 a.2 []
    rwa [List.append_nil] at h
  | getattr =>
    exact performs_tryParse fun _ => performs_tryFs fun _ => hplain rfl _
  | setattr =>
    exact performs_tryParse fun _ => performs_tryFs fun _ => hplain rfl _
  | readlink => exact performs_tryFs fun _ => hplain rfl _
  | symlink =>
    cases splitTwoCstrs body with
    | none => exact performs_pure (errorFor_entry _ _ _)
    | some r =>
      refine performs_tryFs fun a => ?_
      have h := okReply_entry .symlink rfl header.unique a.1 a.2 []
      rwa [List.append_nil] at h
  | mkdir =>
    refine performs_tryParse fun _ => performs_tryFs fun a => ?_
    have h := okReply_entry .mkdir rfl header.unique a.1 a.2 []
    rwa [List.append_nil] at h
  | unlink => exact performs_tryFs fun _ => hplain rfl _
  | rmdir => exact performs_tryFs fun _ => hplain rfl _
  | rename => exact performs_tryParse fun _ => performs_tryFs fun _ => hplain rfl _
  | rename2 => exact performs_tryParse fun _ => performs_tryFs fun _ => hplain rfl _
  | link =>
    refine performs_tryParse fun l => performs_tryFs fun a => ?_
    have h := okReply_entry .link rfl header.unique l.1 a []
    rwa [List.append_nil] at h
  | «open» => exact performs_tryParse fun _ => performs_tryFs fun _ => hplain rfl _
  | create =>
    refine performs_tryParse fun _ => performs_tryFs fun a => ?_
    exact okReply_entry .create rfl header.unique a.1 a.2.2 _
  | read => exact performs_tryParse fun _ => performs_tryFs fun _ => hplain rfl _
  | write => exact performs_tryParse fun _ => performs_tryFs fun _ => hplain rfl _
  | forget =>
    refine performs_tryParse fun n => ?_
    rw [← forgetEntries_single]
    exact performs_tryFs fun _ => rfl
  | batchForget =>
    refine performs_tryParse fun entries => ?_
    rw [forgetAll_eq]
    exact performs_tryFs fun _ => rfl
  | flush =>
    cases FlushIn.fromBytes body with
    | ok a => exact performs_pure (hplain rfl _)
    | error e => exact performs_pure (hplain rfl _)
  | fsync => exact performs_tryParse fun _ => performs_tryFs fun _ => hplain rfl _
  | release => exact performs_tryParse fun _ => performs_tryFs fun _ => hplain rfl _
  | opendir =>
    refine performs_tryParse fun _ => performs_tryFs_bind fun handle s => ?_
    exact ⟨_, _, rfl, rfl, hplain rfl _⟩
  | readdir =>
    cases ReadIn.fromBytes body with
    | error e => exact performs_pure (hplain rfl _)
    | ok r =>
      rcases readdirEntries_world env header.unique r s with
        ⟨l, s', hok, hw⟩ | ⟨e, s', herr, hw⟩
      · show Performs _ (settle ((readdirEntries env header.unique r >>= _) s)) _
        rw [bind_of_ok hok]
        exact ⟨_, rfl, hw, hplain rfl _⟩
      · show Performs _ (settle ((readdirEntries env header.unique r >>= _) s)) _
        rw [bind_of_error herr]
        exact ⟨_, rfl, hw, hplain rfl _⟩
  | releasedir =>
    refine performs_tryParse fun fh => ?_
    exact performs_tryFs (s := { s with
      readdirCache := Function.update s.readdirCache fh none }) fun _ => hplain rfl _
  | statfs => exact performs_tryFs fun _ => hplain rfl _
  | access =>
    cases AccessIn.fromBytes body with
    | ok a => exact performs_pure (hplain rfl _)
    | error e => exact performs_pure (hplain rfl _)
  | destroy => exact performs_pure (hplain rfl _)
  | fsyncdir => exact performs_pure (hplain rfl _)
  | getxattr => exact performs_pure (hplain rfl _)
  | listxattr => exact performs_pure (hplain rfl _)
  | setxattr => exact performs_pure (hplain rfl _)
  | removexattr => exact performs_pure (hplain rfl _)
  | unknown v => exact performs_pure (hplain rfl _)

/-- `Session::handle` makes the call the request asks for. -/
theorem handle_performs (env : Env) (s : Session) (request : Bytes) :
    match (requestCall env.now request).run env s.world with
    | .ok r w => ∃ b, (Session.handle env s request).1 = some b ∧
        (Session.handle env s request).2.world = w ∧ entryGranted request b = r
    | .error (.fail _) w => ∃ b, (Session.handle env s request).1 = some b ∧
        (Session.handle env s request).2.world = w ∧ entryGranted request b = none
    | .error .panic w => (Session.handle env s request).1 = none ∧
        (Session.handle env s request).2.world = w := by
  unfold Session.handle requestCall entryGranted
  cases InHeader.fromBytes request with
  | error e => exact ⟨.none, rfl, rfl, rfl⟩
  | ok header =>
    have h := dispatch_performs env header (InHeader.body request) s
    have hs : ∀ x, settle x = match x with
      | .ok r s => (some r, s)
      | .error r s => (r, s) := by
      intro x
      cases x <;> rfl
    rw [hs] at h
    exact h

/-- The answer to a request that makes one engine call, whose result `enc` encodes. -/
def answered {α : Type} (unique : UInt64) (s : Session) (enc : α → Bytes) :
    EStateM.Result Stop World α → Option Reply × Session
  | .ok a w => (some (okReply unique (enc a)), { s with world := w })
  | .error (.fail e) w => (some (errnoReply unique e), { s with world := w })
  | .error .panic w => (none, { s with world := w })

section Answered
variable {α : Type} {env : Env} {s : Session} {request : Bytes} {header : InHeader}

theorem settle_tryFs (unique : UInt64) (m : FsM α) (enc : α → Bytes) (s : Session) :
    settle ((do let a ← tryFs unique m; pure (okReply unique (enc a))) s) =
      answered unique s enc (m s.world) := by
  rw [bind_apply]
  unfold tryFs
  cases m s.world with
  | ok a w => rfl
  | error e w =>
    cases e with
    | fail e => rfl
    | panic => rfl

theorem handle_settle (hh : InHeader.fromBytes request = .ok header) :
    Session.handle env s request =
      settle (Session.dispatch env header (InHeader.body request) s) := by
  unfold Session.handle
  rw [hh]
  show (match Session.dispatch env header (InHeader.body request) s with
    | .ok r s => (some r, s)
    | .error r s => (r, s)) = _
  cases Session.dispatch env header (InHeader.body request) s <;> rfl

theorem handle_read (env : Env) (s : Session) {r : ReadIn}
    (hh : InHeader.fromBytes request = .ok header)
    (hop : Opcode.ofU32 header.opcode = .read)
    (hr : ReadIn.fromBytes (InHeader.body request) = .ok r) :
    Session.handle env s request = answered header.unique s id
      (PassthroughFs.read env r.fh r.offset r.size.toNat s.world) := by
  rw [handle_settle hh, ← settle_tryFs]
  unfold Session.dispatch
  simp only [hop, hr]
  rfl

theorem handle_write (env : Env) (s : Session) {q : WriteIn} {data : Bytes}
    (hh : InHeader.fromBytes request = .ok header)
    (hop : Opcode.ofU32 header.opcode = .write)
    (hr : WriteIn.fromBytes (InHeader.body request) = .ok (q, data)) :
    Session.handle env s request = answered header.unique s (fun n => writeOut (.ofNat n))
      (PassthroughFs.write env q.fh q.offset (data.take (min q.size.toNat data.length))
        s.world) := by
  rw [handle_settle hh, ← settle_tryFs]
  unfold Session.dispatch
  simp only [hop, hr]
  rfl

theorem handle_open {flags : UInt32} (hh : InHeader.fromBytes request = .ok header)
    (hop : Opcode.ofU32 header.opcode = .open)
    (hr : OpenIn.fromBytes (InHeader.body request) = .ok flags) :
    Session.handle env s request = answered header.unique s openOut
      (PassthroughFs.openFile env header.nodeid flags s.world) := by
  rw [handle_settle hh, ← settle_tryFs]
  unfold Session.dispatch
  simp only [hop, hr]
  rfl

theorem handle_create (env : Env) (s : Session) {c : CreateIn} {name : Bytes}
    (hh : InHeader.fromBytes request = .ok header)
    (hop : Opcode.ofU32 header.opcode = .create)
    (hr : CreateIn.fromBytes (InHeader.body request) = .ok (c, name)) :
    Session.handle env s request = answered header.unique s
      (fun r => entryOut r.1 r.2.2 ++ openOut r.2.1)
      (PassthroughFs.create env header.nodeid name c.flags c.mode s.world) := by
  rw [handle_settle hh, ← settle_tryFs]
  unfold Session.dispatch
  simp only [hop, hr]
  rfl

/-- An error reply is not a success reply. -/
theorem errnoReply_ne_okReply (unique : UInt64) (e : FsError) (body : Bytes) :
    errnoReply unique e ≠ okReply unique body := by
  intro heq
  have hb : OutHeader.errorFor unique e.errno = OutHeader.reply unique 0 body :=
    Reply.bytes.inj heq
  have hne := errorFor_error unique e.errno
  rw [hb, OutHeader.reply_error] at hne
  exact hne rfl

theorem okReply_inj {unique : UInt64} {a b : Bytes} (h : okReply unique a = okReply unique b) :
    a = b := by
  have hb : OutHeader.reply unique 0 a = OutHeader.reply unique 0 b := Reply.bytes.inj h
  rw [OutHeader.reply_eq, OutHeader.reply_eq] at hb
  have h₁ := (List.append_inj hb (by simp)).2
  have h₂ := (List.append_inj h₁ (by simp)).2
  have h₃ := (List.append_inj h₂ (by simp)).2
  simpa using h₃

theorem openOut_inj {fh fh' : UInt64} (h : openOut fh = openOut fh') : fh = fh' := by
  have hn : ∀ fh, natAt (openOut fh) 0 8 = fh.toNat := by
    intro fh
    have hlt : fh.toNat < 256 ^ 8 := fh.toNat_lt
    have heq : openOut fh = leBytes 8 fh.toNat ++ (leBytes 4 2 ++ leBytes 4 0) := by
      simp [openOut, FOPEN_KEEP_CACHE, Writer.u32, Writer.i32, Writer.u64, Writer.bytes,
        Writer.new, Writer.intoVec]
      rfl
    rw [heq, natAt_append_left (by simp), natAt_leBytes hlt]
  have hfh := hn fh
  rw [h, hn fh'] at hfh
  exact (UInt64.toNat_inj.mp hfh).symm

theorem writeOut_inj {n n' : UInt32} (h : writeOut n = writeOut n') : n = n' := by
  have hn : ∀ n, natAt (writeOut n) 0 4 = n.toNat := by
    intro n
    have hlt : n.toNat < 256 ^ 4 := n.toNat_lt
    have heq : writeOut n = leBytes 4 n.toNat ++ leBytes 4 0 := by
      simp [writeOut, Writer.u32, Writer.bytes, Writer.new, Writer.intoVec]
    rw [heq, natAt_append_left (by simp), natAt_leBytes hlt]
  have hfh := hn n
  rw [h, hn n'] at hfh
  exact (UInt32.toNat_inj.mp hfh).symm

theorem entryOut_length (id : UInt64) (attr : Attr) : (entryOut id attr).length = 128 := by
  simp [entryOut, FuseAttr.write, Writer.u32, Writer.u64, Writer.bytes, Writer.new,
    Writer.intoVec]

/-- A success reply comes from a call that succeeded. -/
theorem answered_ok {unique : UInt64} {enc : α → Bytes} {res : EStateM.Result Stop World α}
    {body : Bytes} {s' : Session} (h : answered unique s enc res = (some (okReply unique body), s')) :
    ∃ a w, res = .ok a w ∧ enc a = body ∧ s' = { s with world := w } := by
  cases res with
  | ok a w =>
    have hr := Option.some.inj (Prod.mk.inj h).1
    exact ⟨a, w, rfl, okReply_inj hr, (Prod.mk.inj h).2.symm⟩
  | error e w =>
    cases e with
    | fail e =>
      have hr := Option.some.inj (Prod.mk.inj h).1
      exact absurd hr (errnoReply_ne_okReply unique e body)
    | panic => cases h

end Answered

/-- A request as the host meets it: what the host decides during it, and its bytes. -/
abbrev Input := Env × Bytes

/-- The call a request makes, as the host meets it. -/
def Input.call (x : Input) : Env × Call := (x.1, requestCall x.1.now x.2)

end Riftlessfs.Fuse
