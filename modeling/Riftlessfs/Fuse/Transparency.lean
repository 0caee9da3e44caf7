import Riftlessfs.Fuse.ProtocolCodecs

/-! The wire is transparent: a client that encodes an operation, hands it to `Session::handle` and
decodes the reply learns what the engine answers to the operation, and leaves the session as the
operation does. -/
namespace Riftlessfs.Fuse
open Riftlessfs.Core Riftlessfs.Proto Lib.LittleEndian Lib.Effect Lib.Codec Reader

def onEngine {α : Type} (m : FsM α) : EStateM Stop Session α := fun s =>
  match m s.world with
  | .ok a w => .ok a { s with world := w }
  | .error e w => .error e { s with world := w }

/-- A change of what the session keeps beside the engine. -/
def updateSession (f : Session → Session) : EStateM Stop Session Unit := fun s => .ok () (f s)

/-- The entries of a directory, from where its stream stands. -/
def entriesOf (env : Env) (fh : UInt64) : EStateM Stop Session (List DirEntry) := fun s =>
  onEngine (PassthroughFs.readdir env (s.streams.stands fh) fh) (s.dropIter fh)

/-- The listing that a page is taken from: read anew for the first page, and kept. -/
def listing (env : Env) (fh offset : UInt64) : EStateM Stop Session (List DirEntry) := fun s =>
  if offset = 0 ∨ s.readdirCache fh = none then
    (do
      let entries ← entriesOf env fh
      updateSession fun s =>
        { s with readdirCache := Function.update s.readdirCache fh (some entries) }
      pure entries) s
  else .ok ((s.readdirCache fh).getD []) s

def Operation.perform (env : Env) (nodeid : UInt64) : Operation → EStateM Stop Session Answer
  | .init msg => pure (.init (initReply msg.maxReadahead))
  | .destroy | .flush _ | .fsyncdir .. | .access .. => pure .done
  | .lookup name => do
    let (ino, attr) ← onEngine (PassthroughFs.lookup env nodeid name)
    pure (.entry (entryReply ino attr))
  | .forget nlookup => do
    onEngine (PassthroughFs.forget nodeid nlookup)
    pure .silence
  | .batchForget _ entries => do
    onEngine (forgetAll entries)
    pure .silence
  | .getattr .. => do
    let attr ← onEngine (PassthroughFs.getattr env nodeid)
    pure (.attr CACHE_TIMEOUT_SECS attr)
  | .setattr msg => do
    let attr ← onEngine (PassthroughFs.setattr env nodeid (setattrOf env.now msg.asked))
    pure (.attr CACHE_TIMEOUT_SECS attr)
  | .readlink => do
    let target ← onEngine (PassthroughFs.readlink env nodeid)
    pure (.data target)
  | .symlink name target => do
    let (ino, attr) ← onEngine (PassthroughFs.symlink env nodeid name target)
    pure (.entry (entryReply ino attr))
  | .mkdir mode _ name => do
    let (ino, attr) ← onEngine (PassthroughFs.mkdir env nodeid name mode)
    pure (.entry (entryReply ino attr))
  | .unlink name => do
    onEngine (PassthroughFs.unlink env nodeid name)
    pure .done
  | .rmdir name => do
    onEngine (PassthroughFs.rmdir env nodeid name)
    pure .done
  | .rename newdir old new | .rename2 newdir _ _ old new => do
    onEngine (PassthroughFs.rename env nodeid old newdir new)
    pure .done
  | .link oldnodeid name => do
    let attr ← onEngine (PassthroughFs.link env oldnodeid nodeid name)
    pure (.entry (entryReply oldnodeid attr))
  | .open flags _ => do
    let handle ← onEngine (PassthroughFs.openFile env nodeid flags)
    pure (.opened (openReply handle))
  | .create flags mode _ _ name => do
    let (ino, handle, attr) ← onEngine (PassthroughFs.create env nodeid name flags mode)
    pure (.created (entryReply ino attr) (openReply handle))
  | .read msg size => do
    let data ← onEngine (PassthroughFs.read env msg.fh msg.offset size.toNat)
    pure (.data data)
  | .write msg data => do
    let written ← onEngine (PassthroughFs.write env msg.fh msg.offset data)
    pure (.written (.ofNat written))
  | .fsync fh _ _ => do
    onEngine (PassthroughFs.fsync env fh)
    pure .done
  | .release msg => do
    onEngine (PassthroughFs.release msg.fh)
    pure .done
  | .opendir .. => do
    let handle ← onEngine (PassthroughFs.opendir env nodeid)
    updateSession fun s => { s with streams := s.streams.opened nodeid handle }
    pure (.opened (openReply handle))
  | .readdir msg size => do
    let entries ← listing env msg.fh msg.offset
    let start := msg.offset.toNat
    pure (.data (fillDirents size.toNat start (entries.drop start) []))
  | .releasedir msg => do
    updateSession fun s => { s with readdirCache := Function.update s.readdirCache msg.fh none }
    onEngine (PassthroughFs.releasedir msg.fh)
    pure .done
  | .statfs => do
    let stat ← onEngine (PassthroughFs.statfs env nodeid)
    pure (.statfs (statfsReply stat))
  | .other .. => throw (.fail (.unsupported ""))

/-- How `Session::handle` ends, `x`, tells a client how the operation ends. -/
def Carries (op : Operation) (unique : UInt64) (x : Option Reply × Session) :
    EStateM.Result Stop Session Answer → Prop
  | .ok a s => ∃ r, x = (some r, s) ∧ Answer.decode op unique r = some a
  | .error (.fail e) s => ∃ r, x = (some r, s) ∧
    Answer.decode op unique r = some (.failed (-(Int32.ofNat (toLinuxErrno e.errno))))
  | .error .panic s => x = (none, s)

/-- An early end, as the handler of a request ends. -/
def raise {α : Type} (unique : UInt64) :
    EStateM.Result Stop Session α → EStateM.Result (Option Reply) Session α
  | .ok a s => .ok a s
  | .error (.fail e) s => .error (some (errnoReply unique e)) s
  | .error .panic s => .error none s

section Arms
variable {op : Operation} {unique : UInt64} {s : Session} {α : Type}

theorem tryFs_raise (m : FsM α) (s : Session) :
    tryFs unique m s = raise unique (onEngine m s) := by
  unfold tryFs onEngine
  cases m s.world with
  | ok a w => rfl
  | error e w =>
    cases e with
    | fail e => rfl
    | panic => rfl

private theorem readdirStream_raise (unique : UInt64) (env : Env) (fh : UInt64) (s : Session) :
    readdirStream env unique fh s = raise unique (entriesOf env fh s) :=
  tryFs_raise _ _

private theorem readdirEntries_raise (env : Env) (r : ReadIn) (s : Session) :
    readdirEntries env unique r s = raise unique (listing env r.fh r.offset s) := by
  unfold readdirEntries listing
  split_ifs with hanew
  · have hstream := readdirStream_raise unique env r.fh s
    cases hentries : entriesOf env r.fh s with
    | ok entries s₁ =>
      rw [hentries] at hstream
      refine (bind_of_ok hstream).trans ?_
      rw [bind_of_ok hentries]
      rfl
    | error e s₁ =>
      rw [hentries] at hstream
      rw [bind_of_error hentries]
      cases e with
      | fail e => exact bind_of_error hstream
      | panic => exact bind_of_error hstream
  · rfl

/-- An arm whose first part ends early as the operation's does, and that goes on as it does. -/
theorem carries_bind {m : HandleM α} {m' : EStateM Stop Session α} {k : α → HandleM Reply}
    {k' : α → EStateM Stop Session Answer} (hm : m s = raise unique (m' s))
    (hk : ∀ a s, Carries op unique (settle (k a s)) (k' a s)) :
    Carries op unique (settle ((m >>= k) s)) ((m' >>= k') s) := by
  cases h : m' s with
  | ok a s₁ =>
    rw [h] at hm
    rw [bind_of_ok hm, bind_of_ok h]
    exact hk a s₁
  | error e s₁ =>
    rw [h] at hm
    rw [bind_of_error h]
    cases e with
    | fail e =>
      rw [bind_of_error hm]
      exact ⟨_, rfl, decode_error op unique e.errno⟩
    | panic =>
      rw [bind_of_error hm]
      rfl

/-- An arm that makes the operation's call. -/
theorem carries_call {m m' : FsM α} (hm : m = m') {k : α → HandleM Reply}
    {k' : α → EStateM Stop Session Answer}
    (hk : ∀ a s, Carries op unique (settle (k a s)) (k' a s)) :
    Carries op unique (settle ((tryFs unique m >>= k) s)) ((onEngine m' >>= k') s) := by
  rw [← hm]
  exact carries_bind (tryFs_raise m s) hk

/-- An arm that parses a body as it was encoded. -/
theorem carries_tryParse {x : Except ProtoError α} {a : α} (hx : x = .ok a)
    {k : α → HandleM Reply} {y : EStateM.Result Stop Session Answer}
    (hk : Carries op unique (settle (k a s)) y) :
    Carries op unique (settle ((tryParse unique x >>= k) s)) y := by
  have htry : tryParse unique x s = .ok a s := by
    unfold tryParse
    rw [hx]
  rw [bind_of_ok htry]
  exact hk

theorem carries_pure {r : Reply} {a : Answer} (h : Answer.decode op unique r = some a)
    (s : Session) : Carries op unique (settle ((pure r : HandleM Reply) s))
      ((pure a : EStateM Stop Session Answer) s) :=
  ⟨r, rfl, h⟩

/-- An arm that ends with a body. -/
theorem carries_body {body left : Bytes} {a : Answer}
    (h : Reads Stands (Answer.readBody op) body a left) (s : Session) :
    Carries op unique (settle ((pure (okReply unique body) : HandleM Reply) s))
      ((pure a : EStateM Stop Session Answer) s) :=
  carries_pure (decode_ok h) s

theorem reads_map {m : ReadM α} {a : α} {input left : Bytes} (g : α → Answer)
    (h : Reads Stands m input a left) : Reads Stands (do pure (g (← m))) input (g a) left :=
  h.bind (reads_pure _ _)

/-- An arm that ends without one. -/
theorem carries_done (h : Answer.readBody op = pure .done) (s : Session) :
    Carries op unique (settle ((pure (okReply unique []) : HandleM Reply) s))
      ((pure .done : EStateM Stop Session Answer) s) := by
  have hread : Reads Stands (Answer.readBody op) [] .done [] := by
    rw [h]
    exact reads_pure _ _
  exact carries_body hread s

end Arms

/-- Each arm of `Session::handle` means what the operation means. -/
theorem dispatch_carries (env : Env) (s : Session) (h : Sender) (op : Operation) :
    Carries op h.unique (settle (Session.dispatch env
      ⟨h.len, op.code, h.unique, h.nodeid, h.uid, h.gid, h.pid⟩ (Field.record op.fields) s))
      (op.perform env h.nodeid s) := by
  cases op with
  | init m =>
    obtain ⟨left, hinit⟩ := reads_init m.maxReadahead
    apply carries_tryParse (init_encoded m)
    apply carries_body
    exact reads_map _ hinit
  | destroy => exact carries_done rfl s
  | lookup name =>
    apply carries_call (congrArg (PassthroughFs.lookup env h.nodeid) (trimNul_encoded name))
    intro r s
    have hentry := reads_entry r.1 r.2 []
    rw [List.append_nil] at hentry
    apply carries_body
    exact reads_map _ hentry
  | forget nlookup =>
    apply carries_tryParse (first_u64_encoded nlookup [])
    apply carries_call rfl
    intro _ s
    exact carries_pure rfl s
  | batchForget dummy entries =>
    apply carries_tryParse (batchForget_encoded dummy entries)
    apply carries_call rfl
    intro _ s
    exact carries_pure rfl s
  | getattr flags dummy fh =>
    apply carries_tryParse (getattr_encoded flags dummy fh)
    apply carries_call rfl
    intro attr s
    apply carries_body
    exact reads_map (fun r => .attr r.1 r.2) (reads_attrOut attr)
  | setattr m =>
    apply carries_tryParse (setattr_encoded m)
    apply carries_call rfl
    intro attr s
    apply carries_body
    exact reads_map (fun r => .attr r.1 r.2) (reads_attrOut attr)
  | readlink =>
    apply carries_call rfl
    intro target s
    apply carries_body
    exact reads_map _ (reads_remaining target)
  | symlink name target =>
    have hop : Opcode.ofU32 (Operation.symlink name target).code = .symlink := rfl
    unfold Session.dispatch
    simp only [hop, Operation.fields, splitTwoCstrs_encoded]
    apply carries_call rfl
    intro r s
    have hentry := reads_entry r.1 r.2 []
    rw [List.append_nil] at hentry
    apply carries_body
    exact reads_map _ hentry
  | mkdir mode umask name =>
    apply carries_tryParse (mkdir_encoded mode umask name)
    apply carries_call rfl
    intro r s
    have hentry := reads_entry r.1 r.2 []
    rw [List.append_nil] at hentry
    apply carries_body
    exact reads_map _ hentry
  | unlink name =>
    apply carries_call (congrArg (PassthroughFs.unlink env h.nodeid) (trimNul_encoded name))
    intro _ s
    exact carries_done rfl s
  | rmdir name =>
    apply carries_call (congrArg (PassthroughFs.rmdir env h.nodeid) (trimNul_encoded name))
    intro _ s
    exact carries_done rfl s
  | rename newdir old new =>
    apply carries_tryParse (rename_encoded newdir old new)
    apply carries_call rfl
    intro _ s
    exact carries_done rfl s
  | rename2 newdir flags padding old new =>
    apply carries_tryParse (rename2_encoded newdir flags padding old new)
    apply carries_call rfl
    intro _ s
    exact carries_done rfl s
  | link oldnodeid name =>
    apply carries_tryParse (link_encoded oldnodeid name)
    apply carries_call rfl
    intro attr s
    have hentry := reads_entry oldnodeid attr []
    rw [List.append_nil] at hentry
    apply carries_body
    exact reads_map _ hentry
  | «open» flags openFlags =>
    apply carries_tryParse (first_u32_encoded flags _)
    apply carries_call rfl
    intro handle s
    apply carries_body
    exact reads_map _ (reads_open handle)
  | create flags mode umask openFlags name =>
    apply carries_tryParse (create_encoded flags mode umask openFlags name)
    apply carries_call rfl
    intro r s
    apply carries_body
    apply (reads_entry r.1 r.2.2 (openOut r.2.1)).bind
    apply (reads_open r.2.1).bind
    exact reads_pure _ _
  | read m size =>
    apply carries_tryParse (read_encoded m size)
    apply carries_call rfl
    intro data s
    apply carries_body
    exact reads_map _ (reads_remaining data)
  | write m data =>
    have hsize : min (UInt32.ofNat data.1.length).toNat data.1.length = data.1.length := by
      rw [UInt32.toNat_ofNat_of_lt' data.2, Nat.min_self]
    have hdata : data.1.take (min (UInt32.ofNat data.1.length).toNat data.1.length) = data.1 := by
      rw [hsize, List.take_length]
    apply carries_tryParse (write_encoded m data)
    apply carries_call (congrArg (PassthroughFs.write env m.fh m.offset) hdata)
    intro written s
    apply carries_body
    exact reads_map _ (reads_u32 (.ofNat written) _)
  | flush m =>
    apply carries_tryParse (first_u64_encoded m.fh _)
    exact carries_done rfl s
  | fsync fh flags padding =>
    apply carries_tryParse (first_u64_encoded fh _)
    apply carries_call rfl
    intro _ s
    exact carries_done rfl s
  | release m =>
    apply carries_tryParse (first_u64_encoded m.fh _)
    apply carries_call rfl
    intro _ s
    exact carries_done rfl s
  | opendir flags openFlags =>
    apply carries_tryParse (first_u32_encoded flags _)
    apply carries_call rfl
    intro handle s
    have hbody : Reads Stands (Answer.readBody (.opendir flags openFlags)) (openOut handle) _ _ :=
      reads_map _ (reads_open handle)
    exact carries_body hbody { s with streams := s.streams.opened h.nodeid handle }
  | readdir m size =>
    apply carries_tryParse (read_encoded m size)
    apply carries_bind (readdirEntries_raise env _ s)
    intro entries s
    apply carries_body
    exact reads_map _ (reads_remaining _)
  | releasedir m =>
    apply carries_tryParse (first_u64_encoded m.fh _)
    apply carries_bind
    · rfl
    · intro _ s
      apply carries_call rfl
      intro _ s
      exact carries_done rfl s
  | fsyncdir fh flags padding => exact carries_done rfl s
  | statfs =>
    apply carries_call rfl
    intro stat s
    apply carries_body
    exact reads_map _ (reads_statfs stat)
  | access mask padding =>
    apply carries_tryParse (first_u32_encoded mask _)
    exact carries_done rfl s
  | other code body =>
    have hrefused := code.2
    have hreply : Session.dispatch env
        ⟨h.len, code.1, h.unique, h.nodeid, h.uid, h.gid, h.pid⟩
        (Field.record (Operation.other code body).fields) s =
        .ok (.bytes (OutHeader.errorFor h.unique ENOSYS)) s := by
      unfold Session.dispatch
      cases hop : Opcode.ofU32 code.1 with
      | getxattr => rfl
      | listxattr => rfl
      | setxattr => rfl
      | removexattr => rfl
      | unknown v => rfl
      | _ =>
        rw [hop] at hrefused
        cases hrefused
    show Carries _ _ (settle (Session.dispatch env
      ⟨h.len, code.1, h.unique, h.nodeid, h.uid, h.gid, h.pid⟩ _ s)) _
    rw [hreply]
    exact ⟨_, rfl, decode_error _ _ ENOSYS⟩

/-- For every session and every operation a client can express: the reply to its encoding decodes to
the answer of the operation, or to the errno of its failure, and the session is left as the operation
leaves it. -/
theorem wire_transparent (env : Env) (s : Session) (h : Sender) (op : Operation) :
    Carries op h.unique (Session.handle env s (h.encode op)) (op.perform env h.nodeid s) := by
  have hdispatch := dispatch_carries env s h op
  have hhandle : Session.handle env s (h.encode op) = settle (Session.dispatch env
      ⟨h.len, op.code, h.unique, h.nodeid, h.uid, h.gid, h.pid⟩ (Field.record op.fields) s) := by
    unfold Session.handle
    rw [header_encoded, body_encoded]
    simp only
    cases Session.dispatch env ⟨h.len, op.code, h.unique, h.nodeid, h.uid, h.gid, h.pid⟩
      (Field.record op.fields) s with
    | ok r s => rfl
    | error r s => rfl
  rw [hhandle]
  exact hdispatch

end Riftlessfs.Fuse
