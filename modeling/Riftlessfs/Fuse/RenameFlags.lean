import Riftlessfs.Core.Rename2
import Riftlessfs.Fuse.ReplyForm

/-! `RENAME2`: the flags are skipped, so a request is served as it asks exactly where a plain
rename does what they ask for. -/
namespace Riftlessfs.Core

/-- The tracked location of an inode names its file. -/
def World.Locates (w : World) (d : InodeData) : Prop :=
  ∃ p pd, d.parent = some p ∧ w.inodes.byId p = some pd ∧
    w.host.named pd.fd.file d.name = some d.key

/-- Inodes whose tracked location names their file go on having one that does. -/
def World.Follows (w w' : World) : Prop :=
  ∀ id d, w.inodes.byId id = some d → w.Locates d →
    ∃ d', w'.inodes.byId id = some d' ∧ d'.key = d.key ∧ w'.Locates d'

/-- When the old and the new name are the same file, it does not matter which one an inode is
tracked under. -/
theorem World.follows_of_same {w : World} {p p' : UInt64} {n n' : Name} {pd pd' : InodeData}
    {order : List UInt64} (hp : w.inodes.byId p = some pd) (hp' : w.inodes.byId p' = some pd')
    (hsame : w.host.named pd.fd.file n = w.host.named pd'.fd.file n') :
    w.Follows ⟨w.inodes.noteRename order p n p' n', w.handles, w.host⟩ := by
  rcases InodeStore.noteRename_cases w.inodes order p n p' n' with
    ⟨-, heq⟩ | ⟨id₀, d₀, -, hd₀, hparent₀, hname₀, heq⟩
  · rw [heq]
    exact fun id d hd hloc => ⟨d, hd, rfl, hloc⟩
  rw [heq]
  -- moving a location changes neither the ids in the table nor their descriptors
  have hfd : ∀ q qd, w.inodes.byId q = some qd → ∃ qd',
      (w.inodes.setData id₀ (d₀.setLocation p' n')).byId q = some qd' ∧ qd'.fd = qd.fd := by
    intro q qd hq
    by_cases hid : q = id₀
    · subst hid
      rw [hd₀] at hq
      cases hq
      exact ⟨_, Function.update_self _ _ _, rfl⟩
    · exact ⟨qd, (Function.update_of_ne hid _ _).trans hq, rfl⟩
  intro id d hd hloc
  obtain ⟨q, qd, hparent, hq, hnamed⟩ := hloc
  by_cases hid : id = id₀
  · subst hid
    rw [hd₀] at hd
    cases hd
    rw [hparent₀] at hparent
    cases hparent
    rw [hp] at hq
    cases hq
    obtain ⟨qd', hqd', hqfd⟩ := hfd p' pd' hp'
    refine ⟨d₀.setLocation p' n', Function.update_self _ _ _, rfl, p', qd', rfl, hqd', ?_⟩
    show w.host.named qd'.fd.file n' = some d₀.key
    rw [hqfd, ← hsame, ← hname₀]
    exact hnamed
  · obtain ⟨qd', hqd', hqfd⟩ := hfd q qd hq
    refine ⟨d, (Function.update_of_ne hid _ _).trans hd, rfl, q, qd', hparent, hqd', ?_⟩
    rw [hqfd]
    exact hnamed

/-- What `PassthroughFs::rename` needs: both directories are known, neither name holds a NUL, and
`renameat` goes through. -/
structure World.CanRename (env : Env) (w : World) (p : UInt64) (n : Name) (p' : UInt64) (n' : Name)
    (pd pd' : InodeData) (h₁ : Host) : Prop where
  parent : w.inodes.byId p = some pd
  newParent : w.inodes.byId p' = some pd'
  name : n.contains 0 = false
  newName : n'.contains 0 = false
  fault : env.fault .renameat = none
  host : w.host.renameat pd.fd.file n pd'.fd.file n' = .ok ((), h₁)

section Rename
open Lib.Effect PassthroughFs
variable {env : Env} {w : World} {p p' : UInt64} {n n' : Name} {pd pd' : InodeData} {h₁ : Host}

private theorem inode_of_byId (h : w.inodes.byId p = some pd) : inode p w = .ok pd w := by
  unfold inode InodeStore.get
  rw [h]
  rfl

private theorem cstring_of_plain (h : n.contains 0 = false) : cstring n w = .ok n w := by
  unfold cstring toCString
  rw [h]
  rfl

theorem World.CanRename.rename (h : w.CanRename env p n p' n' pd pd' h₁) :
    rename env p n p' n' w =
      .ok () ⟨w.inodes.noteRename env.order p n p' n', w.handles, h₁⟩ := by
  unfold PassthroughFs.rename
  rw [bind_of_ok (inode_of_byId h.parent), bind_of_ok (inode_of_byId h.newParent),
    bind_of_ok (cstring_of_plain h.name), bind_of_ok (cstring_of_plain h.newName)]
  have hsys : sys env .renameat (fun h => h.renameat pd.fd.file n pd'.fd.file n') w =
      .ok () (w.withHost h₁) := sys_ok h.fault h.host
  exact bind_of_ok hsys

/-- Without what it needs, a rename fails and changes nothing. -/
theorem World.rename_fails (hno : ∀ pd pd' h₁, ¬w.CanRename env p n p' n' pd pd' h₁) :
    Fails (rename env p n p' n' w) w := by
  unfold PassthroughFs.rename
  rcases inode_cases p w with hf | ⟨pd, hpd, hok⟩
  · exact hf.bind
  rw [bind_of_ok hok]
  rcases inode_cases p' w with hf | ⟨pd', hpd', hok⟩
  · exact hf.bind
  rw [bind_of_ok hok]
  cases hn : n.contains 0 with
  | true =>
    have hf : Fails (cstring n w) w := by
      unfold cstring toCString
      rw [hn]
      exact ⟨_, rfl⟩
    exact hf.bind
  | false =>
    rw [bind_of_ok (cstring_of_plain hn)]
    cases hn' : n'.contains 0 with
    | true =>
      have hf : Fails (cstring n' w) w := by
        unfold cstring toCString
        rw [hn']
        exact ⟨_, rfl⟩
      exact hf.bind
    | false =>
      rw [bind_of_ok (cstring_of_plain hn')]
      refine Fails.bind ?_
      unfold sys
      cases hfault : env.fault .renameat with
      | some e => exact ⟨.io e, rfl⟩
      | none =>
        cases hr : w.host.renameat pd.fd.file n pd'.fd.file n' with
        | error e =>
          simp only [hr]
          exact ⟨.io e, rfl⟩
        | ok r => exact absurd ⟨hpd, hpd', hn, hn', hfault, hr⟩ (hno pd pd' r.2)

end Rename

end Riftlessfs.Core

namespace Riftlessfs.Fuse
open Riftlessfs.Core Riftlessfs.Proto Lib.LittleEndian Lib.Effect

/-- `fuse_rename2_in` and the two names, as the guest writes them. -/
structure Rename2In where
  newdir : UInt64
  flags : UInt32
  old : Bytes
  new : Bytes
  deriving DecidableEq, Repr

def Rename2In.fromBytes : Bytes → Except ProtoError Rename2In := Reader.parse do
  let newdir ← Reader.u64
  let flags ← Reader.u32
  Reader.skip 4
  let old ← Reader.cstr
  let new ← Reader.cstr
  pure { newdir, flags, old, new }

/-- What a parser makes of the end of its reader. -/
def Reader.outcome {α : Type} : EStateM.Result ProtoError Reader α → Except ProtoError α
  | .ok a _ => .ok a
  | .error e _ => .error e

theorem Reader.parse_eq {α : Type} (m : ReadM α) (buf : Bytes) :
    Reader.parse m buf = outcome (m ⟨buf, 0⟩) := by
  unfold Reader.parse Reader.new
  cases m ⟨buf, 0⟩ <;> rfl

theorem Reader.outcome_map {α β : Type} (g : α → β) (m : ReadM α) (r : Reader) :
    outcome ((g <$> m) r) = (outcome (m r)).map g := by
  rw [map_eq_pure_bind]
  cases h : m r with
  | ok a r' =>
    rw [bind_of_ok h]
    rfl
  | error e r' =>
    rw [bind_of_error h]
    rfl

/-- `from_bytes_v2` reads the request but for its flags. -/
theorem RenameIn.fromBytesV2_eq (buf : Bytes) : RenameIn.fromBytesV2 buf =
    (Rename2In.fromBytes buf).map fun q => (q.newdir, q.old, q.new) := by
  have hnames : ∀ (newdir : UInt64) (flags : UInt32), (do
        let old ← Reader.cstr
        let new ← Reader.cstr
        pure (newdir, old, new) : ReadM (UInt64 × Bytes × Bytes)) =
      (fun q : Rename2In => (q.newdir, q.old, q.new)) <$> (do
        let old ← Reader.cstr
        let new ← Reader.cstr
        pure ⟨newdir, flags, old, new⟩ : ReadM Rename2In) := by
    intro newdir flags
    simp only [map_bind, map_pure]
  unfold RenameIn.fromBytesV2 Rename2In.fromBytes
  rw [Reader.parse_eq, Reader.parse_eq]
  by_cases h8 : 8 ≤ buf.length
  · have hdir : Reader.u64 ⟨buf, 0⟩ = .ok _ ⟨buf, 8⟩ := (Reader.u64_apply buf 0).trans (if_pos h8)
    rw [bind_of_ok hdir, bind_of_ok hdir]
    by_cases h16 : 16 ≤ buf.length
    · have hskip : Reader.skip 8 ⟨buf, 8⟩ = .ok _ ⟨buf, 16⟩ :=
        (Reader.skip_apply 8 buf 8).trans (if_pos h16)
      have hflags : Reader.u32 ⟨buf, 8⟩ = .ok _ ⟨buf, 12⟩ :=
        (Reader.u32_apply buf 8).trans (if_pos (by omega))
      have hpad : Reader.skip 4 ⟨buf, 12⟩ = .ok _ ⟨buf, 16⟩ :=
        (Reader.skip_apply 4 buf 12).trans (if_pos (by omega))
      rw [bind_of_ok hskip, bind_of_ok hflags, bind_of_ok hpad, ← Reader.outcome_map, ← hnames]
    · have hskip : Reader.skip 8 ⟨buf, 8⟩ = .error .truncated _ :=
        (Reader.skip_apply 8 buf 8).trans (if_neg h16)
      rw [bind_of_error hskip]
      by_cases h12 : 12 ≤ buf.length
      · have hflags : Reader.u32 ⟨buf, 8⟩ = .ok _ ⟨buf, 12⟩ :=
          (Reader.u32_apply buf 8).trans (if_pos h12)
        have hpad : Reader.skip 4 ⟨buf, 12⟩ = .error .truncated _ :=
          (Reader.skip_apply 4 buf 12).trans (if_neg (by omega))
        rw [bind_of_ok hflags, bind_of_error hpad]
        rfl
      · have hflags : Reader.u32 ⟨buf, 8⟩ = .error .truncated _ :=
          (Reader.u32_apply buf 8).trans (if_neg h12)
        rw [bind_of_error hflags]
        rfl
  · have hdir : Reader.u64 ⟨buf, 0⟩ = .error .truncated _ :=
      (Reader.u64_apply buf 0).trans (if_neg (by omega))
    rw [bind_of_error hdir, bind_of_error hdir]
    rfl

section Requests
variable {env : Env} {s : Session} {request : Bytes} {header : InHeader}

/-- An error reply, with the tree and the table as they were. -/
def Session.Refuses (s : Session) (out : Option Reply × Session) : Prop :=
  (∃ unique e, out.1 = some (.bytes (OutHeader.errorFor unique e))) ∧
    Host.SameTree s.world.host out.2.world.host ∧ out.2.world.inodes = s.world.inodes

/-- A success reply, with the tree that `renameat2` gives for the flags of the request. After an
exchange both inodes are tracked where they are. -/
structure Session.Serves (env : Env) (s : Session) (nodeid : UInt64) (q : Rename2In)
    (out : Option Reply × Session) : Prop where
  reply : ∃ unique, out.1 = some (okReply unique [])
  tree : ∃ pd pd' h', s.world.inodes.byId nodeid = some pd ∧
    s.world.inodes.byId q.newdir = some pd' ∧
    s.world.host.renameat2 pd.fd.file q.old pd'.fd.file q.new q.flags env.fresh = .ok ((), h') ∧
    Host.SameTree h' out.2.world.host
  follows : q.flags = RENAME_EXCHANGE → s.world.Follows out.2.world

/-- Flags that ask for no more than a plain rename of `old` in `nodeid` to `new` in `newdir`. -/
def Session.Plain (s : Session) (nodeid : UInt64) (q : Rename2In) : Prop :=
  ∃ pd pd', s.world.inodes.byId nodeid = some pd ∧ s.world.inodes.byId q.newdir = some pd' ∧
    (q.flags = 0 ∨
      (q.flags = RENAME_NOREPLACE ∧ s.world.host.named pd'.fd.file q.new = none) ∨
      ((q.flags = RENAME_EXCHANGE ∨ q.flags = RENAME_WHITEOUT) ∧
        s.world.host.named pd.fd.file q.old = s.world.host.named pd'.fd.file q.new))

theorem handle_rename2 (env : Env) (s : Session) (hh : InHeader.fromBytes request = .ok header)
    (hop : Opcode.ofU32 header.opcode = .rename2) {q : Rename2In}
    (hq : Rename2In.fromBytes (InHeader.body request) = .ok q) :
    s.handle env request = answered header.unique s (fun _ => [])
      (PassthroughFs.rename env header.nodeid q.old q.newdir q.new s.world) := by
  have hv2 : RenameIn.fromBytesV2 (InHeader.body request) = .ok (q.newdir, q.old, q.new) := by
    rw [RenameIn.fromBytesV2_eq, hq]
    rfl
  rw [handle_settle hh, ← settle_tryFs]
  unfold Session.dispatch
  simp only [hop, hv2]
  rfl

/-- A `RENAME2` that cannot be carried out, whatever its flags say: its body does not parse, or the
rename lacks something it needs. -/
def Session.CannotRename (env : Env) (s : Session) (nodeid : UInt64) (body : Bytes) : Prop :=
  ∀ q, Rename2In.fromBytes body = .ok q →
    ∀ pd pd' h₁, ¬s.world.CanRename env nodeid q.old q.newdir q.new pd pd' h₁

/-- A `RENAME2` that cannot be carried out is refused. -/
theorem handle_cannotRename (hh : InHeader.fromBytes request = .ok header)
    (hop : Opcode.ofU32 header.opcode = .rename2)
    (hno : s.CannotRename env header.nodeid (InHeader.body request)) :
    s.Refuses (s.handle env request) := by
  cases hq : Rename2In.fromBytes (InHeader.body request) with
  | error e =>
    have hv2 : RenameIn.fromBytesV2 (InHeader.body request) = .error e := by
      rw [RenameIn.fromBytesV2_eq, hq]
      rfl
    rw [handle_settle hh]
    unfold Session.dispatch
    simp only [hop, hv2]
    exact ⟨⟨_, _, rfl⟩, fun _ => rfl, rfl⟩
  | ok q =>
    obtain ⟨e, he⟩ := World.rename_fails (hno q hq)
    rw [handle_rename2 env s hh hop hq, he]
    exact ⟨⟨_, _, rfl⟩, fun _ => rfl, rfl⟩

/-- Every other one ends as the plain rename does. -/
theorem handle_canRename (hh : InHeader.fromBytes request = .ok header)
    (hop : Opcode.ofU32 header.opcode = .rename2) {q : Rename2In}
    (hq : Rename2In.fromBytes (InHeader.body request) = .ok q) {pd pd' : InodeData} {h₁ : Host}
    (hcan : s.world.CanRename env header.nodeid q.old q.newdir q.new pd pd' h₁) :
    s.handle env request = (some (okReply header.unique []), { s with world :=
      ⟨s.world.inodes.noteRename env.order header.nodeid q.old q.newdir q.new, s.world.handles,
        h₁⟩ }) := by
  rw [handle_rename2 env s hh hop hq, hcan.rename]
  rfl

/-- No success is an error reply. -/
theorem okReply_ne_error (unique unique' : UInt64) (body : Bytes) (e : Errno) :
    okReply unique body ≠ .bytes (OutHeader.errorFor unique' e) := by
  intro heq
  have hfield : errorField (OutHeader.reply unique 0 body) =
      errorField (OutHeader.errorFor unique' e) := congrArg errorField (Reply.bytes.inj heq)
  unfold OutHeader.errorFor at hfield
  rw [OutHeader.reply_errorField, OutHeader.reply_errorField] at hfield
  have hhigh := (errorFor_range e).2
  rw [← hfield] at hhigh
  exact absurd hhigh (by decide)

end Requests

section Flags
variable {h h₁ h' : Host} {base base' fresh : FileKey} {path path' : Name} {flags : UInt32}

/-- Where a plain rename succeeds, `renameat2` gives the same tree exactly for these flags. -/
theorem renameat2_same_iff (hr : h.renameat base path base' path' = .ok ((), h₁)) :
    (∃ h', h.renameat2 base path base' path' flags fresh = .ok ((), h') ∧ Host.SameTree h' h₁) ↔
      (flags = 0 ∨ (flags = RENAME_NOREPLACE ∧ h.named base' path' = none) ∨
        ((flags = RENAME_EXCHANGE ∨ flags = RENAME_WHITEOUT) ∧
          h.named base path = h.named base' path')) := by
  obtain ⟨d, n, d', n', m, hm⟩ := Host.renameat_moves hr
  have hsource := hm.named_source
  have htarget := hm.named_target
  constructor
  · rintro ⟨h', hx, hs⟩
    have hto : h.named base path = h.named base' path' ∨
        (h.entry d' n' ≠ some m ∧ h₁.entry d n = none) := by
      rcases hm.ends with ⟨ht, -⟩ | ⟨hne, hgone, -⟩
      · exact Or.inl (by rw [hsource, htarget, ht])
      · exact Or.inr ⟨hne, hgone⟩
    unfold Host.renameat2 at hx
    split_ifs at hx with h0 hex hwh hnr hsome hno
    · exact Or.inl h0
    · refine Or.inr (Or.inr ⟨Or.inl hex, hto.resolve_right fun ⟨hne, hgone⟩ => ?_⟩)
      exact hm.exchange_entry hne hx ((hs.entry d n).trans hgone)
    · refine Or.inr (Or.inr ⟨Or.inr hwh, hto.resolve_right fun ⟨hne, _⟩ => ?_⟩)
      exact hm.whiteout_differs hr hne hx hs
    · exact Or.inr (Or.inl ⟨hno, Option.not_isSome_iff_eq_none.mp hsome⟩)
    · have hnone := Option.not_isSome_iff_eq_none.mp hsome
      have hne : h.entry d' n' ≠ some m := by
        rw [← htarget, hnone]
        exact nofun
      exact absurd hs (hm.whiteout_differs hr hne hx)
  · have hstay : h.named base path = h.named base' path' → h.entry d' n' = some m := by
      intro heq
      rw [← htarget, ← heq, hsource]
    have hrefl : ∀ h : Host, Host.SameTree h h := fun _ _ => rfl
    rintro (h0 | ⟨hno, hnone⟩ | ⟨hex | hwh, heq⟩)
    · exact ⟨h₁, by rw [h0]; exact hr, hrefl h₁⟩
    · refine ⟨h₁, ?_, hrefl h₁⟩
      subst hno
      show (if (h.named base' path').isSome then _ else h.renameat base path base' path') = _
      rw [hnone]
      exact hr
    · have hsame : h₁ = h := by
        rcases hm.ends with ⟨-, hsame⟩ | ⟨hne, -⟩
        · exact hsame
        · exact absurd (hstay heq) hne
      subst hex
      exact ⟨h, hm.exchange_same (hstay heq), by rw [hsame]; exact hrefl h⟩
    · subst hwh
      exact ⟨h₁, hm.whiteout_same hr (hstay heq), hrefl h₁⟩

end Flags

/-- Where the rename goes through, its outcome is what the flags ask for exactly if they ask for no
more than that. -/
theorem serves_iff_plain {env : Env} {s : Session} {nodeid unique : UInt64} {q : Rename2In}
    {pd pd' : InodeData} {h₁ : Host}
    (hcan : s.world.CanRename env nodeid q.old q.newdir q.new pd pd' h₁) :
    s.Serves env nodeid q (some (okReply unique []), { s with world :=
      ⟨s.world.inodes.noteRename env.order nodeid q.old q.newdir q.new, s.world.handles, h₁⟩ }) ↔
      s.Plain nodeid q := by
  have hr := hcan.host
  constructor
  · intro hserves
    obtain ⟨pd₂, pd₂', h', hp₂, hp₂', hx, hs⟩ := hserves.tree
    rw [hcan.parent] at hp₂
    rw [hcan.newParent] at hp₂'
    cases hp₂
    cases hp₂'
    exact ⟨pd, pd', hcan.parent, hcan.newParent, (renameat2_same_iff hr).mp ⟨h', hx, hs⟩⟩
  · rintro ⟨pd₂, pd₂', hp₂, hp₂', hflags⟩
    rw [hcan.parent] at hp₂
    rw [hcan.newParent] at hp₂'
    cases hp₂
    cases hp₂'
    obtain ⟨h', hx, hs⟩ := (renameat2_same_iff hr).mpr hflags
    refine ⟨⟨unique, rfl⟩, ⟨pd, pd', h', hcan.parent, hcan.newParent, hx, hs⟩, fun hex => ?_⟩
    -- an exchange that is plain is one of a file with itself, and the host stays as it is
    have hsame : s.world.host.named pd.fd.file q.old = s.world.host.named pd'.fd.file q.new := by
      rcases hflags with h0 | ⟨hno, -⟩ | ⟨-, heq⟩
      · rw [hex] at h0
        cases h0
      · rw [hex] at hno
        cases hno
      · exact heq
    obtain ⟨d, n, d', n', m, hm⟩ := Host.renameat_moves hr
    have hhost : h₁ = s.world.host := by
      rcases hm.ends with ⟨-, hstays⟩ | ⟨hne, -⟩
      · exact hstays
      · rw [← hm.named_target, ← hsame, hm.named_source] at hne
        exact absurd rfl hne
    show s.world.Follows ⟨_, _, h₁⟩
    rw [hhost]
    exact World.follows_of_same hcan.parent hcan.newParent hsame

/-- A `RENAME2` that cannot be carried out is refused with nothing changed, and every other one is
answered with success; and a request is refused or does what `renameat2` does for its flags exactly
if it cannot be carried out or its flags ask for no more than a plain rename does. -/
theorem rename2_serves_iff (env : Env) (s : Session) (request : Bytes) (header : InHeader)
    (hheader : InHeader.fromBytes request = .ok header)
    (hop : Opcode.ofU32 header.opcode = .rename2) :
    let out := s.handle env request
    let body := InHeader.body request
    (s.CannotRename env header.nodeid body → s.Refuses out) ∧
    (¬s.CannotRename env header.nodeid body → out.1 = some (okReply header.unique [])) ∧
    ((s.Refuses out ∨ ∃ q, Rename2In.fromBytes body = .ok q ∧ s.Serves env header.nodeid q out) ↔
      (s.CannotRename env header.nodeid body ∨
        ∃ q, Rename2In.fromBytes body = .ok q ∧ s.Plain header.nodeid q)) := by
  intro out body
  by_cases hcannot : s.CannotRename env header.nodeid body
  · have hrefuses : s.Refuses out := handle_cannotRename hheader hop hcannot
    exact ⟨fun _ => hrefuses, fun hcan => absurd hcannot hcan,
      iff_of_true (Or.inl hrefuses) (Or.inl hcannot)⟩
  have hneeds := hcannot
  unfold Session.CannotRename at hneeds
  push Not at hneeds
  obtain ⟨q, hq, pd, pd', h₁, hcan⟩ := hneeds
  have hout : out = _ := handle_canRename hheader hop hq hcan
  have hanswer : out.1 = some (okReply header.unique []) := congrArg Prod.fst hout
  have hserved : ¬s.Refuses out := by
    rintro ⟨⟨unique, e, herror⟩, -⟩
    rw [hanswer] at herror
    exact okReply_ne_error _ _ _ _ (Option.some.inj herror)
  refine ⟨fun h => absurd h hcannot, fun _ => hanswer, ?_⟩
  rw [or_iff_right hserved, or_iff_right hcannot]
  refine exists_congr fun q' => and_congr_right fun hq' => ?_
  rw [hq] at hq'
  cases hq'
  rw [hout]
  exact serves_iff_plain hcan

/-- A session in which the directories `a` and `b` were made in the root. -/
def twoDirs : Session :=
  let one := ((Session.new smallWorld).handle (calm 20 [])
    (encodeRequest 9 1 [0, 0, 0, 0, 0, 0, 0, 0, 97, 0])).2
  (one.handle (calm 21 []) (encodeRequest 9 1 [0, 0, 0, 0, 0, 0, 0, 0, 98, 0])).2

def renameAToB (flags : UInt32) : Bytes :=
  encodeRequest 45 1 (leBytes 8 1 ++ leBytes 4 flags.toNat ++ leBytes 4 0 ++ [97, 0, 98, 0])

/-- A rename without flags is served as it asks. -/
theorem rename2_serves_plain :
    ∃ q, Rename2In.fromBytes (InHeader.body (renameAToB 0)) = .ok q ∧
      twoDirs.Serves (calm 22 [2, 3]) 1 q (twoDirs.handle (calm 22 [2, 3]) (renameAToB 0)) := by
  have hh : InHeader.fromBytes (renameAToB 0) = .ok (InHeader.at (renameAToB 0)) := by
    decide +kernel
  have hq : Rename2In.fromBytes (InHeader.body (renameAToB 0)) = .ok ⟨1, 0, [97], [98]⟩ := by
    decide +kernel
  have hroot : (twoDirs.world.inodes.byId 1).isSome = true := by decide +kernel
  obtain ⟨pd, hpd⟩ := Option.isSome_iff_exists.mp hroot
  have hanswer : (twoDirs.handle (calm 22 [2, 3]) (renameAToB 0)).1 = some (okReply 1 []) := by
    decide +kernel
  have hserved := (rename2_serves_iff (calm 22 [2, 3]) twoDirs (renameAToB 0) _ hh
    (by decide +kernel)).2.2.mpr (Or.inr ⟨_, hq, pd, pd, hpd, hpd, Or.inl rfl⟩)
  refine hserved.resolve_left ?_
  rintro ⟨⟨unique, e, herror⟩, -⟩
  rw [hanswer] at herror
  exact okReply_ne_error _ _ _ _ (Option.some.inj herror)

/-- With `RENAME_NOREPLACE` the existing `b` is replaced and gone, and with `RENAME_EXCHANGE` it is
too instead of being found under `a`. -/
theorem rename2_destroys_target :
    let tree := fun s : Session => (s.world.host.entry ⟨1, 10⟩ [97],
      s.world.host.entry ⟨1, 10⟩ [98], s.world.host.linkCount ⟨1, 21⟩)
    let noreplace := twoDirs.handle (calm 22 [2, 3]) (renameAToB RENAME_NOREPLACE)
    let exchange := twoDirs.handle (calm 22 [2, 3]) (renameAToB RENAME_EXCHANGE)
    tree twoDirs = (some ⟨1, 20⟩, some ⟨1, 21⟩, 1) ∧
    noreplace.1 = some (okReply 1 []) ∧ tree noreplace.2 = (none, some ⟨1, 20⟩, 0) ∧
    exchange.1 = some (okReply 1 []) ∧ tree exchange.2 = (none, some ⟨1, 20⟩, 0) ∧
    ¬(twoDirs.Refuses noreplace ∨
      ∃ q, Rename2In.fromBytes (InHeader.body (renameAToB RENAME_NOREPLACE)) = .ok q ∧
        twoDirs.Serves (calm 22 [2, 3]) 1 q noreplace) := by
  intro tree noreplace exchange
  have hbefore : tree twoDirs = (some ⟨1, 20⟩, some ⟨1, 21⟩, 1) := by decide +kernel
  have hafter : tree noreplace.2 = (none, some ⟨1, 20⟩, 0) := by decide +kernel
  refine ⟨hbefore, by decide +kernel, hafter, by decide +kernel, by decide +kernel, ?_⟩
  rintro (⟨-, htree, -⟩ | ⟨q, hq, hserves⟩)
  · have hthere : twoDirs.world.host.entry ⟨1, 10⟩ [97] = some ⟨1, 20⟩ :=
      (Prod.ext_iff.mp hbefore).1
    have hgone : noreplace.2.world.host.entry ⟨1, 10⟩ [97] = none := (Prod.ext_iff.mp hafter).1
    have hsame := htree.entry ⟨1, 10⟩ [97]
    rw [hthere, hgone] at hsame
    cases hsame
  · have hq' : Rename2In.fromBytes (InHeader.body (renameAToB RENAME_NOREPLACE)) =
        .ok ⟨1, RENAME_NOREPLACE, [97], [98]⟩ := by decide +kernel
    rw [hq'] at hq
    cases hq
    obtain ⟨pd, pd', h', hp, hp', hx, -⟩ := hserves.tree
    have hfile : (twoDirs.world.inodes.byId 1).map (fun d => d.fd.file) = some ⟨1, 10⟩ := by
      decide +kernel
    have hno : (twoDirs.world.host.renameat2 ⟨1, 10⟩ [97] ⟨1, 10⟩ [98] RENAME_NOREPLACE
        (calm 22 [2, 3]).fresh).isOk = false := by decide +kernel
    have hpd : pd.fd.file = ⟨1, 10⟩ := by
      rw [hp] at hfile
      exact Option.some.inj hfile
    have hpd' : pd'.fd.file = ⟨1, 10⟩ := by
      rw [hp'] at hfile
      exact Option.some.inj hfile
    rw [hpd, hpd'] at hx
    rw [hx] at hno
    cases hno

end Riftlessfs.Fuse
