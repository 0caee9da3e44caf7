import Riftlessfs.Fuse.SessionRuns

/-! What requests do to the cached listings and to the positions of the directory streams. -/
namespace Riftlessfs.Fuse
open Riftlessfs.Core Riftlessfs.Proto Lib.Effect Lib.Run

def dirFrame : Frame (Option Reply) Session where
  pre _ := True
  rel s s' := s'.readdirCache = s.readdirCache ∧ s'.streams = s.streams
  err _ := True
  refl _ := ⟨rfl, rfl⟩
  trans h h' := ⟨h'.1.trans h.1, h'.2.trans h.2⟩
  stable _ _ := trivial

section Plain
variable {α : Type} {unique : UInt64} {k : α → HandleM Reply}

theorem keeps_tryFs (m : FsM α) (hk : ∀ a, Keeps dirFrame (k a)) :
    Keeps dirFrame (tryFs unique m >>= k) := by
  apply keeps_bind _ hk
  intro s _
  unfold KeepsAt tryFs
  cases m s.world with
  | ok a w => exact ⟨⟨rfl, rfl⟩, fun _ _ _ => trivial⟩
  | error e w =>
    cases e with
    | fail e => exact ⟨⟨rfl, rfl⟩, fun _ _ _ => trivial⟩
    | panic => exact ⟨⟨rfl, rfl⟩, fun _ _ _ => trivial⟩

theorem keeps_tryParse (x : Except ProtoError α) (hk : ∀ a, Keeps dirFrame (k a)) :
    Keeps dirFrame (tryParse unique x >>= k) := by
  apply keeps_bind _ hk
  intro s _
  cases x with
  | ok a => exact ⟨⟨rfl, rfl⟩, fun _ _ _ => trivial⟩
  | error e => exact ⟨⟨rfl, rfl⟩, fun _ _ _ => trivial⟩

end Plain

def Opcode.onDirs : Opcode → Bool
  | .opendir | .readdir | .releasedir => true
  | _ => false

/-- Other requests touch neither listings nor streams. -/
theorem dispatch_plain (env : Env) (header : InHeader) (body : Bytes)
    (hop : (Opcode.ofU32 header.opcode).onDirs = false) :
    Keeps dirFrame (Session.dispatch env header body) := by
  unfold Session.dispatch
  have hpure : ∀ r : Reply, Keeps dirFrame (pure r) := fun r => keeps_pure r
  cases h : Opcode.ofU32 header.opcode with
  | opendir | readdir | releasedir =>
    rw [h] at hop
    cases hop
  | init | flush | access => exact keeps_tryParse _ fun _ => hpure _
  | destroy | fsyncdir | getxattr | listxattr | setxattr | removexattr | unknown => exact hpure _
  | lookup | readlink | unlink | rmdir | statfs => exact keeps_tryFs _ fun _ => hpure _
  | symlink =>
    cases splitTwoCstrs body with
    | none => exact hpure _
    | some q => exact keeps_tryFs _ fun _ => hpure _
  | _ => exact keeps_tryParse _ fun _ => keeps_tryFs _ fun _ => hpure _

def pageOf (fh : UInt64) (request : Bytes) : Option ReadIn :=
  match InHeader.fromBytes request with
  | .error _ => none
  | .ok header =>
    if Opcode.ofU32 header.opcode = .readdir then
      match ReadIn.fromBytes (InHeader.body request) with
      | .error _ => none
      | .ok r => if r.fh = fh then some r else none
    else none

def releases (fh : UInt64) (request : Bytes) : Bool :=
  match InHeader.fromBytes request with
  | .error _ => false
  | .ok header =>
    if Opcode.ofU32 header.opcode = .releasedir then
      match ReleaseIn.fromBytes (InHeader.body request) with
      | .error _ => false
      | .ok fh' => fh' = fh
    else false

/-- What a request can do to listings and streams. -/
inductive DirMove (request : Bytes) (s s' : Session) : Prop where
  | plain (hcache : s'.readdirCache = s.readdirCache) (hstreams : s'.streams = s.streams)
  | opened (nodeid handle : UInt64) (hcache : s'.readdirCache = s.readdirCache)
      (hstreams : s'.streams = s.streams.opened nodeid handle)
  | listed (fh : UInt64) (r : ReadIn) (hpage : pageOf fh request = some r)
      (hcache : ∀ fh', fh' ≠ fh → s'.readdirCache fh' = s.readdirCache fh')
      (hstreams : s'.streams = (s.dropIter fh).streams)
  | released (fh : UInt64) (hreleases : releases fh request = true)
      (hcache : s'.readdirCache = Function.update s.readdirCache fh none)
      (hstreams : s'.streams = s.streams)

section Moves
variable {α : Type} {unique : UInt64} {env : Env} {s : Session} {request : Bytes}

theorem tryFs_final (unique : UInt64) (m : FsM α) (s : Session) :
    (final (tryFs unique m s)).readdirCache = s.readdirCache ∧
      (final (tryFs unique m s)).streams = s.streams := by
  unfold tryFs
  cases m s.world with
  | ok a w => exact ⟨rfl, rfl⟩
  | error e w =>
    cases e with
    | fail e => exact ⟨rfl, rfl⟩
    | panic => exact ⟨rfl, rfl⟩

theorem settle_snd (x : EStateM.Result (Option Reply) Session Reply) : (settle x).2 = final x := by
  cases x with
  | ok r s => rfl
  | error r s => rfl

private theorem dropIter_cache (s : Session) (fh : UInt64) :
    (s.dropIter fh).readdirCache = s.readdirCache := by
  unfold Session.dropIter
  cases s.world.handles.withDir fh with
  | ok fd => rfl
  | error e => rfl

theorem readdirEntries_cached {r : ReadIn} {l : List DirEntry} (hoffset : r.offset ≠ 0)
    (hcache : s.readdirCache r.fh = some l) : readdirEntries env unique r s = .ok l s := by
  unfold readdirEntries
  rw [if_neg, hcache]
  · rfl
  · rintro (h | h)
    · exact hoffset h
    · rw [hcache] at h
      cases h

theorem readdirEntries_listed {r : ReadIn} {l : List DirEntry} {s₁ : Session}
    (h : r.offset = 0 ∨ s.readdirCache r.fh = none)
    (hread : readdirStream env unique r.fh s = .ok l s₁) : readdirEntries env unique r s =
      .ok l { s₁ with readdirCache := Function.update s₁.readdirCache r.fh (some l) } := by
  unfold readdirEntries
  rw [if_pos h]
  exact bind_of_ok hread

theorem readdirEntries_failed {r : ReadIn} {e : Option Reply} {s₁ : Session}
    (h : r.offset = 0 ∨ s.readdirCache r.fh = none)
    (hread : readdirStream env unique r.fh s = .error e s₁) :
    readdirEntries env unique r s = .error e s₁ := by
  unfold readdirEntries
  rw [if_pos h]
  exact bind_of_error hread

/-- Taking a listing touches the cache of its handle and rewinds its stream. -/
theorem readdirEntries_final (env : Env) (unique : UInt64) (r : ReadIn) (s : Session) :
    final (readdirEntries env unique r s) = s ∨
      (∀ fh', fh' ≠ r.fh →
        (final (readdirEntries env unique r s)).readdirCache fh' = s.readdirCache fh') ∧
      (final (readdirEntries env unique r s)).streams = (s.dropIter r.fh).streams := by
  by_cases hfresh : r.offset = 0 ∨ s.readdirCache r.fh = none
  · right
    obtain ⟨hcache, hstreams⟩ := tryFs_final unique
      (PassthroughFs.readdir env (s.streams.stands r.fh) r.fh) (s.dropIter r.fh)
    rw [dropIter_cache] at hcache
    cases hread : readdirStream env unique r.fh s with
    | ok l s₁ =>
      have htry : tryFs unique (PassthroughFs.readdir env (s.streams.stands r.fh) r.fh)
          (s.dropIter r.fh) = .ok l s₁ := hread
      rw [htry] at hcache hstreams
      rw [readdirEntries_listed hfresh hread]
      constructor
      · intro fh' hne
        show Function.update s₁.readdirCache r.fh (some l) fh' = _
        rw [Function.update_of_ne hne]
        exact congrFun hcache fh'
      · exact hstreams
    | error e s₁ =>
      have htry : tryFs unique (PassthroughFs.readdir env (s.streams.stands r.fh) r.fh)
          (s.dropIter r.fh) = .error e s₁ := hread
      rw [htry] at hcache hstreams
      rw [readdirEntries_failed hfresh hread]
      exact ⟨fun fh' _ => congrFun hcache fh', hstreams⟩
  · left
    unfold readdirEntries
    rw [if_neg hfresh]
    rfl

private theorem opendir_final (env : Env) (unique nodeid : UInt64) (s : Session) :
    DirMove request s (final ((do
      let handle ← tryFs unique (PassthroughFs.opendir env nodeid)
      fun s => .ok () { s with streams := s.streams.opened nodeid handle }
      pure (okReply unique (openOut handle)) : HandleM Reply) s)) := by
  obtain ⟨hcache, hstreams⟩ := tryFs_final unique (PassthroughFs.opendir env nodeid) s
  cases htry : tryFs unique (PassthroughFs.opendir env nodeid) s with
  | ok handle s₁ =>
    rw [htry] at hcache hstreams
    rw [bind_of_ok htry]
    have hopened : s₁.streams.opened nodeid handle = s.streams.opened nodeid handle :=
      congrArg (fun t => Streams.opened t nodeid handle) hstreams
    show DirMove request s { s₁ with streams := s₁.streams.opened nodeid handle }
    exact .opened nodeid handle hcache hopened
  | error e s₁ =>
    rw [htry] at hcache hstreams
    rw [bind_of_error htry]
    exact .plain hcache hstreams

theorem handle_dirMove (env : Env) (s : Session) (request : Bytes) :
    DirMove request s (Session.handle env s request).2 := by
  cases hh : InHeader.fromBytes request with
  | error e =>
    have heq : Session.handle env s request = (some .none, s) := by
      unfold Session.handle
      rw [hh]
    rw [heq]
    exact .plain rfl rfl
  | ok header =>
    rw [handle_settle hh, settle_snd]
    cases hop : (Opcode.ofU32 header.opcode).onDirs with
    | false =>
      obtain ⟨⟨hcache, hstreams⟩, -⟩ := dispatch_plain env header (InHeader.body request) hop s trivial
      exact .plain hcache hstreams
    | true =>
      unfold Session.dispatch
      cases hcode : Opcode.ofU32 header.opcode with
      | opendir =>
        cases OpenIn.fromBytes (InHeader.body request) with
        | error e => exact .plain rfl rfl
        | ok o => exact opendir_final env header.unique header.nodeid s
      | readdir =>
        cases hr : ReadIn.fromBytes (InHeader.body request) with
        | error e => exact .plain rfl rfl
        | ok r =>
          have hpage : pageOf r.fh request = some r := by
            unfold pageOf
            simp only [hh, hcode, hr, if_true]
          have hsame := final_bind_pure (readdirEntries env header.unique r) (fun entries =>
            okReply header.unique (fillDirents r.size.toNat r.offset.toNat
              (entries.drop r.offset.toNat) [])) s
          show DirMove request s (final ((readdirEntries env header.unique r >>= fun entries =>
            pure (okReply header.unique (fillDirents r.size.toNat r.offset.toNat
              (entries.drop r.offset.toNat) []))) s))
          rw [hsame]
          rcases readdirEntries_final env header.unique r s with hquiet | ⟨hcache, hstreams⟩
          · rw [hquiet]
            exact .plain rfl rfl
          · exact .listed r.fh r hpage hcache hstreams
      | releasedir =>
        cases hr : ReleaseIn.fromBytes (InHeader.body request) with
        | error e => exact .plain rfl rfl
        | ok fh =>
          have hreleases : releases fh request = true := by
            unfold releases
            simp only [hh, hcode, hr, if_true, decide_true]
          obtain ⟨hcache, hstreams⟩ := tryFs_final header.unique (PassthroughFs.releasedir fh)
            { s with readdirCache := Function.update s.readdirCache fh none }
          have hsame := final_bind_pure (tryFs header.unique (PassthroughFs.releasedir fh))
            (fun _ => okReply header.unique [])
            { s with readdirCache := Function.update s.readdirCache fh none }
          rw [← hsame] at hcache hstreams
          exact .released fh hreleases hcache hstreams
      | _ =>
        rw [hcode] at hop
        cases hop

end Moves

def Session.Rewound (s : Session) : Prop := ∀ d, s.streams.pos d = 0

section Kept
variable {env : Env} {s : Session} {fh : UInt64} {request : Bytes}

theorem Session.Rewound.opened (h : s.Rewound) (nodeid handle : UInt64) (d : Description) :
    (s.streams.opened nodeid handle).pos d = 0 := by
  unfold Streams.opened
  split_ifs
  · exact h d
  · by_cases hd : d = .own handle
    · subst hd
      exact Function.update_self ..
    · exact (Function.update_of_ne hd ..).trans (h d)

theorem Session.Rewound.dropIter (h : s.Rewound) (fh : UInt64) : (s.dropIter fh).Rewound := by
  intro d
  unfold Session.dropIter
  cases s.world.handles.withDir fh with
  | error e => exact h d
  | ok fd =>
    by_cases hd : d = s.streams.desc fh
    · subst hd
      exact Function.update_self ..
    · exact (Function.update_of_ne hd ..).trans (h d)

/-- Every request leaves the streams rewound. -/
theorem handle_rewound (h : s.Rewound) (env : Env) (request : Bytes) :
    (Session.handle env s request).2.Rewound := by
  intro d
  cases handle_dirMove env s request with
  | plain hcache hstreams =>
    rw [hstreams]
    exact h d
  | opened nodeid handle hcache hstreams =>
    rw [hstreams]
    exact h.opened nodeid handle d
  | listed fh r hpage hcache hstreams =>
    rw [hstreams]
    exact h.dropIter fh d
  | released fh hreleases hcache hstreams =>
    rw [hstreams]
    exact h d

/-- The streams are rewound in every session that requests lead to. -/
theorem run_rewound {w : World} {xs : List Input}
    (hrun : run Session.step (Session.new w) xs = some s) : s.Rewound := by
  refine run_induction (P := fun _ s => s.Rewound) (fun _ => rfl) ?_ hrun
  intro xs x s₁ s₂ _ h hstep
  have hnext := handle_rewound h x.1 x.2
  unfold Session.step at hstep
  split at hstep
  · rename_i reply s' heq
    rw [heq] at hnext
    cases hstep
    exact hnext
  · cases hstep

/-- The listing of a handle stays cached through requests that neither read nor release it. -/
theorem handle_cache (env : Env) (s : Session) (hpage : pageOf fh request = none) (hrel : releases fh request = false) :
    (Session.handle env s request).2.readdirCache fh = s.readdirCache fh := by
  cases handle_dirMove env s request with
  | plain hcache hstreams => rw [hcache]
  | opened nodeid handle hcache hstreams => rw [hcache]
  | listed fh' r hpage' hcache hstreams =>
    apply hcache
    intro heq
    subst heq
    rw [hpage] at hpage'
    cases hpage'
  | released fh' hreleases hcache hstreams =>
    rw [hcache]
    apply Function.update_of_ne
    intro heq
    subst heq
    rw [hrel] at hreleases
    cases hreleases

end Kept

end Riftlessfs.Fuse
