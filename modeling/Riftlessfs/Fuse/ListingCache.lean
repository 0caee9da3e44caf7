import Riftlessfs.Core.HandleMoves
import Riftlessfs.Fuse.DirPaging
import Riftlessfs.Fuse.LookupCounts

/-! Which handles have a cached listing: open directory handles, as long as none that has one is
closed by a `RELEASE`. -/
namespace Riftlessfs.Fuse
open Riftlessfs.Core Riftlessfs.Proto Lib.Effect Lib.Run

def releaseOf (request : Bytes) : Option UInt64 :=
  match InHeader.fromBytes request with
  | .error _ => none
  | .ok header =>
    if Opcode.ofU32 header.opcode = .release then
      match ReleaseIn.fromBytes (InHeader.body request) with
      | .error _ => none
      | .ok fh => some fh
    else none

/-- Cached listings are those of open directory handles. Then no page comes from the listing of a
handle that is closed, and there are no more listings than open directory handles. -/
structure Session.ListsOpen (s : Session) : Prop where
  opened : ∀ fh, (s.readdirCache fh).isSome → s.world.handles.HasDir fh
  refused : ∀ env request fh r, pageOf fh request = some r → ¬ s.world.handles.HasDir fh →
    ∃ unique e, (s.handle env request).1 = some (errnoReply unique e)
  few : {fh | (s.readdirCache fh).isSome}.ncard ≤ {fh | s.world.handles.HasDir fh}.ncard

/-- The request is no `RELEASE` of a handle that has a listing. -/
def Session.SparesListed (s : Session) (x : Input) : Prop :=
  match releaseOf x.2 with
  | some fh => (s.readdirCache fh).isSome = false
  | none => True

instance (s : Session) (x : Input) : Decidable (s.SparesListed x) :=
  match h : releaseOf x.2 with
  | some fh => decidable_of_iff ((s.readdirCache fh).isSome = false)
      (by unfold Session.SparesListed; rw [h])
  | none => .isTrue (by unfold Session.SparesListed; rw [h]; trivial)

section Requests
variable {env : Env} {s : Session} {request : Bytes} {fh : UInt64} {r : ReadIn} {now : Time}

theorem handle_handles (env : Env) (s : Session) (request : Bytes) :
    HandleEffect s.world.handles (s.handle env request).2.world.handles
      (requestCall env.now request) := by
  have hrun := Call.run_handles env (requestCall env.now request) s.world
  have hperf := handle_performs env s request
  cases hr : (requestCall env.now request).run env s.world with
  | ok a w =>
    rw [hr] at hrun hperf
    obtain ⟨b, -, hw, -⟩ := hperf
    rw [hw]
    exact hrun
  | error e w =>
    rw [hr] at hrun hperf
    cases e with
    | fail e =>
      obtain ⟨b, -, hw, -⟩ := hperf
      rw [hw]
      exact hrun
    | panic =>
      rw [hperf.2]
      exact hrun

/-- Without an open directory and without a listing, a `READDIR` is refused and changes nothing. -/
theorem handle_unlisted (env : Env) (hpage : pageOf fh request = some r)
    (hclosed : ¬ s.world.handles.HasDir fh) (hcache : s.readdirCache fh = none) :
    ∃ unique e, s.handle env request = (some (errnoReply unique e), s) := by
  obtain ⟨rfl, header, hh, hop, hr⟩ := pageOf_some hpage
  cases hdir : s.world.handles.withDir r.fh with
  | ok fd => exact absurd (HandleStore.hasDir_iff.mpr ⟨fd, hdir⟩) hclosed
  | error e =>
    have hiter : s.dropIter r.fh = s := by
      unfold Session.dropIter
      rw [hdir]
    have hread : ∀ pos, PassthroughFs.readdir env pos r.fh s.world =
        .error (.fail e) s.world := by
      intro pos
      have hfd : PassthroughFs.dirFd r.fh s.world = .error (.fail e) s.world := by
        unfold PassthroughFs.dirFd Core.liftExcept
        rw [hdir]
      exact bind_of_error hfd
    have hstream : readdirStream env header.unique r.fh s =
        .error (some (errnoReply header.unique e)) s := by
      unfold readdirStream tryFs
      rw [hiter, hread]
    have hentries := readdirEntries_failed (Or.inr hcache) hstream
    refine ⟨header.unique, e, ?_⟩
    rw [handle_settle hh]
    unfold Session.dispatch
    simp only [hop, hr]
    show settle ((readdirEntries env header.unique r >>= _) s) = _
    rw [bind_of_error hentries]
    rfl

/-- A handle with a listing had one before, or is an open directory. -/
theorem handle_listed (env : Env) (s : Session)
    (h : ((s.handle env request).2.readdirCache fh).isSome) :
    (s.readdirCache fh).isSome ∨ s.world.handles.HasDir fh := by
  by_cases hdir : s.world.handles.HasDir fh
  · exact Or.inr hdir
  left
  cases handle_dirMove env s request with
  | plain hcache _ => rwa [hcache] at h
  | opened _ _ hcache _ => rwa [hcache] at h
  | listed fh' r hpage hcache _ =>
    by_cases hfh : fh = fh'
    · subst hfh
      cases hold : s.readdirCache fh with
      | some l => rfl
      | none =>
        obtain ⟨unique, e, heq⟩ := handle_unlisted env hpage hdir hold
        rw [heq, hold] at h
        cases h
    · rwa [hcache fh hfh] at h
  | released fh' _ hcache _ =>
    rw [hcache] at h
    by_cases hfh : fh = fh'
    · subst hfh
      simp at h
    · rwa [Function.update_of_ne hfh] at h

def Call.isRelease : Call → Bool
  | .release _ => true
  | _ => false

private theorem parsed_isRelease {α : Type} {x : Except ProtoError α} {f : α → Call}
    (hf : ∀ a, Call.isRelease (f a) = false) : Call.isRelease (parsed x f) = false := by
  cases x with
  | ok a => exact hf a
  | error e => rfl

/-- Only `RELEASE` and `RELEASEDIR` release handles. -/
theorem callOf_isRelease (header : InHeader) (body : Bytes)
    (h₁ : Opcode.ofU32 header.opcode ≠ .release) (h₂ : Opcode.ofU32 header.opcode ≠ .releasedir) :
    Call.isRelease (callOf now header body) = false := by
  unfold callOf
  cases hop : Opcode.ofU32 header.opcode with
  | release => exact absurd hop h₁
  | releasedir => exact absurd hop h₂
  | symlink => cases splitTwoCstrs body <;> rfl
  | lookup | readlink | unlink | rmdir | statfs | init | destroy | flush | access | fsyncdir
  | getxattr | listxattr | setxattr | removexattr | unknown | readdir => rfl
  | _ => exact parsed_isRelease fun _ => rfl

theorem requestCall_release (h : requestCall now request = .release fh) :
    releaseOf request = some fh ∨ releases fh request = true := by
  unfold requestCall at h
  cases hh : InHeader.fromBytes request with
  | error e =>
    rw [hh] at h
    cases h
  | ok header =>
    rw [hh] at h
    by_cases h₁ : Opcode.ofU32 header.opcode = .release
    · left
      unfold releaseOf
      unfold callOf at h
      simp only [h₁] at h
      simp only [hh, h₁, if_true]
      cases hr : ReleaseIn.fromBytes (InHeader.body request) with
      | error e =>
        rw [hr] at h
        cases h
      | ok fh' =>
        rw [hr] at h
        cases h
        rfl
    by_cases h₂ : Opcode.ofU32 header.opcode = .releasedir
    · right
      unfold releases
      unfold callOf at h
      simp only [h₂] at h
      simp only [hh, h₂, if_true]
      cases hr : ReleaseIn.fromBytes (InHeader.body request) with
      | error e =>
        rw [hr] at h
        cases h
      | ok fh' =>
        rw [hr] at h
        cases h
        exact decide_eq_true rfl
    · have hno : Call.isRelease (callOf now header (InHeader.body request)) = false :=
        callOf_isRelease header (InHeader.body request) h₁ h₂
      have hyes : Call.isRelease (callOf now header (InHeader.body request)) = true := by
        rw [show callOf now header (InHeader.body request) = .release fh from h]
        rfl
      rw [hyes] at hno
      cases hno

private theorem releaseOf_some (h : releaseOf request = some fh) : ∃ header,
    InHeader.fromBytes request = .ok header ∧ Opcode.ofU32 header.opcode = .release ∧
      ReleaseIn.fromBytes (InHeader.body request) = .ok fh := by
  unfold releaseOf at h
  cases hh : InHeader.fromBytes request with
  | error e =>
    rw [hh] at h
    cases h
  | ok header =>
    rw [hh] at h
    dsimp only at h
    split_ifs at h with hop
    cases hr : ReleaseIn.fromBytes (InHeader.body request) with
    | error e =>
      rw [hr] at h
      cases h
    | ok fh' =>
      rw [hr] at h
      cases h
      exact ⟨header, rfl, hop, rfl⟩

/-- A `RELEASE` closes its handle and leaves the listings. -/
theorem handle_release (env : Env) (s : Session) (h : releaseOf request = some fh) :
    (s.handle env request).2.readdirCache = s.readdirCache ∧
      ¬ (s.handle env request).2.world.handles.HasDir fh := by
  obtain ⟨header, hh, hop, hr⟩ := releaseOf_some h
  constructor
  · have hplain := dispatch_plain env header (InHeader.body request) (by rw [hop]; rfl) s trivial
    rw [handle_settle hh, settle_snd]
    exact hplain.1.1
  · have heff := handle_handles env s request
    have hcall : requestCall env.now request = .release fh := by
      unfold requestCall
      rw [hh]
      unfold callOf
      simp only [hop, hr]
      rfl
    rw [hcall] at heff
    exact heff.released

/-- A `RELEASEDIR` drops the listing of its handle. -/
theorem handle_releasedir (env : Env) (s : Session) (h : releases fh request = true) :
    (s.handle env request).2.readdirCache fh = none := by
  unfold releases at h
  cases hh : InHeader.fromBytes request with
  | error e =>
    rw [hh] at h
    cases h
  | ok header =>
    rw [hh] at h
    dsimp only at h
    split_ifs at h with hop
    cases hr : ReleaseIn.fromBytes (InHeader.body request) with
    | error e =>
      rw [hr] at h
      cases h
    | ok fh' =>
      rw [hr] at h
      have hfh : fh' = fh := of_decide_eq_true h
      subst hfh
      have hsame := final_bind_pure (tryFs header.unique (PassthroughFs.releasedir fh'))
        (fun _ => okReply header.unique [])
        { s with readdirCache := Function.update s.readdirCache fh' none }
      have hcache := (tryFs_final header.unique (PassthroughFs.releasedir fh')
        { s with readdirCache := Function.update s.readdirCache fh' none }).1
      rw [← hsame] at hcache
      rw [handle_settle hh, settle_snd]
      unfold Session.dispatch
      simp only [hop, hr]
      exact (congrFun hcache fh').trans (Function.update_self _ _ _)

end Requests

section Runs
variable {s : Session} {x : Input} {xs : List Input} {n : ℕ}

/-- The inclusion is all there is to show. -/
theorem Session.ListsOpen.of_opened
    (h : ∀ fh, (s.readdirCache fh).isSome → s.world.handles.HasDir fh) : s.ListsOpen := by
  have hfinite : Finite UInt64 := Finite.of_injective UInt64.toFin fun _ _ => UInt64.toFin_inj.mp
  refine ⟨h, fun env request fh r hpage hclosed => ?_, Set.ncard_le_ncard h (Set.toFinite _)⟩
  have hcache : s.readdirCache fh = none := by
    cases hold : s.readdirCache fh with
    | none => rfl
    | some l => exact absurd (h fh (by rw [hold]; rfl)) hclosed
  obtain ⟨unique, e, heq⟩ := handle_unlisted env hpage hclosed hcache
  exact ⟨unique, e, by rw [heq]⟩

/-- The session after `n` requests, with `xs` still to come. -/
structure Session.Listing (xs : List Input) (s : Session) (n : ℕ) : Prop where
  inv : s.world.inodes.Inv
  bounded : s.world.inodes.Bounded n
  below : s.world.handles.Below
  next : s.world.handles.nextId.toNat ≤ n + 1
  lists : s.ListsOpen
  room : n + xs.length + 3 < 2 ^ 64

/-- A request keeps the listings to open directories exactly if it is no `RELEASE` of a listed
handle. -/
theorem Session.ListsOpen.handle_iff (hl : s.ListsOpen) (hb : s.world.handles.Below)
    (env : Env) (request : Bytes) :
    (s.handle env request).2.ListsOpen ↔ s.SparesListed (env, request) := by
  have heff := handle_handles env s request
  unfold Session.SparesListed
  cases hrel : releaseOf request with
  | some fh =>
    obtain ⟨hcache, hgone⟩ := handle_release env s hrel
    show _ ↔ (s.readdirCache fh).isSome = false
    constructor
    · intro hl'
      cases hold : (s.readdirCache fh).isSome with
      | false => rfl
      | true => exact absurd (hl'.opened fh (by rwa [hcache])) hgone
    · intro hno
      refine .of_opened fun fh' hlisted => ?_
      rw [hcache] at hlisted
      refine heff.hasDir hb (fun hc => ?_) (hl.opened fh' hlisted)
      -- the only handle the request releases is the unlisted one
      rcases requestCall_release hc with h | h
      · rw [hrel] at h
        cases h
        rw [hlisted] at hno
        cases hno
      · have hcleared := handle_releasedir env s h
        rw [hcache] at hcleared
        rw [hcleared] at hlisted
        cases hlisted
  | none =>
    refine iff_of_true (.of_opened fun fh hlisted => ?_) trivial
    have hdir : s.world.handles.HasDir fh := (handle_listed env s hlisted).elim (hl.opened fh) id
    refine heff.hasDir hb (fun hc => ?_) hdir
    rcases requestCall_release hc with h | h
    · rw [hrel] at h
      cases h
    · rw [handle_releasedir env s h] at hlisted
      cases hlisted

theorem Session.Listing.step (hs : Session.Listing (x :: xs) s n) :
    ∃ s', s.step x = some s' ∧ (s'.ListsOpen ↔ s.SparesListed x) ∧
      (s'.ListsOpen → Session.Listing xs s' (n + 1)) := by
  have hroom := hs.room
  rw [List.length_cons] at hroom
  have hnext := hs.next
  obtain ⟨reply, s', hh, htable⟩ := handle_table x.1 s x.2 hs.inv
  have hiff := hs.lists.handle_iff hs.below x.1 x.2
  have heff := handle_handles x.1 s x.2
  obtain ⟨hbelow, hnext'⟩ := heff.below hs.below (by omega)
  rw [hh] at hiff hbelow hnext'
  have hstep : s.step x = some s' := by
    unfold Session.step
    rw [hh]
  have hinv : s'.world.inodes.Inv ∧ s'.world.inodes.Bounded (n + 1) := by
    rcases htable with ⟨-, hsame, -⟩ | heffect
    · rw [hsame]
      exact ⟨hs.inv, hs.bounded.mono (Nat.le_succ n)⟩
    · exact tableEffect_inv heffect hs.inv hs.bounded (by omega)
  have hnext₂ : s'.world.handles.nextId.toNat ≤ s.world.handles.nextId.toNat + 1 := hnext'
  exact ⟨s', hstep, hiff, fun hl => ⟨hinv.1, hinv.2, hbelow, by omega, hl, by omega⟩⟩

/-- At every point of a run the cached listings are those of open directory handles, exactly when
no `RELEASE` in it names a handle that has a listing. -/
theorem listings_open_iff {host : Host} {root : FileKey} {w : World}
    (hnew : PassthroughFs.new host root = some w) (xs : List Input)
    (hlen : xs.length + 3 < 2 ^ 64) :
    (∀ ys, ys <+: xs → ∃ s, run Session.step (.new w) ys = some s ∧ s.ListsOpen) ↔
      Along Session.step Session.SparesListed (.new w) xs := by
  obtain ⟨hi, hb, -⟩ := start_inv hnew
  have hhandles : w.handles = HandleStore.new := by
    unfold PassthroughFs.new at hnew
    split at hnew
    · cases hnew
      rfl
    · cases hnew
  have hstart : Session.Listing xs (.new w) 0 := by
    refine ⟨hi, hb, ?_, ?_, .of_opened fun fh h => (by cases h), by omega⟩
    · show w.handles.Below
      rw [hhandles]
      exact HandleStore.new_below
    · show w.handles.nextId.toNat ≤ 0 + 1
      rw [hhandles]
      decide
  refine prefixes_iff_along (J := fun xs s => ∃ n, Session.Listing xs s n)
    (fun _ _ ⟨_, hs⟩ => hs.lists) ?_ ⟨0, hstart⟩
  rintro x xs s ⟨n, hs⟩
  obtain ⟨s', hstep, hiff, hnext⟩ := hs.step
  exact ⟨s', hstep, hiff, fun hl => ⟨n + 1, hnext hl⟩⟩

/-- Two directories are made, then the root is opened and read from the start. -/
def listedRun : List Input :=
  [(calm 20 [], encodeRequest 9 1 [0, 0, 0, 0, 0, 0, 0, 0, 97, 0]),
   (calm 21 [], encodeRequest 9 1 [0, 0, 0, 0, 0, 0, 0, 0, 98, 0]),
   (calm 20 [], encodeRequest 27 1 [0, 0, 0, 0, 0, 0, 0, 0]),
   (calm 20 [], encodeRequest 28 1 [1, 0, 0, 0, 0, 0, 0, 0, 0, 0, 0, 0, 0, 0, 0, 0, 0, 1, 0, 0])]

def releaseOne : Input := (calm 20 [], encodeRequest 18 1 [1, 0, 0, 0, 0, 0, 0, 0,
  0, 0, 0, 0, 0, 0, 0, 0, 0, 0, 0, 0, 0, 0, 0, 0])

def nextPage : Input := (calm 20 [], encodeRequest 28 1 [1, 0, 0, 0, 0, 0, 0, 0,
  1, 0, 0, 0, 0, 0, 0, 0, 0, 1, 0, 0])

theorem listings_open_read : listedRun.length = 4 ∧ ∀ ys, ys <+: listedRun →
    ∃ s, run Session.step (.new smallWorld) ys = some s ∧ s.ListsOpen :=
  ⟨rfl, (listings_open_iff smallWorld_new listedRun (by decide)).mpr (by decide +kernel)⟩

/-- After the `RELEASE` the handle is closed, its listing is still there, and the next page is
answered from it with its second entry. -/
theorem released_listing_answers : ∃ s s', run Session.step (.new smallWorld) listedRun = some s ∧
    s.step releaseOne = some s' ∧ s'.world.handles.handles 1 = none ∧
      (s'.readdirCache 1).isSome ∧ ¬ s'.ListsOpen ∧
      ((s'.handle nextPage.1 nextPage.2).1.bind replyBody).map List.length = some 32 := by
  have hsome : ((run Session.step (.new smallWorld) listedRun).bind
      fun s => s.step releaseOne).isSome = true := by decide +kernel
  obtain ⟨s', hs'⟩ := Option.isSome_iff_exists.mp hsome
  obtain ⟨s, hs, hstep⟩ := Option.bind_eq_some_iff.mp hs'
  have hseen : ((run Session.step (.new smallWorld) listedRun).bind
      fun s => s.step releaseOne).map (fun s => (s.world.handles.handles 1,
        (s.readdirCache 1).isSome,
        ((s.handle nextPage.1 nextPage.2).1.bind replyBody).map List.length)) =
      some (none, true, some 32) := by decide +kernel
  rw [hs', Option.map_some, Option.some.injEq, Prod.mk.injEq, Prod.mk.injEq] at hseen
  obtain ⟨hgone, hlisted, hreply⟩ := hseen
  refine ⟨s, s', hs, hstep, hgone, hlisted, fun hl => ?_, hreply⟩
  obtain ⟨fd, hfd⟩ := hl.opened 1 hlisted
  rw [hgone] at hfd
  cases hfd

end Runs

end Riftlessfs.Fuse
