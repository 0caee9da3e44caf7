import Riftlessfs.Fuse.Dirents
import Riftlessfs.Fuse.DirStreams

/-! Reading a directory page by page yields each entry of its listing once and in order. -/
namespace Riftlessfs.Fuse
open Riftlessfs.Core Riftlessfs.Proto Lib.LittleEndian Lib.Effect Lib.Run

/-- The body of a reply that reports no error. -/
def replyBody : Reply → Option Bytes
  | .bytes b => if natAt b 4 4 = 0 then some (b.drop OUT_HEADER_LEN) else none
  | .none => none

/-- The answer to a `READDIR`: the size it asked for, and the body of the reply. -/
structure Page where
  size : UInt32
  body : Option Bytes
  deriving DecidableEq, Repr

def Page.entries (p : Page) : Option (List Dirent) := p.body.bind Dirent.decodeAll

/-- A session, and the pages that a reader of one handle has got from it. -/
structure Walk where
  session : Session
  pages : List Page

namespace Walk

def found (w : Walk) : List Dirent := w.pages.flatMap fun p => p.entries.getD []

/-- The offset of the next page: that of the last record decoded. -/
def offset (w : Walk) : UInt64 := (w.found.getLast?.map Dirent.off).getD 0

def ended (w : Walk) : Bool := w.pages.any fun p => p.body = some []

/-- A request of the reader of `fh`, or of anyone else. A panic stops the walk. -/
def step (fh : UInt64) (w : Walk) (x : Input) : Option Walk :=
  match Session.handle x.1 w.session x.2 with
  | (none, _) => none
  | (some reply, s) =>
    match pageOf fh x.2 with
    | none => some { w with session := s }
    | some r => some ⟨s, w.pages ++ [⟨r.size, replyBody reply⟩]⟩

/-- The reader asks for the next page, until one is empty, with room for the next entry; nobody
else reads or releases the handle. -/
def Continues (fh : UInt64) (listing : List DirEntry) (w : Walk) (x : Input) : Prop :=
  releases fh x.2 = false ∧ ∀ r, pageOf fh x.2 = some r → w.ended = false ∧ r.offset = w.offset ∧
    ∀ e, listing[w.found.length]? = some e → direntLen e.name.length ≤ r.size.toNat

instance (fh : UInt64) (listing : List DirEntry) (w : Walk) (x : Input) :
    Decidable (w.Continues fh listing x) :=
  inferInstanceAs (Decidable (_ ∧ ∀ r ∈ pageOf fh x.2, _ ∧ _ ∧
    ∀ e ∈ listing[w.found.length]?, direntLen e.name.length ≤ r.size.toNat))

/-- The reader has got the first `k` entries of the listing, which is cached once there is a
page. -/
structure Reading (fh : UInt64) (listing : List DirEntry) (w : Walk) (k : ℕ) : Prop where
  le : k ≤ listing.length
  cached : w.session.readdirCache fh = some listing
  found : w.found = (direntsFrom 0 listing).take k
  bodies : ∀ p ∈ w.pages, ∃ body ds, p.body = some body ∧ Dirent.decodeAll body = some ds ∧
    body.length ≤ p.size.toNat
  ended : w.ended = true → k = listing.length
  progress : w.ended = false → 0 < k

end Walk

/-- The entries of a directory except `.` and `..`, each with its name, inode number and type. -/
def dirListing (h : Host) (es : AList fun _ : Name => FileKey) : List DirEntry :=
  (es.entries.filter fun e => e.1 ≠ dot ∧ e.1 ≠ dotdot).map fun e =>
    ⟨e.1, e.2.ino, (match h.node e.2 with
      | some v => v.body.kind
      | none => .other), 0⟩

section Listing
variable {env : Env} {w : World} {s : Session} {fh unique : UInt64} {up : FileKey} {fd : Fd}
  {es : AList fun _ : Name => FileKey} {dead : Bool} {info : Meta} {request : Bytes} {r : ReadIn}

/-- A stream that stands at its start yields the whole directory. -/
theorem readdir_whole (hfd : w.handles.withDir fh = .ok fd)
    (hnode : w.host.node fd.file = some ⟨.dir up es dead, info⟩)
    (hfault : env.fault .readdir = none) :
    PassthroughFs.readdir env 0 fh w = .ok (dirListing w.host es) w := by
  have hdir : PassthroughFs.dirFd fh w = .ok fd w := by
    unfold PassthroughFs.dirFd Core.liftExcept
    rw [hfd]
  have hlist : w.host.listDir fd 0 = .ok ((dot, fd.file.ino, FileKind.dir) ::
      (dotdot, up.ino, FileKind.dir) :: es.entries.map fun e => (e.1, e.2.ino,
        match w.host.node e.2 with
        | some v => v.body.kind
        | none => .other), w.host) := by
    unfold Host.listDir
    rw [hnode]
    rfl
  unfold PassthroughFs.readdir
  have hread : sys env .readdir (fun h => h.listDir fd 0) w = .ok _ w := sys_ok hfault hlist
  rw [bind_of_ok hdir, bind_of_ok hread, pure_apply]
  congr 1
  rw [List.filter_cons_of_neg (by simp), List.filter_cons_of_neg (by simp), List.filter_map,
    List.map_map]
  rfl

theorem pageOf_some (h : pageOf fh request = some r) : r.fh = fh ∧ ∃ header,
    InHeader.fromBytes request = .ok header ∧ Opcode.ofU32 header.opcode = .readdir ∧
      ReadIn.fromBytes (InHeader.body request) = .ok r := by
  unfold pageOf at h
  cases hh : InHeader.fromBytes request with
  | error e =>
    rw [hh] at h
    cases h
  | ok header =>
    rw [hh] at h
    simp only at h
    split_ifs at h with hop
    cases hr : ReadIn.fromBytes (InHeader.body request) with
    | error e =>
      rw [hr] at h
      cases h
    | ok q =>
      rw [hr] at h
      simp only at h
      split_ifs at h with hfh
      cases h
      exact ⟨hfh, header, rfl, hop, rfl⟩

private theorem replyBody_ok (unique : UInt64) (body : Bytes) :
    replyBody (okReply unique body) = some body := by
  unfold replyBody okReply
  simp only [OutHeader.reply_error]
  rw [if_pos (by rfl), OutHeader.reply_eq]
  simp (disch := decide) only [OUT_HEADER_LEN, drop_leBytes_append, if_true]
  rfl

/-- A `READDIR` that has a listing answers with the records that fit. -/
theorem handle_page (env : Env) (s : Session) (h : pageOf fh request = some r) : ∃ unique, ∀ l s',
    readdirEntries env unique r s = .ok l s' →
      Session.handle env s request = (some (okReply unique
        (fillDirents r.size.toNat r.offset.toNat (l.drop r.offset.toNat) [])), s') := by
  obtain ⟨-, header, hh, hop, hr⟩ := pageOf_some h
  refine ⟨header.unique, ?_⟩
  intro l s' hentries
  have hdispatch : Session.dispatch env header (InHeader.body request) s =
      (readdirEntries env header.unique r >>= fun entries => pure (okReply header.unique
        (fillDirents r.size.toNat r.offset.toNat (entries.drop r.offset.toNat) []))) s := by
    unfold Session.dispatch
    simp only [hop, hr]
    rfl
  rw [handle_settle hh, hdispatch, bind_of_ok hentries]
  rfl

end Listing

namespace Walk

section Pages
variable {fh unique : UInt64} {listing : List DirEntry} {w w' : Walk} {x : Input} {k : ℕ}
  {r : ReadIn}

/-- The offset that the reader goes on with is the number of entries it has got. -/
theorem offset_eq (hk : k ≤ listing.length) (hfound : w.found = (direntsFrom 0 listing).take k) :
    w.offset = .ofNat k := by
  unfold offset
  rw [hfound]
  cases k with
  | zero => rfl
  | succ n =>
    have hoff := direntsFrom_off (i := 0) hk
    rw [List.take_add_one]
    cases hd : (direntsFrom 0 listing)[n]? with
    | none =>
      rw [hd] at hoff
      cases hoff
    | some d =>
      rw [hd] at hoff
      have hlast := Option.some.inj hoff
      rw [Option.toList_some, List.getLast?_concat]
      show d.off = _
      rw [hlast, Nat.zero_add]

/-- The body of a page from entry `k` on holds the next `n` records. It is empty only if there
are none, or the next one does not fit. -/
theorem page_body {size : ℕ} (hsize : size < 2 ^ 32) (hk : k ≤ listing.length) :
    ∃ n, k + n ≤ listing.length ∧
      Dirent.decodeAll (fillDirents size k (listing.drop k) []) =
        some (((direntsFrom 0 listing).drop k).take n) ∧
      (fillDirents size k (listing.drop k) []).length ≤ size ∧
      (fillDirents size k (listing.drop k) [] = [] ↔ n = 0) ∧
      ∀ e, listing[k]? = some e → direntLen e.name.length ≤ size → 0 < n := by
  obtain ⟨n, hn, hbody, hfits, hnames, hfirst⟩ := fillDirents_eq k (listing.drop k) [] hsize
    (Nat.zero_le _)
  rw [List.nil_append] at hbody
  rw [List.length_drop] at hn
  have hdrop := direntsFrom_drop 0 k listing
  rw [Nat.zero_add] at hdrop
  have hdecode : Dirent.decodeAll (fillDirents size k (listing.drop k) []) =
      some (((direntsFrom 0 listing).drop k).take n) := by
    rw [hbody, ← hdrop]
    exact decodeAll_records hnames
  refine ⟨n, by omega, hdecode, hfits, ⟨fun h => ?_, fun h => ?_⟩, fun e he hroom => ?_⟩
  · rw [h] at hdecode
    have hnone : [] = ((direntsFrom 0 listing).drop k).take n := Option.some.inj hdecode
    have hlen := congrArg List.length hnone
    rw [List.length_take, List.length_drop, direntsFrom_length, List.length_nil] at hlen
    omega
  · rw [hbody, h]
    rfl
  · exact hfirst e (by rw [List.head?_drop, he]) hroom

/-- A page that is answered from the listing goes on where the reader stopped. -/
theorem page_reading {s' : Session} (hlen : listing.length < 2 ^ 64) (hk : k ≤ listing.length)
    (hfound : w.found = (direntsFrom 0 listing).take k)
    (hbodies : ∀ p ∈ w.pages, ∃ body ds, p.body = some body ∧ Dirent.decodeAll body = some ds ∧
      body.length ≤ p.size.toNat)
    (hpage : pageOf fh x.2 = some r) (hc : w.Continues fh listing x)
    (hentries : ∀ unique, readdirEntries x.1 unique r w.session = .ok listing s')
    (hcached : s'.readdirCache fh = some listing) :
    ∃ w', w.step fh x = some w' ∧ ∃ k', w'.Reading fh listing k' := by
  obtain ⟨-, hasks⟩ := hc
  obtain ⟨hopen, hoffset, hroom⟩ := hasks r hpage
  have hstart : r.offset.toNat = k := by
    rw [hoffset, offset_eq hk hfound]
    exact UInt64.toNat_ofNat_of_lt' (lt_of_le_of_lt hk hlen)
  have hcount : w.found.length = k := by
    rw [hfound, List.length_take, direntsFrom_length, Nat.min_eq_left hk]
  obtain ⟨unique, hhandle⟩ := handle_page x.1 w.session hpage
  have hreply := hhandle listing s' (hentries unique)
  rw [hstart] at hreply
  obtain ⟨n, hn, hdecode, hsize, hempty, hfirst⟩ := page_body r.size.toNat_lt hk
  have hstep : w.step fh x = some ⟨s', w.pages ++ [⟨r.size,
      some (fillDirents r.size.toNat k (listing.drop k) [])⟩]⟩ := by
    unfold step
    rw [hreply, hpage]
    simp only [replyBody_ok]
  have hends : ended ⟨s', w.pages ++ [⟨r.size, some (fillDirents r.size.toNat k
      (listing.drop k) [])⟩]⟩ = decide (fillDirents r.size.toNat k (listing.drop k) [] = []) := by
    unfold ended at hopen ⊢
    rw [List.any_append, hopen, Bool.false_or]
    simp
  refine ⟨_, hstep, k + n, ⟨hn, hcached, ?_, ?_, ?_, ?_⟩⟩
  · show List.flatMap _ (w.pages ++ _) = _
    rw [List.flatMap_append, List.flatMap_singleton, List.take_add, ← hfound]
    show _ ++ (Dirent.decodeAll _).getD [] = _
    rw [hdecode]
    rfl
  · intro p hp
    rw [List.mem_append, List.mem_singleton] at hp
    rcases hp with hp | rfl
    · exact hbodies p hp
    · exact ⟨_, _, rfl, hdecode, hsize⟩
  · intro h
    rw [hends] at h
    have hn0 := hempty.mp (of_decide_eq_true h)
    -- the next entry would have had room
    by_contra hne
    have hlt : k < listing.length := by omega
    have hnext := List.getElem?_eq_getElem hlt
    have hpos := hfirst _ hnext (hroom _ (by rw [hcount, hnext]))
    omega
  · intro h
    rw [hends] at h
    by_contra hz
    exact of_decide_eq_false h (hempty.mpr (by omega))

/-- The request at offset 0 takes the listing of the directory as it is then. -/
theorem first_reading {s : Session} {up : FileKey} {fd : Fd} {es : AList fun _ : Name => FileKey}
    {dead : Bool} {info : Meta} (hrewound : s.Rewound) (hfd : s.world.handles.withDir fh = .ok fd)
    (hnode : s.world.host.node fd.file = some ⟨.dir up es dead, info⟩)
    (hfault : x.1.fault .readdir = none) (hlisting : listing = dirListing s.world.host es)
    (hlen : listing.length < 2 ^ 64) (hpage : pageOf fh x.2 = some r)
    (hc : Continues fh listing ⟨s, []⟩ x) :
    ∃ w', step fh ⟨s, []⟩ x = some w' ∧ ∃ k, w'.Reading fh listing k := by
  obtain ⟨-, hoffset, -⟩ := hc.2 r hpage
  obtain ⟨hfh, -⟩ := pageOf_some hpage
  have hworld : (s.dropIter fh).world = s.world := dropIter_world s fh
  have hread : ∀ unique, readdirStream x.1 unique r.fh s = .ok listing (s.dropIter fh) := by
    intro unique
    have hstands : s.streams.stands fh = 0 := hrewound _
    have hwhole := readdir_whole hfd hnode hfault
    unfold readdirStream tryFs
    rw [hfh, hstands, hworld, hwhole, hlisting, ← hworld]
  apply page_reading hlen (Nat.zero_le _) rfl (fun p hp => absurd hp List.not_mem_nil) hpage hc
    (fun unique => readdirEntries_listed (.inl hoffset) (hread unique))
  rw [hfh]
  exact Function.update_self ..

/-- Every further page is answered, from the listing. -/
theorem next_page (hlen : listing.length < 2 ^ 64) (hr : w.Reading fh listing k)
    (hpage : pageOf fh x.2 = some r) (hc : w.Continues fh listing x) :
    ∃ w', w.step fh x = some w' ∧ ∃ k', w'.Reading fh listing k' := by
  obtain ⟨hopen, hoffset, -⟩ := hc.2 r hpage
  obtain ⟨hfh, -⟩ := pageOf_some hpage
  have hpos : r.offset ≠ 0 := by
    intro h0
    have hk := offset_eq hr.le hr.found
    rw [← hoffset, h0] at hk
    have hval := congrArg UInt64.toNat hk
    rw [UInt64.toNat_ofNat_of_lt' (lt_of_le_of_lt hr.le hlen)] at hval
    exact absurd hval.symm (hr.progress hopen).ne'
  have hcached : w.session.readdirCache r.fh = some listing := by
    rw [hfh]
    exact hr.cached
  exact page_reading hlen hr.le hr.found hr.bodies hpage hc
    (fun unique => readdirEntries_cached hpos hcached) hr.cached

/-- Requests of others leave the reader its listing. -/
theorem reading_step (hlen : listing.length < 2 ^ 64) (hr : w.Reading fh listing k)
    (hc : w.Continues fh listing x) (hs : w.step fh x = some w') :
    ∃ k', w'.Reading fh listing k' := by
  cases hpage : pageOf fh x.2 with
  | some r =>
    obtain ⟨w₁, hw₁, hr₁⟩ := next_page hlen hr hpage hc
    rw [hs] at hw₁
    cases hw₁
    exact hr₁
  | none =>
    have hcache := handle_cache x.1 w.session hpage hc.1
    unfold step at hs
    rw [hpage] at hs
    cases hh : Session.handle x.1 w.session x.2 with
    | mk reply s =>
      rw [hh] at hs hcache
      cases reply with
      | none => cases hs
      | some reply =>
        cases hs
        exact ⟨k, hr.le, hcache.trans hr.cached, hr.found, hr.bodies, hr.ended, hr.progress⟩

private theorem reading_run {xs : List Input} (hlen : listing.length < 2 ^ 64)
    (hr : w.Reading fh listing k) (hc : Along (step fh) (Continues fh listing) w xs)
    (hs : run (step fh) w xs = some w') : ∃ k', w'.Reading fh listing k' := by
  induction xs generalizing w k with
  | nil =>
    cases hs
    exact ⟨k, hr⟩
  | cons x xs ih =>
    unfold Along at hc
    unfold run at hs
    cases hx : w.step fh x with
    | none =>
      rw [hx] at hs
      cases hs
    | some w₁ =>
      rw [hx] at hc hs
      obtain ⟨k₁, hr₁⟩ := reading_step hlen hr hc.1 hx
      exact ih hr₁ hc.2 hs

end Pages

end Walk

/-- Reading a directory by `READDIR`s, the first at offset 0 and each next at the offset of the
last record decoded, with any other requests in between. Each is answered within its size, what
has been decoded is a start of the listing taken by the first, and an empty page means that the
listing is at its end. -/
theorem readdir_paging (w₀ : World) (before : List Input) (s : Session) (fh : UInt64) (fd : Fd)
    (up : FileKey) (es : AList fun _ : Name => FileKey) (dead : Bool) (info : Meta)
    (hreach : run Session.step (Session.new w₀) before = some s)
    (hfd : s.world.handles.withDir fh = .ok fd)
    (hnode : s.world.host.node fd.file = some ⟨.dir up es dead, info⟩)
    (hlen : (dirListing s.world.host es).length < 2 ^ 64) (first : Input) (r : ReadIn)
    (hpage : pageOf fh first.2 = some r) (hfault : first.1.fault .readdir = none)
    (hfirst : Walk.Continues fh (dirListing s.world.host es) ⟨s, []⟩ first) :
    ∃ w₁, Walk.step fh ⟨s, []⟩ first = some w₁ ∧ ∀ rest w,
      Along (Walk.step fh) (Walk.Continues fh (dirListing s.world.host es)) w₁ rest →
      run (Walk.step fh) w₁ rest = some w →
        (∃ k ≤ (dirListing s.world.host es).length,
          w.found = (direntsFrom 0 (dirListing s.world.host es)).take k) ∧
        (∀ p ∈ w.pages, ∃ body ds, p.body = some body ∧ Dirent.decodeAll body = some ds ∧
          body.length ≤ p.size.toNat) ∧
        (w.ended = true → w.found = direntsFrom 0 (dirListing s.world.host es)) ∧
        ∀ x q, pageOf fh x.2 = some q → w.Continues fh (dirListing s.world.host es) x →
          ∃ w', w.step fh x = some w' := by
  obtain ⟨w₁, hw₁, k₁, hr₁⟩ := Walk.first_reading (run_rewound hreach) hfd hnode hfault rfl hlen
    hpage hfirst
  refine ⟨w₁, hw₁, ?_⟩
  intro rest w hc hs
  obtain ⟨k, hr⟩ := Walk.reading_run hlen hr₁ hc hs
  refine ⟨⟨k, hr.le, hr.found⟩, hr.bodies, ?_, ?_⟩
  · intro hended
    rw [hr.found, hr.ended hended]
    apply List.take_of_length_le
    rw [direntsFrom_length]
  · intro x q hq hnext
    obtain ⟨w', hw', -⟩ := Walk.next_page hlen hr hq hnext
    exact ⟨w', hw'⟩

def encodeReaddir (fh offset : UInt64) (size : UInt32) : Bytes :=
  encodeRequest 28 1 (((Writer.new.u64 fh).u64 offset).u32 size).intoVec

/-- The directories `a` and `bc` are made in the root, which is opened twice. -/
def twoOpens : List Input :=
  [(calm 20 [], encodeRequest 9 1 [0xed, 1, 0, 0, 0, 0, 0, 0, 97, 0]),
   (calm 21 [], encodeRequest 9 1 [0xed, 1, 0, 0, 0, 0, 0, 0, 98, 99, 0]),
   (calm 22 [], encodeRequest 27 1 [0, 0, 0, 0, 0, 0, 0, 0]),
   (calm 22 [], encodeRequest 27 1 [0, 0, 0, 0, 0, 0, 0, 0])]

def onePage : Input := (calm 22 [], encodeReaddir 1 0 40)

/-- The second handle lists the root, then the first goes on to the end. -/
def laterPages : List Input :=
  [(calm 22 [], encodeReaddir 2 0 400), (calm 22 [], encodeReaddir 1 1 32),
   (calm 22 [], encodeReaddir 1 2 32)]

/-- What a handle has open, if it is a directory. -/
def openedDir (s : Session) (fh : UInt64) :
    Option (Fd × FileKey × (AList fun _ : Name => FileKey) × Bool × Meta) :=
  match s.world.handles.withDir fh with
  | .error _ => none
  | .ok fd =>
    match s.world.host.node fd.file with
    | some ⟨.dir up es dead, info⟩ => some (fd, up, es, dead, info)
    | _ => none

private theorem openedDir_some {s : Session} {fh : UInt64} {fd : Fd} {up : FileKey}
    {es : AList fun _ : Name => FileKey} {dead : Bool} {info : Meta}
    (h : openedDir s fh = some (fd, up, es, dead, info)) : s.world.handles.withDir fh = .ok fd ∧
      s.world.host.node fd.file = some ⟨.dir up es dead, info⟩ := by
  unfold openedDir at h
  split at h
  · cases h
  · rename_i fd' hfd
    split at h
    · rename_i hnode
      cases h
      exact ⟨hfd, hnode⟩
    · cases h

/-- The first handle is read to its end, as the reader has to. -/
def pagesCheck (s : Session) : Bool :=
  match openedDir s 1 with
  | none => false
  | some (_, _, es, _, _) =>
    decide ((dirListing s.world.host es).length = 2 ∧
      Along (Walk.step 1) (Walk.Continues 1 (dirListing s.world.host es)) ⟨s, []⟩
        (onePage :: laterPages) ∧
      ((run (Walk.step 1) ⟨s, []⟩ (onePage :: laterPages)).map fun w =>
        (w.ended, w.found.map Dirent.name)) = some (true, [[98, 99], [97]]))

/-- Both handles of the root share one stream, and the first yields both entries. -/
theorem readdir_paging_root : ∃ s es w₁ w,
    run Session.step (Session.new smallWorld) twoOpens = some s ∧
    Walk.step 1 ⟨s, []⟩ onePage = some w₁ ∧ run (Walk.step 1) w₁ laterPages = some w ∧
    w.found = direntsFrom 0 (dirListing s.world.host es) ∧
    w.found.map Dirent.name = [[98, 99], [97]] := by
  have hcheck : (run Session.step (Session.new smallWorld) twoOpens).map pagesCheck = some true := by
    decide +kernel
  obtain ⟨s, hs, hpages⟩ := Option.map_eq_some_iff.mp hcheck
  have hpage : pageOf 1 onePage.2 = some ⟨1, 0, 40⟩ := by decide +kernel
  unfold pagesCheck at hpages
  split at hpages
  · cases hpages
  · rename_i fd up es dead info hopened
    obtain ⟨hfd, hnode⟩ := openedDir_some hopened
    obtain ⟨hlen, hc, hend⟩ := of_decide_eq_true hpages
    unfold Along at hc
    obtain ⟨w₁, hw₁, hrest⟩ := readdir_paging smallWorld twoOpens s 1 fd up es dead info hs hfd
      hnode (by rw [hlen]; decide) onePage _ hpage rfl hc.1
    rw [hw₁] at hc
    unfold run at hend
    rw [hw₁] at hend
    obtain ⟨w, hw, hends⟩ := Option.map_eq_some_iff.mp hend
    obtain ⟨hended, hnames⟩ := Prod.mk.inj hends
    obtain ⟨-, -, hwhole, -⟩ := hrest laterPages w hc.2 hw
    exact ⟨s, es, w₁, w, hs, hw₁, hw, hwhole hended, hnames⟩

end Riftlessfs.Fuse
