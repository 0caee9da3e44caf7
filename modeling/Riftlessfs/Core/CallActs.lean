import Riftlessfs.Core.Sound
import Riftlessfs.Core.Call

/-! The engine refines the abstract machine: on a sound world every call with
single-component names performs a chain of acts, each of which the call asked for, and
logs the events of that chain. -/
namespace Riftlessfs.Core
open Lib Lib.Effect PassthroughFs

/-- How a call may end: after a chain of acts, with every other node as it was. -/
structure Outcome (P : View → Act → Prop) (w w' : World) (evs : List Event) : Prop where
  sound : Sound w'
  log : w'.host.log = w.host.log ++ evs
  chain : ∃ S, Chain P w.view w'.view evs S ∧ w.host.AltersOnly S w'.host
  handles : ∀ i hd, w'.handles.handles i = some hd →
    w.handles.handles i = some hd ∨ ⟨.opened, hd.fd.file⟩ ∈ evs

variable {P : View → Act → Prop} {α : Type} {env : Env} {w w' w₁ w₂ : World} {h : Host}
  {p id : UInt64} {n : Name} {k : FileKey} {d pd : InodeData} {flags mode : UInt32} {fd : Fd}
  {evs evs₁ evs₂ : List Event} {a : Act}

theorem Outcome.refl (hs : Sound w) : Outcome P w w [] :=
  ⟨hs, (List.append_nil _).symm, ⟨∅, Chain.nil _, Host.AltersOnly.refl _ _⟩, fun _ _ hi => Or.inl hi⟩

theorem Outcome.trans (h₁ : Outcome P w w₁ evs₁) (h₂ : Outcome P w₁ w₂ evs₂) :
    Outcome P w w₂ (evs₁ ++ evs₂) := by
  obtain ⟨S₁, hc₁, ha₁⟩ := h₁.chain
  obtain ⟨S₂, hc₂, ha₂⟩ := h₂.chain
  refine ⟨h₂.sound, ?_, ⟨_, hc₁.append hc₂, ha₁.trans ha₂⟩, fun i hd hi => ?_⟩
  · rw [h₂.log, h₁.log, List.append_assoc]
  · rcases h₂.handles i hd hi with hi | hmem
    · rcases h₁.handles i hd hi with hi | hmem
      · exact Or.inl hi
      · exact Or.inr (List.mem_append_left _ hmem)
    · exact Or.inr (List.mem_append_right _ hmem)

/-- Sound worlds move to sound worlds by allowed acts, and nothing panics. -/
def actFrame (P : View → Act → Prop) : Frame Stop World where
  pre := Sound
  rel w w' := Sound w → ∃ evs, Outcome P w w' evs
  err e := e ≠ .panic
  refl _ hs := ⟨[], Outcome.refl hs⟩
  trans h₁ h₂ hs := by
    obtain ⟨e₁, o₁⟩ := h₁ hs
    obtain ⟨e₂, o₂⟩ := h₂ o₁.sound
    exact ⟨e₁ ++ e₂, o₁.trans o₂⟩
  stable hs hr := by
    obtain ⟨_, o⟩ := hr hs
    exact o.sound

theorem keepsAt_fails {m : FsM α} (hf : Fails (m w) w') (ho : Outcome P w w' evs) :
    KeepsAt (actFrame P) m w := by
  obtain ⟨e, he⟩ := hf
  exact keepsAt_of_error he (fun _ => ⟨evs, ho⟩) fun hp => by cases hp

theorem keepsAt_ok {m : FsM α} {r : α} (hok : m w = .ok r w') (ho : Outcome P w w' evs) :
    KeepsAt (actFrame P) m w :=
  keepsAt_of_ok hok fun _ => ⟨evs, ho⟩

section Host
open Host

/-- One act that leaves the view alone. -/
theorem Outcome.touched (hs : Sound w) (ht : Touched k w.host h) (hg : w.host.Grows h)
    (ha : P w.view a) (hk : k ∈ a.subjects w.view) (hd : ∀ evs, (∀ e ∈ evs, e.key = k ∧ e.kind ≠ .written) →
      Does a w.view w.view evs) :
    ∃ evs, h.log = w.host.log ++ evs ∧ Outcome P w (w.withHost h) evs := by
  obtain ⟨evs, hlog, hkey⟩ := ht.log
  have hview : (w.withHost h).view = w.view := by
    show View.mk w.inodes h.graph = _
    rw [ht.graph]
    rfl
  have halters : w.host.AltersOnly (a.subjects w.view) h :=
    ht.alters.mono (Set.singleton_subset_iff.mpr hk)
  refine ⟨evs, hlog, hs.withHost hg, hlog, ⟨_, ?_, halters⟩, fun _ _ hi => Or.inl hi⟩
  rw [hview]
  exact Chain.single ha (hd evs hkey)

/-- One act that changes the graph. -/
theorem Outcome.changed (hs : Sound w) {g : DirGraph FileKey Name}
    (hc : Changed w.host h g evs) (hx : w.host.AltersOnly (a.subjects w.view) h)
    (ha : P w.view a) (hd : Does a w.view ⟨w.inodes, g⟩ evs) :
    Outcome P w (w.withHost h) evs := by
  refine ⟨hs.withHost hc.sameFds.grows, hc.log, ⟨_, ?_, hx⟩, fun _ _ hi => Or.inl hi⟩
  show Chain P w.view ⟨w.inodes, h.graph⟩ evs _
  rw [hc.graph]
  exact Chain.single ha hd

/-- A syscall on the file a tracked location leads to. -/
theorem Outcome.touched_at (hs : Sound w) (hp : w.inodes.byId p = some pd)
    (htar : target w.host.graph pd.fd.file n = some k) (ht : Touched k w.host h)
    (hg : w.host.Grows h) (ha : P w.view (.touched p n k)) :
    ∃ evs, h.log = w.host.log ++ evs ∧ Outcome P w (w.withHost h) evs := by
  refine Outcome.touched hs ht hg ha rfl fun evs he => Does.touched pd hp ?_ he
  rw [← (hs.held p pd hp).2]
  exact htar

theorem opened_mem (ho : OpenedFile w.host h k flags fd)
    (hlog : h.log = w.host.log ++ evs) : ⟨.opened, fd.file⟩ ∈ evs := by
  have hmem := ho.logged
  rw [hlog, List.drop_left] at hmem
  rw [ho.eq]
  exact hmem

/-- Making a file under a free name. -/
theorem Made.does (isDir : Bool) (hs : Sound w) (hp : w.inodes.byId p = some pd)
    (hm : Made w.host h pd.fd.file n k (if isDir then some pd.fd.file else none)) :
    Changed w.host h (w.host.graph.create pd.key n k (if isDir then some pd.key else none))
        [⟨.created, k⟩] ∧
      w.host.AltersOnly ((Act.made p n k isDir).subjects w.view) h ∧
      ∀ evs, (∀ e ∈ evs, e.key = k ∧ e.kind ≠ .written) → Does (.made p n k isDir) w.view
        ⟨w.inodes, w.host.graph.create pd.key n k (if isDir then some pd.key else none)⟩ evs := by
  obtain ⟨-, hopen, hnamed⟩ := not_inUse hm.unused
  have hlive : ∀ id d, w.inodes.byId id = some d → d.key ≠ k := by
    intro id d hd
    obtain ⟨hmem, hfile⟩ := hs.held id d hd
    rw [← hfile]
    exact hopen d.fd hmem
  have hkey := (hs.held p pd hp).2
  rw [hkey] at hm
  have halters : w.host.AltersOnly ((Act.made p n k isDir).subjects w.view) h := by
    refine hm.alters.mono ?_
    rintro x (rfl | rfl)
    · exact Or.inl ⟨pd, hp, rfl⟩
    · exact Or.inr rfl
  refine ⟨hm.changed (hlive p pd hp), halters, fun evs he => ?_⟩
  exact Does.made pd hp hm.plain hm.dir hm.free hm.alive hlive hnamed he

/-- Making a file and opening it. -/
theorem MadeOpen.outcome (hs : Sound w) (hp : w.inodes.byId p = some pd)
    (hm : MadeOpen w.host h pd.fd.file n k flags fd)
    (ha : w.host.inUse k = false → P w.view (.made p n k false)) :
    fd.file = k ∧ AddsFd w.host h fd ∧
      Outcome P w (w.withHost h) [⟨.created, k⟩, ⟨.opened, k⟩] := by
  obtain ⟨h₁, hmade, rfl, rfl⟩ := hm.made
  obtain ⟨hc, halters, hdoes⟩ := Made.does false hs hp hmade
  have hadds : AddsFd w.host ((h₁.note .opened k).openFd k flags).2
      ((h₁.note .opened k).openFd k flags).1 := by
    exact ⟨hc.nextFd, congrArg (List.cons _) hc.fds, congrArg (· + 1) hc.nextFd⟩
  refine ⟨rfl, hadds, hs.withHost hadds.grows, ?_, ⟨_, ?_, halters⟩, fun _ _ hi => Or.inl hi⟩
  · show h₁.log ++ [⟨.opened, k⟩] = _
    rw [hc.log, List.append_assoc]
    rfl
  · show Chain P w.view ⟨w.inodes, h₁.graph⟩ _ _
    rw [hc.graph]
    exact Chain.single (ha hmade.unused) (hdoes _ (by simp))

end Host

section Lookup

private theorem referenceOpenFlags_nofollow (a b : Bool) :
    hasFlag (referenceOpenFlags a b) O_NOFOLLOW = true := by
  cases a <;> cases b <;> decide

/-- `lookup` fails before it has any effect, or registers the file the name leads to. -/
theorem lookup_outcome (env : Env) (hs : Sound w) (hr : Roomy w.inodes) (hn : Slashless n)
    (ha : ∀ k, P w.view (.seen p n k)) :
    Fails (lookup env p n w) w ∨ ∃ r w' evs, lookup env p n w = .ok r w' ∧
      Outcome P w w' evs ∧ w'.handles = w.handles ∧ ∀ fd, Spare w fd → Spare w' fd := by
  rcases lookup_cases env p n hs.base.inv with
    hf | ⟨pd, st, h₀, flags, fd, h₁, d, s, dropped, hp, hst, hflags, hopen, hreg, hok⟩
  · exact Or.inl hf
  right
  obtain ⟨rfl, k, v, htar, hv, rfl⟩ := Host.fstatat_ok hn hst
  have hno : hasFlag flags O_NOFOLLOW = true := by
    rw [hflags]
    exact referenceOpenFlags_nofollow _ _
  obtain ⟨k', htar', rfl, rfl⟩ := Host.openPath_ok hn (Or.inl (by rw [hno]; rfl)) hopen
  rw [htar] at htar'
  cases htar'
  have hadds : Host.AddsFd w.host ((w.host.note .referenced k).openFd k flags).2
      ⟨w.host.nextFd, k, flags⟩ := ⟨rfl, rfl, rfl⟩
  have hlog : (((w.host.note .referenced k).openFd k flags).2.dropOpt dropped).log =
      w.host.log ++ [⟨.referenced, k⟩] := by
    cases dropped <;> rfl
  have hgraph : (((w.host.note .referenced k).openFd k flags).2.dropOpt dropped).graph =
      w.host.graph := by
    cases dropped <;> rfl
  have halters : w.host.AltersOnly {k}
      (((w.host.note .referenced k).openFd k flags).2.dropOpt dropped) := by
    intro x _
    cases dropped <;> rfl
  refine ⟨_, _, [⟨.referenced, k⟩], hok, ⟨?_, hlog, ⟨{k}, ?_, halters⟩, fun _ _ hi => Or.inl hi⟩,
    rfl, fun fd hsp => hsp.register hs hadds hreg⟩
  · exact hs.register hr hp hn hadds rfl hreg
  · show Chain P w.view ⟨s, _⟩ _ _
    rw [hgraph]
    refine Chain.single (ha k) (Does.seen pd _ _ hp ?_ rfl hr hreg)
    rw [← (hs.held p pd hp).2]
    exact htar

theorem lookup_keepsAt (hs : Sound w) (hr : Roomy w.inodes) (hn : Slashless n)
    (ha : ∀ k, P w.view (.seen p n k)) : KeepsAt (actFrame P) (lookup env p n) w := by
  rcases lookup_outcome env hs hr hn ha with hf | ⟨r, w', evs, hok, ho, -, -⟩
  · exact keepsAt_fails hf (Outcome.refl hs)
  · exact keepsAt_ok hok ho

theorem keepsAt_congr {m m' : FsM α} (heq : m w = m' w₁) (ho : Outcome P w w₁ evs)
    (hm : KeepsAt (actFrame P) m' w₁) : KeepsAt (actFrame P) m w := by
  unfold KeepsAt at hm ⊢
  rw [heq]
  exact ⟨(actFrame P).trans (fun _ => ⟨evs, ho⟩) hm.1, hm.2⟩

theorem mkdir_keepsAt (hs : Sound w) (hr : Roomy w.inodes) (hn : Slashless n)
    (hmade : ∀ k, w.host.inUse k = false → P w.view (.made p n k true)) (hseen : ∀ v k, P v (.seen p n k)) :
    KeepsAt (actFrame P) (mkdir env p n mode) w := by
  rcases mkdir_cases env p n mode w with
    hf | ⟨pd, h₁, hp, hm, heq⟩
  · exact keepsAt_fails hf (Outcome.refl hs)
  · have hnew := Host.mkdirat_ok hn hm
    obtain ⟨hc, halters, hdoes⟩ := Made.does true hs hp hnew
    have ho := Outcome.changed hs hc halters (hmade _ hnew.unused) (hdoes _ (by simp))
    exact keepsAt_congr heq ho (lookup_keepsAt ho.sound hr hn (hseen _))

theorem symlink_keepsAt (hs : Sound w) (hr : Roomy w.inodes) (hn : Slashless n) {t : Name}
    (hmade : ∀ k, w.host.inUse k = false → P w.view (.made p n k false)) (hseen : ∀ v k, P v (.seen p n k)) :
    KeepsAt (actFrame P) (symlink env p n t) w := by
  rcases symlink_cases env p n t w with
    hf | ⟨pd, h₁, hp, hm, heq⟩
  · exact keepsAt_fails hf (Outcome.refl hs)
  · have hnew := Host.symlinkat_ok hn hm
    obtain ⟨hc, halters, hdoes⟩ := Made.does false hs hp hnew
    have ho := Outcome.changed hs hc halters (hmade _ hnew.unused) (hdoes _ (by simp))
    exact keepsAt_congr heq ho (lookup_keepsAt ho.sound hr hn (hseen _))

end Lookup

section Create

theorem hasFlag_or (a b bit : UInt32) :
    hasFlag (a ||| b) bit = (hasFlag a bit || hasFlag b bit) := by
  have hdistrib : (a ||| b) &&& bit = (a &&& bit) ||| (b &&& bit) :=
    UInt32.toBitVec_inj.mp BitVec.and_or_distrib_right
  unfold hasFlag
  rw [hdistrib, Bool.eq_iff_iff]
  simp only [bne_iff_ne, ne_eq, Bool.or_eq_true, UInt32.or_eq_zero_iff]
  tauto

/-- The name leads to no symbolic link, or links are not followed. -/
def World.NoLinkAt (w : World) (flags : UInt32) (p : UInt64) (n : Name) : Prop :=
  hasFlag flags O_NOFOLLOW = true ∨ (w.view.resolve p n).any w.host.isSymlink = false

instance (w : World) (flags : UInt32) (p : UInt64) (n : Name) :
    Decidable (w.NoLinkAt flags p n) :=
  inferInstanceAs (Decidable (hasFlag flags O_NOFOLLOW = true ∨
    (w.view.resolve p n).any w.host.isSymlink = false))

theorem World.NoLinkAt.noLink (hs : Sound w) (hp : w.inodes.byId p = some pd)
    (hl : w.NoLinkAt flags p n) : w.host.NoLink (!hasFlag flags O_NOFOLLOW) pd.fd.file n := by
  rcases hl with hno | hl
  · exact Or.inl (by rw [hno]; rfl)
  · refine Or.inr fun k hk => ?_
    rw [(hs.held p pd hp).2] at hk
    rw [View.resolve_eq hp, World.view_graph, hk] at hl
    exact hl

theorem Outcome.insertHandle (ho : Outcome P w w₁ evs) (data : HandleData)
    (hsp : Spare w₁ data.fd) (hmem : ⟨.opened, data.fd.file⟩ ∈ evs) :
    Outcome P w { w₁ with handles := (w₁.handles.insert data).2 } evs := by
  refine ⟨ho.sound.insertHandle hsp, ho.log, ho.chain, fun i hd hi => ?_⟩
  have hi' : Function.update w₁.handles.handles w₁.handles.nextId (some data) i = some hd := hi
  rw [Function.update_apply] at hi'
  split_ifs at hi' with h
  · cases hi'
    exact Or.inr hmem
  · exact ho.handles i hd hi'

/-- `openat` of `CREATE` opens the file it made, or with `O_PATH` the file that is there. -/
theorem openat_create_outcome (hs : Sound w) (hn : Slashless n)
    (hp : w.inodes.byId p = some pd)
    (hlink : hasFlag flags O_PATH = true → w.NoLinkAt flags p n)
    (hopen : w.host.openat pd.fd.file n (flags ||| O_CREAT ||| O_EXCL) mode env.fresh =
      .ok (fd, h))
    (htouch : ∀ k, P w.view (.touched p n k))
    (hmade : ∀ k, w.host.inUse k = false → P w.view (.made p n k false)) :
    ∃ evs, Outcome P w (w.withHost h) evs ∧ Spare (w.withHost h) fd ∧
      ⟨.opened, fd.file⟩ ∈ evs := by
  have hflag : ∀ bit, hasFlag (O_CREAT ||| O_EXCL) bit = false →
      hasFlag (flags ||| O_CREAT ||| O_EXCL) bit = hasFlag flags bit := by
    intro bit hbit
    rw [UInt32.or_assoc, hasFlag_or, hbit, Bool.or_false]
  have hset : ∀ bit, hasFlag (O_CREAT ||| O_EXCL) bit = true →
      hasFlag (flags ||| O_CREAT ||| O_EXCL) bit = true := by
    intro bit hbit
    rw [UInt32.or_assoc, hasFlag_or, hbit, Bool.or_true]
  have hno : hasFlag (flags ||| O_CREAT ||| O_EXCL) O_PATH = true →
      w.host.NoLink (!hasFlag (flags ||| O_CREAT ||| O_EXCL) O_NOFOLLOW) pd.fd.file n := by
    rw [hflag O_PATH (by decide), hflag O_NOFOLLOW (by decide)]
    exact fun hpath => (hlink hpath).noLink hs hp
  rcases Host.openat_excl_ok hn (hset O_CREAT (by decide)) (hset O_EXCL (by decide)) hno hopen with
    ⟨k, htar, ho⟩ | ⟨-, hm⟩
  · obtain ⟨evs, hlog, hout⟩ := Outcome.touched_at hs hp htar ho.touched ho.adds.grows (htouch k)
    exact ⟨evs, hout, hs.spare_of_adds ho.adds, opened_mem ho hlog⟩
  · obtain ⟨hfile, hadds, hout⟩ := MadeOpen.outcome hs hp hm (hmade _)
    refine ⟨_, hout, hs.spare_of_adds hadds, ?_⟩
    rw [hfile]
    simp

theorem create_keepsAt (hs : Sound w) (hr : Roomy w.inodes) (hn : Slashless n)
    (hlink : hasFlag flags O_PATH = true → w.NoLinkAt flags p n)
    (htouch : ∀ k, P w.view (.touched p n k))
    (hmade : ∀ k, w.host.inUse k = false → P w.view (.made p n k false))
    (hseen : ∀ v k, P v (.seen p n k)) :
    KeepsAt (actFrame P) (create env p n flags mode) w := by
  rcases create_cases env p n flags mode w with
    hf | ⟨pd, fd, h₁, hp, hopen, heq⟩
  · exact keepsAt_fails hf (Outcome.refl hs)
  obtain ⟨evs, ho, hsp, hmem⟩ := openat_create_outcome hs hn hp hlink hopen htouch hmade
  rcases lookup_outcome env ho.sound hr hn (hseen _) with
    ⟨e, he⟩ | ⟨r, w₂, evs₂, hok, ho₂, -, hkeep⟩
  · rw [bind_of_error he] at heq
    exact keepsAt_fails ⟨e, heq⟩ ho
  · rw [bind_of_ok hok] at heq
    exact keepsAt_ok heq ((ho.trans ho₂).insertHandle (.file fd) (hkeep fd hsp)
      (List.mem_append_left _ hmem))

end Create

section Names

theorem unlinkat_outcome (hs : Sound w) (hn : Slashless n) (hp : w.inodes.byId p = some pd)
    {removedir : Bool} (hu : w.host.unlinkat pd.fd.file n removedir = .ok ((), h))
    (ha : ∀ k, P w.view (.removed p n k)) : ∃ evs, Outcome P w (w.withHost h) evs := by
  obtain ⟨k, hpn, hentry, hleaf, halters, hc⟩ := Host.unlinkat_ok hn hu
  rw [(hs.held p pd hp).2] at hentry halters hc
  have hsubjects : w.host.AltersOnly ((Act.removed p n k).subjects w.view) h := by
    refine halters.mono ?_
    rintro x (rfl | rfl)
    · exact Or.inl ⟨pd, hp, rfl⟩
    · exact Or.inr rfl
  exact ⟨_, Outcome.changed hs hc hsubjects (ha k) (Does.removed pd hp hpn hentry hleaf)⟩

theorem unlink_keepsAt (hs : Sound w) (hn : Slashless n) (ha : ∀ k, P w.view (.removed p n k)) :
    KeepsAt (actFrame P) (unlink env p n) w := by
  rcases unlink_cases env p n w with hf | ⟨pd, h₁, hp, hu, hok⟩
  · exact keepsAt_fails hf (Outcome.refl hs)
  · obtain ⟨evs, ho⟩ := unlinkat_outcome hs hn hp hu ha
    exact keepsAt_ok hok ho

theorem rmdir_keepsAt (hs : Sound w) (hn : Slashless n) (ha : ∀ k, P w.view (.removed p n k)) :
    KeepsAt (actFrame P) (rmdir env p n) w := by
  rcases rmdir_cases env p n w with hf | ⟨pd, h₁, hp, hu, hok⟩
  · exact keepsAt_fails hf (Outcome.refl hs)
  · obtain ⟨evs, ho⟩ := unlinkat_outcome hs hn hp hu ha
    exact keepsAt_ok hok ho

/-- The host of a rename, seen as a move in the graph. -/
theorem Renamed.moves {base base' m : FileKey} {n' : Name}
    (hr : Host.Renamed w.host h base n base' n' m) :
    ∃ evs, Moves w.host.graph base n base' n' m h.graph evs ∧ h.log = w.host.log ++ evs ∧
      Host.SameFds w.host h := by
  cases hr with
  | same ht he =>
    subst he
    exact ⟨[], Moves.same ht, (List.append_nil _).symm, rfl, rfl⟩
  | free ht ha hc =>
    refine ⟨_, ?_, hc.log, hc.sameFds⟩
    rw [hc.graph]
    exact Moves.free ht ha
  | onto t ht hne hl hc =>
    refine ⟨_, ?_, hc.log, hc.sameFds⟩
    rw [hc.graph]
    exact Moves.onto t ht hne hl

theorem rename_keepsAt (hs : Sound w) {p' : UInt64} {n' : Name} (hn : Slashless n)
    (hn' : Slashless n') (ha : ∀ m, P w.view (.moved env.order p n p' n' m)) :
    KeepsAt (actFrame P) (rename env p n p' n') w := by
  rcases rename_cases env p p' n n' w with
    hf | ⟨pd, pd', h₁, hp, hp', hren, hok⟩
  · exact keepsAt_fails hf (Outcome.refl hs)
  obtain ⟨m, hpn, hpn', hentry, hdir, hdir', hbelow, halters, hr⟩ :=
    Host.renameat_ok hn hn' hren
  rw [(hs.held p pd hp).2] at hentry hdir halters hr
  rw [(hs.held p' pd' hp').2] at hdir' hbelow halters hr
  have hsubjects :
      w.host.AltersOnly ((Act.moved env.order p n p' n' m).subjects w.view) h₁ := by
    refine halters.mono ?_
    rintro x (rfl | rfl | hx | hx)
    · exact Or.inl ⟨pd, hp, rfl⟩
    · exact Or.inr (Or.inl ⟨pd', hp', rfl⟩)
    · exact Or.inr (Or.inr (Or.inl hx))
    · exact Or.inr (Or.inr (Or.inr ⟨pd'.key, ⟨pd', hp', rfl⟩, hx⟩))
  obtain ⟨evs, hmoves, hlog, hfds⟩ := Renamed.moves hr
  have hs₁ : Sound (w.withHost h₁) := hs.withHost hfds.grows
  refine keepsAt_ok hok ⟨hs₁.noteRename env.order p n hp' hn', hlog, ⟨_, ?_, hsubjects⟩,
    fun _ _ hi => Or.inl hi⟩
  refine Chain.single (ha m)
    (Does.moved pd pd' hp hp' hpn hpn' hentry hdir hdir' (fun hm => ?_) hmoves)
  obtain ⟨fuel, hb⟩ := hbelow hm
  refine ⟨fuel, ?_⟩
  rw [World.view_graph, Host.graph_below]
  exact hb

/-- A syscall that leaves the host as it is. -/
theorem sys_same_keepsAt (hs : Sound w) {site : Site} {f : Host → Except Errno (α × Host)}
    (hf : ∀ a h, f w.host = .ok (a, h) → h = w.host) :
    KeepsAt (actFrame P) (sys env site f) w := by
  rcases sys_cases env site f w with hfail | ⟨a, h, hfa, hok⟩
  · exact keepsAt_fails hfail (Outcome.refl hs)
  · rw [hf a h hfa] at hok
    exact keepsAt_ok hok (Outcome.refl hs)

/-- The state of a computation that is not to touch anything. -/
theorem inode_keepsAt (hs : Sound w) (id : UInt64) : KeepsAt (actFrame P) (inode id) w := by
  rcases inode_cases id w with hf | ⟨d, -, hok⟩
  · exact keepsAt_fails hf (Outcome.refl hs)
  · exact keepsAt_ok hok (Outcome.refl hs)

theorem inode_ok (hok : inode id w = .ok d w') : w' = w ∧ w.inodes.byId id = some d := by
  rcases inode_cases id w with ⟨e, he⟩ | ⟨d', hd', hok'⟩
  · rw [he] at hok
    cases hok
  · rw [hok'] at hok
    cases hok
    exact ⟨rfl, hd'⟩

theorem getattr_keepsAt (hs : Sound w) (id : UInt64) :
    KeepsAt (actFrame P) (getattr env id) w := by
  refine keepsAt_bind (inode_keepsAt hs id) fun d w₁ hok => ?_
  obtain ⟨rfl, -⟩ := inode_ok hok
  exact keepsAt_bind (sys_same_keepsAt hs fun st h hst => (Host.fstat_ok hst).1)
    fun st w₂ _ => keepsAt_pure _ w₂

theorem link_keepsAt (hs : Sound w) (hn : Slashless n) (ha : P w.view (.linked id p n)) :
    KeepsAt (actFrame P) (link env id p n) w := by
  rcases link_cases env p id n w with
    hf | ⟨d, pd, h₁, hd, hp, hl, heq⟩
  · exact keepsAt_fails hf (Outcome.refl hs)
  obtain ⟨hpn, hdir, hfree, halive, hnd, hnamed, halters, hc⟩ := Host.linkat_ok hn hl
  rw [(hs.held p pd hp).2] at hdir hfree halive halters hc
  rw [(hs.held id d hd).2] at hnd hnamed hc
  have hnd' : ¬ w.view.graph.IsDir d.key := by
    rw [World.view_graph, ← Host.isDir_iff, hnd]
    exact Bool.false_ne_true
  have hsubjects : w.host.AltersOnly ((Act.linked id p n).subjects w.view) h₁ := by
    refine halters.mono ?_
    rintro x rfl
    exact Or.inl ⟨pd, hp, rfl⟩
  have ho := Outcome.changed hs hc hsubjects ha
    (Does.linked d pd hd hp hpn hdir hfree halive hnd' hnamed)
  exact keepsAt_congr heq ho (getattr_keepsAt ho.sound id)

end Names

end Riftlessfs.Core
