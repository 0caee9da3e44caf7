import Riftlessfs.Core.NodeIdentity

/-! In a world whose tracked locations are right, the operations that go through one act
on the inode's own file and on nothing else. -/
namespace Riftlessfs.Core
open Lib Lib.Effect PassthroughFs

/-- Nothing but file `k` is touched: the inode table and the other files stay, every
event is about `k`, and so is every new handle. -/
structure OnlyTouches (k : FileKey) (w w' : World) : Prop where
  inodes : w'.inodes = w.inodes
  host : Host.Touched k w.host w'.host
  handles : ∀ i hd, w'.handles.handles i = some hd →
    w.handles.handles i = some hd ∨ hd.fd.file = k

variable {α : Type} {env : Env} {w w' w₁ w₂ : World} {h : Host} {id : UInt64} {n : Name}
  {k base : FileKey} {d pd : InodeData} {flags : UInt32} {fd : Fd} {s : InodeStore}
  {g : DirGraph FileKey Name}

theorem OnlyTouches.refl (k : FileKey) (w : World) : OnlyTouches k w w :=
  ⟨rfl, Host.Touched.refl k w.host, fun _ _ hi => Or.inl hi⟩

theorem OnlyTouches.trans (h₁ : OnlyTouches k w w₁) (h₂ : OnlyTouches k w₁ w₂) :
    OnlyTouches k w w₂ := by
  refine ⟨h₂.inodes.trans h₁.inodes, h₁.host.trans h₂.host, fun i hd hi => ?_⟩
  rcases h₂.handles i hd hi with hi | hk
  · exact h₁.handles i hd hi
  · exact Or.inr hk

theorem OnlyTouches.withHost (ht : Host.Touched k w.host h) : OnlyTouches k w (w.withHost h) :=
  ⟨rfl, ht, fun _ _ hi => Or.inl hi⟩

theorem OnlyTouches.insertHandle (ho : OnlyTouches k w w₁) {data : HandleData}
    (hk : data.fd.file = k) :
    OnlyTouches k w { w₁ with handles := (w₁.handles.insert data).2 } := by
  refine ⟨ho.inodes, ho.host, fun i hd hi => ?_⟩
  have hi' : Function.update w₁.handles.handles w₁.handles.nextId (some data) i = some hd := hi
  rw [Function.update_apply] at hi'
  split_ifs at hi'
  · cases hi'
    exact Or.inr hk
  · exact ho.handles i hd hi'

/-- Computations that touch only `k`, while table and graph are `s` and `g`. -/
def touchFrame (k : FileKey) (s : InodeStore) (g : DirGraph FileKey Name) : Frame Stop World where
  pre w := w.inodes = s ∧ w.host.graph = g
  rel w w' := OnlyTouches k w w'
  err _ := True
  refl w := OnlyTouches.refl k w
  trans h₁ h₂ := h₁.trans h₂
  stable hs hr := ⟨hr.inodes.trans hs.1, hr.host.graph.trans hs.2⟩

section Touch

/-- What leaves the world alone touches nothing. -/
theorem keepsAt_touch_fails {m : FsM α} (hf : Fails (m w) w) :
    KeepsAt (touchFrame k s g) m w := by
  obtain ⟨e, he⟩ := hf
  exact keepsAt_of_error he (OnlyTouches.refl k w) trivial

/-- A syscall on the file a name leads to. -/
theorem keeps_touch_sys {site : Site} {f : Host → Except Errno (α × Host)}
    (hf : ∀ h a h', f h = .ok (a, h') → ∃ x, target h.graph base n = some x ∧
      Host.Touched x h h')
    (hk : ∀ x, target g base n = some x → x = k) :
    Keeps (touchFrame k s g) (sys env site f) := by
  intro w hw
  rcases sys_cases env site f w with hfail | ⟨a, h, hfa, hok⟩
  · exact keepsAt_touch_fails hfail
  · obtain ⟨x, hx, ht⟩ := hf w.host a h hfa
    rw [hw.2] at hx
    rw [hk x hx] at ht
    exact keepsAt_of_ok hok (OnlyTouches.withHost ht)

private theorem keeps_touch_getattr (id : UInt64) : Keeps (touchFrame k s g) (getattr env id) := by
  intro w _
  rcases getattr_cases env id w with hf | ⟨d, st, h₁, -, hst, hok⟩
  · exact keepsAt_touch_fails hf
  · rw [(Host.fstat_ok hst).1] at hok
    exact keepsAt_of_ok hok (OnlyTouches.refl k w)

private theorem keeps_touch_setInfo (hn : Slashless d.name)
    (hheld : ∀ i e, s.byId i = some e → e.fd.file = e.key)
    (hk : ∀ pd x, s.byId (d.parent.getD ROOT_ID) = some pd →
      target g pd.key d.name = some x → x = k) (attr : SetAttr) :
    Keeps (touchFrame k s g) (setInfo env d attr) := by
  unfold setInfo
  split_ifs
  swap
  · exact keeps_pure ()
  intro w hw
  rcases parentFdName_cases d w with hf | ⟨pd, hp, hok⟩
  · exact keepsAt_touch_fails hf.bind
  have hkeep := keepsAt_of_ok (F := touchFrame k s g) hok (OnlyTouches.refl k w)
  refine keepsAt_bind hkeep fun r w₁ hok' => ?_
  rw [hok] at hok'
  cases hok'
  rw [hw.1] at hp
  have hk' : ∀ x, target g pd.fd.file d.name = some x → x = k := by
    intro x hx
    rw [hheld _ pd hp] at hx
    exact hk pd x hp hx
  have hmode : Keeps (touchFrame k s g) (setMode env pd.fd d.name attr.mode) := by
    unfold setMode
    split
    · refine keeps_touch_sys (fun h a h' hc => ?_) hk'
      obtain ⟨x, hx, ht, -⟩ := Host.fchmodat_ok hn hc
      exact ⟨x, hx, ht⟩
    · exact keeps_pure ()
  have howner : Keeps (touchFrame k s g) (setOwner env pd.fd d.name attr.uid attr.gid) := by
    unfold setOwner
    split_ifs
    · refine keeps_touch_sys (fun h a h' hc => ?_) hk'
      obtain ⟨x, hx, ht, -⟩ := Host.fchownat_ok hn hc
      exact ⟨x, hx, ht⟩
    · exact keeps_pure ()
  have htimes : Keeps (touchFrame k s g) (setTimes env pd.fd d.name attr.atime attr.mtime) := by
    unfold setTimes
    split_ifs
    · refine keeps_touch_sys (fun h a h' hc => ?_) hk'
      obtain ⟨x, hx, ht, -⟩ := Host.utimensat_ok hn hc
      exact ⟨x, hx, ht⟩
    · exact keeps_pure ()
  exact keeps_bind hmode (fun _ => keeps_bind howner fun _ => htimes) w hw

private theorem keeps_touch_truncateClose (hk : fd.file = k) (size : UInt64) :
    Keeps (touchFrame k s g) (truncateClose env fd size) := by
  intro w _
  rcases truncateClose_cases env fd size w with ⟨e, he⟩ | ⟨h₁, htr, hok⟩
  · exact keepsAt_of_error he (OnlyTouches.withHost (Host.touched_closeFd fd)) trivial
  · have ht := (Host.ftruncate_ok htr).1
    rw [hk] at ht
    exact keepsAt_of_ok hok (OnlyTouches.withHost (ht.trans (Host.touched_closeFd fd)))

end Touch

section Exact
variable (hs : Sound w) (hl : Located w.view) (hd : w.inodes.byId id = some d)
include hs hl hd

theorem target_parent {x : FileKey} (hp : w.inodes.byId (d.parent.getD ROOT_ID) = some pd)
    (hx : target w.host.graph pd.key d.name = some x) : x = d.key := by
  refine hl.tracked hs.base hd ?_
  rw [View.tracked_eq hd, View.resolve_eq hp]
  exact hx

/-- Reopening an inode opens its own file. -/
theorem reopen_exact (env : Env) (hre : w.Reopens id flags)
    (hst : (Call.openFile id flags).Steady w) :
    Fails (reopenViaParent env id flags w) w ∨ ∃ fd h₁,
      reopenViaParent env id flags w = .ok fd (w.withHost h₁) ∧
        Host.Touched d.key w.host h₁ ∧ fd.file = d.key := by
  rcases reopenViaParent_cases env id flags w with
    hf | ⟨d', fd, h₁, hroot, hd', hdup, hok⟩ | ⟨d', pd, fd, h₁, hroot, hd', hp, hopen, hok⟩
  · exact Or.inl hf
  · rw [hd] at hd'
    cases hd'
    have ho := Host.dup_ok hdup
    rw [(hs.held id d hd).2] at ho
    refine Or.inr ⟨fd, h₁, hok, ho.touched, ?_⟩
    rw [ho.eq]
  · rw [hd] at hd'
    cases hd'
    obtain ⟨htmp, hlink⟩ := hre.resolve_left hroot
    have hlink' : w.NoLinkAt flags (d.parent.getD ROOT_ID) d.name := by
      rw [View.tracked_eq hd] at hlink
      exact hlink
    rcases Host.openat_ok (hs.names id d hd) (hlink'.noLink hs hp) htmp hopen with
      ⟨x, htar, ho⟩ | ⟨hpath, hcreat, hm⟩
    · rw [(hs.held _ pd hp).2] at htar
      rw [target_parent hs hl hd hp htar] at ho
      refine Or.inr ⟨fd, h₁, hok, ho.touched, ?_⟩
      rw [ho.eq]
    · exfalso
      obtain ⟨h₂, hmade, -, -⟩ := hm.made
      have hnone : w.view.tracked id = none := by
        rw [View.tracked_eq hd, View.resolve_eq hp, target_plain hmade.plain]
        · rw [← (hs.held _ pd hp).2]
          exact hmade.free
        · rw [← (hs.held _ pd hp).2]
          exact hmade.dir
      rcases hst with h | h | h | h
      · exact hroot h
      · rw [hpath] at h
        cases h
      · rw [hcreat] at h
        cases h
      · exact h hnone

private theorem openFile_exact (env : Env) (hre : w.Reopens id flags)
    (hst : (Call.openFile id flags).Steady w) :
    OnlyTouches d.key w (final (openFile env id flags w)) ∧
      ∀ i w', openFile env id flags w = .ok i w' →
        ∃ fd, w'.handles.handles i = some (.file fd) ∧ fd.file = d.key := by
  unfold openFile
  rcases reopen_exact hs hl hd env hre hst with hf | ⟨fd, h₁, hok, ht, hk⟩
  · obtain ⟨e, he⟩ := hf.bind (f := fun fd => PassthroughFs.insertHandle (.file fd))
    rw [he]
    refine ⟨OnlyTouches.refl _ w, fun i w' heq => ?_⟩
    cases heq
  · rw [bind_of_ok hok]
    refine ⟨(OnlyTouches.withHost ht).insertHandle hk, fun i w' heq => ?_⟩
    cases heq
    exact ⟨fd, Function.update_self _ _ _, hk⟩

private theorem opendir_exact (env : Env) (hre : w.Reopens id O_DIRECTORY) :
    OnlyTouches d.key w (final (opendir env id w)) ∧
      ∀ i w', opendir env id w = .ok i w' →
        ∃ fd, w'.handles.handles i = some (.dir fd) ∧ fd.file = d.key := by
  unfold opendir
  have hst : (Call.openFile id O_DIRECTORY).Steady w := Or.inr (Or.inr (Or.inl (by decide)))
  rcases reopen_exact hs hl hd env hre hst with hf | ⟨fd, h₁, hok, ht, hk⟩
  · obtain ⟨e, he⟩ := hf.bind (f := fun fd => (do
      dirFromFd env fd
      PassthroughFs.insertHandle (.dir fd)))
    rw [he]
    refine ⟨OnlyTouches.refl _ w, fun i w' heq => ?_⟩
    cases heq
  · rw [bind_of_ok hok]
    rcases dirFromFd_cases env fd (w.withHost h₁) with hf | hok₂
    · obtain ⟨e, he⟩ := hf.bind (f := fun _ => PassthroughFs.insertHandle (.dir fd))
      rw [he]
      refine ⟨OnlyTouches.withHost (ht.trans (Host.touched_closeFd fd)), fun i w' heq => ?_⟩
      cases heq
    · rw [bind_of_ok hok₂]
      refine ⟨(OnlyTouches.withHost ht).insertHandle hk, fun i w' heq => ?_⟩
      cases heq
      exact ⟨fd, Function.update_self _ _ _, hk⟩

private theorem readlink_exact (env : Env) :
    OnlyTouches d.key w (final (readlink env id w)) ∧
      ∀ out w', readlink env id w = .ok out w' →
        ∃ t info, w.host.node d.key = some ⟨.symlink t, info⟩ ∧ out = t.take 4096 := by
  rcases readlink_cases env id w with ⟨e, he⟩ | ⟨d', pd, out, h₁, hd', hp, hr, hok⟩
  · rw [he]
    refine ⟨OnlyTouches.refl _ w, fun i w' heq => ?_⟩
    cases heq
  · rw [hd] at hd'
    cases hd'
    obtain ⟨x, t, info, htar, hnode, hout, ht, -⟩ := Host.readlinkat_ok (hs.names id d hd) hr
    rw [(hs.held _ pd hp).2] at htar
    rw [target_parent hs hl hd hp htar] at hnode ht
    rw [hok]
    refine ⟨OnlyTouches.withHost ht, fun out' w' heq => ?_⟩
    cases heq
    exact ⟨t, info, hnode, hout⟩

private theorem setSize_exact (env : Env) (size : Option UInt64)
    (hre : size = none ∨ w.Reopens id O_WRONLY) :
    KeepsAt (touchFrame d.key w.inodes w.host.graph) (setSize env id size) w := by
  cases size with
  | none => exact keepsAt_pure () w
  | some size =>
    have hst : (Call.openFile id O_WRONLY).Steady w := Or.inr (Or.inr (Or.inl (by decide)))
    show KeepsAt _ (do
      let wfd ← reopenViaParent env id O_WRONLY
      truncateClose env wfd size) w
    rcases reopen_exact hs hl hd env (hre.resolve_left (by simp)) hst with
      hf | ⟨fd, h₁, hok, ht, hk⟩
    · exact keepsAt_touch_fails hf.bind
    · refine keepsAt_bind (keepsAt_of_ok hok (OnlyTouches.withHost ht)) fun fd' w₁ hok' => ?_
      rw [hok] at hok'
      cases hok'
      exact keeps_touch_truncateClose hk size _ ⟨rfl, ht.graph⟩

private theorem setattr_exact (env : Env) (attr : SetAttr)
    (hre : attr.size = none ∨ w.Reopens id O_WRONLY) :
    OnlyTouches d.key w (final (setattr env id attr w)) ∧
      ∀ a w', setattr env id attr w = .ok a w' →
        ∃ v, w'.host.node d.key = some v ∧ a = .fromStat (w'.host.statOf d.key v) := by
  have hsize := setSize_exact hs hl hd env attr.size hre
  have hinfo : Keeps (touchFrame d.key w.inodes w.host.graph) (setInfo env d attr) := by
    refine keeps_touch_setInfo (hs.names id d hd) (fun i e he => (hs.held i e he).2) ?_ attr
    exact fun pd x hp hx => target_parent hs hl hd hp hx
  have hpre : (touchFrame d.key w.inodes w.host.graph).pre w := ⟨rfl, rfl⟩
  have hinode : inode id w = .ok d w := by
    rcases inode_cases id w with ⟨e, he⟩ | ⟨d', hd', hok⟩
    · unfold inode InodeStore.get at he
      rw [hd] at he
      cases he
    · rw [hd] at hd'
      cases hd'
      exact hok
  unfold setattr
  rw [bind_of_ok hinode]
  have hrest : KeepsAt (touchFrame d.key w.inodes w.host.graph) (do
      setSize env id attr.size
      setInfo env d attr
      getattr env id) w := by
    refine keepsAt_bind hsize fun _ w₁ hok₁ => ?_
    have hrel := hsize.1
    rw [hok₁] at hrel
    exact keeps_bind hinfo (fun _ => keeps_touch_getattr id) w₁
      ((touchFrame d.key w.inodes w.host.graph).stable hpre hrel)
  refine ⟨hrest.1, fun a w' hok => ?_⟩
  obtain ⟨_, w₁, hok₁, hok⟩ := bind_ok hok
  obtain ⟨_, w₂, hok₂, hok⟩ := bind_ok hok
  rcases getattr_cases env id w₂ with ⟨e, he⟩ | ⟨d', st, h₁, hd', hst, hget⟩
  · rw [he] at hok
    cases hok
  · obtain ⟨rfl, v, hv, rfl⟩ := Host.fstat_ok hst
    have hin : w₂.inodes = w.inodes := by
      have hrel₁ := hsize.1
      rw [hok₁] at hrel₁
      have hrel₂ := hinfo.ok ((touchFrame d.key w.inodes w.host.graph).stable hpre hrel₁) hok₂
      exact hrel₂.inodes.trans hrel₁.inodes
    rw [hin, hd] at hd'
    cases hd'
    rw [hget] at hok
    cases hok
    rw [(hs.held id d hd).2] at hv ⊢
    exact ⟨v, hv, rfl⟩

end Exact

/-- Every live inode denotes its own file: `open`, `opendir`, `readlink` and `setattr` on
it act on that file or fail, and touch no other file either way. -/
def NodeExact (w : World) : Prop :=
  ∀ id d, w.inodes.byId id = some d → ∀ env,
    (∀ flags, (Call.openFile id flags).NoFollow w → (Call.openFile id flags).Steady w →
      OnlyTouches d.key w (final (openFile env id flags w)) ∧
      ∀ i w', openFile env id flags w = .ok i w' →
        ∃ fd, w'.handles.handles i = some (.file fd) ∧ fd.file = d.key) ∧
    ((Call.opendir id).NoFollow w →
      OnlyTouches d.key w (final (opendir env id w)) ∧
      ∀ i w', opendir env id w = .ok i w' →
        ∃ fd, w'.handles.handles i = some (.dir fd) ∧ fd.file = d.key) ∧
    (OnlyTouches d.key w (final (readlink env id w)) ∧
      ∀ out w', readlink env id w = .ok out w' →
        ∃ t info, w.host.node d.key = some ⟨.symlink t, info⟩ ∧ out = t.take 4096) ∧
    (∀ attr, (Call.setattr id attr).NoFollow w →
      OnlyTouches d.key w (final (setattr env id attr w)) ∧
      ∀ a w', setattr env id attr w = .ok a w' →
        ∃ v, w'.host.node d.key = some v ∧ a = .fromStat (w'.host.statOf d.key v))

theorem Located.nodeExact (hs : Sound w) (hl : Located w.view) : NodeExact w := by
  intro id d hd env
  exact ⟨fun flags hre hst => openFile_exact hs hl hd env hre hst,
    fun hre => opendir_exact hs hl hd env hre, readlink_exact hs hl hd env,
    fun attr hre => setattr_exact hs hl hd env attr hre⟩

end Riftlessfs.Core
