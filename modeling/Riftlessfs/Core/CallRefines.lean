import Riftlessfs.Core.CallActs

/-! The operations that go through a tracked location or a handle, and the refinement
theorem for all calls. -/
namespace Riftlessfs.Core
open Lib Lib.Effect PassthroughFs

variable {P : View → Act → Prop} {α : Type} {env : Env} {w w' w₁ : World} {h : Host}
  {p id : UInt64} {n : Name} {k : FileKey} {d pd : InodeData} {flags : UInt32} {fd : Fd}
  {evs : List Event} {a : Act}

/-- Reopening `id` follows no link and makes no unnamed file. -/
def World.Reopens (w : World) (id : UInt64) (flags : UInt32) : Prop :=
  id = ROOT_ID ∨ (hasFlag flags O_PATH = true ∨ hasFlag flags O_TMPFILE = false) ∧
    (hasFlag flags O_NOFOLLOW = true ∨ (w.view.tracked id).any w.host.isSymlink = false)

instance (w : World) (id : UInt64) (flags : UInt32) : Decidable (w.Reopens id flags) :=
  inferInstanceAs (Decidable (id = ROOT_ID ∨
    (hasFlag flags O_PATH = true ∨ hasFlag flags O_TMPFILE = false) ∧
      (hasFlag flags O_NOFOLLOW = true ∨ (w.view.tracked id).any w.host.isSymlink = false)))

/-- An act that uses file `k` and leaves the view alone. -/
def Uses (P : View → Act → Prop) (v : View) (k : FileKey) : Prop :=
  ∃ a, P v a ∧ k ∈ a.subjects v ∧
    ∀ evs, (∀ e ∈ evs, e.key = k ∧ e.kind ≠ .written) → Does a v v evs

/-- What reopening gives: a descriptor of a file that the location leads to. -/
structure Reopened (P : View → Act → Prop) (w w' : World) (flags : UInt32) (fd : Fd)
    (evs : List Event) : Prop where
  outcome : Outcome P w w' evs
  spare : Spare w' fd
  opened : ⟨.opened, fd.file⟩ ∈ evs
  inodes : w'.inodes = w.inodes
  uses : hasFlag flags O_CREAT = false → w'.view = w.view ∧ Uses P w.view fd.file

section Reopen

theorem Reopened.of_touched (hs : Sound w) (ho : Host.OpenedFile w.host h k flags fd)
    (ha : P w.view a) (hk : k ∈ a.subjects w.view)
    (hd : ∀ evs, (∀ e ∈ evs, e.key = k ∧ e.kind ≠ .written) → Does a w.view w.view evs)
    {flags' : UInt32} : ∃ evs, Reopened P w (w.withHost h) flags' fd evs := by
  obtain ⟨evs, hlog, hout⟩ := Outcome.touched hs ho.touched ho.adds.grows ha hk hd
  refine ⟨evs, hout, hs.spare_of_adds ho.adds, opened_mem ho hlog, rfl, fun _ => ⟨?_, ?_⟩⟩
  · show View.mk w.inodes h.graph = _
    rw [ho.touched.graph]
    rfl
  · rw [ho.eq]
    exact ⟨a, ha, hk, hd⟩

/-- `reopen_via_parent` fails without effect, or opens the file the tracked location
leads to. With `O_CREAT` it may make that file first. -/
theorem reopen_outcome (env : Env) (hs : Sound w) (hre : w.Reopens id flags)
    (hdup : P w.view (.duplicated id))
    (htouch : ∀ d k, w.inodes.byId id = some d →
      P w.view (.touched (d.parent.getD ROOT_ID) d.name k))
    (hmade : ∀ d k, id ≠ ROOT_ID → w.inodes.byId id = some d → hasFlag flags O_PATH = false →
      hasFlag flags O_CREAT = true → w.host.inUse k = false →
      P w.view (.made (d.parent.getD ROOT_ID) d.name k false)) :
    Fails (reopenViaParent env id flags w) w ∨ ∃ fd w' evs,
      reopenViaParent env id flags w = .ok fd w' ∧ Reopened P w w' flags fd evs := by
  rcases reopenViaParent_cases env id flags w with
    hf | ⟨d, fd, h₁, hroot, hd, hdup', hok⟩ | ⟨d, pd, fd, h₁, hroot, hd, hp, hopen, hok⟩
  · exact Or.inl hf
  · have ho := Host.dup_ok hdup'
    rw [(hs.held id d hd).2] at ho
    obtain ⟨evs, hr⟩ := Reopened.of_touched hs ho hdup ⟨d, hd, rfl⟩
      fun evs he => Does.duplicated d hd hroot he
    exact Or.inr ⟨fd, _, evs, hok, hr⟩
  · obtain ⟨htmp, hlink⟩ := hre.resolve_left hroot
    have hlink' : w.NoLinkAt flags (d.parent.getD ROOT_ID) d.name := by
      rw [View.tracked_eq hd] at hlink
      exact hlink
    have hn := hs.names id d hd
    rcases Host.openat_ok hn (hlink'.noLink hs hp) htmp hopen with
      ⟨k, htar, ho⟩ | ⟨hpath, hcreat, hm⟩
    · rw [(hs.held _ pd hp).2] at htar
      obtain ⟨evs, hr⟩ := Reopened.of_touched hs ho (htouch d k hd) rfl
        fun evs he => Does.touched pd hp htar he
      exact Or.inr ⟨fd, _, evs, hok, hr⟩
    · obtain ⟨hfile, hadds, hout⟩ := MadeOpen.outcome hs hp hm (hmade d _ hroot hd hpath hcreat)
      refine Or.inr ⟨fd, _, _, hok, hout, hs.spare_of_adds hadds, ?_, rfl, fun hc => ?_⟩
      · rw [hfile]
        simp
      · rw [hcreat] at hc
        cases hc

private theorem openFile_keepsAt (hs : Sound w) (hre : w.Reopens id flags)
    (hdup : P w.view (.duplicated id))
    (htouch : ∀ d k, w.inodes.byId id = some d →
      P w.view (.touched (d.parent.getD ROOT_ID) d.name k))
    (hmade : ∀ d k, id ≠ ROOT_ID → w.inodes.byId id = some d → hasFlag flags O_PATH = false →
      hasFlag flags O_CREAT = true → w.host.inUse k = false →
      P w.view (.made (d.parent.getD ROOT_ID) d.name k false)) :
    KeepsAt (actFrame P) (openFile env id flags) w := by
  unfold openFile
  rcases reopen_outcome env hs hre hdup htouch hmade with
    hf | ⟨fd, w₁, evs, hok, hr⟩
  · exact keepsAt_fails hf.bind (Outcome.refl hs)
  · refine keepsAt_ok (r := w₁.handles.nextId) ?_
      (hr.outcome.insertHandle (.file fd) hr.spare hr.opened)
    rw [bind_of_ok hok]
    rfl

/-- Opening with flags that never make a file. -/
theorem reopen_plain_outcome (env : Env) (hs : Sound w) (hre : w.Reopens id flags)
    (hflags : hasFlag flags O_CREAT = false) (hdup : P w.view (.duplicated id))
    (htouch : ∀ d k, w.inodes.byId id = some d →
      P w.view (.touched (d.parent.getD ROOT_ID) d.name k)) :
    Fails (reopenViaParent env id flags w) w ∨ ∃ fd w' evs,
      reopenViaParent env id flags w = .ok fd w' ∧ Reopened P w w' flags fd evs := by
  refine reopen_outcome env hs hre hdup htouch fun d k _ _ _ hc _ => ?_
  rw [hflags] at hc
  cases hc

/-- Closing a descriptor just opened. -/
theorem Reopened.closed {w₁ : World} {evs : List Event} (hr : Reopened P w w₁ flags fd evs) :
    Outcome P w (w₁.withHost (w₁.host.closeFd fd)) evs :=
  ⟨hr.outcome.sound.closeFd hr.spare.apart, hr.outcome.log, hr.outcome.chain, hr.outcome.handles⟩

private theorem opendir_keepsAt (hs : Sound w) (hre : w.Reopens id O_DIRECTORY)
    (hdup : P w.view (.duplicated id))
    (htouch : ∀ d k, w.inodes.byId id = some d →
      P w.view (.touched (d.parent.getD ROOT_ID) d.name k)) :
    KeepsAt (actFrame P) (opendir env id) w := by
  unfold opendir
  rcases reopen_plain_outcome env hs hre (by decide) hdup htouch with
    hf | ⟨fd, w₁, evs, hok, hr⟩
  · exact keepsAt_fails hf.bind (Outcome.refl hs)
  rcases dirFromFd_cases env fd w₁ with hf | hok₂
  · refine keepsAt_fails ?_ hr.closed
    rw [Fails, bind_of_ok hok]
    exact hf.bind
  · refine keepsAt_ok (r := w₁.handles.nextId) ?_
      (hr.outcome.insertHandle (.dir fd) hr.spare hr.opened)
    rw [bind_of_ok hok, bind_of_ok hok₂]
    rfl

theorem Sound.touched_closeFd (hs : Sound w) (hsp : Spare w fd) (hu : Uses P w.view fd.file)
    (ht : Host.Touched fd.file w.host h) (hsame : Host.SameFds w.host h) :
    ∃ evs, Outcome P w (w.withHost (h.closeFd fd)) evs := by
  obtain ⟨a, ha, hk, hd⟩ := hu
  obtain ⟨evs, hlog, ho⟩ := Outcome.touched hs ht hsame.grows ha hk hd
  exact ⟨evs, ho.sound.closeFd hsp.apart, ho.log, ho.chain, ho.handles⟩

private theorem setSize_keepsAt (env : Env) (hs : Sound w) (size : Option UInt64)
    (hre : size = none ∨ w.Reopens id O_WRONLY) (hdup : P w.view (.duplicated id))
    (htouch : ∀ d k, w.inodes.byId id = some d →
      P w.view (.touched (d.parent.getD ROOT_ID) d.name k)) :
    KeepsAt (actFrame P) (setSize env id size) w := by
  cases size with
  | none => exact keepsAt_pure () w
  | some size =>
    show KeepsAt (actFrame P) (do
      let wfd ← reopenViaParent env id O_WRONLY
      truncateClose env wfd size) w
    rcases reopen_plain_outcome env hs (hre.resolve_left (by simp)) (by decide) hdup
      htouch with hf | ⟨fd, w₁, evs, hok, hr⟩
    · exact keepsAt_fails hf.bind (Outcome.refl hs)
    obtain ⟨hview, hu⟩ := hr.uses (by decide)
    rw [← hview] at hu
    have hs₁ := hr.outcome.sound
    rcases truncateClose_cases env fd size w₁ with hf | ⟨h₂, htr, hok₂⟩
    · refine keepsAt_fails ?_ hr.closed
      rw [Fails, bind_of_ok hok]
      exact hf
    · obtain ⟨ht, hsame⟩ := Host.ftruncate_ok htr
      obtain ⟨evs₂, ho₂⟩ := hs₁.touched_closeFd hr.spare hu ht hsame
      refine keepsAt_ok (r := ()) ?_ (hr.outcome.trans ho₂)
      rw [bind_of_ok hok]
      exact hok₂

end Reopen

section Info

/-- A syscall on the file a name leads to. -/
theorem sys_touched_keepsAt (hs : Sound w) (hp : w.inodes.byId p = some pd) {site : Site}
    {f : Host → Except Errno (α × Host)}
    (hf : ∀ a h, f w.host = .ok (a, h) → ∃ k, target w.host.graph pd.fd.file n = some k ∧
      Host.Touched k w.host h ∧ Host.SameFds w.host h)
    (ha : ∀ k, P w.view (.touched p n k)) : KeepsAt (actFrame P) (sys env site f) w := by
  rcases sys_cases env site f w with hfail | ⟨a, h, hfa, hok⟩
  · exact keepsAt_fails hfail (Outcome.refl hs)
  · obtain ⟨k, htar, ht, hsame⟩ := hf a h hfa
    obtain ⟨evs, -, ho⟩ := Outcome.touched_at hs hp htar ht hsame.grows (ha k)
    exact keepsAt_ok hok ho

theorem parentFdName_keepsAt (hs : Sound w) (d : InodeData) :
    KeepsAt (actFrame P) (parentFdName d) w := by
  rcases parentFdName_cases d w with hf | ⟨pd, -, hok⟩
  · exact keepsAt_fails hf (Outcome.refl hs)
  · exact keepsAt_ok hok (Outcome.refl hs)

theorem parentFdName_ok {r : Fd × Name} (hok : parentFdName d w = .ok r w') :
    w' = w ∧ ∃ pd, w.inodes.byId (d.parent.getD ROOT_ID) = some pd ∧ r = (pd.fd, d.name) := by
  rcases parentFdName_cases d w with ⟨e, he⟩ | ⟨pd, hp, hok'⟩
  · rw [he] at hok
    cases hok
  · rw [hok'] at hok
    cases hok
    exact ⟨rfl, pd, hp, rfl⟩

section Steps
variable (env : Env) (hs : Sound w) (hn : Slashless n) (hp : w.inodes.byId p = some pd)
  (ha : ∀ k, P w.view (.touched p n k))
include hs hn hp ha

private theorem setMode_keepsAt (mode : Option UInt32) :
    KeepsAt (actFrame P) (setMode env pd.fd n mode) w := by
  unfold setMode
  cases mode with
  | none => exact keepsAt_pure () w
  | some mode => exact sys_touched_keepsAt hs hp (fun _ _ hc => Host.fchmodat_ok hn hc) ha

private theorem setOwner_keepsAt (uid gid : Option UInt32) :
    KeepsAt (actFrame P) (setOwner env pd.fd n uid gid) w := by
  unfold setOwner
  split_ifs
  · exact sys_touched_keepsAt hs hp (fun _ _ hc => Host.fchownat_ok hn hc) ha
  · exact keepsAt_pure () w

private theorem setTimes_keepsAt (atime mtime : Option Time) :
    KeepsAt (actFrame P) (setTimes env pd.fd n atime mtime) w := by
  unfold setTimes
  split_ifs
  · exact sys_touched_keepsAt hs hp (fun _ _ hc => Host.utimensat_ok hn hc) ha
  · exact keepsAt_pure () w

end Steps

/-- What a computation leaves sound, and what it leaves of the table. -/
theorem after_keepsAt {m : FsM α} {r : α} (hs : Sound w) (hm : KeepsAt (actFrame P) m w)
    (ht : Keeps tableFrame m) (hok : m w = .ok r w') : Sound w' ∧ w'.inodes = w.inodes := by
  have hrel := hm.1
  rw [hok] at hrel
  obtain ⟨evs, ho⟩ := hrel hs
  exact ⟨ho.sound, ht.ok trivial hok⟩

private theorem setInfo_keepsAt (env : Env) (hs : Sound w) (hd : w.inodes.byId id = some d)
    (attr : SetAttr)
    (ha : ∀ v k, v.store.byId id = some d →
      P v (.touched (d.parent.getD ROOT_ID) d.name k)) :
    KeepsAt (actFrame P) (setInfo env d attr) w := by
  unfold setInfo
  split_ifs
  swap
  · exact keepsAt_pure () w
  refine keepsAt_bind (parentFdName_keepsAt hs d) fun r w₁ hok => ?_
  obtain ⟨rfl, pd, hp, rfl⟩ := parentFdName_ok hok
  have hn := hs.names id d hd
  have hmode := setMode_keepsAt env hs hn hp (fun k => ha w₁.view k hd) attr.mode
  refine keepsAt_bind hmode fun _ w₂ hok₂ => ?_
  obtain ⟨hs₂, hin₂⟩ := after_keepsAt hs hmode (keeps_of_quiet (quiet_setMode _ _ _)) hok₂
  rw [← hin₂] at hd hp
  have howner := setOwner_keepsAt env hs₂ hn hp (fun k => ha w₂.view k hd)
    attr.uid attr.gid
  refine keepsAt_bind howner fun _ w₃ hok₃ => ?_
  obtain ⟨hs₃, hin₃⟩ := after_keepsAt hs₂ howner (keeps_of_quiet (quiet_setOwner _ _ _ _)) hok₃
  rw [← hin₃] at hd hp
  exact setTimes_keepsAt env hs₃ hn hp (fun k => ha w₃.view k hd) attr.atime attr.mtime

private theorem setattr_keepsAt (hs : Sound w) (attr : SetAttr)
    (hre : attr.size = none ∨ w.Reopens id O_WRONLY) (hdup : P w.view (.duplicated id))
    (ha : ∀ v d k, v.store.byId id = some d →
      P v (.touched (d.parent.getD ROOT_ID) d.name k)) :
    KeepsAt (actFrame P) (setattr env id attr) w := by
  unfold setattr
  refine keepsAt_bind (inode_keepsAt hs id) fun d w₁ hok => ?_
  obtain ⟨rfl, hd⟩ := inode_ok hok
  have hsize := setSize_keepsAt env hs attr.size hre hdup fun d k => ha w₁.view d k
  refine keepsAt_bind hsize fun _ w₂ hok₂ => ?_
  obtain ⟨hs₂, hin₂⟩ := after_keepsAt hs hsize (keeps_setSize _ _) hok₂
  rw [← hin₂] at hd
  have hinfo := setInfo_keepsAt env hs₂ hd attr fun v k => ha v d k
  refine keepsAt_bind hinfo fun _ w₃ hok₃ => ?_
  exact getattr_keepsAt (after_keepsAt hs₂ hinfo (keeps_of_quiet (quiet_setInfo _ _)) hok₃).1 id

private theorem readlink_keepsAt (hs : Sound w)
    (ha : ∀ d k, w.inodes.byId id = some d →
      P w.view (.touched (d.parent.getD ROOT_ID) d.name k)) :
    KeepsAt (actFrame P) (readlink env id) w := by
  unfold readlink
  refine keepsAt_bind (inode_keepsAt hs id) fun d w₁ hok => ?_
  obtain ⟨rfl, hd⟩ := inode_ok hok
  refine keepsAt_bind (parentFdName_keepsAt hs d) fun r w₂ hok₂ => ?_
  obtain ⟨rfl, pd, hp, rfl⟩ := parentFdName_ok hok₂
  refine sys_touched_keepsAt hs hp (fun out h hr => ?_) fun k => ha d k hd
  obtain ⟨k, t, info, htar, -, -, ht, hsame⟩ := Host.readlinkat_ok (hs.names id d hd) hr
  exact ⟨k, htar, ht, hsame⟩

end Info

section Handles
variable {i : UInt64}

theorem liftExcept_keepsAt (hs : Sound w) (x : World → Except FsError α) :
    KeepsAt (actFrame P) (fun w => liftExcept (x w) w) w := by
  rcases liftExcept_cases (x w) w with hf | ⟨a, -, hok⟩
  · exact keepsAt_fails hf (Outcome.refl hs)
  · exact keepsAt_ok hok (Outcome.refl hs)

theorem fileFd_ok (hok : fileFd i w = .ok fd w') :
    w' = w ∧ w.handles.handles i = some (.file fd) := by
  unfold fileFd HandleStore.withFile liftExcept at hok
  split at hok
  · cases hok
    rename_i heq
    split at heq
    · cases heq
      exact ⟨rfl, ‹_›⟩
    · cases heq
    · cases heq
  · cases hok

private theorem pread_host {off : UInt64} {size : ℕ} {out : List UInt8} {h' : Host}
    (hr : h.pread fd off size = .ok (out, h')) : h' = h := by
  unfold Host.pread at hr
  split at hr
  · cases hr
  split at hr
  · cases hr
  split at hr
  · split at hr
    · cases hr
    · cases hr
      rfl
  · cases hr
  · cases hr

private theorem read_keepsAt (hs : Sound w) (off : UInt64) (size : ℕ) :
    KeepsAt (actFrame P) (read env i off size) w := by
  refine keepsAt_bind (liftExcept_keepsAt hs _) fun fd w₁ hok => ?_
  obtain ⟨rfl, -⟩ := fileFd_ok hok
  exact sys_same_keepsAt hs fun _ _ hr => pread_host hr

private theorem written_outcome (hs : Sound w) (new : List UInt8) (ha : P w.view (.written k)) :
    Outcome P w (w.withHost ((w.host.setData k new).note .written k)) [⟨.written, k⟩] := by
  have hdata := Host.nodesOnly_setData (h := w.host) (k := k) new
  have halters : w.host.AltersOnly {k} ((w.host.setData k new).note .written k) :=
    (Host.touched_setData new).alters
  refine ⟨?_, ?_, ⟨{k}, ?_, halters⟩, fun _ _ hj => Or.inl hj⟩
  · exact hs.withHost (Host.SameFds.grows ⟨hdata.fds, hdata.nextFd⟩)
  · show (w.host.setData k new).log ++ _ = _
    rw [hdata.log]
  · show Chain P w.view ⟨w.inodes, ((w.host.setData k new).note .written k).graph⟩ _ _
    rw [Host.graph_note, Host.graph_setData]
    exact Chain.single ha Does.written

private theorem write_keepsAt (hs : Sound w) (off : UInt64) (data : List UInt8)
    (ha : ∀ hd, w.handles.handles i = some hd → P w.view (.written hd.fd.file)) :
    KeepsAt (actFrame P) (write env i off data) w := by
  refine keepsAt_bind (liftExcept_keepsAt hs _) fun fd w₁ hok => ?_
  obtain ⟨rfl, hi⟩ := fileFd_ok hok
  rcases sys_cases env .pwrite (fun h => h.pwrite env.room fd off data) w₁ with
    hf | ⟨count, h, hpw, hok₂⟩
  · exact keepsAt_fails hf (Outcome.refl hs)
  · obtain ⟨old, info, -, -, rfl⟩ := Host.pwrite_ok hpw
    exact keepsAt_ok hok₂ (written_outcome hs _ (ha _ hi))

private theorem fsync_keepsAt (hs : Sound w) : KeepsAt (actFrame P) (fsync env i) w := by
  refine keepsAt_bind (liftExcept_keepsAt hs _) fun fd w₁ hok => ?_
  obtain ⟨rfl, -⟩ := fileFd_ok hok
  refine sys_same_keepsAt hs fun _ h hr => ?_
  cases hr
  rfl

private theorem statfs_keepsAt (hs : Sound w) : KeepsAt (actFrame P) (statfs env id) w := by
  refine keepsAt_bind (inode_keepsAt hs id) fun d w₁ hok => ?_
  obtain ⟨rfl, -⟩ := inode_ok hok
  refine sys_same_keepsAt hs fun _ h hr => ?_
  cases hr
  rfl

private theorem release_keepsAt (hs : Sound w) : KeepsAt (actFrame P) (release i) w := by
  cases hi : w.handles.handles i with
  | none =>
    have hrem : w.handles.remove i = .error (.unknownHandle i) := by
      unfold HandleStore.remove
      rw [hi]
    have hfail : Fails (release i w) w := by
      refine ⟨.unknownHandle i, ?_⟩
      unfold release
      rw [hrem]
    exact keepsAt_fails hfail (Outcome.refl hs)
  | some hd =>
    have hrem : w.handles.remove i = .ok (hd,
        { w.handles with handles := Function.update w.handles.handles i none }) := by
      unfold HandleStore.remove
      rw [hi]
    have hok : release i w = .ok () ⟨w.inodes,
        { w.handles with handles := Function.update w.handles.handles i none },
        w.host.closeFd hd.fd⟩ := by
      unfold release
      rw [hrem]
      rfl
    have hold : ∀ j hd', Function.update w.handles.handles i none j = some hd' →
        w.handles.handles j = some hd' := by
      intro j hd' hj
      rw [Function.update_apply] at hj
      split_ifs at hj
      exact hj
    exact keepsAt_ok hok ⟨hs.removeHandle hi, (List.append_nil _).symm,
      ⟨∅, Chain.nil _, fun _ _ => rfl⟩, fun j hd' hj => Or.inl (hold j hd' hj)⟩

def forgotten (s : InodeStore) (entries : List (UInt64 × UInt64)) : InodeStore :=
  entries.foldl (fun s e => (s.forget e.1 e.2).1) s

private theorem forgetEntries_keepsAt (entries : List (UInt64 × UInt64)) (hs : Sound w)
    (ha : ∀ pre e suf, entries = pre ++ e :: suf →
      P ⟨forgotten w.inodes pre, w.host.graph⟩ (.forgot e.1 e.2)) :
    KeepsAt (actFrame P) (forgetEntries entries) w := by
  induction entries generalizing w with
  | nil => exact keepsAt_pure () w
  | cons e rest ih =>
    have hgraph : ∀ o, (w.host.dropOpt o).graph = w.host.graph := by
      intro o
      cases o <;> rfl
    have hout : Outcome P w ⟨(w.inodes.forget e.1 e.2).1, w.handles,
        w.host.dropOpt (w.inodes.forget e.1 e.2).2⟩ [] := by
      have halters : w.host.AltersOnly ∅ (w.host.dropOpt (w.inodes.forget e.1 e.2).2) := by
        intro x _
        cases (w.inodes.forget e.1 e.2).2 <;> rfl
      refine ⟨hs.forget e.1 e.2, ?_, ⟨∅, ?_, halters⟩, fun _ _ hi => Or.inl hi⟩
      · rw [List.append_nil]
        cases (w.inodes.forget e.1 e.2).2 <;> rfl
      · show Chain P w.view ⟨_, (w.host.dropOpt _).graph⟩ [] _
        rw [hgraph]
        exact Chain.single (ha [] e rest rfl) Does.forgot
    unfold forgetEntries
    refine keepsAt_bind (keepsAt_ok (forget_eq e.1 e.2 w) hout) fun _ w₁ hok => ?_
    rw [forget_eq] at hok
    cases hok
    refine ih hout.sound fun pre e' suf heq => ?_
    show P ⟨_, (w.host.dropOpt _).graph⟩ _
    rw [hgraph]
    exact ha (e :: pre) e' suf (by rw [heq, List.cons_append])

end Handles

/-- The names a call takes, each with the directory it is in. -/
def Call.names : Call → List (UInt64 × Name)
  | .lookup p n | .symlink p n _ | .mkdir p n _ | .unlink p n | .rmdir p n | .create p n _ _
  | .link _ p n => [(p, n)]
  | .rename p n p' n' => [(p, n), (p', n')]
  | _ => []

/-- The call follows no link at the end of a path and makes no unnamed file. -/
def Call.NoFollow (w : World) : Call → Prop
  | .openFile ino flags => w.Reopens ino flags
  | .opendir ino => w.Reopens ino O_DIRECTORY
  | .setattr ino attr => attr.size = none ∨ w.Reopens ino O_WRONLY
  | .create p n flags _ => hasFlag flags O_PATH = true → w.NoLinkAt flags p n
  | _ => True

instance (w : World) : (c : Call) → Decidable (c.NoFollow w)
  | .openFile ino flags => inferInstanceAs (Decidable (w.Reopens ino flags))
  | .opendir ino => inferInstanceAs (Decidable (w.Reopens ino O_DIRECTORY))
  | .setattr ino attr => inferInstanceAs (Decidable (attr.size = none ∨ w.Reopens ino O_WRONLY))
  | .create p n flags _ =>
    inferInstanceAs (Decidable (hasFlag flags O_PATH = true → w.NoLinkAt flags p n))
  | .nothing | .lookup .. | .forget .. | .getattr .. | .readlink .. | .symlink .. | .mkdir ..
  | .unlink .. | .rmdir .. | .rename .. | .link .. | .read .. | .write .. | .fsync ..
  | .release .. | .statfs .. => inferInstanceAs (Decidable True)

/-- The call makes a file under the name `n` of `p`, unless there is one. -/
def Call.Makes (w : World) (p : UInt64) (n : Name) : Call → Prop
  | .symlink q m _ | .mkdir q m _ | .create q m _ _ => q = p ∧ m = n
  | .openFile ino flags => ino ≠ ROOT_ID ∧ hasFlag flags O_PATH = false ∧
      hasFlag flags O_CREAT = true ∧
      ∃ d, w.inodes.byId ino = some d ∧ d.parent.getD ROOT_ID = p ∧ d.name = n
  | _ => False

/-- The acts a call made in world `w` may perform in view `v`. -/
def Allows (env : Env) (w : World) (c : Call) (v : View) : Act → Prop
  | .touched p n _ => (∃ id d, v.store.byId id = some d ∧ d.parent.getD ROOT_ID = p ∧ d.name = n) ∨
      (p, n) ∈ c.names
  | .duplicated _ => True
  | .written k => ∃ i hd, w.handles.handles i = some hd ∧ hd.fd.file = k
  | .seen p n _ => (p, n) ∈ c.names
  | .forgot id count => ∃ pre suf, c = .forget (pre ++ (id, count) :: suf) ∧
      v = ⟨forgotten w.inodes pre, w.host.graph⟩
  | .made p n k _ => v = w.view ∧ c.Makes w p n ∧ w.host.inUse k = false
  | .removed p n _ => v = w.view ∧ (c = .unlink p n ∨ c = .rmdir p n)
  | .moved order p n p' n' _ => v = w.view ∧ order = env.order ∧ c = .rename p n p' n'
  | .linked id p n => v = w.view ∧ c = .link id p n

/-- Every call performs acts it asked for. -/
theorem Call.run_acts (env : Env) (c : Call) (hs : Sound w) (hr : Roomy w.inodes)
    (hn : ∀ q ∈ c.names, Slashless q.2) (hf : c.NoFollow w) :
    KeepsAt (actFrame (Allows env w c)) (c.run env) w := by
  have htouch : ∀ id v d k, v.store.byId id = some d →
      Allows env w c v (.touched (d.parent.getD ROOT_ID) d.name k) :=
    fun id v d k hd => Or.inl ⟨id, d, hd, rfl, rfl⟩
  cases c with
  | nothing => exact keepsAt_pure none w
  | lookup p n =>
    exact keepsAt_map (lookup_keepsAt hs hr (hn (p, n) (by simp [names])) fun k => by
      simp [Allows, names])
  | forget entries =>
    refine keepsAt_map (forgetEntries_keepsAt entries hs fun pre e suf heq => ?_)
    exact ⟨pre, suf, by rw [heq], rfl⟩
  | getattr ino => exact keepsAt_map (getattr_keepsAt hs ino)
  | setattr ino attr =>
    exact keepsAt_map (setattr_keepsAt hs attr hf trivial (htouch ino))
  | readlink ino => exact keepsAt_map (readlink_keepsAt hs (htouch ino w.view))
  | symlink p n t =>
    exact keepsAt_map (symlink_keepsAt hs hr (hn (p, n) (by simp [names]))
      (fun k hk => ⟨rfl, ⟨rfl, rfl⟩, hk⟩) fun v k => by simp [Allows, names])
  | mkdir p n mode =>
    exact keepsAt_map (mkdir_keepsAt hs hr (hn (p, n) (by simp [names]))
      (fun k hk => ⟨rfl, ⟨rfl, rfl⟩, hk⟩) fun v k => by simp [Allows, names])
  | unlink p n =>
    exact keepsAt_map (unlink_keepsAt hs (hn (p, n) (by simp [names]))
      fun k => ⟨rfl, Or.inl rfl⟩)
  | rmdir p n =>
    exact keepsAt_map (rmdir_keepsAt hs (hn (p, n) (by simp [names]))
      fun k => ⟨rfl, Or.inr rfl⟩)
  | rename p n p' n' =>
    exact keepsAt_map (rename_keepsAt hs (hn (p, n) (by simp [names]))
      (hn (p', n') (by simp [names])) fun m => ⟨rfl, rfl, rfl⟩)
  | link ino p n =>
    exact keepsAt_map (link_keepsAt hs (hn (p, n) (by simp [names])) ⟨rfl, rfl⟩)
  | openFile ino flags =>
    refine keepsAt_map (openFile_keepsAt hs hf trivial (htouch ino w.view)
      fun d k hroot hd hpath hcreat hk =>
        ⟨rfl, ⟨hroot, hpath, hcreat, d, hd, rfl, rfl⟩, hk⟩)
  | create p n flags mode =>
    exact keepsAt_map (create_keepsAt hs hr (hn (p, n) (by simp [names])) hf
      (fun k => by simp [Allows, names]) (fun k hk => ⟨rfl, ⟨rfl, rfl⟩, hk⟩)
      fun v k => by simp [Allows, names])
  | read i off size => exact keepsAt_map (read_keepsAt hs off size)
  | write i off data => exact keepsAt_map (write_keepsAt hs off data fun hd hi => ⟨i, hd, hi, rfl⟩)
  | fsync i => exact keepsAt_map (fsync_keepsAt hs)
  | release i => exact keepsAt_map (release_keepsAt hs)
  | opendir ino => exact keepsAt_map (opendir_keepsAt hs hf trivial (htouch ino w.view))
  | statfs ino => exact keepsAt_map (statfs_keepsAt hs)

end Riftlessfs.Core
