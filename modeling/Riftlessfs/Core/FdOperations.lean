import Riftlessfs.Core.FdBooks

/-! Each operation of the engine keeps the books of its descriptors, whichever of its syscalls
fail, except a `create` whose `lookup` fails. -/
namespace Riftlessfs.Core
open Lib.Effect Lib.Ownership PassthroughFs Host

inductive EngineOp where
  | call (c : Call)
  | readVectored (handle offset : UInt64) (sizes : List ℕ)
  | writeVectored (handle offset : UInt64) (bufs : List (List UInt8))
  | readdir (pos : ℕ) (handle : UInt64)
  | releasedir (handle : UInt64)

/-- Carry out an operation, whatever it returns. -/
def EngineOp.run (env : Env) : EngineOp → FsM Unit
  | .call c => (fun _ => ()) <$> c.run env
  | .readVectored handle offset sizes =>
    (fun _ => ()) <$> PassthroughFs.readVectored env handle offset sizes
  | .writeVectored handle offset bufs =>
    (fun _ => ()) <$> PassthroughFs.writeVectored env handle offset bufs
  | .readdir pos handle => (fun _ => ()) <$> PassthroughFs.readdir env pos handle
  | .releasedir handle => PassthroughFs.releasedir handle

/-- What happens next: the engine carries out an operation, or others change the host's tree. -/
inductive Occurrence where
  | operation (env : Env) (o : EngineOp)
  | outside (nodes : AList fun _ : FileKey => Node)

/-- The world afterwards. A failed operation counts; a panic stops the run. -/
def World.happen (w : World) : Occurrence → Option World
  | .operation env o =>
    match o.run env w with
    | .ok _ w' => some w'
    | .error (.fail _) w' => some w'
    | .error .panic _ => none
  | .outside nodes => some (w.withHost { w.host with nodes := nodes })

/-- Whether `create` gets its descriptor from `openat` and then fails in `lookup`. -/
def createLeaks (env : Env) (parent : UInt64) (name : Name) (flags mode : UInt32) (w : World) :
    Bool :=
  match inode parent w, cstring name w with
  | .ok parentData _, .ok cname _ =>
    match sys env .openatCreate (fun h =>
        h.openat parentData.fd.file cname (flags ||| O_CREAT ||| O_EXCL) mode env.fresh) w with
    | .ok _ w₁ => match lookup env parent name w₁ with
      | .ok .. => false
      | .error .. => true
    | .error .. => false
  | _, _ => false

def Occurrence.leaks (w : World) : Occurrence → Bool
  | .operation env (.call (.create parent name flags mode)) =>
    createLeaks env parent name flags mode w
  | _ => false

section Results
variable {α β : Type} {loose : Set Fd} {w : World} {env : Env}

/-- How an operation that began in `w` may end: the books balance, and if it failed the tables
are as they were. -/
def Accounts (loose : Set Fd) (w : World) : EStateM.Result Stop World α → Prop
  | .ok _ w' => Balanced loose w' ∧ w'.handles.nextId.toNat ≤ w.handles.nextId.toNat + 1
  | .error e w' => e ≠ .panic ∧ Balanced loose w' ∧ w'.inodes = w.inodes ∧ w'.handles = w.handles

theorem map_of_error {m : FsM α} {g : α → β} {e : Stop} {w' : World} (h : m w = .error e w') :
    (g <$> m) w = .error e w' := by
  rw [map_eq_pure_bind]
  exact bind_of_error h

theorem Accounts.map {m : FsM α} {g : α → β} (h : Accounts loose w (m w)) :
    Accounts loose w ((g <$> m) w) := by
  cases hm : m w with
  | ok a w' =>
    rw [hm] at h
    rw [map_eq_pure_bind, bind_of_ok hm]
    exact h
  | error e w' =>
    rw [hm] at h
    rw [map_of_error hm]
    exact h

theorem accounts_fails {x : EStateM.Result Stop World α} (hf : Fails x w) (hb : Balanced loose w) :
    Accounts loose w x := by
  obtain ⟨e, rfl⟩ := hf
  exact ⟨fun hp => (by cases hp), hb, rfl, rfl⟩

theorem accounts_ok {x : EStateM.Result Stop World α} {a : α} {w' : World} (hok : x = .ok a w')
    (hb : Balanced loose w') (hn : w'.handles.nextId = w.handles.nextId) : Accounts loose w x := by
  rw [hok]
  refine ⟨hb, ?_⟩
  rw [hn]
  exact Nat.le_succ _

/-- Both tables stay, and the books go on balancing. -/
def steadyFrame (loose : Set Fd) : Frame Stop World where
  pre _ := True
  rel w w' := w'.inodes = w.inodes ∧ w'.handles = w.handles ∧ (Balanced loose w → Balanced loose w')
  err e := e ≠ .panic
  refl _ := ⟨rfl, rfl, id⟩
  trans h₁ h₂ := ⟨h₂.1.trans h₁.1, h₂.2.1.trans h₁.2.1, h₂.2.2 ∘ h₁.2.2⟩
  stable _ _ := trivial

theorem steady_of_quiet {m : FsM α} (hm : Keeps quietFrame m) : Keeps (steadyFrame loose) m := by
  intro w _
  obtain ⟨⟨hin, hh, hs⟩, herr⟩ := hm w trivial
  refine ⟨⟨hin, hh, fun hb => ?_⟩, herr⟩
  have hb' := hb.sameFds hs
  have heq : w.withHost (final (m w)).host = final (m w) := by
    unfold World.withHost
    rw [← hin, ← hh]
  rwa [heq] at hb'

theorem accounts_steady {m : FsM α} (hm : Keeps (steadyFrame loose) m) (hb : Balanced loose w) :
    Accounts loose w (m w) := by
  cases h : m w with
  | ok a w' =>
    obtain ⟨-, hh, hbal⟩ := hm.ok trivial h
    exact accounts_ok rfl (hbal hb) (congrArg HandleStore.nextId hh)
  | error e w' =>
    obtain ⟨⟨hin, hh, hbal⟩, herr⟩ := hm.error trivial h
    exact ⟨herr, hbal hb, hin, hh⟩

theorem accounts_quiet {m : FsM α} (hm : Keeps quietFrame m) (hb : Balanced loose w) :
    Accounts loose w (m w) :=
  accounts_steady (steady_of_quiet hm) hb

end Results

section Operations
variable {loose : Set Fd} {w : World} {env : Env} {p ino : UInt64} {n : Name}

/-- `reopen_via_parent` fails, or adds one descriptor. -/
theorem reopen_adds (env : Env) (ino : UInt64) (flags : UInt32) (w : World) :
    Fails (reopenViaParent env ino flags w) w ∨ ∃ fd h,
      reopenViaParent env ino flags w = .ok fd (w.withHost h) ∧ AddsFd w.host h fd := by
  rcases reopenViaParent_cases env ino flags w with
    hf | ⟨d, fd, h, -, -, hdup, hok⟩ | ⟨d, pd, fd, h, -, -, -, hopen, hok⟩
  · exact Or.inl hf
  · exact Or.inr ⟨fd, h, hok, dup_adds fd h hdup⟩
  · exact Or.inr ⟨fd, h, hok, openat_adds fd h hopen⟩

/-- The `size` branch of `setattr` closes what it opens. -/
theorem steady_setSize (ino : UInt64) (size : Option UInt64) :
    Keeps (steadyFrame loose) (setSize env ino size) := by
  cases size with
  | none => exact keeps_pure ()
  | some size =>
    intro w _
    show KeepsAt _ (do
      let wfd ← reopenViaParent env ino O_WRONLY
      truncateClose env wfd size) w
    rcases reopen_adds env ino O_WRONLY w with hf | ⟨fd, h, hok, ha⟩
    · obtain ⟨e, he⟩ := hf.bind (f := fun wfd => truncateClose env wfd size)
      exact keepsAt_of_error he ((steadyFrame loose).refl w) fun hp => by cases hp
    have hclose : ∀ h₁, SameFds h h₁ → Balanced loose w →
        Balanced loose ((w.withHost h).withHost (h₁.closeFd fd)) := by
      intro h₁ hsame hb
      obtain ⟨hfd, hopen⟩ := hb.adds ha
      exact (hopen.sameFds hsame).closeFd hfd
    rcases truncateClose_cases env fd size (w.withHost h) with ⟨e, he⟩ | ⟨h₁, htr, hok₁⟩
    · refine keepsAt_of_error ((bind_of_ok hok).trans he) ⟨rfl, rfl, hclose h (.refl h)⟩ ?_
      exact fun hp => by cases hp
    · exact keepsAt_of_ok ((bind_of_ok hok).trans hok₁)
        ⟨rfl, rfl, hclose h₁ (ftruncate_same size _ h₁ htr)⟩

private theorem steady_setattr (ino : UInt64) (attr : SetAttr) :
    Keeps (steadyFrame loose) (setattr env ino attr) :=
  keeps_bind (steady_of_quiet (quiet_inode ino)) fun d =>
    keeps_bind (steady_setSize ino _) fun _ =>
      keeps_bind (steady_of_quiet (quiet_setInfo d attr)) fun _ =>
        steady_of_quiet (quiet_getattr ino)

/-- `lookup` fails and leaves the world as it is, or keeps the books and the handles. -/
theorem lookup_books (env : Env) (hb : Balanced loose w) (hi : w.inodes.Inv) (p : UInt64)
    (n : Name) : Fails (lookup env p n w) w ∨ ∃ r w', lookup env p n w = .ok r w' ∧
      Balanced loose w' ∧ w'.handles = w.handles := by
  rcases lookup_cases env p n hi with
    hf | ⟨pd, st, h₀, flags, fd, h₁, d, s, dropped, -, hst, -, hopen, hreg, hok⟩
  · exact Or.inl hf
  · have hb₀ := hb.sameFds (fstatat_same st h₀ hst)
    have hadds : AddsFd h₀ h₁ fd := openPath_adds .referenced fd h₁ hopen
    exact Or.inr ⟨_, _, hok, hb₀.register hi hadds hreg, rfl⟩

theorem lookup_accounts (hb : Balanced loose w) (hi : w.inodes.Inv) :
    Accounts loose w (lookup env p n w) := by
  rcases lookup_books env hb hi p n with hf | ⟨r, w', hok, hb', hh⟩
  · exact accounts_fails hf hb
  · exact accounts_ok hok hb' (congrArg HandleStore.nextId hh)

private theorem mkdir_accounts (hb : Balanced loose w) (hi : w.inodes.Inv) (mode : UInt32) :
    Accounts loose w (mkdir env p n mode w) := by
  rcases mkdir_cases env p n mode w with hf | ⟨pd, h₁, -, hmk, heq⟩
  · exact accounts_fails hf hb
  · rw [heq]
    exact lookup_accounts (w := w.withHost h₁) (hb.sameFds (mkdirat_same () h₁ hmk)) hi

private theorem symlink_accounts (hb : Balanced loose w) (hi : w.inodes.Inv) (t : Name) :
    Accounts loose w (symlink env p n t w) := by
  rcases symlink_cases env p n t w with hf | ⟨pd, h₁, -, hln, heq⟩
  · exact accounts_fails hf hb
  · rw [heq]
    exact lookup_accounts (w := w.withHost h₁) (hb.sameFds (symlinkat_same t () h₁ hln)) hi

private theorem rename_accounts (hb : Balanced loose w) (p' : UInt64) (n' : Name) :
    Accounts loose w (rename env p n p' n' w) := by
  rcases rename_cases env p p' n n' w with hf | ⟨pd, pd', h₁, -, -, hmv, hok⟩
  · exact accounts_fails hf hb
  · have hb₁ := hb.sameFds (renameat_same _ n' () h₁ hmv)
    exact accounts_ok hok (hb₁.noteRename env.order p n p' n') rfl

private theorem forget_accounts (hb : Balanced loose w) (entries : List (UInt64 × UInt64)) :
    Accounts loose w (forgetEntries entries w) := by
  have hall : ∃ w', forgetEntries entries w = .ok () w' ∧ Balanced loose w' ∧
      w'.handles = w.handles := by
    induction entries generalizing w with
    | nil => exact ⟨w, rfl, hb, rfl⟩
    | cons e rest ih =>
      obtain ⟨w', hok, hb', hh⟩ := ih (hb.forget e.1 e.2)
      refine ⟨w', ?_, hb', hh⟩
      unfold forgetEntries
      rw [bind_of_ok (forget_eq e.1 e.2 w)]
      exact hok
  obtain ⟨w', hok, hb', hh⟩ := hall
  exact accounts_ok hok hb' (congrArg HandleStore.nextId hh)

theorem release_accounts (hb : Balanced loose w) (handle : UInt64) :
    Accounts loose w (release handle w) := by
  unfold release HandleStore.remove
  cases hd : w.handles.handles handle with
  | none => exact accounts_fails ⟨_, rfl⟩ hb
  | some data => exact accounts_ok rfl (hb.removeHandle hd) rfl

/-- The table takes a descriptor just opened. -/
theorem insert_accounts {data : HandleData} {h : Host} (hb : Balanced loose w)
    (hroom : w.handles.nextId.toNat + 1 < 2 ^ 64) (ha : AddsFd w.host h data.fd) :
    Accounts loose w (insertHandle data (w.withHost h)) := by
  obtain ⟨hfd, hopen⟩ := hb.adds ha
  refine ⟨hopen.insertHandle hfd hroom, ?_⟩
  show (w.handles.nextId + 1).toNat ≤ _
  rw [InodeStore.toNat_succ hroom]

private theorem openFile_accounts (hb : Balanced loose w)
    (hroom : w.handles.nextId.toNat + 1 < 2 ^ 64)
    (flags : UInt32) : Accounts loose w (openFile env ino flags w) := by
  unfold openFile
  rcases reopen_adds env ino flags w with hf | ⟨fd, h, hok, ha⟩
  · exact accounts_fails hf.bind hb
  · rw [bind_of_ok hok]
    exact insert_accounts hb hroom ha

private theorem opendir_accounts (hb : Balanced loose w)
    (hroom : w.handles.nextId.toNat + 1 < 2 ^ 64) :
    Accounts loose w (opendir env ino w) := by
  unfold opendir
  rcases reopen_adds env ino O_DIRECTORY w with hf | ⟨fd, h, hok, ha⟩
  · exact accounts_fails hf.bind hb
  rw [bind_of_ok hok]
  rcases dirFromFd_cases env fd (w.withHost h) with hf | hok₁
  · obtain ⟨e, he⟩ := hf.bind (f := fun _ => insertHandle (.dir fd))
    obtain ⟨hfd, hopen⟩ := hb.adds ha
    rw [he]
    exact ⟨fun hp => (by cases hp), hopen.closeFd hfd, rfl, rfl⟩
  · rw [bind_of_ok hok₁]
    exact insert_accounts hb hroom ha

/-- `create` fails before it has a descriptor, or gets one and goes on to `lookup`. -/
theorem create_steps (env : Env) (p : UInt64) (n : Name) (flags mode : UInt32) (w : World) :
    (Fails (create env p n flags mode w) w ∧ createLeaks env p n flags mode w = false) ∨
    ∃ fd h, AddsFd w.host h fd ∧
      create env p n flags mode w = (do
        let r ← lookup env p n
        let handle ← insertHandle (.file fd)
        pure (r.1, handle, r.2)) (w.withHost h) ∧
      createLeaks env p n flags mode w = match lookup env p n (w.withHost h) with
        | .ok .. => false
        | .error .. => true := by
  unfold PassthroughFs.create createLeaks
  rcases inode_cases p w with hf | ⟨pd, hpd, hok⟩
  · obtain ⟨e, he⟩ := hf
    exact Or.inl ⟨Fails.bind ⟨e, he⟩, by rw [he]⟩
  rw [bind_of_ok hok, hok]
  rcases cstring_cases n w with hf | hok₁
  · obtain ⟨e, he⟩ := hf
    exact Or.inl ⟨Fails.bind ⟨e, he⟩, by rw [he]⟩
  rw [bind_of_ok hok₁, hok₁]
  rcases sys_cases env .openatCreate (fun h =>
    h.openat pd.fd.file n (flags ||| O_CREAT ||| O_EXCL) mode env.fresh) w with
    hf | ⟨fd, h, hopen, hok₂⟩
  · obtain ⟨e, he⟩ := hf
    refine Or.inl ⟨Fails.bind ⟨e, he⟩, ?_⟩
    simp only [he]
  · refine Or.inr ⟨fd, h, openat_adds fd h hopen, bind_of_ok hok₂, ?_⟩
    simp only [hok₂]

private theorem create_accounts (hb : Balanced loose w) (hi : w.inodes.Inv)
    (hroom : w.handles.nextId.toNat + 1 < 2 ^ 64) {flags mode : UInt32}
    (hl : createLeaks env p n flags mode w = false) :
    Accounts loose w (create env p n flags mode w) := by
  rcases create_steps env p n flags mode w with ⟨hf, -⟩ | ⟨fd, h, ha, heq, hleak⟩
  · exact accounts_fails hf hb
  obtain ⟨hfd, hopen⟩ := hb.adds ha
  rw [heq]
  rcases lookup_books env hopen hi p n with ⟨e, he⟩ | ⟨r, w', hok, hb', hh⟩
  · rw [hleak, he] at hl
    cases hl
  · have hnext : w'.handles.nextId = w.handles.nextId := congrArg HandleStore.nextId hh
    rw [bind_of_ok hok]
    refine ⟨@Balanced.insertHandle loose w' (.file fd) hb' hfd (by rwa [hnext]), ?_⟩
    show (w'.handles.nextId + 1).toNat ≤ _
    rw [hnext, InodeStore.toNat_succ hroom]

/-- When `lookup` fails, the descriptor of `create` stays open with no owner. -/
theorem create_leaves_loose (hb : Balanced loose w) (hi : w.inodes.Inv) {flags mode : UInt32}
    (hl : createLeaks env p n flags mode w = true) :
    ∃ e w' fd, create env p n flags mode w = .error (.fail e) w' ∧ w'.inodes = w.inodes ∧
      w'.handles = w.handles ∧ fd ∉ loose ∧ Balanced (insert fd loose) w' := by
  rcases create_steps env p n flags mode w with ⟨-, hnot⟩ | ⟨fd, h, ha, heq, hleak⟩
  · rw [hl] at hnot
    cases hnot
  obtain ⟨hfd, hopen⟩ := hb.adds ha
  rcases lookup_books env hopen hi p n with ⟨e, he⟩ | ⟨r, w', hok, -, -⟩
  · exact ⟨e, w.withHost h, fd, heq.trans (bind_of_error he), rfl, rfl, hfd, hopen⟩
  · rw [hleak, hok] at hl
    cases hl

theorem Call.accounts (hb : Balanced loose w) (hi : w.inodes.Inv)
    (hroom : w.handles.nextId.toNat + 1 < 2 ^ 64) (c : Call)
    (hl : (Occurrence.operation env (.call c)).leaks w = false) :
    Accounts loose w (c.run env w) := by
  cases c with
  | nothing => exact accounts_ok rfl hb rfl
  | lookup p n => exact (lookup_accounts hb hi).map
  | forget entries => exact (forget_accounts hb entries).map
  | getattr ino => exact (accounts_quiet (quiet_getattr ino) hb).map
  | setattr ino attr => exact (accounts_steady (steady_setattr ino attr) hb).map
  | readlink ino => exact (accounts_quiet (quiet_readlink ino) hb).map
  | symlink p n t => exact (symlink_accounts hb hi t).map
  | mkdir p n mode => exact (mkdir_accounts hb hi mode).map
  | unlink p n => exact (accounts_quiet (quiet_unlink p n) hb).map
  | rmdir p n => exact (accounts_quiet (quiet_rmdir p n) hb).map
  | rename p n p' n' => exact (rename_accounts hb p' n').map
  | link ino p n => exact (accounts_quiet (quiet_link ino p n) hb).map
  | openFile ino flags => exact (openFile_accounts hb hroom flags).map
  | create p n flags mode => exact (create_accounts hb hi hroom hl).map
  | read handle off size => exact (accounts_quiet (quiet_read handle off size) hb).map
  | write handle off data => exact (accounts_quiet (quiet_write handle off data) hb).map
  | fsync handle => exact (accounts_quiet (quiet_fsync handle) hb).map
  | release handle => exact (release_accounts hb handle).map
  | opendir ino => exact (opendir_accounts hb hroom).map
  | statfs ino => exact (accounts_quiet (quiet_statfs ino) hb).map

theorem EngineOp.accounts (hb : Balanced loose w) (hi : w.inodes.Inv)
    (hroom : w.handles.nextId.toNat + 1 < 2 ^ 64) (o : EngineOp)
    (hl : (Occurrence.operation env o).leaks w = false) : Accounts loose w (o.run env w) := by
  cases o with
  | call c => exact (c.accounts hb hi hroom hl).map
  | readVectored handle off sizes =>
    exact (accounts_quiet (quiet_readVectored handle off sizes) hb).map
  | writeVectored handle off bufs =>
    exact (accounts_quiet (quiet_writeVectored handle off bufs) hb).map
  | readdir pos handle => exact (accounts_quiet (quiet_readdir pos handle) hb).map
  | releasedir handle => exact release_accounts hb handle

end Operations

end Riftlessfs.Core
