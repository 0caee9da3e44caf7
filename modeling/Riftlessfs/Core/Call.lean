import Riftlessfs.Core.QuietOps
import Riftlessfs.Core.InodeRuns

/-! One call on the engine, as a request asks for it, and what calls do to the inode
table. -/
namespace Riftlessfs.Core
open Lib.Effect PassthroughFs

inductive Call where
  | nothing
  | lookup (parent : UInt64) (name : Name)
  | forget (entries : List (UInt64 × UInt64))
  | getattr (ino : UInt64)
  | setattr (ino : UInt64) (attr : SetAttr)
  | readlink (ino : UInt64)
  | symlink (parent : UInt64) (name target : Name)
  | mkdir (parent : UInt64) (name : Name) (mode : UInt32)
  | unlink (parent : UInt64) (name : Name)
  | rmdir (parent : UInt64) (name : Name)
  | rename (parent : UInt64) (name : Name) (newParent : UInt64) (newName : Name)
  | link (ino newParent : UInt64) (newName : Name)
  | openFile (ino : UInt64) (flags : UInt32)
  | create (parent : UInt64) (name : Name) (flags mode : UInt32)
  | read (handle offset : UInt64) (size : ℕ)
  | write (handle offset : UInt64) (data : List UInt8)
  | fsync (handle : UInt64)
  | release (handle : UInt64)
  | opendir (ino : UInt64)
  | statfs (ino : UInt64)
  deriving DecidableEq

def forgetEntries : List (UInt64 × UInt64) → FsM Unit
  | [] => pure ()
  | e :: rest => do
    PassthroughFs.forget e.1 e.2
    forgetEntries rest

/-- Carry out a call. The result is the node id whose entry the caller is told. -/
def Call.run (env : Env) : Call → FsM (Option UInt64)
  | .nothing => pure none
  | .lookup parent name => (some ·.1) <$> PassthroughFs.lookup env parent name
  | .forget entries => (fun _ => none) <$> forgetEntries entries
  | .getattr ino => (fun _ => none) <$> PassthroughFs.getattr env ino
  | .setattr ino attr => (fun _ => none) <$> PassthroughFs.setattr env ino attr
  | .readlink ino => (fun _ => none) <$> PassthroughFs.readlink env ino
  | .symlink parent name target => (some ·.1) <$> PassthroughFs.symlink env parent name target
  | .mkdir parent name mode => (some ·.1) <$> PassthroughFs.mkdir env parent name mode
  | .unlink parent name => (fun _ => none) <$> PassthroughFs.unlink env parent name
  | .rmdir parent name => (fun _ => none) <$> PassthroughFs.rmdir env parent name
  | .rename parent name newParent newName =>
    (fun _ => none) <$> PassthroughFs.rename env parent name newParent newName
  | .link ino newParent newName =>
    (fun _ => some ino) <$> PassthroughFs.link env ino newParent newName
  | .openFile ino flags => (fun _ => none) <$> PassthroughFs.openFile env ino flags
  | .create parent name flags mode =>
    (some ·.1) <$> PassthroughFs.create env parent name flags mode
  | .read handle offset size => (fun _ => none) <$> PassthroughFs.read env handle offset size
  | .write handle offset data => (fun _ => none) <$> PassthroughFs.write env handle offset data
  | .fsync handle => (fun _ => none) <$> PassthroughFs.fsync env handle
  | .release handle => (fun _ => none) <$> PassthroughFs.release handle
  | .opendir ino => (fun _ => none) <$> PassthroughFs.opendir env ino
  | .statfs ino => (fun _ => none) <$> PassthroughFs.statfs env ino

/-- The table is left alone, and no operation panics. -/
def tableFrame : Frame Stop World where
  pre _ := True
  rel w w' := w'.inodes = w.inodes
  err e := e ≠ .panic
  refl _ := rfl
  trans h₁ h₂ := h₂.trans h₁
  stable _ _ := trivial

section Table
variable {α β : Type} {env : Env} {w : World}

theorem keeps_of_quiet {m : FsM α} (hm : Keeps quietFrame m) : Keeps tableFrame m := by
  intro w _
  obtain ⟨hrel, herr⟩ := hm w trivial
  exact ⟨hrel.1, herr⟩

theorem keeps_of_cases {m : FsM α} (h : ∀ w, ∃ w',
    (Fails (m w) w' ∨ ∃ a, m w = .ok a w') ∧ w'.inodes = w.inodes) : Keeps tableFrame m := by
  intro w _
  obtain ⟨w', ⟨e, he⟩ | ⟨a, hok⟩, hw⟩ := h w
  · exact keepsAt_of_error he hw fun hp => by cases hp
  · exact keepsAt_of_ok hok hw

theorem keeps_insertHandle (data : HandleData) : Keeps tableFrame (insertHandle data) :=
  keeps_of_cases fun _ => ⟨_, Or.inr ⟨_, rfl⟩, rfl⟩

theorem keeps_release (handle : UInt64) : Keeps tableFrame (release handle) := by
  refine keeps_of_cases fun w => ?_
  unfold release
  cases w.handles.remove handle with
  | error e => exact ⟨w, Or.inl ⟨e, rfl⟩, rfl⟩
  | ok r => exact ⟨_, Or.inr ⟨(), rfl⟩, rfl⟩

theorem keeps_reopenViaParent (ino : UInt64) (flags : UInt32) :
    Keeps tableFrame (reopenViaParent env ino flags) := by
  refine keeps_of_cases fun w => ?_
  rcases reopenViaParent_cases env ino flags w with
    hf | ⟨d, fd, h₁, -, -, -, hok⟩ | ⟨d, pd, fd, h₁, -, -, -, -, hok⟩
  · exact ⟨w, Or.inl hf, rfl⟩
  · exact ⟨_, Or.inr ⟨fd, hok⟩, rfl⟩
  · exact ⟨_, Or.inr ⟨fd, hok⟩, rfl⟩

theorem keeps_setSize (ino : UInt64) (size : Option UInt64) :
    Keeps tableFrame (setSize env ino size) := by
  cases size with
  | none => exact keeps_pure ()
  | some size =>
    refine keeps_bind (keeps_reopenViaParent ino _) fun fd => keeps_of_cases fun w => ?_
    rcases truncateClose_cases env fd size w with hf | ⟨h₁, -, hok⟩
    · exact ⟨_, Or.inl hf, rfl⟩
    · exact ⟨_, Or.inr ⟨_, hok⟩, rfl⟩

private theorem keeps_setattr (ino : UInt64) (attr : SetAttr) :
    Keeps tableFrame (setattr env ino attr) :=
  keeps_bind (keeps_of_quiet (quiet_inode ino)) fun d => keeps_bind (keeps_setSize ino _) fun _ =>
    keeps_bind (keeps_of_quiet (quiet_setInfo d attr)) fun _ =>
      keeps_of_quiet (quiet_getattr ino)

private theorem keeps_openFile (ino : UInt64) (flags : UInt32) :
    Keeps tableFrame (openFile env ino flags) :=
  keeps_bind (keeps_reopenViaParent ino flags) fun _ => keeps_insertHandle _

private theorem keeps_dirFromFd (fd : Fd) : Keeps tableFrame (dirFromFd env fd) := by
  refine keeps_of_cases fun w => ?_
  rcases dirFromFd_cases env fd w with hf | hok
  · exact ⟨_, Or.inl hf, rfl⟩
  · exact ⟨w, Or.inr ⟨_, hok⟩, rfl⟩

private theorem keeps_opendir (ino : UInt64) : Keeps tableFrame (opendir env ino) :=
  keeps_bind (keeps_reopenViaParent ino _) fun _ => keeps_bind (keeps_dirFromFd _) fun _ =>
    keeps_insertHandle _

end Table

def TableEffect (env : Env) (s : InodeStore) (r : Option UInt64) (s' : InodeStore) :
    Call → Prop
  | .lookup p n | .symlink p n _ | .mkdir p n _ | .create p n _ _ =>
    ∃ fd st, (InodeStore.Op.register p n fd st).apply s = some s' ∧
      (InodeStore.Op.register p n fd st).returns s = r
  | .forget entries => r = none ∧ s' = entries.foldl (fun s e => (s.forget e.1 e.2).1) s
  | .rename p n p' n' => r = none ∧ s' = s.noteRename env.order p n p' n'
  | .link ino _ _ => r = some ino ∧ s' = s
  | _ => r = none ∧ s' = s

/-- The call returns with the effect `P` on the table, or fails and leaves it alone. -/
def Settles {α : Type} (s : InodeStore) (x : EStateM.Result Stop World α)
    (P : α → InodeStore → Prop) : Prop :=
  (∃ e w', x = .error (.fail e) w' ∧ w'.inodes = s) ∨ ∃ a w', x = .ok a w' ∧ P a w'.inodes

section Settles
variable {α β : Type} {env : Env} {w : World} {s : InodeStore}

theorem Keeps.settles {m : FsM α} (hm : Keeps tableFrame m) :
    Settles w.inodes (m w) fun _ s' => s' = w.inodes := by
  cases h : m w with
  | error e w' =>
    obtain ⟨hrel, herr⟩ := hm.error trivial h
    cases e with
    | fail e => exact Or.inl ⟨e, w', rfl, hrel⟩
    | panic => exact absurd rfl herr
  | ok a w' => exact Or.inr ⟨a, w', rfl, hm.ok trivial h⟩

theorem Settles.map {m : FsM α} {g : α → β} {P : α → InodeStore → Prop}
    {Q : β → InodeStore → Prop} (hm : Settles s (m w) P) (hPQ : ∀ a s', P a s' → Q (g a) s') :
    Settles s ((g <$> m) w) Q := by
  rw [map_eq_pure_bind]
  rcases hm with ⟨e, w', he, hw⟩ | ⟨a, w', hok, hP⟩
  · exact Or.inl ⟨e, w', bind_of_error he, hw⟩
  · exact Or.inr ⟨g a, w', bind_of_ok hok, hPQ a _ hP⟩

/-- `lookup` registers the file it finds and returns its id. -/
theorem lookup_settles (env : Env) (hi : w.inodes.Inv) (p : UInt64) (n : Name) :
    Settles w.inodes (lookup env p n w) fun r s' =>
      ∃ fd st, (InodeStore.Op.register p n fd st).apply w.inodes = some s' ∧
        (InodeStore.Op.register p n fd st).returns w.inodes = some r.1 := by
  rcases lookup_cases env p n hi with
    ⟨e, he⟩ | ⟨pd, st, h₀, flags, fd, h₁, d, s', dropped, -, -, -, -, hreg, hok⟩
  · exact Or.inl ⟨e, w, he, rfl⟩
  · refine Or.inr ⟨_, _, hok, fd, st, ?_, ?_⟩
    · simp only [InodeStore.Op.apply, hreg, Option.map_some]
    · simp only [InodeStore.Op.returns, hreg, Option.map_some]

private theorem mkdir_settles (hi : w.inodes.Inv) (p : UInt64) (n : Name) (mode : UInt32) :
    Settles w.inodes (mkdir env p n mode w) fun r s' =>
      ∃ fd st, (InodeStore.Op.register p n fd st).apply w.inodes = some s' ∧
        (InodeStore.Op.register p n fd st).returns w.inodes = some r.1 := by
  rcases mkdir_cases env p n mode w with
    ⟨e, he⟩ | ⟨pd, h₁, -, -, heq⟩
  · exact Or.inl ⟨e, w, he, rfl⟩
  · rw [heq]
    exact lookup_settles env (w := w.withHost h₁) hi p n

private theorem symlink_settles (hi : w.inodes.Inv) (p : UInt64) (n t : Name) :
    Settles w.inodes (symlink env p n t w) fun r s' =>
      ∃ fd st, (InodeStore.Op.register p n fd st).apply w.inodes = some s' ∧
        (InodeStore.Op.register p n fd st).returns w.inodes = some r.1 := by
  rcases symlink_cases env p n t w with
    ⟨e, he⟩ | ⟨pd, h₁, -, -, heq⟩
  · exact Or.inl ⟨e, w, he, rfl⟩
  · rw [heq]
    exact lookup_settles env (w := w.withHost h₁) hi p n

private theorem create_settles (hi : w.inodes.Inv) (p : UInt64) (n : Name) (flags mode : UInt32) :
    Settles w.inodes (create env p n flags mode w) fun r s' =>
      ∃ fd st, (InodeStore.Op.register p n fd st).apply w.inodes = some s' ∧
        (InodeStore.Op.register p n fd st).returns w.inodes = some r.1 := by
  rcases create_cases env p n flags mode w with
    ⟨e, he⟩ | ⟨pd, fd, h₁, -, -, heq⟩
  · exact Or.inl ⟨e, w, he, rfl⟩
  · rw [heq]
    rcases lookup_settles env (w := w.withHost h₁) hi p n with
      ⟨e, w', he, hw⟩ | ⟨r, w', hok, hP⟩
    · exact Or.inl ⟨e, w', bind_of_error he, hw⟩
    · exact Or.inr ⟨_, _, bind_of_ok hok, hP⟩

private theorem forgetEntries_ok (entries : List (UInt64 × UInt64)) (w : World) :
    ∃ w', forgetEntries entries w = .ok () w' ∧
      w'.inodes = entries.foldl (fun s e => (s.forget e.1 e.2).1) w.inodes := by
  induction entries generalizing w with
  | nil => exact ⟨w, rfl, rfl⟩
  | cons e rest ih =>
    obtain ⟨w₂, hok₂, hw₂⟩ := ih ⟨(w.inodes.forget e.1 e.2).1, w.handles,
      w.host.dropOpt (w.inodes.forget e.1 e.2).2⟩
    refine ⟨w₂, ?_, hw₂⟩
    unfold forgetEntries
    rw [bind_of_ok (forget_eq e.1 e.2 w)]
    exact hok₂

theorem Call.run_forget (env : Env) (entries : List (UInt64 × UInt64)) (w : World) :
    ∃ w', (Call.forget entries).run env w = .ok none w' ∧
      w'.inodes = entries.foldl (fun s e => (s.forget e.1 e.2).1) w.inodes := by
  obtain ⟨w', hok, hw⟩ := forgetEntries_ok entries w
  refine ⟨w', ?_, hw⟩
  show ((fun _ => none) <$> forgetEntries entries : FsM (Option UInt64)) w = _
  rw [map_eq_pure_bind, bind_of_ok hok]
  rfl

/-- Every call either fails and leaves the table alone or has its effect on it. -/
theorem Call.run_settles (env : Env) (c : Call) (hi : w.inodes.Inv) :
    Settles w.inodes (c.run env w) fun r s' => TableEffect env w.inodes r s' c := by
  have hkeep : ∀ {α : Type} {m : FsM α}, Keeps tableFrame m →
      Settles w.inodes (((fun _ => none) <$> m : FsM (Option UInt64)) w)
        fun r s' => r = none ∧ s' = w.inodes :=
    fun hm => (Keeps.settles hm).map fun _ _ hs => ⟨rfl, hs⟩
  cases c with
  | nothing => exact Or.inr ⟨none, w, rfl, rfl, rfl⟩
  | lookup p n => exact (lookup_settles env hi p n).map fun _ _ h => h
  | forget entries =>
    obtain ⟨w', hok, hw⟩ := Call.run_forget env entries w
    exact Or.inr ⟨none, w', hok, rfl, hw⟩
  | getattr ino => exact hkeep (keeps_of_quiet (quiet_getattr ino))
  | setattr ino attr => exact hkeep (keeps_setattr ino attr)
  | readlink ino => exact hkeep (keeps_of_quiet (quiet_readlink ino))
  | symlink p n t => exact (symlink_settles hi p n t).map fun _ _ h => h
  | mkdir p n mode => exact (mkdir_settles hi p n mode).map fun _ _ h => h
  | unlink p n => exact hkeep (keeps_of_quiet (quiet_unlink p n))
  | rmdir p n => exact hkeep (keeps_of_quiet (quiet_rmdir p n))
  | rename p n p' n' =>
    rcases rename_cases env p p' n n' w with
      ⟨e, he⟩ | ⟨pd, pd', h₁, -, -, -, hok⟩
    · refine Or.inl ⟨e, w, ?_, rfl⟩
      show ((fun _ => none) <$> PassthroughFs.rename env p n p' n' : FsM (Option UInt64)) w = _
      rw [map_eq_pure_bind, bind_of_error he]
    · refine Or.inr ⟨none, ⟨w.inodes.noteRename env.order p n p' n', w.handles, h₁⟩, ?_,
        rfl, rfl⟩
      show ((fun _ => none) <$> PassthroughFs.rename env p n p' n' : FsM (Option UInt64)) w = _
      rw [map_eq_pure_bind, bind_of_ok hok]
      rfl
  | link ino p n =>
    exact (Keeps.settles (keeps_of_quiet (quiet_link ino p n))).map fun _ _ hs => ⟨rfl, hs⟩
  | openFile ino flags => exact hkeep (keeps_openFile ino flags)
  | create p n flags mode => exact (create_settles hi p n flags mode).map fun _ _ h => h
  | read handle off size => exact hkeep (keeps_of_quiet (quiet_read handle off size))
  | write handle off data => exact hkeep (keeps_of_quiet (quiet_write handle off data))
  | fsync handle => exact hkeep (keeps_of_quiet (quiet_fsync handle))
  | release handle => exact hkeep (keeps_release handle)
  | opendir ino => exact hkeep (keeps_opendir ino)
  | statfs ino => exact hkeep (keeps_of_quiet (quiet_statfs ino))

end Settles

section Counters
open InodeStore
variable {s s' : InodeStore} {n : ℕ}

private theorem forgetAll_inv (hi : s.Inv) (hb : s.Bounded n) (hn : n + 3 < 2 ^ 64)
    (entries : List (UInt64 × UInt64)) :
    (entries.foldl (fun s e => (s.forget e.1 e.2).1) s).Inv ∧
      (entries.foldl (fun s e => (s.forget e.1 e.2).1) s).Bounded n := by
  induction entries generalizing s with
  | nil => exact ⟨hi, hb⟩
  | cons e rest ih =>
    obtain ⟨s', hs', hi', hb'⟩ := (Op.forget e.1 e.2).apply_inv hi hb hn
    cases hs'
    exact ih hi' hb'

private theorem noteRename_bounded (hb : s.Bounded n) (order : List UInt64) (p : UInt64) (m : Name)
    (p' : UInt64) (m' : Name) : (s.noteRename order p m p' m').Bounded n := by
  rcases noteRename_cases s order p m p' m' with ⟨-, h⟩ | ⟨id₀, d₀, -, hd₀, -, -, h⟩
  · rwa [h]
  · rw [h]
    refine ⟨hb.next, fun id d hd => ?_⟩
    rw [setData_byId] at hd
    split_ifs at hd
    · cases hd
      exact hb.lookups id₀ d₀ hd₀
    · exact hb.lookups id d hd

/-- The table keeps its invariant through the effect of any call. -/
theorem tableEffect_inv {env : Env} {r : Option UInt64} {c : Call}
    (h : TableEffect env s r s' c) (hi : s.Inv) (hb : s.Bounded n) (hn : n + 3 < 2 ^ 64) :
    s'.Inv ∧ s'.Bounded (n + 1) := by
  have hreg : ∀ {p name}, (∃ fd st, (Op.register p name fd st).apply s = some s' ∧
      (Op.register p name fd st).returns s = r) → s'.Inv ∧ s'.Bounded (n + 1) := by
    rintro p name ⟨fd, st, happ, -⟩
    obtain ⟨s₁, hs₁, hi₁, hb₁⟩ := (Op.register p name fd st).apply_inv hi hb hn
    rw [happ] at hs₁
    cases hs₁
    exact ⟨hi₁, hb₁⟩
  have hsame : s' = s → s'.Inv ∧ s'.Bounded (n + 1) := by
    rintro rfl
    exact ⟨hi, hb.mono (Nat.le_succ n)⟩
  cases c with
  | lookup p name => exact hreg h
  | symlink p name t => exact hreg h
  | mkdir p name mode => exact hreg h
  | create p name flags mode => exact hreg h
  | forget entries =>
    obtain ⟨-, rfl⟩ := h
    obtain ⟨hi', hb'⟩ := forgetAll_inv hi hb hn entries
    exact ⟨hi', hb'.mono (Nat.le_succ n)⟩
  | rename p name p' name' =>
    obtain ⟨-, rfl⟩ := h
    exact ⟨hi.noteRename _ _ _ _ _, (noteRename_bounded hb _ _ _ _ _).mono (Nat.le_succ n)⟩
  | _ => exact hsame h.2

theorem start_inv {host : Host} {root : FileKey} {w : World}
    (hnew : PassthroughFs.new host root = some w) :
    w.inodes.Inv ∧ w.inodes.Bounded 0 ∧ ∀ id, id ≠ ROOT_ID → w.inodes.byId id = none := by
  unfold PassthroughFs.new at hnew
  split at hnew
  · cases hnew
    refine ⟨InodeStore.new_inv _ _, InodeStore.new_bounded _ _, fun id hid => ?_⟩
    simp [InodeStore.new, Function.update_of_ne hid]
  · cases hnew

end Counters

/-- A host whose top directory holds the shared directory `s` and, outside it, the
file `x`. -/
def smallHost : Host where
  nodes := ((AList.insert (⟨1, 2⟩ : FileKey) (⟨.dir ⟨1, 2⟩
      ((AList.insert [115] (⟨1, 10⟩ : FileKey) ∅).insert [120] ⟨1, 11⟩) false,
      ⟨0o755, 0, 0, 0, (0, 0), (0, 0), (0, 0)⟩⟩ : Node) ∅).insert ⟨1, 10⟩
    ⟨.dir ⟨1, 2⟩ ∅ false, ⟨0o755, 0, 0, 0, (0, 0), (0, 0), (0, 0)⟩⟩).insert ⟨1, 11⟩
    ⟨.file [1, 2, 3], ⟨0o600, 0, 0, 0, (0, 0), (0, 0), (0, 0)⟩⟩
  top := ⟨1, 2⟩
  fds := []
  nextFd := 3
  log := []
  umask := 0o22
  dioAlign := 512

/-- The engine serving `s` of `smallHost`. -/
def smallWorld : World :=
  let fd : Fd := ⟨3, ⟨1, 10⟩, O_DIRECTORY ||| O_CLOEXEC⟩
  let host := { smallHost with fds := [fd], nextFd := 4 }
  ⟨.new fd (host.statOf ⟨1, 10⟩
    ⟨.dir ⟨1, 2⟩ ∅ false, ⟨0o755, 0, 0, 0, (0, 0), (0, 0), (0, 0)⟩⟩), .new, host⟩

theorem smallWorld_new : PassthroughFs.new smallHost ⟨1, 10⟩ = some smallWorld := rfl

/-- A host that grants every syscall and every block of memory, gives the next new file the key
`(1, ino)` and yields inodes in the order `order`. -/
def calm (ino : UInt64) (order : List UInt64) : Env where
  fault _ := none
  fresh := ⟨1, ino⟩
  now := (0, 0)
  room := none
  statvfs := ⟨0, 0, 0, 0, 0, 0, 0, 0⟩
  order := order
  grants _ := true

end Riftlessfs.Core
