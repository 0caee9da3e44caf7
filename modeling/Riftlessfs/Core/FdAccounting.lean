import Riftlessfs.Lib.Run
import Riftlessfs.Core.FdOperations
import Riftlessfs.Core.Sound

/-! Runs of the engine: which descriptors are open after each operation. An operation that fails
leaves both tables as they were. -/
namespace Riftlessfs.Core
open Lib.Effect Lib.Run Lib.Ownership PassthroughFs Host

/-- Beyond those open `before`, the open descriptors are exactly the inodes' and the handles',
and each has one owner. -/
structure World.FdsExact (before : List Fd) (w : World) : Prop where
  owned : ∀ fd, (fd ∈ w.host.fds ∧ fd ∉ before) ↔
    (∃ ino d, w.inodes.byId ino = some d ∧ d.fd = fd) ∨
      ∃ handle data, w.handles.handles handle = some data ∧ data.fd = fd
  once : ∀ o o' fd, w.owner o = some fd → w.owner o' = some fd → o = o'

section Worlds
variable {loose : Set Fd} {w w' : World} {n : ℕ}

/-- A world `n` operations after the start whose books balance. -/
structure Ready (loose : Set Fd) (n : ℕ) (w : World) : Prop where
  balanced : Balanced loose w
  inv : w.inodes.Inv
  bounded : w.inodes.Bounded n
  handles : w.handles.nextId.toNat ≤ n + 1

/-- What an operation does to the inode table. -/
theorem EngineOp.table_inv (hr : Ready loose n w) (hn : n + 3 < 2 ^ 64) (env : Env)
    (o : EngineOp) : (final (o.run env w)).inodes.Inv ∧
      (final (o.run env w)).inodes.Bounded (n + 1) := by
  have hsame : ∀ {α : Type} {m : FsM α}, Keeps tableFrame m →
      (final (m w)).inodes.Inv ∧ (final (m w)).inodes.Bounded (n + 1) := by
    intro α m hm
    have hrel : (final (m w)).inodes = w.inodes := (hm w trivial).1
    rw [hrel]
    exact ⟨hr.inv, hr.bounded.mono (Nat.le_succ n)⟩
  cases o with
  | call c =>
    have hfinal : final ((EngineOp.call c).run env w) = final (c.run env w) := by
      show final (((fun _ => ()) <$> c.run env : FsM Unit) w) = _
      rw [map_eq_pure_bind, final_bind_pure]
    rw [hfinal]
    rcases Call.run_settles env c hr.inv with ⟨e, w', he, hin⟩ | ⟨r, w', hok, heff⟩
    · rw [he, final_error, hin]
      exact ⟨hr.inv, hr.bounded.mono (Nat.le_succ n)⟩
    · rw [hok, final_ok]
      exact tableEffect_inv heff hr.inv hr.bounded hn
  | readVectored handle off sizes =>
    exact hsame (keeps_map (keeps_of_quiet (quiet_readVectored handle off sizes)))
  | writeVectored handle off bufs =>
    exact hsame (keeps_map (keeps_of_quiet (quiet_writeVectored handle off bufs)))
  | readdir pos handle => exact hsame (keeps_map (keeps_of_quiet (quiet_readdir pos handle)))
  | releasedir handle => exact hsame (keeps_release handle)

/-- Without a leak the books still balance. -/
theorem happen_ready (hr : Ready loose n w) (hn : n + 3 < 2 ^ 64) {x : Occurrence}
    (hl : x.leaks w = false) : ∃ w', w.happen x = some w' ∧ Ready loose (n + 1) w' := by
  have hhandles := hr.handles
  cases x with
  | outside nodes =>
    exact ⟨_, rfl, hr.balanced.sameFds ⟨rfl, rfl⟩, hr.inv, hr.bounded.mono (Nat.le_succ n),
      Nat.le_succ_of_le hhandles⟩
  | operation env o =>
    have hacc := o.accounts hr.balanced hr.inv (by omega) hl
    have htab := o.table_inv hr hn env
    cases hrun : o.run env w with
    | ok a w' =>
      rw [hrun] at hacc htab
      obtain ⟨hb, hnext⟩ := hacc
      refine ⟨w', ?_, hb, htab.1, htab.2, by omega⟩
      simp only [World.happen, hrun]
    | error e w' =>
      rw [hrun] at hacc htab
      obtain ⟨herr, hb, -, hh⟩ := hacc
      cases e with
      | panic => exact absurd rfl herr
      | fail e =>
        refine ⟨w', ?_, hb, htab.1, htab.2, ?_⟩
        · simp only [World.happen, hrun]
        · rw [hh]
          omega

/-- A leak leaves one more descriptor without an owner; the tables stay. -/
theorem happen_leaks (hr : Ready loose n w) {x : Occurrence}
    (hl : x.leaks w = true) : ∃ env o e w' fd, x = .operation env o ∧
      o.run env w = .error (.fail e) w' ∧ w.happen x = some w' ∧ w'.inodes = w.inodes ∧
      w'.handles = w.handles ∧ fd ∉ loose ∧ Ready (insert fd loose) (n + 1) w' := by
  unfold Occurrence.leaks at hl
  split at hl
  · rename_i env p m flags mode
    obtain ⟨e, w', fd, hok, hin, hh, hfd, hb⟩ := create_leaves_loose hr.balanced hr.inv hl
    have hrun : (EngineOp.call (.create p m flags mode)).run env w = .error (.fail e) w' :=
      map_of_error (map_of_error hok)
    refine ⟨env, _, e, w', fd, rfl, hrun, ?_, hin, hh, hfd, hb, ?_, ?_, ?_⟩
    · simp only [World.happen, hrun]
    · rw [hin]
      exact hr.inv
    · rw [hin]
      exact hr.bounded.mono (Nat.le_succ n)
    · rw [hh]
      exact Nat.le_succ_of_le hr.handles
  · cases hl

/-- An operation that fails leaves both tables as they were. -/
theorem EngineOp.run_error (hr : Ready loose n w) (hn : n + 3 < 2 ^ 64) {env : Env}
    {o : EngineOp} {e : Stop} (he : o.run env w = .error e w') :
    w'.inodes = w.inodes ∧ w'.handles = w.handles := by
  cases hl : (Occurrence.operation env o).leaks w with
  | false =>
    have hhandles := hr.handles
    have hacc := o.accounts hr.balanced hr.inv (by omega) hl
    rw [he] at hacc
    exact hacc.2.2
  | true =>
    obtain ⟨env', o', e', w₂, fd, hx, hrun, -, hin, hh, -⟩ := happen_leaks hr hl
    cases hx
    rw [hrun] at he
    cases he
    exact ⟨hin, hh⟩

theorem owner_iff {fd : Fd} : (∃ o, w.owner o = some fd) ↔
    (∃ ino d, w.inodes.byId ino = some d ∧ d.fd = fd) ∨
      ∃ handle data, w.handles.handles handle = some data ∧ data.fd = fd := by
  rw [Sum.exists]
  refine or_congr (exists_congr fun i => ?_) (exists_congr fun i => ?_)
  · exact Option.map_eq_some_iff
  · exact Option.map_eq_some_iff

theorem Balanced.fdsExact {before : List Fd} (hb : Balanced {fd | fd ∈ before} w) :
    w.FdsExact before := by
  refine ⟨fun fd => ?_, hb.books.once⟩
  rw [← owner_iff]
  constructor
  · rintro ⟨hopen, hnew⟩
    exact ((hb.books.covers fd).mp hopen).resolve_left hnew
  · rintro ⟨o, ho⟩
    exact ⟨hb.books.owned_opened ho, fun hold => hb.books.apart fd hold o ho⟩

theorem Balanced.not_fdsExact {before : List Fd} {fd : Fd} (hfd : fd ∉ before)
    (hb : Balanced (insert fd {fd | fd ∈ before}) w) : ¬ w.FdsExact before := by
  intro hex
  have hloose : fd ∈ (insert fd {fd | fd ∈ before} : Set Fd) := Set.mem_insert _ _
  have hopen : fd ∈ w.host.fds := (hb.books.covers fd).mpr (Or.inl hloose)
  obtain ⟨o, ho⟩ := owner_iff.mpr ((hex.owned fd).mp ⟨hopen, hfd⟩)
  exact hb.books.apart fd hloose o ho

/-- The engine starts with the root's descriptor, beyond those already open. -/
theorem Ready.start {host : Host} {root : FileKey} (hnew : PassthroughFs.new host root = some w)
    (hnum : ∀ fd ∈ host.fds, fd.num < host.nextFd) : Ready {fd | fd ∈ host.fds} 0 w := by
  obtain ⟨-, -, -, hhandles, ⟨fd, hadds, -, honly⟩, hinv, hbound⟩ := new_cases hnew
  obtain ⟨d, hd⟩ := Option.isSome_iff_exists.mp hinv.root
  have hno : ∀ i, w.handles.handles i = none := by
    intro i
    rw [hhandles]
    rfl
  have howner : ∀ o x, w.owner o = some x ↔ o = .inl ROOT_ID ∧ x = fd := by
    intro o x
    cases o with
    | inl id =>
      show (w.inodes.byId id).map InodeData.fd = some x ↔ _
      rw [Option.map_eq_some_iff]
      constructor
      · rintro ⟨d', hd', rfl⟩
        obtain ⟨rfl, hfd, -⟩ := honly id d' hd'
        exact ⟨rfl, hfd⟩
      · rintro ⟨hid, rfl⟩
        cases hid
        exact ⟨d, hd, (honly _ d hd).2.1⟩
    | inr i =>
      show (w.handles.handles i).map HandleData.fd = some x ↔ _
      rw [hno i]
      simp
  have hfresh : fd ∉ host.fds := by
    intro hmem
    have hlt := hnum fd hmem
    rw [hadds.num] at hlt
    exact lt_irrefl _ hlt
  refine ⟨⟨⟨fun x => ?_, fun x hx o ho => ?_, fun o o' x ho ho' => ?_⟩, fun x hx => ?_, ?_⟩,
    hinv, hbound, ?_⟩
  · show x ∈ w.host.fds ↔ x ∈ host.fds ∨ _
    simp only [howner, exists_and_right, exists_eq, true_and]
    rw [hadds.fds, List.mem_cons, or_comm]
  · obtain ⟨-, rfl⟩ := (howner o x).mp ho
    exact hfresh hx
  · rw [((howner o x).mp ho).1, ((howner o' x).mp ho').1]
  · rw [hadds.fds] at hx
    rw [hadds.nextFd]
    rcases List.mem_cons.mp hx with rfl | hx
    · rw [hadds.num]
      exact Nat.lt_succ_self _
    · exact Nat.lt_succ_of_lt (hnum x hx)
  · intro i data hi
    rw [hno i] at hi
    cases hi
  · rw [hhandles]
    exact le_refl _

end Worlds

section Runs
variable {host : Host} {root : FileKey} {w : World} {xs : List Occurrence}

/-- Leak or not, a run keeps books. -/
theorem run_ready {loose : Set Fd} (hr : Ready loose 0 w) {w' : World}
    (hrun : run World.happen w xs = some w') (hn : xs.length + 3 < 2 ^ 64) :
    ∃ loose', Ready loose' xs.length w' := by
  refine run_induction (P := fun xs w => xs.length + 3 < 2 ^ 64 → ∃ loose, Ready loose xs.length w)
    (fun _ => ⟨loose, hr⟩) ?_ hrun hn
  intro xs x w₁ w₂ _ ih hstep hlen
  rw [List.length_append, List.length_singleton] at hlen ⊢
  obtain ⟨loose₁, hr₁⟩ := ih (by omega)
  cases hl : x.leaks w₁ with
  | false =>
    obtain ⟨w₃, hw₃, hr₃⟩ := happen_ready hr₁ (by omega) hl
    rw [hstep] at hw₃
    cases hw₃
    exact ⟨loose₁, hr₃⟩
  | true =>
    obtain ⟨_, _, _, w₃, fd, -, -, hw₃, -, -, -, hr₃⟩ := happen_leaks hr₁ hl
    rw [hstep] at hw₃
    cases hw₃
    exact ⟨_, hr₃⟩

/-- After each operation, failed or not, the descriptors the engine opened are exactly those of
its inodes and handles, as long as no `create` gets a descriptor and then fails in `lookup`, and
no longer. A failed operation leaves the inode ids, the lookup counts and the handles alone. -/
theorem fds_exact_iff_no_create_leaks (hnew : PassthroughFs.new host root = some w)
    (hnum : ∀ fd ∈ host.fds, fd.num < host.nextFd) (xs : List Occurrence)
    (hn : xs.length + 3 < 2 ^ 64) :
    ((∀ ys, ys <+: xs → ∃ w', run World.happen w ys = some w' ∧ w'.FdsExact host.fds) ↔
      Along World.happen (fun w x => x.leaks w = false) w xs) ∧
    ∀ ys env o w₁ e w₂, ys ++ [.operation env o] <+: xs → run World.happen w ys = some w₁ →
      o.run env w₁ = .error e w₂ → w₂.inodes = w₁.inodes ∧ w₂.handles = w₁.handles := by
  have hstart := Ready.start hnew hnum
  constructor
  · refine prefixes_iff_along
      (J := fun xs w => ∃ n, Ready {fd | fd ∈ host.fds} n w ∧ n + xs.length + 3 < 2 ^ 64)
      (fun _ _ ⟨_, hr, _⟩ => hr.balanced.fdsExact) ?_ ⟨0, hstart, by omega⟩
    rintro x xs w ⟨n, hr, hlen⟩
    rw [List.length_cons] at hlen
    cases hl : x.leaks w with
    | false =>
      obtain ⟨w', hw', hr'⟩ := happen_ready hr (by omega) hl
      exact ⟨w', hw', ⟨fun _ => rfl, fun _ => hr'.balanced.fdsExact⟩,
        fun _ => ⟨n + 1, hr', by omega⟩⟩
    | true =>
      obtain ⟨_, _, _, w', fd, -, -, hw', -, -, hfd, hr'⟩ := happen_leaks hr hl
      have hnot := hr'.balanced.not_fdsExact hfd
      exact ⟨w', hw', ⟨fun hex => absurd hex hnot, fun h => by cases h⟩,
        fun hex => absurd hex hnot⟩
  · intro ys env o w₁ e w₂ hys hrun herr
    have hlen := hys.length_le
    rw [List.length_append, List.length_singleton] at hlen
    obtain ⟨loose, hr⟩ := run_ready hstart hrun (by omega)
    exact EngineOp.run_error hr (by omega) herr

end Runs

/-- A host on which the syscalls at `sites` fail. -/
def faulty (ino : UInt64) (sites : List Site) : Env :=
  { calm ino [] with fault := fun s => if s ∈ sites then some EIO else none }

def createA : EngineOp := .call (.create ROOT_ID [97] O_RDWR 0o644)

/-- When the `fstatat` after `openat` fails, so does the `CREATE`, and its descriptor stays open
with no owner. -/
theorem create_leaks_its_fd : ∃ e w' fd, PassthroughFs.new smallHost ⟨1, 10⟩ = some smallWorld ∧
    createA.run (faulty 20 [.fstatat]) smallWorld = .error (.fail e) w' ∧
    fd ∈ w'.host.fds ∧ fd ∉ smallHost.fds ∧ (∀ o, w'.owner o ≠ some fd) ∧
    ¬ w'.FdsExact smallHost.fds := by
  have hstart : Ready {fd | fd ∈ smallHost.fds} 0 smallWorld :=
    Ready.start smallWorld_new (by decide)
  obtain ⟨env, o, e, w', fd, hx, hrun, -, -, -, hfd, hr⟩ := happen_leaks hstart
    (x := .operation (faulty 20 [.fstatat]) createA) (by decide +kernel)
  cases hx
  have hloose : fd ∈ (insert fd {fd | fd ∈ smallHost.fds} : Set Fd) := Set.mem_insert _ _
  exact ⟨e, w', fd, smallWorld_new, hrun, (hr.balanced.books.covers fd).mpr (Or.inl hloose), hfd,
    hr.balanced.books.apart fd hloose, hr.balanced.not_fdsExact hfd⟩

/-- A file made, resized in vain, opened in vain and released; a directory stream that cannot be
had, and a look up that fails half way. -/
def faultyRun : List Occurrence :=
  [.operation (calm 20 []) createA,
    .operation (faulty 21 [.ftruncate]) (.call (.setattr 2 ⟨some 1, none, none, none, none, none⟩)),
    .operation (faulty 21 [.fdopendir]) (.call (.opendir ROOT_ID)),
    .operation (faulty 21 [.openatRef]) (.call (.lookup ROOT_ID [97])),
    .operation (faulty 21 [.openat]) (.call (.openFile 2 0)),
    .operation (calm 21 []) (.call (.release 1)), .outside smallHost.nodes,
    .operation (calm 21 []) (.call (.forget [(2, 1)]))]

theorem fds_exact_faulty_run : smallHost.fds = [] ∧ ∀ ys, ys <+: faultyRun →
    ∃ w', run World.happen smallWorld ys = some w' ∧ w'.FdsExact smallHost.fds :=
  ⟨rfl, (fds_exact_iff_no_create_leaks smallWorld_new (by decide) faultyRun (by decide)).1.mpr
    (by decide +kernel)⟩

end Riftlessfs.Core
