import Riftlessfs.Core.Handle
import Riftlessfs.Lib.Locks
import Riftlessfs.Lib.Run

/-! The handle table under concurrent callers, with the descriptors of the process: a number that
is closed may be given out again at once. Each step takes a lock, lets one go or makes one access
that other threads can see. -/
namespace Riftlessfs.Core

def HandleData.num (data : HandleData) : ℕ := data.fd.num

namespace SharedHandles

open Lib.Locks (Mode Exclusive)
open Lib.Run

/-- The `RwLock` of `HandleStore` and the `Mutex` of each directory handle. -/
inductive Lock where
  | handles
  | dir (id : UInt64)
  deriving DecidableEq, Repr

/-- Where a thread is. Names say what its next step does. -/
inductive Pc where
  | idle
  -- `insert`, of a descriptor that was opened on `file`
  | insertId (data : HandleData) (file : ℕ)
  | insertLock (data : HandleData) (file : ℕ) (id : UInt64)
  | insertPut (data : HandleData) (file : ℕ) (id : UInt64)
  -- `remove`, and the drop of what it returns
  | removeLock (id : UInt64)
  | removeTake (id : UInt64)
  | close (fd : ℕ)
  -- `with_file`
  | fileLock (id : UInt64)
  | fileFind (id : UInt64)
  | fileUse (id : UInt64) (fd : Fd)
  -- `with_dir`
  | dirLock (id : UInt64)
  | dirFind (id : UInt64)
  | dirMutex (id : UInt64) (fd : Fd)
  | dirUse (id : UInt64) (fd : Fd)
  -- `len`
  | lenLock
  | lenRead
  deriving DecidableEq, Repr

/-- How a thread has the `RwLock`. -/
def Pc.table : Pc → Option Mode
  | .insertPut _ _ _ | .removeTake _ => some .write
  | .fileFind _ | .fileUse _ _ | .dirFind _ | .dirMutex _ _ | .dirUse _ _ | .lenRead => some .read
  | _ => none

def Pc.directory : Pc → Option UInt64
  | .dirUse id _ => some id
  | _ => none

def Pc.holds (pc : Pc) : Lock → Option Mode
  | .handles => pc.table
  | .dir id => if pc.directory = some id then some .write else none

def Pc.wants : Pc → Option (Lock × Mode)
  | .insertLock _ _ _ | .removeLock _ => some (.handles, .write)
  | .fileLock _ | .dirLock _ | .lenLock => some (.handles, .read)
  | .dirMutex id _ => some (.dir id, .write)
  | _ => none

/-- The descriptor that a thread owns: not yet in the table, or taken out of it. -/
def Pc.carries : Pc → Option ℕ
  | .insertId data _ | .insertLock data _ _ | .insertPut data _ _ => some data.num
  | .close fd => some fd
  | _ => none

/-- The id that a thread has drawn and not yet put to use. -/
def Pc.pending : Pc → Option UInt64
  | .insertLock _ _ id | .insertPut _ _ id => some id
  | _ => none

/-- The table and the descriptors of the process. Open files are numbered by when they were opened,
and `elsewhere` are the descriptors that the rest of the process owns. `uses` are the system calls
made through a handle with the open file they reached, `returned` the handles given out with the
file that was opened for each, and `removed` those taken out, latest first. -/
structure World where
  store : HandleStore
  files : ℕ → Option ℕ
  opened : ℕ
  elsewhere : ℕ → Bool
  uses : List (UInt64 × Option ℕ)
  returned : List (UInt64 × ℕ)
  removed : List UInt64

def World.new : World where
  store := .new
  files := fun _ => none
  opened := 0
  elsewhere := fun _ => false
  uses := []
  returned := []
  removed := []

namespace World

/-- A free number is given to a file just opened. -/
def openFd (w : World) (fd : ℕ) : World :=
  { w with files := Function.update w.files fd (some w.opened), opened := w.opened + 1 }

def closeFd (w : World) (fd : ℕ) : World := { w with files := Function.update w.files fd none }

/-- The rest of the process opens a descriptor. -/
def openElsewhere (w : World) (fd : ℕ) : World :=
  { w.openFd fd with elsewhere := Function.update w.elsewhere fd true }

def closeElsewhere (w : World) (fd : ℕ) : World :=
  { w.closeFd fd with elsewhere := Function.update w.elsewhere fd false }

/-- `fetch_add` on `next_id`. -/
def drawId (w : World) : World := { w with store := { w.store with nextId := w.store.nextId + 1 } }

/-- `HashMap::insert` under an id drawn before. What stood there is dropped, and its descriptor
closed. -/
def put (w : World) (data : HandleData) (file : ℕ) (id : UInt64) : World :=
  let w' := (w.store.handles id).elim w fun old => w.closeFd old.num
  { w' with
    store := { w.store with handles := Function.update w.store.handles id (some data) }
    returned := (id, file) :: w.returned }

/-- One step of a call, once it has the lock it wants. Guards are let go of by the step after which
the source drops them. -/
def next (w : World) : Pc → Option (World × Pc)
  | .idle => none
  | .insertId data file => some (w.drawId, .insertLock data file w.store.nextId)
  | .insertLock data file id => some (w, .insertPut data file id)
  | .insertPut data file id => some (w.put data file id, .idle)
  | .removeLock id => some (w, .removeTake id)
  | .removeTake id =>
    match w.store.remove id with
    | .ok (data, store) => some ({ w with store, removed := id :: w.removed }, .close data.num)
    | .error _ => some (w, .idle)
  | .close fd => some (w.closeFd fd, .idle)
  | .fileLock id => some (w, .fileFind id)
  | .fileFind id =>
    match w.store.withFile id with
    | .ok fd => some (w, .fileUse id fd)
    | .error _ => some (w, .idle)
  | .fileUse _ _ => some (w, .idle)
  | .dirLock id => some (w, .dirFind id)
  | .dirFind id =>
    match w.store.withDir id with
    | .ok fd => some (w, .dirMutex id fd)
    | .error _ => some (w, .idle)
  | .dirMutex id fd => some (w, .dirUse id fd)
  | .dirUse _ _ => some (w, .idle)
  | .lenLock => some (w, .lenRead)
  | .lenRead => some (w, .idle)

/-- A system call is made through handle `id`. -/
def reach (w : World) (id : UInt64) (fd : Fd) : World :=
  { w with uses := (id, w.files fd.num) :: w.uses }

/-- A system call of the closure that `with_file` or `with_dir` runs. -/
def use (w : World) : Pc → Option World
  | .fileUse id fd | .dirUse id fd => some (w.reach id fd)
  | _ => none

end World

/-- What a thread may start: an operation that has opened a descriptor, or one of the others. -/
inductive Call where
  | opened (data : HandleData)
  | release (id : UInt64)
  | withFile (id : UInt64)
  | withDir (id : UInt64)
  | len
  deriving DecidableEq, Repr

structure State (n : ℕ) where
  world : World
  threads : Fin n → Pc

def State.new (n : ℕ) : State n := ⟨.new, fun _ => .idle⟩

/-- A thread starts a call, makes its next step or a system call on its descriptor; the rest of the
process opens a descriptor or closes one of its own. -/
inductive Event (n : ℕ) where
  | start (t : Fin n) (call : Call)
  | step (t : Fin n)
  | use (t : Fin n)
  | openElsewhere (fd : ℕ)
  | closeElsewhere (fd : ℕ)
  deriving DecidableEq, Repr

/-- Where a call starts. The kernel gives a number that is not in use. -/
def World.entry (w : World) : Call → Option (World × Pc)
  | .opened data =>
    if w.files data.num = none then some (w.openFd data.num, .insertId data w.opened) else none
  | .release id => some (w, .removeLock id)
  | .withFile id => some (w, .fileLock id)
  | .withDir id => some (w, .dirLock id)
  | .len => some (w, .lenLock)

namespace State
variable {n : ℕ}

def holds (s : State n) (t : Fin n) : Lock → Option Mode := (s.threads t).holds

def wants (s : State n) (t : Fin n) : Option (Lock × Mode) := (s.threads t).wants

/-- No thread has the lock that `t` wants in a way that keeps it from `t`. -/
def ready (s : State n) (t : Fin n) : Bool :=
  match s.wants t with
  | some (l, m) => decide (∀ t', m.allows (s.holds t' l) = true)
  | none => true

def moved (s : State n) (t : Fin n) (r : World × Pc) : State n :=
  ⟨r.1, Function.update s.threads t r.2⟩

def step (s : State n) : Event n → Option (State n)
  | .start t call =>
    match s.threads t with
    | .idle => (s.world.entry call).map (s.moved t)
    | _ => none
  | .step t => if s.ready t then (s.world.next (s.threads t)).map (s.moved t) else none
  | .use t => (s.world.use (s.threads t)).map fun w => { s with world := w }
  | .openElsewhere fd =>
    if s.world.files fd = none then some { s with world := s.world.openElsewhere fd } else none
  | .closeElsewhere fd =>
    if s.world.elsewhere fd then some { s with world := s.world.closeElsewhere fd } else none

end State

section Exclusion
variable {n : ℕ} {w w' : World} {pc pc' : Pc} {l : Lock} {m : Mode}

theorem Pc.holds_dir {id : UInt64} (h : pc.holds (.dir id) = some m) :
    pc.directory = some id ∧ m = .write := by
  unfold Pc.holds at h
  simp only at h
  split_ifs at h with hid
  cases h
  exact ⟨hid, rfl⟩

/-- The table's lock is kept or taken. -/
theorem World.next_table (h : w.next pc = some (w', pc')) (hl : pc'.table = some m) :
    pc.table = some m ∨ pc.wants = some (.handles, m) := by
  cases pc with
  | idle => cases h
  | insertLock | removeLock | fileLock | dirLock | lenLock =>
    cases h
    exact Or.inr (congrArg (Option.map (Prod.mk Lock.handles)) hl)
  | removeTake id =>
    simp only [next] at h
    split at h <;> cases h <;> cases hl
  | fileFind id =>
    simp only [next] at h
    split at h <;> cases h
    · exact Or.inl hl
    · cases hl
  | dirFind id =>
    simp only [next] at h
    split at h <;> cases h
    · exact Or.inl hl
    · cases hl
  | dirMutex id fd =>
    cases h
    exact Or.inl hl
  | insertId | insertPut | close | fileUse | dirUse | lenRead =>
    cases h
    cases hl

/-- Only the step that takes a directory's lock has it afterwards. -/
theorem World.next_directory {id : UInt64} (h : w.next pc = some (w', pc'))
    (hl : pc'.directory = some id) : pc.wants = some (.dir id, .write) := by
  cases pc with
  | idle => cases h
  | removeTake id | fileFind id | dirFind id =>
    simp only [next] at h
    split at h <;> cases h <;> cases hl
  | dirMutex id fd =>
    cases h
    cases hl
    rfl
  | _ =>
    cases h
    cases hl

/-- A step comes to hold only what the call held before or wanted. -/
theorem World.next_holds (h : w.next pc = some (w', pc')) (hl : pc'.holds l = some m) :
    pc.holds l = some m ∨ pc.wants = some (l, m) := by
  cases l with
  | handles => exact next_table h hl
  | dir id =>
    obtain ⟨hid, rfl⟩ := Pc.holds_dir hl
    exact Or.inr (next_directory h hid)

theorem World.entry_holds {call : Call} (h : w.entry call = some (w', pc)) : pc.holds l = none := by
  cases call with
  | opened data =>
    simp only [entry] at h
    split_ifs at h
    cases h
    cases l <;> rfl
  | _ =>
    cases h
    cases l <;> rfl

theorem State.holds_moved (s : State n) (t : Fin n) (r : World × Pc) :
    (s.moved t r).holds = Function.update s.holds t r.2.holds := by
  funext t'
  exact Function.apply_update (fun _ => Pc.holds) s.threads t r.2 t'

theorem State.exclusive_step {s s' : State n} {e : Event n} (h : Exclusive s.holds)
    (hstep : s.step e = some s') : Exclusive s'.holds := by
  cases e with
  | start t call =>
    simp only [step] at hstep
    split at hstep
    · obtain ⟨⟨w, pc⟩, hentry, rfl⟩ := Option.map_eq_some_iff.mp hstep
      rw [holds_moved]
      apply h.update
      intro l m hl
      rw [World.entry_holds hentry] at hl
      cases hl
    · cases hstep
  | step t =>
    simp only [step] at hstep
    split_ifs at hstep with hready
    obtain ⟨⟨w, pc⟩, hnext, rfl⟩ := Option.map_eq_some_iff.mp hstep
    rw [holds_moved]
    apply h.update
    intro l m hl
    rcases World.next_holds hnext hl with hheld | hwant
    · exact Or.inl hheld
    · right
      intro t' _
      unfold ready at hready
      rw [show s.wants t = some (l, m) from hwant] at hready
      exact of_decide_eq_true hready t'
  | use t =>
    obtain ⟨w, -, rfl⟩ := Option.map_eq_some_iff.mp hstep
    exact h
  | openElsewhere fd =>
    simp only [step] at hstep
    split_ifs at hstep
    cases hstep
    exact h
  | closeElsewhere fd =>
    simp only [step] at hstep
    split_ifs at hstep
    cases hstep
    exact h

end Exclusion

end SharedHandles

end Riftlessfs.Core
