import Riftlessfs.Core.HandleThreads
import Riftlessfs.Lib.Ownership

/-! Who owns a descriptor of the process while threads put handles into the table and take them out,
and what each thread may rely on. -/
namespace Riftlessfs.Core.SharedHandles

open Lib.Locks
open Lib.Ownership
open Lib.Run

variable {n : ℕ}

/-- Who may own a descriptor: an entry of the table, a thread between the table and the kernel, or
the rest of the process. -/
inductive Owner (n : ℕ) where
  | entry (id : UInt64)
  | thread (t : Fin n)
  | rest (fd : ℕ)
  deriving DecidableEq

def State.own (s : State n) : Owner n → Option ℕ
  | .entry id => (s.world.store.handles id).map HandleData.num
  | .thread t => (s.threads t).carries
  | .rest fd => if s.world.elsewhere fd then some fd else none

def World.inUse (w : World) : Set ℕ := {fd | w.files fd ≠ none}

/-- The id was drawn, and nothing was put under it yet. -/
structure World.Fresh (w : World) (id : UInt64) : Prop where
  drawn : id.toNat < w.store.nextId.toNat
  absent : w.store.handles id = none
  unreturned : ∀ file, (id, file) ∉ w.returned

/-- What a thread relies on where it is. -/
def Pc.Fits (w : World) : Pc → Prop
  | .insertId data file => w.files data.num = some file
  | .insertLock data file id | .insertPut data file id =>
    w.files data.num = some file ∧ w.Fresh id
  | .fileUse id fd => w.store.handles id = some (.file fd)
  | .dirMutex id fd | .dirUse id fd => w.store.handles id = some (.dir fd)
  | _ => True

/-- The table and its records are in order. -/
structure World.Sound (w : World) : Prop where
  entries : ∀ id data, w.store.handles id = some data →
    ∃ file, w.files data.num = some file ∧ (id, file) ∈ w.returned
  drawn : ∀ id file, (id, file) ∈ w.returned → id.toNat < w.store.nextId.toNat
  distinct : (w.returned.map Prod.fst).Nodup
  kept : ∀ id file, (id, file) ∈ w.returned → id ∉ w.removed → w.store.handles id ≠ none
  used : ∀ id file, (id, file) ∈ w.uses → ∃ o, file = some o ∧ (id, o) ∈ w.returned

structure State.Inv (s : State n) : Prop where
  exclusive : Exclusive s.holds
  books : Books s.world.inUse s.own ∅
  sound : s.world.Sound
  fits : ∀ t, (s.threads t).Fits s.world
  apart : ∀ t t' id, t ≠ t' → (s.threads t).pending = some id → (s.threads t').pending ≠ some id

theorem Inv.new : (State.new n).Inv := by
  constructor
  · intro t t' l m m' _ hl
    cases l <;> cases hl
  · constructor
    · intro fd
      simp only [State.new, World.new, World.inUse, Set.mem_ofPred_eq, ne_eq, not_true_eq_false,
        Set.mem_empty_iff_false, false_or, false_iff, not_exists]
      intro o ho
      cases o <;> cases ho
    · intro fd hfd
      cases hfd
    · intro o o' fd ho
      cases o <;> cases ho
  · constructor
    · intro id data h
      cases h
    · intro id file h
      cases h
    · exact List.nodup_nil
    · intro id file h
      cases h
    · intro id file h
      cases h
  · intro t
    trivial
  · intro t t' id _ h
    cases h

section Threads
variable {s : State n} {t : Fin n} {pc : Pc} {w : World}

/-- A thread that holds the table to write has it alone. -/
theorem State.Inv.alone (h : s.Inv) (hw : (s.threads t).holds .handles = some .write) {t' : Fin n}
    (hne : t' ≠ t) : (s.threads t').holds .handles = none := by
  cases hh : (s.threads t').holds .handles with
  | none => rfl
  | some m =>
    have hclash := h.exclusive t' t .handles m .write hne hh hw
    cases m <;> cases hclash

/-- A thread that does not hold the table relies on its own descriptor and id only. -/
theorem Pc.Fits.outside (w' : World) (h : pc.Fits w) (hout : pc.holds .handles = none)
    (hfiles : ∀ fd, pc.carries = some fd → w'.files fd = w.files fd)
    (hfresh : ∀ id, pc.pending = some id → w.Fresh id → w'.Fresh id) : pc.Fits w' := by
  cases pc with
  | insertId data file => exact (hfiles _ rfl).trans h
  | insertLock data file id => exact ⟨(hfiles _ rfl).trans h.1, hfresh id rfl h.2⟩
  | insertPut data file id => cases hout
  | fileUse id fd => cases hout
  | dirMutex id fd => cases hout
  | dirUse id fd => cases hout
  | _ => trivial

/-- With the table as it was, a thread relies on its own descriptor and id. -/
theorem Pc.Fits.kept (w' : World) (h : pc.Fits w) (hstore : w'.store.handles = w.store.handles)
    (hfiles : ∀ fd, pc.carries = some fd → w'.files fd = w.files fd)
    (hfresh : ∀ id, w.Fresh id → w'.Fresh id) : pc.Fits w' := by
  cases pc with
  | insertId data file => exact (hfiles _ rfl).trans h
  | insertLock data file id => exact ⟨(hfiles _ rfl).trans h.1, hfresh id h.2⟩
  | insertPut data file id => exact ⟨(hfiles _ rfl).trans h.1, hfresh id h.2⟩
  | fileUse id fd => exact (congrFun hstore id).trans h
  | dirMutex id fd => exact (congrFun hstore id).trans h
  | dirUse id fd => exact (congrFun hstore id).trans h
  | _ => trivial

theorem State.fits_moved {r : World × Pc} (hown : r.2.Fits r.1)
    (hothers : ∀ t', t' ≠ t → (s.threads t').Fits r.1) (t' : Fin n) :
    ((s.moved t r).threads t').Fits (s.moved t r).world := by
  show (Function.update s.threads t r.2 t').Fits r.1
  by_cases ht : t' = t
  · subst ht
    rw [Function.update_self]
    exact hown
  · rw [Function.update_of_ne ht]
    exact hothers t' ht

/-- Ids stay apart where a thread draws none. -/
theorem State.apart_moved {r : World × Pc}
    (h : ∀ t t' id, t ≠ t' → (s.threads t).pending = some id → (s.threads t').pending ≠ some id)
    (hown : ∀ id, r.2.pending = some id → ∀ t', t' ≠ t → (s.threads t').pending ≠ some id)
    (t₁ t₂ : Fin n) (id : UInt64) (hne : t₁ ≠ t₂)
    (h₁ : ((s.moved t r).threads t₁).pending = some id) :
    ((s.moved t r).threads t₂).pending ≠ some id := by
  have h₁ : (Function.update s.threads t r.2 t₁).pending = some id := h₁
  show (Function.update s.threads t r.2 t₂).pending ≠ some id
  by_cases e₁ : t₁ = t
  · have e₂ : t₂ ≠ t := fun e₂ => hne (e₁.trans e₂.symm)
    rw [e₁, Function.update_self] at h₁
    rw [Function.update_of_ne e₂]
    exact hown id h₁ t₂ e₂
  · rw [Function.update_of_ne e₁] at h₁
    by_cases e₂ : t₂ = t
    · rw [e₂, Function.update_self]
      intro hpc
      exact hown id hpc t₁ e₁ h₁
    · rw [Function.update_of_ne e₂]
      exact h t₁ t₂ id hne h₁

end Threads

section Own
variable {s : State n} {t : Fin n} {fd : ℕ}

theorem State.own_moved (w : World) (pc : Pc) (hstore : w.store.handles = s.world.store.handles)
    (helse : w.elsewhere = s.world.elsewhere) :
    (s.moved t (w, pc)).own = Function.update s.own (.thread t) pc.carries := by
  funext o
  cases o with
  | entry id =>
    rw [Function.update_of_ne (by intro h; cases h)]
    simp only [own, moved, hstore]
  | thread t' =>
    show (Function.update s.threads t pc t').carries = _
    by_cases ht : t' = t
    · subst ht
      rw [Function.update_self, Function.update_self]
    · rw [Function.update_of_ne ht, Function.update_of_ne (by intro h; cases h; exact ht rfl)]
      rfl
  | rest fd =>
    rw [Function.update_of_ne (by intro h; cases h)]
    simp only [own, moved, helse]

theorem State.own_same (w : World) (pc : Pc) (hstore : w.store.handles = s.world.store.handles)
    (helse : w.elsewhere = s.world.elsewhere) (hcarry : pc.carries = (s.threads t).carries) :
    (s.moved t (w, pc)).own = s.own := by
  rw [own_moved w pc hstore helse, hcarry]
  exact Function.update_eq_self _ _

theorem World.inUse_open (w : World) (fd : ℕ) : (w.openFd fd).inUse = insert fd w.inUse := by
  ext fd'
  simp only [inUse, openFd, Set.mem_insert_iff, Set.mem_ofPred_eq]
  by_cases h : fd' = fd
  · simp [h]
  · simp [h]

theorem World.inUse_close (w : World) (fd : ℕ) : (w.closeFd fd).inUse = w.inUse \ {fd} := by
  ext fd'
  simp only [inUse, closeFd, Set.mem_sdiff, Set.mem_singleton_iff, Set.mem_ofPred_eq]
  by_cases h : fd' = fd
  · simp [h]
  · simp [h]

/-- A free number belongs to nobody. -/
theorem State.Inv.unowned (h : s.Inv) (hfree : s.world.files fd = none) (o : Owner n) :
    s.own o ≠ some fd := by
  intro ho
  exact h.books.owned_opened ho hfree

/-- Opening a free number changes no number that is owned. -/
theorem State.Inv.open_files (h : s.Inv) (hfree : s.world.files fd = none) {o : Owner n} {fd' : ℕ}
    (ho : s.own o = some fd') : (s.world.openFd fd).files fd' = s.world.files fd' := by
  apply Function.update_of_ne
  intro heq
  exact h.unowned hfree o (heq ▸ ho)

/-- Closing an owned number changes none that another owns. -/
theorem State.Inv.close_files (h : s.Inv) {o o' : Owner n} {fd' : ℕ} (ho : s.own o = some fd)
    (ho' : s.own o' = some fd') (hne : o' ≠ o) :
    (s.world.closeFd fd).files fd' = s.world.files fd' := by
  apply Function.update_of_ne
  intro heq
  exact hne (h.books.once o' o fd (heq ▸ ho') ho)

end Own

section Moves
variable {s : State n} {t : Fin n} {pc : Pc} {fd : ℕ} {data : HandleData} {file : ℕ} {id : UInt64}

/-- Records stay in order when only the descriptors that entries do not own change. -/
theorem World.Sound.files {w : World} (w' : World) (h : w.Sound) (hstore : w'.store = w.store)
    (hreturned : w'.returned = w.returned) (hremoved : w'.removed = w.removed)
    (huses : w'.uses = w.uses)
    (hfiles : ∀ id data, w.store.handles id = some data → w'.files data.num = w.files data.num) :
    w'.Sound := by
  constructor
  · intro id data hid
    rw [hstore] at hid
    rw [hfiles id data hid, hreturned]
    exact h.entries id data hid
  · rw [hreturned, hstore]
    exact h.drawn
  · rw [hreturned]
    exact h.distinct
  · rw [hreturned, hremoved, hstore]
    exact h.kept
  · rw [huses, hreturned]
    exact h.used

/-- A step that touches nothing shared. -/
theorem State.Inv.still (h : s.Inv) (hex : Exclusive (s.moved t (s.world, pc)).holds)
    (hfit : pc.Fits s.world) (hcarry : pc.carries = (s.threads t).carries)
    (hpend : ∀ id, pc.pending = some id → (s.threads t).pending = some id) :
    (s.moved t (s.world, pc)).Inv := by
  constructor
  · exact hex
  · rw [own_same s.world pc rfl rfl hcarry]
    exact h.books
  · exact h.sound
  · exact fits_moved hfit fun t' _ => h.fits t'
  · apply apart_moved h.apart
    intro id hid t' ht' hid'
    exact h.apart t' t id ht' hid' (hpend id hid)

/-- A descriptor is opened for thread `t`. -/
theorem State.Inv.opens (h : s.Inv) (hidle : s.threads t = .idle)
    (hfree : s.world.files data.num = none)
    (hex : Exclusive (s.moved t (s.world.openFd data.num, .insertId data s.world.opened)).holds) :
    (s.moved t (s.world.openFd data.num, .insertId data s.world.opened)).Inv := by
  have hnone : s.own (.thread t) = none := by
    simp only [own, hidle]
    rfl
  constructor
  · exact hex
  · rw [own_moved (s.world.openFd data.num) _ rfl rfl]
    show Books (s.world.openFd data.num).inUse _ ∅
    rw [World.inUse_open]
    apply Books.give _ (Set.notMem_empty _) hnone
    exact h.books.acquire fun hin => hin hfree
  · apply h.sound.files (s.world.openFd data.num) rfl rfl rfl rfl
    intro id data' hid
    exact h.open_files hfree (o := .entry id) (by simp only [own, hid]; rfl)
  · apply fits_moved
    · exact Function.update_self ..
    · intro t' _
      apply (h.fits t').kept (s.world.openFd data.num) rfl
      · intro fd hfd
        exact h.open_files hfree (o := .thread t') hfd
      · intro id hid
        exact ⟨hid.drawn, hid.absent, hid.unreturned⟩
  · apply apart_moved h.apart
    intro id hid
    cases hid

/-- `fetch_add` draws an id that nobody has. -/
theorem State.Inv.draws (h : s.Inv) (hpc : s.threads t = .insertId data file)
    (hleft : s.world.store.nextId.toNat + 1 < 2 ^ 64)
    (hex : Exclusive
      (s.moved t (s.world.drawId, .insertLock data file s.world.store.nextId)).holds) :
    (s.moved t (s.world.drawId, .insertLock data file s.world.store.nextId)).Inv := by
  have hnext : (s.world.store.nextId + 1).toNat = s.world.store.nextId.toNat + 1 := by
    rw [UInt64.toNat_add]
    exact Nat.mod_eq_of_lt hleft
  have hfit := h.fits t
  rw [hpc] at hfit
  constructor
  · exact hex
  · rw [own_same s.world.drawId _ rfl rfl (by rw [hpc]; rfl)]
    exact h.books
  · constructor
    · exact h.sound.entries
    · intro id file hid
      have hlt := h.sound.drawn id file hid
      show id.toNat < (s.world.store.nextId + 1).toNat
      omega
    · exact h.sound.distinct
    · exact h.sound.kept
    · exact h.sound.used
  · apply fits_moved
    · refine ⟨hfit, ?_, ?_, ?_⟩
      · show s.world.store.nextId.toNat < (s.world.store.nextId + 1).toNat
        omega
      · cases hid : s.world.store.handles s.world.store.nextId with
        | none => exact hid
        | some data' =>
          obtain ⟨o, -, ho⟩ := h.sound.entries _ _ hid
          exact absurd (h.sound.drawn _ _ ho) (lt_irrefl _)
      · intro file' hreturned
        exact absurd (h.sound.drawn _ _ hreturned) (lt_irrefl _)
    · intro t' _
      apply (h.fits t').kept s.world.drawId rfl
      · intro _ _
        rfl
      · intro id hid
        refine ⟨?_, hid.absent, hid.unreturned⟩
        have hlt := hid.drawn
        show id.toNat < (s.world.store.nextId + 1).toNat
        omega
  · apply apart_moved h.apart
    intro id hid t' _ hid'
    cases hid
    have hlt : s.world.store.nextId.toNat < s.world.store.nextId.toNat := by
      have hfit' := h.fits t'
      cases hpc' : s.threads t' with
      | insertLock data' file' id' =>
        rw [hpc'] at hid' hfit'
        cases hid'
        exact hfit'.2.drawn
      | insertPut data' file' id' =>
        rw [hpc'] at hid' hfit'
        cases hid'
        exact hfit'.2.drawn
      | _ =>
        rw [hpc'] at hid'
        cases hid'
    exact absurd hlt (lt_irrefl _)

def World.stored (w : World) (data : HandleData) (file : ℕ) (id : UInt64) : World :=
  { w with
    store := { w.store with handles := Function.update w.store.handles id (some data) }
    returned := (id, file) :: w.returned }

def World.taken (w : World) (id : UInt64) : World :=
  { w with
    store := { w.store with handles := Function.update w.store.handles id none }
    removed := id :: w.removed }

theorem World.put_fresh {w : World} (h : w.Fresh id) : w.put data file id = w.stored data file id := by
  unfold put
  rw [h.absent]
  rfl

theorem World.Sound.stored {w : World} (h : w.Sound) (hfile : w.files data.num = some file)
    (hfresh : w.Fresh id) : (w.stored data file id).Sound := by
  constructor
  · intro id' data' hid'
    have hid' : Function.update w.store.handles id (some data) id' = some data' := hid'
    by_cases hid : id' = id
    · rw [hid, Function.update_self] at hid'
      cases hid'
      rw [hid]
      exact ⟨file, hfile, List.mem_cons_self⟩
    · rw [Function.update_of_ne hid] at hid'
      obtain ⟨o, ho, hreturned⟩ := h.entries id' data' hid'
      exact ⟨o, ho, List.mem_cons_of_mem _ hreturned⟩
  · intro id' file' hreturned
    rcases List.mem_cons.mp hreturned with heq | hreturned
    · cases heq
      exact hfresh.drawn
    · exact h.drawn id' file' hreturned
  · show ((id, file) :: w.returned |>.map Prod.fst).Nodup
    rw [List.map_cons, List.nodup_cons]
    refine ⟨fun hin => ?_, h.distinct⟩
    obtain ⟨⟨id', file'⟩, hreturned, rfl⟩ := List.mem_map.mp hin
    exact hfresh.unreturned file' hreturned
  · intro id' file' hreturned hkept
    show Function.update w.store.handles id (some data) id' ≠ none
    by_cases hid : id' = id
    · rw [hid, Function.update_self]
      exact Option.some_ne_none _
    · rw [Function.update_of_ne hid]
      rcases List.mem_cons.mp hreturned with heq | hreturned
      · cases heq
        exact absurd rfl hid
      · exact h.kept id' file' hreturned hkept
  · intro id' file' huse
    obtain ⟨o, ho, hreturned⟩ := h.used id' file' huse
    exact ⟨o, ho, List.mem_cons_of_mem _ hreturned⟩

theorem World.Sound.taken {w : World} (h : w.Sound) : (w.taken id).Sound := by
  constructor
  · intro id' data' hid'
    have hid' : Function.update w.store.handles id none id' = some data' := hid'
    by_cases heq : id' = id
    · rw [heq, Function.update_self] at hid'
      cases hid'
    · rw [Function.update_of_ne heq] at hid'
      exact h.entries id' data' hid'
  · exact h.drawn
  · exact h.distinct
  · intro id' file' hreturned hkept
    have hkept : id' ∉ id :: w.removed := hkept
    rw [List.mem_cons, not_or] at hkept
    show Function.update w.store.handles id none id' ≠ none
    rw [Function.update_of_ne hkept.1]
    exact h.kept id' file' hreturned hkept.2
  · exact h.used

/-- Who owns what when thread `t` exchanges an entry. -/
theorem State.own_exchanged (w : World) (pc : Pc) {v : Option HandleData}
    (hstore : w.store.handles = Function.update s.world.store.handles id v)
    (helse : w.elsewhere = s.world.elsewhere) : (s.moved t (w, pc)).own =
      Function.update (Function.update s.own (.entry id) (v.map HandleData.num)) (.thread t)
        pc.carries := by
  funext o
  cases o with
  | entry id' =>
    rw [Function.update_of_ne (by intro he; cases he)]
    show (w.store.handles id').map HandleData.num = _
    rw [hstore]
    by_cases hid : id' = id
    · rw [hid, Function.update_self, Function.update_self]
    · rw [Function.update_of_ne hid, Function.update_of_ne (by intro he; cases he; exact hid rfl)]
      rfl
  | thread t' =>
    show (Function.update s.threads t pc t').carries = _
    by_cases ht : t' = t
    · rw [ht, Function.update_self, Function.update_self]
    · rw [Function.update_of_ne ht, Function.update_of_ne (by intro he; cases he; exact ht rfl),
        Function.update_of_ne (by intro he; cases he)]
      rfl
  | rest fd =>
    rw [Function.update_of_ne (by intro he; cases he),
      Function.update_of_ne (by intro he; cases he)]
    simp only [own, moved, helse]

/-- The thread's descriptor goes into the table under its id. -/
theorem State.Inv.puts (h : s.Inv) (hpc : s.threads t = .insertPut data file id)
    (hex : Exclusive (s.moved t (s.world.put data file id, .idle)).holds) :
    (s.moved t (s.world.put data file id, .idle)).Inv := by
  have hfit := h.fits t
  rw [hpc] at hfit
  obtain ⟨hfile, hfresh⟩ := hfit
  have halone : ∀ t', t' ≠ t → (s.threads t').holds .handles = none :=
    fun t' ht' => h.alone (by rw [hpc]; rfl) ht'
  have hown : s.own (.thread t) = some data.num := by
    simp only [own, hpc]
    rfl
  have hnone : s.own (.entry id) = none := by
    simp only [own, hfresh.absent]
    rfl
  rw [World.put_fresh hfresh] at hex ⊢
  constructor
  · exact hex
  · rw [own_exchanged (s.world.stored data file id) .idle rfl rfl,
      Function.update_comm (by intro he; cases he)]
    exact h.books.pass hown hnone
  · exact h.sound.stored hfile hfresh
  · apply fits_moved
    · trivial
    intro t' ht'
    apply (h.fits t').outside (s.world.stored data file id) (halone t' ht') (fun _ _ => rfl)
    intro id' hpend hfresh'
    have hne : id' ≠ id := by
      intro heq
      rw [heq] at hpend
      exact h.apart t' t id ht' hpend (by rw [hpc]; rfl)
    refine ⟨hfresh'.drawn, ?_, ?_⟩
    · show Function.update s.world.store.handles id (some data) id' = none
      rw [Function.update_of_ne hne]
      exact hfresh'.absent
    · intro file' hreturned
      rcases List.mem_cons.mp hreturned with heq | hreturned
      · cases heq
        exact hne rfl
      · exact hfresh'.unreturned file' hreturned
  · apply apart_moved h.apart
    intro id hid
    cases hid

/-- The thread takes an entry out of the table, to drop it. -/
theorem State.Inv.takes (h : s.Inv) (hpc : s.threads t = .removeTake id)
    (hid : s.world.store.handles id = some data)
    (hex : Exclusive (s.moved t (s.world.taken id, .close data.num)).holds) :
    (s.moved t (s.world.taken id, .close data.num)).Inv := by
  have halone : ∀ t', t' ≠ t → (s.threads t').holds .handles = none :=
    fun t' ht' => h.alone (by rw [hpc]; rfl) ht'
  have hown : s.own (.entry id) = some data.num := by
    simp only [own, hid]
    rfl
  have hnone : s.own (.thread t) = none := by
    simp only [own, hpc]
    rfl
  constructor
  · exact hex
  · rw [own_exchanged (s.world.taken id) (.close data.num) rfl rfl]
    exact h.books.pass hown hnone
  · exact h.sound.taken
  · apply fits_moved
    · trivial
    intro t' ht'
    apply (h.fits t').outside (s.world.taken id) (halone t' ht') (fun _ _ => rfl)
    intro id' hpend hfresh'
    refine ⟨hfresh'.drawn, ?_, hfresh'.unreturned⟩
    show Function.update s.world.store.handles id none id' = none
    rw [Function.update_apply]
    split_ifs
    · rfl
    · exact hfresh'.absent
  · apply apart_moved h.apart
    intro id hid
    cases hid

/-- What a thread has taken out of the table is closed. -/
theorem State.Inv.closes (h : s.Inv) (hpc : s.threads t = .close fd)
    (hex : Exclusive (s.moved t (s.world.closeFd fd, .idle)).holds) :
    (s.moved t (s.world.closeFd fd, .idle)).Inv := by
  have hown : s.own (.thread t) = some fd := by
    simp only [own, hpc]
    rfl
  constructor
  · exact hex
  · rw [own_moved (s.world.closeFd fd) _ rfl rfl]
    show Books (s.world.closeFd fd).inUse _ ∅
    rw [World.inUse_close]
    exact h.books.retire hown
  · apply h.sound.files (s.world.closeFd fd) rfl rfl rfl rfl
    intro id data hid
    have hentry : s.own (.entry id) = some data.num := by
      simp only [own, hid]
      rfl
    exact h.close_files hown hentry (by intro he; cases he)
  · apply fits_moved
    · trivial
    intro t' ht'
    apply (h.fits t').kept (s.world.closeFd fd) rfl
    · intro fd' hfd'
      have hother : s.own (.thread t') = some fd' := hfd'
      exact h.close_files hown hother (by intro he; cases he; exact ht' rfl)
    · intro id hid
      exact ⟨hid.drawn, hid.absent, hid.unreturned⟩
  · apply apart_moved h.apart
    intro id hid
    cases hid

/-- The rest of the process opens or closes a descriptor of its own. -/
theorem State.own_elsewhere (w : World) {b : Bool} (hstore : w.store = s.world.store)
    (helse : w.elsewhere = Function.update s.world.elsewhere fd b) :
    (State.mk w s.threads).own =
      Function.update s.own (.rest fd) (if b then some fd else none) := by
  funext o
  cases o with
  | entry id =>
    rw [Function.update_of_ne (by intro he; cases he)]
    simp only [own, hstore]
  | thread t => rw [Function.update_of_ne (by intro he; cases he)]; rfl
  | rest fd' =>
    show (if w.elsewhere fd' then some fd' else none) = _
    rw [helse]
    by_cases hfd : fd' = fd
    · rw [hfd, Function.update_self, Function.update_self]
    · rw [Function.update_of_ne hfd, Function.update_of_ne (by intro he; cases he; exact hfd rfl)]
      rfl

theorem State.Inv.opensElsewhere (h : s.Inv) (hfree : s.world.files fd = none) :
    (State.mk (s.world.openElsewhere fd) s.threads).Inv := by
  have hnone : s.own (.rest fd) = none := by
    show (if s.world.elsewhere fd then some fd else none) = none
    split_ifs with helse
    · have hown : s.own (.rest fd) = some fd := if_pos helse
      exact absurd hown (h.unowned hfree _)
    · rfl
  constructor
  · exact h.exclusive
  · rw [own_elsewhere (s.world.openElsewhere fd) rfl rfl]
    show Books (s.world.openFd fd).inUse _ ∅
    rw [World.inUse_open]
    apply Books.give _ (Set.notMem_empty _) hnone
    exact h.books.acquire fun hin => hin hfree
  · apply h.sound.files (s.world.openElsewhere fd) rfl rfl rfl rfl
    intro id data hid
    have hentry : s.own (.entry id) = some data.num := by
      simp only [own, hid]
      rfl
    exact h.open_files hfree hentry
  · intro t
    apply (h.fits t).kept (s.world.openElsewhere fd) rfl
    · intro fd' hfd'
      have hother : s.own (.thread t) = some fd' := hfd'
      exact h.open_files hfree hother
    · intro id hid
      exact ⟨hid.drawn, hid.absent, hid.unreturned⟩
  · exact h.apart

theorem State.Inv.closesElsewhere (h : s.Inv) (helse : s.world.elsewhere fd = true) :
    (State.mk (s.world.closeElsewhere fd) s.threads).Inv := by
  have hown : s.own (.rest fd) = some fd := if_pos helse
  constructor
  · exact h.exclusive
  · rw [own_elsewhere (s.world.closeElsewhere fd) rfl rfl]
    show Books (s.world.closeFd fd).inUse _ ∅
    rw [World.inUse_close]
    exact h.books.retire hown
  · apply h.sound.files (s.world.closeElsewhere fd) rfl rfl rfl rfl
    intro id data hid
    have hentry : s.own (.entry id) = some data.num := by
      simp only [own, hid]
      rfl
    exact h.close_files hown hentry (by intro he; cases he)
  · intro t
    apply (h.fits t).kept (s.world.closeElsewhere fd) rfl
    · intro fd' hfd'
      have hother : s.own (.thread t) = some fd' := hfd'
      exact h.close_files hown hother (by intro he; cases he)
    · intro id hid
      exact ⟨hid.drawn, hid.absent, hid.unreturned⟩
  · exact h.apart

/-- A system call through a handle reaches the file that was opened for it. -/
theorem State.Inv.uses (h : s.Inv) (hid : s.world.store.handles id = some data) :
    (State.mk (s.world.reach id data.fd) s.threads).Inv := by
  constructor
  · exact h.exclusive
  · exact h.books
  · constructor
    · exact h.sound.entries
    · exact h.sound.drawn
    · exact h.sound.distinct
    · exact h.sound.kept
    · intro id' file' huse
      rcases List.mem_cons.mp huse with heq | huse
      · cases heq
        obtain ⟨o, ho, hreturned⟩ := h.sound.entries id data hid
        exact ⟨o, ho, hreturned⟩
      · exact h.sound.used id' file' huse
  · intro t
    apply (h.fits t).kept (s.world.reach id data.fd) rfl (fun _ _ => rfl)
    intro id hid
    exact ⟨hid.drawn, hid.absent, hid.unreturned⟩
  · exact h.apart

end Moves

end Riftlessfs.Core.SharedHandles
