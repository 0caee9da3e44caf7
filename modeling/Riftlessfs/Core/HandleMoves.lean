import Riftlessfs.Core.Call

/-! What a call does to the table of open handles. -/
namespace Riftlessfs.Core
open Lib.Effect PassthroughFs

def handleFrame : Frame Stop World where
  pre _ := True
  rel w w' := w'.handles = w.handles
  err _ := True
  refl _ := rfl
  trans h₁ h₂ := h₂.trans h₁
  stable _ _ := trivial

section Stays
variable {α β : Type} {env : Env} {m : FsM α}

theorem stays_of_final (h : ∀ w, (final (m w)).handles = w.handles) : Keeps handleFrame m :=
  fun w _ => ⟨h w, fun _ _ _ => trivial⟩

theorem stays_of_quiet (hm : Keeps quietFrame m) : Keeps handleFrame m :=
  stays_of_final fun w => (hm w trivial).1.2.1

theorem stays_sys (site : Site) (f : Host → Except Errno (α × Host)) :
    Keeps handleFrame (sys env site f) := by
  refine stays_of_final fun w => ?_
  rcases sys_cases env site f w with ⟨e, he⟩ | ⟨a, h, -, hok⟩
  · rw [he]
    rfl
  · rw [hok]
    rfl

private theorem stays_dropFd (fd : Option Fd) : Keeps handleFrame (dropFd fd) := by
  cases fd with
  | none => exact keeps_pure ()
  | some fd => exact stays_of_final fun _ => rfl

private theorem stays_register (p : UInt64) (n : Name) (fd : Fd) (st : Stat) :
    Keeps handleFrame (register p n fd st) := by
  refine stays_of_final fun w => ?_
  unfold register
  split
  · rfl
  · next data inodes dropped _ =>
    exact (keeps_bind (stays_dropFd dropped) (fun _ => keeps_pure data)
      { w with inodes := inodes } trivial).1

private theorem stays_openChild (fd : Fd) (n : Name) : Keeps handleFrame (openChild env fd n) :=
  keeps_bind (stays_sys _ _) fun _ => keeps_bind (stays_sys _ _) fun _ => keeps_pure _

theorem stays_lookup (p : UInt64) (n : Name) : Keeps handleFrame (lookup env p n) :=
  keeps_bind (stays_of_quiet (quiet_inode p)) fun _ =>
    keeps_bind (stays_of_quiet (quiet_cstring n)) fun _ =>
      keeps_bind (stays_openChild _ _) fun _ => keeps_bind (stays_register _ _ _ _) fun _ =>
        keeps_pure _

private theorem stays_mkdir (p : UInt64) (n : Name) (mode : UInt32) :
    Keeps handleFrame (mkdir env p n mode) :=
  keeps_bind (stays_of_quiet (quiet_inode p)) fun _ =>
    keeps_bind (stays_of_quiet (quiet_cstring n)) fun _ =>
      keeps_bind (stays_sys _ _) fun _ => stays_lookup p n

private theorem stays_symlink (p : UInt64) (n t : Name) : Keeps handleFrame (symlink env p n t) :=
  keeps_bind (stays_of_quiet (quiet_inode p)) fun _ =>
    keeps_bind (stays_of_quiet (quiet_cstring n)) fun _ =>
      keeps_bind (stays_of_quiet (quiet_cstring t)) fun _ =>
        keeps_bind (stays_sys _ _) fun _ => stays_lookup p n

private theorem stays_rename (p : UInt64) (n : Name) (p' : UInt64) (n' : Name) :
    Keeps handleFrame (rename env p n p' n') :=
  keeps_bind (stays_of_quiet (quiet_inode p)) fun _ =>
    keeps_bind (stays_of_quiet (quiet_inode p')) fun _ =>
      keeps_bind (stays_of_quiet (quiet_cstring n)) fun _ =>
        keeps_bind (stays_of_quiet (quiet_cstring n')) fun _ =>
          keeps_bind (stays_sys _ _) fun _ => stays_of_final fun _ => rfl

private theorem stays_forget (entries : List (UInt64 × UInt64)) :
    Keeps handleFrame (forgetEntries entries) := by
  induction entries with
  | nil => exact keeps_pure ()
  | cons e rest ih =>
    refine keeps_bind (stays_of_final fun w => ?_) fun _ => ih
    rw [forget_eq]
    rfl

theorem stays_reopenViaParent (ino : UInt64) (flags : UInt32) :
    Keeps handleFrame (reopenViaParent env ino flags) := by
  refine keeps_bind (stays_of_quiet (quiet_inode ino)) fun d => ?_
  by_cases hroot : ino = ROOT_ID
  · simp only [hroot, if_true]
    exact stays_sys _ _
  · simp only [hroot, if_false]
    exact keeps_bind (stays_of_quiet (quiet_parentFdName d)) fun _ => stays_sys _ _

private theorem stays_setattr (ino : UInt64) (attr : SetAttr) :
    Keeps handleFrame (setattr env ino attr) := by
  refine keeps_bind (stays_of_quiet (quiet_inode ino)) fun d => keeps_bind ?_ fun _ =>
    keeps_bind (stays_of_quiet (quiet_setInfo d attr)) fun _ => stays_of_quiet (quiet_getattr ino)
  cases attr.size with
  | none => exact keeps_pure ()
  | some size =>
    refine keeps_bind (stays_reopenViaParent ino _) fun fd => stays_of_final fun w => ?_
    rcases truncateClose_cases env fd size w with ⟨e, he⟩ | ⟨h, -, hok⟩
    · rw [he]
      rfl
    · rw [hok]
      rfl

end Stays

section Adds
variable {α β : Type} {env : Env} {m : FsM α} {f : α → FsM β}

/-- The handle table stays or gets one new entry. -/
def AddsOne (m : FsM α) : Prop := ∀ w, (final (m w)).handles = w.handles ∨
  ∃ data, (final (m w)).handles = (w.handles.insert data).2

theorem addsOne_bind (hm : Keeps handleFrame m) (hf : ∀ a, AddsOne (f a)) : AddsOne (m >>= f) := by
  intro w
  have hrel := (hm w trivial).1
  cases h : m w with
  | error e w' =>
    rw [bind_of_error h]
    rw [h] at hrel
    exact Or.inl hrel
  | ok a w' =>
    have hw : w'.handles = w.handles := by
      rw [h] at hrel
      exact hrel
    rw [bind_of_ok h, ← hw]
    exact hf a w'

theorem addsOne_insertHandle (data : HandleData) : AddsOne (insertHandle data) :=
  fun _ => Or.inr ⟨data, rfl⟩

private theorem addsOne_openFile (ino : UInt64) (flags : UInt32) :
    AddsOne (openFile env ino flags) :=
  addsOne_bind (stays_reopenViaParent ino flags) fun _ => addsOne_insertHandle _

private theorem addsOne_opendir (ino : UInt64) : AddsOne (opendir env ino) := by
  refine addsOne_bind (stays_reopenViaParent ino _) fun fd =>
    addsOne_bind (stays_of_final fun w => ?_) fun _ => addsOne_insertHandle _
  rcases dirFromFd_cases env fd w with ⟨e, he⟩ | hok
  · rw [he]
    rfl
  · rw [hok]
    rfl

private theorem addsOne_create (p : UInt64) (n : Name) (flags mode : UInt32) :
    AddsOne (create env p n flags mode) :=
  addsOne_bind (stays_of_quiet (quiet_inode p)) fun _ =>
    addsOne_bind (stays_of_quiet (quiet_cstring n)) fun _ =>
      addsOne_bind (stays_sys _ _) fun fd => addsOne_bind (stays_lookup p n) fun _ =>
        fun _ => Or.inr ⟨.file fd, rfl⟩

end Adds

def HandleEffect (h h' : HandleStore) : Call → Prop
  | .release i => h' = { h with handles := Function.update h.handles i none }
  | .openFile .. | .create .. | .opendir .. => h' = h ∨ ∃ data, h' = (h.insert data).2
  | _ => h' = h

section Effect
variable {h h' : HandleStore} {c : Call} {fh : UInt64} {fd : Fd}

/-- A `release` leaves the handle it names without an entry, whether or not it had one. -/
theorem release_handles (i : UInt64) (w : World) : (final (release i w)).handles =
    { w.handles with handles := Function.update w.handles.handles i none } := by
  unfold release HandleStore.remove
  cases hi : w.handles.handles i with
  | some data => rfl
  | none =>
    have hsame : Function.update w.handles.handles i none = w.handles.handles :=
      Function.update_eq_self_iff.mpr hi.symm
    rw [hsame]
    rfl

theorem Call.run_handles (env : Env) (c : Call) (w : World) :
    HandleEffect w.handles (final (c.run env w)).handles c := by
  have hstay : ∀ {α : Type} {m : FsM α} {g : α → Option UInt64}, Keeps handleFrame m →
      (final ((g <$> m) w)).handles = w.handles := fun hm => (keeps_map hm w trivial).1
  have hfinal : ∀ {α : Type} (m : FsM α) (g : α → Option UInt64),
      final ((g <$> m) w) = final (m w) := by
    intro α m g
    rw [map_eq_pure_bind, final_bind_pure]
  cases c with
  | nothing => rfl
  | lookup p n => exact hstay (stays_lookup p n)
  | forget entries => exact hstay (stays_forget entries)
  | getattr ino => exact hstay (stays_of_quiet (quiet_getattr ino))
  | setattr ino attr => exact hstay (stays_setattr ino attr)
  | readlink ino => exact hstay (stays_of_quiet (quiet_readlink ino))
  | symlink p n t => exact hstay (stays_symlink p n t)
  | mkdir p n mode => exact hstay (stays_mkdir p n mode)
  | unlink p n => exact hstay (stays_of_quiet (quiet_unlink p n))
  | rmdir p n => exact hstay (stays_of_quiet (quiet_rmdir p n))
  | rename p n p' n' => exact hstay (stays_rename p n p' n')
  | link ino p n => exact hstay (stays_of_quiet (quiet_link ino p n))
  | read i off size => exact hstay (stays_of_quiet (quiet_read i off size))
  | write i off data => exact hstay (stays_of_quiet (quiet_write i off data))
  | fsync i => exact hstay (stays_of_quiet (quiet_fsync i))
  | statfs ino => exact hstay (stays_of_quiet (quiet_statfs ino))
  | openFile ino flags =>
    unfold Call.run HandleEffect
    rw [hfinal]
    exact addsOne_openFile ino flags w
  | create p n flags mode =>
    unfold Call.run HandleEffect
    rw [hfinal]
    exact addsOne_create p n flags mode w
  | opendir ino =>
    unfold Call.run HandleEffect
    rw [hfinal]
    exact addsOne_opendir ino w
  | release i =>
    unfold Call.run HandleEffect
    rw [hfinal]
    exact release_handles i w

/-- Handles are given out in order. -/
def HandleStore.Below (h : HandleStore) : Prop :=
  ∀ i, (h.handles i).isSome → i.toNat < h.nextId.toNat

theorem HandleStore.new_below : HandleStore.new.Below := fun _ h => by cases h

/-- A call stays as it is, forgets one handle, or adds the next one. -/
theorem HandleEffect.cases (he : HandleEffect h h' c) :
    h' = h ∨ (∃ i, c = .release i ∧ h' = { h with handles := Function.update h.handles i none }) ∨
      ((∀ i, c ≠ .release i) ∧ ∃ data, h' = (h.insert data).2) := by
  cases c with
  | release i => exact Or.inr (Or.inl ⟨i, rfl, he⟩)
  | openFile _ _ | create _ _ _ _ | opendir _ =>
    exact Or.imp id (fun hd => Or.inr ⟨fun _ heq => (by cases heq), hd⟩) he
  | _ => exact Or.inl he

theorem HandleEffect.below (he : HandleEffect h h' c) (hb : h.Below)
    (hroom : h.nextId.toNat + 1 < 2 ^ 64) :
    h'.Below ∧ h'.nextId.toNat ≤ h.nextId.toNat + 1 := by
  rcases he.cases with rfl | ⟨i, -, rfl⟩ | ⟨-, data, rfl⟩
  · exact ⟨hb, Nat.le_succ _⟩
  · refine ⟨fun j hj => ?_, Nat.le_succ _⟩
    by_cases hji : j = i
    · subst hji
      simp at hj
    · exact hb j (by simpa [Function.update_of_ne hji] using hj)
  · have hnext : (h.nextId + 1).toNat = h.nextId.toNat + 1 := InodeStore.toNat_succ hroom
    refine ⟨fun j hj => ?_, le_of_eq hnext⟩
    show j.toNat < (h.nextId + 1).toNat
    rw [hnext]
    by_cases hji : j = h.nextId
    · rw [hji]
      exact Nat.lt_succ_self _
    · have hold : (h.handles j).isSome := by
        simpa [HandleStore.insert, Function.update_of_ne hji] using hj
      exact Nat.lt_succ_of_lt (hb j hold)

def HandleStore.HasDir (h : HandleStore) (fh : UInt64) : Prop := ∃ fd, h.handles fh = some (.dir fd)

theorem HandleStore.hasDir_iff : h.HasDir fh ↔ ∃ fd, h.withDir fh = .ok fd := by
  unfold HasDir withDir
  cases h.handles fh with
  | none => simp
  | some data => cases data <;> simp

/-- A directory handle stays open through every call that does not release it. -/
theorem HandleEffect.hasDir (he : HandleEffect h h' c) (hb : h.Below) (hc : c ≠ .release fh)
    (hd : h.HasDir fh) : h'.HasDir fh := by
  obtain ⟨fd, hfd⟩ := hd
  rcases he.cases with rfl | ⟨i, hci, rfl⟩ | ⟨-, data, rfl⟩
  · exact ⟨fd, hfd⟩
  · have hne : fh ≠ i := fun heq => hc (heq ▸ hci)
    exact ⟨fd, by rw [← hfd]; exact Function.update_of_ne hne _ _⟩
  · have hlt := hb fh (by rw [hfd]; rfl)
    have hne : fh ≠ h.nextId := fun heq => absurd (congrArg UInt64.toNat heq) (ne_of_lt hlt)
    exact ⟨fd, by rw [← hfd]; exact Function.update_of_ne hne _ _⟩

/-- A released handle is not open. -/
theorem HandleEffect.released (he : HandleEffect h h' (.release fh)) : ¬ h'.HasDir fh := by
  rintro ⟨fd, hfd⟩
  have hstore : h' = { h with handles := Function.update h.handles fh none } := he
  rw [hstore] at hfd
  simp at hfd

end Effect

end Riftlessfs.Core
