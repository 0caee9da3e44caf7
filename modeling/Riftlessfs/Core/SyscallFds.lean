import Riftlessfs.Core.NamespaceEffects

/-! What syscalls do to the open descriptors, on any path: those that open a file add one
descriptor, the others add none and close none. -/
namespace Riftlessfs.Core.Host
open Lib.Effect

variable {α β : Type} {h h' h₁ h₂ : Host} {base k fresh : FileKey} {n : Name} {fd : Fd}
  {flags mode : UInt32}

/-- A syscall that succeeds ends as `R` says. -/
def Gives (R : α → Host → Prop) (x : Except Errno (α × Host)) : Prop :=
  ∀ a h', x = .ok (a, h') → R a h'

section Gives
variable {R : α → Host → Prop}

theorem gives_error (e : Errno) : Gives R (.error e) := by
  intro a h' heq
  cases heq

theorem gives_ok {a : α} (hr : R a h) : Gives R (.ok (a, h)) := by
  intro a' h' heq
  cases heq
  exact hr

theorem gives_bind {x : Except Errno β} {f : β → Except Errno (α × Host)}
    (hf : ∀ b, x = .ok b → Gives R (f b)) : Gives R (x >>= f) := by
  intro a h' heq
  obtain ⟨b, hb, hok⟩ := except_bind_ok heq
  exact hf b hb a h' hok

theorem gives_ite {c : Prop} [Decidable c] {x y : Except Errno (α × Host)}
    (hx : Gives R x) (hy : Gives R y) : Gives R (if c then x else y) := by
  split
  · exact hx
  · exact hy

/-- A syscall that first checks `c`. -/
theorem gives_unless {c : Prop} [Decidable c] {e : Errno} {y : Except Errno (α × Host)}
    (hy : Gives R y) : Gives R (if c then .error e else y) :=
  gives_ite (gives_error e) hy

end Gives

theorem SameFds.refl (h : Host) : SameFds h h := ⟨rfl, rfl⟩

theorem SameFds.trans (ha : SameFds h h₁) (hb : SameFds h₁ h₂) : SameFds h h₂ :=
  ⟨hb.fds.trans ha.fds, hb.nextFd.trans ha.nextFd⟩

theorem NodesOnly.sameFds (hn : NodesOnly h h₁) (kind : EventKind) (k : FileKey) :
    SameFds h (h₁.note kind k) := ⟨hn.fds, hn.nextFd⟩

theorem SameFds.openFd (hs : SameFds h h₁) (k : FileKey) (flags : UInt32) :
    AddsFd h (h₁.openFd k flags).2 (h₁.openFd k flags).1 := by
  refine ⟨hs.nextFd, ?_, ?_⟩
  · show (h₁.openFd k flags).1 :: h₁.fds = _
    rw [hs.fds]
  · show h₁.nextFd + 1 = _
    rw [hs.nextFd]

theorem allocate_sameFds {body : Body} (ha : h.allocate fresh body mode = .ok h') :
    SameFds h h' := by
  unfold allocate at ha
  split at ha
  · cases ha
  · cases ha
    exact ⟨rfl, rfl⟩

theorem create_sameFds {body : Body} (hc : h.create base n fresh body mode = .ok h') :
    SameFds h h' := by
  unfold create at hc
  simp only [Bind.bind, Except.bind] at hc
  split at hc
  · cases hc
  cases ha : h.allocate fresh body mode with
  | error e => simp [ha] at hc
  | ok h₁ =>
    simp only [ha, Except.ok.injEq] at hc
    subst hc
    have hbind : NodesOnly h₁ (h₁.bind base n fresh) := nodesOnly_mapEntries _
    exact (allocate_sameFds ha).trans ⟨hbind.fds, hbind.nextFd⟩

section Same

theorem fstatat_same : Gives (fun _ => SameFds h) (h.fstatat base n) := by
  refine gives_bind fun k _ => ?_
  split
  · exact gives_error _
  · exact gives_ok (.refl h)

theorem fstat_same : Gives (fun _ => SameFds h) (h.fstat fd) := by
  unfold fstat
  split
  · exact gives_error _
  · exact gives_ok (.refl h)

theorem ftruncate_same (size : UInt64) : Gives (fun _ => SameFds h) (h.ftruncate fd size) :=
  fun _ _ heq => (ftruncate_ok heq).2

theorem fchmodat_same : Gives (fun _ => SameFds h) (h.fchmodat base n mode) :=
  gives_bind fun _ _ => gives_unless (gives_ok ((nodesOnly_mapInfo _).sameFds _ _))

theorem fchownat_same (uid gid : UInt32) : Gives (fun _ => SameFds h) (h.fchownat base n uid gid) :=
  gives_bind fun _ _ => gives_ok ((nodesOnly_mapInfo _).sameFds _ _)

theorem utimensat_same (now atime mtime : Time) :
    Gives (fun _ => SameFds h) (h.utimensat base n now atime mtime) := by
  refine gives_bind fun k _ => ?_
  split
  · exact gives_error _
  · exact gives_bind fun _ _ => gives_bind fun _ _ => gives_ok ((nodesOnly_mapInfo _).sameFds _ _)

theorem mkdirat_same : Gives (fun _ => SameFds h) (h.mkdirat base n mode fresh) := by
  refine gives_bind fun place _ => ?_
  split
  · exact gives_error _
  split
  · exact gives_error _
  · exact gives_bind fun h₁ hc => gives_ok (create_sameFds hc)

theorem symlinkat_same (t : Name) : Gives (fun _ => SameFds h) (h.symlinkat t base n fresh) := by
  refine gives_unless (gives_bind fun place _ => ?_)
  split
  · exact gives_error _
  split
  · exact gives_error _
  · exact gives_unless (gives_bind fun h₁ hc => gives_ok (create_sameFds hc))

theorem unlinkat_same (removedir : Bool) :
    Gives (fun _ => SameFds h) (h.unlinkat base n removedir) := by
  refine gives_bind fun place _ => ?_
  split
  · exact gives_error _
  split
  · exact gives_error _
  have hunbind : ∀ d l, NodesOnly h (h.unbind d l) := fun d l => nodesOnly_mapEntries _
  apply gives_ite
  · exact gives_unless (gives_unless
      (gives_ok (((hunbind _ _).trans nodesOnly_markDead).sameFds _ _)))
  · exact gives_unless (gives_unless (gives_ok ((hunbind _ _).sameFds _ _)))

theorem renameat_same (base' : FileKey) (n' : Name) :
    Gives (fun _ => SameFds h) (h.renameat base n base' n') := by
  have hmove : ∀ d l d' l' m, SameFds h (h.moveEntry d l d' l' m) := fun d l d' l' m =>
    nodesOnly_moveEntry.sameFds _ _
  refine gives_bind fun place _ => gives_bind fun place' _ => ?_
  split
  · split
    · exact gives_error _
    refine gives_unless (gives_unless (gives_unless ?_))
    split
    · exact gives_unless (gives_ok (hmove _ _ _ _ _))
    · refine gives_ite (gives_ok (.refl h)) (gives_bind fun _ _ => gives_ok ?_)
      exact (hmove _ _ _ _ _).trans (nodesOnly_markDead.sameFds _ _)
  · exact gives_error _

theorem linkat_same : Gives (fun _ => SameFds h) (h.linkat fd base n) := by
  refine gives_bind fun place _ => ?_
  split
  · exact gives_error _
  split
  · exact gives_error _
  · exact gives_unless (gives_unless (gives_unless (gives_unless
      (gives_ok ((nodesOnly_mapEntries _).sameFds _ _)))))

theorem readlinkat_same (size : ℕ) : Gives (fun _ => SameFds h) (h.readlinkat base n size) := by
  refine gives_bind fun k _ => ?_
  split
  · exact gives_ok ⟨rfl, rfl⟩
  · exact gives_error _

theorem pread_same (off : UInt64) (size : ℕ) :
    Gives (fun _ => SameFds h) (h.pread fd off size) := by
  refine gives_unless (gives_unless ?_)
  split
  · exact gives_unless (gives_ok (.refl h))
  · exact gives_error _
  · exact gives_error _

theorem pwrite_same (room : Option ℕ) (off : UInt64) (new : List UInt8) :
    Gives (fun _ => SameFds h) (h.pwrite room fd off new) := by
  refine gives_unless (gives_unless ?_)
  split
  · exact gives_unless (gives_unless (gives_ok ((nodesOnly_setData _).sameFds _ _)))
  · exact gives_error _
  · exact gives_error _

theorem preadv_same (off : UInt64) (sizes : List ℕ) :
    Gives (fun _ => SameFds h) (h.preadv fd off sizes) :=
  gives_unless (pread_same off sizes.sum)

theorem pwritev_same (room : Option ℕ) (off : UInt64) (bufs : List (List UInt8)) :
    Gives (fun _ => SameFds h) (h.pwritev room fd off bufs) :=
  gives_unless (pwrite_same room off bufs.flatten)

theorem listDir_same (pos : ℕ) : Gives (fun _ => SameFds h) (h.listDir fd pos) := by
  unfold listDir
  split
  · exact gives_ok (.refl h)
  · exact gives_error _

end Same

section Adds

theorem gives_openFd (hs : SameFds h h₁) (kind : EventKind) (k : FileKey) (flags : UInt32) :
    Gives (fun fd' h' => AddsFd h h' fd') (.ok ((h₁.note kind k).openFd k flags)) := by
  have hnote : SameFds h (h₁.note kind k) := ⟨hs.fds, hs.nextFd⟩
  exact gives_ok (hnote.openFd k flags)

theorem dup_adds : Gives (fun fd' h' => AddsFd h h' fd') (h.dup fd) :=
  gives_openFd (.refl h) .opened fd.file fd.flags

theorem openPath_adds (kind : EventKind) :
    Gives (fun fd' h' => AddsFd h h' fd') (h.openPath base n flags kind) :=
  gives_bind fun _ _ => gives_unless (gives_openFd (.refl h) _ _ _)

theorem finishOpen_adds : Gives (fun fd' h' => AddsFd h h' fd') (h.finishOpen k flags) := by
  have hopen := gives_openFd (.refl h) .opened k flags
  unfold finishOpen
  split
  · exact gives_error _
  · exact gives_error _
  · exact gives_unless hopen
  · have hdata := (nodesOnly_setData (h := h) (k := k) []).sameFds .opened k
    exact gives_unless (gives_ite (gives_openFd hdata _ _ _) hopen)
  · exact gives_unless hopen

private theorem openTmpfile_adds :
    Gives (fun fd' h' => AddsFd h h' fd') (h.openTmpfile base n flags mode fresh) :=
  gives_unless (gives_bind fun _ _ => gives_unless (gives_bind fun _ ha =>
    gives_openFd (allocate_sameFds ha) _ _ _))

private theorem openCreate_adds :
    Gives (fun fd' h' => AddsFd h h' fd') (h.openCreate base n flags mode fresh) := by
  refine gives_unless (gives_bind fun place _ => ?_)
  split
  · exact gives_error _
  split
  · exact gives_unless finishOpen_adds
  · exact gives_unless (gives_bind fun _ hc => gives_openFd (create_sameFds hc) _ _ _)

theorem openat_adds : Gives (fun fd' h' => AddsFd h h' fd') (h.openat base n flags mode fresh) :=
  gives_ite (openPath_adds .opened) (gives_ite openTmpfile_adds
    (gives_ite openCreate_adds (gives_bind fun _ _ => finishOpen_adds)))

end Adds

end Riftlessfs.Core.Host
