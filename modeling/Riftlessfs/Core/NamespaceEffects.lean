import Riftlessfs.Core.SyscallEffects

/-! What the syscalls that make, remove and move names do to the directory graph. -/
namespace Riftlessfs.Core.Host
open Lib Lib.Effect

variable {h h' : Host} {base base' k fresh : FileKey} {n n' : Name} {fd : Fd}
  {flags mode : UInt32} {body : Body}

/-- A body a new file may start with. -/
def FreshBody (body : Body) : Prop := (∀ n, body.entries n = none) ∧ body.dead = false

private theorem freshBody_file : FreshBody (.file []) := ⟨fun _ => rfl, rfl⟩

private theorem freshBody_symlink (t : Name) : FreshBody (.symlink t) := ⟨fun _ => rfl, rfl⟩

private theorem freshBody_dir (up : FileKey) : FreshBody (.dir up ∅ false) :=
  ⟨fun _ => AList.lookup_empty _, rfl⟩

/-- A new file under a free name of directory `base`. -/
structure Made (h h' : Host) (base : FileKey) (n : Name) (fresh : FileKey)
    (up : Option FileKey) : Prop where
  plain : Plain n
  dir : h.isDir base = true
  free : h.entry base n = none
  alive : h.isDead base = false
  unused : h.inUse fresh = false
  alters : AltersOnly {base, fresh} h h'
  changed : base ≠ fresh → Changed h h' (h.graph.create base n fresh up) [⟨.created, fresh⟩]

private theorem allocate_ok (hb : FreshBody body) (ha : h.allocate fresh body mode = .ok h') :
    h.inUse fresh = false ∧ AltersOnly {fresh} h h' ∧
      Changed h h' (h.graph.alloc fresh body.up) [⟨.created, fresh⟩] := by
  unfold allocate at ha
  split at ha
  · cases ha
  rename_i hu
  cases ha
  refine ⟨Bool.eq_false_iff.mpr hu, altersOnly_setNode _, ?_, rfl, rfl, rfl⟩
  rw [graph_note]
  refine graph_setNode _ ⟨fun n => ?_, ?_, ?_⟩ fun x hx => ⟨fun m => ?_, ?_, ?_⟩
  · simp [DirGraph.alloc, hb.1]
  · simp [DirGraph.alloc]
  · simp [DirGraph.alloc, hb.2]
  · simp [DirGraph.alloc, hx]
  · simp [DirGraph.alloc, hx]
  · simp [DirGraph.alloc, hx]

theorem create_ok (hb : FreshBody body) (hc : h.create base n fresh body mode = .ok h')
    (hn : Plain n) (hd : h.isDir base = true) (hfree : h.entry base n = none) :
    Made h h' base n fresh body.up := by
  unfold create at hc
  simp only [Bind.bind, Except.bind] at hc
  split at hc
  · cases hc
  rename_i hdead
  cases ha : h.allocate fresh body mode with
  | error e => simp [ha] at hc
  | ok h₁ =>
    simp only [ha, Except.ok.injEq] at hc
    subst hc
    obtain ⟨hu, halters, hch⟩ := allocate_ok hb ha
    have hbound : AltersOnly {base} h₁ (h₁.bind base n fresh) := altersOnly_mapEntries _
    have hboth : AltersOnly {base, fresh} h (h₁.bind base n fresh) := by
      refine (halters.trans hbound).mono ?_
      rw [Set.union_comm, Set.singleton_union]
    refine ⟨hn, hd, hfree, Bool.eq_false_iff.mpr hdead, hu, hboth, fun hne => ?_⟩
    have hd₁ : h₁.isDir base = true := by
      rw [isDir_iff, hch.graph]
      show (if base = fresh then body.up else h.dirParent base).isSome = true
      rw [if_neg hne]
      exact hd
    have hn₁ : NodesOnly h₁ (h₁.bind base n fresh) := nodesOnly_mapEntries _
    refine ⟨?_, hn₁.log.trans hch.log, hn₁.fds.trans hch.fds, hn₁.nextFd.trans hch.nextFd⟩
    rw [graph_bind hd₁, hch.graph]
    rfl

theorem mkdirat_ok (hn : Slashless n) (hm : h.mkdirat base n mode fresh = .ok ((), h')) :
    Made h h' base n fresh (some base) := by
  unfold mkdirat at hm
  obtain ⟨place, hr, hok⟩ := except_bind_ok hm
  split at hok
  · cases hok
  · rename_i d m
    obtain ⟨rfl, rfl, hp, hd⟩ := resolve_entry hn (Or.inl rfl) hr
    split at hok
    · cases hok
    · rename_i hfree
      obtain ⟨h₁, hc, hok⟩ := except_bind_ok hok
      cases hok
      exact create_ok (freshBody_dir d) hc hp hd hfree

theorem symlinkat_ok (hn : Slashless n) {t : Name}
    (hs : h.symlinkat t base n fresh = .ok ((), h')) : Made h h' base n fresh none := by
  unfold symlinkat at hs
  simp only [Bind.bind, Except.bind] at hs
  split at hs
  · cases hs
  cases hr : h.resolve false base n with
  | error e => simp [hr] at hs
  | ok place =>
    simp only [hr] at hs
    split at hs
    · cases hs
    · rename_i d m
      obtain ⟨rfl, rfl, hp, hd⟩ := resolve_entry hn (Or.inl rfl) hr
      split at hs
      · cases hs
      · rename_i hfree
        split at hs
        · cases hs
        cases hc : h.create d m fresh (.symlink t) 0o777 with
        | error e => simp [hc] at hs
        | ok h₁ =>
          simp only [hc, Except.ok.injEq, Prod.mk.injEq, true_and] at hs
          subst hs
          exact create_ok (freshBody_symlink t) hc hp hd hfree

theorem leaf_of_not_isDir (hk : h.isDir k = false) : h.graph.Leaf k := by
  intro n
  rw [graph_entry]
  unfold isDir dirParent at hk
  unfold entry
  split
  · rename_i hv
    simp [hv] at hk
  · rfl

theorem unlinkat_ok (hn : Slashless n) {removedir : Bool}
    (hu : h.unlinkat base n removedir = .ok ((), h')) :
    ∃ k, Plain n ∧ h.entry base n = some k ∧ h.graph.Leaf k ∧ AltersOnly {base, k} h h' ∧
      Changed h h' (h.graph.remove base n k) [⟨.removed, k⟩] := by
  unfold unlinkat at hu
  obtain ⟨place, hr, hok⟩ := except_bind_ok hu
  split at hok
  · cases hok
  · rename_i d m
    obtain ⟨rfl, rfl, hp, hd⟩ := resolve_entry hn (Or.inl rfl) hr
    have hunbind : NodesOnly h (h.unbind d m) := nodesOnly_mapEntries _
    have hunbound : AltersOnly {d} h (h.unbind d m) := altersOnly_mapEntries _
    split at hok
    · cases hok
    · rename_i k hk
      refine ⟨k, hp, hk, ?_⟩
      split at hok
      · split at hok
        · cases hok
        split at hok
        · cases hok
        · rename_i hempty
          simp only [Except.ok.injEq, Prod.mk.injEq, true_and] at hok
          subst hok
          have hc := (hunbind.trans (nodesOnly_markDead (k := k))).changed (k := k) .removed
          rw [graph_markDead, graph_unbind] at hc
          have hdead : AltersOnly {k} (h.unbind d m) ((h.unbind d m).markDead k) :=
            altersOnly_markDead
          exact ⟨leaf_of_isEmptyDir (by simpa using hempty), hunbound.trans hdead, hc⟩
      · split at hok
        · cases hok
        rename_i hdir
        split at hok
        · cases hok
        simp only [Except.ok.injEq, Prod.mk.injEq, true_and] at hok
        subst hok
        have hnd : h.isDir k = false := by simpa using hdir
        have hsame : (h.unbind d m).graph = h.graph.remove d m k := by
          unfold DirGraph.remove
          rw [graph_unbind, DirGraph.kill_of_not_dir]
          exact fun hk => hdir hk
        have hc := hunbind.changed (k := k) .removed
        rw [hsame] at hc
        exact ⟨leaf_of_not_isDir hnd, hunbound.mono (by simp), hc⟩

inductive Renamed (h h' : Host) (base : FileKey) (n : Name) (base' : FileKey) (n' : Name)
    (m : FileKey) : Prop where
  | same (ht : h.entry base' n' = some m) (he : h' = h)
  | free (ht : h.entry base' n' = none) (ha : h.isDead base' = false)
      (hc : Changed h h' (h.graph.move base n base' n' m) [⟨.renamed, m⟩])
  | onto (t : FileKey) (ht : h.entry base' n' = some t) (hne : t ≠ m) (hl : h.graph.Leaf t)
      (hc : Changed h h' ((h.graph.move base n base' n' m).kill t)
        [⟨.renamed, m⟩, ⟨.removed, t⟩])

theorem nodesOnly_moveEntry {m : FileKey} :
    NodesOnly h (((h.unbind base n).bind base' n' m).reparent m base') :=
  ((nodesOnly_mapEntries _).trans (nodesOnly_mapEntries _)).trans (nodesOnly_reparent _)

private theorem moveEntry_changed (base : FileKey) (n n' : Name) (m : FileKey)
    (hd : h.isDir base' = true) :
    Changed h (h.moveEntry base n base' n' m) (h.graph.move base n base' n' m)
      [⟨.renamed, m⟩] := by
  have hg : (((h.unbind base n).bind base' n' m).reparent m base').graph =
      h.graph.move base n base' n' m := by
    have hd₁ : (h.unbind base n).isDir base' = true := by
      rw [isDir_iff, graph_unbind]
      exact hd
    rw [graph_reparent, graph_bind hd₁, graph_unbind]
    rfl
  rw [← hg]
  exact nodesOnly_moveEntry.changed .renamed

/-- The files a rename of `m` to the name `n'` of directory `base'` may alter. -/
def renameAlters (h : Host) (base base' : FileKey) (n' : Name) (m : FileKey) : Set FileKey :=
  {x | x = base ∨ x = base' ∨ x = m ∨ h.entry base' n' = some x}

private theorem moveEntry_alters (base base' : FileKey) (n n' : Name) (m : FileKey) :
    AltersOnly {x | x = base ∨ x = base' ∨ x = m} h (h.moveEntry base n base' n' m) := by
  have hout : AltersOnly {base} h (h.unbind base n) := altersOnly_mapEntries _
  have hin : AltersOnly {base'} (h.unbind base n) ((h.unbind base n).bind base' n' m) :=
    altersOnly_mapEntries _
  refine ((hout.trans hin).trans (altersOnly_reparent (k := m) base')).mono ?_
  rintro x ((hx | hx) | hx)
  · exact Or.inl hx
  · exact Or.inr (Or.inl hx)
  · exact Or.inr (Or.inr hx)

private theorem renameTarget_leaf {m t : FileKey} (hr : h.renameTarget m t = .ok ()) :
    h.graph.Leaf t := by
  unfold renameTarget at hr
  split at hr
  · split at hr
    · cases hr
    split at hr
    · cases hr
    · rename_i hempty
      exact leaf_of_isEmptyDir (by simpa using hempty)
  · split at hr
    · cases hr
    · rename_i hdir
      exact leaf_of_not_isDir (by simpa using hdir)

theorem renameat_ok (hn : Slashless n) (hn' : Slashless n')
    (hr : h.renameat base n base' n' = .ok ((), h')) :
    ∃ m, Plain n ∧ Plain n' ∧ h.entry base n = some m ∧ h.isDir base = true ∧
      h.isDir base' = true ∧
      (h.isDir m = true → ∃ fuel, h.isBelow m fuel base' = false) ∧
      AltersOnly (h.renameAlters base base' n' m) h h' ∧ Renamed h h' base n base' n' m := by
  unfold renameat at hr
  obtain ⟨place, hp, hr₁⟩ := except_bind_ok hr
  obtain ⟨place', hp', hok⟩ := except_bind_ok hr₁
  split at hok
  · rename_i d l d' l'
    obtain ⟨rfl, rfl, hpn, hd⟩ := resolve_entry hn (Or.inl rfl) hp
    obtain ⟨rfl, rfl, hpn', hd'⟩ := resolve_entry hn' (Or.inl rfl) hp'
    split at hok
    · cases hok
    · rename_i m hm
      split at hok
      · cases hok
      split at hok
      · cases hok
      split at hok
      · cases hok
      rename_i hbelow
      have hfuel : h.isDir m = true → ∃ fuel, h.isBelow m fuel d' = false := by
        intro hdir
        exact ⟨_, by simpa [hdir] using hbelow⟩
      refine ⟨m, hpn, hpn', hm, hd, hd', hfuel, ?_⟩
      have hmove := moveEntry_changed d l l' m hd'
      have hmoved : AltersOnly (h.renameAlters d d' l' m) h (h.moveEntry d l d' l' m) := by
        refine (moveEntry_alters d d' l l' m).mono ?_
        rintro x (hx | hx | hx)
        · exact Or.inl hx
        · exact Or.inr (Or.inl hx)
        · exact Or.inr (Or.inr (Or.inl hx))
      split at hok
      · rename_i hfree
        split at hok
        · cases hok
        rename_i hdead
        simp only [Except.ok.injEq, Prod.mk.injEq, true_and] at hok
        subst hok
        exact ⟨hmoved, .free hfree (Bool.eq_false_iff.mpr hdead) hmove⟩
      · rename_i t ht
        split at hok
        · rename_i htm
          simp only [Except.ok.injEq, Prod.mk.injEq, true_and] at hok
          subst hok
          exact ⟨AltersOnly.refl _ h, .same (htm ▸ ht) rfl⟩
        · rename_i htm
          obtain ⟨_, hleaf, hok⟩ := except_bind_ok hok
          simp only [Except.ok.injEq, Prod.mk.injEq, true_and] at hok
          subst hok
          have hkilled : AltersOnly (h.renameAlters d d' l' m) h
              ((h.moveEntry d l d' l' m).markDead t) := by
            refine (hmoved.trans altersOnly_markDead).mono ?_
            rintro x (hx | rfl)
            · exact hx
            · exact Or.inr (Or.inr (Or.inr ht))
          refine ⟨hkilled, .onto t ht htm (renameTarget_leaf hleaf) ?_⟩
          have hkill : NodesOnly (h.moveEntry d l d' l' m) ((h.moveEntry d l d' l' m).markDead t) :=
            nodesOnly_markDead
          refine ⟨?_, ?_, hkill.fds.trans hmove.fds, hkill.nextFd.trans hmove.nextFd⟩
          · rw [graph_note, graph_markDead, hmove.graph]
          · show ((h.moveEntry d l d' l' m).markDead t).log ++ _ = _
            rw [hkill.log, hmove.log, List.append_assoc]
            rfl
  · cases hok

theorem linkat_ok (hn : Slashless n) (hl : h.linkat fd base n = .ok ((), h')) :
    Plain n ∧ h.isDir base = true ∧ h.entry base n = none ∧ h.isDead base = false ∧
      h.isDir fd.file = false ∧ (∃ x l, h.entry x l = some fd.file) ∧ AltersOnly {base} h h' ∧
      Changed h h' (h.graph.bind base n fd.file) [⟨.linked, fd.file⟩] := by
  unfold linkat at hl
  obtain ⟨place, hr, hok⟩ := except_bind_ok hl
  split at hok
  · cases hok
  · rename_i d m
    obtain ⟨rfl, rfl, hp, hd⟩ := resolve_entry hn (Or.inl rfl) hr
    split at hok
    · cases hok
    · rename_i hfree
      split at hok
      · cases hok
      rename_i hdead
      split at hok
      · cases hok
      rename_i hdir
      split at hok
      · cases hok
      rename_i hlinks
      split at hok
      · cases hok
      simp only [Except.ok.injEq, Prod.mk.injEq, true_and] at hok
      subst hok
      have hbind : NodesOnly h (h.bind d m fd.file) := nodesOnly_mapEntries _
      have hbound : AltersOnly {d} h (h.bind d m fd.file) := altersOnly_mapEntries _
      have hc := hbind.changed (k := fd.file) .linked
      rw [graph_bind hd] at hc
      have halive : h.isDead d = false := by
        have : ¬ h.isDead d = true := fun hx => hdead (Or.inr hx)
        simpa using this
      exact ⟨hp, hd, hfree, halive, by simpa using hdir, exists_entry_of_linkCount hlinks, hbound,
        hc⟩

structure MadeOpen (h h' : Host) (base : FileKey) (n : Name) (fresh : FileKey)
    (flags : UInt32) (fd : Fd) : Prop where
  made : ∃ h₁, Made h h₁ base n fresh none ∧
    h' = ((h₁.note .opened fresh).openFd fresh flags).2 ∧
    fd = ((h₁.note .opened fresh).openFd fresh flags).1

theorem openCreate_ok (hn : Slashless n)
    (hl : h.NoLink (!hasFlag flags O_NOFOLLOW && !hasFlag flags O_EXCL) base n)
    (ho : h.openCreate base n flags mode fresh = .ok (fd, h')) :
    (hasFlag flags O_EXCL = false ∧
      ∃ k, target h.graph base n = some k ∧ OpenedFile h h' k flags fd) ∨
    MadeOpen h h' base n fresh flags fd := by
  unfold openCreate at ho
  simp only [Bind.bind, Except.bind] at ho
  split at ho
  · cases ho
  cases hr : h.resolve (!hasFlag flags O_NOFOLLOW && !hasFlag flags O_EXCL) base n with
  | error e => simp [hr] at ho
  | ok place =>
    simp only [hr] at ho
    split at ho
    · cases ho
    · rename_i d m
      obtain ⟨rfl, rfl, hp, hd⟩ := resolve_entry hn hl hr
      split at ho
      · rename_i k hk
        split at ho
        · cases ho
        rename_i hexcl
        left
        refine ⟨by simpa using hexcl, k, ?_, finishOpen_ok ho⟩
        rw [target_plain hp (isDir_iff.mp hd)]
        exact hk
      · rename_i hfree
        right
        split at ho
        · cases ho
        cases hc : h.create d m fresh (.file []) mode with
        | error e => simp [hc] at ho
        | ok h₁ =>
          simp only [hc, Except.ok.injEq] at ho
          have hmade := create_ok freshBody_file hc hp hd hfree
          exact ⟨h₁, hmade, (congrArg Prod.snd ho).symm, (congrArg Prod.fst ho).symm⟩

theorem openat_ok (hn : Slashless n) (hl : h.NoLink (!hasFlag flags O_NOFOLLOW) base n)
    (ht : hasFlag flags O_PATH = true ∨ hasFlag flags O_TMPFILE = false)
    (ho : h.openat base n flags mode fresh = .ok (fd, h')) :
    (∃ k, target h.graph base n = some k ∧ OpenedFile h h' k flags fd) ∨
    (hasFlag flags O_PATH = false ∧ hasFlag flags O_CREAT = true ∧
      MadeOpen h h' base n fresh flags fd) := by
  unfold openat at ho
  split at ho
  · left
    obtain ⟨k, hk, rfl, rfl⟩ := openPath_ok hn hl ho
    exact ⟨k, hk, openedFile_openFd (touched_note (by decide)) ⟨rfl, rfl⟩ (by simp [note])⟩
  rename_i hpath
  split at ho
  · rename_i htmp
    rcases ht with ht | ht
    · exact absurd ht hpath
    · simp [ht] at htmp
  split at ho
  · rename_i hcreat
    have hl' : h.NoLink (!hasFlag flags O_NOFOLLOW && !hasFlag flags O_EXCL) base n := by
      rcases hl with hf | hk
      · exact Or.inl (by rw [hf, Bool.false_and])
      · exact Or.inr hk
    rcases openCreate_ok hn hl' ho with ⟨-, hk⟩ | hmade
    · exact Or.inl hk
    · exact Or.inr ⟨by simpa using hpath, hcreat, hmade⟩
  · left
    obtain ⟨k, hk, ho⟩ := except_bind_ok ho
    exact ⟨k, lookupPath_ok hn hl hk, finishOpen_ok ho⟩

/-- The `openat` of `create`: with `O_EXCL` only a new file is opened, unless `O_PATH`
masks both flags. -/
theorem openat_excl_ok (hn : Slashless n) (hcreat : hasFlag flags O_CREAT = true)
    (hexcl : hasFlag flags O_EXCL = true)
    (hl : hasFlag flags O_PATH = true → h.NoLink (!hasFlag flags O_NOFOLLOW) base n)
    (ho : h.openat base n flags mode fresh = .ok (fd, h')) :
    (∃ k, target h.graph base n = some k ∧ OpenedFile h h' k flags fd) ∨
    (hasFlag flags O_PATH = false ∧ MadeOpen h h' base n fresh flags fd) := by
  unfold openat at ho
  split at ho
  · rename_i hpath
    left
    obtain ⟨k, hk, rfl, rfl⟩ := openPath_ok hn (hl hpath) ho
    exact ⟨k, hk, openedFile_openFd (touched_note (by decide)) ⟨rfl, rfl⟩ (by simp [note])⟩
  rename_i hpath
  split at ho
  · unfold openTmpfile at ho
    simp only [hcreat, true_or, if_true] at ho
    cases ho
  have hl' : h.NoLink (!hasFlag flags O_NOFOLLOW && !hasFlag flags O_EXCL) base n :=
    Or.inl (by rw [hexcl, Bool.not_true, Bool.and_false])
  rcases openCreate_ok hn hl' ho with ⟨hex, -⟩ | hmade
  · simp [hex] at hexcl
  · exact Or.inr ⟨by simpa using hpath, hmade⟩


end Riftlessfs.Core.Host
