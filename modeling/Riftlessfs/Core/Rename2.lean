import Riftlessfs.Core.HostGraph
import Riftlessfs.Core.InodeInvariant
import Riftlessfs.Lib.Effect

/-! `renameat2`, and when a plain `renameat` does what it asks for. -/
namespace Riftlessfs.Core
open Lib.Effect

def RENAME_NOREPLACE : UInt32 := 1
def RENAME_EXCHANGE : UInt32 := 2
def RENAME_WHITEOUT : UInt32 := 4

namespace Host

/-- The file a path names, not following a final link. -/
def named (h : Host) (base : FileKey) (path : Name) : Option FileKey :=
  match h.resolve false base path with
  | .ok place => h.fileAt place
  | .error _ => none

def exchangeEntries (h : Host) (d : FileKey) (n : Name) (m : FileKey) (d' : FileKey) (n' : Name)
    (t : FileKey) : Host :=
  ((((h.bind d n t).bind d' n' m).reparent m d').reparent t d).note .renamed m

/-- `renameat2` with `RENAME_EXCHANGE`. -/
def renameExchange (h : Host) (base : FileKey) (path : Name) (base' : FileKey) (path' : Name) :
    Except Errno (Unit × Host) := do
  match ← h.resolve false base path, ← h.resolve false base' path' with
  | .entry d n, .entry d' n' =>
    match h.entry d n, h.entry d' n' with
    | some m, some t =>
      if d.dev ≠ d'.dev then .error EXDEV
      else if (mustDir path ∧ ¬ h.isDir m) ∨ (mustDir path' ∧ ¬ h.isDir t) then .error ENOTDIR
      else if t = m then .ok ((), h)
      else if (h.isDir m ∧ h.isBelow m h.nodes.entries.length d') ∨
          (h.isDir t ∧ h.isBelow t h.nodes.entries.length d) then .error EINVAL
      else .ok ((), h.exchangeEntries d n m d' n' t)
    | _, _ => .error ENOENT
  | _, _ => .error EBUSY

/-- `renameat2` with `RENAME_WHITEOUT`: a whiteout takes the place of a file that moved. -/
def renameWhiteout (h : Host) (base : FileKey) (path : Name) (base' : FileKey) (path' : Name)
    (fresh : FileKey) : Except Errno (Unit × Host) := do
  match ← h.resolve false base path, ← h.resolve false base' path' with
  | .entry d n, .entry d' n' => do
    let (_, h₁) ← h.renameat base path base' path'
    if h.entry d' n' = h.entry d n then .ok ((), h₁)
    else do
      let h₂ ← h₁.create d n fresh .other 0
      .ok ((), h₂)
  | _, _ => .error EBUSY

/-- `renameat2`. A whiteout gets the key `fresh`. -/
def renameat2 (h : Host) (base : FileKey) (path : Name) (base' : FileKey) (path' : Name)
    (flags : UInt32) (fresh : FileKey) : Except Errno (Unit × Host) :=
  if flags = 0 then h.renameat base path base' path'
  else if flags = RENAME_EXCHANGE then h.renameExchange base path base' path'
  else if flags = RENAME_WHITEOUT then h.renameWhiteout base path base' path' fresh
  else if flags = RENAME_NOREPLACE ∨ flags = RENAME_NOREPLACE ||| RENAME_WHITEOUT then
    if (h.named base' path').isSome then .error EEXIST
    else if flags = RENAME_NOREPLACE then h.renameat base path base' path'
    else h.renameWhiteout base path base' path' fresh
  else .error EINVAL

/-- Both hosts hold the same files, with the same contents and entries. -/
def SameTree (h h' : Host) : Prop := ∀ k, h.node k = h'.node k

section Entries
variable {h h' : Host} {d x k : FileKey} {n l : Name}

theorem SameTree.entry (hs : SameTree h h') (d : FileKey) (n : Name) : h.entry d n = h'.entry d n := by
  unfold Host.entry
  rw [hs d]

theorem SameTree.isDir (hs : SameTree h h') (d : FileKey) : h.isDir d = h'.isDir d := by
  unfold Host.isDir dirParent
  rw [hs d]

theorem entry_bind_self (hd : h.isDir d = true) : (h.bind d n k).entry d n = some k := by
  have hg := graph_bind (n := n) (k := k) hd
  have he := congrFun (congrFun (congrArg Lib.DirGraph.entry hg) d) n
  rw [graph_entry] at he
  rw [he]
  simp [Lib.DirGraph.bind]

theorem entry_bind_ne (hne : ¬(x = d ∧ l = n)) : (h.bind d n k).entry x l = h.entry x l := by
  unfold bind mapEntries
  split
  · next up es dead info hv =>
    by_cases hx : x = d
    · subst hx
      have hl : l ≠ n := fun heq => hne ⟨rfl, heq⟩
      unfold entry
      rw [node_setNode, if_pos rfl, hv]
      exact AList.lookup_insert_ne hl
    · unfold entry
      rw [node_setNode, if_neg hx]
  · rfl

private theorem entry_unbind_self : (h.unbind d n).entry d n = none := by
  have he := congrFun (congrFun (congrArg Lib.DirGraph.entry (graph_unbind (h := h) (d := d)
    (n := n))) d) n
  rw [graph_entry] at he
  rw [he]
  simp [Lib.DirGraph.unbind]

theorem entry_reparent (up : FileKey) : (h.reparent k up).entry x l = h.entry x l := by
  have he := congrFun (congrFun (congrArg Lib.DirGraph.entry (graph_reparent (h := h) (k := k)
    up)) x) l
  rw [graph_entry] at he
  rw [he]
  rfl

private theorem entry_markDead : (h.markDead k).entry x l = h.entry x l := by
  have he := congrFun (congrFun (congrArg Lib.DirGraph.entry (graph_markDead (h := h) (k := k)))
    x) l
  rw [graph_entry] at he
  rw [he]
  rfl

theorem isDir_mapEntries (f : (AList fun _ : Name => FileKey) → AList fun _ : Name => FileKey) :
    (h.mapEntries d f).isDir x = h.isDir x := by
  unfold mapEntries
  split
  · next up es dead info hv =>
    unfold isDir dirParent
    by_cases hx : x = d
    · subst hx
      rw [node_setNode, if_pos rfl, hv]
    · rw [node_setNode, if_neg hx]
  · rfl

private theorem isDir_reparent (up : FileKey) : (h.reparent k up).isDir x = h.isDir x := by
  unfold reparent
  split
  · next up' es dead info hv =>
    unfold isDir dirParent
    by_cases hx : x = k
    · subst hx
      rw [node_setNode, if_pos rfl, hv]
      rfl
    · rw [node_setNode, if_neg hx]
  · rfl

private theorem isDir_markDead : (h.markDead k).isDir x = h.isDir x := by
  unfold markDead
  split
  · next up es dead info hv =>
    unfold isDir dirParent
    by_cases hx : x = k
    · subst hx
      rw [node_setNode, if_pos rfl, hv]
    · rw [node_setNode, if_neg hx]
  · rfl

theorem isDir_of_entry (he : h.entry d n = some k) : h.isDir d = true := by
  obtain ⟨up, es, dead, info, hv, -⟩ := entry_cases he
  unfold isDir dirParent
  rw [hv]
  rfl

end Entries

section Cases
variable {h h₁ h₂ : Host} {base base' fresh : FileKey} {path path' : Name}

/-- How a `renameat` that succeeds ends. -/
structure Moves (h h₁ : Host) (base : FileKey) (path : Name) (base' : FileKey) (path' : Name)
    (d : FileKey) (n : Name) (d' : FileKey) (n' : Name) (m : FileKey) : Prop where
  source : h.resolve false base path = .ok (.entry d n)
  target : h.resolve false base' path' = .ok (.entry d' n')
  found : h.entry d n = some m
  device : d.dev = d'.dev
  slashes : ¬((mustDir path ∨ mustDir path') ∧ ¬ h.isDir m)
  ends : (h.entry d' n' = some m ∧ h₁ = h) ∨
    (h.entry d' n' ≠ some m ∧ h₁.entry d n = none ∧ h₁.isDir d = true)

/-- An entry that moves leaves its place. -/
theorem moveEntry_source {d d' m : FileKey} {n n' : Name} (hm : h.entry d n = some m)
    (hne : h.entry d' n' ≠ some m) : (h.moveEntry d n d' n' m).entry d n = none ∧
      (h.moveEntry d n d' n' m).isDir d = true := by
  have hplace : ¬(d = d' ∧ n = n') := by
    rintro ⟨rfl, rfl⟩
    exact hne hm
  constructor
  · show (((h.unbind d n).bind d' n' m).reparent m d').entry d n = none
    rw [entry_reparent, entry_bind_ne hplace, entry_unbind_self]
  · show (((h.unbind d n).bind d' n' m).reparent m d').isDir d = true
    rw [isDir_reparent, bind, isDir_mapEntries, unbind, isDir_mapEntries]
    exact isDir_of_entry hm

theorem renameat_moves (hr : h.renameat base path base' path' = .ok ((), h₁)) :
    ∃ d n d' n' m, Moves h h₁ base path base' path' d n d' n' m := by
  unfold renameat at hr
  obtain ⟨place, hp, hr₁⟩ := except_bind_ok hr
  obtain ⟨place', hp', hok⟩ := except_bind_ok hr₁
  split at hok
  · rename_i d n d' n'
    split at hok
    · cases hok
    · rename_i m hm
      split at hok
      · cases hok
      rename_i hdev
      split at hok
      · cases hok
      rename_i hslash
      split at hok
      · cases hok
      refine ⟨d, n, d', n', m, hp, hp', hm, not_not.mp hdev, hslash, ?_⟩
      split at hok
      · rename_i hfree
        split at hok
        · cases hok
        cases hok
        have hne : h.entry d' n' ≠ some m := by rw [hfree]; exact nofun
        exact Or.inr ⟨hne, moveEntry_source hm hne⟩
      · rename_i t ht
        split at hok
        · rename_i htm
          cases hok
          exact Or.inl ⟨htm ▸ ht, rfl⟩
        · rename_i htm
          obtain ⟨_, -, hok₁⟩ := except_bind_ok hok
          cases hok₁
          have hne : h.entry d' n' ≠ some m := by
            rw [ht]
            exact fun heq => htm (Option.some.inj heq)
          obtain ⟨hgone, hdir⟩ := moveEntry_source hm hne
          refine Or.inr ⟨hne, ?_, ?_⟩
          · show ((h.moveEntry d n d' n' m).markDead t).entry d n = none
            rw [entry_markDead]
            exact hgone
          · show ((h.moveEntry d n d' n' m).markDead t).isDir d = true
            rw [isDir_markDead]
            exact hdir
  · cases hok

variable {d d' m : FileKey} {n n' : Name}

theorem Moves.named_source (hm : Moves h h₁ base path base' path' d n d' n' m) :
    h.named base path = some m := by
  unfold named
  rw [hm.source]
  exact hm.found

theorem Moves.named_target (hm : Moves h h₁ base path base' path' d n d' n' m) :
    h.named base' path' = h.entry d' n' := by
  unfold named
  rw [hm.target]
  rfl

/-- Exchanging a file with itself changes nothing. -/
theorem Moves.exchange_same (hm : Moves h h₁ base path base' path' d n d' n' m)
    (ht : h.entry d' n' = some m) : h.renameExchange base path base' path' = .ok ((), h) := by
  have hslash : ¬((mustDir path ∧ ¬ h.isDir m) ∨ (mustDir path' ∧ ¬ h.isDir m)) := by
    have := hm.slashes
    tauto
  unfold renameExchange
  rw [hm.source, hm.target]
  show (match h.entry d n, h.entry d' n' with
    | some m, some t => _
    | _, _ => _) = _
  rw [hm.found, ht]
  dsimp only
  rw [if_neg (not_not.mpr hm.device), if_neg hslash, if_pos rfl]

/-- After an exchange of two files the source names the other one. -/
theorem Moves.exchange_entry (hm : Moves h h₁ base path base' path' d n d' n' m)
    (hne : h.entry d' n' ≠ some m) (hx : h.renameExchange base path base' path' = .ok ((), h₂)) :
    h₂.entry d n ≠ none := by
  have hplace : ¬(d = d' ∧ n = n') := by
    rintro ⟨rfl, rfl⟩
    exact hne hm.found
  unfold renameExchange at hx
  rw [hm.source, hm.target] at hx
  change (match h.entry d n, h.entry d' n' with
    | some m, some t => _
    | _, _ => _) = _ at hx
  rw [hm.found] at hx
  cases ht : h.entry d' n' with
  | none =>
    rw [ht] at hx
    cases hx
  | some t =>
    rw [ht] at hx
    dsimp only at hx
    split_ifs at hx with _ _ hsame
    · rw [ht, hsame] at hne
      exact absurd rfl hne
    · cases hx
      show ((((h.bind d n t).bind d' n' m).reparent m d').reparent t d).entry d n ≠ none
      rw [entry_reparent, entry_reparent, entry_bind_ne hplace,
        entry_bind_self (isDir_of_entry hm.found)]
      exact nofun

theorem Moves.whiteout_same (hm : Moves h h₁ base path base' path' d n d' n' m)
    (hr : h.renameat base path base' path' = .ok ((), h₁)) (ht : h.entry d' n' = some m) :
    h.renameWhiteout base path base' path' fresh = .ok ((), h₁) := by
  unfold renameWhiteout
  rw [hm.source, hm.target]
  show (do
    let (_, h₁) ← h.renameat base path base' path'
    if h.entry d' n' = h.entry d n then .ok ((), h₁)
    else do
      let h₂ ← h₁.create d n fresh .other 0
      .ok ((), h₂) : Except Errno (Unit × Host)) = _
  rw [hr]
  show (if h.entry d' n' = h.entry d n then _ else _) = _
  rw [if_pos (ht.trans hm.found.symm)]

/-- A whiteout is not what a plain rename leaves. -/
theorem Moves.whiteout_differs (hm : Moves h h₁ base path base' path' d n d' n' m)
    (hr : h.renameat base path base' path' = .ok ((), h₁)) (hne : h.entry d' n' ≠ some m)
    (hx : h.renameWhiteout base path base' path' fresh = .ok ((), h₂)) : ¬ SameTree h₂ h₁ := by
  obtain ⟨-, hgone, hdir⟩ := hm.ends.resolve_left fun h => hne h.1
  unfold renameWhiteout at hx
  rw [hm.source, hm.target] at hx
  change (do
    let (_, h₁) ← h.renameat base path base' path'
    if h.entry d' n' = h.entry d n then .ok ((), h₁)
    else do
      let h₂ ← h₁.create d n fresh .other 0
      .ok ((), h₂) : Except Errno (Unit × Host)) = _ at hx
  rw [hr] at hx
  change (if h.entry d' n' = h.entry d n then _ else _) = _ at hx
  rw [if_neg (by rw [hm.found]; exact hne)] at hx
  obtain ⟨h₃, hcreate, hend⟩ := except_bind_ok hx
  cases hend
  unfold create at hcreate
  split at hcreate
  · cases hcreate
  obtain ⟨h₄, halloc, hbind⟩ := except_bind_ok hcreate
  unfold allocate at halloc
  split_ifs at halloc
  cases halloc
  cases hbind
  intro hsame
  by_cases hfresh : fresh = d
  · have hlost := hsame.isDir d
    rw [bind, isDir_mapEntries, hdir] at hlost
    revert hlost
    subst hfresh
    simp [isDir, dirParent, note, node, setNode]
  · have hkept : (h₁.setNode fresh ⟨.other, ⟨h₁.newPerm .other 0, 0, 0, 0, (0, 0), (0, 0),
        (0, 0)⟩⟩).isDir d = true := by
      rw [← hdir]
      unfold isDir dirParent
      rw [node_setNode, if_neg (fun heq => hfresh heq.symm)]
    have hthere := hsame.entry d n
    rw [hgone, entry_bind_self] at hthere
    · cases hthere
    · exact hkept

end Cases

end Host

end Riftlessfs.Core
