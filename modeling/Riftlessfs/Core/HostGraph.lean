import Riftlessfs.Core.Syscalls
import Riftlessfs.Lib.DirGraphMove

/-! The directory graph of a host, and how the primitive changes of the host act on it. -/
namespace Riftlessfs.Core
open Lib

def Body.entries : Body → Name → Option FileKey
  | .dir _ es _, n => es.lookup n
  | _, _ => none

def Body.up : Body → Option FileKey
  | .dir up _ _ => some up
  | _ => none

def Body.dead : Body → Bool
  | .dir _ _ dead => dead
  | _ => false

namespace Host

variable {h h' : Host} {d k x : FileKey} {n : Name} {v : Node}

def graph (h : Host) : DirGraph FileKey Name := ⟨h.entry, h.dirParent, h.isDead⟩

@[simp] theorem graph_entry : h.graph.entry = h.entry := rfl
@[simp] theorem graph_up : h.graph.up = h.dirParent := rfl
@[simp] theorem graph_dead : h.graph.dead = h.isDead := rfl

theorem isDir_iff : h.isDir k = true ↔ h.graph.IsDir k := Iff.rfl

theorem entry_eq (hv : h.node x = some v) : h.entry x n = v.body.entries n := by
  obtain ⟨body, info⟩ := v
  unfold entry
  rw [hv]
  cases body <;> rfl

theorem dirParent_eq (hv : h.node x = some v) : h.dirParent x = v.body.up := by
  obtain ⟨body, info⟩ := v
  unfold dirParent
  rw [hv]
  cases body <;> rfl

theorem isDead_eq (hv : h.node x = some v) : h.isDead x = v.body.dead := by
  obtain ⟨body, info⟩ := v
  unfold isDead
  rw [hv]
  cases body <;> rfl

theorem node_of_dirParent {up : FileKey} (hd : h.dirParent x = some up) :
    ∃ es dead info, h.node x = some ⟨.dir up es dead, info⟩ := by
  unfold dirParent at hd
  split at hd
  · rename_i es dead info hv
    cases hd
    exact ⟨es, dead, info, hv⟩
  · cases hd

theorem node_setNode (v : Node) (x : FileKey) :
    (h.setNode k v).node x = if x = k then some v else h.node x := by
  unfold node setNode
  by_cases hx : x = k
  · subst hx
    simp
  · simp [hx, AList.lookup_insert_ne hx]

/-- The graph reads a host through the bodies of its nodes only. -/
theorem graph_congr (hn : ∀ x, (h'.node x).map Node.body = (h.node x).map Node.body) :
    h'.graph = h.graph := by
  have hx : ∀ x, (h'.entry x = h.entry x ∧ h'.dirParent x = h.dirParent x) ∧
      h'.isDead x = h.isDead x := by
    intro x
    have hb := hn x
    cases hv : h.node x with
    | none =>
      rw [hv, Option.map_none, Option.map_eq_none_iff] at hb
      unfold entry dirParent isDead
      simp [hv, hb]
    | some v =>
      rw [hv, Option.map_some, Option.map_eq_some_iff] at hb
      obtain ⟨v', hv', hbody⟩ := hb
      refine ⟨⟨funext fun n => ?_, ?_⟩, ?_⟩
      · rw [entry_eq hv, entry_eq hv', hbody]
      · rw [dirParent_eq hv, dirParent_eq hv', hbody]
      · rw [isDead_eq hv, isDead_eq hv', hbody]
  unfold graph
  rw [DirGraph.mk.injEq]
  exact ⟨funext fun x => (hx x).1.1, funext fun x => (hx x).1.2, funext fun x => (hx x).2⟩

theorem graph_setNode (g : DirGraph FileKey Name)
    (hk : (∀ n, v.body.entries n = g.entry k n) ∧ v.body.up = g.up k ∧ v.body.dead = g.dead k)
    (hx : ∀ x, x ≠ k → (∀ n, h.entry x n = g.entry x n) ∧ h.dirParent x = g.up x ∧
      h.isDead x = g.dead x) : (h.setNode k v).graph = g := by
  have key : ∀ x, ((∀ n, (h.setNode k v).entry x n = g.entry x n) ∧
      (h.setNode k v).dirParent x = g.up x) ∧ (h.setNode k v).isDead x = g.dead x := by
    intro x
    by_cases hxk : x = k
    · subst hxk
      have hv : (h.setNode x v).node x = some v := by rw [node_setNode, if_pos rfl]
      refine ⟨⟨fun n => ?_, ?_⟩, ?_⟩
      · rw [entry_eq hv, hk.1 n]
      · rw [dirParent_eq hv, hk.2.1]
      · rw [isDead_eq hv, hk.2.2]
    · have hv : (h.setNode k v).node x = h.node x := by rw [node_setNode, if_neg hxk]
      obtain ⟨he, hu, hd⟩ := hx x hxk
      refine ⟨⟨fun n => ?_, ?_⟩, ?_⟩
      · rw [← he n]
        unfold entry
        rw [hv]
      · rw [← hu]
        unfold dirParent
        rw [hv]
      · rw [← hd]
        unfold isDead
        rw [hv]
  cases g with
  | mk entry up dead =>
    unfold graph
    rw [DirGraph.mk.injEq]
    exact ⟨funext fun x => funext (key x).1.1, funext fun x => (key x).1.2,
      funext fun x => (key x).2⟩

@[simp] theorem graph_note (kind : EventKind) : (h.note kind k).graph = h.graph := rfl

@[simp] theorem graph_openFd (flags : UInt32) : (h.openFd k flags).2.graph = h.graph := rfl

@[simp] theorem graph_closeFd (fd : Fd) : (h.closeFd fd).graph = h.graph := rfl

@[simp] theorem graph_mapInfo (f : Meta → Meta) : (h.mapInfo k f).graph = h.graph := by
  refine graph_congr fun x => ?_
  unfold mapInfo
  cases hv : h.node k with
  | none => rfl
  | some v =>
    simp only [node_setNode]
    split_ifs with hx
    · rw [hx, hv]
      rfl
    · rfl

@[simp] theorem graph_setData (data : List UInt8) : (h.setData k data).graph = h.graph := by
  unfold setData
  split
  · rename_i old info hv
    refine graph_setNode h.graph ⟨fun n => ?_, ?_, ?_⟩ fun x _ => ⟨fun _ => rfl, rfl, rfl⟩
    · rw [graph_entry, entry_eq hv]
      rfl
    · rw [graph_up, dirParent_eq hv]
      rfl
    · rw [graph_dead, isDead_eq hv]
      rfl
  · rfl

theorem graph_bind (hd : h.isDir d = true) : (h.bind d n k).graph = h.graph.bind d n k := by
  obtain ⟨up, hup⟩ := Option.isSome_iff_exists.mp hd
  obtain ⟨es, dead, info, hv⟩ := node_of_dirParent hup
  unfold bind mapEntries
  rw [hv]
  refine graph_setNode _ ⟨fun m => ?_, ?_, ?_⟩ fun x hx => ⟨fun m => ?_, rfl, rfl⟩
  · rw [DirGraph.bind_entry, graph_entry, entry_eq hv]
    show (es.insert n k).lookup m = _
    by_cases hm : m = n
    · subst hm
      simp
    · simp [hm, Body.entries]
  · exact (dirParent_eq hv).symm
  · exact (isDead_eq hv).symm
  · rw [DirGraph.bind_entry, if_neg (fun hc => hx hc.1), graph_entry]

theorem graph_unbind : (h.unbind d n).graph = h.graph.unbind d n := by
  unfold unbind mapEntries
  cases hup : h.dirParent d with
  | some up =>
    obtain ⟨es, dead, info, hv⟩ := node_of_dirParent hup
    rw [hv]
    refine graph_setNode _ ⟨fun m => ?_, ?_, ?_⟩ fun x hx => ⟨fun m => ?_, rfl, rfl⟩
    · show (es.erase n).lookup m = if d = d ∧ m = n then none else h.entry d m
      rw [entry_eq hv]
      by_cases hm : m = n
      · subst hm
        simp
      · simp [hm, Body.entries, AList.lookup_erase_ne hm]
    · exact (dirParent_eq hv).symm
    · exact (isDead_eq hv).symm
    · show h.entry x m = if x = d ∧ m = n then none else h.entry x m
      rw [if_neg (fun hc => hx hc.1)]
  | none =>
    have hnone : ∀ m, h.entry d m = none := by
      intro m
      unfold dirParent at hup
      unfold entry
      split <;> simp_all
    have hsame : h.graph = h.graph.unbind d n := by
      unfold graph DirGraph.unbind
      rw [DirGraph.mk.injEq]
      refine ⟨funext fun x => funext fun m => ?_, rfl, rfl⟩
      split_ifs with hc
      · rw [hc.1, hnone]
      · rfl
    split
    · rename_i hv
      simp [dirParent, hv] at hup
    · exact hsame

theorem graph_reparent (up : FileKey) : (h.reparent k up).graph = h.graph.reparent k up := by
  unfold reparent DirGraph.reparent
  cases hup : h.dirParent k with
  | some old =>
    obtain ⟨es, dead, info, hv⟩ := node_of_dirParent hup
    rw [hv]
    refine graph_setNode _ ⟨fun m => ?_, ?_, ?_⟩ fun x hx => ⟨fun m => rfl, ?_, rfl⟩
    · exact (entry_eq hv).symm
    · simp [hup, Body.up]
    · exact (isDead_eq hv).symm
    · simp [hx]
  | none =>
    split
    · rename_i hv
      simp [dirParent, hv] at hup
    · simp only [graph_up, hup, Option.isSome_none, Bool.false_eq_true, and_false, if_false]
      rfl

theorem graph_markDead : (h.markDead k).graph = h.graph.kill k := by
  unfold markDead DirGraph.kill
  cases hup : h.dirParent k with
  | some old =>
    obtain ⟨es, dead, info, hv⟩ := node_of_dirParent hup
    rw [hv]
    refine graph_setNode _ ⟨fun m => ?_, ?_, ?_⟩ fun x hx => ⟨fun m => rfl, rfl, ?_⟩
    · exact (entry_eq hv).symm
    · exact (dirParent_eq hv).symm
    · simp [hup, Body.dead]
    · simp [hx]
  | none =>
    split
    · rename_i hv
      simp [dirParent, hv] at hup
    · simp only [graph_up, hup, Option.isSome_none, Bool.false_eq_true, and_false, if_false]
      rfl

theorem graph_below (m : FileKey) (fuel : ℕ) (d : FileKey) :
    h.graph.below m fuel d = h.isBelow m fuel d := by
  induction fuel generalizing d with
  | zero => rfl
  | succ fuel ih =>
    unfold DirGraph.below isBelow
    split_ifs with hd
    · rfl
    · rw [graph_up]
      cases h.dirParent d with
      | none => rfl
      | some up => simp only [ih]

theorem leaf_of_isEmptyDir (he : h.isEmptyDir k = true) : h.graph.Leaf k := by
  intro n
  unfold isEmptyDir at he
  split at he
  · rename_i up es dead info hv
    rw [graph_entry, entry_eq hv]
    show es.lookup n = none
    rw [AList.lookup_eq_none]
    intro hmem
    rw [List.isEmpty_iff] at he
    simp [AList.mem_keys, AList.keys, he] at hmem
  · cases he

/-- A key that is not in use is neither open, nor the top, nor named. -/
theorem not_inUse (hk : h.inUse k = false) :
    k ≠ h.top ∧ (∀ fd ∈ h.fds, fd.file ≠ k) ∧ ∀ d n, h.entry d n ≠ some k := by
  unfold inUse at hk
  simp only [Bool.or_eq_false_iff, decide_eq_false_iff_not, not_not, List.any_eq_false,
    decide_eq_true_eq] at hk
  obtain ⟨⟨htop, hcount⟩, hfds⟩ := hk
  refine ⟨htop, hfds, fun d n he => ?_⟩
  unfold entry at he
  split at he
  · rename_i up es dead info hv
    have hmem : (⟨d, ⟨.dir up es dead, info⟩⟩ : Sigma fun _ : FileKey => Node) ∈ h.nodes.entries :=
      AList.mem_lookup_iff.mp hv
    have hentry : (⟨n, k⟩ : Sigma fun _ : Name => FileKey) ∈ es.entries :=
      AList.mem_lookup_iff.mp he
    have hzero := List.sum_eq_zero_iff.mp hcount _ (List.mem_map.mpr ⟨_, hmem, rfl⟩)
    have hnone := List.countP_eq_zero.mp hzero _ hentry
    simp at hnone
  · cases he

/-- A file with links has a name. -/
theorem exists_entry_of_linkCount (hk : h.linkCount k ≠ 0) : ∃ d n, h.entry d n = some k := by
  have hsum : ¬∀ c ∈ h.nodes.entries.map fun s => match s.2.body with
      | .dir _ es _ => es.entries.countP fun e => decide (e.2 = k)
      | _ => 0, c = 0 := fun hall => hk (List.sum_eq_zero hall)
  push Not at hsum
  obtain ⟨c, hc, hne⟩ := hsum
  obtain ⟨⟨d, v⟩, hmem, rfl⟩ := List.mem_map.mp hc
  have hnode : h.node d = some v := AList.mem_lookup_iff.mpr hmem
  obtain ⟨body, info⟩ := v
  cases body with
  | dir up es dead =>
    have hcount : 0 < es.entries.countP fun e => decide (e.2 = k) := Nat.pos_of_ne_zero hne
    obtain ⟨⟨n, x⟩, hentry, hx⟩ := List.countP_pos_iff.mp hcount
    refine ⟨d, n, ?_⟩
    unfold entry
    rw [hnode, ← of_decide_eq_true hx]
    exact AList.mem_lookup_iff.mpr hentry
  | file data => exact absurd rfl hne
  | symlink t => exact absurd rfl hne
  | other => exact absurd rfl hne

/-- Whether the tree is well formed: a directory is named once, by its parent, and a dead
directory is empty. -/
def wellFormed (h : Host) : Bool :=
  h.nodes.entries.all fun s => match s.2.body with
    | .dir _ es dead =>
      (!dead || es.entries.isEmpty) &&
      es.entries.all fun e => !h.isDir e.2 ||
        decide (h.dirParent e.2 = some s.1) &&
          es.entries.all fun f => !decide (f.2 = e.2) || decide (f.1 = e.1)
    | _ => true

theorem entry_cases {y : FileKey} (he : h.entry x n = some y) : ∃ up es dead info,
    h.node x = some ⟨.dir up es dead, info⟩ ∧ (⟨n, y⟩ : Sigma fun _ : Name => FileKey) ∈ es.entries := by
  unfold entry at he
  split at he
  · rename_i up es dead info hv
    exact ⟨up, es, dead, info, hv, AList.mem_lookup_iff.mp he⟩
  · cases he

theorem graph_wf (hw : h.wellFormed = true) : h.graph.WF := by
  unfold wellFormed at hw
  rw [List.all_eq_true] at hw
  have hdir : ∀ {x up es dead info}, h.node x = some ⟨.dir up es dead, info⟩ →
      (dead = true → es.entries = []) ∧ ∀ e ∈ es.entries, h.isDir e.2 = true →
        h.dirParent e.2 = some x ∧ ∀ f ∈ es.entries, f.2 = e.2 → f.1 = e.1 := by
    intro x up es dead info hv
    have hmem : (⟨x, ⟨.dir up es dead, info⟩⟩ : Sigma fun _ : FileKey => Node) ∈ h.nodes.entries :=
      AList.mem_lookup_iff.mp hv
    have hx := hw _ hmem
    simp only [Bool.and_eq_true, Bool.or_eq_true, Bool.not_eq_true', List.all_eq_true,
      decide_eq_true_eq, decide_eq_false_iff_not, List.isEmpty_iff] at hx
    refine ⟨fun hdead => hx.1.resolve_left (by simp [hdead]), fun e he hd => ?_⟩
    obtain ⟨hup, hone⟩ := (hx.2 e he).resolve_left (by simp [hd])
    exact ⟨hup, fun f hf heq => (hone f hf).resolve_left (by simp [heq])⟩
  refine ⟨fun he hp => ?_, fun he he' hy => ?_, fun hdead n => ?_, fun he => ?_⟩
  · obtain ⟨up, es, dead, info, hv, hmem⟩ := entry_cases he
    have hp' : h.dirParent _ = some _ := hp
    have hup := ((hdir hv).2 _ hmem (by simp [isDir, hp'])).1
    rw [hp'] at hup
    exact Option.some.inj hup
  · obtain ⟨up, es, dead, info, hv, hmem⟩ := entry_cases he
    obtain ⟨up', es', dead', info', hv', hmem'⟩ := entry_cases he'
    rw [hv] at hv'
    cases hv'
    exact ((hdir hv).2 _ hmem' hy).2 _ hmem rfl
  · have hd : h.isDead _ = true := hdead
    unfold isDead at hd
    split at hd
    · rename_i up es dead info hv
      rw [graph_entry, entry_eq hv]
      show es.lookup n = none
      rw [AList.lookup_eq_none, AList.mem_keys, AList.keys, (hdir hv).1 hd]
      simp
    · cases hd
  · obtain ⟨up, es, dead, info, hv, hmem⟩ := entry_cases he
    show (h.dirParent _).isSome
    simp [dirParent, hv]

end Host

end Riftlessfs.Core
