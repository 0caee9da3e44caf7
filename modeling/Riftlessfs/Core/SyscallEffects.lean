import Riftlessfs.Core.PathResolution

/-! What a syscall on an existing file does when it succeeds: the file it touches, the
events, and the descriptors. Paths are single components. -/
namespace Riftlessfs.Core.Host
open Lib Lib.Effect

variable {h h' h₁ h₂ : Host} {base d k fresh : FileKey} {n : Name} {fd : Fd}
  {flags mode : UInt32}

structure NodesOnly (h h' : Host) : Prop where
  fds : h'.fds = h.fds
  nextFd : h'.nextFd = h.nextFd
  log : h'.log = h.log

/-- The graph becomes `g` and the events `evs` are logged; no descriptor changes. -/
structure Changed (h h' : Host) (g : DirGraph FileKey Name) (evs : List Event) : Prop where
  graph : h'.graph = g
  log : h'.log = h.log ++ evs
  fds : h'.fds = h.fds
  nextFd : h'.nextFd = h.nextFd

/-- Only file `k` is touched: no other node differs, nor does the graph, and every
event is about `k`. None of them is a write through a handle. -/
structure Touched (k : FileKey) (h h' : Host) : Prop where
  graph : h'.graph = h.graph
  nodes : ∀ x, x ≠ k → h'.node x = h.node x
  log : ∃ evs, h'.log = h.log ++ evs ∧ ∀ e ∈ evs, e.key = k ∧ e.kind ≠ .written

structure AddsFd (h h' : Host) (fd : Fd) : Prop where
  num : fd.num = h.nextFd
  fds : h'.fds = fd :: h.fds
  nextFd : h'.nextFd = h.nextFd + 1

structure SameFds (h h' : Host) : Prop where
  fds : h'.fds = h.fds
  nextFd : h'.nextFd = h.nextFd

theorem NodesOnly.refl (h : Host) : NodesOnly h h := ⟨rfl, rfl, rfl⟩

theorem NodesOnly.trans (ha : NodesOnly h h₁) (hb : NodesOnly h₁ h₂) : NodesOnly h h₂ :=
  ⟨hb.fds.trans ha.fds, hb.nextFd.trans ha.nextFd, hb.log.trans ha.log⟩

theorem nodesOnly_setNode (v : Node) : NodesOnly h (h.setNode k v) := ⟨rfl, rfl, rfl⟩

theorem nodesOnly_mapEntries (f : (AList fun _ : Name => FileKey) → AList fun _ : Name => FileKey) :
    NodesOnly h (h.mapEntries d f) := by
  unfold mapEntries
  split
  · exact nodesOnly_setNode _
  · exact NodesOnly.refl h

theorem nodesOnly_reparent (up : FileKey) : NodesOnly h (h.reparent k up) := by
  unfold reparent
  split
  · exact nodesOnly_setNode _
  · exact NodesOnly.refl h

theorem nodesOnly_markDead : NodesOnly h (h.markDead k) := by
  unfold markDead
  split
  · exact nodesOnly_setNode _
  · exact NodesOnly.refl h

theorem nodesOnly_mapInfo (f : Meta → Meta) : NodesOnly h (h.mapInfo k f) := by
  unfold mapInfo
  split
  · exact nodesOnly_setNode _
  · exact NodesOnly.refl h

theorem nodesOnly_setData (data : List UInt8) : NodesOnly h (h.setData k data) := by
  unfold setData
  split
  · exact nodesOnly_setNode _
  · exact NodesOnly.refl h

theorem NodesOnly.changed (hn : NodesOnly h h₁) (kind : EventKind) :
    Changed h (h₁.note kind k) h₁.graph [⟨kind, k⟩] := by
  refine ⟨rfl, ?_, hn.fds, hn.nextFd⟩
  show h₁.log ++ _ = _
  rw [hn.log]

theorem Changed.note {g : DirGraph FileKey Name} {evs : List Event} (hc : Changed h h₁ g evs)
    (kind : EventKind) : Changed h (h₁.note kind k) g (evs ++ [⟨kind, k⟩]) := by
  refine ⟨hc.graph, ?_, hc.fds, hc.nextFd⟩
  show h₁.log ++ _ = _
  rw [hc.log, List.append_assoc]

private theorem node_mapInfo_ne (f : Meta → Meta) {x : FileKey} (hx : x ≠ k) :
    (h.mapInfo k f).node x = h.node x := by
  unfold mapInfo
  split
  · rw [node_setNode, if_neg hx]
  · rfl

theorem node_setData_ne (data : List UInt8) {x : FileKey} (hx : x ≠ k) :
    (h.setData k data).node x = h.node x := by
  unfold setData
  split
  · rw [node_setNode, if_neg hx]
  · rfl

theorem Touched.refl (k : FileKey) (h : Host) : Touched k h h :=
  ⟨rfl, fun _ _ => rfl, [], (List.append_nil _).symm, by simp⟩

theorem Touched.trans (ha : Touched k h h₁) (hb : Touched k h₁ h₂) : Touched k h h₂ := by
  obtain ⟨e₁, hl₁, hk₁⟩ := ha.log
  obtain ⟨e₂, hl₂, hk₂⟩ := hb.log
  refine ⟨hb.graph.trans ha.graph, fun x hx => (hb.nodes x hx).trans (ha.nodes x hx),
    e₁ ++ e₂, ?_, ?_⟩
  · rw [hl₂, hl₁, List.append_assoc]
  · intro e he
    rcases List.mem_append.mp he with he | he
    · exact hk₁ e he
    · exact hk₂ e he

theorem touched_note {kind : EventKind} (hk : kind ≠ .written) : Touched k h (h.note kind k) :=
  ⟨rfl, fun _ _ => rfl, [⟨kind, k⟩], rfl, by simpa using hk⟩

private theorem touched_openFd (x : FileKey) : Touched k h (h.openFd x flags).2 :=
  ⟨rfl, fun _ _ => rfl, [], (List.append_nil _).symm, by simp⟩

theorem touched_closeFd (fd : Fd) : Touched k h (h.closeFd fd) :=
  ⟨rfl, fun _ _ => rfl, [], (List.append_nil _).symm, by simp⟩

theorem touched_mapInfo (f : Meta → Meta) : Touched k h (h.mapInfo k f) :=
  ⟨graph_mapInfo f, fun _ hx => node_mapInfo_ne f hx, [],
    by rw [(nodesOnly_mapInfo f).log, List.append_nil], by simp⟩

theorem touched_setData (data : List UInt8) : Touched k h (h.setData k data) :=
  ⟨graph_setData data, fun _ hx => node_setData_ne data hx, [],
    by rw [(nodesOnly_setData data).log, List.append_nil], by simp⟩

/-- Only nodes in `S` differ. -/
def AltersOnly (S : Set FileKey) (h h' : Host) : Prop := ∀ x, x ∉ S → h'.node x = h.node x

section Alters
variable {S T : Set FileKey}

theorem AltersOnly.refl (S : Set FileKey) (h : Host) : AltersOnly S h h := fun _ _ => rfl

theorem AltersOnly.trans (ha : AltersOnly S h h₁) (hb : AltersOnly T h₁ h₂) :
    AltersOnly (S ∪ T) h h₂ := by
  intro x hx
  have hS := ha x fun h => hx (Or.inl h)
  have hT := hb x fun h => hx (Or.inr h)
  exact hT.trans hS

theorem AltersOnly.mono (ha : AltersOnly S h h') (hST : S ⊆ T) : AltersOnly T h h' :=
  fun x hx => ha x fun h => hx (hST h)

theorem altersOnly_setNode (v : Node) : AltersOnly {k} h (h.setNode k v) := by
  intro x hx
  have hne : x ≠ k := hx
  rw [node_setNode, if_neg hne]

theorem altersOnly_mapEntries
    (f : (AList fun _ : Name => FileKey) → AList fun _ : Name => FileKey) :
    AltersOnly {d} h (h.mapEntries d f) := by
  unfold mapEntries
  split
  · exact altersOnly_setNode _
  · exact AltersOnly.refl _ h

theorem altersOnly_reparent (up : FileKey) : AltersOnly {k} h (h.reparent k up) := by
  unfold reparent
  split
  · exact altersOnly_setNode _
  · exact AltersOnly.refl _ h

theorem altersOnly_markDead : AltersOnly {k} h (h.markDead k) := by
  unfold markDead
  split
  · exact altersOnly_setNode _
  · exact AltersOnly.refl _ h

theorem Touched.alters (ht : Touched k h h') : AltersOnly {k} h h' := ht.nodes

end Alters

theorem fstatat_ok (hn : Slashless n) {st : Stat} (hs : h.fstatat base n = .ok (st, h')) :
    h' = h ∧ ∃ k v, target h.graph base n = some k ∧ h.node k = some v ∧ st = h.statOf k v := by
  unfold fstatat at hs
  obtain ⟨k, hk, hs⟩ := except_bind_ok hs
  have ht := lookupPath_ok hn (Or.inl rfl) hk
  cases hv : h.node k with
  | none => simp [hv] at hs
  | some v =>
    simp only [hv, Except.ok.injEq, Prod.mk.injEq] at hs
    exact ⟨hs.2.symm, k, v, ht, hv, hs.1.symm⟩

theorem fstat_ok {st : Stat} (hs : h.fstat fd = .ok (st, h')) :
    h' = h ∧ ∃ v, h.node fd.file = some v ∧ st = h.statOf fd.file v := by
  unfold fstat at hs
  cases hv : h.node fd.file with
  | none => simp [hv] at hs
  | some v =>
    simp only [hv, Except.ok.injEq, Prod.mk.injEq] at hs
    exact ⟨hs.2.symm, v, rfl, hs.1.symm⟩

/-- The file is opened under a new descriptor; at most its data changes. -/
structure OpenedFile (h h' : Host) (k : FileKey) (flags : UInt32) (fd : Fd) : Prop where
  eq : fd = ⟨h.nextFd, k, flags⟩
  touched : Touched k h h'
  logged : ⟨.opened, k⟩ ∈ h'.log.drop h.log.length
  adds : AddsFd h h' fd

theorem openedFile_openFd {h₁ : Host} (ht : Touched k h h₁) (hs : SameFds h h₁)
    (hl : ⟨.opened, k⟩ ∈ h₁.log.drop h.log.length) :
    OpenedFile h (h₁.openFd k flags).2 k flags (h₁.openFd k flags).1 := by
  refine ⟨?_, ht.trans (touched_openFd k), hl, ?_, ?_, ?_⟩
  · show (⟨h₁.nextFd, k, flags⟩ : Fd) = _
    rw [hs.nextFd]
  · exact hs.nextFd
  · show (h₁.openFd k flags).1 :: h₁.fds = _
    rw [hs.fds]
  · show h₁.nextFd + 1 = _
    rw [hs.nextFd]

theorem openPath_ok (hn : Slashless n) (hl : h.NoLink (!hasFlag flags O_NOFOLLOW) base n)
    {kind : EventKind} (ho : h.openPath base n flags kind = .ok (fd, h')) :
    ∃ k, target h.graph base n = some k ∧ fd = ⟨h.nextFd, k, flags⟩ ∧
      h' = ((h.note kind k).openFd k flags).2 := by
  unfold openPath at ho
  obtain ⟨k, hk, ho⟩ := except_bind_ok ho
  have ht := lookupPath_ok hn hl hk
  refine ⟨k, ht, ?_⟩
  simp only [Bind.bind, Except.bind] at ho
  split_ifs at ho
  simp only [Except.ok.injEq] at ho
  have h₁ := Prod.ext_iff.mp ho
  exact ⟨h₁.1.symm, h₁.2.symm⟩

theorem finishOpen_ok (ho : h.finishOpen k flags = .ok (fd, h')) :
    OpenedFile h h' k flags fd := by
  have hopen : SameFds h (h.note .opened k) := ⟨rfl, rfl⟩
  have hlog : ⟨.opened, k⟩ ∈ (h.note .opened k).log.drop h.log.length := by simp [note]
  unfold finishOpen at ho
  split at ho
  · cases ho
  · cases ho
  · split_ifs at ho
    cases ho
    exact openedFile_openFd (touched_note (by decide)) hopen hlog
  · split_ifs at ho
    · cases ho
      have hdata : NodesOnly h (h.setData k []) := nodesOnly_setData []
      exact openedFile_openFd
        (((touched_setData []).trans (touched_note (by decide))).trans (touched_note (by decide)))
        ⟨hdata.fds, hdata.nextFd⟩ (by simp [note, hdata.log])
    · cases ho
      exact openedFile_openFd (touched_note (by decide)) hopen hlog
  · split_ifs at ho
    cases ho
    exact openedFile_openFd (touched_note (by decide)) hopen hlog

theorem dup_ok {new : Fd} (hd : h.dup fd = .ok (new, h')) :
    OpenedFile h h' fd.file fd.flags new := by
  cases hd
  exact openedFile_openFd (touched_note (by decide)) ⟨rfl, rfl⟩ (by simp [note])

theorem ftruncate_ok {size : UInt64} (ht : h.ftruncate fd size = .ok ((), h')) :
    Touched fd.file h h' ∧ SameFds h h' := by
  unfold ftruncate at ht
  split_ifs at ht
  split at ht
  · cases ht
    have hdata := nodesOnly_setData (h := h) (k := fd.file)
    exact ⟨(touched_setData _).trans (touched_note (by decide)), (hdata _).fds, (hdata _).nextFd⟩
  · cases ht

theorem fchmodat_ok (hn : Slashless n) (hc : h.fchmodat base n mode = .ok ((), h')) :
    ∃ k, target h.graph base n = some k ∧ Touched k h h' ∧ SameFds h h' := by
  unfold fchmodat at hc
  obtain ⟨k, hk, hc⟩ := except_bind_ok hc
  refine ⟨k, lookupPath_ok hn (Or.inl rfl) hk, ?_⟩
  simp only [Bind.bind, Except.bind] at hc
  split_ifs at hc
  cases hc
  have hinfo := nodesOnly_mapInfo (h := h) (k := k)
  exact ⟨(touched_mapInfo _).trans (touched_note (by decide)), (hinfo _).fds, (hinfo _).nextFd⟩

theorem fchownat_ok (hn : Slashless n) {uid gid : UInt32}
    (hc : h.fchownat base n uid gid = .ok ((), h')) :
    ∃ k, target h.graph base n = some k ∧ Touched k h h' ∧ SameFds h h' := by
  unfold fchownat at hc
  obtain ⟨k, hk, hc⟩ := except_bind_ok hc
  refine ⟨k, lookupPath_ok hn (Or.inl rfl) hk, ?_⟩
  cases hc
  have hinfo := nodesOnly_mapInfo (h := h) (k := k)
  exact ⟨(touched_mapInfo _).trans (touched_note (by decide)), (hinfo _).fds, (hinfo _).nextFd⟩

theorem utimensat_ok (hn : Slashless n) {now atime mtime : Time}
    (hu : h.utimensat base n now atime mtime = .ok ((), h')) :
    ∃ k, target h.graph base n = some k ∧ Touched k h h' ∧ SameFds h h' := by
  unfold utimensat at hu
  obtain ⟨k, hk, hu⟩ := except_bind_ok hu
  refine ⟨k, lookupPath_ok hn (Or.inl rfl) hk, ?_⟩
  split at hu
  · cases hu
  · obtain ⟨a, -, hu⟩ := except_bind_ok hu
    obtain ⟨m, -, hu⟩ := except_bind_ok hu
    cases hu
    have hinfo := nodesOnly_mapInfo (h := h) (k := k)
    exact ⟨(touched_mapInfo _).trans (touched_note (by decide)), (hinfo _).fds, (hinfo _).nextFd⟩

theorem readlinkat_ok (hn : Slashless n) {size : ℕ} {out : Name}
    (hr : h.readlinkat base n size = .ok (out, h')) :
    ∃ k t info, target h.graph base n = some k ∧ h.node k = some ⟨.symlink t, info⟩ ∧
      out = t.take size ∧ Touched k h h' ∧ SameFds h h' := by
  unfold readlinkat at hr
  obtain ⟨k, hk, hr⟩ := except_bind_ok hr
  split at hr
  · rename_i t info hv
    cases hr
    exact ⟨k, t, info, lookupPath_ok hn (Or.inl rfl) hk, hv, rfl, touched_note (by decide), rfl, rfl⟩
  · cases hr

theorem pwrite_ok {room : Option ℕ} {off : UInt64} {new : List UInt8} {count : ℕ}
    (hp : h.pwrite room fd off new = .ok (count, h')) :
    ∃ data info, h.node fd.file = some ⟨.file data, info⟩ ∧ count ≤ new.length ∧
      h' = (h.setData fd.file (writeAt data
        (if hasFlag fd.flags O_APPEND then data.length else off.toNat)
        (new.take count))).note .written fd.file := by
  unfold pwrite at hp
  split at hp
  · cases hp
  split at hp
  · cases hp
  split at hp
  · rename_i data info hv
    split at hp
    · cases hp
    simp only at hp
    split at hp
    · cases hp
    simp only [Except.ok.injEq, Prod.mk.injEq] at hp
    obtain ⟨rfl, rfl⟩ := hp
    exact ⟨data, info, hv, by omega, rfl⟩
  · cases hp
  · cases hp

end Riftlessfs.Core.Host
