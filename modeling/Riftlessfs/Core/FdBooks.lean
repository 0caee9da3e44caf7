import Riftlessfs.Lib.Ownership
import Riftlessfs.Core.Call

/-! The books of the engine's descriptors: an open descriptor is loose, or one inode or one
handle owns it. What each change of the tables and of the host does to them. -/
namespace Riftlessfs.Core
open Lib.Effect Lib.Ownership PassthroughFs Host

/-- The descriptor an inode (left) or a handle (right) owns. -/
def World.owner (w : World) : UInt64 ⊕ UInt64 → Option Fd
  | .inl ino => (w.inodes.byId ino).map InodeData.fd
  | .inr handle => (w.handles.handles handle).map HandleData.fd

def World.opened (w : World) : Set Fd := {fd | fd ∈ w.host.fds}

/-- The open descriptors are those in `loose` and those the tables own. -/
structure Balanced (loose : Set Fd) (w : World) : Prop where
  books : Books w.opened w.owner loose
  numbered : ∀ fd ∈ w.host.fds, fd.num < w.host.nextFd
  issued : ∀ i data, w.handles.handles i = some data → i.toNat < w.handles.nextId.toNat

section Owners
variable {w w' : World} {id : UInt64}

/-- A change of one entry of the inode table is one of that inode's descriptor. -/
theorem owner_inode {x : Option InodeData}
    (hin : w'.inodes.byId = Function.update w.inodes.byId id x)
    (hh : w'.handles.handles = w.handles.handles) :
    w'.owner = Function.update w.owner (.inl id) (x.map InodeData.fd) := by
  funext o
  rw [Function.update_apply]
  cases o with
  | inl i =>
    show (w'.inodes.byId i).map InodeData.fd = _
    rw [hin, Function.update_apply]
    by_cases h : i = id
    · rw [if_pos h, if_pos (congrArg Sum.inl h)]
    · rw [if_neg h, if_neg fun heq => h (Sum.inl.inj heq)]
      rfl
  | inr i =>
    rw [if_neg Sum.inr_ne_inl]
    show (w'.handles.handles i).map HandleData.fd = _
    rw [hh]
    rfl

theorem owner_handle {x : Option HandleData} (hin : w'.inodes.byId = w.inodes.byId)
    (hh : w'.handles.handles = Function.update w.handles.handles id x) :
    w'.owner = Function.update w.owner (.inr id) (x.map HandleData.fd) := by
  funext o
  rw [Function.update_apply]
  cases o with
  | inl i =>
    rw [if_neg Sum.inl_ne_inr]
    show (w'.inodes.byId i).map InodeData.fd = _
    rw [hin]
    rfl
  | inr i =>
    show (w'.handles.handles i).map HandleData.fd = _
    rw [hh, Function.update_apply]
    by_cases h : i = id
    · rw [if_pos h, if_pos (congrArg Sum.inr h)]
    · rw [if_neg h, if_neg fun heq => h (Sum.inr.inj heq)]
      rfl

end Owners

section Host
variable {loose : Set Fd} {w : World} {h : Host} {fd : Fd}

theorem Balanced.sameFds (hb : Balanced loose w) (hs : SameFds w.host h) :
    Balanced loose (w.withHost h) := by
  obtain ⟨hbooks, hnum, hissued⟩ := hb
  have hopened : (w.withHost h).opened = w.opened := by
    unfold World.opened
    rw [World.withHost_host, hs.fds]
  refine ⟨?_, fun fd hfd => ?_, hissued⟩
  · rw [hopened]
    exact hbooks
  · rw [World.withHost_host] at hfd ⊢
    rw [hs.fds] at hfd
    rw [hs.nextFd]
    exact hnum fd hfd

/-- A descriptor just opened is new, and loose. -/
theorem Balanced.adds (hb : Balanced loose w) (ha : AddsFd w.host h fd) :
    fd ∉ loose ∧ Balanced (insert fd loose) (w.withHost h) := by
  have hnew : fd ∉ w.opened := by
    intro hmem
    have hlt := hb.numbered fd hmem
    rw [ha.num] at hlt
    exact lt_irrefl _ hlt
  have hopened : (w.withHost h).opened = insert fd w.opened := by
    ext x
    show x ∈ h.fds ↔ _
    rw [ha.fds, List.mem_cons]
    rfl
  refine ⟨fun hmem => hnew ((hb.books.covers fd).mpr (Or.inl hmem)), ?_, fun x hx => ?_, hb.issued⟩
  · rw [hopened]
    exact hb.books.acquire hnew
  · rw [World.withHost_host] at hx ⊢
    rw [ha.fds] at hx
    rw [ha.nextFd]
    rcases List.mem_cons.mp hx with rfl | hx
    · rw [ha.num]
      exact Nat.lt_succ_self _
    · exact Nat.lt_succ_of_lt (hb.numbered x hx)

theorem opened_closeFd (w : World) (fd : Fd) :
    (w.withHost (w.host.closeFd fd)).opened = w.opened \ {fd} := by
  ext x
  show x ∈ w.host.fds.filter _ ↔ _
  rw [List.mem_filter, decide_eq_true_iff]
  rfl

/-- Closing a loose descriptor. -/
theorem Balanced.closeFd (hb : Balanced (insert fd loose) w) (hfd : fd ∉ loose) :
    Balanced loose (w.withHost (w.host.closeFd fd)) := by
  refine ⟨?_, fun x hx => hb.numbered x (List.mem_filter.mp hx).1, hb.issued⟩
  rw [opened_closeFd]
  exact hb.books.discard hfd

end Host

section Tables
variable {loose : Set Fd} {w : World} {fd : Fd} {s : InodeStore} {id : UInt64} {d : InodeData}

/-- A change of the inode table that leaves every descriptor where it is. -/
theorem Balanced.inodes (hb : Balanced loose w)
    (hs : ∀ id, (s.byId id).map InodeData.fd = (w.inodes.byId id).map InodeData.fd) :
    Balanced loose { w with inodes := s } := by
  have howner : World.owner { w with inodes := s } = w.owner := by
    funext o
    cases o with
    | inl id => exact hs id
    | inr i => rfl
  refine ⟨?_, hb.numbered, hb.issued⟩
  rw [howner]
  exact hb.books

theorem Balanced.setData (hb : Balanced loose w) {d' : InodeData} (hd : w.inodes.byId id = some d)
    (hfd : d'.fd = d.fd) : Balanced loose { w with inodes := w.inodes.setData id d' } := by
  refine hb.inodes fun i => ?_
  rw [InodeStore.setData_byId]
  split_ifs with h
  · rw [h, hd, Option.map_some, Option.map_some, hfd]
  · rfl

theorem Balanced.addFresh (hb : Balanced (insert d.fd loose) w) (hfd : d.fd ∉ loose)
    (hfree : w.inodes.byId w.inodes.nextId = none) :
    Balanced loose { w with inodes := w.inodes.addFresh d } := by
  have howner : World.owner { w with inodes := w.inodes.addFresh d } =
      Function.update w.owner (.inl w.inodes.nextId) (some d.fd) :=
    owner_inode (x := some d) rfl rfl
  refine ⟨?_, hb.numbered, hb.issued⟩
  rw [howner]
  refine hb.books.give hfd ?_
  show (w.inodes.byId w.inodes.nextId).map InodeData.fd = none
  rw [hfree]
  rfl

theorem Balanced.evict (hb : Balanced loose w) (hd : w.inodes.byId id = some d) :
    Balanced loose ⟨w.inodes.evict id d, w.handles, w.host.closeFd d.fd⟩ := by
  have howner : World.owner ⟨w.inodes.evict id d, w.handles, w.host.closeFd d.fd⟩ =
      Function.update w.owner (.inl id) none := owner_inode (x := none) rfl rfl
  have hopened : World.opened ⟨w.inodes.evict id d, w.handles, w.host.closeFd d.fd⟩ =
      w.opened \ {d.fd} := opened_closeFd w d.fd
  refine ⟨?_, fun x hx => hb.numbered x (List.mem_filter.mp hx).1, hb.issued⟩
  rw [howner, hopened]
  refine hb.books.retire ?_
  show (w.inodes.byId id).map InodeData.fd = some d.fd
  rw [hd]
  rfl

/-- Registering the file behind a descriptor just opened: it is closed, or the new inode's. -/
theorem Balanced.register (hb : Balanced loose w) (hi : w.inodes.Inv) {h : Host}
    (ha : AddsFd w.host h fd) {p : UInt64} {n : Name} {st : Stat} {dropped : Option Fd}
    (hreg : w.inodes.register p n fd st = some (d, s, dropped)) :
    Balanced loose ⟨s, w.handles, h.dropOpt dropped⟩ := by
  obtain ⟨hfd, hopen⟩ := hb.adds ha
  rcases hi.register_cases p n fd st with ⟨id, d₀, -, hd₀, -, heq⟩ | ⟨-, heq⟩
  · rw [hreg] at heq
    cases heq
    exact (hopen.closeFd hfd).setData hd₀ rfl
  · rw [hreg] at heq
    cases heq
    exact hopen.addFresh (d := InodeStore.fresh w.inodes p n fd st) hfd hi.nextId_free

theorem Balanced.forget (hb : Balanced loose w) (id count : UInt64) :
    Balanced loose ⟨(w.inodes.forget id count).1, w.handles,
      w.host.dropOpt (w.inodes.forget id count).2⟩ := by
  rcases InodeStore.forget_cases w.inodes id count with
    ⟨-, hf⟩ | ⟨d, -, hd, -, hf⟩ | ⟨d, -, hd, -, hf⟩
  · rw [hf]
    exact hb
  · rw [hf]
    exact hb.setData hd rfl
  · rw [hf]
    exact hb.evict hd

theorem Balanced.noteRename (hb : Balanced loose w) (order : List UInt64) (p : UInt64) (n : Name)
    (p' : UInt64) (n' : Name) :
    Balanced loose { w with inodes := w.inodes.noteRename order p n p' n' } := by
  rcases InodeStore.noteRename_cases w.inodes order p n p' n' with
    ⟨-, hr⟩ | ⟨id, d, -, hd, -, -, hr⟩
  · rw [hr]
    exact hb
  · rw [hr]
    exact hb.setData hd rfl

theorem Balanced.insertHandle {data : HandleData} (hb : Balanced (insert data.fd loose) w)
    (hfd : data.fd ∉ loose) (hroom : w.handles.nextId.toNat + 1 < 2 ^ 64) :
    Balanced loose { w with handles := (w.handles.insert data).2 } := by
  have hnext : (w.handles.nextId + 1).toNat = w.handles.nextId.toNat + 1 :=
    InodeStore.toNat_succ hroom
  have hfree : w.handles.handles w.handles.nextId = none := by
    cases hold : w.handles.handles w.handles.nextId with
    | none => rfl
    | some old => exact absurd (hb.issued _ _ hold) (lt_irrefl _)
  have howner : World.owner { w with handles := (w.handles.insert data).2 } =
      Function.update w.owner (.inr w.handles.nextId) (some data.fd) :=
    owner_handle (x := some data) rfl rfl
  refine ⟨?_, hb.numbered, fun i old hi => ?_⟩
  · rw [howner]
    refine hb.books.give hfd ?_
    show (w.handles.handles w.handles.nextId).map HandleData.fd = none
    rw [hfree]
    rfl
  · show i.toNat < (w.handles.nextId + 1).toNat
    rw [hnext]
    have hi' : Function.update w.handles.handles w.handles.nextId (some data) i = some old := hi
    rw [Function.update_apply] at hi'
    split_ifs at hi' with h
    · rw [h]
      exact Nat.lt_succ_self _
    · exact Nat.lt_succ_of_lt (hb.issued i old hi')

theorem Balanced.removeHandle (hb : Balanced loose w) {i : UInt64} {data : HandleData}
    (hi : w.handles.handles i = some data) :
    Balanced loose ⟨w.inodes, { w.handles with handles := Function.update w.handles.handles i none },
      w.host.closeFd data.fd⟩ := by
  obtain ⟨w', hw'⟩ : ∃ w' : World, w' = ⟨w.inodes,
    { w.handles with handles := Function.update w.handles.handles i none },
    w.host.closeFd data.fd⟩ := ⟨_, rfl⟩
  have howner : w'.owner = Function.update w.owner (.inr i) none := by
    rw [hw']
    exact owner_handle (x := none) rfl rfl
  have hopened : w'.opened = w.opened \ {data.fd} := by
    rw [hw']
    exact opened_closeFd w data.fd
  rw [← hw']
  refine ⟨?_, fun x hx => ?_, fun j old hj => ?_⟩
  · rw [howner, hopened]
    refine hb.books.retire ?_
    show (w.handles.handles i).map HandleData.fd = some data.fd
    rw [hi]
    rfl
  · rw [hw'] at hx ⊢
    exact hb.numbered x (List.mem_filter.mp hx).1
  · rw [hw'] at hj ⊢
    have hj' : Function.update w.handles.handles i none j = some old := hj
    rw [Function.update_apply] at hj'
    split_ifs at hj' with h
    exact hb.issued j old hj'

end Tables

end Riftlessfs.Core
