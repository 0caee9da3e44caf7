import Riftlessfs.Core.Tracking
import Riftlessfs.Core.OpCases
import Riftlessfs.Core.InodeRuns
import Riftlessfs.Core.NamespaceEffects

/-! Worlds whose tables agree with the open descriptors: every inode holds an open
descriptor of its own file, and handles hold descriptors of their own. -/
namespace Riftlessfs.Core
open Lib

def World.view (w : World) : View := ⟨w.inodes, w.host.graph⟩

@[simp] theorem World.view_store (w : World) : w.view.store = w.inodes := rfl

@[simp] theorem World.view_graph (w : World) : w.view.graph = w.host.graph := rfl

structure Sound (w : World) : Prop where
  base : Base w.inodes
  names : ∀ id d, w.inodes.byId id = some d → Slashless d.name
  held : ∀ id d, w.inodes.byId id = some d → d.fd ∈ w.host.fds ∧ d.fd.file = d.key
  fdNum : ∀ fd ∈ w.host.fds, fd.num < w.host.nextFd
  handleNum : ∀ i hd, w.handles.handles i = some hd → hd.fd.num < w.host.nextFd
  apart : ∀ i hd id d, w.handles.handles i = some hd → w.inodes.byId id = some d → d.fd ≠ hd.fd

/-- A descriptor that was handed out and that no inode owns. -/
structure Spare (w : World) (fd : Fd) : Prop where
  num : fd.num < w.host.nextFd
  apart : ∀ id d, w.inodes.byId id = some d → d.fd ≠ fd

/-- Open descriptors stay open, and new ones are numbered on. -/
structure Host.Grows (h h' : Host) : Prop where
  fds : ∀ fd ∈ h.fds, fd ∈ h'.fds
  news : ∀ fd ∈ h'.fds, fd ∈ h.fds ∨ fd.num < h'.nextFd
  nextFd : h.nextFd ≤ h'.nextFd

section Grows
variable {h h' : Host} {fd : Fd}

theorem Host.SameFds.grows (hs : Host.SameFds h h') : h.Grows h' := by
  refine ⟨fun x hx => ?_, fun x hx => ?_, ?_⟩
  · rwa [hs.fds]
  · rw [hs.fds] at hx
    exact Or.inl hx
  · rw [hs.nextFd]

theorem Host.Changed.sameFds {g : DirGraph FileKey Name} {evs : List Event}
    (hc : Host.Changed h h' g evs) : Host.SameFds h h' := ⟨hc.fds, hc.nextFd⟩

theorem Host.AddsFd.grows (ha : Host.AddsFd h h' fd) : h.Grows h' := by
  refine ⟨fun x hx => ?_, fun x hx => ?_, ?_⟩
  · rw [ha.fds]
    exact List.mem_cons_of_mem fd hx
  · rw [ha.fds] at hx
    rcases List.mem_cons.mp hx with rfl | hx
    · right
      rw [ha.nextFd, ha.num]
      omega
    · exact Or.inl hx
  · rw [ha.nextFd]
    omega

theorem Host.AddsFd.mem (ha : Host.AddsFd h h' fd) : fd ∈ h'.fds := by
  rw [ha.fds]
  exact List.mem_cons_self

end Grows

section Sound
variable {w : World} {h : Host} {fd : Fd} {p id : UInt64} {n : Name} {d pd : InodeData}

theorem Sound.withHost (hs : Sound w) (hg : w.host.Grows h) : Sound (w.withHost h) := by
  refine ⟨hs.base, hs.names, fun id d hd => ?_, fun x hx => ?_, fun i hd hi => ?_, hs.apart⟩
  · obtain ⟨hmem, hfile⟩ := hs.held id d hd
    exact ⟨hg.fds d.fd hmem, hfile⟩
  · rcases hg.news x hx with hx | hx
    · exact (hs.fdNum x hx).trans_le hg.nextFd
    · exact hx
  · exact (hs.handleNum i hd hi).trans_le hg.nextFd

/-- A descriptor just opened is spare. -/
theorem Sound.spare_of_adds (hs : Sound w) (ha : Host.AddsFd w.host h fd) :
    Spare (w.withHost h) fd := by
  refine ⟨?_, fun id d hd heq => ?_⟩
  · show fd.num < h.nextFd
    rw [ha.nextFd, ha.num]
    omega
  · have hlt := hs.fdNum d.fd (hs.held id d hd).1
    rw [heq, ha.num] at hlt
    exact lt_irrefl _ hlt

theorem Sound.closeFd (hs : Sound w) (hsp : ∀ id d, w.inodes.byId id = some d → d.fd ≠ fd) :
    Sound (w.withHost (w.host.closeFd fd)) := by
  refine ⟨hs.base, hs.names, fun id d hd => ?_, fun x hx => ?_, hs.handleNum, hs.apart⟩
  · obtain ⟨hmem, hfile⟩ := hs.held id d hd
    refine ⟨?_, hfile⟩
    show d.fd ∈ w.host.fds.filter _
    rw [List.mem_filter]
    exact ⟨hmem, decide_eq_true (hsp id d hd)⟩
  · exact hs.fdNum x (List.mem_filter.mp hx).1

theorem Sound.insertHandle (hs : Sound w) {data : HandleData} (hsp : Spare w data.fd) :
    Sound { w with handles := (w.handles.insert data).2 } := by
  have hold : ∀ i hd, (w.handles.insert data).2.handles i = some hd →
      hd = data ∨ w.handles.handles i = some hd := by
    intro i hd hi
    have hi' : Function.update w.handles.handles w.handles.nextId (some data) i = some hd := hi
    rw [Function.update_apply] at hi'
    split_ifs at hi' with h
    · exact Or.inl (Option.some.inj hi').symm
    · exact Or.inr hi'
  refine ⟨hs.base, hs.names, hs.held, hs.fdNum, fun i hd hi => ?_, fun i hd id d hi hid => ?_⟩
  · rcases hold i hd hi with rfl | hi
    · exact hsp.num
    · exact hs.handleNum i hd hi
  · rcases hold i hd hi with rfl | hi
    · exact hsp.apart id d hid
    · exact hs.apart i hd id d hi hid

theorem Sound.removeHandle (hs : Sound w) {i : UInt64} {data : HandleData}
    (hi : w.handles.handles i = some data) :
    Sound ⟨w.inodes, { w.handles with handles := Function.update w.handles.handles i none },
      w.host.closeFd data.fd⟩ := by
  have hold : ∀ j hd, Function.update w.handles.handles i none j = some hd →
      w.handles.handles j = some hd := by
    intro j hd hj
    rw [Function.update_apply] at hj
    split_ifs at hj
    exact hj
  have hc := hs.closeFd fun id d hd => hs.apart i data id d hi hd
  exact ⟨hs.base, hs.names, hc.held, hc.fdNum, fun j hd hj => hs.handleNum j hd (hold j hd hj),
    fun j hd id d hj => hs.apart j hd id d (hold j hd hj)⟩

/-- Changing the count or location of an inode. -/
theorem Sound.setData (hs : Sound w) {d' : InodeData} (hd : w.inodes.byId id = some d)
    (hfd : d'.fd = d.fd) (hkey : d'.key = d.key) (hn : Slashless d'.name)
    (hb : Base (w.inodes.setData id d')) :
    Sound { w with inodes := w.inodes.setData id d' } := by
  have hold : ∀ i e, (w.inodes.setData id d').byId i = some e →
      (e = d' ∧ i = id) ∨ w.inodes.byId i = some e := by
    intro i e he
    rw [InodeStore.setData_byId] at he
    split_ifs at he with h
    · exact Or.inl ⟨(Option.some.inj he).symm, h⟩
    · exact Or.inr he
  refine ⟨hb, fun i e he => ?_, fun i e he => ?_, hs.fdNum, hs.handleNum,
    fun i hd j e hi he => ?_⟩
  · rcases hold i e he with ⟨rfl, -⟩ | he
    · exact hn
    · exact hs.names i e he
  · rcases hold i e he with ⟨rfl, -⟩ | he
    · rw [hfd, hkey]
      exact hs.held id d hd
    · exact hs.held i e he
  · rcases hold j e he with ⟨rfl, -⟩ | he
    · rw [hfd]
      exact hs.apart i _ id d hi ‹_›
    · exact hs.apart i hd j e hi he

theorem Sound.addFresh (hs : Sound w) (hd : d.fd ∈ w.host.fds) (hfile : d.fd.file = d.key)
    (hn : Slashless d.name) (hb : Base (w.inodes.addFresh d))
    (hap : ∀ i hd, w.handles.handles i = some hd → d.fd ≠ hd.fd) :
    Sound { w with inodes := w.inodes.addFresh d } := by
  have hold : ∀ i e, (w.inodes.addFresh d).byId i = some e →
      e = d ∨ w.inodes.byId i = some e := by
    intro i e he
    rw [InodeStore.addFresh_byId] at he
    split_ifs at he with h
    · exact Or.inl (Option.some.inj he).symm
    · exact Or.inr he
  refine ⟨hb, fun i e he => ?_, fun i e he => ?_, hs.fdNum, hs.handleNum,
    fun i hd' j e hi he => ?_⟩
  · rcases hold i e he with rfl | he
    · exact hn
    · exact hs.names i e he
  · rcases hold i e he with rfl | he
    · exact ⟨hd, hfile⟩
    · exact hs.held i e he
  · rcases hold j e he with rfl | he
    · exact hap i hd' hi
    · exact hs.apart i hd' j e hi he

/-- Registering the file behind a descriptor just opened. -/
theorem Sound.register (hs : Sound w) (hr : Roomy w.inodes) (hp : w.inodes.byId p = some pd)
    (hn : Slashless n) {st : Stat} (ha : Host.AddsFd w.host h fd) (hfile : fd.file = st.key)
    {s : InodeStore} {dropped : Option Fd}
    (hreg : w.inodes.register p n fd st = some (d, s, dropped)) :
    Sound ⟨s, w.handles, h.dropOpt dropped⟩ := by
  have hs₁ : Sound (w.withHost h) := hs.withHost ha.grows
  have hb := hs.base.register hr hp hreg
  rcases hs.base.register_cases hreg with ⟨id, d₀, hd₀, -, rfl, rfl⟩ | ⟨-, rfl, rfl⟩
  · have hs₂ := hs₁.closeFd (hs.spare_of_adds ha).apart
    exact hs₂.setData hd₀ rfl rfl hn hb
  · refine hs₁.addFresh (d := InodeStore.fresh w.inodes p n fd st) ha.mem hfile hn hb
      fun i hd hi heq => ?_
    have hlt := hs.handleNum i hd hi
    rw [← heq] at hlt
    have hnum : (InodeStore.fresh w.inodes p n fd st).fd.num = w.host.nextFd := ha.num
    omega

theorem Spare.register (hs : Sound w) {fd₀ : Fd} (hsp : Spare w fd₀) {st : Stat}
    (ha : Host.AddsFd w.host h fd) {s : InodeStore} {dropped : Option Fd}
    (hreg : w.inodes.register p n fd st = some (d, s, dropped)) :
    Spare ⟨s, w.handles, h.dropOpt dropped⟩ fd₀ := by
  have hnum := hsp.num
  have hnext : (h.dropOpt dropped).nextFd = w.host.nextFd + 1 := by
    rw [← ha.nextFd]
    cases dropped <;> rfl
  refine ⟨?_, fun i e he heq => ?_⟩
  · show fd₀.num < (h.dropOpt dropped).nextFd
    omega
  · rcases hs.base.register_cases hreg with ⟨id, d₀, hd₀, -, rfl, -⟩ | ⟨-, rfl, -⟩
    · rw [InodeStore.setData_byId] at he
      split_ifs at he with hi
      · cases he
        exact hsp.apart id d₀ hd₀ heq
      · exact hsp.apart i e he heq
    · rw [InodeStore.addFresh_byId] at he
      split_ifs at he with hi
      · cases he
        have : fd.num = fd₀.num := congrArg Fd.num heq
        have := ha.num
        omega
      · exact hsp.apart i e he heq

theorem Sound.forget (hs : Sound w) (id count : UInt64) :
    Sound ⟨(w.inodes.forget id count).1, w.handles,
      w.host.dropOpt (w.inodes.forget id count).2⟩ := by
  have hb := hs.base.forget id count
  rcases InodeStore.forget_cases w.inodes id count with
    ⟨-, hf⟩ | ⟨d, -, hd, -, hf⟩ | ⟨d, -, hd, -, hf⟩
  · rw [hf]
    exact hs
  · rw [hf] at hb ⊢
    exact hs.setData hd rfl rfl (hs.names id d hd) hb
  · rw [hf] at hb ⊢
    have hold : ∀ i e, (w.inodes.evict id d).byId i = some e →
        i ≠ id ∧ w.inodes.byId i = some e := by
      intro i e he
      rw [InodeStore.evict_byId] at he
      split_ifs at he with h
      exact ⟨h, he⟩
    have hother : ∀ i e, (w.inodes.evict id d).byId i = some e → e.fd ≠ d.fd := by
      intro i e he heq
      obtain ⟨hne, he⟩ := hold i e he
      have hkey : e.key = d.key := by
        rw [← (hs.held i e he).2, ← (hs.held id d hd).2, heq]
      exact hne (hs.base.inv.key_inj he hd hkey)
    refine ⟨hb, fun i e he => hs.names i e (hold i e he).2, fun i e he => ?_, fun x hx => ?_,
      hs.handleNum, fun i hd j e hi he => hs.apart i hd j e hi (hold j e he).2⟩
    · obtain ⟨hmem, hfile⟩ := hs.held i e (hold i e he).2
      refine ⟨?_, hfile⟩
      show e.fd ∈ w.host.fds.filter _
      rw [List.mem_filter]
      exact ⟨hmem, decide_eq_true (hother i e he)⟩
    · exact hs.fdNum x (List.mem_filter.mp hx).1

theorem Sound.noteRename (hs : Sound w) (order : List UInt64) (p : UInt64) (n : Name)
    {p' : UInt64} {n' : Name} {pd' : InodeData} (hp' : w.inodes.byId p' = some pd')
    (hn' : Slashless n') : Sound { w with inodes := w.inodes.noteRename order p n p' n' } := by
  have hb := hs.base.noteRename order p n n' hp'
  rcases InodeStore.noteRename_cases w.inodes order p n p' n' with
    ⟨-, hr⟩ | ⟨id, d, -, hd, -, -, hr⟩
  · rw [hr]
    exact hs
  · rw [hr] at hb ⊢
    exact hs.setData hd rfl rfl hn' hb

/-- A fresh engine: the root is its only inode, and the host gained one descriptor. -/
theorem new_cases {host : Host} {root : FileKey} (hnew : PassthroughFs.new host root = some w) :
    host.isDir root = true ∧ w.host.graph = host.graph ∧ w.host.log = host.log ∧
      w.handles = .new ∧ (∃ fd, Host.AddsFd host w.host fd ∧ fd.file = root ∧
        ∀ id d, w.inodes.byId id = some d → id = ROOT_ID ∧ d.fd = fd ∧ d.key = root ∧
          d.parent = none ∧ d.name = []) ∧ w.inodes.Inv ∧ w.inodes.Bounded 0 := by
  unfold PassthroughFs.new at hnew
  split at hnew
  · rename_i up es dead info hv
    cases hnew
    refine ⟨?_, rfl, rfl, rfl, ⟨_, ⟨rfl, rfl, rfl⟩, rfl, fun id d hd => ?_⟩,
      InodeStore.new_inv _ _, InodeStore.new_bounded _ _⟩
    · simp [Host.isDir, Host.dirParent, hv]
    · simp only [InodeStore.new, Function.update_apply] at hd
      split_ifs at hd with hid
      cases hd
      exact ⟨hid, rfl, rfl, rfl, rfl⟩
  · cases hnew

/-- A fresh engine on a host whose descriptors are numbered below `nextFd`. -/
theorem Sound.start {host : Host} {root : FileKey}
    (hfd : ∀ fd ∈ host.fds, fd.num < host.nextFd)
    (hnew : PassthroughFs.new host root = some w) : Sound w := by
  obtain ⟨-, -, -, hhandles, ⟨fd, hadds, hfile, honly⟩, hinv, -⟩ := new_cases hnew
  have hnone : ∀ i, w.handles.handles i = none := by
    intro i
    rw [hhandles]
    rfl
  refine ⟨⟨hinv, fun id d p hd hp => ?_, fun id d hd _ => (honly id d hd).2.2.2.2⟩,
    fun id d hd => ?_, fun id d hd => ?_, fun x hx => ?_, fun i hd hi => ?_,
    fun i hd id d hi => ?_⟩
  · rw [(honly id d hd).2.2.2.1] at hp
    cases hp
  · rw [(honly id d hd).2.2.2.2]
    decide
  · obtain ⟨-, hfd₀, hkey, -⟩ := honly id d hd
    rw [hfd₀, hkey]
    exact ⟨hadds.mem, hfile⟩
  · rw [hadds.fds] at hx
    rw [hadds.nextFd]
    rcases List.mem_cons.mp hx with rfl | hmem
    · rw [hadds.num]
      exact Nat.lt_succ_self _
    · exact Nat.lt_succ_of_lt (hfd x hmem)
  · rw [hnone] at hi
    cases hi
  · rw [hnone] at hi
    cases hi

end Sound

end Riftlessfs.Core
