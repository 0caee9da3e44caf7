import Riftlessfs.Core.PathResolution
import Riftlessfs.Core.InodeInvariant

/-! The abstract machine behind the engine: an inode table over a directory graph, and
the few ways in which an operation changes the two. -/
namespace Riftlessfs.Core
open Lib

/-- What the engine knows about names, next to the names there are. -/
structure View where
  store : InodeStore
  graph : DirGraph FileKey Name

/-- The file the component `n` names in the directory with id `p`. -/
def View.resolve (v : View) (p : UInt64) (n : Name) : Option FileKey :=
  match v.store.byId p with
  | none => none
  | some pd => target v.graph pd.key n

def View.tracked (v : View) (id : UInt64) : Option FileKey :=
  match v.store.byId id with
  | none => none
  | some d => v.resolve (d.parent.getD ROOT_ID) d.name

theorem View.resolve_eq {v : View} {p : UInt64} {pd : InodeData} (hp : v.store.byId p = some pd)
    (n : Name) : v.resolve p n = target v.graph pd.key n := by
  unfold View.resolve
  rw [hp]

theorem View.tracked_eq {v : View} {id : UInt64} {d : InodeData}
    (hd : v.store.byId id = some d) :
    v.tracked id = v.resolve (d.parent.getD ROOT_ID) d.name := by
  unfold View.tracked
  rw [hd]

/-- Every inode last seen as `n` in `p` is of file `k`. -/
def SeenAs (s : InodeStore) (p : UInt64) (n : Name) (k : Option FileKey) : Prop :=
  ∀ d ∈ s.live, d.parent = some p → d.name = n → some d.key = k

instance (s : InodeStore) (p : UInt64) (n : Name) (k : Option FileKey) :
    Decidable (SeenAs s p n k) :=
  inferInstanceAs (Decidable (∀ d ∈ s.live, d.parent = some p → d.name = n → some d.key = k))

/-- One change of the view, or one use of it. -/
inductive Act where
  | touched (parent : UInt64) (name : Name) (k : FileKey)
  | duplicated (id : UInt64)
  | written (k : FileKey)
  | seen (parent : UInt64) (name : Name) (k : FileKey)
  | forgot (id count : UInt64)
  | made (parent : UInt64) (name : Name) (k : FileKey) (isDir : Bool)
  | removed (parent : UInt64) (name : Name) (k : FileKey)
  | moved (order : List UInt64) (parent : UInt64) (name : Name) (newParent : UInt64)
      (newName : Name) (m : FileKey)
  | linked (id : UInt64) (newParent : UInt64) (newName : Name)

def View.fileOf (v : View) (id : UInt64) : Set FileKey :=
  {k | ∃ d, v.store.byId id = some d ∧ d.key = k}

/-- The files an act deals with: those it uses, and the directories whose entries it changes. -/
def Act.subjects (v : View) : Act → Set FileKey
  | .touched _ _ k | .written k | .seen _ _ k => {k}
  | .duplicated id => v.fileOf id
  | .forgot _ _ => ∅
  | .made p _ k _ | .removed p _ k => {x | x ∈ v.fileOf p ∨ x = k}
  | .moved _ p _ p' n' m => {x | x ∈ v.fileOf p ∨ x ∈ v.fileOf p' ∨ x = m ∨
      ∃ d ∈ v.fileOf p', v.graph.entry d n' = some x}
  | .linked id p _ => {x | x ∈ v.fileOf p ∨ x ∈ v.fileOf id}

/-- Neither the id counter nor a lookup count is about to wrap. -/
structure Roomy (s : InodeStore) : Prop where
  next : s.nextId.toNat + 1 < 2 ^ 64
  lookups : ∀ id d, s.byId id = some d → d.lookups.toNat + 1 < 2 ^ 64

/-- How a rename changes the graph: not at all when both names are of one file, else by
a move onto a free name or over a leaf. -/
inductive Moves (g : DirGraph FileKey Name) (d : FileKey) (n : Name) (d' : FileKey) (n' : Name)
    (m : FileKey) : DirGraph FileKey Name → List Event → Prop where
  | same (ht : g.entry d' n' = some m) : Moves g d n d' n' m g []
  | free (ht : g.entry d' n' = none) (ha : g.dead d' = false) :
      Moves g d n d' n' m (g.move d n d' n' m) [⟨.renamed, m⟩]
  | onto (t : FileKey) (ht : g.entry d' n' = some t) (hne : t ≠ m) (hl : g.Leaf t) :
      Moves g d n d' n' m ((g.move d n d' n' m).kill t) [⟨.renamed, m⟩, ⟨.removed, t⟩]

inductive Does : Act → View → View → List Event → Prop where
  | touched {v : View} {p : UInt64} {n : Name} {k : FileKey} {evs : List Event} (pd : InodeData)
      (hp : v.store.byId p = some pd) (ht : target v.graph pd.key n = some k)
      (he : ∀ e ∈ evs, e.key = k ∧ e.kind ≠ .written) : Does (.touched p n k) v v evs
  | duplicated {v : View} {id : UInt64} {evs : List Event} (d : InodeData)
      (hd : v.store.byId id = some d) (hr : id = ROOT_ID)
      (he : ∀ e ∈ evs, e.key = d.key ∧ e.kind ≠ .written) : Does (.duplicated id) v v evs
  | written {v : View} {k : FileKey} : Does (.written k) v v [⟨.written, k⟩]
  | seen {v : View} {p : UInt64} {n : Name} {k : FileKey} {d : InodeData} {s : InodeStore}
      {dropped : Option Fd} (pd : InodeData) (fd : Fd) (st : Stat)
      (hp : v.store.byId p = some pd) (ht : target v.graph pd.key n = some k)
      (hk : st.key = k) (hr : Roomy v.store)
      (hreg : v.store.register p n fd st = some (d, s, dropped)) :
      Does (.seen p n k) v ⟨s, v.graph⟩ [⟨.referenced, k⟩]
  | forgot {v : View} {id count : UInt64} :
      Does (.forgot id count) v ⟨(v.store.forget id count).1, v.graph⟩ []
  | made {v : View} {p : UInt64} {n : Name} {k : FileKey} {isDir : Bool} {evs : List Event}
      (pd : InodeData) (hp : v.store.byId p = some pd) (hn : Plain n)
      (hd : v.graph.IsDir pd.key) (hfree : v.graph.entry pd.key n = none)
      (ha : v.graph.dead pd.key = false) (hlive : ∀ id d, v.store.byId id = some d → d.key ≠ k)
      (hk : ∀ x m, v.graph.entry x m ≠ some k)
      (he : ∀ e ∈ evs, e.key = k ∧ e.kind ≠ .written) :
      Does (.made p n k isDir) v
        ⟨v.store, v.graph.create pd.key n k (if isDir then some pd.key else none)⟩ evs
  | removed {v : View} {p : UInt64} {n : Name} {k : FileKey} (pd : InodeData)
      (hp : v.store.byId p = some pd) (hn : Plain n) (he : v.graph.entry pd.key n = some k)
      (hl : v.graph.Leaf k) :
      Does (.removed p n k) v ⟨v.store, v.graph.remove pd.key n k⟩ [⟨.removed, k⟩]
  | moved {v : View} {order : List UInt64} {p : UInt64} {n : Name} {p' : UInt64} {n' : Name}
      {m : FileKey} {g : DirGraph FileKey Name} {evs : List Event} (pd pd' : InodeData)
      (hp : v.store.byId p = some pd) (hp' : v.store.byId p' = some pd') (hn : Plain n)
      (hn' : Plain n') (he : v.graph.entry pd.key n = some m) (hd : v.graph.IsDir pd.key)
      (hd' : v.graph.IsDir pd'.key)
      (hb : v.graph.IsDir m → ∃ fuel, v.graph.below m fuel pd'.key = false)
      (hm : Moves v.graph pd.key n pd'.key n' m g evs) :
      Does (.moved order p n p' n' m) v ⟨v.store.noteRename order p n p' n', g⟩ evs
  | linked {v : View} {id p : UInt64} {n : Name} (d pd : InodeData)
      (hd : v.store.byId id = some d) (hp : v.store.byId p = some pd) (hn : Plain n)
      (hdir : v.graph.IsDir pd.key) (hfree : v.graph.entry pd.key n = none)
      (ha : v.graph.dead pd.key = false) (hk : ¬ v.graph.IsDir d.key)
      (hnamed : ∃ x l, v.graph.entry x l = some d.key) :
      Does (.linked id p n) v ⟨v.store, v.graph.bind pd.key n d.key⟩ [⟨.linked, d.key⟩]

/-- A sequence of acts, each allowed by `P` at the view it starts from; they deal with the files
in `S`. -/
inductive Chain (P : View → Act → Prop) : View → View → List Event → Set FileKey → Prop where
  | nil (v : View) : Chain P v v [] ∅
  | cons {v v₁ v₂ : View} {a : Act} {evs evs' : List Event} {S : Set FileKey} (ha : P v a)
      (hd : Does a v v₁ evs) (hc : Chain P v₁ v₂ evs' S) :
      Chain P v v₂ (evs ++ evs') (a.subjects v ∪ S)

theorem Chain.single {P : View → Act → Prop} {v v₁ : View} {a : Act} {evs : List Event}
    (ha : P v a) (hd : Does a v v₁ evs) : Chain P v v₁ evs (a.subjects v) := by
  have h := Chain.cons ha hd (Chain.nil v₁)
  rwa [List.append_nil, Set.union_empty] at h

theorem Chain.append {P : View → Act → Prop} {v v₁ v₂ : View} {evs evs' : List Event}
    {S S' : Set FileKey} (hc : Chain P v v₁ evs S) (hc' : Chain P v₁ v₂ evs' S') :
    Chain P v v₂ (evs ++ evs') (S ∪ S') := by
  induction hc with
  | nil =>
    rw [Set.empty_union]
    exact hc'
  | cons ha hd _ ih =>
    rw [List.append_assoc, Set.union_assoc]
    exact Chain.cons ha hd (ih hc')

/-- What every allowed act keeps, a chain keeps. -/
theorem Chain.invariant {P : View → Act → Prop} {J : View → Prop}
    (hstep : ∀ {v v₁ a evs}, P v a → Does a v v₁ evs → J v → J v₁) {v v₂ : View}
    {evs : List Event} {S : Set FileKey} (hc : Chain P v v₂ evs S) (hv : J v) : J v₂ := by
  induction hc with
  | nil => exact hv
  | cons ha hd _ ih => exact ih (hstep ha hd hv)

/-- A sound table whose tracked parents were all issued. -/
structure Base (s : InodeStore) : Prop where
  inv : s.Inv
  issued : ∀ id d p, s.byId id = some d → d.parent = some p → p.toNat < s.nextId.toNat
  rooted : ∀ id d, s.byId id = some d → d.parent = none → d.name = []

section Base
open InodeStore
variable {s s' : InodeStore}

/-- What a registration does to a sound table. -/
theorem Base.register_cases (hb : Base s) {p : UInt64} {n : Name} {fd : Fd} {st : Stat}
    {d : InodeData} {dropped : Option Fd}
    (hreg : s.register p n fd st = some (d, s', dropped)) :
    (∃ id d₀, s.byId id = some d₀ ∧ d₀.key = st.key ∧ s' = s.setData id (bumped d₀ p n) ∧
      dropped = some fd) ∨
    ((∀ id d₀, s.byId id = some d₀ → d₀.key ≠ st.key) ∧
      s' = s.addFresh (fresh s p n fd st) ∧ dropped = none) := by
  rcases hb.inv.register_cases p n fd st with ⟨id, d₀, -, hd₀, hk, h⟩ | ⟨hnone, h⟩
  · left
    rw [hreg, Option.some.injEq, Prod.mk.injEq, Prod.mk.injEq] at h
    exact ⟨id, d₀, hd₀, hk, h.2.1, h.2.2⟩
  · right
    rw [hreg, Option.some.injEq, Prod.mk.injEq, Prod.mk.injEq] at h
    refine ⟨fun id d₀ hd₀ hk => ?_, h.2.1, h.2.2⟩
    have hsome := hb.inv.byKey_key hd₀
    rw [hk, hnone] at hsome
    cases hsome

theorem Base.setLocation (hb : Base s) {id p : UInt64} {d d' : InodeData} {pd : InodeData}
    (hd : s.byId id = some d) (hid : d'.id = d.id) (hkey : d'.key = d.key)
    (hl : 1 ≤ d'.lookups.toNat ∨ id = ROOT_ID) (hp : s.byId p = some pd)
    (hpar : d'.parent = some p) : Base (s.setData id d') := by
  refine ⟨hb.inv.setData hd hid hkey hl, fun id' e q he hq => ?_, fun id' e he hnone => ?_⟩
  · rw [setData_byId] at he
    split_ifs at he with h
    · cases he
      rw [hpar] at hq
      cases hq
      exact hb.inv.below p pd hp
    · exact hb.issued id' e q he hq
  · rw [setData_byId] at he
    split_ifs at he with h
    · cases he
      rw [hpar] at hnone
      cases hnone
    · exact hb.rooted id' e he hnone

theorem Base.register (hb : Base s) (hr : Roomy s) {p : UInt64} {n : Name} {fd : Fd} {st : Stat}
    {d pd : InodeData} {dropped : Option Fd} (hp : s.byId p = some pd)
    (hreg : s.register p n fd st = some (d, s', dropped)) : Base s' := by
  rcases hb.register_cases hreg with ⟨id, d₀, hd₀, -, rfl, -⟩ | ⟨hnew, rfl, -⟩
  · have hsucc : (d₀.lookups + 1).toNat = d₀.lookups.toNat + 1 :=
      toNat_succ (hr.lookups id d₀ hd₀)
    refine hb.setLocation hd₀ rfl rfl (Or.inl ?_) hp rfl
    show 1 ≤ (d₀.lookups + 1).toNat
    omega
  · have hkey : s.byKey (fresh s p n fd st).key = none := by
      cases hk : s.byKey (fresh s p n fd st).key with
      | none => rfl
      | some id =>
        obtain ⟨d₀, hd₀, hkd⟩ := (hb.inv.inverse _ id).mp hk
        exact absurd hkd (hnew id d₀ hd₀)
    have hnext : (s.addFresh (fresh s p n fd st)).nextId.toNat = s.nextId.toNat + 1 :=
      toNat_succ hr.next
    refine ⟨hb.inv.addFresh rfl hkey (by simp [fresh]) hr.next, fun id e q he hq => ?_,
      fun id e he hnone => ?_⟩
    · rw [hnext]
      rw [addFresh_byId] at he
      split_ifs at he with h
      · cases he
        cases hq
        have := hb.inv.below p pd hp
        omega
      · have := hb.issued id e q he hq
        omega
    · rw [addFresh_byId] at he
      split_ifs at he with h
      · cases he
        cases hnone
      · exact hb.rooted id e he hnone

/-- A forgotten inode that stays keeps its location and file. -/
theorem forget_byId {id count id' : UInt64} {d : InodeData}
    (hd : (s.forget id count).1.byId id' = some d) :
    ∃ d₀, s.byId id' = some d₀ ∧ d.parent = d₀.parent ∧ d.name = d₀.name ∧ d.key = d₀.key ∧
      d.fd = d₀.fd := by
  rcases forget_cases s id count with ⟨-, hf⟩ | ⟨e, -, he, -, hf⟩ | ⟨e, -, he, -, hf⟩
  · rw [hf] at hd
    exact ⟨d, hd, rfl, rfl, rfl, rfl⟩
  · rw [hf, setData_byId] at hd
    split_ifs at hd with h
    · cases hd
      exact ⟨e, h ▸ he, rfl, rfl, rfl, rfl⟩
    · exact ⟨d, hd, rfl, rfl, rfl, rfl⟩
  · rw [hf, evict_byId] at hd
    split_ifs at hd with h
    exact ⟨d, hd, rfl, rfl, rfl, rfl⟩

private theorem forget_nextId (id count : UInt64) : (s.forget id count).1.nextId = s.nextId := by
  rcases forget_cases s id count with ⟨-, hf⟩ | ⟨e, -, -, -, hf⟩ | ⟨e, -, -, -, hf⟩ <;> rw [hf] <;>
    rfl

theorem Base.forget (hb : Base s) (id count : UInt64) : Base (s.forget id count).1 := by
  have hinv : (s.forget id count).1.Inv := by
    rcases forget_cases s id count with ⟨-, hf⟩ | ⟨e, hr, he, hlt, hf⟩ | ⟨e, hr, he, -, hf⟩
    · rw [hf]
      exact hb.inv
    · have hsub : (e.lookups - count).toNat = e.lookups.toNat - count.toNat :=
        UInt64.toNat_sub_of_le _ _ (UInt64.le_of_lt hlt)
      have hlt' : count.toNat < e.lookups.toNat := UInt64.lt_iff_toNat_lt.mp hlt
      rw [hf]
      refine hb.inv.setData he rfl rfl (Or.inl ?_)
      rw [hsub]
      omega
    · rw [hf]
      exact hb.inv.evict hr he
  refine ⟨hinv, fun id' d p hd hp => ?_, fun id' d hd hnone => ?_⟩
  · obtain ⟨d₀, hd₀, hpar, -⟩ := forget_byId hd
    rw [forget_nextId]
    exact hb.issued id' d₀ p hd₀ (hpar ▸ hp)
  · obtain ⟨d₀, hd₀, hpar, hname, -⟩ := forget_byId hd
    rw [hname]
    exact hb.rooted id' d₀ hd₀ (hpar ▸ hnone)

theorem Base.noteRename (hb : Base s) (order : List UInt64) (p : UInt64) (n : Name) {p' : UInt64}
    (n' : Name) {pd' : InodeData} (hp' : s.byId p' = some pd') :
    Base (s.noteRename order p n p' n') := by
  rcases noteRename_cases s order p n p' n' with ⟨-, h⟩ | ⟨id, d, -, hd, -, -, h⟩
  · rwa [h]
  · rw [h]
    refine hb.setLocation hd rfl rfl ?_ hp' rfl
    by_cases hr : id = ROOT_ID
    · exact Or.inr hr
    · exact Or.inl (hb.inv.counted id d hr hd)

theorem Does.base {a : Act} {v v₁ : View} {evs : List Event} (h : Does a v v₁ evs)
    (hb : Base v.store) : Base v₁.store := by
  cases h with
  | seen pd fd st hp ht hk hr hreg => exact hb.register hr hp hreg
  | forgot => exact hb.forget _ _
  | moved pd pd' hp hp' hn hn' he hd hd' hbelow hm => exact hb.noteRename _ _ _ _ hp'
  | _ => exact hb

/-- Where the inodes after an act come from: they were there under the same location, or
were just seen, or were renamed. -/
theorem Does.live {a : Act} {v v₁ : View} {evs : List Event} (h : Does a v v₁ evs)
    (hb : Base v.store) {id : UInt64} {d : InodeData} (hd : v₁.store.byId id = some d) :
    (∃ e, v.store.byId id = some e ∧ e.key = d.key ∧ d.parent = e.parent ∧ d.name = e.name) ∨
    (∃ p n, a = .seen p n d.key ∧ d.parent = some p ∧ d.name = n ∧
      (∀ e, v.store.byId id = some e → e.key = d.key) ∧ evs = [⟨.referenced, d.key⟩]) ∨
    (∃ order p n p' n' m e, a = .moved order p n p' n' m ∧ v.store.byId id = some e ∧
      order.find? (v.store.locatedAt p n) = some id ∧ e.key = d.key ∧ e.parent = some p ∧
      e.name = n ∧ d.parent = some p' ∧ d.name = n' ∧ Plain n') := by
  cases h with
  | @seen _ p n k _ s _ pd fd st hp ht hk hr hreg =>
    rcases hb.register_cases hreg with ⟨id₀, d₀, hd₀, hk₀, rfl, -⟩ | ⟨-, rfl, -⟩
    · have hd' : (v.store.setData id₀ (bumped d₀ p n)).byId id = some d := hd
      rw [setData_byId] at hd'
      split_ifs at hd' with hid
      · cases hd'
        subst hid
        have hkey : k = (bumped d₀ p n).key := by
          rw [← hk, ← hk₀]
          rfl
        refine Or.inr (Or.inl ⟨p, n, by rw [hkey], rfl, rfl, fun e he => ?_, by rw [hkey]⟩)
        rw [hd₀] at he
        cases he
        rfl
      · exact Or.inl ⟨d, hd', rfl, rfl, rfl⟩
    · have hd' : (v.store.addFresh (fresh v.store p n fd st)).byId id = some d := hd
      rw [addFresh_byId] at hd'
      split_ifs at hd' with hid
      · cases hd'
        have hkey : k = (fresh v.store p n fd st).key := hk.symm
        refine Or.inr (Or.inl ⟨p, n, by rw [hkey], rfl, rfl, fun e he => ?_, by rw [hkey]⟩)
        rw [hid, hb.inv.nextId_free] at he
        cases he
      · exact Or.inl ⟨d, hd', rfl, rfl, rfl⟩
  | forgot =>
    obtain ⟨e, he, hpar, hname, hkey, -⟩ := forget_byId hd
    exact Or.inl ⟨e, he, hkey.symm, hpar, hname⟩
  | @moved _ order p n p' n' m _ _ pd pd' hp hp' hn hn' he hdir hd' hbelow hm =>
    rcases noteRename_cases v.store order p n p' n' with
      ⟨-, hr⟩ | ⟨id₀, d₀, hfind, hd₀, hpar, hname, hr⟩
    · rw [hr] at hd
      exact Or.inl ⟨d, hd, rfl, rfl, rfl⟩
    · rw [hr, setData_byId] at hd
      split_ifs at hd with hid
      · cases hd
        subst hid
        exact Or.inr (Or.inr ⟨order, p, n, p', n', m, d₀, rfl, hd₀, hfind, rfl, hpar, hname, rfl,
          rfl, hn'⟩)
      · exact Or.inl ⟨d, hd, rfl, rfl, rfl⟩
  | _ => exact Or.inl ⟨d, hd, rfl, rfl, rfl⟩

end Base

end Riftlessfs.Core
