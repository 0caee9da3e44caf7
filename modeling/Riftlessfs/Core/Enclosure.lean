import Riftlessfs.Core.Containment

/-! The border of the shared directory. As long as no file has names on both sides of it, a confined
call deals with files inside, or with new ones, and leaves every other file as it is. -/
namespace Riftlessfs.Core
open Lib Lib.Run

/-- What lies in the subtree of `r`, or is known to the engine, has no name outside the subtree.
The name of `r` itself is outside. -/
def Enclosed (r : FileKey) (v : View) : Prop :=
  ∀ k, k ≠ r → (v.graph.Reach r k ∨ ∃ id d, v.store.byId id = some d ∧ d.key = k) →
    ∀ x l, v.graph.entry x l = some k → v.graph.Reach r x

def Act.Creates (a : Act) (k : FileKey) : Prop := ∃ p n isDir, a = .made p n k isDir

section Moves
variable {g g' : DirGraph FileKey Name} {d d' m k x : FileKey} {n n' l : Name} {evs : List Event}

/-- A rename changes entries of its two directories only. -/
theorem Moves.entry_eq (hm : Moves g d n d' n' m g' evs) (hx : x ≠ d) (hx' : x ≠ d') :
    g'.entry x l = g.entry x l := by
  have hmoved : (g.move d n d' n' m).entry x l = g.entry x l := by
    rw [DirGraph.move_entry, if_neg fun h => hx' h.1, if_neg fun h => hx h.1]
  cases hm with
  | same ht => rfl
  | free ht ha => exact hmoved
  | onto t ht hne hl => exact hmoved

/-- A name that a rename makes is in the directory it moves to. -/
theorem Moves.eq_of_new (hm : Moves g d n d' n' m g' evs) (hx : g'.entry x l = some k)
    (hnew : g.entry x l ≠ some k) : x = d' := by
  have hmoved : (g.move d n d' n' m).entry x l = some k → x = d' := by
    intro h
    rcases DirGraph.move_entry_some h with ⟨hd, -, -⟩ | ⟨-, -, hold⟩
    · exact hd
    · exact absurd hold hnew
  cases hm with
  | same ht => exact absurd hx hnew
  | free ht ha => exact hmoved hx
  | onto t ht hne hl => exact hmoved hx

theorem Inside.reach_into {r : FileKey} {v : View} {p' : UInt64} {pd' : InodeData}
    (hi : Inside r v) (hp' : v.store.byId p' = some pd') (hd' : v.graph.IsDir pd'.key)
    (hm : Moves v.graph d n pd'.key n' m g' evs) : v.graph.Reach r pd'.key := by
  cases hm with
  | same ht => exact hi.reach_parent hp' ht
  | free ht ha => exact hi.reach_dir hp' hd' ha
  | onto t ht hne hl => exact hi.reach_parent hp' ht

end Moves

section Acts
variable {r k x : FileKey} {v v₁ : View} {a : Act} {evs : List Event} {id : UInt64} {l : Name}
  {d : InodeData} {e : Event}

/-- A file the engine knows is inside if it has a name at all. -/
theorem Enclosed.reach_live (hc : Enclosed r v) (hd : v.store.byId id = some d)
    (hx : v.graph.entry x l = some d.key) : v.graph.Reach r d.key := by
  by_cases hr : d.key = r
  · rw [hr]
    exact DirGraph.Reach.refl _ _
  · have hdir := hc d.key hr (Or.inr ⟨id, d, hd, rfl⟩) x l hx
    exact hdir.step hx

/-- What is inside after an act was inside before it, or was made by it. -/
theorem Inside.reach_inv (hi : Inside r v) (hc : Enclosed r v) (hdoes : Does a v v₁ evs)
    (h : v₁.graph.Reach r k) : v.graph.Reach r k ∨ a.Creates k := by
  cases hdoes with
  | @made _ p n k' isDir _ pd hp hn hdir hfree ha hlive hk he =>
    rcases DirGraph.reach_create_inv h with rfl | hreach
    · exact Or.inr ⟨p, n, isDir, rfl⟩
    · exact Or.inl hreach
  | removed pd hp hn he hl => exact Or.inl (DirGraph.reach_remove_inv h)
  | moved pd pd' hp hp' hn hn' he hd hd' hb hm =>
    have hparent := hi.reach_parent hp he
    cases hm with
    | same ht => exact Or.inl h
    | free ht ha => exact Or.inl (DirGraph.reach_move_inv hparent he h)
    | onto t ht hne hl => exact Or.inl (DirGraph.reach_move_inv hparent he h)
  | linked d pd hd hp hn hdir hfree ha hk hnamed =>
    obtain ⟨x, l, hx⟩ := hnamed
    rcases DirGraph.reach_link_inv (hi.wf.leaf_of_not_dir hk) h with rfl | hreach
    · exact Or.inl (hc.reach_live hd hx)
    · exact Or.inl hreach
  | _ => exact Or.inl h

/-- A directory that is inside and not empty stays inside. -/
theorem Inside.reach_kept (hi : Inside r v) (hdoes : Does a v v₁ evs) (h : v.graph.Reach r x)
    (hx : v.graph.entry x l = some k) : v₁.graph.Reach r x := by
  have hleaf : ¬v.graph.Leaf x := by
    intro hl
    rw [hl l] at hx
    cases hx
  cases hdoes with
  | made pd hp hn hdir hfree ha hlive hk he => exact h.create hfree ⟨hi.root_ne hlive, hk⟩
  | removed pd hp hn he hl =>
    rcases h.remove hl he with rfl | hreach
    · exact absurd hl hleaf
    · exact hreach
  | moved pd pd' hp hp' hn hn' he hd hd' hb hm =>
    rcases hi.reach_moved hp' he hd' hb hm h with hreach | ⟨-, hl⟩
    · exact hreach
    · exact absurd hl hleaf
  | linked d pd hd hp hn hdir hfree ha hk hnamed => exact h.link hfree
  | _ => exact h

/-- A new name is one in a directory that is inside before and after the act. -/
theorem Inside.reach_renamed (hi : Inside r v) (hdoes : Does a v v₁ evs)
    (hx : v₁.graph.entry x l = some k) (hnew : v.graph.entry x l ≠ some k) :
    v.graph.Reach r x ∧ v₁.graph.Reach r x := by
  cases hdoes with
  | made pd hp hn hdir hfree ha hlive hk he =>
    rw [DirGraph.create_entry] at hx
    split_ifs at hx with hhere hfresh
    · obtain ⟨rfl, rfl⟩ := hhere
      have hreach := hi.reach_dir hp hdir ha
      exact ⟨hreach, hreach.create hfree ⟨hi.root_ne hlive, hk⟩⟩
    · exact absurd hx hnew
  | removed pd hp hn he hl => exact absurd (DirGraph.remove_entry_some hx).1 hnew
  | moved pd pd' hp hp' hn hn' he hd hd' hb hm =>
    have hreach := hi.reach_into hp' hd' hm
    obtain rfl := hm.eq_of_new hx hnew
    refine ⟨hreach, (hi.reach_moved hp' he hd' hb hm hreach).resolve_right ?_⟩
    -- a directory that is an entry of its own is not empty
    rintro ⟨hover, hl⟩
    rw [hl] at hover
    cases hover
  | linked d pd hd hp hn hdir hfree ha hk hnamed =>
    rw [DirGraph.bind_entry] at hx
    split_ifs at hx with hhere
    · obtain ⟨rfl, rfl⟩ := hhere
      have hreach := hi.reach_dir hp hdir ha
      exact ⟨hreach, hreach.link hfree⟩
    · exact absurd hx hnew
  | _ => exact absurd hx hnew

/-- A name that is gone was one in a directory that is inside, unless the act made the file anew. -/
theorem Inside.reach_unnamed (hi : Inside r v) (hdoes : Does a v v₁ evs)
    (hx : v.graph.entry x l = some k) (hgone : v₁.graph.entry x l ≠ some k) :
    v.graph.Reach r x ∨ a.Creates x := by
  cases hdoes with
  | @made _ p n k' isDir _ pd hp hn hdir hfree ha hlive hk he =>
    rw [DirGraph.create_entry] at hgone
    split_ifs at hgone with hhere hfresh
    · obtain ⟨rfl, rfl⟩ := hhere
      rw [hfree] at hx
      cases hx
    · exact Or.inr ⟨p, n, isDir, by rw [hfresh]⟩
    · exact absurd hx hgone
  | removed pd hp hn he hl =>
    rw [DirGraph.remove_entry] at hgone
    split_ifs at hgone with hhere
    · obtain ⟨rfl, rfl⟩ := hhere
      exact Or.inl (hi.reach_parent hp hx)
    · exact absurd hx hgone
  | moved pd pd' hp hp' hn hn' he hd hd' hb hm =>
    left
    by_cases hout : x = pd.key
    · rw [hout] at hx ⊢
      exact hi.reach_parent hp hx
    · by_cases hin : x = pd'.key
      · rw [hin] at hx ⊢
        exact hi.reach_parent hp' hx
      · exact absurd ((hm.entry_eq hout hin).trans hx) hgone
  | linked d pd hd hp hn hdir hfree ha hk hnamed =>
    rw [DirGraph.bind_entry] at hgone
    split_ifs at hgone with hhere
    · obtain ⟨rfl, rfl⟩ := hhere
      rw [hfree] at hx
      cases hx
    · exact absurd hx hgone
  | _ => exact absurd hx hgone

/-- What gets a new name was inside, or is made by the act. -/
theorem Inside.reach_target_renamed (hi : Inside r v) (hc : Enclosed r v)
    (hdoes : Does a v v₁ evs) (hx : v₁.graph.entry x l = some k)
    (hnew : v.graph.entry x l ≠ some k) : v.graph.Reach r k ∨ a.Creates k := by
  have hdir := (hi.reach_renamed hdoes hx hnew).2
  exact hi.reach_inv hc hdoes (hdir.step hx)

/-- What an act makes is inside after it. -/
theorem Inside.reach_created (hi : Inside r v) (hdoes : Does a v v₁ evs) (hk : a.Creates k) :
    v₁.graph.Reach r k := by
  obtain ⟨p, n, isDir, rfl⟩ := hk
  cases hdoes with
  | made pd hp hn hdir hfree ha hlive hk he =>
    have hparent : (v.graph.create pd.key n k (if isDir then some pd.key else none)).Reach r pd.key :=
      (hi.reach_dir hp hdir ha).create hfree ⟨hi.root_ne hlive, hk⟩
    have hentry : (v.graph.create pd.key n k (if isDir then some pd.key else none)).entry pd.key n =
        some k := by
      rw [DirGraph.create_entry, if_pos ⟨rfl, rfl⟩]
    exact hparent.step hentry

/-- An act deals with files inside, with the one it makes, or with the one it writes. -/
theorem Inside.reach_subject (ha : a.Proper) (hdoes : Does a v v₁ evs) (hi : Inside r v)
    (hc : Enclosed r v) (hk : k ∈ a.subjects v) :
    v.graph.Reach r k ∨ a.Creates k ∨ a = .written k := by
  cases hdoes with
  | touched pd hp ht he =>
    cases hk
    exact Or.inl (hi.reach_target hp ha ht)
  | duplicated d hd hr he =>
    obtain ⟨d', hd', rfl⟩ := hk
    obtain ⟨dr, hdr, hkey⟩ := hi.root
    rw [hr, hdr] at hd'
    cases hd'
    rw [hkey]
    exact Or.inl (DirGraph.Reach.refl _ _)
  | written =>
    cases hk
    exact Or.inr (Or.inr rfl)
  | seen pd fd st hp ht hkey hroom hreg =>
    cases hk
    exact Or.inl (hi.reach_target hp ha ht)
  | forgot => cases hk
  | @made _ p n k' isDir _ pd hp hn hdir hfree halive hlive hnone he =>
    rcases hk with ⟨d, hd, rfl⟩ | rfl
    · rw [hp] at hd
      cases hd
      exact Or.inl (hi.reach_dir hp hdir halive)
    · exact Or.inr (Or.inl ⟨p, n, isDir, rfl⟩)
  | removed pd hp hn he hl =>
    rcases hk with ⟨d, hd, rfl⟩ | rfl
    · rw [hp] at hd
      cases hd
      exact Or.inl (hi.reach_parent hp he)
    · exact Or.inl (hi.reach_entry hp he)
  | moved pd pd' hp hp' hn hn' he hd hd' hb hm =>
    left
    have hinto := hi.reach_into hp' hd' hm
    rcases hk with ⟨d, hdp, rfl⟩ | ⟨d, hdp, rfl⟩ | rfl | ⟨_, ⟨d, hdp, rfl⟩, hover⟩
    · rw [hp] at hdp
      cases hdp
      exact hi.reach_parent hp he
    · rw [hp'] at hdp
      cases hdp
      exact hinto
    · exact hi.reach_entry hp he
    · rw [hp'] at hdp
      cases hdp
      exact hinto.step hover
  | linked d pd hd hp hn hdir hfree halive hnot hnamed =>
    rcases hk with ⟨d', hd', rfl⟩ | ⟨d', hd', rfl⟩
    · rw [hp] at hd'
      cases hd'
      exact Or.inl (hi.reach_dir hp hdir halive)
    · obtain ⟨x, l, hx⟩ := hnamed
      rw [hd] at hd'
      cases hd'
      exact Or.inl (hc.reach_live hd hx)

/-- The events of an act are of files it deals with, and those of a write are writes. -/
theorem Does.event_subject (hdoes : Does a v v₁ evs) (he : e ∈ evs) :
    e.key ∈ a.subjects v ∧ (a = .written e.key → e.kind = .written) := by
  cases hdoes with
  | touched pd hp ht hev => exact ⟨(hev e he).1, nofun⟩
  | duplicated d hd hr hev => exact ⟨⟨d, hd, (hev e he).1.symm⟩, nofun⟩
  | written =>
    cases List.mem_singleton.mp he
    exact ⟨rfl, fun _ => rfl⟩
  | seen pd fd st hp ht hkey hroom hreg =>
    cases List.mem_singleton.mp he
    exact ⟨rfl, nofun⟩
  | forgot => cases he
  | made pd hp hn hdir hfree halive hlive hnone hev => exact ⟨Or.inr (hev e he).1, nofun⟩
  | removed pd hp hn hentry hl =>
    cases List.mem_singleton.mp he
    exact ⟨Or.inr rfl, nofun⟩
  | moved pd pd' hp hp' hn hn' hentry hd hd' hb hm =>
    refine ⟨?_, nofun⟩
    cases hm with
    | same ht => cases he
    | free ht halive =>
      cases List.mem_singleton.mp he
      exact Or.inr (Or.inr (Or.inl rfl))
    | onto t ht hne hl =>
      rcases List.mem_cons.mp he with rfl | he
      · exact Or.inr (Or.inr (Or.inl rfl))
      · cases List.mem_singleton.mp he
        exact Or.inr (Or.inr (Or.inr ⟨pd'.key, ⟨pd', hp', rfl⟩, ht⟩))
  | linked d pd hd hp hn hdir hfree halive hnot hnamed =>
    cases List.mem_singleton.mp he
    exact ⟨Or.inr ⟨d, hd, rfl⟩, nofun⟩

/-- An inode after an act is of a file the engine knew, or of one that is inside. -/
theorem Inside.known (hb : Base v.store) (ha : a.Proper) (hdoes : Does a v v₁ evs)
    (hi : Inside r v) (hd : v₁.store.byId id = some d) :
    v.graph.Reach r d.key ∨ ∃ id e, v.store.byId id = some e ∧ e.key = d.key := by
  rcases hdoes.live hb hd with ⟨e, he, hk, -⟩ | ⟨p, n, rfl, -⟩ |
    ⟨_, _, _, _, _, _, e, -, he, -, hk, -⟩
  · exact Or.inr ⟨id, e, he, hk⟩
  · cases hdoes with
    | seen pd fd st hp ht hkey hroom hreg => exact Or.inl (hi.reach_target hp ha ht)
  · exact Or.inr ⟨id, e, he, hk⟩

/-- No act lets a file get a name across the border. -/
theorem Enclosed.step (hb : Base v.store) (ha : a.Proper) (hdoes : Does a v v₁ evs)
    (hi : Inside r v) (hc : Enclosed r v) : Enclosed r v₁ := by
  intro k hkr hknown x l hx
  have hbefore : (v.graph.Reach r k ∨ ∃ id d, v.store.byId id = some d ∧ d.key = k) ∨
      a.Creates k := by
    rcases hknown with hreach | ⟨id, d, hd, rfl⟩
    · rcases hi.reach_inv hc hdoes hreach with hreach | hmade
      · exact Or.inl (Or.inl hreach)
      · exact Or.inr hmade
    · exact Or.inl (hi.known hb ha hdoes hd)
  by_cases hold : v.graph.entry x l = some k
  · rcases hbefore with hknown | ⟨p, n, isDir, rfl⟩
    · exact hi.reach_kept hdoes (hc k hkr hknown x l hold) hold
    · -- what was made had no name before
      cases hdoes with
      | made pd hp hn hdir hfree halive hlive hnone he => exact absurd hold (hnone x l)
  · exact (hi.reach_renamed hdoes hx hold).2

end Acts

/-- The file was in the subtree of `r`, or it is new and is there now, in graph `g`. -/
def Admits (r : FileKey) (w : World) (g : DirGraph FileKey Name) (k : FileKey) : Prop :=
  w.host.graph.Reach r k ∨ w.host.inUse k = false ∧ g.Reach r k

def World.OpenAt (w : World) (k : FileKey) : Prop :=
  ∃ i hd, w.handles.handles i = some hd ∧ hd.fd.file = k

/-- What the acts of a call have done to the graph since world `w`. -/
structure Since (r : FileKey) (w : World) (v : View) : Prop where
  reach : ∀ k, v.graph.Reach r k → w.host.graph.Reach r k ∨ w.host.inUse k = false
  dirs : ∀ x l, v.graph.entry x l ≠ w.host.graph.entry x l → Admits r w v.graph x
  names : ∀ x l k, v.graph.entry x l = some k → w.host.graph.entry x l ≠ some k →
    Admits r w v.graph k

/-- What a step may do to a host that shares directory `r`. A node that changes is of a file that
was inside, that is new and inside, or that is open under a handle. Directories whose entries change
and files that get a name are of the first two kinds, and so are new inodes and new handles. -/
structure Contained (r : FileKey) (w w' : World) : Prop where
  nodes : ∀ k, w'.host.node k ≠ w.host.node k → Admits r w w'.host.graph k ∨ w.OpenAt k
  dirs : ∀ x l, w'.host.entry x l ≠ w.host.entry x l → Admits r w w'.host.graph x
  names : ∀ x l k, w'.host.entry x l = some k → w.host.entry x l ≠ some k →
    Admits r w w'.host.graph k
  events : ∃ evs, w'.host.log = w.host.log ++ evs ∧ ∀ e ∈ evs,
    Admits r w w'.host.graph e.key ∨ e.kind = .written ∧ w.OpenAt e.key
  inodes : ∀ id d, w'.inodes.byId id = some d →
    (∃ d₀, w.inodes.byId id = some d₀ ∧ d₀.key = d.key) ∨ Admits r w w'.host.graph d.key
  handles : ∀ i hd, w'.handles.handles i = some hd →
    w.handles.handles i = some hd ∨ Admits r w w'.host.graph hd.fd.file

section Calls
variable {r k : FileKey} {w w' : World} {v v₁ v₂ : View} {a : Act} {evs : List Event}
  {S : Set FileKey} {env : Env} {c : Call} {x : Env × Call} {xs : List (Env × Call)}

theorem Allows.unused (hal : Allows env w c v a) (hk : a.Creates k) : w.host.inUse k = false := by
  obtain ⟨p, n, isDir, rfl⟩ := hk
  exact hal.2.2

theorem Since.start (r : FileKey) (w : World) : Since r w w.view :=
  ⟨fun _ h => Or.inl h, fun _ _ h => absurd rfl h, fun _ _ _ h hne => absurd h hne⟩

theorem Since.of_graph_eq (hs : Since r w v) (hg : v₁.graph = v.graph) : Since r w v₁ := by
  constructor
  · rw [hg]
    exact hs.reach
  · rw [hg]
    exact hs.dirs
  · rw [hg]
    exact hs.names

/-- The first act of a call, the only one that may change the graph. -/
theorem Since.first (hal : Allows env w c w.view a) (hdoes : Does a w.view v₁ evs)
    (hi : Inside r w.view) (hc : Enclosed r w.view) : Since r w v₁ := by
  have hnew : ∀ {k}, a.Creates k → Admits r w v₁.graph k :=
    fun hk => Or.inr ⟨hal.unused hk, hi.reach_created hdoes hk⟩
  refine ⟨fun k h => ?_, fun x l hne => ?_, fun x l k hx hne => ?_⟩
  · rcases hi.reach_inv hc hdoes h with hreach | hmade
    · exact Or.inl hreach
    · exact Or.inr (hal.unused hmade)
  · cases hx : v₁.graph.entry x l with
    | some k =>
      have hchanged : w.view.graph.entry x l ≠ some k := fun h => hne (hx.trans h.symm)
      exact Or.inl (hi.reach_renamed hdoes hx hchanged).1
    | none =>
      cases hold : w.view.graph.entry x l with
      | none => exact absurd (hx.trans hold.symm) hne
      | some k =>
        rcases hi.reach_unnamed hdoes hold (by rw [hx]; nofun) with hreach | hmade
        · exact Or.inl hreach
        · exact hnew hmade
  · rcases hi.reach_target_renamed hc hdoes hx hne with hreach | hmade
    · exact Or.inl hreach
    · exact hnew hmade

theorem Since.step (hal : Allows env w c v a) (hdoes : Does a v v₁ evs) (hi : Inside r v)
    (hc : Enclosed r v) (hs : Since r w v) : Since r w v₁ := by
  have hfirst : v = w.view ∨ v₁.graph = v.graph := by
    cases hdoes with
    | made => exact Or.inl hal.1
    | removed => exact Or.inl hal.1
    | moved => exact Or.inl hal.1
    | linked => exact Or.inl hal.1
    | _ => exact Or.inr rfl
  rcases hfirst with rfl | hg
  · exact Since.first hal hdoes hi hc
  · exact hs.of_graph_eq hg

/-- What is inside on the way is inside at the start or at the end. -/
theorem Since.admits (hs : Since r w v) (hch : Chain (Allows env w c) v v₂ evs S)
    (hk : v.graph.Reach r k) : Admits r w v₂.graph k := by
  rcases hs.reach k hk with hreach | hnew
  · exact Or.inl hreach
  · rcases chain_graph hch with hg | hg
    · rw [hg] at hk
      exact Or.inl hk
    · rw [hg] at hk
      exact Or.inr ⟨hnew, hk⟩

/-- The acts of a confined call deal with files that are inside, new, or open. -/
theorem chain_admits (hn : ∀ q ∈ c.names, Proper q.2) (hch : Chain (Allows env w c) v v₂ evs S)
    (hb : Base v.store) (hi : Inside r v) (hc : Enclosed r v) (hs : Since r w v) :
    Since r w v₂ ∧ (∀ k ∈ S, Admits r w v₂.graph k ∨ w.OpenAt k) ∧
      ∀ e ∈ evs, Admits r w v₂.graph e.key ∨ e.kind = .written ∧ w.OpenAt e.key := by
  induction hch with
  | nil => exact ⟨hs, nofun, nofun⟩
  | @cons v v₁ v₂ a evs₁ evs₂ S hal hdoes hch ih =>
    have ha := hal.proper hn hi
    have hs₁ := hs.step hal hdoes hi hc
    obtain ⟨hend, hrest, hevents⟩ :=
      ih (hdoes.base hb) (hi.step hb ha hdoes) (hc.step hb ha hdoes hi) hs₁
    have hsubject : ∀ k ∈ a.subjects v,
        Admits r w v₂.graph k ∨ a = .written k ∧ w.OpenAt k := by
      intro k hk
      rcases Inside.reach_subject ha hdoes hi hc hk with hreach | hmade | rfl
      · exact Or.inl (hs.admits (Chain.cons hal hdoes hch) hreach)
      · exact Or.inl (hs₁.admits hch (hi.reach_created hdoes hmade))
      · exact Or.inr ⟨rfl, hal⟩
    refine ⟨hend, fun k hk => ?_, fun e he => ?_⟩
    · rcases hk with hk | hk
      · exact (hsubject k hk).imp_right And.right
      · exact hrest k hk
    · rcases List.mem_append.mp he with he | he
      · obtain ⟨hmem, hkind⟩ := hdoes.event_subject he
        exact (hsubject e.key hmem).imp_right fun h => ⟨hkind h.1, h.2⟩
      · exact hevents e he

/-- An inode at the end of a chain was there at its start, or was seen on the way. -/
theorem chain_live {P : View → Act → Prop} (hch : Chain P v v₂ evs S) (hb : Base v.store)
    {id : UInt64} {d : InodeData} (hd : v₂.store.byId id = some d) :
    (∃ d₀, v.store.byId id = some d₀ ∧ d₀.key = d.key) ∨ ⟨.referenced, d.key⟩ ∈ evs := by
  induction hch with
  | nil => exact Or.inl ⟨d, hd, rfl⟩
  | cons ha hdoes hch ih =>
    rcases ih (hdoes.base hb) hd with ⟨d₁, hd₁, hk₁⟩ | hmem
    · rcases hdoes.live hb hd₁ with ⟨e, he, hk, -⟩ | ⟨_, _, -, -, -, -, rfl⟩ |
        ⟨_, _, _, _, _, _, e, -, he, -, hk, -⟩
      · exact Or.inl ⟨e, he, hk.trans hk₁⟩
      · right
        rw [← hk₁]
        exact List.mem_append_left _ List.mem_cons_self
      · exact Or.inl ⟨e, he, hk.trans hk₁⟩
    · exact Or.inr (List.mem_append_right _ hmem)

/-- A confined call from a world that is inside and enclosed is contained. -/
theorem Outcome.contained (hn : ∀ q ∈ c.names, Proper q.2) (hs : Sound w)
    (hi : Inside r w.view) (hc : Enclosed r w.view) (ho : Outcome (Allows env w c) w w' evs) :
    Contained r w w' := by
  obtain ⟨S, hch, halters⟩ := ho.chain
  obtain ⟨hend, hnodes, hevents⟩ := chain_admits hn hch hs.base hi hc (Since.start r w)
  -- an event that is no write is of a file inside
  have hshown : ∀ {kind k}, ⟨kind, k⟩ ∈ evs → kind ≠ .written → Admits r w w'.host.graph k :=
    fun hmem hkind => (hevents _ hmem).resolve_right fun h => hkind h.1
  constructor
  · intro k hk
    by_cases hmem : k ∈ S
    · exact hnodes k hmem
    · exact absurd (halters k hmem) hk
  · exact hend.dirs
  · exact hend.names
  · exact ⟨evs, ho.log, hevents⟩
  · intro id d hd
    rcases chain_live hch hs.base hd with hold | hmem
    · exact Or.inl hold
    · exact Or.inr (hshown hmem nofun)
  · intro i hd hi
    rcases ho.handles i hd hi with hold | hmem
    · exact Or.inl hold
    · exact Or.inr (hshown hmem nofun)

/-- No file below the shared directory has a second name outside of it. -/
def Host.Bordered (h : Host) (r : FileKey) : Prop :=
  ∀ k, h.graph.Reach r k → k ≠ r → ∀ x l, h.graph.entry x l = some k → h.graph.Reach r x

theorem Enclosed.start {host : Host} {root : FileKey} (hborder : host.Bordered root)
    (hnew : PassthroughFs.new host root = some w) : Enclosed root w.view := by
  obtain ⟨-, hgraph, -, -, ⟨fd, -, -, honly⟩, -, -⟩ := new_cases hnew
  intro k hkr hknown x l hx
  rw [World.view_graph, hgraph] at hknown hx ⊢
  rcases hknown with hreach | ⟨id, d, hd, rfl⟩
  · exact hborder k hreach hkr x l hx
  · exact absurd (honly id d hd).2.2.1 hkr

/-- Runs of confined calls stay inside and enclosed. -/
theorem run_enclosed (hs : Sound w) (hb : w.inodes.Bounded 0) (hi : Inside r w.view)
    (hc : Enclosed r w.view) (hn : xs.length + 3 < 2 ^ 64) (hx : Along World.step Confined w xs) :
    ∃ w', run World.step w xs = some w' ∧ Sound w' ∧ w'.inodes.Bounded xs.length ∧
      Inside r w'.view ∧ Enclosed r w'.view := by
  refine run_keeps (J := fun v => Inside r v ∧ Enclosed r v) (fun _ _ h => h.tame) ?_ hs hb
    ⟨hi, hc⟩ hn hx
  intro w x v v₁ a evs hconf hal hbase hdoes hv
  have ha := hal.proper hconf.1 hv.1
  exact ⟨hv.1.step hbase ha hdoes, hv.2.step hbase ha hdoes hv.1⟩

end Calls

end Riftlessfs.Core
