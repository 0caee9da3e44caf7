import Riftlessfs.Core.CallRuns

/-! Containment: calls that take plain names only and follow no link act inside the
subtree of the shared directory. -/
namespace Riftlessfs.Core
open Lib InodeStore

/-- A name that is one path component other than `.` and `..`. -/
def Proper (n : Name) : Prop := slash ∉ n ∧ n ≠ dot ∧ n ≠ dotdot

instance (n : Name) : Decidable (Proper n) :=
  inferInstanceAs (Decidable (slash ∉ n ∧ n ≠ dot ∧ n ≠ dotdot))

/-- The condition on a step under which the engine stays in the shared directory. -/
def Confined (w : World) (x : Env × Call) : Prop :=
  (∀ q ∈ x.2.names, Proper q.2) ∧ x.2.NoFollow w

instance (w : World) (x : Env × Call) : Decidable (Confined w x) :=
  inferInstanceAs (Decidable ((∀ q ∈ x.2.names, Proper q.2) ∧ x.2.NoFollow w))

theorem Confined.tame {w : World} {x : Env × Call} (h : Confined w x) : Tame w x :=
  ⟨fun q hq => (h.1 q hq).1, h.2⟩

/-- Every directory the table knows is in the subtree of `r` or was removed from it, and
every tracked name is proper. -/
structure Inside (r : FileKey) (v : View) : Prop where
  wf : v.graph.WF
  root : ∃ d, v.store.byId ROOT_ID = some d ∧ d.key = r
  names : ∀ id d, v.store.byId id = some d → Proper d.name
  dirs : ∀ id d, v.store.byId id = some d → v.graph.IsDir d.key →
    v.graph.Reach r d.key ∨ v.graph.dead d.key = true

/-- The names an act takes from its call are proper. -/
def Act.Proper : Act → Prop
  | .touched _ n _ | .seen _ n _ => Core.Proper n
  | _ => True

section Inside
variable {r k x : FileKey} {v v₁ : View} {a : Act} {evs : List Event} {p : UInt64} {n : Name}
  {pd : InodeData}

theorem plain_of_target {g : DirGraph FileKey Name} {base : FileKey} (hn : Proper n)
    (ht : target g base n = some k) : Plain n := by
  refine ⟨?_, hn⟩
  rintro rfl
  unfold target at ht
  split at ht <;> cases ht

theorem Inside.reach_dir (hi : Inside r v) (hp : v.store.byId p = some pd)
    (hd : v.graph.IsDir pd.key) (ha : v.graph.dead pd.key = false) : v.graph.Reach r pd.key := by
  rcases hi.dirs p pd hp hd with hr | hdead
  · exact hr
  · rw [ha] at hdead
    cases hdead

/-- What an entry of a known directory names is in the subtree. -/
theorem Inside.reach_parent (hi : Inside r v) (hp : v.store.byId p = some pd)
    (he : v.graph.entry pd.key n = some k) : v.graph.Reach r pd.key :=
  hi.reach_dir hp (hi.wf.dirs he) (hi.wf.alive he)

theorem Inside.reach_entry (hi : Inside r v) (hp : v.store.byId p = some pd)
    (he : v.graph.entry pd.key n = some k) : v.graph.Reach r k :=
  (hi.reach_parent hp he).step he

theorem Inside.reach_target (hi : Inside r v) (hp : v.store.byId p = some pd) (hn : Proper n)
    (ht : target v.graph pd.key n = some k) : v.graph.Reach r k :=
  hi.reach_entry hp (entry_of_target (plain_of_target hn ht) ht)

theorem Inside.root_ne (hi : Inside r v)
    (hlive : ∀ id d, v.store.byId id = some d → d.key ≠ k) : k ≠ r := by
  obtain ⟨d, hd, rfl⟩ := hi.root
  exact (hlive ROOT_ID d hd).symm

/-- A move goes to a directory that does not lie below what is moved. -/
theorem Inside.avoids (hi : Inside r v) {m : FileKey} {pd' : InodeData}
    (hr : v.graph.Reach r pd'.key) (hd : v.graph.IsDir pd'.key)
    (hb : v.graph.IsDir m → ∃ fuel, v.graph.below m fuel pd'.key = false) :
    v.graph.Avoids m r pd'.key := by
  by_cases hm : v.graph.IsDir m
  · obtain ⟨fuel, hf⟩ := hb hm
    exact hi.wf.avoids_of_below hr hd hf
  · refine DirGraph.avoids_of_leaf (hi.wf.leaf_of_not_dir hm) ?_ hr
    rintro rfl
    exact hm hd

/-- What is inside stays inside when a file is moved, except for what the move overwrites. -/
theorem Inside.reach_moved (hi : Inside r v) {p' : UInt64} {n' : Name} {m : FileKey}
    {pd' : InodeData} {g : DirGraph FileKey Name} (hp' : v.store.byId p' = some pd')
    (he : v.graph.entry pd.key n = some m) (hd' : v.graph.IsDir pd'.key)
    (hb : v.graph.IsDir m → ∃ fuel, v.graph.below m fuel pd'.key = false)
    (hm : Moves v.graph pd.key n pd'.key n' m g evs) (hx : v.graph.Reach r x) :
    g.Reach r x ∨ v.graph.entry pd'.key n' = some x ∧ v.graph.Leaf x := by
  cases hm with
  | same ht => exact Or.inl hx
  | free ht ha =>
    have hr := hi.reach_dir hp' hd' ha
    have ho : v.graph.Overwrites pd'.key n' := by
      intro t ht'
      rw [ht] at ht'
      cases ht'
    rcases hx.move ho he (hi.avoids hr hd' hb) with hbad | hreach
    · rw [ht] at hbad
      cases hbad
    · exact Or.inl hreach
  | onto t ht hne hl =>
    have hr := hi.reach_dir hp' hd' (hi.wf.alive ht)
    have ho : v.graph.Overwrites pd'.key n' := by
      intro t' ht'
      rw [ht] at ht'
      cases ht'
      exact hl
    rcases hx.move ho he (hi.avoids hr hd' hb) with hover | hreach
    · exact Or.inr ⟨hover, ho x hover⟩
    · exact Or.inl hreach

theorem Inside.moves (hi : Inside r v) {p' : UInt64} {n' : Name} {m : FileKey} {pd' : InodeData}
    {g : DirGraph FileKey Name} (hp' : v.store.byId p' = some pd')
    (he : v.graph.entry pd.key n = some m) (hd' : v.graph.IsDir pd'.key)
    (hb : v.graph.IsDir m → ∃ fuel, v.graph.below m fuel pd'.key = false)
    (hm : Moves v.graph pd.key n pd'.key n' m g evs) :
    g.WF ∧ ∀ x, g.IsDir x → (v.graph.IsDir x → v.graph.Reach r x ∨ v.graph.dead x = true) →
      g.Reach r x ∨ g.dead x = true := by
  have hmoved : ∀ {x}, v.graph.Reach r x → _ := fun hx => hi.reach_moved hp' he hd' hb hm hx
  cases hm with
  | same ht => exact ⟨hi.wf, fun x hx h => h hx⟩
  | free ht ha =>
    refine ⟨hi.wf.move he hd' ha, fun x hx h => ?_⟩
    rcases h (DirGraph.move_isDir.mp hx) with hreach | hdead
    · rcases hmoved hreach with hreach' | ⟨hbad, -⟩
      · exact Or.inl hreach'
      · rw [ht] at hbad
        cases hbad
    · exact Or.inr hdead
  | onto t ht hne hl =>
    have ha := hi.wf.alive ht
    have hleaf : (v.graph.move pd.key n pd'.key n' m).Leaf t := by
      intro l
      have htd : t ≠ pd'.key := by
        rintro rfl
        rw [hl n'] at ht
        cases ht
      rw [DirGraph.move_entry, if_neg (fun hc => htd hc.1), hl l]
      exact ite_self none
    refine ⟨(hi.wf.move he hd' ha).kill hleaf, fun x hx h => ?_⟩
    have hdir : v.graph.IsDir x := DirGraph.move_isDir.mp hx
    by_cases hxt : x = t
    · right
      subst hxt
      have hsome : ((v.graph.move pd.key n pd'.key n' m).up x).isSome := hx
      exact if_pos ⟨rfl, hsome⟩
    · rcases h hdir with hreach | hdead
      · rcases hmoved hreach with hreach' | ⟨hbad, -⟩
        · exact Or.inl hreach'
        · rw [ht] at hbad
          exact absurd (Option.some.inj hbad).symm hxt
      · right
        show (if _ then true else v.graph.dead x) = true
        rw [hdead, ite_self]

/-- The graph after an act: well formed, and known directories are still inside or dead. -/
theorem Inside.graph (hi : Inside r v) (hdoes : Does a v v₁ evs) :
    v₁.graph.WF ∧ ∀ id d, v.store.byId id = some d → v₁.graph.IsDir d.key →
      v₁.graph.Reach r d.key ∨ v₁.graph.dead d.key = true := by
  cases hdoes with
  | touched => exact ⟨hi.wf, hi.dirs⟩
  | duplicated => exact ⟨hi.wf, hi.dirs⟩
  | written => exact ⟨hi.wf, hi.dirs⟩
  | seen => exact ⟨hi.wf, hi.dirs⟩
  | forgot => exact ⟨hi.wf, hi.dirs⟩
  | @made _ p n k isDir _ pd hp hn hdir hfree ha hlive hk he =>
    have hup : ∀ q, (if isDir then some pd.key else none) = some q → q = pd.key := by
      intro q hq
      split_ifs at hq
      exact (Option.some.inj hq).symm
    refine ⟨hi.wf.create hdir ha (hlive p pd hp) hk hup, fun id d hd hdir' => ?_⟩
    have hne := hlive id d hd
    have hdir'' : v.graph.IsDir d.key := by
      unfold DirGraph.IsDir at hdir'
      rwa [DirGraph.create_up, if_neg hne] at hdir'
    rcases hi.dirs id d hd hdir'' with hreach | hdead
    · exact Or.inl (hreach.create hfree ⟨hi.root_ne hlive, hk⟩)
    · right
      rw [DirGraph.create_dead, if_neg hne, hdead]
  | @removed _ p n k pd hp hn he hl =>
    refine ⟨hi.wf.remove hl, fun id d hd hdir => ?_⟩
    by_cases hk : d.key = k
    · right
      have hsome : (v.graph.up k).isSome := hk ▸ hdir
      rw [DirGraph.remove_dead, if_pos ⟨hk, hsome⟩]
    · rcases hi.dirs id d hd hdir with hreach | hdead
      · rcases hreach.remove hl he with hbad | hreach'
        · exact absurd hbad hk
        · exact Or.inl hreach'
      · right
        rw [DirGraph.remove_dead, hdead, ite_self]
  | moved pd pd' hp hp' hn hn' he hdir hd' hbelow hm =>
    obtain ⟨hw, hkeep⟩ := hi.moves hp' he hd' hbelow hm
    exact ⟨hw, fun id d hd hdir' => hkeep d.key hdir' (hi.dirs id d hd)⟩
  | linked d pd hd hp hn hdir hfree ha hk =>
    refine ⟨hi.wf.link hdir ha hk, fun id e he hdir' => ?_⟩
    rcases hi.dirs id e he hdir' with hreach | hdead
    · exact Or.inl (hreach.link hfree)
    · exact Or.inr hdead

theorem Inside.step (hb : Base v.store) (ha : a.Proper) (hdoes : Does a v v₁ evs)
    (hi : Inside r v) : Inside r v₁ := by
  obtain ⟨hw, hdirs⟩ := hi.graph hdoes
  refine ⟨hw, ?_, fun id d hd => ?_, fun id d hd hdir => ?_⟩
  · obtain ⟨d, hd⟩ := Option.isSome_iff_exists.mp (hdoes.base hb).inv.root
    refine ⟨d, hd, ?_⟩
    obtain ⟨d₀, hd₀, hr⟩ := hi.root
    rcases hdoes.live hb hd with ⟨e, he, hk, -⟩ | ⟨p, n, -, -, -, hk, -⟩ |
      ⟨_, _, _, _, _, _, e, -, he, -, hk, -⟩
    · rw [hd₀] at he
      cases he
      rw [← hk, hr]
    · rw [← hk d₀ hd₀, hr]
    · rw [hd₀] at he
      cases he
      rw [← hk, hr]
  · rcases hdoes.live hb hd with ⟨e, he, -, -, hname⟩ | ⟨p, n, rfl, -, hname, -, -⟩ |
      ⟨_, _, _, _, n', _, e, -, -, -, -, -, -, -, hname, hn'⟩
    · rw [hname]
      exact hi.names id e he
    · rw [hname]
      exact ha
    · rw [hname]
      exact hn'.2
  · rcases hdoes.live hb hd with ⟨e, he, hk, -⟩ | ⟨p, n, rfl, -, hname, -, -⟩ |
      ⟨_, _, _, _, _, _, e, -, he, -, hk, -⟩
    · rw [← hk] at hdir ⊢
      exact hdirs id e he hdir
    · cases hdoes with
      | seen pd fd st hp ht hk hr hreg => exact Or.inl (hi.reach_target hp ha ht)
    · rw [← hk] at hdir ⊢
      exact hdirs id e he hdir

end Inside

section Step
variable {r : FileKey} {w : World} {v v₂ : View} {a : Act} {evs : List Event} {S : Set FileKey}
  {env : Env} {c : Call}

/-- The acts of a confined call are proper. -/
theorem Allows.proper (hc : ∀ q ∈ c.names, Proper q.2) (hal : Allows env w c v a)
    (hi : Inside r v) : a.Proper := by
  cases a with
  | touched p n k =>
    rcases hal with ⟨id, d, hd, -, rfl⟩ | hmem
    · exact hi.names id d hd
    · exact hc (p, n) hmem
  | seen p n k => exact hc (p, n) hal
  | _ => trivial

/-- Acts that change the graph come first. -/
theorem chain_graph (hch : Chain (Allows env w c) v v₂ evs S) :
    v.graph = w.host.graph ∨ v.graph = v₂.graph := by
  induction hch with
  | nil => exact Or.inr rfl
  | cons hal hdoes hch ih =>
    cases hdoes with
    | made => exact Or.inl (congrArg View.graph hal.1)
    | removed => exact Or.inl (congrArg View.graph hal.1)
    | moved => exact Or.inl (congrArg View.graph hal.1)
    | linked => exact Or.inl (congrArg View.graph hal.1)
    | _ => exact ih

/-- A fresh engine is inside. -/
theorem Inside.start {host : Host} {root : FileKey} (hwf : host.graph.WF)
    (hnew : PassthroughFs.new host root = some w) : Inside root w.view := by
  obtain ⟨-, hgraph, -, -, ⟨fd, -, -, honly⟩, hinv, -⟩ := new_cases hnew
  refine ⟨?_, ?_, fun id d hd => ?_, fun id d hd _ => ?_⟩
  · rw [World.view_graph, hgraph]
    exact hwf
  · obtain ⟨d, hd⟩ := Option.isSome_iff_exists.mp hinv.root
    exact ⟨d, hd, (honly ROOT_ID d hd).2.2.1⟩
  · rw [(honly id d hd).2.2.2.2]
    decide
  · rw [(honly id d hd).2.2.1]
    exact Or.inl (DirGraph.Reach.refl _ _)

end Step

end Riftlessfs.Core
