import Riftlessfs.Core.Containment

/-! Tracked locations stay valid: under what calls every inode whose file has a name in
the share keeps a location that leads to it. -/
namespace Riftlessfs.Core
open Lib InodeStore

def OnlyName (g : DirGraph FileKey Name) (r x : FileKey) (n : Name) (k : FileKey) : Prop :=
  ∀ y m, g.Reach r y → g.entry y m = some k → y = x ∧ m = n

/-- If the inode of the file at `n` in `p` was last seen there, the file has no other name
in the share. -/
def Sole (r : FileKey) (v : View) (p : UInt64) (n : Name) (k : FileKey) : Prop :=
  ∀ d ∈ v.store.live, d.key = k → d.parent = some p → d.name = n →
    ∀ pd, v.store.byId p = some pd → OnlyName v.graph r pd.key n k

/-- If the forget evicts its inode, no inode of a file named in the share was last seen
in it. -/
def Spares (r : FileKey) (g : DirGraph FileKey Name) (s : InodeStore) (e : UInt64 × UInt64) :
    Prop :=
  (s.forget e.1 e.2).1.byId e.1 = none →
    ∀ d ∈ s.live, d.parent = some e.1 → ¬ g.Named r d.key

/-- The order meets every live inode, as an iteration over the whole hash map does. -/
def Covers (s : InodeStore) (order : List UInt64) : Prop := ∀ d ∈ s.live, d.id ∈ order

instance (s : InodeStore) (order : List UInt64) : Decidable (Covers s order) :=
  inferInstanceAs (Decidable (∀ d ∈ s.live, d.id ∈ order))

/-- The call takes the tracked name from no inode of a file that keeps a name in the
share. -/
def Call.KeepsNames (r : FileKey) (env : Env) (w : World) : Call → Prop
  | .unlink p n | .rmdir p n => ∀ k, w.view.resolve p n = some k → Sole r w.view p n k
  | .rename p n p' n' => ∀ m, w.view.resolve p n = some m →
      Covers w.inodes env.order ∧ SeenAs w.inodes p n (some m) ∧
      ∀ t, w.view.resolve p' n' = some t → t ≠ m → Sole r w.view p' n' t
  | .forget entries =>
    Lib.Run.Along (fun s e => some (s.forget e.1 e.2).1) (Spares r w.host.graph) w.inodes entries
  | .link ino p n => w.view.resolve p n = none →
      ∀ d, w.inodes.byId ino = some d → w.host.graph.Named r d.key
  | _ => True

/-- The condition of `Call.KeepsNames` on single acts. -/
def Act.KeepsNames (r : FileKey) (v : View) : Act → Prop
  | .forgot id count => Spares r v.graph v.store (id, count)
  | .removed p n k => Sole r v p n k
  | .moved order p n p' n' m => Covers v.store order ∧ SeenAs v.store p n (some m) ∧
      ∀ t pd', v.store.byId p' = some pd' → v.graph.entry pd'.key n' = some t → t ≠ m →
        Sole r v p' n' t
  | .linked id _ _ => ∀ d, v.store.byId id = some d → v.graph.Named r d.key
  | _ => True

/-- Every inode of a file named in the share was last seen under a name of that file, in
a live directory. -/
def Valid (r : FileKey) (v : View) : Prop :=
  ∀ id d, v.store.byId id = some d → id ≠ ROOT_ID → v.graph.Named r d.key →
    Plain d.name ∧ ∃ p pd, d.parent = some p ∧ v.store.byId p = some pd ∧
      v.graph.entry pd.key d.name = some d.key

section Keep
variable {r k : FileKey} {v v₁ : View} {a : Act} {evs : List Event} {p id : UInt64} {n : Name}
  {d pd : InodeData} {s : InodeStore}

/-- Ids stay live through every act but a forget. -/
theorem Does.keeps_live (hdoes : Does a v v₁ evs) (hb : Base v.store)
    (ha : ∀ i c, a ≠ .forgot i c) (hp : v.store.byId p = some pd) :
    ∃ pd', v₁.store.byId p = some pd' ∧ pd'.key = pd.key := by
  have hset : ∀ {id₀ d₀ d₁}, v.store.byId id₀ = some d₀ → d₁.key = d₀.key →
      ∃ pd', (v.store.setData id₀ d₁).byId p = some pd' ∧ pd'.key = pd.key := by
    intro id₀ d₀ d₁ hd₀ hk
    rw [setData_byId]
    split_ifs with h
    · subst h
      rw [hp] at hd₀
      cases hd₀
      exact ⟨d₁, rfl, hk⟩
    · exact ⟨pd, hp, rfl⟩
  cases hdoes with
  | seen pd₀ fd st hp₀ ht hk hr hreg =>
    rcases hb.register_cases hreg with ⟨id₀, d₀, hd₀, -, rfl, -⟩ | ⟨-, rfl, -⟩
    · exact hset hd₀ rfl
    · refine ⟨pd, ?_, rfl⟩
      rw [addFresh_byId, if_neg]
      · exact hp
      · rintro rfl
        rw [hb.inv.nextId_free] at hp
        cases hp
  | forgot => exact absurd rfl (ha _ _)
  | @moved _ order q m q' m' _ _ _ _ _ _ _ _ _ _ _ _ _ _ =>
    rcases noteRename_cases v.store order q m q' m' with ⟨-, h⟩ | ⟨id₀, d₀, -, hd₀, -, -, h⟩
    · rw [h]
      exact ⟨pd, hp, rfl⟩
    · rw [h]
      exact hset hd₀ rfl
  | _ => exact ⟨pd, hp, rfl⟩

/-- A forget leaves an id live, or evicts just that id. -/
theorem forget_live (id count : UInt64) (hp : s.byId p = some pd) :
    (∃ pd', (s.forget id count).1.byId p = some pd' ∧ pd'.key = pd.key) ∨
      (p = id ∧ (s.forget id count).1.byId id = none) := by
  rcases forget_cases s id count with ⟨-, hf⟩ | ⟨e, -, he, -, hf⟩ | ⟨e, -, he, -, hf⟩
  · rw [hf]
    exact Or.inl ⟨pd, hp, rfl⟩
  · left
    rw [hf, setData_byId]
    split_ifs with h
    · subst h
      rw [hp] at he
      cases he
      exact ⟨_, rfl, rfl⟩
    · exact ⟨pd, hp, rfl⟩
  · by_cases h : p = id
    · right
      refine ⟨h, ?_⟩
      rw [hf, evict_byId, if_pos rfl]
    · left
      rw [hf, evict_byId, if_neg h]
      exact ⟨pd, hp, rfl⟩

/-- Validity carries over when every name that a kept inode was last seen under stays. -/
theorem Valid.of_keeps (hv : Valid r v) (hb : Base v.store) (hdoes : Does a v v₁ evs)
    (ha : ∀ i c, a ≠ .forgot i c)
    (hnamed : ∀ {id d}, v.store.byId id = some d → v₁.graph.Named r d.key →
      v.graph.Named r d.key)
    (hentry : ∀ {id d d' p pd}, v.store.byId id = some d → v₁.store.byId id = some d' →
      v₁.graph.Named r d.key → d'.parent = d.parent → d'.name = d.name → d'.key = d.key →
      d.parent = some p → v.store.byId p = some pd → v.graph.entry pd.key d.name = some d.key →
      v₁.graph.entry pd.key d.name = some d.key)
    (hnew : ∀ {id d}, v₁.store.byId id = some d →
      (∀ e, v.store.byId id = some e → ¬ (d.parent = e.parent ∧ d.name = e.name)) →
      Plain d.name ∧ ∃ p pd, d.parent = some p ∧ v₁.store.byId p = some pd ∧
        v₁.graph.entry pd.key d.name = some d.key) : Valid r v₁ := by
  intro id d hd hroot hname
  by_cases hsame : ∃ e, v.store.byId id = some e ∧ d.parent = e.parent ∧ d.name = e.name
  · obtain ⟨e, he, hpar, hnm⟩ := hsame
    have hkey : e.key = d.key := by
      rcases hdoes.live hb hd with ⟨e', he', hk, -⟩ | ⟨_, _, -, -, -, hk, -⟩ |
        ⟨_, _, _, _, _, _, e', -, he', -, hk, -⟩
      · rw [he] at he'
        cases he'
        exact hk
      · exact hk e he
      · rw [he] at he'
        cases he'
        exact hk
    rw [← hkey] at hname
    have hbefore := hnamed he hname
    obtain ⟨hplain, p, pd, hp, hpd, hent⟩ := hv id e he hroot hbefore
    obtain ⟨pd', hpd', hpk⟩ := hdoes.keeps_live hb ha hpd
    refine ⟨hnm ▸ hplain, p, pd', hpar.trans hp, hpd', ?_⟩
    rw [hpk, hnm, ← hkey]
    exact hentry he hd hname hpar hnm hkey.symm hp hpd hent
  · exact hnew hd fun e he hc => hsame ⟨e, he, hc⟩

/-- The same, for an act that leaves the table alone. -/
theorem Valid.of_graph {g : DirGraph FileKey Name} (hv : Valid r v)
    (hnamed : ∀ {id d}, v.store.byId id = some d → g.Named r d.key → v.graph.Named r d.key)
    (hentry : ∀ {id d p pd}, v.store.byId id = some d → g.Named r d.key → d.parent = some p →
      v.store.byId p = some pd → v.graph.entry pd.key d.name = some d.key →
      g.entry pd.key d.name = some d.key) : Valid r ⟨v.store, g⟩ := by
  intro id d hd hroot hname
  obtain ⟨hplain, p, pd, hp, hpd, hent⟩ := hv id d hd hroot (hnamed hd hname)
  exact ⟨hplain, p, pd, hp, hpd, hentry hd hname hp hpd hent⟩

theorem Valid.forgot {id count : UInt64} (hv : Valid r v) (hb : Base v.store)
    (hk : Spares r v.graph v.store (id, count)) :
    Valid r ⟨(v.store.forget id count).1, v.graph⟩ := by
  intro id' d hd hroot hname
  obtain ⟨d₀, hd₀, hpar, hnm, hkey, -⟩ := forget_byId hd
  rw [hkey] at hname
  obtain ⟨hplain, p, pd, hp, hpd, hent⟩ := hv id' d₀ hd₀ hroot hname
  rcases forget_live id count hpd with ⟨pd', hpd', hpk⟩ | ⟨rfl, hgone⟩
  · refine ⟨hnm ▸ hplain, p, pd', hpar.trans hp, hpd', ?_⟩
    rw [hpk, hnm, hkey]
    exact hent
  · exact absurd hname (hk hgone d₀ (hb.inv.mem_live hd₀) hp)

/-- A rename moves the inode last seen under the old name, when all such inodes are of
one file. -/
theorem noteRename_mover {order : List UInt64} (p' : UInt64) (n' : Name) (hb : Base s)
    (hc : Covers s order) (hseen : SeenAs s p n (some k)) (hd : s.byId id = some d)
    (hp : d.parent = some p) (hn : d.name = n) :
    (s.noteRename order p n p' n').byId id = some (d.setLocation p' n') := by
  rcases noteRename_cases s order p n p' n' with ⟨hf, -⟩ | ⟨id₀, d₀, -, hd₀, hp₀, hn₀, h⟩
  · have hmem : id ∈ order := hb.inv.ids id d hd ▸ hc d (hb.inv.mem_live hd)
    have hno := List.find?_eq_none.mp hf id hmem
    exact absurd (locatedAt_iff.mpr ⟨d, hd, hp, hn⟩) hno
  · have hkey : d₀.key = d.key := by
      have h₀ := hseen d₀ (hb.inv.mem_live hd₀) hp₀ hn₀
      have h₁ := hseen d (hb.inv.mem_live hd) hp hn
      rw [← h₁, Option.some.injEq] at h₀
      exact h₀
    have hid := hb.inv.key_inj hd₀ hd hkey
    subst hid
    rw [hd] at hd₀
    cases hd₀
    rw [h, setData_byId, if_pos rfl]

/-- A removal that leaves the file a name was not of the tracked one. -/
theorem Sole.remove_entry {pd₀ : InodeData} (hsole : Sole r v p n k) (hb : Base v.store)
    (hp : v.store.byId p = some pd₀) (he : v.graph.entry pd₀.key n = some k)
    {q : UInt64} (hd : v.store.byId id = some d) (hq : d.parent = some q)
    (hpd : v.store.byId q = some pd) (hent : v.graph.entry pd.key d.name = some d.key)
    (hother : ∃ y l, v.graph.Reach r y ∧ v.graph.entry y l = some d.key ∧
      ¬ (y = pd₀.key ∧ l = n)) : ¬ (pd.key = pd₀.key ∧ d.name = n) := by
  rintro ⟨hk, hn⟩
  have hid := hb.inv.key_inj hpd hp hk
  subst hid
  rw [hp] at hpd
  cases hpd
  rw [hn, he] at hent
  obtain ⟨y, l, hy, hyl, hne⟩ := hother
  rw [← Option.some.inj hent] at hyl
  exact hne (hsole d (hb.inv.mem_live hd) (Option.some.inj hent).symm hq hn _ hp y l hy hyl)

theorem Valid.moved {order : List UInt64} {p' : UInt64} {n' : Name} {m : FileKey}
    (hv : Valid r v) (hb : Base v.store) (hi : Inside r v)
    (hk : Act.KeepsNames r v (.moved order p n p' n' m))
    (hdoes : Does (.moved order p n p' n' m) v v₁ evs) : Valid r v₁ := by
  obtain ⟨hcov, hseen, hsole⟩ := hk
  have hdo := hdoes
  cases hdoes with
  | @moved _ _ _ _ _ _ _ g _ pd pd' hp hp' hn hn' he hd hd' hbelow hm =>
    have hreach := hi.reach_parent hp he
    have hdst : g.entry pd'.key n' = some m := by
      cases hm with
      | same ht => exact ht
      | free ht ha => rw [DirGraph.move_entry, if_pos ⟨rfl, rfl⟩]
      | onto t ht hne hl =>
        show (v.graph.move pd.key n pd'.key n' m).entry pd'.key n' = some m
        rw [DirGraph.move_entry, if_pos ⟨rfl, rfl⟩]
    have hnamed : ∀ {x}, g.Named r x → v.graph.Named r x := by
      intro x hx
      cases hm with
      | same => exact hx
      | free => exact DirGraph.named_move_inv hreach he hx
      | onto t ht hne hl => exact DirGraph.named_move_inv hreach he hx
    refine hv.of_keeps hb hdo (by simp) (fun _ => hnamed) ?_ ?_
    · intro id e e' q qd hide hide' hname hpar hnm hkey hq hqd hent
      by_cases hat : qd.key = pd'.key ∧ e.name = n'
      · rw [hat.1, hat.2, hdst]
        cases hm with
        | same ht =>
          rw [hat.1, hat.2, ht] at hent
          exact hent
        | free ht ha =>
          rw [hat.1, hat.2, ht] at hent
          cases hent
        | onto t ht hne hl =>
          have het : e.key = t := by
            rw [hat.1, hat.2, ht] at hent
            exact (Option.some.inj hent).symm
          obtain ⟨y, l, hy, hz⟩ := hname
          rcases DirGraph.move_entry_some hz with ⟨-, -, hm⟩ | ⟨hyl, -, hz⟩
          · exact absurd (het ▸ hm) hne
          · have hother := (hsole t pd' hp' ht hne).remove_entry hb hp' ht hide hq hqd hent
              ⟨y, l, DirGraph.reach_move_inv hreach he hy, hz, hyl⟩
            exact absurd hat hother
      · by_cases hsrc : qd.key = pd.key ∧ e.name = n
        · have hqp : q = p := hb.inv.key_inj hqd hp hsrc.1
          subst hqp
          have hmoved := noteRename_mover p' n' hb hcov hseen hide hq hsrc.2
          rw [hmoved, Option.some.injEq] at hide'
          rw [← hide', hq] at hpar
          rw [← hide'] at hnm
          have hpq : p' = q := Option.some.inj hpar
          subst hpq
          rw [hp'] at hqd
          cases hqd
          exact absurd ⟨rfl, hnm.symm⟩ hat
        · cases hm with
          | same ht => exact hent
          | free ht ha => rw [DirGraph.move_entry, if_neg hat, if_neg hsrc, hent]
          | onto t ht hne hl =>
            show (v.graph.move pd.key n pd'.key n' m).entry qd.key e.name = some e.key
            rw [DirGraph.move_entry, if_neg hat, if_neg hsrc, hent]
    · intro id d hlive hdiff
      rcases hdo.live hb hlive with ⟨e, hide, -, hpar, hnm⟩ | ⟨_, _, hact, -⟩ |
        ⟨_, _, _, _, _, _, e, hact, hide, -, hkey, hpar, hnm, hpar', hnm', -⟩
      · exact absurd ⟨hpar, hnm⟩ (hdiff e hide)
      · cases hact
      · cases hact
        have hm' := hseen e (hb.inv.mem_live hide) hpar hnm
        obtain ⟨pd₁, hpd₁, hk₁⟩ := hdo.keeps_live hb (by simp) hp'
        refine ⟨hnm' ▸ hn', p', pd₁, hpar', hpd₁, ?_⟩
        rw [hk₁, hnm', ← hkey, hm', hdst]

/-- Every act that keeps names keeps the tracked locations valid. -/
theorem Valid.step (hb : Base v.store) (hi : Inside r v) (hp : a.Proper)
    (hk : a.KeepsNames r v) (hdoes : Does a v v₁ evs) (hv : Valid r v) : Valid r v₁ := by
  cases hdoes with
  | touched => exact hv
  | duplicated => exact hv
  | written => exact hv
  | @seen _ p n k _ s _ pd fd st hpd ht hkey hr hreg =>
    have hdo : Does (.seen p n k) v ⟨s, v.graph⟩ _ := .seen pd fd st hpd ht hkey hr hreg
    refine hv.of_keeps hb hdo (by simp) (fun _ h => h) (fun _ _ _ _ _ _ _ _ hent => hent) ?_
    intro id d hd hdiff
    rcases hdo.live hb hd with ⟨e, he, -, hpar, hname⟩ | ⟨_, _, ha, hpar, hname, -⟩ |
      ⟨_, _, _, _, _, _, _, ha, -⟩
    · exact absurd ⟨hpar, hname⟩ (hdiff e he)
    · cases ha
      obtain ⟨pd₁, hpd₁, hk₁⟩ := hdo.keeps_live hb (by simp) hpd
      have hplain := plain_of_target hp ht
      refine ⟨hname ▸ hplain, p, pd₁, hpar, hpd₁, ?_⟩
      rw [hk₁, hname]
      exact entry_of_target hplain ht
    · cases ha
  | forgot => exact hv.forgot hb hk
  | @made _ p n k isDir _ pd hpd hn hd hfree ha hlive hnew he =>
    refine hv.of_graph (fun hid hname => DirGraph.named_create_inv hname (hlive _ _ hid)) ?_
    intro id e q qd hide hname hq hqd hent
    rw [DirGraph.create_entry, if_neg, if_neg (hlive q qd hqd), hent]
    rintro ⟨hk', hn'⟩
    rw [hk', hn', hfree] at hent
    cases hent
  | @removed _ p n k pd hpd hn he hl =>
    refine hv.of_graph (fun _ hname => DirGraph.named_remove_inv hname) ?_
    intro id e q qd hide hname hq hqd hent
    obtain ⟨y, l, hy, hyl⟩ := hname
    obtain ⟨hyl, hne⟩ := DirGraph.remove_entry_some hyl
    have hother := Sole.remove_entry hk hb hpd he hide hq hqd hent
      ⟨y, l, DirGraph.reach_remove_inv hy, hyl, hne⟩
    rw [DirGraph.remove_entry, if_neg hother, hent]
  | moved pd pd' hp₁ hp' hn hn' he hd hd' hbelow hm =>
    exact hv.moved hb hi hk (.moved pd pd' hp₁ hp' hn hn' he hd hd' hbelow hm)
  | @linked _ id p n d pd hd hpd hn hdir hfree ha hnd =>
    refine hv.of_graph (fun {id' e} _ hname => ?_) ?_
    · by_cases hek : e.key = d.key
      · rw [hek]
        exact hk d hd
      · exact DirGraph.named_link_inv (hi.wf.leaf_of_not_dir hnd) hname hek
    · intro id' e q qd hide hname hq hqd hent
      rw [DirGraph.bind_entry, if_neg, hent]
      rintro ⟨hk', hn'⟩
      rw [hk', hn', hfree] at hent
      cases hent

end Keep

section Runs
variable {r : FileKey} {w w' : World} {v v₁ : View} {a : Act} {evs : List Event} {env : Env}
  {c : Call}

private theorem along_forgotten {C : InodeStore → UInt64 × UInt64 → Prop} {s : InodeStore}
    {pre suf : List (UInt64 × UInt64)} {e : UInt64 × UInt64}
    (h : Lib.Run.Along (fun s e => some (s.forget e.1 e.2).1) C s (pre ++ e :: suf)) :
    C (forgotten s pre) e := by
  induction pre generalizing s with
  | nil => exact h.1
  | cons x pre ih => exact ih h.2

theorem View.resolve_entry {p : UInt64} {pd : InodeData} {n : Name}
    (hp : v.store.byId p = some pd) (hn : Plain n) (hd : v.graph.IsDir pd.key) :
    v.resolve p n = v.graph.entry pd.key n := by
  rw [View.resolve_eq hp, target_plain hn hd]

/-- The acts of a call that keeps names keep names. -/
theorem Allows.keepsNames (hc : c.KeepsNames r env w) (hi : Inside r v)
    (hal : Allows env w c v a) (hdoes : Does a v v₁ evs) : a.KeepsNames r v := by
  cases hdoes with
  | forgot =>
    obtain ⟨pre, suf, rfl, rfl⟩ := hal
    exact along_forgotten hc
  | @removed _ p n k pd hp hn he hl =>
    obtain ⟨rfl, rfl | rfl⟩ := hal
    · exact hc k (by rw [View.resolve_entry hp hn (hi.wf.dirs he), he])
    · exact hc k (by rw [View.resolve_entry hp hn (hi.wf.dirs he), he])
  | @moved _ order p n p' n' m g _ pd pd' hp hp' hn hn' he hd hd' hbelow hm =>
    obtain ⟨rfl, rfl, rfl⟩ := hal
    obtain ⟨hcov, hseen, hsole⟩ := hc m (by rw [View.resolve_entry hp hn hd, he])
    refine ⟨hcov, hseen, fun t pd₁ hp₁ ht hne => hsole t ?_ hne⟩
    rw [View.resolve_entry hp₁ hn' (hi.wf.dirs ht), ht]
  | linked d pd hd hp hn hdir hfree ha hnd =>
    obtain ⟨rfl, rfl⟩ := hal
    exact hc (by rw [View.resolve_entry hp hn hdir, hfree])
  | _ => trivial

/-- Every inode but the root's whose file has a name in the directory `r` was last seen
in a live directory, under a name that leads to that file. -/
def LocationsValid (r : FileKey) (w : World) : Prop :=
  ∀ id d, w.inodes.byId id = some d → id ≠ ROOT_ID → w.host.graph.Named r d.key →
    ∃ p pd, d.parent = some p ∧ w.inodes.byId p = some pd ∧ w.host.isDir pd.key = true ∧
      pd.fd.file = pd.key ∧
      ∀ follow, (follow = true → w.host.isSymlink d.key = false) →
        w.host.lookupPath follow pd.key d.name = .ok d.key

theorem Valid.locations (hs : Sound w) (hi : Inside r w.view) (hv : Valid r w.view) :
    LocationsValid r w := by
  intro id d hd hroot hname
  obtain ⟨hplain, p, pd, hp, hpd, hent⟩ := hv id d hd hroot hname
  have hdir := hi.wf.dirs hent
  have htar : target w.host.graph pd.key d.name = some d.key :=
    (target_plain hplain hdir).trans hent
  refine ⟨p, pd, hp, hpd, hdir, (hs.held p pd hpd).2, fun follow hlink => ?_⟩
  refine Host.lookupPath_of_target (hs.names id d hd) ?_ htar
  by_cases hf : follow = true
  · right
    intro k hk
    rw [htar] at hk
    rw [← Option.some.inj hk]
    exact hlink hf
  · left
    exact Bool.eq_false_of_not_eq_true hf

/-- The condition on a step under which locations stay valid. -/
def Settled (r : FileKey) (w : World) (x : Env × Call) : Prop :=
  Confined w x ∧ x.2.KeepsNames r x.1 w

/-- In a run of settled calls on a fresh engine, tracked locations are valid throughout. -/
theorem tracked_locations_valid {host : Host} {root : FileKey}
    (hfd : ∀ fd ∈ host.fds, fd.num < host.nextFd) (hwf : host.graph.WF)
    (hnew : PassthroughFs.new host root = some w) (xs : List (Env × Call))
    (hlen : xs.length < 2 ^ 63) (hc : Lib.Run.Along World.step (Settled root) w xs) :
    ∀ ys, ys <+: xs → ∃ w', Lib.Run.run World.step w ys = some w' ∧
      LocationsValid root w' := by
  intro ys hys
  obtain ⟨-, -, -, -, ⟨fd, -, -, honly⟩, -, hb⟩ := new_cases hnew
  have hv : Valid root w.view := by
    intro id d hd hroot
    exact absurd (honly id d hd).1 hroot
  have hlen' : ys.length + 3 < 2 ^ 64 := by
    have := hys.length_le
    omega
  obtain ⟨w', hrun, hs', -, hi', hv'⟩ := run_keeps (J := fun v => Inside root v ∧ Valid root v)
    (fun _ _ h => h.1.tame)
    (fun hx hal hbase hd hJ => by
      have hprop := hal.proper hx.1.1 hJ.1
      exact ⟨hJ.1.step hbase hprop hd,
        hJ.2.step hbase hJ.1 hprop (hal.keepsNames hx.2 hJ.1 hd) hd⟩)
    (Sound.start hfd hnew) hb ⟨Inside.start hwf hnew, hv⟩ hlen' (hc.of_prefix hys)
  exact ⟨w', hrun, hv'.locations hs' hi'⟩

/-- A case of `Call.KeepsNames` that can be evaluated: the call removes only names that no
inode was last seen under, renames to free names, and makes no link. -/
def Call.TakesFreeNames (env : Env) (w : World) : Call → Prop
  | .unlink p n | .rmdir p n => SeenAs w.inodes p n none
  | .rename p n p' n' => Covers w.inodes env.order ∧
      SeenAs w.inodes p n (w.view.resolve p n) ∧ w.view.resolve p' n' = none
  | .forget entries => Lib.Run.Along (fun s e => some (s.forget e.1 e.2).1)
      (fun s e => ∀ d ∈ s.live, d.parent ≠ some e.1) w.inodes entries
  | .link .. => False
  | _ => True

instance (env : Env) (w : World) : (c : Call) → Decidable (c.TakesFreeNames env w)
  | .unlink p n | .rmdir p n => inferInstanceAs (Decidable (SeenAs w.inodes p n none))
  | .rename p n p' n' => inferInstanceAs (Decidable (Covers w.inodes env.order ∧
      SeenAs w.inodes p n (w.view.resolve p n) ∧ w.view.resolve p' n' = none))
  | .forget entries => inferInstanceAs (Decidable (Lib.Run.Along
      (fun s e => some (s.forget e.1 e.2).1) (fun s e => ∀ d ∈ s.live, d.parent ≠ some e.1)
      w.inodes entries))
  | .link .. => inferInstanceAs (Decidable False)
  | .nothing | .lookup .. | .getattr .. | .setattr .. | .readlink .. | .symlink .. | .mkdir ..
  | .openFile .. | .create .. | .read .. | .write .. | .fsync .. | .release .. | .opendir ..
  | .statfs .. => inferInstanceAs (Decidable True)

theorem Call.TakesFreeNames.keepsNames (h : c.TakesFreeNames env w) :
    c.KeepsNames r env w := by
  have hsole : ∀ {p n k}, SeenAs w.inodes p n none → Sole r w.view p n k := by
    intro p n k hseen d hd hk hp hn
    exact absurd (hseen d hd hp hn) (by simp)
  cases c with
  | unlink p n => exact fun k _ => hsole h
  | rmdir p n => exact fun k _ => hsole h
  | rename p n p' n' =>
    obtain ⟨hcov, hseen, hfree⟩ := h
    intro m hm
    refine ⟨hcov, hm ▸ hseen, fun t ht => ?_⟩
    rw [hfree] at ht
    cases ht
  | forget entries =>
    refine Lib.Run.Along.mono (fun s e hs => ?_) h
    exact fun _ d hd hp => absurd hp (hs d hd)
  | link ino p n => exact h.elim
  | _ => trivial

/-- `CREATE x`, `LINK` it to `y`, `UNLINK x`. -/
def linkedAway : List (Env × Call) :=
  [(calm 20 [], .create 1 [120] O_RDWR 0o644), (calm 21 [], .link 2 1 [121]),
   (calm 21 [], .unlink 1 [120])]

/-- The file is still there as `y`, but its inode is tracked at the name `x` that is gone,
and opening it fails. -/
theorem linked_file_unreachable : ∃ w', PassthroughFs.new smallHost ⟨1, 10⟩ = some smallWorld ∧
    Lib.Run.Along World.step Confined smallWorld linkedAway ∧
    Lib.Run.run World.step smallWorld linkedAway = some w' ∧ ¬ LocationsValid ⟨1, 10⟩ w' ∧
    ∃ w'', PassthroughFs.openFile (calm 21 []) 2 O_RDWR w' = .error (.fail (.io ENOENT)) w'' := by
  have hfacts : (Lib.Run.run World.step smallWorld linkedAway).map (fun w =>
      ((w.inodes.byId 2).map (fun d => (d.key, d.parent, d.name)),
        (w.inodes.byId 1).map InodeData.key)) =
      some (some (⟨1, 20⟩, some 1, [120]), some ⟨1, 10⟩) := by
    decide +kernel
  have hnames : (Lib.Run.run World.step smallWorld linkedAway).map (fun w =>
      (w.host.graph.entry ⟨1, 10⟩ [121], (w.host.lookupPath false ⟨1, 10⟩ [120]).toOption)) =
      some (some ⟨1, 20⟩, none) := by
    decide +kernel
  have hopen : ((Lib.Run.run World.step smallWorld linkedAway).map fun w =>
      match PassthroughFs.openFile (calm 21 []) 2 O_RDWR w with
      | .error e _ => decide (e = .fail (.io ENOENT))
      | .ok _ _ => false) = some true := by
    decide +kernel
  obtain ⟨w', hrun, hall⟩ := Option.map_eq_some_iff.mp hfacts
  rw [hrun, Option.map_some, Option.some.injEq] at hopen hnames
  simp only [Prod.mk.injEq, Option.map_eq_some_iff] at hall hnames
  obtain ⟨⟨d, hd, hkey, hpar, hname⟩, pd, hpd, hpk⟩ := hall
  obtain ⟨hent, hlook⟩ := hnames
  refine ⟨w', smallWorld_new, by decide +kernel, hrun, fun hv => ?_, ?_⟩
  · have hnamed : w'.host.graph.Named ⟨1, 10⟩ d.key :=
      ⟨⟨1, 10⟩, [121], DirGraph.Reach.refl _ _, hkey ▸ hent⟩
    obtain ⟨p, pd', hp, hpd', -, -, hres⟩ := hv 2 d hd (by decide) hnamed
    rw [hpar] at hp
    cases hp
    rw [hpd] at hpd'
    cases hpd'
    have hok := hres false (by simp)
    rw [hpk, hname] at hok
    rw [hok] at hlook
    cases hlook
  · split at hopen
    · rename_i e w'' heq
      exact ⟨w'', by rw [heq, of_decide_eq_true hopen]⟩
    · cases hopen

/-- `CREATE x`, `MKDIR d`, `RENAME x` to `d/y`, `FORGET` the file, `UNLINK` it. -/
theorem tracked_locations_rename : ∃ xs : List (Env × Call), xs.length = 5 ∧
    ∀ ys, ys <+: xs → ∃ w', Lib.Run.run World.step smallWorld ys = some w' ∧
      LocationsValid ⟨1, 10⟩ w' := by
  let xs : List (Env × Call) :=
    [(calm 20 [], .create 1 [120] O_RDWR 0o644), (calm 21 [], .mkdir 1 [100] 0o755),
     (calm 22 [1, 2, 3], .rename 1 [120] 3 [121]), (calm 22 [], .forget [(2, 1)]),
     (calm 22 [], .unlink 3 [121])]
  have hmild : Lib.Run.Along World.step
      (fun w x => Confined w x ∧ x.2.TakesFreeNames x.1 w) smallWorld xs := by
    decide +kernel
  exact ⟨xs, rfl, tracked_locations_valid (by decide) (Host.graph_wf (by decide +kernel))
    smallWorld_new xs (by decide) (hmild.mono fun _ _ h => ⟨h.1, h.2.keepsNames⟩)⟩

end Runs

end Riftlessfs.Core
