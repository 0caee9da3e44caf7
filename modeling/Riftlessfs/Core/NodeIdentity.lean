import Riftlessfs.Core.CallRuns

/-! Node identity: when no call binds a name that an inode of another file was last seen
under, every tracked location leads to the inode's own file or nowhere. -/
namespace Riftlessfs.Core
open Lib InodeStore

/-- No inode was last seen as the parent of directory `m`. -/
def NotSeenAbove (s : InodeStore) (m : FileKey) : Prop :=
  ∀ d ∈ s.live, d.name = dotdot → ((d.parent.bind s.byId).map InodeData.key) ≠ some m

instance (s : InodeStore) (m : FileKey) : Decidable (NotSeenAbove s m) :=
  inferInstanceAs (Decidable (∀ d ∈ s.live, d.name = dotdot →
    ((d.parent.bind s.byId).map InodeData.key) ≠ some m))

/-- The call gives no name to a file while an inode of another file was last seen under
that name. -/
def Call.Steady (w : World) : Call → Prop
  | .symlink p n _ | .mkdir p n _ | .create p n _ _ =>
    w.view.resolve p n = none → SeenAs w.inodes p n none
  | .openFile ino flags => ino = ROOT_ID ∨ hasFlag flags O_PATH = true ∨
      hasFlag flags O_CREAT = false ∨ w.view.tracked ino ≠ none
  | .link ino p n => w.view.resolve p n = none →
      SeenAs w.inodes p n ((w.inodes.byId ino).map InodeData.key)
  | .rename p n p' n' => ∀ m ∈ w.view.resolve p n,
      SeenAs w.inodes p' n' (some m) ∧ NotSeenAbove w.inodes m
  | _ => True

instance (w : World) : (c : Call) → Decidable (c.Steady w)
  | .symlink p n _ | .mkdir p n _ | .create p n _ _ =>
    inferInstanceAs (Decidable (w.view.resolve p n = none → SeenAs w.inodes p n none))
  | .openFile ino flags => inferInstanceAs (Decidable (ino = ROOT_ID ∨
      hasFlag flags O_PATH = true ∨ hasFlag flags O_CREAT = false ∨ w.view.tracked ino ≠ none))
  | .link ino p n => inferInstanceAs (Decidable (w.view.resolve p n = none →
      SeenAs w.inodes p n ((w.inodes.byId ino).map InodeData.key)))
  | .rename p n p' n' => inferInstanceAs (Decidable (∀ m ∈ w.view.resolve p n,
      SeenAs w.inodes p' n' (some m) ∧ NotSeenAbove w.inodes m))
  | .nothing | .lookup .. | .forget .. | .getattr .. | .setattr .. | .readlink .. | .unlink ..
  | .rmdir .. | .read .. | .write .. | .fsync .. | .release .. | .opendir .. | .statfs .. =>
    inferInstanceAs (Decidable True)

/-- The condition of `Call.Steady` on single acts. -/
def Act.Steady (v : View) : Act → Prop
  | .made p n _ _ => SeenAs v.store p n none
  | .moved _ _ _ p' n' m => SeenAs v.store p' n' (some m) ∧ NotSeenAbove v.store m
  | .linked id p n => SeenAs v.store p n ((v.store.byId id).map InodeData.key)
  | _ => True

/-- A tracked location leads to the inode's own file, if anywhere. -/
def Located (v : View) : Prop :=
  ∀ id d p pd k, v.store.byId id = some d → d.parent = some p → v.store.byId p = some pd →
    target v.graph pd.key d.name = some k → k = d.key

section Target
variable {g : DirGraph FileKey Name} {base x d d' k m : FileKey} {l n n' : Name}
  {up : Option FileKey}

theorem target_congr {g' : DirGraph FileKey Name} (hup : g'.up base = g.up base)
    (he : g'.entry base l = g.entry base l) : target g' base l = target g base l := by
  unfold target
  rw [hup, he]

private theorem target_create (hb : base ≠ k) (hne : ¬ (base = d ∧ l = n)) :
    target (g.create d n k up) base l = target g base l := by
  refine target_congr ?_ ?_
  · rw [DirGraph.create_up, if_neg hb]
  · rw [DirGraph.create_entry, if_neg hne, if_neg hb]

private theorem target_bind (hne : ¬ (base = d ∧ l = n)) :
    target (g.bind d n k) base l = target g base l := by
  refine target_congr rfl ?_
  rw [DirGraph.bind_entry, if_neg hne]

private theorem target_remove (ht : target (g.remove d n k) base l = some x) :
    target g base l = some x := by
  by_cases hne : base = d ∧ l = n
  · unfold target at ht ⊢
    rw [DirGraph.remove_up] at ht
    rw [DirGraph.remove_entry, if_pos hne] at ht
    cases hup : g.up base with
    | none => simp [hup] at ht
    | some q =>
      simp only [hup] at ht ⊢
      split_ifs at ht ⊢
      all_goals exact ht
  · have he : (g.remove d n k).entry base l = g.entry base l := by
      rw [DirGraph.remove_entry, if_neg hne]
    have hup : (g.remove d n k).up base = g.up base := rfl
    rwa [target_congr hup he] at ht

/-- Where a name leads after a move: to the moved file, above it, or where it led before. -/
theorem target_move (ht : target (g.move d n d' n' m) base l = some x) :
    (base = d' ∧ l = n' ∧ x = m) ∨ (base = m ∧ l = dotdot) ∨ target g base l = some x := by
  by_cases hpar : base = m ∧ l = dotdot
  · exact Or.inr (Or.inl hpar)
  have hdir : (g.move d n d' n' m).IsDir base := target_isDir ht
  rw [DirGraph.move_isDir] at hdir
  obtain ⟨q, hq⟩ := Option.isSome_iff_exists.mp hdir
  have hup : ∃ q', (g.move d n d' n' m).up base = some q' ∧ (base ≠ m → q' = q) := by
    rw [DirGraph.move_up]
    split_ifs with hc
    · exact ⟨d', rfl, fun hne => absurd hc.1 hne⟩
    · exact ⟨q, hq, fun _ => rfl⟩
  obtain ⟨q', hq', hsame⟩ := hup
  unfold target at ht ⊢
  rw [hq'] at ht
  rw [hq]
  by_cases h₁ : l = []
  · simp [h₁] at ht
  by_cases h₂ : l = dot
  · right
    right
    simp only [h₂] at ht ⊢
    exact ht
  by_cases h₃ : l = dotdot
  · have hbase : base ≠ m := fun hc => hpar ⟨hc, h₃⟩
    rw [hsame hbase] at ht
    right
    right
    subst h₃
    exact ht
  · simp only [h₁, h₂, h₃, if_false] at ht ⊢
    rcases DirGraph.move_entry_some ht with ⟨hb, hl, hx⟩ | ⟨-, -, he⟩
    · exact Or.inl ⟨hb, hl, hx⟩
    · exact Or.inr (Or.inr he)

end Target

section Keep
variable {v v₁ : View} {a : Act} {evs : List Event} {s : InodeStore} {id : UInt64}
  {d : InodeData} {k : FileKey}

theorem Located.tracked (hb : Base v.store) (hl : Located v) (hd : v.store.byId id = some d)
    (ht : v.tracked id = some k) : k = d.key := by
  rw [View.tracked_eq hd] at ht
  unfold View.resolve at ht
  cases hp : v.store.byId (d.parent.getD ROOT_ID) with
  | none => simp [hp] at ht
  | some pd =>
    rw [hp] at ht
    cases hpar : d.parent with
    | none =>
      rw [hb.rooted id d hd hpar] at ht
      unfold target at ht
      simp only [if_true] at ht
      split at ht <;> cases ht
    | some p =>
      rw [hpar, Option.getD_some] at hp
      exact hl id d p pd k hd hpar hp ht

/-- An inode of the table after a change of one inode's count or location. -/
theorem setData_live {id₀ : UInt64} {d₀ d₁ : InodeData} (hd₀ : s.byId id₀ = some d₀)
    (hkey : d₁.key = d₀.key) (hd : (s.setData id₀ d₁).byId id = some d) :
    ∃ e, s.byId id = some e ∧ e.key = d.key ∧ (d = e ∨ (id = id₀ ∧ d = d₁)) := by
  rw [setData_byId] at hd
  split_ifs at hd with h
  · cases hd
    subst h
    exact ⟨d₀, hd₀, hkey.symm, Or.inr ⟨rfl, rfl⟩⟩
  · exact ⟨d, hd, rfl, Or.inl rfl⟩

/-- Moving one inode to a name of its own file. -/
theorem Located.setData {id₀ p : UInt64} {n : Name} {d₀ d₁ pd : InodeData}
    {g : DirGraph FileKey Name} (hd₀ : v.store.byId id₀ = some d₀) (hkey : d₁.key = d₀.key)
    (hpar : d₁.parent = some p) (hname : d₁.name = n) (hp : v.store.byId p = some pd)
    (hnew : ∀ k, target g pd.key n = some k → k = d₀.key)
    (hold : Located ⟨v.store, g⟩) : Located ⟨v.store.setData id₀ d₁, g⟩ := by
  intro id d q qd k hd hq hqd ht
  obtain ⟨e, he, hek, hcase⟩ := setData_live hd₀ hkey hd
  obtain ⟨qe, hqe, hqk, -⟩ := setData_live hd₀ hkey hqd
  rw [← hqk] at ht
  rcases hcase with rfl | ⟨rfl, rfl⟩
  · exact hold id _ q qe k he hq hqe ht
  · rw [hpar] at hq
    cases hq
    rw [hp] at hqe
    cases hqe
    rw [hname] at ht
    rw [hkey]
    exact hnew k ht

theorem Located.seen (hb : Base v.store) (hl : Located v) {p : UInt64} {n : Name}
    {pd : InodeData} {fd : Fd} {st : Stat} {dropped : Option Fd}
    (hp : v.store.byId p = some pd) (ht : target v.graph pd.key n = some st.key)
    (hreg : v.store.register p n fd st = some (d, s, dropped)) : Located ⟨s, v.graph⟩ := by
  rcases hb.register_cases hreg with ⟨id₀, d₀, hd₀, hk₀, rfl, -⟩ | ⟨-, rfl, -⟩
  · refine Located.setData (n := n) hd₀ rfl rfl rfl hp (fun k hk => ?_) hl
    rw [ht] at hk
    cases hk
    exact hk₀.symm
  · intro id e q qd k he hq hqd htar
    have hlive : ∀ i x, i.toNat < v.store.nextId.toNat →
        (v.store.addFresh (fresh v.store p n fd st)).byId i = some x →
        v.store.byId i = some x := by
      intro i x hlt hx
      rw [addFresh_byId, if_neg] at hx
      · exact hx
      · rintro rfl
        exact lt_irrefl _ hlt
    rw [addFresh_byId] at he
    split_ifs at he with hid
    · cases he
      cases hq
      have hqd' := hlive p qd (hb.inv.below p pd hp) hqd
      rw [hp] at hqd'
      cases hqd'
      rw [show (fresh v.store p n fd st).name = n from rfl, ht] at htar
      exact (Option.some.inj htar).symm
    · exact hl id e q qd k he hq (hlive q qd (hb.issued id e q he hq) hqd) htar

theorem Located.moved (hb : Base v.store) (hl : Located v) {order : List UInt64}
    {p p' : UInt64} {n n' : Name} {m : FileKey} {g : DirGraph FileKey Name}
    {pd pd' : InodeData} (hp : v.store.byId p = some pd) (hp' : v.store.byId p' = some pd')
    (hn : Plain n) (hn' : Plain n') (he : v.graph.entry pd.key n = some m)
    (hdp : v.graph.IsDir pd.key) (hd' : v.graph.IsDir pd'.key)
    (hm : Moves v.graph pd.key n pd'.key n' m g evs)
    (hst : SeenAs v.store p' n' (some m) ∧ NotSeenAbove v.store m) :
    Located ⟨v.store.noteRename order p n p' n', g⟩ := by
  have hplain : ∀ l base x, target g base l = some x →
      (base = pd'.key ∧ l = n' ∧ x = m) ∨ (base = m ∧ l = dotdot) ∨
        target v.graph base l = some x := by
    intro l base x hx
    cases hm with
    | same ht => exact Or.inr (Or.inr hx)
    | free ht ha => exact target_move hx
    | onto t ht hne hleaf => exact target_move hx
  have hold : Located ⟨v.store, g⟩ := by
    intro id d q qd k hd hq hqd htar
    rcases hplain d.name qd.key k htar with ⟨hbase, hname, rfl⟩ | ⟨hbase, hname⟩ | hbefore
    · have hqp : q = p' := hb.inv.key_inj hqd hp' hbase
      have hseen := hst.1 d (hb.inv.mem_live hd) (hqp ▸ hq) hname
      exact (Option.some.inj hseen).symm
    · refine absurd ?_ (hst.2 d (hb.inv.mem_live hd) hname)
      rw [hq, Option.bind_some, hqd, Option.map_some, hbase]
    · exact hl id d q qd k hd hq hqd hbefore
  rcases noteRename_cases v.store order p n p' n' with ⟨-, hr⟩ | ⟨id₀, d₀, -, hd₀, hpar, hname, hr⟩
  · rw [hr]
    exact hold
  · rw [hr]
    have hm₀ : m = d₀.key := by
      refine hl id₀ d₀ p pd m hd₀ hpar hp ?_
      rw [hname, target_plain hn hdp, he]
    refine Located.setData (n := n') hd₀ rfl rfl rfl hp' (fun k hk => ?_) hold
    rcases hplain n' pd'.key k hk with ⟨-, -, rfl⟩ | ⟨-, hdots⟩ | hbefore
    · exact hm₀
    · exact absurd hdots hn'.2.2.2
    · rw [target_plain hn' hd'] at hbefore
      rw [← hm₀]
      cases hm with
      | same ht =>
        rw [ht] at hbefore
        exact (Option.some.inj hbefore).symm
      | free ht ha =>
        rw [ht] at hbefore
        cases hbefore
      | onto t ht hne hleaf =>
        have hdir : ((v.graph.move pd.key n pd'.key n' m).kill t).IsDir pd'.key :=
          DirGraph.move_isDir.mpr hd'
        rw [target_plain hn' hdir] at hk
        have hentry : (v.graph.move pd.key n pd'.key n' m).entry pd'.key n' = some k := hk
        rw [DirGraph.move_entry, if_pos ⟨rfl, rfl⟩] at hentry
        exact (Option.some.inj hentry).symm

/-- A steady act keeps tracked locations right. -/
theorem Located.step (hb : Base v.store) (hst : a.Steady v) (hdoes : Does a v v₁ evs)
    (hl : Located v) : Located v₁ := by
  cases hdoes with
  | touched => exact hl
  | duplicated => exact hl
  | written => exact hl
  | seen pd fd st hp ht hk hr hreg => exact hl.seen hb hp (hk ▸ ht) hreg
  | forgot =>
    intro id d p pd k hd hp hpd ht
    obtain ⟨e, he, hpar, hname, hkey, -⟩ := forget_byId hd
    obtain ⟨pe, hpe, -, -, hpkey, -⟩ := forget_byId hpd
    rw [hkey]
    rw [hpar] at hp
    rw [hname, hpkey] at ht
    exact hl id e p pe k he hp hpe ht
  | @made _ p n k isDir _ pd hp hn hdir hfree ha hlive hk he =>
    intro id e q qd x hd hq hqd htar
    by_cases hhere : qd.key = pd.key ∧ e.name = n
    · have hqp := hb.inv.key_inj hqd hp hhere.1
      have hseen := hst e (hb.inv.mem_live hd) (hqp ▸ hq) hhere.2
      cases hseen
    · rw [target_create (hlive q qd hqd) hhere] at htar
      exact hl id e q qd x hd hq hqd htar
  | removed pd hp hn he hleaf =>
    intro id e q qd x hd hq hqd htar
    exact hl id e q qd x hd hq hqd (target_remove htar)
  | moved pd pd' hp hp' hn hn' he hd hd' hbelow hm =>
    exact hl.moved hb hp hp' hn hn' he hd hd' hm hst
  | @linked _ id₀ p n d pd hd hp hn hdir hfree ha hk =>
    intro id e q qd x hd' hq hqd htar
    by_cases hhere : qd.key = pd.key ∧ e.name = n
    · have hqp := hb.inv.key_inj hqd hp hhere.1
      have hseen := hst e (hb.inv.mem_live hd') (hqp ▸ hq) hhere.2
      rw [hd, Option.map_some, Option.some.injEq] at hseen
      have hdir' : (v.graph.bind pd.key n d.key).IsDir pd.key := hdir
      rw [hhere.1, hhere.2, target_plain hn hdir', DirGraph.bind_entry, if_pos ⟨rfl, rfl⟩] at htar
      rw [hseen]
      exact (Option.some.inj htar).symm
    · rw [target_bind hhere] at htar
      exact hl id e q qd x hd' hq hqd htar

end Keep

/-- The acts of a steady call are steady. -/
theorem Allows.steady {env : Env} {w : World} {c : Call} {v v₁ : View} {a : Act}
    {evs : List Event} (hst : c.Steady w) (hal : Allows env w c v a) (hd : Does a v v₁ evs) :
    a.Steady v := by
  cases hd with
  | @made _ p n k isDir _ pd hp hn hdir hfree ha hlive hk he =>
    obtain ⟨rfl, hmakes, -⟩ := hal
    have hres : w.view.resolve p n = none := by
      rw [View.resolve_eq hp, target_plain hn hdir, hfree]
    cases c with
    | symlink q m t =>
      obtain ⟨rfl, rfl⟩ := hmakes
      exact hst hres
    | mkdir q m mode =>
      obtain ⟨rfl, rfl⟩ := hmakes
      exact hst hres
    | create q m flags mode =>
      obtain ⟨rfl, rfl⟩ := hmakes
      exact hst hres
    | openFile ino flags =>
      obtain ⟨hroot, hpath, hcreat, d, hd, rfl, rfl⟩ := hmakes
      rw [← View.tracked_eq (v := w.view) hd] at hres
      rcases hst with h | h | h | h
      · exact absurd h hroot
      · rw [hpath] at h
        cases h
      · rw [hcreat] at h
        cases h
      · exact absurd hres h
    | _ => exact hmakes.elim
  | @moved _ order p n p' n' m g _ pd pd' hp hp' hn hn' he hdir hdir' hbelow hm =>
    obtain ⟨rfl, -, rfl⟩ := hal
    have hres : w.view.resolve p n = some m := by
      rw [View.resolve_eq hp, target_plain hn hdir, he]
    exact hst m hres
  | @linked _ id p n d pd hd hp hn hdir hfree ha hk =>
    obtain ⟨rfl, rfl⟩ := hal
    have hres : w.view.resolve p n = none := by
      rw [View.resolve_eq hp, target_plain hn hdir, hfree]
    exact hst hres
  | _ => trivial

/-- The condition on a step under which every inode keeps its identity. -/
def Steady (w : World) (x : Env × Call) : Prop := Tame w x ∧ x.2.Steady w

instance (w : World) (x : Env × Call) : Decidable (Steady w x) :=
  inferInstanceAs (Decidable (Tame w x ∧ x.2.Steady w))

/-- Runs of steady calls keep tracked locations right. -/
theorem run_located {w : World} {xs : List (Env × Call)} (hs : Sound w)
    (hb : w.inodes.Bounded 0) (hl : Located w.view) (hn : xs.length + 3 < 2 ^ 64)
    (hc : Lib.Run.Along World.step Steady w xs) :
    ∃ w', Lib.Run.run World.step w xs = some w' ∧ Sound w' ∧ Located w'.view := by
  obtain ⟨w', hrun, hs', -, hl'⟩ := run_keeps (fun _ _ h => h.1)
    (fun hx hal hbase hd hloc => hloc.step hbase (hal.steady hx.2 hd) hd) hs hb hl hn hc
  exact ⟨w', hrun, hs', hl'⟩

end Riftlessfs.Core
