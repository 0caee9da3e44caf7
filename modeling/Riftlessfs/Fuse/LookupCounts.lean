import Riftlessfs.Fuse.Requests

/-! The reference counts of the inode table against what the guest was granted: each
reply that carries an entry grants one lookup, each forget gives some back. -/
namespace Riftlessfs.Fuse
open Riftlessfs.Core Lib.Effect Lib.Run

/-- A request never panics on a table that keeps its invariant; it has its effect on the
table, or fails and leaves it alone. -/
theorem handle_table (env : Env) (s : Session) (request : Bytes) (hi : s.world.inodes.Inv) :
    ∃ b s', Session.handle env s request = (some b, s') ∧
      ((entryGranted request b = none ∧ s'.world.inodes = s.world.inodes ∧
          ∀ es, requestCall env.now request ≠ .forget es) ∨
        TableEffect env s.world.inodes (entryGranted request b) s'.world.inodes
          (requestCall env.now request)) := by
  have hp := handle_performs env s request
  have hset := Call.run_settles env (requestCall env.now request) hi
  rcases hset with ⟨e, w', herr, hw⟩ | ⟨r, w', hok, hP⟩
  · rw [herr] at hp
    obtain ⟨b, hb, hworld, hgrant⟩ := hp
    refine ⟨b, _, Prod.ext hb rfl, Or.inl ⟨hgrant, ?_, fun es hes => ?_⟩⟩
    · rw [hworld, hw]
    · obtain ⟨w₁, hf, -⟩ := Call.run_forget env es s.world
      rw [hes, hf] at herr
      cases herr
  · rw [hok] at hp
    obtain ⟨b, hb, hworld, hgrant⟩ := hp
    refine ⟨b, _, Prod.ext hb rfl, Or.inr ?_⟩
    rw [hgrant, hworld]
    exact hP

/-- A session and what its guest was granted so far. -/
structure Guest where
  session : Session
  granted : UInt64 → ℤ

def givenBack (id : UInt64) : Call → ℕ
  | .forget entries => ((entries.filter fun e => e.1 = id).map fun e => e.2.toNat).sum
  | _ => 0

def Guest.start (w : World) : Guest := ⟨.new w, fun _ => 0⟩

/-- Serve one request, and book the entry its reply carries and the lookups it gives
back. A panic stops the run. -/
def Guest.step (g : Guest) (x : Input) : Option Guest :=
  match Session.handle x.1 g.session x.2 with
  | (some reply, s) => some ⟨s, fun id => g.granted id +
      (if entryGranted x.2 reply = some id then 1 else 0) -
      givenBack id (requestCall x.1.now x.2)⟩
  | (none, _) => none

def forgetIds : Call → List UInt64
  | .forget entries => entries.map Prod.fst
  | _ => []

/-- The guest gives back no more than it was granted. -/
def Guest.Within (g : Guest) (x : Input) : Prop :=
  ∀ id ∈ forgetIds (requestCall x.1.now x.2), id ≠ ROOT_ID →
    (givenBack id (requestCall x.1.now x.2) : ℤ) ≤ g.granted id

instance (g : Guest) (x : Input) : Decidable (g.Within x) :=
  List.decidableBAll (fun id => id ≠ ROOT_ID →
    (givenBack id (requestCall x.1.now x.2) : ℤ) ≤ g.granted id) _

/-- Granted ids are live with that count, others are absent. -/
def Guest.Agrees (g : Guest) : Prop :=
  ∀ id, id ≠ ROOT_ID →
    (0 < g.granted id → ∃ d, g.session.world.inodes.byId id = some d ∧
      (d.lookups.toNat : ℤ) = g.granted id) ∧
    (g.granted id = 0 → g.session.world.inodes.byId id = none)

def Guest.linkGranted (g : Guest) (x : Input) : Option UInt64 :=
  match requestCall x.1.now x.2 with
  | .link .. => (Session.handle x.1 g.session x.2).1.bind (entryGranted x.2)
  | _ => none

/-- The request is no successful `LINK` of a node. -/
def Guest.NoLink (g : Guest) (x : Input) : Prop :=
  g.linkGranted x = none ∨ g.linkGranted x = some ROOT_ID

instance (g : Guest) (x : Input) : Decidable (g.NoLink x) :=
  inferInstanceAs (Decidable (g.linkGranted x = none ∨ g.linkGranted x = some ROOT_ID))

/-- Every count of the table is what was granted and not given back. -/
def Exact (s : InodeStore) (granted : UInt64 → ℤ) : Prop :=
  ∀ id, id ≠ ROOT_ID → (∀ d, s.byId id = some d → granted id = d.lookups.toNat) ∧
    (s.byId id = none → granted id = 0)

section Counts
open InodeStore
variable {s s' : InodeStore} {granted : UInt64 → ℤ} {n : ℕ}

theorem givenBack_cons (id : UInt64) (e : UInt64 × UInt64) (rest : List (UInt64 × UInt64)) :
    givenBack id (.forget (e :: rest)) =
      (if e.1 = id then e.2.toNat else 0) + givenBack id (.forget rest) := by
  unfold givenBack
  by_cases h : e.1 = id <;> simp [h]

private theorem givenBack_eq_zero {id : UInt64} {c : Call} (h : id ∉ forgetIds c) :
    givenBack id c = 0 := by
  cases c with
  | forget entries =>
    have hnil : entries.filter (fun e => e.1 = id) = [] := by
      rw [List.filter_eq_nil_iff]
      intro e he hc
      exact h (List.mem_map.mpr ⟨e, he, by simpa using hc⟩)
    simp only [givenBack, hnil]
    rfl
  | _ => rfl

theorem Exact.register (he : Exact s granted) (hi : s.Inv) (hb : s.Bounded n)
    (hn : n + 3 < 2 ^ 64) {p : UInt64} {name : Name} {fd : Fd} {st : Stat} {r : Option UInt64}
    (happ : (Op.register p name fd st).apply s = some s')
    (hret : (Op.register p name fd st).returns s = r) :
    Exact s' fun id => granted id + if r = some id then 1 else 0 := by
  intro id hid
  beta_reduce
  obtain ⟨hlive, hnone⟩ := he id hid
  rcases hi.register_cases p name fd st with ⟨id₀, d₀, -, hd₀, -, hreg⟩ | ⟨-, hreg⟩
  · simp only [Op.apply, hreg, Option.map_some, Option.some.injEq] at happ
    have hr : r = some id₀ := by
      rw [← hret]
      simp [Op.returns, hreg, bumped, hi.ids id₀ d₀ hd₀]
    subst happ
    rw [hr, setData_byId]
    by_cases h : id = id₀
    · subst h
      have hl := hb.lookups id d₀ hd₀
      have hsucc : (d₀.lookups + 1).toNat = d₀.lookups.toNat + 1 := toNat_succ (by omega)
      have hg := hlive d₀ hd₀
      refine ⟨fun d hd => ?_, fun hd => ?_⟩
      · rw [if_pos rfl] at hd
        cases hd
        rw [if_pos rfl, hg]
        show _ = ((d₀.lookups + 1).toNat : ℤ)
        rw [hsucc]
        push_cast
        rfl
      · simp at hd
    · have hne : ¬ some id₀ = some id := fun hc => h (Option.some.inj hc).symm
      rw [if_neg h, if_neg hne, add_zero]
      exact ⟨hlive, hnone⟩
  · simp only [Op.apply, hreg, Option.map_some, Option.some.injEq] at happ
    have hr : r = some s.nextId := by
      rw [← hret]
      simp [Op.returns, hreg, fresh]
    subst happ
    rw [hr, addFresh_byId]
    by_cases h : id = s.nextId
    · subst h
      have hg := hnone hi.nextId_free
      refine ⟨fun d hd => ?_, fun hd => ?_⟩
      · rw [if_pos rfl] at hd
        cases hd
        rw [if_pos rfl, hg]
        rfl
      · simp at hd
    · have hne : ¬ some s.nextId = some id := fun hc => h (Option.some.inj hc).symm
      rw [if_neg h, if_neg hne, add_zero]
      exact ⟨hlive, hnone⟩

theorem Exact.forget (he : Exact s granted) (id₀ count : UInt64)
    (hle : id₀ ≠ ROOT_ID → (count.toNat : ℤ) ≤ granted id₀) :
    Exact (s.forget id₀ count).1 fun id =>
      granted id - (if id₀ = id then count.toNat else 0 : ℕ) := by
  intro id hid
  beta_reduce
  obtain ⟨hlive, hnone⟩ := he id hid
  by_cases h : id₀ = id
  · subst h
    have hcount := hle hid
    rw [if_pos rfl]
    rcases forget_cases s id₀ count with ⟨hnop, hf⟩ | ⟨d, -, hd, hlt, hf⟩ | ⟨d, -, hd, hge, hf⟩
    · have habs : s.byId id₀ = none := hnop.resolve_left hid
      have hg := hnone habs
      rw [hf]
      refine ⟨fun d hd => ?_, fun _ => ?_⟩
      · simp [habs] at hd
      · omega
    · have hg := hlive d hd
      have hsub : (d.lookups - count).toNat = d.lookups.toNat - count.toNat :=
        UInt64.toNat_sub_of_le _ _ (UInt64.le_of_lt hlt)
      have hlt' : count.toNat < d.lookups.toNat := UInt64.lt_iff_toNat_lt.mp hlt
      rw [hf, setData_byId, if_pos rfl]
      refine ⟨fun d' hd' => ?_, fun hd' => ?_⟩
      · cases hd'
        simp only [hsub]
        omega
      · cases hd'
    · have hg := hlive d hd
      have hge' : d.lookups.toNat ≤ count.toNat := UInt64.le_iff_toNat_le.mp hge
      rw [hf, evict_byId, if_pos rfl]
      refine ⟨fun d' hd' => ?_, fun _ => ?_⟩
      · cases hd'
      · omega
  · have hsame : (s.forget id₀ count).1.byId id = s.byId id := by
      rcases forget_cases s id₀ count with ⟨-, hf⟩ | ⟨d, -, -, -, hf⟩ | ⟨d, -, -, -, hf⟩
      · rw [hf]
      · rw [hf, setData_byId, if_neg (Ne.symm h)]
      · rw [hf, evict_byId, if_neg (Ne.symm h)]
    rw [hsame, if_neg h]
    simpa using ⟨hlive, hnone⟩

theorem Exact.forgetAll (he : Exact s granted) (entries : List (UInt64 × UInt64))
    (hle : ∀ id, id ≠ ROOT_ID → (givenBack id (.forget entries) : ℤ) ≤ granted id) :
    Exact (entries.foldl (fun s e => (s.forget e.1 e.2).1) s) fun id =>
      granted id - givenBack id (.forget entries) := by
  induction entries generalizing s granted with
  | nil => simpa [givenBack] using he
  | cons e rest ih =>
    have hfirst : e.1 ≠ ROOT_ID → (e.2.toNat : ℤ) ≤ granted e.1 := by
      intro hr
      have h := hle e.1 hr
      rw [givenBack_cons, if_pos rfl] at h
      omega
    have hrest := ih (he.forget e.1 e.2 hfirst) (fun id hid => by
      have h := hle id hid
      rw [givenBack_cons] at h
      omega)
    intro id hid
    have h := hrest id hid
    beta_reduce at h ⊢
    have hsum := givenBack_cons id e rest
    rw [List.foldl_cons]
    refine ⟨fun d hd => ?_, fun hd => ?_⟩
    · have := h.1 d hd
      omega
    · have := h.2 hd
      omega

theorem Exact.noteRename (he : Exact s granted) (order : List UInt64) (p : UInt64) (m : Name)
    (p' : UInt64) (m' : Name) : Exact (s.noteRename order p m p' m') granted := by
  rcases noteRename_cases s order p m p' m' with ⟨-, h⟩ | ⟨id₀, d₀, -, hd₀, -, -, h⟩
  · rwa [h]
  · intro id hid
    obtain ⟨hlive, hnone⟩ := he id hid
    rw [h, setData_byId]
    by_cases hi : id = id₀
    · subst hi
      rw [if_pos rfl]
      refine ⟨fun d hd => ?_, fun hd => ?_⟩
      · cases hd
        exact hlive d₀ hd₀
      · cases hd
    · rw [if_neg hi]
      exact ⟨hlive, hnone⟩

/-- Counts stay exact through the effect of any call but the link of a node. -/
theorem Exact.effect {env : Env} {r : Option UInt64} {c : Call} (he : Exact s granted)
    (hi : s.Inv) (hb : s.Bounded n) (hn : n + 3 < 2 ^ 64) (h : TableEffect env s r s' c)
    (hle : ∀ id, id ≠ ROOT_ID → (givenBack id c : ℤ) ≤ granted id)
    (hlink : ∀ ino p m, c = .link ino p m → ino = ROOT_ID) :
    Exact s' fun id => granted id + (if r = some id then 1 else 0) - givenBack id c := by
  have hzero : (∀ id, givenBack id c = 0) →
      Exact s' (fun id => granted id + if r = some id then 1 else 0) →
      Exact s' fun id => granted id + (if r = some id then 1 else 0) - givenBack id c := by
    intro hz hx id hid
    beta_reduce
    rw [hz id, Nat.cast_zero, sub_zero]
    exact hx id hid
  have hreg : ∀ {p name}, (∃ fd st, (Op.register p name fd st).apply s = some s' ∧
      (Op.register p name fd st).returns s = r) →
      Exact s' fun id => granted id + if r = some id then 1 else 0 := by
    rintro p name ⟨fd, st, happ, hret⟩
    exact he.register hi hb hn happ hret
  have hnone : ∀ {s₁ : InodeStore}, Exact s₁ granted → r = none ∧ s' = s₁ →
      Exact s' fun id => granted id + if r = some id then 1 else 0 := by
    rintro s₁ he₁ ⟨rfl, rfl⟩
    simpa using he₁
  cases c with
  | lookup p name => exact hzero (fun _ => rfl) (hreg h)
  | symlink p name t => exact hzero (fun _ => rfl) (hreg h)
  | mkdir p name mode => exact hzero (fun _ => rfl) (hreg h)
  | create p name flags mode => exact hzero (fun _ => rfl) (hreg h)
  | forget entries =>
    obtain ⟨rfl, rfl⟩ := h
    simpa using he.forgetAll entries hle
  | rename p name p' name' => exact hzero (fun _ => rfl) (hnone (he.noteRename _ _ _ _ _) h)
  | link ino p name =>
    obtain ⟨rfl, rfl⟩ := h
    have hroot := hlink ino p name rfl
    intro id hid
    have hne : ¬ some ino = some id := fun hc => hid ((Option.some.inj hc).symm.trans hroot)
    have h0 : givenBack id (.link ino p name) = 0 := rfl
    beta_reduce
    rw [if_neg hne, h0, Nat.cast_zero, add_zero, sub_zero]
    exact he id hid
  | _ => exact hzero (fun _ => rfl) (hnone he h)

theorem Exact.agrees (he : Exact s granted) (hi : s.Inv) {id : UInt64} (hid : id ≠ ROOT_ID) :
    (0 < granted id → ∃ d, s.byId id = some d ∧ (d.lookups.toNat : ℤ) = granted id) ∧
      (granted id = 0 → s.byId id = none) := by
  obtain ⟨hlive, hnone⟩ := he id hid
  cases hd : s.byId id with
  | none =>
    have h0 := hnone hd
    exact ⟨fun hpos => absurd h0 (ne_of_gt hpos), fun _ => rfl⟩
  | some d =>
    have hg := hlive d hd
    have hpos := hi.counted id d hid hd
    refine ⟨fun _ => ⟨d, rfl, hg.symm⟩, fun h0 => ?_⟩
    omega

end Counts

section Runs
variable {g g' : Guest} {x : Input} {n : ℕ}

/-- One request: the run goes on, and either the call failed or it had its effect. -/
theorem Guest.step_cases (g : Guest) (x : Input) (hi : g.session.world.inodes.Inv) :
    ∃ reply s', Session.handle x.1 g.session x.2 = (some reply, s') ∧
      g.step x = some ⟨s', fun id => g.granted id +
        (if entryGranted x.2 reply = some id then 1 else 0) -
        givenBack id (requestCall x.1.now x.2)⟩ ∧
      ((entryGranted x.2 reply = none ∧ s'.world.inodes = g.session.world.inodes ∧
          ∀ es, requestCall x.1.now x.2 ≠ .forget es) ∨
        TableEffect x.1 g.session.world.inodes (entryGranted x.2 reply) s'.world.inodes
          (requestCall x.1.now x.2)) := by
  obtain ⟨reply, s', hh, heff⟩ := handle_table x.1 g.session x.2 hi
  refine ⟨reply, s', hh, ?_, heff⟩
  unfold Guest.step
  rw [hh]

theorem Guest.step_inv (hi : g.session.world.inodes.Inv)
    (hb : g.session.world.inodes.Bounded n) (hn : n + 3 < 2 ^ 64) :
    ∃ g', g.step x = some g' ∧ g'.session.world.inodes.Inv ∧
      g'.session.world.inodes.Bounded (n + 1) := by
  obtain ⟨reply, s', -, hstep, heff⟩ := g.step_cases x hi
  refine ⟨_, hstep, ?_⟩
  rcases heff with ⟨-, hsame, -⟩ | heff
  · show s'.world.inodes.Inv ∧ _
    rw [hsame]
    exact ⟨hi, hb.mono (Nat.le_succ n)⟩
  · exact tableEffect_inv heff hi hb hn

theorem Guest.within_le (hw : g.Within x) (hpos : ∀ id, id ≠ ROOT_ID → 0 ≤ g.granted id)
    {id : UInt64} (hid : id ≠ ROOT_ID) :
    (givenBack id (requestCall x.1.now x.2) : ℤ) ≤ g.granted id := by
  by_cases hmem : id ∈ forgetIds (requestCall x.1.now x.2)
  · exact hw id hmem hid
  · rw [givenBack_eq_zero hmem]
    exact hpos id hid

/-- A request that is no successful `LINK` of a node keeps the counts exact. -/
theorem Guest.step_exact (he : Exact g.session.world.inodes g.granted)
    (hi : g.session.world.inodes.Inv) (hb : g.session.world.inodes.Bounded n)
    (hn : n + 3 < 2 ^ 64) (hle : ∀ id, id ≠ ROOT_ID →
      (givenBack id (requestCall x.1.now x.2) : ℤ) ≤ g.granted id)
    (hlink : g.NoLink x) (hstep : g.step x = some g') :
    Exact g'.session.world.inodes g'.granted := by
  obtain ⟨reply, s', hh, hstep', heff⟩ := g.step_cases x hi
  rw [hstep] at hstep'
  cases hstep'
  rcases heff with ⟨hnone, hsame, hforget⟩ | heff
  · intro id hid
    have hzero : givenBack id (requestCall x.1.now x.2) = 0 := by
      cases hc : requestCall x.1.now x.2 with
      | forget es => exact absurd hc (hforget es)
      | _ => rfl
    have h := he id hid
    simp only [hnone, hzero, reduceCtorEq, if_false, add_zero, Nat.cast_zero, sub_zero, hsame]
    exact h
  · refine he.effect hi hb hn heff hle fun ino p m hc => ?_
    rw [hc] at heff
    have hgrant : g.linkGranted x = some ino := by
      unfold Guest.linkGranted
      rw [hc, hh]
      exact heff.1
    rcases hlink with hnone | hroot
    · rw [hgrant] at hnone
      cases hnone
    · rw [hgrant] at hroot
      exact Option.some.inj hroot

theorem Guest.step_granted_nonneg (hi : g.session.world.inodes.Inv) {id : UInt64}
    (hle : (givenBack id (requestCall x.1.now x.2) : ℤ) ≤ g.granted id)
    (hstep : g.step x = some g') : 0 ≤ g'.granted id := by
  obtain ⟨reply, s', -, hstep', -⟩ := g.step_cases x hi
  rw [hstep] at hstep'
  cases hstep'
  show 0 ≤ g.granted id + (if entryGranted x.2 reply = some id then 1 else 0) - _
  split_ifs <;> omega

/-- A successful `LINK` of a node breaks the agreement it found. -/
theorem Guest.noLink_of_agrees (hi : g.session.world.inodes.Inv)
    (hpos : ∀ id, id ≠ ROOT_ID → 0 ≤ g.granted id) (ha : g.Agrees)
    (hstep : g.step x = some g') (ha' : g'.Agrees) : g.NoLink x := by
  obtain ⟨reply, s', hh, hstep', heff⟩ := g.step_cases x hi
  rw [hstep] at hstep'
  cases hstep'
  cases hc : requestCall x.1.now x.2 with
  | link id p m =>
    rw [hc] at heff ha'
    have hgrant : g.linkGranted x = entryGranted x.2 reply := by
      unfold Guest.linkGranted
      rw [hc, hh]
      rfl
    rcases heff with ⟨hnone, -⟩ | ⟨hsome, hsame⟩
    · exact Or.inl (hgrant.trans hnone)
    by_cases hid : id = ROOT_ID
    · right
      rw [hgrant, hsome, hid]
    have hplus : g.granted id + (if entryGranted x.2 reply = some id then 1 else 0) -
        (givenBack id (.link id p m) : ℤ) = g.granted id + 1 := by
      rw [if_pos hsome]
      show g.granted id + 1 - ((0 : ℕ) : ℤ) = _
      rw [Nat.cast_zero, sub_zero]
    have hp := hpos id hid
    obtain ⟨d', hd', hl'⟩ := (ha' id hid).1 (by
      show 0 < g.granted id + _ - _
      rw [hplus]
      omega)
    have hl : (d'.lookups.toNat : ℤ) = g.granted id + 1 := hl'.trans hplus
    have hd : g.session.world.inodes.byId id = some d' := by
      rw [← hsame]
      exact hd'
    by_cases hz : g.granted id = 0
    · rw [(ha id hid).2 hz] at hd
      cases hd
    · obtain ⟨d, hd₀, hl₀⟩ := (ha id hid).1 (by omega)
      rw [hd] at hd₀
      cases hd₀
      omega
  | _ =>
    left
    unfold Guest.linkGranted
    rw [hc]

theorem Guest.Agrees.exact (ha : g.Agrees) (hpos : ∀ id, id ≠ ROOT_ID → 0 ≤ g.granted id) :
    Exact g.session.world.inodes g.granted := by
  intro id hid
  have hp := hpos id hid
  by_cases hz : g.granted id = 0
  · have hnone := (ha id hid).2 hz
    refine ⟨fun d hd => ?_, fun _ => hz⟩
    rw [hnone] at hd
    cases hd
  · obtain ⟨d, hd, hl⟩ := (ha id hid).1 (by omega)
    refine ⟨fun d' hd' => ?_, fun hnone => ?_⟩
    · rw [hd] at hd'
      cases hd'
      exact hl.symm
    · rw [hd] at hnone
      cases hnone

/-- The guest's books after `n` inputs, with `xs` still to come. -/
structure Guest.Settled (xs : List Input) (g : Guest) (n : ℕ) : Prop where
  inv : g.session.world.inodes.Inv
  bounded : g.session.world.inodes.Bounded n
  nonneg : ∀ id, id ≠ ROOT_ID → 0 ≤ g.granted id
  agrees : g.Agrees
  within : Along Guest.step Guest.Within g xs
  room : n + xs.length < 2 ^ 63

/-- One more input: the counts go on agreeing exactly if it is no `LINK` that succeeds. -/
theorem Guest.Settled.step {x : Input} {xs : List Input} {n : ℕ} (hs : Guest.Settled (x :: xs) g n) :
    ∃ g', g.step x = some g' ∧ (g'.Agrees ↔ g.NoLink x) ∧
      (g'.Agrees → Guest.Settled xs g' (n + 1)) := by
  have hroom := hs.room
  rw [List.length_cons] at hroom
  obtain ⟨g', hg', hi, hb⟩ := g.step_inv (x := x) hs.inv hs.bounded (by omega)
  have hw := hs.within
  unfold Along at hw
  rw [hg'] at hw
  have hle : ∀ id, id ≠ ROOT_ID → (givenBack id (requestCall x.1.now x.2) : ℤ) ≤ g.granted id :=
    fun id hid => Guest.within_le hw.1 hs.nonneg hid
  refine ⟨g', hg', ⟨?_, ?_⟩, ?_⟩
  · exact Guest.noLink_of_agrees hs.inv hs.nonneg hs.agrees hg'
  · intro hlink
    have he := Guest.step_exact (hs.agrees.exact hs.nonneg) hs.inv hs.bounded (by omega) hle
      hlink hg'
    exact fun id hid => he.agrees hi hid
  · intro ha
    refine ⟨hi, hb, fun id hid => ?_, ha, hw.2, by omega⟩
    exact Guest.step_granted_nonneg hs.inv (hle id hid) hg'

/-- Lookup counts agree with the guest's at every point of a run exactly when no `LINK`
of a node succeeds in it. -/
theorem lookup_counts_agree_iff {host : Host} {root : FileKey} {w : World}
    (hnew : PassthroughFs.new host root = some w) (xs : List Input) (hlen : xs.length < 2 ^ 63)
    (hw : Along Guest.step Guest.Within (.start w) xs) :
    (∀ ys, ys <+: xs → ∃ g, run Guest.step (.start w) ys = some g ∧ g.Agrees) ↔
      Along Guest.step Guest.NoLink (.start w) xs := by
  obtain ⟨hi, hb, hempty⟩ := start_inv hnew
  have hstart : (Guest.start w).Agrees := fun id hid =>
    ⟨fun hpos => absurd hpos (lt_irrefl 0), fun _ => hempty id hid⟩
  refine prefixes_iff_along (J := fun xs g => ∃ n, Guest.Settled xs g n)
    (fun _ _ ⟨_, hs⟩ => hs.agrees) ?_ ⟨0, hi, hb, fun _ _ => le_rfl, hstart, hw, by omega⟩
  rintro x xs g ⟨n, hs⟩
  obtain ⟨g', hg', hiff, hnext⟩ := hs.step
  exact ⟨g', hg', hiff, fun ha => ⟨n + 1, hnext ha⟩⟩

/-- `CREATE a`, then `LINK` it to `b`: the guest holds two entries, the table one. -/
def linkRun : List Input :=
  [(calm 20 [], encodeRequest 35 1 [2, 0, 0, 0, 0xa4, 1, 0, 0, 0, 0, 0, 0, 0, 0, 0, 0, 97, 0]),
   (calm 21 [], encodeRequest 13 1 [2, 0, 0, 0, 0, 0, 0, 0, 98, 0])]

theorem link_entry_uncounted : ∃ g, PassthroughFs.new smallHost ⟨1, 10⟩ = some smallWorld ∧
    Along Guest.step Guest.Within (.start smallWorld) linkRun ∧
    run Guest.step (.start smallWorld) linkRun = some g ∧ ¬ g.Agrees := by
  have hsome : (run Guest.step (.start smallWorld) linkRun).isSome = true := by decide +kernel
  obtain ⟨g, hg⟩ := Option.isSome_iff_exists.mp hsome
  have hcounts : (run Guest.step (.start smallWorld) linkRun).map (fun g =>
      (g.granted 2, (g.session.world.inodes.byId 2).map InodeData.lookups)) =
      some (2, some 1) := by
    decide +kernel
  rw [hg, Option.map_some, Option.some.injEq, Prod.mk.injEq] at hcounts
  refine ⟨g, smallWorld_new, by decide +kernel, hg, fun ha => ?_⟩
  obtain ⟨d, hd, hl⟩ := (ha 2 (by decide)).1 (by rw [hcounts.1]; decide)
  rw [hd, Option.map_some, Option.some.injEq] at hcounts
  rw [hcounts.1, hcounts.2] at hl
  exact absurd hl (by decide)

/-- `CREATE a`, `LOOKUP a`, one forget: counts agree throughout. -/
theorem lookup_counts_agree_create :
    ∃ xs : List Input, xs.length = 3 ∧ (∀ ys, ys <+: xs →
      ∃ g, run Guest.step (.start smallWorld) ys = some g ∧ g.Agrees) := by
  let xs : List Input :=
    [(calm 20 [], encodeRequest 35 1 [2, 0, 0, 0, 0xa4, 1, 0, 0, 0, 0, 0, 0, 0, 0, 0, 0, 97, 0]),
     (calm 21 [], encodeRequest 1 1 [97, 0]),
     (calm 22 [], encodeRequest 2 2 [1, 0, 0, 0, 0, 0, 0, 0])]
  refine ⟨xs, rfl, ?_⟩
  exact (lookup_counts_agree_iff smallWorld_new xs (by decide) (by decide +kernel)).mpr
    (by decide +kernel)

end Runs

end Riftlessfs.Fuse
