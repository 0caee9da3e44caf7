import Riftlessfs.VhostUser.MappedExtents
import Riftlessfs.VhostUser.RingProgress

/-! Whole runs of the server, with any guest and any front-end, against the part of the server's
memory that is not shared. -/
namespace Riftlessfs.VhostUser
open Lib.Flat Lib.Effect Lib.Agreement Lib.Run Lib.LittleEndian Riftlessfs.Core Riftlessfs.Proto
  Riftlessfs.Fuse

/-- What is mapped, if anything is, lies within `S`. -/
def Server.Within (S : ℕ → Prop) (srv : Server) : Prop :=
  ∀ mem, srv.mem = some mem → ∀ x, mem.Maps x → S x

/-- The usable parts of the regions lie within `S`. -/
def Server.SharesWithin (S : ℕ → Prop) (srv : Server) : Prop :=
  ∀ mem, srv.mem = some mem → ∀ x, mem.Shares x → S x

theorem Server.Within.shares {S : ℕ → Prop} {srv : Server} (h : srv.Within S) (hf : srv.Fits) :
    srv.SharesWithin S :=
  fun mem hmem x hx => h mem hmem x ((hf mem hmem).maps hx)

/-- Servers that differ in bytes outside `S` only. -/
structure Loop.AlikeOn (S : ℕ → Prop) (l l' : Loop) : Prop where
  phase : l'.phase = l.phase
  history : l'.history = l.history
  server : l'.server = l.server.withMem l'.server.mem
  mem : Option.Rel (GuestMemory.AlikeOn S) l.server.mem l'.server.mem

/-- The same event, apart from what the guest stores, and the host finds mapped, outside `S`. -/
inductive Event.AlikeOn (S : ℕ → Prop) : Event → Event → Prop
  | guest {bytes bytes' : ℕ → UInt8} (h : ∀ x, S x → bytes' x = bytes x) :
      Event.AlikeOn S (.guest bytes) (.guest bytes')
  | poll (env : MsgEnv) {bytes' : ℕ → UInt8} (result : PollResult)
      (h : ∀ x, S x → bytes' x = env.map.bytes x) :
      Event.AlikeOn S (.poll env result) (.poll (env.withBytes bytes') result)
  | serve (env : Env) : Event.AlikeOn S (.serve env) (.serve env)

section Messages
variable {S : ℕ → Prop} {env : MsgEnv} {srv srv' : Server} {m : Message} {bytes' : ℕ → UInt8}

private theorem mapEach_bytes (regions : List (MemoryRegion × RawFd)) :
    mapEach (env.withBytes bytes').map regions = mapEach env.map regions := by
  induction regions with
  | nil => rfl
  | cons r regions ih =>
    unfold mapEach
    rw [ih]
    rfl

/-- A new region table is the same for both, over the bytes each of them finds mapped. -/
theorem dispatch_setMemTable (env : MsgEnv) (srv : Server) (m : Message) (bytes' : ℕ → UInt8)
    (mem' : Option GuestMemory) :
    (srv.withMem mem').dispatch (env.withBytes bytes') m .setMemTable =
      (srv.dispatch env m .setMemTable).map fun s =>
        s.withMem (s.mem.map fun mem => { mem with bytes := bytes' }) := by
  unfold Server.dispatch
  cases MemoryRegions.fromBytes m.payload with
  | error e => rfl
  | ok regions =>
    simp only [bind, Except.bind]
    split_ifs with hlen
    · rfl
    · unfold mapRegions
      rw [if_neg hlen, if_neg hlen, mapEach_bytes]
      cases mapEach env.map (regions.zip m.fds) with
      | error e => rfl
      | ok mapped => rfl

/-- Handling a message does the same to servers that are alike. -/
theorem handleOneMessage_alike {mem' : Option GuestMemory}
    (hmem : Option.Rel (GuestMemory.AlikeOn S) srv.mem mem')
    (hbytes : ∀ x, S x → bytes' x = env.map.bytes x)
    (hw : ∀ k, srv.handleOneMessage env m = .ok k → k.SharesWithin S) :
    ∃ f : Server → Option GuestMemory,
      (srv.withMem mem').handleOneMessage (env.withBytes bytes') m =
        (srv.handleOneMessage env m).map (fun s => s.withMem (f s)) ∧
      ∀ k, srv.handleOneMessage env m = .ok k →
        Option.Rel (GuestMemory.AlikeOn S) k.mem (f k) := by
  unfold Server.handleOneMessage at hw ⊢
  cases hreq : Request.tryFrom m.header.request with
  | error e =>
    refine ⟨fun _ => mem', rfl, ?_⟩
    intro k hk
    cases hk
    exact hmem
  | ok request =>
    rw [hreq] at hw
    by_cases hr : request = .setMemTable
    · subst hr
      refine ⟨_, dispatch_setMemTable env { srv with openFds := srv.openFds ++ m.fds } m bytes' mem',
        ?_⟩
      intro k hk
      obtain ⟨mem, hkmem, hmembytes, -⟩ := setMemTable_mem hk
      simp only [hkmem, Option.map_some]
      refine .some ⟨rfl, hw k hk mem hkmem, ?_⟩
      intro x hx
      rw [hmembytes]
      exact hbytes x hx
    · refine ⟨_, dispatch_mem env { srv with openFds := srv.openFds ++ m.fds } m bytes' mem' hr, ?_⟩
      intro k hk
      rw [dispatch_mem_same hr hk]
      exact hmem

end Messages

section Steps
variable {S : ℕ → Prop} {l l' k : Loop} {e e' : Event}

theorem alike_of_server {l l' : Loop} {f : Option GuestMemory} (hphase : l'.phase = l.phase)
    (hhistory : l'.history = l.history) (hserver : l'.server = l.server.withMem f)
    (hmem : Option.Rel (GuestMemory.AlikeOn S) l.server.mem f) : l.AlikeOn S l' := by
  have hf : l'.server.mem = f := by
    rw [hserver]
    rfl
  constructor
  · exact hphase
  · exact hhistory
  · rw [hf]
    exact hserver
  · rw [hf]
    exact hmem

/-- What `poll` reports is dealt with alike. -/
theorem onReady_alike (h : l.AlikeOn S l') {env : MsgEnv} {bytes' : ℕ → UInt8}
    {recv : Option (Except ProtoError Message)} {hangup : Bool} {kicked : ℕ → Bool}
    (hbytes : ∀ x, S x → bytes' x = env.map.bytes x)
    (hw : (l.onReady env recv hangup kicked).server.SharesWithin S) :
    (l.onReady env recv hangup kicked).AlikeOn S
      (l'.onReady (env.withBytes bytes') recv hangup kicked) := by
  have hslots : l'.server.kickSlots = l.server.kickSlots := by
    rw [h.server]
    rfl
  unfold Loop.onReady at hw ⊢
  rw [hslots, h.history]
  cases recv with
  | none => exact ⟨rfl, rfl, h.server, h.mem⟩
  | some r =>
    cases r with
    | error e =>
      cases e with
      | disconnected => exact ⟨rfl, rfl, h.server, h.mem⟩
      | _ => exact ⟨rfl, rfl, h.server, h.mem⟩
    | ok m =>
      simp only at hw ⊢
      have hwithin : ∀ k, l.server.handleOneMessage env m = .ok k → k.SharesWithin S := by
        intro k hk
        rw [hk] at hw
        exact hw
      obtain ⟨f, hf, hrel⟩ := handleOneMessage_alike h.mem hbytes hwithin
      rw [h.server, hf]
      cases hm : l.server.handleOneMessage env m with
      | error e =>
        simp only [Except.map]
        cases e with
        | disconnected => exact ⟨rfl, rfl, rfl, h.mem⟩
        | _ => exact ⟨rfl, rfl, rfl, h.mem⟩
      | ok srv =>
        exact alike_of_server rfl rfl rfl (hrel srv hm)

/-- A step of `process_vring` does alike. -/
theorem onServe_alike (h : l.AlikeOn S l') (env : Env) (i : ℕ) (rest : List ℕ) (turn : Turn)
    (processed : ℕ) :
    (l.onServe env i rest turn processed).AlikeOn S (l'.onServe env i rest turn processed) := by
  have hmem := h.mem
  have hvrings : l'.server.vrings = l.server.vrings := by
    rw [h.server]
    rfl
  have hsession : l'.server.session = l.server.session := by
    rw [h.server]
    rfl
  unfold Loop.onServe
  rw [hvrings, hsession, h.history]
  generalize hx : l.server.mem = x at hmem
  generalize hy : l'.server.mem = y at hmem
  cases hmem with
  | none => exact ⟨rfl, rfl, h.server, h.mem⟩
  | some halike =>
    rename_i mem mem'
    cases l.server.vrings[i]?.bind VringSlot.vq with
    | none => exact ⟨rfl, rfl, h.server, h.mem⟩
    | some vq =>
      have hsame : Same (Device.AlikeOn S) (turnStep env vq turn ⟨l.server.session, mem⟩)
          (turnStep env vq turn ⟨l.server.session, mem'⟩) := turnStep_agrees vq turn _ _ ⟨rfl, halike⟩
      simp only
      generalize turnStep env vq turn ⟨l.server.session, mem⟩ = x at hsame
      generalize turnStep env vq turn ⟨l.server.session, mem'⟩ = y at hsame
      cases hsame with
      | error e hd =>
        refine alike_of_server rfl rfl ?_ (.some hd.mem)
        simp only [Server.withDevice, Server.withMem, hd.session]
        rw [h.server]
        rfl
      | ok r hd =>
        obtain ⟨vq', next⟩ := r
        cases next with
        | some turn' =>
          refine alike_of_server rfl rfl ?_ (.some hd.mem)
          simp only [Server.withDevice, Server.withMem, hd.session]
          rw [h.server]
          rfl
        | none =>
          refine alike_of_server rfl rfl ?_ (.some hd.mem)
          simp only [Server.withDevice, Server.withMem, hd.session]
          rw [h.server]
          rfl

private theorem step_alike (h : l.AlikeOn S l') (he : e.AlikeOn S e') (hs : l.step e = some k)
    (hw : k.server.SharesWithin S) : ∃ k', l'.step e' = some k' ∧ k.AlikeOn S k' := by
  cases he with
  | guest hbytes =>
    rename_i bytes bytes'
    cases hs
    refine ⟨_, rfl, alike_of_server h.phase h.history (by rw [h.server]; rfl) ?_⟩
    have hmem := h.mem
    generalize l.server.mem = x at hmem
    generalize l'.server.mem = y at hmem
    cases hmem with
    | none => exact .none
    | some halike => exact .some ⟨halike.regions, halike.within, hbytes⟩
  | poll env result hbytes =>
    unfold Loop.step at hs ⊢
    rw [h.phase]
    cases hphase : l.phase with
    | polling =>
      simp only [hphase] at hs
      cases result with
      | interrupted =>
        cases hs
        exact ⟨l', rfl, h⟩
      | failed errno =>
        cases hs
        exact ⟨_, rfl, rfl, h.history, h.server, h.mem⟩
      | ready recv hangup kicked =>
        cases hs
        exact ⟨_, rfl, onReady_alike h hbytes hw⟩
    | serving i rest turn n =>
      simp only [hphase] at hs
      cases hs
    | stopped r =>
      simp only [hphase] at hs
      cases hs
  | serve env =>
    unfold Loop.step at hs ⊢
    rw [h.phase]
    cases hphase : l.phase with
    | polling =>
      simp only [hphase] at hs
      cases hs
    | serving i rest turn n =>
      simp only [hphase] at hs
      cases hs
      exact ⟨_, rfl, onServe_alike h env i rest turn n⟩
    | stopped r =>
      simp only [hphase] at hs
      cases hs

end Steps

/-- Two runs with the same events, none of which declares a region that wraps, whose memories differ
only outside what is ever mapped, handle the same messages, pop the same heads, answer and notify
alike, and leave the same session. -/
theorem server_isolated (S : ℕ → Prop) (l l' k : Loop) (xs xs' : List Event)
    (hl : l.AlikeOn S l') (hfits : l.server.Fits)
    (hxs : List.Forall₂ (Event.AlikeOn S) xs xs')
    (hin : Along Loop.step (fun l e => e.Unwrapped ∧ ∀ k, l.step e = some k → k.server.Within S)
      l xs)
    (hrun : run Loop.step l xs = some k) :
    ∃ k', run Loop.step l' xs' = some k' ∧ k.AlikeOn S k' := by
  induction hxs generalizing l l' with
  | nil =>
    cases hrun
    exact ⟨l', rfl, hl⟩
  | cons he _ ih =>
    unfold run at hrun ⊢
    unfold Along at hin
    obtain ⟨⟨hunwrapped, hwithin⟩, hin₁⟩ := hin
    obtain ⟨l₁, hs, hrest⟩ := Option.bind_eq_some_iff.mp hrun
    have hfits₁ := step_fits hfits hunwrapped hs
    obtain ⟨l₁', hs', hl₁⟩ := step_alike hl he hs ((hwithin l₁ hs).shares hfits₁)
    rw [hs] at hin₁
    rw [hs', Option.bind_some]
    exact ih l₁ l₁' hl₁ hfits₁ hin₁ hrest

/-- Addresses of the region that `ringSetup` maps. -/
def guestPart (x : ℕ) : Prop := 0x4000 ≤ x ∧ x < 0x5000

instance : DecidablePred guestPart := fun _ => instDecidableAnd

/-- The same event in a process whose own memory is full of ones. -/
def otherwise : Event → Event
  | .guest bytes => .guest fun x => if guestPart x then bytes x else 0xff
  | .poll env result =>
    .poll (env.withBytes fun x => if guestPart x then env.map.bytes x else 0xff) result
  | .serve env => .serve env

private theorem otherwise_alike (e : Event) : e.AlikeOn guestPart (otherwise e) := by
  cases e with
  | guest bytes => exact .guest fun x hx => if_pos hx
  | poll env result => exact .poll env result fun x hx => if_pos hx
  | serve env => exact .serve env

/-- What is mapped lies in that region. -/
def mapsGuestPart (srv : Server) : Bool :=
  srv.mem.all fun mem => mem.regions.all fun r =>
    decide (0x4000 ≤ r.mmapBase) && decide (r.mmapBase + r.mmapLen.toNat ≤ 0x5000)

theorem mapsGuestPart_within {srv : Server} (h : mapsGuestPart srv = true) :
    srv.Within guestPart := by
  intro mem hmem x hx
  obtain ⟨r, hr, hlow, hhigh⟩ := hx
  unfold mapsGuestPart at h
  rw [hmem, Option.all_some] at h
  have hregion := List.all_eq_true.mp h r hr
  simp only [Bool.and_eq_true, decide_eq_true_eq] at hregion
  exact ⟨by omega, by omega⟩

/-- A request is served with other bytes in the rest of the process, and with the same outcome. -/
theorem server_isolated_request : ∃ k k',
    run Loop.step (.new (.new smallWorld)) (ringSetup ++ ringService) = some k ∧
    run Loop.step (.new (.new smallWorld)) ((ringSetup ++ ringService).map otherwise) = some k' ∧
    k'.history = k.history ∧ k.history.head? = some (.popped 0 0) ∧
    k'.server.session = k.server.session := by
  have hhead : (run Loop.step (.new (.new smallWorld)) (ringSetup ++ ringService)).map
      (fun l => l.history.head?) = some (some (.popped 0 0)) := by decide +kernel
  have hmaps : Along Loop.step (fun l e => e.Unwrapped ∧
      (l.step e).all (fun k => mapsGuestPart k.server) = true)
      (.new (.new smallWorld)) (ringSetup ++ ringService) := by decide +kernel
  obtain ⟨k, hrun, hk⟩ := Option.map_eq_some_iff.mp hhead
  have hxs : List.Forall₂ (Event.AlikeOn guestPart) (ringSetup ++ ringService)
      ((ringSetup ++ ringService).map otherwise) :=
    List.forall₂_map_right_iff.mpr (List.forall₂_same.mpr fun e _ => otherwise_alike e)
  have hin : Along Loop.step (fun l e => e.Unwrapped ∧
      ∀ k, l.step e = some k → k.server.Within guestPart)
      (.new (.new smallWorld)) (ringSetup ++ ringService) := by
    refine hmaps.mono fun l e h => ⟨h.1, fun k hs => ?_⟩
    have hpart := h.2
    rw [hs, Option.all_some] at hpart
    exact mapsGuestPart_within hpart
  obtain ⟨k', hrun', halike⟩ := server_isolated guestPart _ (.new (.new smallWorld)) k _ _
    ⟨rfl, rfl, rfl, .none⟩ (Server.fits_of_none rfl) hxs hin hrun
  refine ⟨k, k', hrun, hrun', halike.history, hk, ?_⟩
  rw [halike.server]
  rfl

/-- The byte `x` of the process is `v`, as far as the server can tell. -/
def Server.Holds (x : ℕ) (v : UInt8) (srv : Server) : Prop :=
  ∀ mem, srv.mem = some mem → mem.bytes x = v

/-- Neither the guest nor a new mapping puts anything but `v` at `x`. -/
def Event.Leaves (x : ℕ) (v : UInt8) : Event → Prop
  | .guest bytes => bytes x = v
  | .poll env _ => env.map.bytes x = v
  | .serve _ => True

section Steps
variable {x : ℕ} {v : UInt8} {l l' : Loop} {e : Event}

private theorem handleOneMessage_holds {env : MsgEnv} {srv srv' : Server} {m : Message}
    (h : srv.Holds x v) (henv : env.map.bytes x = v)
    (hm : srv.handleOneMessage env m = .ok srv') : srv'.Holds x v := by
  intro mem hmem
  unfold Server.handleOneMessage at hm
  cases hreq : Request.tryFrom m.header.request with
  | error e =>
    rw [hreq] at hm
    cases hm
    exact h mem hmem
  | ok request =>
    rw [hreq] at hm
    by_cases hr : request = .setMemTable
    · subst hr
      obtain ⟨mem₁, hmem₁, hbytes, -⟩ := setMemTable_mem hm
      rw [hmem₁] at hmem
      cases hmem
      rw [hbytes]
      exact henv
    · rw [dispatch_mem_same hr hm] at hmem
      exact h mem hmem

private theorem onReady_holds {env : MsgEnv} {recv : Option (Except ProtoError Message)}
    {hangup : Bool}
    {kicked : ℕ → Bool} (h : l.server.Holds x v) (henv : env.map.bytes x = v) :
    (l.onReady env recv hangup kicked).server.Holds x v := by
  unfold Loop.onReady
  cases recv with
  | none => exact h
  | some r =>
    cases r with
    | error e =>
      cases e with
      | disconnected => exact h
      | _ => exact h
    | ok m =>
      cases hm : l.server.handleOneMessage env m with
      | error e =>
        simp only [hm]
        cases e with
        | disconnected => exact h
        | _ => exact h
      | ok srv =>
        simp only [hm]
        exact handleOneMessage_holds h henv hm

private theorem onServe_holds (h : l.server.Holds x v)
    (hx : ∀ mem, l.server.mem = some mem → ¬mem.Shares x) (env : Env) (i : ℕ) (rest : List ℕ)
    (turn : Turn) (processed : ℕ) : (l.onServe env i rest turn processed).server.Holds x v := by
  unfold Loop.onServe
  cases hmem : l.server.mem with
  | none => exact h
  | some mem =>
    cases hvq : l.server.vrings[i]?.bind VringSlot.vq with
    | none => exact h
    | some vq =>
      have hbyte := (turnStep_shared env vq turn ⟨l.server.session, mem⟩).bytes x (hx mem hmem)
      simp only
      cases hturn : turnStep env vq turn ⟨l.server.session, mem⟩ with
      | error e d =>
        rw [hturn] at hbyte
        intro mem' hmem'
        cases hmem'
        exact hbyte.trans (h mem hmem)
      | ok r d =>
        rw [hturn] at hbyte
        obtain ⟨vq', next⟩ := r
        cases next with
        | none =>
          intro mem' hmem'
          cases hmem'
          exact hbyte.trans (h mem hmem)
        | some turn' =>
          intro mem' hmem'
          cases hmem'
          exact hbyte.trans (h mem hmem)

private theorem step_holds (h : l.server.Holds x v)
    (hx : ∀ mem, l.server.mem = some mem → ¬mem.Shares x)
    (he : e.Leaves x v) (hs : l.step e = some l') : l'.server.Holds x v := by
  unfold Loop.step at hs
  cases e with
  | guest bytes =>
    cases hs
    intro mem' hmem'
    obtain ⟨mem, -, rfl⟩ := Option.map_eq_some_iff.mp hmem'
    exact he
  | poll env result =>
    cases hphase : l.phase with
    | polling =>
      simp only [hphase] at hs
      cases result with
      | interrupted =>
        cases hs
        exact h
      | failed errno =>
        cases hs
        exact h
      | ready recv hangup kicked =>
        cases hs
        exact onReady_holds h he
    | serving i rest turn n =>
      simp only [hphase] at hs
      cases hs
    | stopped r =>
      simp only [hphase] at hs
      cases hs
  | serve env =>
    cases hphase : l.phase with
    | polling =>
      simp only [hphase] at hs
      cases hs
    | serving i rest turn n =>
      simp only [hphase] at hs
      cases hs
      exact onServe_holds h hx env i rest turn n
    | stopped r =>
      simp only [hphase] at hs
      cases hs

end Steps

/-- Whatever messages arrive, as long as none declares a region that wraps, and whatever the guest's
memory says, a byte that is mapped for no region at any step keeps its value. -/
theorem unmapped_untouched (x : ℕ) (v : UInt8) (l k : Loop) (xs : List Event)
    (hl : l.server.Holds x v) (hfits : l.server.Fits)
    (hxs : Along Loop.step (fun l e =>
      (∀ mem, l.server.mem = some mem → ¬mem.Maps x) ∧ e.Leaves x v ∧ e.Unwrapped) l xs)
    (hrun : run Loop.step l xs = some k) : k.server.Holds x v := by
  have hall : k.server.Holds x v ∧ k.server.Fits := by
    induction xs using List.reverseRecOn generalizing k with
    | nil =>
      cases hrun
      exact ⟨hl, hfits⟩
    | append_singleton xs e ih =>
      obtain ⟨l₁, hs, hstep⟩ := run_concat_some hrun
      obtain ⟨hxs₁, hlast⟩ := along_concat.mp hxs
      obtain ⟨hx, he, hunwrapped⟩ := hlast l₁ hs
      obtain ⟨hholds, hfits₁⟩ := ih l₁ hxs₁ hs
      have hunshared : ∀ mem, l₁.server.mem = some mem → ¬mem.Shares x :=
        fun mem hmem hshares => hx mem hmem ((hfits₁ mem hmem).maps hshares)
      exact ⟨step_holds hholds hunshared he hstep, step_fits hfits₁ hunwrapped hstep⟩
  exact hall.1

instance (x : ℕ) (v : UInt8) : (e : Event) → Decidable (e.Leaves x v)
  | .guest bytes => inferInstanceAs (Decidable (bytes x = v))
  | .poll env _ => inferInstanceAs (Decidable (env.map.bytes x = v))
  | .serve _ => .isTrue trivial

/-- The byte after the mapping is what it was when a request has been served. -/
theorem unmapped_untouched_request : ∃ k mem,
    run Loop.step (.new (.new smallWorld)) ((ringSetup ++ ringService).map otherwise) = some k ∧
    k.history.head? = some (.popped 0 0) ∧ k.server.mem = some mem ∧ mem.bytes 0x5000 = 0xff := by
  have hhead : (run Loop.step (.new (.new smallWorld)) ((ringSetup ++ ringService).map otherwise)).map
      (fun l => (l.history.head?, l.server.mem.isSome)) = some (some (.popped 0 0), true) := by
    decide +kernel
  have hmaps : Along Loop.step (fun l e =>
      mapsGuestPart l.server = true ∧ e.Leaves 0x5000 0xff ∧ e.Unwrapped)
      (.new (.new smallWorld)) ((ringSetup ++ ringService).map otherwise) := by decide +kernel
  obtain ⟨k, hrun, hk⟩ := Option.map_eq_some_iff.mp hhead
  obtain ⟨hpop, hmem⟩ := Prod.mk.inj hk
  obtain ⟨mem, hmem⟩ := Option.isSome_iff_exists.mp hmem
  refine ⟨k, mem, hrun, hpop, hmem, unmapped_untouched 0x5000 0xff _ k _ ?_
    (Server.fits_of_none rfl) ?_ hrun mem hmem⟩
  · intro mem h
    cases h
  · refine hmaps.mono fun l e h => ⟨fun mem hmem hx => ?_, h.2⟩
    have hpart := mapsGuestPart_within h.1 mem hmem 0x5000 hx
    exact absurd hpart (by decide)

end Riftlessfs.VhostUser
