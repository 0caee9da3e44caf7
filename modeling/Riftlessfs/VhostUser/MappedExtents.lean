import Riftlessfs.VhostUser.Isolation
import Riftlessfs.VhostUser.MappedSlices

/-! What is mapped for the regions of the memory table, over whole runs: as long as no region wraps,
all that the server reads and stores through a region lies in the mapping behind it. -/
namespace Riftlessfs.VhostUser
open Lib.Flat Lib.Effect Lib.Agreement Lib.Run Lib.LittleEndian Riftlessfs.Core Riftlessfs.Proto
  Riftlessfs.Fuse

/-- The byte lies in what was mapped for a region. -/
def GuestMemory.Maps (mem : GuestMemory) (x : ℕ) : Prop :=
  ∃ r ∈ mem.regions, r.mmapBase ≤ x ∧ x < r.mmapBase + r.mmapLen.toNat

/-- The usable part of every region lies in its mapping. -/
def GuestMemory.Fits (mem : GuestMemory) : Prop :=
  ∀ r ∈ mem.regions, r.mmapBase ≤ r.ptr ∧ r.ptr + r.len.toNat ≤ r.mmapBase + r.mmapLen.toNat

theorem GuestMemory.Fits.maps {mem : GuestMemory} {x : ℕ} (h : mem.Fits) (hx : mem.Shares x) :
    mem.Maps x := by
  obtain ⟨r, hr, hlow, hhigh⟩ := hx
  obtain ⟨hbase, hend⟩ := h r hr
  exact ⟨r, hr, by omega, by omega⟩

def Server.Fits (srv : Server) : Prop := ∀ mem, srv.mem = some mem → mem.Fits

theorem Server.fits_of_none {srv : Server} (h : srv.mem = none) : srv.Fits := by
  intro mem hmem
  rw [h] at hmem
  cases hmem

def Message.memTable (m : Message) : List MemoryRegion :=
  match Request.tryFrom m.header.request, MemoryRegions.fromBytes m.payload with
  | .ok .setMemTable, .ok regions => regions
  | _, _ => []

/-- The size of the region and the part of its offset below a page add up without wrapping. -/
def MemoryRegion.Unwrapped (env : MapEnv) (region : MemoryRegion) : Prop :=
  region.memorySize.toNat + region.mmapOffset.toNat % env.pageSize.toNat < 2 ^ 64

instance (env : MapEnv) (region : MemoryRegion) : Decidable (region.Unwrapped env) :=
  Nat.decLt _ _

/-- No region that a message declares wraps. -/
def Event.Unwrapped : Event → Prop
  | .poll env (.ready (some (.ok m)) _ _) => ∀ region ∈ m.memTable, region.Unwrapped env.map
  | _ => True

instance : (e : Event) → Decidable e.Unwrapped
  | .poll env (.ready (some (.ok m)) _ _) =>
    inferInstanceAs (Decidable (∀ region ∈ m.memTable, region.Unwrapped env.map))
  | .poll _ (.ready (some (.error _)) _ _) | .poll _ (.ready none _ _) | .poll _ .interrupted
  | .poll _ (.failed _) | .guest _ | .serve _ => .isTrue trivial

def Server.withMem (srv : Server) (mem : Option GuestMemory) : Server := { srv with mem }

/-- The host finds `bytes` mapped. -/
def MsgEnv.withBytes (env : MsgEnv) (bytes : ℕ → UInt8) : MsgEnv :=
  { env with map := { env.map with bytes } }

section Messages
variable {env : MsgEnv} {srv srv' : Server} {m : Message}

private theorem mapEach_ok {env : MapEnv} {regions : List (MemoryRegion × RawFd)}
    {mapped : List Region}
    (h : mapEach env regions = .ok mapped) {r : Region} (hr : r ∈ mapped) :
    ∃ region fd, (region, fd) ∈ regions ∧ mapOne env region fd = .ok r := by
  induction regions generalizing mapped with
  | nil =>
    cases h
    cases hr
  | cons p regions ih =>
    obtain ⟨region, fd⟩ := p
    unfold mapEach at h
    obtain ⟨r₀, hone, h⟩ := except_bind_ok h
    obtain ⟨rest, hrest, h⟩ := except_bind_ok h
    cases h
    rcases List.mem_cons.mp hr with rfl | hmem
    · exact ⟨region, fd, List.mem_cons_self, hone⟩
    · obtain ⟨region', fd', hin, hmap⟩ := ih hrest hmem
      exact ⟨region', fd', List.mem_cons_of_mem _ hin, hmap⟩

/-- A region that does not wrap lies in its mapping. -/
theorem mapOne_fits {env : MapEnv} {region : MemoryRegion} {fd : RawFd} {r : Region}
    (h : mapOne env region fd = .ok r) (hu : region.Unwrapped env) :
    r.mmapBase ≤ r.ptr ∧ r.ptr + r.len.toNat ≤ r.mmapBase + r.mmapLen.toNat := by
  obtain ⟨-, -, hlen, hptr, hmap⟩ := mapOne_ok h
  have hwhole := Nat.mod_eq_of_lt hu
  rw [hptr, hlen, hmap, hwhole]
  omega

/-- What a new region table is: the regions of the message, mapped, over the bytes the host finds
there. -/
theorem setMemTable_mem (h : srv.dispatch env m .setMemTable = .ok srv') :
    ∃ mem, srv'.mem = some mem ∧ mem.bytes = env.map.bytes ∧
      ∃ regions, MemoryRegions.fromBytes m.payload = .ok regions ∧
        mapEach env.map (regions.zip m.fds) = .ok mem.regions := by
  obtain ⟨regions, hregions, h⟩ := except_bind_ok h
  split_ifs at h
  split at h
  · cases h
  · rename_i mem hmap
    cases h
    unfold mapRegions at hmap
    split_ifs at hmap
    obtain ⟨mapped, heach, hmap⟩ := except_bind_ok hmap
    cases hmap
    exact ⟨_, rfl, rfl, regions, hregions, heach⟩

/-- Only `SET_MEM_TABLE` has to do with guest memory. -/
theorem dispatch_mem (env : MsgEnv) (srv : Server) (m : Message) (bytes' : ℕ → UInt8)
    (mem' : Option GuestMemory) {request : Request} (hr : request ≠ .setMemTable) :
    (srv.withMem mem').dispatch (env.withBytes bytes') m request =
      (srv.dispatch env m request).map fun s => s.withMem mem' := by
  have hreply : ∀ request body, (srv.withMem mem').reply (env.withBytes bytes') request body =
      (srv.reply env request body).map fun s => s.withMem mem' := by
    intro request body
    unfold Server.reply MsgEnv.withBytes
    cases env.send with
    | none => rfl
    | some e => rfl
  cases request with
  | setMemTable => exact absurd rfl hr
  | getFeatures | getProtocolFeatures | getQueueNum => exact hreply _ _
  | setOwner | resetOwner | setProtocolFeatures | setLogBase | setLogFd => rfl
  | setFeatures =>
    unfold Server.dispatch
    cases U64Payload.fromBytes m.payload with
    | error e => rfl
    | ok v => rfl
  | setVringAddr =>
    unfold Server.dispatch
    cases VringAddr.fromBytes m.payload with
    | error e => rfl
    | ok v => rfl
  | getVringBase =>
    unfold Server.dispatch
    cases VringState.fromBytes m.payload with
    | error e => rfl
    | ok v => exact hreply _ _
  | setVringNum | setVringBase | setVringEnable =>
    unfold Server.dispatch
    cases VringState.fromBytes m.payload with
    | error e => rfl
    | ok v => rfl
  | setVringKick | setVringCall | setVringErr =>
    unfold Server.dispatch
    cases VringFdPayload.fromBytes m.payload with
    | error e => rfl
    | ok v => rfl

theorem dispatch_mem_same {request : Request} (hr : request ≠ .setMemTable)
    (h : srv.dispatch env m request = .ok srv') : srv'.mem = srv.mem := by
  have hself : srv.dispatch env m request = (srv.dispatch env m request).map fun s =>
      s.withMem srv.mem := dispatch_mem env srv m env.map.bytes srv.mem hr
  rw [h] at hself
  have hsame : srv' = srv'.withMem srv.mem := Except.ok.inj hself
  rw [hsame]
  rfl

private theorem handleOneMessage_fits (h : srv.Fits)
    (hu : ∀ region ∈ m.memTable, region.Unwrapped env.map)
    (hm : srv.handleOneMessage env m = .ok srv') : srv'.Fits := by
  intro mem hmem
  unfold Server.handleOneMessage at hm
  cases hreq : Request.tryFrom m.header.request with
  | error e =>
    rw [hreq] at hm
    cases hm
    exact h mem hmem
  | ok request =>
    rw [hreq] at hm
    by_cases hr : request = .setMemTable
    · subst hr
      obtain ⟨mem₁, hmem₁, -, regions, hregions, heach⟩ := setMemTable_mem hm
      rw [hmem₁] at hmem
      cases hmem
      have htable : m.memTable = regions := by
        unfold Message.memTable
        rw [hreq, hregions]
      intro r hr
      obtain ⟨region, fd, hin, hone⟩ := mapEach_ok heach hr
      refine mapOne_fits hone (hu region ?_)
      rw [htable]
      exact (List.of_mem_zip hin).1
    · rw [dispatch_mem_same hr hm] at hmem
      exact h mem hmem

end Messages

section Serving

private theorem shares_regions {mem mem' : GuestMemory} (h : mem'.regions = mem.regions) {x : ℕ} :
    mem'.Shares x ↔ mem.Shares x := by
  unfold GuestMemory.Shares
  rw [h]

/-- The frame of what leaves the regions alone, and every byte that is not shared. -/
def sharedFrame : Frame VirtqueueError GuestMemory where
  pre _ := True
  rel mem mem' := SameBeyond mem.Shares mem mem'
  err _ := True
  refl _ := ⟨rfl, fun _ _ => rfl⟩
  trans h h' := by
    constructor
    · exact h'.regions.trans h.regions
    · intro x hx
      have hkept := h'.bytes x ((shares_regions h.regions).not.mpr hx)
      exact hkept.trans (h.bytes x hx)
  stable h _ := h

theorem inBounds_shared {α : Type} (f : GuestMemory → Option α) :
    Keeps sharedFrame (inBounds f) := by
  intro mem _
  cases hf : f mem with
  | none => exact keepsAt_of_error (inBounds_none hf) (sharedFrame.refl mem) trivial
  | some a => exact keepsAt_of_ok (inBounds_some hf) (sharedFrame.refl mem)

theorem copyIntoSlice_shared (space : AddrSpace) (addr : UInt64) {len : UInt64} {bs : List UInt8}
    (hbs : bs.length ≤ len.toNat) : Keeps sharedFrame (copyIntoSlice space addr len bs) := by
  intro mem hmem
  apply keepsAt_bind (inBounds_shared _ mem hmem)
  intro p mem₁ hfound
  obtain ⟨hp, rfl⟩ := inBounds_ok hfound
  have hstored : (modify fun mem => mem.poke p bs : MemM Unit) mem₁ = .ok () (mem₁.poke p bs) := rfl
  refine keepsAt_of_ok hstored ⟨rfl, fun x hx => store_outside ?_⟩
  by_contra hin
  exact hx (slicePtr_shares hp (by omega) (by omega))

private theorem pushUsed_shared (vq : Virtqueue) (head : UInt16) (written : UInt32) :
    Keeps sharedFrame (vq.pushUsed head written) := by
  apply keeps_bind (inBounds_shared _)
  intro usedIdx
  apply keeps_bind (copyIntoSlice_shared _ _ (leBytes_length 4 _).le)
  intro _
  apply keeps_bind (copyIntoSlice_shared _ _ (leBytes_length 4 _).le)
  intro _
  exact copyIntoSlice_shared _ _ (leBytes_length 2 _).le

private theorem final_onMem {α : Type} (m : MemM α) (d : Device) :
    (final (onMem m d)).mem = final (m d.mem) := by
  unfold onMem
  cases m d.mem with
  | ok a mem => rfl
  | error e mem => rfl

/-- A step of a turn, completed or not, stores to shared bytes only. -/
theorem turnStep_shared (env : Env) (vq : Virtqueue) (turn : Turn) (d : Device) :
    SameBeyond d.mem.Shares d.mem (final (turnStep env vq turn d)).mem := by
  cases turn with
  | popAvail =>
    have hmem : (final (onPop vq d)).mem = d.mem := by
      unfold onPop
      split
      · rfl
      · rfl
      · rfl
    show SameBeyond _ _ (final ((onPop vq >>= fun r => pure (r.2, r.1.map Turn.readChain)) d)).mem
    rw [final_bind_pure, hmem]
    exact SameBeyond.refl d.mem
  | readChain head =>
    show SameBeyond _ _ (final ((onQueue (fun mem => vq.readChain mem head) >>= fun chain =>
      pure (vq, some (Turn.service head chain))) d)).mem
    rw [final_bind_pure, onQueue_mem]
    exact SameBeyond.refl d.mem
  | service head chain =>
    have hkeeps : Keeps (deviceFrame d.mem chain.writable) (serveChain env chain) :=
      keeps_bind (onQueue_keeps _) fun headerPrefix => servePath_keeps headerPrefix _
    have hsame := (hkeeps d rfl).1
    show SameBeyond _ _ (final ((serveChain env chain >>= fun n =>
      pure (vq, some (Turn.pushUsed head n))) d)).mem
    rw [final_bind_pure]
    exact ⟨hsame.regions, fun x hx => hsame.bytes x fun hin => hx (inBuffers_shares hin)⟩
  | pushUsed head written =>
    show SameBeyond _ _ (final ((onMem (vq.pushUsed head written) >>= fun _ =>
      pure (vq, some Turn.popAvail)) d)).mem
    rw [final_bind_pure, final_onMem]
    exact (pushUsed_shared vq head written d.mem trivial).1

end Serving

section Steps
variable {l l' : Loop} {e : Event}

private theorem onReady_fits {env : MsgEnv} {recv : Option (Except ProtoError Message)}
    {hangup : Bool}
    {kicked : ℕ → Bool} (h : l.server.Fits)
    (hu : Event.Unwrapped (.poll env (.ready recv hangup kicked))) :
    (l.onReady env recv hangup kicked).server.Fits := by
  unfold Loop.onReady
  cases recv with
  | none => exact h
  | some r =>
    cases r with
    | error e =>
      cases e with
      | disconnected => exact h
      | _ => exact h
    | ok m =>
      cases hm : l.server.handleOneMessage env m with
      | error e =>
        simp only [hm]
        cases e with
        | disconnected => exact h
        | _ => exact h
      | ok srv =>
        simp only [hm]
        exact handleOneMessage_fits h hu hm

/-- Serving a ring leaves the regions as they are. -/
theorem onServe_regions (env : Env) (i : ℕ) (rest : List ℕ) (turn : Turn) (processed : ℕ) :
    (l.onServe env i rest turn processed).server.mem.map GuestMemory.regions =
      l.server.mem.map GuestMemory.regions := by
  unfold Loop.onServe
  cases hmem : l.server.mem with
  | none => exact congrArg _ hmem
  | some mem =>
    cases hvq : l.server.vrings[i]?.bind VringSlot.vq with
    | none => exact congrArg _ hmem
    | some vq =>
      have hregions := (turnStep_shared env vq turn ⟨l.server.session, mem⟩).regions
      simp only
      cases hturn : turnStep env vq turn ⟨l.server.session, mem⟩ with
      | error e d =>
        rw [hturn] at hregions
        exact congrArg some hregions
      | ok r d =>
        rw [hturn] at hregions
        obtain ⟨vq', next⟩ := r
        cases next with
        | none => exact congrArg some hregions
        | some turn' => exact congrArg some hregions

theorem step_fits (h : l.server.Fits) (hu : e.Unwrapped) (hs : l.step e = some l') :
    l'.server.Fits := by
  unfold Loop.step at hs
  cases e with
  | guest bytes =>
    cases hs
    intro mem' hmem'
    obtain ⟨mem, hmem, rfl⟩ := Option.map_eq_some_iff.mp hmem'
    exact h mem hmem
  | poll env result =>
    cases hphase : l.phase with
    | polling =>
      simp only [hphase] at hs
      cases result with
      | interrupted =>
        cases hs
        exact h
      | failed errno =>
        cases hs
        exact h
      | ready recv hangup kicked =>
        cases hs
        exact onReady_fits h hu
    | serving i rest turn n =>
      simp only [hphase] at hs
      cases hs
    | stopped r =>
      simp only [hphase] at hs
      cases hs
  | serve env =>
    cases hphase : l.phase with
    | polling =>
      simp only [hphase] at hs
      cases hs
    | serving i rest turn n =>
      simp only [hphase] at hs
      cases hs
      intro mem' hmem'
      have hsame := onServe_regions (l := l) env i rest turn n
      rw [hmem'] at hsame
      obtain ⟨mem, hmem, hregions⟩ := Option.map_eq_some_iff.mp hsame.symm
      unfold GuestMemory.Fits
      rw [← hregions]
      exact h mem hmem
    | stopped r =>
      simp only [hphase] at hs
      cases hs

end Steps

end Riftlessfs.VhostUser
