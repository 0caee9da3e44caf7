import Riftlessfs.Lib.Run
import Riftlessfs.Core.Call
import Riftlessfs.VhostUser.Server

/-! Who owns the descriptors that come with messages: the rings hold their doorbells, and what a
message does not take is never closed. -/
namespace Riftlessfs.VhostUser
open Lib.Effect Lib.Run Riftlessfs.Core Riftlessfs.Proto Riftlessfs.Fuse

def VringSlot.fds (slot : VringSlot) : Multiset RawFd :=
  (slot.kickFd.toList : Multiset RawFd) + slot.callFd.toList

def Server.held (srv : Server) : Multiset RawFd := (srv.vrings.map VringSlot.fds).sum

/-- The received descriptors still open are those the rings hold, each held once. -/
def Server.OwnsAll (srv : Server) : Prop :=
  (srv.openFds : Multiset RawFd) = srv.held ∧ srv.held.Nodup

instance (srv : Server) : Decidable srv.OwnsAll := inferInstanceAs (Decidable (_ ∧ _))

/-- The descriptors of a message that become owned while it is handled. -/
def Server.takes (srv : Server) (m : Message) : List RawFd :=
  match Request.tryFrom m.header.request, VringFdPayload.fromBytes m.payload with
  | .ok .setVringKick, .ok p | .ok .setVringCall, .ok p =>
    if p.index.toNat < srv.vrings.length then (takeFd m.fds p.noFd).toList else []
  | .ok .setVringErr, .ok p => (takeFd m.fds p.noFd).toList
  | _, _ => []

/-- The descriptors of a message that nothing takes. -/
def Server.spare (srv : Server) (m : Message) : List RawFd := m.fds.drop (srv.takes m).length

def Server.onMessage (srv : Server) (x : MsgEnv × Message) : Option Server :=
  (srv.handleOneMessage x.1 x.2).toOption

/-- The kernel numbers the descriptors of a message apart from each other and from those open. -/
def Arrives (srv : Server) (x : MsgEnv × Message) : Prop :=
  x.2.fds.Nodup ∧ ∀ fd ∈ x.2.fds, fd ∉ srv.openFds

instance (srv : Server) (x : MsgEnv × Message) : Decidable (Arrives srv x) :=
  have : Decidable (∀ fd ∈ x.2.fds, fd ∉ srv.openFds) :=
    List.decidableBAll (fun fd : RawFd => fd ∉ srv.openFds) x.2.fds
  inferInstanceAs (Decidable (_ ∧ _))

/-- A message brings only descriptors that are taken. -/
def Server.TakesAll (srv : Server) (x : MsgEnv × Message) : Prop := srv.spare x.2 = []

instance (srv : Server) (x : MsgEnv × Message) : Decidable (srv.TakesAll x) :=
  inferInstanceAs (Decidable (_ = _))

section Rings
variable {vrings : List VringSlot} {i : ℕ} {slot : VringSlot} {f : VringSlot → VringSlot}

/-- Changing one ring changes what is held by that ring's part. -/
theorem sum_modify (h : vrings[i]? = some slot) (f : VringSlot → VringSlot) :
    ((vrings.modify i f).map VringSlot.fds).sum + slot.fds =
      (vrings.map VringSlot.fds).sum + (f slot).fds := by
  induction vrings generalizing i with
  | nil => simp at h
  | cons s rest ih =>
    cases i with
    | zero =>
      cases h
      simp only [List.modify_zero_cons, List.map_cons, List.sum_cons]
      abel
    | succ i =>
      have hrest := ih (i := i) h
      simp only [List.modify_succ_cons, List.map_cons, List.sum_cons, add_assoc, hrest]

private theorem sum_modify_same (h : ∀ s : VringSlot, (f s).fds = s.fds) (i : ℕ) :
    ((vrings.modify i f).map VringSlot.fds).sum = (vrings.map VringSlot.fds).sum := by
  cases hslot : vrings[i]? with
  | none => rw [List.modify_eq_self (List.getElem?_eq_none_iff.mp hslot)]
  | some slot =>
    have hsum := sum_modify hslot f
    rw [h] at hsum
    exact add_right_cancel hsum

private theorem maybeBuild_fds (slot : VringSlot) (a : VringAddr) :
    (slot.maybeBuild a).fds = slot.fds := by
  unfold VringSlot.maybeBuild
  cases slot.queueSize with
  | none => rfl
  | some qs => rfl

end Rings

section Take
variable {fds : List RawFd} {noFd : Bool}

theorem takeFd_split (fds : List RawFd) (noFd : Bool) :
    (takeFd fds noFd).toList ++ fds.drop (takeFd fds noFd).toList.length = fds := by
  unfold takeFd
  split_ifs with h
  · rfl
  · cases fds with
    | nil => rfl
    | cons fd rest => rfl

theorem close_openFds (srv : Server) (fd : Option RawFd) :
    ((srv.close fd).openFds : Multiset RawFd) = (srv.openFds : Multiset RawFd) - fd.toList := by
  cases fd with
  | none => simp [Server.close]
  | some fd => simp [Server.close, Multiset.sub_singleton]

end Take

section Balance
variable {env : MsgEnv} {srv srv' : Server} {m : Message}

/-- A ring's doorbell is replaced by a received one, and the old one is closed. -/
theorem doorbell_balance {i : ℕ} {slot : VringSlot} {f : VringSlot → VringSlot}
    {old new : Option RawFd} {spare : Multiset RawFd} (hslot : srv.vrings[i]? = some slot)
    (hswap : (f slot).fds + old.toList = slot.fds + new.toList)
    (hopen : (srv.openFds : Multiset RawFd) = srv.held + (new.toList + spare)) :
    (((srv.close old).onSlot i f).openFds : Multiset RawFd) =
      ((srv.close old).onSlot i f).held + spare := by
  have hsum : ((srv.close old).onSlot i f).held + slot.fds = srv.held + (f slot).fds :=
    sum_modify hslot f
  have hheld : srv.held + new.toList = ((srv.close old).onSlot i f).held + old.toList := by
    apply add_right_cancel (b := slot.fds)
    calc srv.held + new.toList + slot.fds
        = srv.held + (slot.fds + new.toList) := by abel
      _ = srv.held + (f slot).fds + old.toList := by rw [← hswap, add_assoc]
      _ = ((srv.close old).onSlot i f).held + old.toList + slot.fds := by
        rw [← hsum]
        abel
  have hclose : (((srv.close old).onSlot i f).openFds : Multiset RawFd) =
      (srv.openFds : Multiset RawFd) - old.toList := close_openFds srv old
  rw [hclose, hopen, ← add_assoc, hheld, add_right_comm, add_tsub_cancel_right]

/-- A change of a ring that leaves its doorbells alone. -/
theorem onSlot_balance {f : VringSlot → VringSlot} {spare : Multiset RawFd} (i : ℕ)
    (hf : ∀ slot : VringSlot, (f slot).fds = slot.fds)
    (hopen : (srv.openFds : Multiset RawFd) = srv.held + spare) :
    ((srv.onSlot i f).openFds : Multiset RawFd) = (srv.onSlot i f).held + spare := by
  have hheld : (srv.onSlot i f).held = srv.held := sum_modify_same hf i
  rw [hheld]
  exact hopen

theorem close_le (srv : Server) (fd : Option RawFd) :
    ((srv.close fd).openFds : Multiset RawFd) ≤ srv.openFds := by
  rw [close_openFds]
  exact tsub_le_self

/-- `SET_VRING_KICK` or `SET_VRING_CALL` of the descriptor that comes first, if there is such a
ring. -/
theorem doorbell_message {fds : List RawFd} {noFd : Bool} (i : ℕ)
    {get : VringSlot → Option RawFd} {f : VringSlot → VringSlot}
    (hswap : ∀ slot : VringSlot,
      (f slot).fds + (get slot).toList = slot.fds + (takeFd fds noFd).toList)
    (hopen : (srv.openFds : Multiset RawFd) = srv.held + fds) :
    (((srv.close (srv.vrings[i]?.bind get)).onSlot i f).openFds : Multiset RawFd) =
      ((srv.close (srv.vrings[i]?.bind get)).onSlot i f).held +
        (fds.drop (if i < srv.vrings.length then (takeFd fds noFd).toList else []).length :
          List RawFd) := by
  cases hslot : srv.vrings[i]? with
  | none =>
    have hlen := List.getElem?_eq_none_iff.mp hslot
    have hrings : ((srv.close none).onSlot i f).vrings = srv.vrings := List.modify_eq_self hlen
    rw [if_neg (Nat.not_lt.mpr hlen)]
    unfold Server.held
    rw [Option.bind_none, hrings]
    exact hopen
  | some slot =>
    rw [if_pos (List.getElem?_eq_some_iff.mp hslot).1]
    refine doorbell_balance hslot (hswap slot) ?_
    rw [hopen, Multiset.coe_add, takeFd_split]

/-- After a message the open descriptors are those the rings hold and those it did not take. -/
theorem handleOneMessage_balance (h : srv.handleOneMessage env m = .ok srv')
    (hown : (srv.openFds : Multiset RawFd) = srv.held) :
    (srv'.openFds : Multiset RawFd) = srv'.held + srv.spare m ∧
      (srv'.openFds : Multiset RawFd) ≤ srv.openFds + m.fds := by
  have hopen : ((srv.openFds ++ m.fds : List RawFd) : Multiset RawFd) = srv.held + m.fds := by
    rw [← Multiset.coe_add, hown]
  unfold Server.spare Server.takes
  unfold Server.handleOneMessage at h
  cases hreq : Request.tryFrom m.header.request with
  | error e =>
    rw [hreq] at h
    cases h
    exact ⟨hopen, le_refl _⟩
  | ok request =>
    rw [hreq] at h
    simp only at h
    cases request with
    | getFeatures | getProtocolFeatures | getQueueNum =>
      rw [reply_ok h]
      exact ⟨hopen, le_refl _⟩
    | setOwner | resetOwner | setProtocolFeatures | setLogBase | setLogFd =>
      cases h
      exact ⟨hopen, le_refl _⟩
    | setFeatures =>
      obtain ⟨_, -, h⟩ := except_bind_ok h
      cases h
      exact ⟨hopen, le_refl _⟩
    | setMemTable =>
      obtain ⟨regions, -, h⟩ := except_bind_ok h
      split at h
      · cases h
      split at h
      · cases h
      · cases h
        exact ⟨hopen, le_refl _⟩
    | getVringBase =>
      obtain ⟨s, -, h⟩ := except_bind_ok h
      rw [reply_ok h]
      exact ⟨hopen, le_refl _⟩
    | setVringNum | setVringBase | setVringEnable =>
      obtain ⟨s, -, h⟩ := except_bind_ok h
      cases h
      exact ⟨onSlot_balance _ (fun _ => rfl) hopen, le_refl _⟩
    | setVringAddr =>
      obtain ⟨a, -, h⟩ := except_bind_ok h
      cases h
      exact ⟨onSlot_balance _ (fun slot => maybeBuild_fds slot a) hopen, le_refl _⟩
    | setVringKick =>
      obtain ⟨p, hp, h⟩ := except_bind_ok h
      cases h
      rw [hp]
      refine ⟨doorbell_message p.index.toNat ?_ hopen, close_le _ _⟩
      intro slot
      unfold VringSlot.fds
      abel
    | setVringCall =>
      obtain ⟨p, hp, h⟩ := except_bind_ok h
      cases h
      rw [hp]
      refine ⟨doorbell_message p.index.toNat ?_ hopen, close_le _ _⟩
      intro slot
      unfold VringSlot.fds
      abel
    | setVringErr =>
      obtain ⟨p, hp, h⟩ := except_bind_ok h
      cases h
      rw [hp]
      refine ⟨?_, close_le _ _⟩
      have hsplit : (m.fds : Multiset RawFd) = (takeFd m.fds p.noFd).toList +
          (m.fds.drop (takeFd m.fds p.noFd).toList.length : List RawFd) := by
        rw [Multiset.coe_add, takeFd_split]
      rw [close_openFds]
      refine (congrArg (· - _) hopen).trans ?_
      dsimp only
      nth_rewrite 1 [hsplit]
      rw [← add_assoc, add_right_comm, add_tsub_cancel_right]
      rfl

end Balance

section Runs
variable {srv srv' : Server} {x : MsgEnv × Message} {xs : List (MsgEnv × Message)}

/-- From a server that owns all, a message leads to one exactly if it brings nothing spare. -/
theorem onMessage_ownsAll (hown : srv.OwnsAll) (harr : Arrives srv x)
    (h : srv.onMessage x = some srv') : srv'.OwnsAll ↔ srv.TakesAll x := by
  have hok : srv.handleOneMessage x.1 x.2 = .ok srv' := by
    unfold Server.onMessage at h
    cases hres : srv.handleOneMessage x.1 x.2 with
    | error e =>
      rw [hres] at h
      cases h
    | ok s =>
      rw [hres] at h
      cases h
      rfl
  obtain ⟨hopen, hle⟩ := handleOneMessage_balance hok hown.1
  constructor
  · rintro ⟨hheld, -⟩
    rw [hheld] at hopen
    have hzero : ((srv.spare x.2 : List RawFd) : Multiset RawFd) = 0 := left_eq_add.mp hopen
    exact Multiset.coe_eq_zero _ |>.mp hzero
  · intro htakes
    have hheld : (srv'.openFds : Multiset RawFd) = srv'.held := by
      rw [hopen, show srv.spare x.2 = [] from htakes]
      exact add_zero _
    have hnodup : ((srv.openFds : Multiset RawFd) + x.2.fds).Nodup := by
      refine Multiset.nodup_add.mpr ⟨hown.1 ▸ hown.2, Multiset.coe_nodup.mpr harr.1, ?_⟩
      rw [Multiset.disjoint_left]
      intro fd hfd hnew
      exact harr.2 fd hnew hfd
    exact ⟨hheld, hheld ▸ Multiset.nodup_of_le hle hnodup⟩

/-- After each message the open received descriptors are exactly the rings' doorbells, as long as
every message brings only descriptors that are taken, and no longer. -/
theorem owns_all_iff_takes_all (session : Session) (xs : List (MsgEnv × Message))
    (hrun : run Server.onMessage (.new session) xs = some srv')
    (harr : Along Server.onMessage Arrives (.new session) xs) :
    (∀ ys, ys <+: xs → ∃ srv, run Server.onMessage (.new session) ys = some srv ∧ srv.OwnsAll) ↔
      Along Server.onMessage Server.TakesAll (.new session) xs := by
  refine prefixes_iff_along (J := fun xs srv => srv.OwnsAll ∧ Along Server.onMessage Arrives srv xs ∧
    ∃ srv', run Server.onMessage srv xs = some srv') (fun _ _ h => h.1) ?_
    ⟨⟨rfl, Multiset.nodup_zero⟩, harr, srv', hrun⟩
  rintro x xs srv ⟨hown, harr, srv₂, hrun⟩
  obtain ⟨srv₁, hstep, hrest⟩ := Option.bind_eq_some_iff.mp hrun
  unfold Along at harr
  rw [hstep] at harr
  exact ⟨srv₁, hstep, onMessage_ownsAll hown harr.1 hstep, fun hown₁ => ⟨hown₁, harr.2, srv₂, hrest⟩⟩

end Runs

/-- A host that maps any memory and takes any reply. -/
def openHost : MsgEnv := ⟨⟨4096, fun _ _ _ => .ok 0x4000, fun _ => 0⟩, none⟩

def doorbell (request : Request) (p : VringFdPayload) (fds : List RawFd) : Message :=
  ⟨.new request 0 8, p.toBytes, fds⟩

/-- Messages with a descriptor that nothing takes: a memory table, a second doorbell, a masked
one, one for a ring that is not there, an ignored request and an unknown one. -/
def leakyMessages : List Message :=
  [⟨.new .setMemTable 0 40, MemoryRegions.toBytes [⟨0x1000, 0x1000, 0x10000, 0⟩], [7]⟩,
    doorbell .setVringKick ⟨0, false⟩ [8, 7], doorbell .setVringKick ⟨0, true⟩ [7],
    doorbell .setVringCall ⟨9, false⟩ [7], ⟨.new .setLogFd 0 0, [], [7]⟩, ⟨⟨99, 1, 0⟩, [], [7]⟩]

/-- Each is handled and leaves descriptor 7 open, which no ring holds. -/
theorem untaken_fds_leak :
    leakyMessages.map (fun m => ((Server.new (.new smallWorld)).onMessage (openHost, m)).map
      fun srv => (srv.openFds.contains 7, decide (7 ∈ srv.held), decide srv.OwnsAll)) =
    List.replicate 6 (some (true, false, false)) := by
  decide +kernel

/-- Doorbells set, replaced and unset, and an error descriptor, each alone in its message. -/
def doorbellRun : List (MsgEnv × Message) :=
  [(openHost, doorbell .setVringKick ⟨0, false⟩ [7]), (openHost, doorbell .setVringCall ⟨0, false⟩ [8]),
    (openHost, doorbell .setVringKick ⟨0, false⟩ [9]), (openHost, doorbell .setVringErr ⟨0, false⟩ [7]),
    (openHost, doorbell .setVringCall ⟨0, true⟩ [])]

theorem owns_all_doorbells : doorbellRun.length = 5 ∧ ∀ ys, ys <+: doorbellRun →
    ∃ srv, run Server.onMessage (.new (.new smallWorld)) ys = some srv ∧ srv.OwnsAll := by
  have hsome : (run Server.onMessage (.new (.new smallWorld)) doorbellRun).isSome = true := by
    decide +kernel
  obtain ⟨srv, hrun⟩ := Option.isSome_iff_exists.mp hsome
  exact ⟨rfl, (owns_all_iff_takes_all (.new smallWorld) doorbellRun hrun (by decide +kernel)).mpr
    (by decide +kernel)⟩

end Riftlessfs.VhostUser
