import Riftlessfs.VhostUser.ChainReply
import Riftlessfs.Fuse.Replies

/-! The used length of a chain against the length its reply header states. -/
namespace Riftlessfs.VhostUser
open Lib.Flat Lib.Effect Riftlessfs.Core Riftlessfs.Proto Riftlessfs.Fuse

section Framed
variable {α : Type} {env : Env} {cap : ℕ} {chain : DescChain} {d : Device} {b : Bytes}
  {s' : Session}

theorem answered_framed {unique : UInt64} {s : Session} {enc : α → Bytes}
    {res : EStateM.Result Stop World α} (h : answered unique s enc res = (some (.bytes b), s')) :
    ∃ unique error body, b = OutHeader.reply unique error body := by
  cases res with
  | ok a w =>
    cases h
    exact ⟨unique, 0, enc a, rfl⟩
  | error e w =>
    cases e with
    | fail e =>
      cases h
      exact ⟨unique, _, [], rfl⟩
    | panic => cases h

theorem plainReply_framed (h : plainReply env chain d = .ok (some (.bytes b), s')) :
    ∃ unique error body, b = OutHeader.reply unique error body := by
  obtain ⟨request, -, h⟩ := except_bind_ok h
  exact handle_framed (Except.ok.inj h)

/-- Whatever path a chain takes, its reply is a header followed by a body. -/
theorem chainReply_framed (h : chainReply env cap chain d = .ok (some (.bytes b), s')) :
    ∃ unique error body, b = OutHeader.reply unique error body := by
  obtain ⟨headerPrefix, -, h⟩ := except_bind_ok h
  cases hop : peekOpcode headerPrefix with
  | write =>
    rw [hop] at h
    unfold pathReply at h
    simp only at h
    split at h
    · obtain ⟨iov, -, h⟩ := except_bind_ok h
      exact answered_framed (Except.ok.inj h)
    · exact plainReply_framed h
  | read =>
    rw [hop] at h
    unfold pathReply at h
    simp only at h
    split at h
    · exact answered_framed (Except.ok.inj h)
    · exact plainReply_framed h
  | _ =>
    rw [hop] at h
    exact plainReply_framed h

/-- The zero-copy path of `READ` never replies with more than there is room for. -/
theorem chainReply_read_fits {headerPrefix : Bytes} {header : InHeader} {r : ReadIn}
    (hpre : gatherReadablePrefix d.mem chain REQUEST_HEADER_LEN = .ok headerPrefix)
    (hop : peekOpcode headerPrefix = .read) (hh : InHeader.fromBytes headerPrefix = .ok header)
    (hr : ReadIn.fromBytes (InHeader.body headerPrefix) = .ok r)
    (h : chainReply env cap chain d = .ok (some (.bytes b), s')) (hcap : OUT_HEADER_LEN ≤ cap) :
    b.length ≤ cap := by
  unfold chainReply at h
  rw [hpre] at h
  have hpath : pathReply env cap chain d headerPrefix (peekOpcode headerPrefix) =
    .ok (some (.bytes b), s') := h
  rw [hop] at hpath
  unfold pathReply at hpath
  simp only [hh, hr] at hpath
  have hans := Except.ok.inj hpath
  cases hread : PassthroughFs.read env r.fh r.offset (min r.size.toNat (cap - OUT_HEADER_LEN))
      d.session.world with
  | ok data w =>
    rw [hread] at hans
    cases hans
    have hlen := read_length hread
    have heq : (OutHeader.reply header.unique 0 data).length = OUT_HEADER_LEN + data.length :=
      OutHeader.reply_length header.unique 0 data
    show (OutHeader.reply header.unique 0 data).length ≤ cap
    omega
  | error e w =>
    rw [hread] at hans
    cases e with
    | fail e =>
      cases hans
      have hlen : (OutHeader.errorFor header.unique e.errno).length = OUT_HEADER_LEN := by
        unfold OutHeader.errorFor
        rw [OutHeader.reply_length]
        simp
      exact hlen.trans_le hcap
    | panic => cases hans

end Framed

/-- The `len` field a chain's reply starts with is the used length published for it exactly
when the reply fits the writable segments, or overshoots them by a multiple of `2 ^ 32`. -/
theorem used_length_iff (env : Env) (d : Device) (chain : DescChain) (b : Bytes) (s' : Session)
    (hm : d.mem.Regular .gpa) (hh : d.mem.HostApart) (hwrite : Mapped d.mem chain.writable)
    (hapart : SegmentsApart chain.writable) (hb : chain.Bounded)
    (hcap : OUT_HEADER_LEN ≤ chain.capacity)
    (hreply : chainReply env chain.capacity chain d = .ok (some (.bytes b), s')) :
    ∃ n d' area, serveChain env chain d = .ok n d' ∧
      gatherSegments d'.mem chain.writable [] = .ok area ∧
      (natAt area 0 4 = n.toNat ↔
        b.length ≤ chain.capacity ∨ b.length % 2 ^ 32 = chain.capacity % 2 ^ 32) := by
  obtain ⟨hw, hhw⟩ := hwrite.hosts
  have hsep := hhw.separate hh hapart
  have hsum : capacity hw = chain.capacity := hhw.capacity_eq
  obtain ⟨unique, error, body, rfl⟩ := chainReply_framed hreply
  have hserve := serveChain_settled env hm hhw hsep hb
  rw [hsum, hreply] at hserve
  have hlong : OUT_HEADER_LEN ≤ (OutHeader.reply unique error body).length := by
    rw [OutHeader.reply_length]
    exact Nat.le_add_right _ _
  have hlen := OutHeader.reply_len unique error body
  generalize OutHeader.reply unique error body = b at hserve hlong hlen ⊢
  have hmapped : Hosts { d.mem with bytes := scatter d.mem.bytes hw b } chain.writable hw := hhw
  have harea : gatherSegments { d.mem with bytes := scatter d.mem.bytes hw b } chain.writable [] =
      .ok (gather (scatter d.mem.bytes hw b) hw) :=
    gatherSegments_eq hmapped []
  refine ⟨_, _, _, hserve, harea, ?_⟩
  have hfield : natAt (gather (scatter d.mem.bytes hw b) hw) 0 4 = b.length % 2 ^ 32 := by
    unfold OUT_HEADER_LEN at hcap hlong
    rw [gather_scatter hsep, natAt_append_left (by rw [List.length_take]; omega),
      natAt_take (by omega), hlen]
  have hused : (UInt32.ofNat (min b.length (capacity hw))).toNat =
      min b.length (capacity hw) % 2 ^ 32 := rfl
  rw [hfield, hused, hsum]
  omega

def tightGetattr : DescChain := ⟨0, [(0x1000, 56)], [(0x1800, 100)]⟩

def getattrRoot : Bytes := encodeRequest 3 1 (List.replicate 16 0)

/-- A reply longer than the area it gets is cut, while its header keeps the full length. -/
theorem truncated_reply_disagrees : ∃ n d' area,
    serveChain (calm 20 []) tightGetattr (smallDevice getattrRoot) = .ok n d' ∧
    gatherSegments d'.mem tightGetattr.writable [] = .ok area ∧
    OUT_HEADER_LEN ≤ tightGetattr.capacity ∧ natAt area 0 4 = 120 ∧ n = 100 := by
  have heval : (match serveChain (calm 20 []) tightGetattr (smallDevice getattrRoot) with
      | .ok n d' => (gatherSegments d'.mem tightGetattr.writable []).toOption.map
          fun area => (n, natAt area 0 4)
      | .error _ _ => none) = some (100, 120) := by decide +kernel
  cases hserve : serveChain (calm 20 []) tightGetattr (smallDevice getattrRoot) with
  | error e d' =>
    rw [hserve] at heval
    cases heval
  | ok n d' =>
    rw [hserve] at heval
    cases harea : gatherSegments d'.mem tightGetattr.writable [] with
    | error e =>
      simp only [harea] at heval
      cases heval
    | ok area =>
      simp only [harea] at heval
      obtain ⟨hn, hfield⟩ := Prod.mk.inj (Option.some.inj heval)
      exact ⟨n, d', area, rfl, harea, by decide, hfield, hn⟩

/-- The used length of a `READ` of an open file, cut into pieces, is the one its header states. -/
theorem used_length_cut_read : ∃ n d' area,
    serveChain (calm 21 []) cutRead (fileDevice [5, 6, 7, 8] (encodeRead 1 1 20)) = .ok n d' ∧
    gatherSegments d'.mem cutRead.writable [] = .ok area ∧ natAt area 0 4 = n.toNat ∧
    n = 19 := by
  have hbytes : (chainReply (calm 21 []) cutRead.capacity cutRead
      (fileDevice [5, 6, 7, 8] (encodeRead 1 1 20))).toOption.map Prod.fst =
      some (some (.bytes (OutHeader.reply 1 0 [6, 7, 8]))) := by
    decide +kernel
  have hused : value (serveChain (calm 21 []) cutRead
      (fileDevice [5, 6, 7, 8] (encodeRead 1 1 20))) = some 19 := by
    decide +kernel
  cases hreply : chainReply (calm 21 []) cutRead.capacity cutRead
      (fileDevice [5, 6, 7, 8] (encodeRead 1 1 20)) with
  | error e =>
    rw [hreply] at hbytes
    cases hbytes
  | ok r =>
    obtain ⟨reply, s'⟩ := r
    rw [hreply] at hbytes
    cases Option.some.inj hbytes
    obtain ⟨n, d', area, hserve, harea, hiff⟩ := used_length_iff (calm 21 [])
      (fileDevice [5, 6, 7, 8] (encodeRead 1 1 20)) cutRead _ _ (smallMemory_regular _ _)
      (smallMemory_hostApart _) (by decide)
      (by unfold SegmentsApart Apart; decide) (by decide) (by decide) hreply
    rw [hserve] at hused
    exact ⟨n, d', area, hserve, harea, hiff.mpr (Or.inl (by decide)), Option.some.inj hused⟩

end Riftlessfs.VhostUser
