import Mathlib.Tactic

/-! `drain_fd`: reading a kick fd empty, in blocks of 256 bytes, until a short read. -/
namespace Riftlessfs.VhostUser

/-- What stands behind a kick fd: a counter that one read takes, or a pipe or socket that gives as
many bytes as it has and are asked for. -/
inductive KickKind where
  | eventfd
  | stream
  deriving DecidableEq, Repr

/-- A kick fd to which nobody writes: the counter or the bytes pending on it. -/
structure KickFd where
  kind : KickKind
  nonblocking : Bool
  pending : ℕ
  deriving DecidableEq, Repr

/-- How `libc::read` ends: with a count, with `-1` and `EAGAIN`, or not at all. -/
inductive ReadEnd where
  | count (n : ℕ)
  | wouldBlock
  | never
  deriving DecidableEq, Repr

/-- `libc::read` of at most `len` bytes. -/
def KickFd.read (fd : KickFd) (len : ℕ) : ReadEnd × KickFd :=
  if fd.pending = 0 then (if fd.nonblocking then .wouldBlock else .never, fd)
  else match fd.kind with
    | .eventfd => (.count 8, { fd with pending := 0 })
    | .stream => (.count (min len fd.pending), { fd with pending := fd.pending - min len fd.pending })

/-- What a call of `drain_fd` did: how much was pending at each of its reads, and the fd when it
returned, if it did. -/
structure Drain where
  seen : List ℕ
  left : Option KickFd
  deriving DecidableEq, Repr

/-- The loop of `drain_fd`, for at most `rounds` reads. -/
def drainFd : ℕ → KickFd → Option Drain
  | 0, _ => none
  | rounds + 1, fd =>
    match fd.read 256 with
    | (.never, _) => some ⟨[fd.pending], none⟩
    -- `rc <= 0`
    | (.wouldBlock, fd') => some ⟨[fd.pending], some fd'⟩
    | (.count n, fd') =>
      if n < 256 then some ⟨[fd.pending], some fd'⟩
      else (drainFd rounds fd').map fun d => ⟨fd.pending :: d.seen, d.left⟩

/-- `drain_fd` returns with nothing pending, and a blocking fd was never read while nothing was. -/
def KickFd.DrainsWell (fd : KickFd) : Prop :=
  ∃ d, (∃ enough, ∀ rounds, enough ≤ rounds → drainFd rounds fd = some d) ∧
    (∃ fd', d.left = some fd' ∧ fd'.pending = 0) ∧ (fd.nonblocking = false → 0 ∉ d.seen)

section Stream
variable {nonblocking : Bool} {q r rounds : ℕ}

/-- What the reads see of `256 * q + r` bytes. -/
def blocksSeen (r : ℕ) : ℕ → List ℕ
  | 0 => [r]
  | q + 1 => (256 * (q + 1) + r) :: blocksSeen r q

private theorem zero_mem_blocksSeen : 0 ∈ blocksSeen r q ↔ r = 0 := by
  induction q with
  | zero => simp [blocksSeen, eq_comm]
  | succ q ih =>
    rw [blocksSeen, List.mem_cons, ih]
    omega

/-- A full block is taken and the loop goes on. -/
theorem drainFd_block : drainFd (rounds + 1) ⟨.stream, nonblocking, 256 * (q + 1) + r⟩ =
    (drainFd rounds ⟨.stream, nonblocking, 256 * q + r⟩).map fun d =>
      ⟨(256 * (q + 1) + r) :: d.seen, d.left⟩ := by
  have hread : (KickFd.mk .stream nonblocking (256 * (q + 1) + r)).read 256 =
      (.count 256, ⟨.stream, nonblocking, 256 * q + r⟩) := by
    have hmin : min 256 (256 * (q + 1) + r) = 256 := by omega
    have hrest : 256 * (q + 1) + r - 256 = 256 * q + r := by omega
    unfold KickFd.read
    rw [if_neg (by dsimp only; omega)]
    dsimp only
    rw [hmin, hrest]
  rw [drainFd, hread]
  rfl

/-- The last read: a short one, or one that finds nothing. -/
theorem drainFd_tail (hr : r < 256) : drainFd (rounds + 1) ⟨.stream, nonblocking, r⟩ =
    some ⟨[r], if r = 0 ∧ nonblocking = false then none else some ⟨.stream, nonblocking, 0⟩⟩ := by
  by_cases h0 : r = 0
  · subst h0
    cases nonblocking <;> rfl
  · have hread : (KickFd.mk .stream nonblocking r).read 256 =
        (.count r, ⟨.stream, nonblocking, 0⟩) := by
      have hmin : min 256 r = r := by omega
      unfold KickFd.read
      rw [if_neg h0]
      dsimp only
      rw [hmin, Nat.sub_self]
    rw [drainFd, hread, if_neg (fun h => h0 h.1)]
    exact if_pos hr

theorem drainFd_stream (hr : r < 256) (hq : q < rounds) :
    drainFd rounds ⟨.stream, nonblocking, 256 * q + r⟩ = some ⟨blocksSeen r q,
      if r = 0 ∧ nonblocking = false then none else some ⟨.stream, nonblocking, 0⟩⟩ := by
  induction q generalizing rounds with
  | zero =>
    obtain ⟨k, rfl⟩ : ∃ k, rounds = k + 1 := ⟨rounds - 1, by omega⟩
    rw [Nat.mul_zero, Nat.zero_add, drainFd_tail hr]
    rfl
  | succ q ih =>
    obtain ⟨k, rfl⟩ : ∃ k, rounds = k + 1 := ⟨rounds - 1, by omega⟩
    rw [drainFd_block, ih (by omega)]
    rfl

theorem stream_drainsWell_iff (hr : r < 256) :
    (KickFd.mk .stream nonblocking (256 * q + r)).DrainsWell ↔ (nonblocking = false → r ≠ 0) := by
  constructor
  · rintro ⟨d, ⟨enough, hd⟩, ⟨fd', hleft, -⟩, -⟩ hblocking hr0
    have hend := hd (max enough (q + 1)) (le_max_left _ _)
    rw [drainFd_stream hr (lt_of_lt_of_le (Nat.lt_succ_self q) (le_max_right _ _)),
      if_pos ⟨hr0, hblocking⟩] at hend
    rw [← Option.some.inj hend] at hleft
    cases hleft
  · intro h
    have hgood : ¬(r = 0 ∧ nonblocking = false) := fun ⟨hr0, hb⟩ => h hb hr0
    refine ⟨⟨blocksSeen r q, some ⟨.stream, nonblocking, 0⟩⟩, ⟨q + 1, fun rounds hrounds => ?_⟩,
      ⟨_, rfl, rfl⟩, fun hb => ?_⟩
    · rw [drainFd_stream hr hrounds, if_neg hgood]
    · exact fun hmem => h hb (zero_mem_blocksSeen.mp hmem)

end Stream

/-- One read of eight bytes takes the whole counter. -/
theorem eventfd_drainsWell {nonblocking : Bool} {n : ℕ} (hn : 1 ≤ n) :
    (KickFd.mk .eventfd nonblocking n).DrainsWell := by
  have hread : (KickFd.mk .eventfd nonblocking n).read 256 =
      (.count 8, ⟨.eventfd, nonblocking, 0⟩) := if_neg (by dsimp only; omega)
  refine ⟨⟨[n], some ⟨.eventfd, nonblocking, 0⟩⟩, ⟨1, fun rounds hrounds => ?_⟩, ⟨_, rfl, rfl⟩,
    fun _ hmem => ?_⟩
  · obtain ⟨k, rfl⟩ : ∃ k, rounds = k + 1 := ⟨rounds - 1, by omega⟩
    rw [drainFd, hread]
    rfl
  · have hzero : 0 = n := List.mem_singleton.mp hmem
    omega

/-- A kick fd with something pending is drained without blocking exactly if it is not a blocking
pipe or socket that holds a multiple of 256 bytes. -/
theorem kick_drain_iff (fd : KickFd) (hpending : 1 ≤ fd.pending) : fd.DrainsWell ↔
    (fd.kind = .stream → fd.nonblocking = false → ¬ 256 ∣ fd.pending) := by
  obtain ⟨kind, nonblocking, n⟩ := fd
  cases kind with
  | eventfd => exact iff_of_true (eventfd_drainsWell hpending) (fun h => by cases h)
  | stream =>
    have hsplit : 256 * (n / 256) + n % 256 = n := Nat.div_add_mod n 256
    have hiff : (KickFd.mk .stream nonblocking (256 * (n / 256) + n % 256)).DrainsWell ↔
        (nonblocking = false → n % 256 ≠ 0) :=
      stream_drainsWell_iff (Nat.mod_lt n (by decide : 256 > 0))
    rw [hsplit] at hiff
    rw [hiff]
    exact ⟨fun h _ hb hdvd => h hb (Nat.mod_eq_zero_of_dvd hdvd),
      fun h hb hr => h rfl hb (Nat.dvd_of_mod_eq_zero hr)⟩

theorem kick_drain_257 : (KickFd.mk .stream false 257).DrainsWell :=
  (kick_drain_iff _ (by decide)).mpr fun _ _ => by decide

/-- After one full block of a blocking pipe that held 256 bytes, the second read never returns. -/
theorem kick_drain_blocks : drainFd 2 ⟨.stream, false, 256⟩ = some ⟨[256, 0], none⟩ ∧
    ¬(KickFd.mk .stream false 256).DrainsWell := by
  refine ⟨by decide, fun h => ?_⟩
  have hno := (stream_drainsWell_iff (show 0 < 256 by decide)).mp
    (show (KickFd.mk .stream false (256 * 1 + 0)).DrainsWell from h)
  exact hno rfl rfl

end Riftlessfs.VhostUser
