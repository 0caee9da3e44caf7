import Riftlessfs.VhostUser.Message
import Riftlessfs.Lib.Effect

/-! A vhost-user connection: messages over a stream socket that splits what is sent and received,
and carries descriptors along with single bytes. -/
namespace Riftlessfs.VhostUser
open Lib.Effect Riftlessfs.Proto Riftlessfs.Fuse

def MAX_FDS_PER_RECV : ℕ := 32
def MAX_PAYLOAD : ℕ := 2 ^ 20

/-- A byte of the stream, with the descriptors that travel with it. -/
abbrev Cell := UInt8 × List RawFd

/-- A stream socket: the bytes in flight, and how many calls were made on it. -/
structure Socket where
  stream : List Cell
  calls : ℕ
  deriving DecidableEq, Repr

abbrev SockM := EStateM ProtoError Socket

/-- The bytes of one send, whose descriptors travel with the first. -/
def tag : Bytes → List RawFd → List Cell
  | [], _ => []
  | b :: bs, fds => (b, fds) :: bs.map fun b => (b, [])

namespace Connection

/-- `send_with_fd`: of what is offered, call `k` takes no more than `split k` bytes. -/
def sendWithFd (split : ℕ → ℕ) (buf : Bytes) (fds : List RawFd) : SockM ℕ := fun s =>
  let n := min (split s.calls) buf.length
  .ok n ⟨s.stream ++ tag (buf.take n) fds, s.calls + 1⟩

/-- The loop of `Connection::send`. Every round sends a byte, so as many rounds as there are bytes
suffice. -/
def sendLoop (split : ℕ → ℕ) : ℕ → Bytes → List RawFd → SockM Unit
  | _, [], _ => pure ()
  | 0, _ :: _, _ => throw .disconnected
  | rounds + 1, b :: bs, fds => do
    let n ← sendWithFd split (b :: bs) fds
    if n = 0 then throw .disconnected else sendLoop split rounds ((b :: bs).drop n) []

def send (split : ℕ → ℕ) (m : Message) : SockM Unit :=
  let buf := m.header.toBytes ++ m.payload
  sendLoop split buf.length buf m.fds

/-- `recv_with_fd`: of what is asked for, call `k` returns no more than `split k` bytes, and none
only at the end of the stream. -/
def recvWithFd (split : ℕ → ℕ) (want : ℕ) : SockM (Bytes × List RawFd) := fun s =>
  let piece := s.stream.take (min (split s.calls) want)
  .ok (piece.map Prod.fst, (piece.flatMap Prod.snd).take MAX_FDS_PER_RECV)
    ⟨s.stream.drop (min (split s.calls) want), s.calls + 1⟩

/-- The loop of `Connection::recv_exact`. -/
def recvExact (split : ℕ → ℕ) : ℕ → ℕ → SockM (Bytes × List RawFd)
  | _, 0 => pure ([], [])
  | 0, _ + 1 => throw .disconnected
  | rounds + 1, want + 1 => do
    let (buf, fds) ← recvWithFd split (want + 1)
    if buf.length = 0 then throw .disconnected
    else do
      let (buf', fds') ← recvExact split rounds (want + 1 - buf.length)
      pure (buf ++ buf', fds ++ fds')

def recv (split : ℕ → ℕ) : SockM Message := do
  let (headerBuf, fds) ← recvExact split HEADER_LEN HEADER_LEN
  let header := MsgHeader.fromBytes headerBuf
  let size := header.size.toNat
  if size > MAX_PAYLOAD then throw (.payloadTooLarge size)
  else do
    let (payload, fds') ← recvExact split size size
    pure ⟨header, payload, fds ++ fds'⟩

def sendAll (split : ℕ → ℕ) : List Message → SockM Unit
  | [] => pure ()
  | m :: ms => do
    send split m
    sendAll split ms

/-- Receive up to `n` messages: those that came, and the error that ended it. -/
def recvAll (split : ℕ → ℕ) : ℕ → Socket → List Message × Option ProtoError
  | 0, _ => ([], none)
  | n + 1, s =>
    match recv split s with
    | .ok m s' => (m :: (recvAll split n s').1, (recvAll split n s').2)
    | .error e _ => ([], some e)

end Connection

/-- What both sides agree on: the header states the length of the payload, which is at most a
mebibyte, and there are no more descriptors than one call can receive. -/
structure Message.Sendable (m : Message) : Prop where
  size : m.header.size.toNat = m.payload.length
  payload : m.payload.length ≤ MAX_PAYLOAD
  fds : m.fds.length ≤ MAX_FDS_PER_RECV

def Message.frame (m : Message) : List Cell := tag (m.header.toBytes ++ m.payload) m.fds

/-- The number of messages that lie in the first `k` bytes of the stream. -/
def completeIn : ℕ → List Message → ℕ
  | _, [] => 0
  | k, m :: ms => if m.frame.length ≤ k then completeIn (k - m.frame.length) ms + 1 else 0

section Tag
variable {buf : Bytes} {fds : List RawFd}

@[simp] theorem tag_length (buf : Bytes) (fds : List RawFd) : (tag buf fds).length = buf.length := by
  cases buf with
  | nil => rfl
  | cons b bs => simp [tag]

@[simp] theorem tag_fst (buf : Bytes) (fds : List RawFd) : (tag buf fds).map Prod.fst = buf := by
  cases buf with
  | nil => rfl
  | cons b bs => simp [tag, Function.comp_def]

@[simp] theorem tag_none (buf : Bytes) : tag buf [] = buf.map fun b => (b, []) := by
  cases buf with
  | nil => rfl
  | cons b bs => rfl

/-- A send in two pieces is one with the descriptors on the first. -/
theorem tag_append {xs : Bytes} (fds : List RawFd) (ys : Bytes) (hx : xs ≠ []) :
    tag (xs ++ ys) fds = tag xs fds ++ tag ys [] := by
  cases xs with
  | nil => exact absurd rfl hx
  | cons x xs =>
    rw [tag_none]
    simp [tag]

theorem tag_fds (hbuf : buf ≠ []) : (tag buf fds).flatMap Prod.snd = fds := by
  cases buf with
  | nil => exact absurd rfl hbuf
  | cons b bs => simp [tag, List.flatMap_map]

private theorem frame_length (m : Message) : m.frame.length = HEADER_LEN + m.payload.length := by
  unfold Message.frame
  rw [tag_length, List.length_append, MsgHeader.toBytes_length]

end Tag

section Transfer
variable {split : ℕ → ℕ}

/-- However it is split, a send puts its bytes on the stream with the descriptors on the first. -/
theorem sendLoop_eq (hsplit : ∀ k, 0 < split k) (fds : List RawFd) {rounds : ℕ} {buf : Bytes}
    (hrounds : buf.length ≤ rounds) (s : Socket) :
    ∃ calls, Connection.sendLoop split rounds buf fds s =
      .ok () ⟨s.stream ++ tag buf fds, calls⟩ := by
  induction rounds generalizing buf fds s with
  | zero =>
    have hnil : buf = [] := List.eq_nil_of_length_eq_zero (by omega)
    subst hnil
    refine ⟨s.calls, ?_⟩
    simp [Connection.sendLoop, tag, pure_apply]
  | succ rounds ih =>
    cases buf with
    | nil =>
      refine ⟨s.calls, ?_⟩
      simp [Connection.sendLoop, tag, pure_apply]
    | cons b bs =>
      generalize hn : min (split s.calls) (b :: bs).length = n
      have hpos : 0 < n := by
        have h := hsplit s.calls
        rw [List.length_cons] at hn
        omega
      have hle : n ≤ (b :: bs).length := by omega
      have hfirst : Connection.sendWithFd split (b :: bs) fds s =
          .ok n ⟨s.stream ++ tag ((b :: bs).take n) fds, s.calls + 1⟩ := by
        unfold Connection.sendWithFd
        rw [hn]
      have hshort : ((b :: bs).drop n).length ≤ rounds := by
        rw [List.length_drop]
        omega
      obtain ⟨calls, hrest⟩ := ih [] hshort
        ⟨s.stream ++ tag ((b :: bs).take n) fds, s.calls + 1⟩
      refine ⟨calls, ?_⟩
      unfold Connection.sendLoop
      rw [bind_of_ok hfirst, if_neg (by omega), hrest]
      have htake : (b :: bs).take n ≠ [] := by
        intro hnil
        have hlen := congrArg List.length hnil
        rw [List.length_take, List.length_nil] at hlen
        omega
      have hjoin := tag_append fds ((b :: bs).drop n) htake
      rw [List.take_append_drop] at hjoin
      rw [hjoin, List.append_assoc]

/-- However it is split, a receive of bytes that are there returns them with their
descriptors. -/
theorem recvExact_ok (hsplit : ∀ k, 0 < split k) {rounds : ℕ} {front : List Cell}
    (hrounds : front.length ≤ rounds)
    (hfds : (front.flatMap Prod.snd).length ≤ MAX_FDS_PER_RECV) (rest : List Cell) (calls : ℕ) :
    ∃ calls', Connection.recvExact split rounds front.length ⟨front ++ rest, calls⟩ =
      .ok (front.map Prod.fst, front.flatMap Prod.snd) ⟨rest, calls'⟩ := by
  induction rounds generalizing front calls with
  | zero =>
    have hnil : front = [] := List.eq_nil_of_length_eq_zero (by omega)
    subst hnil
    refine ⟨calls, ?_⟩
    simp [Connection.recvExact, pure_apply]
  | succ rounds ih =>
    cases front with
    | nil =>
      refine ⟨calls, ?_⟩
      simp [Connection.recvExact, pure_apply]
    | cons c front =>
      generalize hn : min (split calls) (front.length + 1) = n
      have hpos : 0 < n := by
        have h := hsplit calls
        omega
      have hle : n ≤ (c :: front).length := by
        rw [List.length_cons]
        omega
      have htake : ((c :: front) ++ rest).take n = (c :: front).take n :=
        List.take_append_of_le_length hle
      have hdrop : ((c :: front) ++ rest).drop n = (c :: front).drop n ++ rest :=
        List.drop_append_of_le_length hle
      have hwhole : (c :: front).flatMap Prod.snd =
          ((c :: front).take n).flatMap Prod.snd ++ ((c :: front).drop n).flatMap Prod.snd := by
        rw [← List.flatMap_append, List.take_append_drop]
      have hcount := congrArg List.length hwhole
      rw [List.length_append] at hcount
      have hfirst : Connection.recvWithFd split (front.length + 1) ⟨(c :: front) ++ rest, calls⟩ =
          .ok (((c :: front).take n).map Prod.fst, ((c :: front).take n).flatMap Prod.snd)
            ⟨(c :: front).drop n ++ rest, calls + 1⟩ := by
        have hfew : (((c :: front).take n).flatMap Prod.snd).take MAX_FDS_PER_RECV =
            ((c :: front).take n).flatMap Prod.snd := List.take_of_length_le (by omega)
        unfold Connection.recvWithFd
        simp only [hn, htake, hdrop, hfew]
      have hlen : (((c :: front).take n).map Prod.fst).length = n := by
        rw [List.length_map, List.length_take, Nat.min_eq_left hle]
      have hleft : front.length + 1 - n = ((c :: front).drop n).length := by
        rw [List.length_drop, List.length_cons]
      have hshort : ((c :: front).drop n).length ≤ rounds := by
        rw [List.length_drop]
        omega
      obtain ⟨calls', hrest⟩ := ih hshort (by omega) (calls + 1)
      refine ⟨calls', ?_⟩
      rw [List.length_cons]
      unfold Connection.recvExact
      rw [bind_of_ok hfirst]
      simp only
      rw [hlen, if_neg (by omega), hleft, bind_of_ok hrest, pure_apply, ← List.map_append,
        List.take_append_drop, ← hwhole]

/-- A receive of more bytes than the stream still holds ends in a disconnect. -/
theorem recvExact_cut (split : ℕ → ℕ) {rounds want : ℕ} (hrounds : want ≤ rounds) {s : Socket}
    (hcut : s.stream.length < want) :
    ∃ s', Connection.recvExact split rounds want s = .error .disconnected s' := by
  induction rounds generalizing want s with
  | zero => omega
  | succ rounds ih =>
    cases want with
    | zero => omega
    | succ want =>
      unfold Connection.recvExact
      rw [bind_apply]
      unfold Connection.recvWithFd
      simp only
      generalize min (split s.calls) (want + 1) = n
      have hlen : ((s.stream.take n).map Prod.fst).length = min n s.stream.length := by
        rw [List.length_map, List.length_take]
      rw [hlen]
      split_ifs with hzero
      · exact ⟨_, rfl⟩
      · have hcut' : (s.stream.drop n).length < want + 1 - min n s.stream.length := by
          rw [List.length_drop]
          omega
        have hless : want + 1 - min n s.stream.length ≤ rounds := by omega
        obtain ⟨s', hs'⟩ := ih hless (s := ⟨s.stream.drop n, s.calls + 1⟩) hcut'
        exact ⟨s', by rw [bind_of_error hs']⟩

end Transfer

section Messages
variable {split : ℕ → ℕ} {m : Message}

private theorem send_eq (hsplit : ∀ k, 0 < split k) (m : Message) (s : Socket) :
    ∃ calls, Connection.send split m s = .ok () ⟨s.stream ++ m.frame, calls⟩ :=
  sendLoop_eq hsplit m.fds (le_refl _) s

private theorem sendAll_eq (hsplit : ∀ k, 0 < split k) (ms : List Message) (s : Socket) :
    ∃ calls, Connection.sendAll split ms s = .ok () ⟨s.stream ++ ms.flatMap Message.frame, calls⟩ := by
  induction ms generalizing s with
  | nil =>
    refine ⟨s.calls, ?_⟩
    simp [Connection.sendAll, pure_apply]
  | cons m ms ih =>
    obtain ⟨calls₁, hsend⟩ := send_eq hsplit m s
    obtain ⟨calls, hrest⟩ := ih ⟨s.stream ++ m.frame, calls₁⟩
    refine ⟨calls, ?_⟩
    unfold Connection.sendAll
    rw [bind_of_ok hsend, hrest, List.flatMap_cons, List.append_assoc]

theorem toBytes_ne_nil (h : MsgHeader) : h.toBytes ≠ [] := by
  intro hnil
  have hlen := congrArg List.length hnil
  rw [MsgHeader.toBytes_length] at hlen
  cases hlen

/-- The frame of a message is its header, with the descriptors, and its payload. -/
theorem frame_eq (m : Message) :
    m.frame = tag m.header.toBytes m.fds ++ m.payload.map fun b => (b, []) := by
  unfold Message.frame
  rw [tag_append m.fds m.payload (toBytes_ne_nil m.header), tag_none]

/-- A message at the head of the stream is received, and its bytes are taken off. -/
theorem recv_frame (hsplit : ∀ k, 0 < split k) (hm : m.Sendable) (rest : List Cell) (calls : ℕ) :
    ∃ calls', Connection.recv split ⟨m.frame ++ rest, calls⟩ = .ok m ⟨rest, calls'⟩ := by
  have hfds : (tag m.header.toBytes m.fds).flatMap Prod.snd = m.fds :=
    tag_fds (toBytes_ne_nil m.header)
  have hlen : (tag m.header.toBytes m.fds).length = HEADER_LEN := by
    rw [tag_length, MsgHeader.toBytes_length]
  obtain ⟨calls₁, hheader⟩ := recvExact_ok hsplit (le_of_eq hlen) (by rw [hfds]; exact hm.fds)
    (m.payload.map (fun b => (b, [])) ++ rest) calls
  rw [hlen, tag_fst, hfds] at hheader
  have hnone : (m.payload.map fun b => ((b, []) : Cell)).flatMap Prod.snd = [] := by
    simp [List.flatMap_map]
  have hplen : (m.payload.map fun b => ((b, []) : Cell)).length = m.payload.length :=
    List.length_map _
  obtain ⟨calls₂, hpayload⟩ := recvExact_ok hsplit (le_of_eq hplen)
    (by rw [hnone]; exact Nat.zero_le _) rest calls₁
  rw [hplen, hnone, List.map_map] at hpayload
  have hsize := hm.payload
  refine ⟨calls₂, ?_⟩
  rw [frame_eq, List.append_assoc]
  unfold Connection.recv
  rw [bind_of_ok hheader]
  simp only [MsgHeader.fromBytes_toBytes, hm.size]
  rw [if_neg (by omega), bind_of_ok hpayload, pure_apply]
  simp [Function.comp_def]

/-- A stream that ends inside a message ends in a disconnect. -/
theorem recv_cut (hsplit : ∀ k, 0 < split k) (hm : m.Sendable) {k : ℕ} (hk : k < m.frame.length)
    (calls : ℕ) : ∃ s', Connection.recv split ⟨m.frame.take k, calls⟩ = .error .disconnected s' := by
  have hlen : (tag m.header.toBytes m.fds).length = HEADER_LEN := by
    rw [tag_length, MsgHeader.toBytes_length]
  rw [frame_length] at hk
  unfold Connection.recv
  by_cases hheader : k < HEADER_LEN
  · have hshort : (m.frame.take k).length < HEADER_LEN := by
      rw [List.length_take]
      omega
    obtain ⟨s', hs'⟩ := recvExact_cut split (le_refl HEADER_LEN)
      (s := ⟨m.frame.take k, calls⟩) hshort
    exact ⟨s', by rw [bind_of_error hs']⟩
  · have hfds : (tag m.header.toBytes m.fds).flatMap Prod.snd = m.fds :=
      tag_fds (toBytes_ne_nil m.header)
    have hfront : m.frame.take k = tag m.header.toBytes m.fds ++
        (m.payload.map fun b => (b, [])).take (k - HEADER_LEN) := by
      rw [frame_eq, List.take_append, hlen, List.take_of_length_le (by omega)]
    obtain ⟨calls₁, hread⟩ := recvExact_ok hsplit (le_of_eq hlen) (by rw [hfds]; exact hm.fds)
      ((m.payload.map fun b => (b, [])).take (k - HEADER_LEN)) calls
    rw [hlen, tag_fst] at hread
    have hshort : ((m.payload.map fun b => ((b, []) : Cell)).take (k - HEADER_LEN)).length <
        m.payload.length := by
      rw [List.length_take, List.length_map]
      omega
    obtain ⟨s', hs'⟩ := recvExact_cut split (le_refl m.payload.length)
      (s := ⟨(m.payload.map fun b => (b, [])).take (k - HEADER_LEN), calls₁⟩) hshort
    have hsize := hm.payload
    refine ⟨s', ?_⟩
    rw [hfront, bind_of_ok hread]
    simp only [MsgHeader.fromBytes_toBytes, hm.size]
    rw [if_neg (by omega), bind_of_error hs']

/-- Of a stream cut after `k` bytes, the messages before the cut are received, and then the
disconnect. -/
theorem recvAll_cut (hsplit : ∀ k, 0 < split k) {ms : List Message} (hms : ∀ m ∈ ms, m.Sendable)
    (k calls : ℕ) :
    Connection.recvAll split (ms.length + 1) ⟨(ms.flatMap Message.frame).take k, calls⟩ =
      (ms.take (completeIn k ms), some .disconnected) := by
  induction ms generalizing k calls with
  | nil =>
    have hempty : (Socket.mk [] calls).stream.length < HEADER_LEN := Nat.zero_lt_succ 11
    obtain ⟨s', hs'⟩ := recvExact_cut split (le_refl HEADER_LEN) hempty
    have hrecv : Connection.recv split ⟨[], calls⟩ = .error .disconnected s' := by
      unfold Connection.recv
      rw [bind_of_error hs']
    simp [Connection.recvAll, hrecv]
  | cons m ms ih =>
    have hm := hms m List.mem_cons_self
    rw [List.flatMap_cons, List.take_append, List.length_cons]
    unfold completeIn Connection.recvAll
    by_cases hk : m.frame.length ≤ k
    · obtain ⟨calls₁, hrecv⟩ := recv_frame hsplit hm
        ((ms.flatMap Message.frame).take (k - m.frame.length)) calls
      have htail := ih (fun m' hm' => hms m' (List.mem_cons_of_mem m hm')) (k - m.frame.length) calls₁
      rw [List.take_of_length_le hk, hrecv, if_pos hk]
      simp only [htail, List.take_succ_cons]
    · have hnone : (ms.flatMap Message.frame).take (k - m.frame.length) = [] := by
        rw [Nat.sub_eq_zero_of_le (by omega), List.take_zero]
      obtain ⟨s', hs'⟩ := recv_cut hsplit hm (by omega : k < m.frame.length) calls
      rw [hnone, List.append_nil, hs', if_neg hk]
      rfl

/-- All messages lie in the whole stream. -/
theorem completeIn_all {k : ℕ} (ms : List Message) (hk : (ms.flatMap Message.frame).length ≤ k) :
    completeIn k ms = ms.length := by
  induction ms generalizing k with
  | nil => rfl
  | cons m ms ih =>
    rw [List.flatMap_cons, List.length_append] at hk
    have htail := ih (k := k - m.frame.length) (by omega)
    rw [completeIn, if_pos (by omega), htail, List.length_cons]

end Messages

/-- Messages sent one after the other over a stream that splits sends and receives in any way are
received one by one, each with its own header, payload and descriptors; a stream cut after `k`
bytes yields those that are complete, and then the disconnect. -/
theorem framing_round_trip (splitSend splitRecv : ℕ → ℕ) (hsend : ∀ k, 0 < splitSend k)
    (hrecv : ∀ k, 0 < splitRecv k) (ms : List Message) (hms : ∀ m ∈ ms, m.Sendable) :
    ∃ s, Connection.sendAll splitSend ms ⟨[], 0⟩ = .ok () s ∧
      Connection.recvAll splitRecv (ms.length + 1) ⟨s.stream, 0⟩ = (ms, some .disconnected) ∧
      ∀ k, Connection.recvAll splitRecv (ms.length + 1) ⟨s.stream.take k, 0⟩ =
        (ms.take (completeIn k ms), some .disconnected) := by
  obtain ⟨calls, hall⟩ := sendAll_eq hsend ms ⟨[], 0⟩
  have hcut := recvAll_cut hrecv hms
  refine ⟨_, hall, ?_, fun k => hcut k 0⟩
  have hwhole := hcut (ms.flatMap Message.frame).length 0
  rw [List.take_length, completeIn_all ms (le_refl _), List.take_length] at hwhole
  exact hwhole

/-- A message with two descriptors and a payload, and one with neither. -/
def twoMessages : List Message :=
  [⟨⟨5, 1, 3⟩, [7, 8, 9], [20, 21]⟩, ⟨⟨1, 1, 0⟩, [], []⟩]

/-- Cut in the second header, the stream still yields the first message. -/
theorem framing_round_trip_two :
    ∃ s, Connection.sendAll (fun k => k % 5 + 1) twoMessages ⟨[], 0⟩ = .ok () s ∧
      Connection.recvAll (fun k => k % 3 + 1) 3 ⟨s.stream, 0⟩ = (twoMessages, some .disconnected) ∧
      Connection.recvAll (fun k => k % 3 + 1) 3 ⟨s.stream.take 20, 0⟩ =
        (twoMessages.take 1, some .disconnected) := by
  have hms : ∀ m ∈ twoMessages, m.Sendable := by
    intro m hm
    rcases List.mem_cons.mp hm with rfl | hm
    · exact ⟨rfl, by decide, by decide⟩
    · rw [List.mem_singleton.mp hm]
      exact ⟨rfl, by decide, by decide⟩
  obtain ⟨s, hsent, hall, hcut⟩ := framing_round_trip (fun k => k % 5 + 1) (fun k => k % 3 + 1)
    (fun k => Nat.succ_pos _) (fun k => Nat.succ_pos _) twoMessages hms
  exact ⟨s, hsent, hall, hcut 20⟩

end Riftlessfs.VhostUser
