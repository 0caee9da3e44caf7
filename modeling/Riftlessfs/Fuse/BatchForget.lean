import Riftlessfs.Core.ForgetCounts
import Riftlessfs.Fuse.Layout
import Riftlessfs.Fuse.Requests

/-! `BATCH_FORGET`: all of its entries or none, in any order, and for each id by the sum of what
its entries say. -/
namespace Riftlessfs.Fuse
open Riftlessfs.Core Riftlessfs.Proto Lib.LittleEndian Lib.Effect Lib.Batch

section Parse

/-- The entries of a body from byte `pos` on. -/
def forgetsAt (buf : Bytes) : ℕ → ℕ → List ForgetOne
  | 0, _ => []
  | n + 1, pos =>
    ⟨.ofNat (natAt buf pos 8), .ofNat (natAt buf (pos + 8) 8)⟩ :: forgetsAt buf n (pos + 16)

private theorem forgetsAt_length (buf : Bytes) (n pos : ℕ) : (forgetsAt buf n pos).length = n := by
  induction n generalizing pos with
  | zero => rfl
  | succ n ih => rw [forgetsAt, List.length_cons, ih]

open Reader in
theorem ForgetOne.read_fixed (n : ℕ) :
    Fixed (ForgetOne.read n) (16 * n) fun buf pos => forgetsAt buf n pos := by
  induction n with
  | zero => exact fixed_pure []
  | succ n ih =>
    have h := fixed_u64.bind fun nodeid => fixed_u64.bind fun nlookup =>
      ih.bind fun rest => fixed_pure (ForgetOne.mk nodeid nlookup :: rest)
    rw [show 16 * (n + 1) = 8 + (8 + (16 * n + 0)) by omega]
    exact h

open Reader in
theorem batchForgetHead_fixed :
    Fixed batchForgetHead 8 fun buf pos => .ofNat (natAt buf pos 4) :=
  fixed_u32.bind fun _ => (fixed_skip 4).bind fun _ => fixed_pure _

private theorem parseBatchForget_head (buf : Bytes) : parseBatchForget buf =
    Reader.parse (do let count ← batchForgetHead; ForgetOne.read count.toNat) buf := by
  unfold parseBatchForget batchForgetHead
  simp only [bind_assoc, pure_bind]

/-- A body parses exactly when it holds its head and as many entries as it says. -/
theorem parseBatchForget_eq (buf : Bytes) : parseBatchForget buf =
    if 8 + 16 * natAt buf 0 4 ≤ buf.length then .ok (forgetsAt buf (natAt buf 0 4) 8)
    else .error .truncated := by
  have hcount : (UInt32.ofNat (natAt buf 0 4)).toNat = natAt buf 0 4 :=
    UInt32.toNat_ofNat_of_lt' (natAt_lt buf 0 4)
  have hhead := batchForgetHead_fixed buf 0 (Nat.zero_le _)
  rw [parseBatchForget_head]
  unfold Reader.parse Reader.new
  by_cases h8 : 8 ≤ buf.length
  · rw [if_pos (by omega)] at hhead
    have hbody := ForgetOne.read_fixed (natAt buf 0 4) buf 8 h8
    rw [bind_of_ok hhead, hcount, Nat.zero_add]
    by_cases hfit : 8 + 16 * natAt buf 0 4 ≤ buf.length
    · rw [if_pos hfit] at hbody ⊢
      rw [hbody]
    · rw [if_neg hfit] at hbody ⊢
      obtain ⟨r, hr⟩ := hbody
      rw [hr]
  · rw [if_neg (by omega)] at hhead
    obtain ⟨r, hr⟩ := hhead
    rw [bind_of_error hr, if_neg (by omega)]

end Parse

section Encode

def encodeForget (e : ForgetOne) : Bytes := encodeRequest 2 e.nodeid (leBytes 8 e.nlookup.toNat)

def encodeEntries (entries : List ForgetOne) : Bytes :=
  (entries.map fun e => leBytes 8 e.nodeid.toNat ++ leBytes 8 e.nlookup.toNat).flatten

def encodeBatchForget (entries : List ForgetOne) : Bytes :=
  encodeRequest 42 0 (leBytes 4 entries.length ++ (leBytes 4 0 ++ encodeEntries entries))

private theorem nodeid_encodeRequest (opcode : UInt32) (nodeid : UInt64) (body : Bytes) :
    natAt (encodeRequest opcode nodeid body) 16 8 = nodeid.toNat := by
  have hlt : nodeid.toNat < 256 ^ 8 := nodeid.toNat_lt
  rw [encodeRequest_eq]
  simp (disch := simp) only [natAt_append_left, natAt_append_right, leBytes_length, Nat.reduceSub,
    natAt_leBytes hlt]

private theorem requestCall_encodeForget (now : Time) (e : ForgetOne) :
    requestCall now (encodeForget e) = .forget ([e].map fun e => (e.nodeid, e.nlookup)) := by
  have hlt : e.nlookup.toNat < 256 ^ 8 := e.nlookup.toNat_lt
  obtain ⟨header, hh, hop, hbody⟩ := header_encodeRequest 2 e.nodeid (leBytes 8 e.nlookup.toNat)
  have hnode : header.nodeid = e.nodeid := by
    rw [InHeader.fromBytes_eq] at hh
    split_ifs at hh
    rw [← Except.ok.inj hh]
    unfold InHeader.at
    dsimp only
    rw [nodeid_encodeRequest, UInt64.ofNat_toNat]
  have hparse : ForgetIn.fromBytes (leBytes 8 e.nlookup.toNat) = .ok e.nlookup := by
    have h := Reader.fixed_u64.parse (leBytes 8 e.nlookup.toNat)
    rw [if_pos (by simp), natAt_leBytes hlt, UInt64.ofNat_toNat] at h
    exact h
  unfold requestCall encodeForget
  rw [hh]
  dsimp only
  rw [hbody]
  unfold callOf
  rw [hop]
  show parsed (ForgetIn.fromBytes _) _ = _
  rw [hparse, hnode]
  rfl

private theorem forgetsAt_encodeEntries (entries : List ForgetOne) (a : Bytes) :
    forgetsAt (a ++ encodeEntries entries) entries.length a.length = entries := by
  induction entries generalizing a with
  | nil => rfl
  | cons e rest ih =>
    have hid : e.nodeid.toNat < 256 ^ 8 := e.nodeid.toNat_lt
    have hn : e.nlookup.toNat < 256 ^ 8 := e.nlookup.toNat_lt
    have hbuf : a ++ encodeEntries (e :: rest) =
        (a ++ (leBytes 8 e.nodeid.toNat ++ leBytes 8 e.nlookup.toNat)) ++ encodeEntries rest := by
      simp [encodeEntries]
    have hnext := ih (a ++ (leBytes 8 e.nodeid.toNat ++ leBytes 8 e.nlookup.toNat))
    simp only [List.length_append, leBytes_length, Nat.reduceAdd] at hnext
    rw [hbuf, List.length_cons, forgetsAt, hnext, List.append_assoc, List.append_assoc,
      natAt_append_right le_rfl, natAt_append_right (Nat.le_add_right _ _)]
    simp (disch := simp) only [Nat.sub_self, Nat.add_sub_cancel_left, natAt_append_left,
      natAt_append_right, leBytes_length, natAt_leBytes hid, natAt_leBytes hn, UInt64.ofNat_toNat]

private theorem parse_encodeBatchForget {entries : List ForgetOne} (hn : entries.length < 2 ^ 32) :
    ∃ header, InHeader.fromBytes (encodeBatchForget entries) = .ok header ∧
      Opcode.ofU32 header.opcode = .batchForget ∧
      parseBatchForget (InHeader.body (encodeBatchForget entries)) = .ok entries := by
  obtain ⟨header, hh, hop, hbody⟩ := header_encodeRequest 42 0
    (leBytes 4 entries.length ++ (leBytes 4 0 ++ encodeEntries entries))
  have hcount : natAt (leBytes 4 entries.length ++ (leBytes 4 0 ++ encodeEntries entries)) 0 4 =
      entries.length := by
    rw [natAt_append_left (by simp), natAt_leBytes (by simpa using hn)]
  have hlen : (encodeEntries entries).length = 16 * entries.length := by
    unfold encodeEntries
    clear hcount hbody hop hh hn
    induction entries with
    | nil => rfl
    | cons e rest ih =>
      rw [List.map_cons, List.flatten_cons, List.length_append, ih]
      simp only [List.length_append, leBytes_length, List.length_cons]
      omega
  have hback := forgetsAt_encodeEntries entries (leBytes 4 entries.length ++ leBytes 4 0)
  refine ⟨header, hh, by rw [hop]; rfl, ?_⟩
  unfold encodeBatchForget
  rw [hbody, parseBatchForget_eq, hcount, if_pos]
  · simpa using hback
  · simp only [List.length_append, leBytes_length, hlen]
    omega

end Encode

section Effect
variable (env : Env) (s : Session)

/-- The pairs of a batch, each with its count as a number. -/
def batchOf (entries : List ForgetOne) : List (UInt64 × ℕ) :=
  entries.map fun e => (e.nodeid, e.nlookup.toNat)

/-- A request that asks for forgets leaves the table after all of them. -/
theorem handle_forgets {request : Bytes} {entries : List ForgetOne}
    (h : requestCall env.now request = .forget (entries.map fun e => (e.nodeid, e.nlookup))) :
    (s.handle env request).2.world.inodes =
      all InodeStore.forgetNat s.world.inodes (batchOf entries) := by
  have hperf := handle_performs env s request
  obtain ⟨w, hok, hw⟩ :=
    Call.run_forget env (entries.map fun e => (e.nodeid, e.nlookup)) s.world
  rw [h, hok] at hperf
  obtain ⟨b, -, hworld, -⟩ := hperf
  rw [hworld, hw, List.foldl_map]
  unfold all batchOf
  rw [List.foldl_map]
  exact List.foldl_ext _ _ _ fun t e _ => InodeStore.forget_eq_forgetNat t e.nodeid e.nlookup

/-- A request that asks for nothing leaves the table alone. -/
theorem handle_nothing {request : Bytes} (h : requestCall env.now request = .nothing) :
    (s.handle env request).2.world.inodes = s.world.inodes := by
  have hperf := handle_performs env s request
  rw [h] at hperf
  obtain ⟨b, -, hworld, -⟩ := hperf
  rw [hworld]

def forgetEach (entries : List ForgetOne) : Session :=
  entries.foldl (fun s e => (s.handle env (encodeForget e)).2) s

private theorem forgetEach_inodes (entries : List ForgetOne) :
    (forgetEach env s entries).world.inodes =
      all InodeStore.forgetNat s.world.inodes (batchOf entries) := by
  induction entries generalizing s with
  | nil => rfl
  | cons e rest ih =>
    have hone : (s.handle env (encodeForget e)).2.world.inodes =
        s.world.inodes.forgetNat e.nodeid e.nlookup.toNat :=
      handle_forgets env s (requestCall_encodeForget env.now e)
    have hstep : forgetEach env s (e :: rest) =
        forgetEach env (s.handle env (encodeForget e)).2 rest := by
      unfold forgetEach
      rw [List.foldl_cons]
    rw [hstep, ih, hone]
    unfold all batchOf
    rw [List.map_cons, List.foldl_cons]

theorem requestCall_batchForget {request : Bytes} {header : InHeader} (now : Time)
    (hh : InHeader.fromBytes request = .ok header)
    (hop : Opcode.ofU32 header.opcode = .batchForget) :
    requestCall now request = parsed (parseBatchForget (InHeader.body request)) fun entries =>
      .forget (entries.map fun e => (e.nodeid, e.nlookup)) := by
  unfold requestCall
  rw [hh]
  dsimp only
  unfold callOf
  rw [hop]

end Effect

/-- A `BATCH_FORGET` whose body lacks its head or an entry it announces changes nothing in the
table. Any other leaves the table that one `FORGET` request for each entry leaves, that the same
entries in any order leave, and that one forget for each id by the sum of its counts leaves. -/
theorem batch_forget_all_or_nothing (env : Env) (s : Session) (request : Bytes) (header : InHeader)
    (hheader : InHeader.fromBytes request = .ok header)
    (hop : Opcode.ofU32 header.opcode = .batchForget) :
    let body := InHeader.body request
    let entries := forgetsAt body (natAt body 0 4) 8
    let store := (s.handle env request).2.world.inodes
    (body.length < 8 ∨ (body.length - 8) / 16 < natAt body 0 4 → store = s.world.inodes) ∧
    (8 ≤ body.length → natAt body 0 4 ≤ (body.length - 8) / 16 →
      store = (forgetEach env s entries).world.inodes ∧
      (∀ others, others.Perm entries →
        store = (s.handle env (encodeBatchForget others)).2.world.inodes) ∧
      ∀ ids : List UInt64, ids.Nodup → (∀ id, id ∈ ids ↔ ∃ e ∈ entries, e.nodeid = id) →
        store = ids.foldl (fun t id => t.forgetNat id (total id (batchOf entries)))
          s.world.inodes) := by
  intro body entries store
  have hcall : requestCall env.now request = parsed (parseBatchForget body) fun entries =>
      .forget (entries.map fun e => (e.nodeid, e.nlookup)) :=
    requestCall_batchForget env.now hheader hop
  rw [parseBatchForget_eq body] at hcall
  constructor
  · intro hshort
    rw [if_neg (by omega)] at hcall
    exact handle_nothing env s hcall
  · intro h8 hfit
    rw [if_pos (by omega)] at hcall
    have hstore := handle_forgets env s hcall
    refine ⟨?_, fun others hperm => ?_, fun ids hnodup hids => ?_⟩
    · rw [forgetEach_inodes]
      exact hstore
    · have hlen : others.length < 2 ^ 32 := by
        rw [hperm.length_eq, forgetsAt_length]
        exact natAt_lt body 0 4
      obtain ⟨header', hh', hop', hparse'⟩ := parse_encodeBatchForget hlen
      have hcall' := requestCall_batchForget env.now hh' hop'
      rw [hparse'] at hcall'
      have hsame : all InodeStore.forgetNat s.world.inodes (batchOf others) =
          all InodeStore.forgetNat s.world.inodes (batchOf entries) :=
        InodeStore.forgetNat_merging.all_perm (hperm.map _) _
      rw [handle_forgets env s hcall', hsame]
      exact hstore
    · rw [← InodeStore.forgetNat_merging.all_grouped hnodup]
      · exact hstore
      · intro id
        rw [hids id]
        simp [batchOf, entries]

/-- An id twice, once with a count of zero, the root, and an id that is not known. -/
def mixedForgets : List ForgetOne := [⟨2, 0⟩, ⟨1, 5⟩, ⟨2, 7⟩, ⟨9, 1⟩]

/-- A session in which id 2 is known, by a `MKDIR`. -/
def madeOne : Session := ((Session.new smallWorld).handle (calm 20 [])
  (encodeRequest 9 1 [0, 0, 0, 0, 0, 0, 0, 0, 97, 0])).2

theorem batch_forget_mixed : (madeOne.world.inodes.byId 2).isSome ∧
    (madeOne.handle (calm 20 []) (encodeBatchForget mixedForgets)).2.world.inodes =
      (forgetEach (calm 20 []) madeOne mixedForgets).world.inodes := by
  have hh : InHeader.fromBytes (encodeBatchForget mixedForgets) =
      .ok (InHeader.at (encodeBatchForget mixedForgets)) := by decide +kernel
  have hentries : forgetsAt (InHeader.body (encodeBatchForget mixedForgets))
      (natAt (InHeader.body (encodeBatchForget mixedForgets)) 0 4) 8 = mixedForgets := by
    decide +kernel
  have hall := ((batch_forget_all_or_nothing (calm 20 []) madeOne _ _ hh (by decide +kernel)).2
    (by decide +kernel) (by decide +kernel)).1
  rw [hentries] at hall
  exact ⟨by decide +kernel, hall⟩

end Riftlessfs.Fuse
