import Riftlessfs.Fuse.SessionRuns
import Riftlessfs.Core.FileData

/-! The data path of a writable handle: for which open flags every `READ` and `WRITE`
means what it says. -/
namespace Riftlessfs.Fuse
open Riftlessfs.Core Riftlessfs.Proto Lib.Run Lib.Effect

/-- An `OPEN` of a node other than the root, or a `CREATE`, that carries `flags` and
returns the handle `fh`. -/
def Opened (env : Env) (s : Session) (request : Bytes) (flags : UInt32) (fh : UInt64)
    (s₀ : Session) : Prop :=
  ∃ header, InHeader.fromBytes request = .ok header ∧
    ((Opcode.ofU32 header.opcode = .open ∧ header.nodeid ≠ ROOT_ID ∧
      OpenIn.fromBytes (InHeader.body request) = .ok flags ∧
      Session.handle env s request = (some (okReply header.unique (openOut fh)), s₀)) ∨
    (Opcode.ofU32 header.opcode = .create ∧ ∃ c name ino attr,
      CreateIn.fromBytes (InHeader.body request) = .ok (c, name) ∧ c.flags = flags ∧
      Session.handle env s request =
        (some (okReply header.unique (entryOut ino attr ++ openOut fh)), s₀)))

/-- A `READ` or `WRITE` of handle `fh` that ends below `2 ^ 63`, with reads within what one
`pread` returns, on a host that does not fail reads. -/
def Transfers (fh : UInt64) (x : Input) : Prop :=
  ∃ header, InHeader.fromBytes x.2 = .ok header ∧
    ((Opcode.ofU32 header.opcode = .read ∧ x.1.fault .pread = none ∧
      ∃ r, ReadIn.fromBytes (InHeader.body x.2) = .ok r ∧ r.fh = fh ∧
        r.offset.toNat + r.size.toNat < 2 ^ 63 ∧ r.size.toNat ≤ MAX_RW_COUNT) ∨
    (Opcode.ofU32 header.opcode = .write ∧
      ∃ q data, WriteIn.fromBytes (InHeader.body x.2) = .ok (q, data) ∧ q.fh = fh ∧
        q.offset.toNat + min q.size.toNat data.length < 2 ^ 63))

/-- The request is answered as one on the bytes of `file`: a `READ` returns the bytes there
are, a `WRITE` that succeeds patches just the range it says it wrote. -/
def Served (file : FileKey) (s : Session) (x : Input) : Prop :=
  ∃ reply s' old new, Session.handle x.1 s x.2 = (some reply, s') ∧
    s.world.host.fileData file = some old ∧ s'.world.host.fileData file = some new ∧
    ∀ header, InHeader.fromBytes x.2 = .ok header →
      (Opcode.ofU32 header.opcode = .read → ∀ r,
        ReadIn.fromBytes (InHeader.body x.2) = .ok r → new = old ∧
          reply = okReply header.unique ((old.drop r.offset.toNat).take r.size.toNat)) ∧
      (Opcode.ofU32 header.opcode = .write → ∀ q data,
        WriteIn.fromBytes (InHeader.body x.2) = .ok (q, data) → ∀ count,
          reply = okReply header.unique (writeOut count) →
          count.toNat ≤ min q.size.toNat data.length ∧
          Patched old q.offset.toNat (data.take count.toNat) new ∧
          ∀ k, k ≠ file → s'.world.host.node k = s.world.host.node k)

/-- The handle is open on a regular file with bytes `data`. -/
structure OpenOn (w : World) (fh : UInt64) (fd : Fd) (data : List UInt8) : Prop where
  handle : w.handles.handles fh = some (.file fd)
  file : w.host.fileData fd.file = some data

section Transfer
variable {env : Env} {s s₀ s' : Session} {request : Bytes} {header : InHeader} {fh : UInt64}
  {fd : Fd} {data : List UInt8} {flags : UInt32} {x : Input}

/-- The handle of an `OPEN` or `CREATE` is positional if the flags asked for are. -/
theorem Opened.positional (ho : Opened env s request flags fh s₀) :
    ∃ fd, s₀.world.handles.handles fh = some (.file fd) ∧
      (writable fd.flags = writable flags) ∧
      ∀ align, Positional align fd.flags ↔ Positional align flags := by
  obtain ⟨header, hh, ⟨hop, hroot, hparse, hreply⟩ | ⟨hop, c, name, ino, attr, hparse, rfl, hreply⟩⟩ := ho
  · rw [handle_open hh hop hparse] at hreply
    obtain ⟨fh', w, hok, henc, rfl⟩ := answered_ok hreply
    rw [openOut_inj henc] at hok
    obtain ⟨fd, hfd, hflags⟩ := openFile_flags hroot hok
    exact ⟨fd, hfd, by rw [hflags], fun _ => by rw [hflags]⟩
  · rw [handle_create _ _ hh hop hparse] at hreply
    obtain ⟨r, w, hok, henc, rfl⟩ := answered_ok hreply
    have hlen : (entryOut r.1 r.2.2).length = (entryOut ino attr).length := by
      rw [entryOut_length, entryOut_length]
    have hfh := openOut_inj (List.append_inj henc hlen).2
    obtain ⟨fd, hfd, hflags⟩ := create_flags hok
    rw [hfh] at hfd
    refine ⟨fd, hfd, ?_, fun align => ?_⟩
    · unfold writable
      rw [hflags, accmode_created]
    · rw [hflags, positional_created]

theorem fileFd_file {w : World} (hh : w.handles.handles fh = some (.file fd)) :
    PassthroughFs.fileFd fh w = .ok fd w := by
  unfold PassthroughFs.fileFd HandleStore.withFile
  rw [hh]
  rfl

theorem OpenOn.read (ho : OpenOn s.world fh fd data) (off : UInt64) (size : ℕ) :
    PassthroughFs.read env fh off size s.world =
      sys env .pread (fun h => h.pread fd off size) s.world := by
  unfold PassthroughFs.read
  rw [bind_of_ok (fileFd_file ho.handle)]

theorem OpenOn.write (ho : OpenOn s.world fh fd data) (off : UInt64) (new : List UInt8) :
    PassthroughFs.write env fh off new s.world =
      sys env .pwrite (fun h => h.pwrite env.room fd off new) s.world := by
  unfold PassthroughFs.write
  rw [bind_of_ok (fileFd_file ho.handle)]

theorem step_of_handle {reply : Reply} (h : Session.handle x.1 s x.2 = (some reply, s')) :
    s.step x = some s' := by
  unfold Session.step
  rw [h]

/-- On a positional handle every transfer is served, and the handle stays open. -/
theorem OpenOn.served (ho : OpenOn s.world fh fd data)
    (hf : Positional s.world.host.dioAlign fd.flags) (hx : Transfers fh x) :
    Served fd.file s x ∧ ∃ s' new, s.step x = some s' ∧ OpenOn s'.world fh fd new ∧
      s'.world.host.dioAlign = s.world.host.dioAlign := by
  obtain ⟨header, hh, ⟨hop, hfault, r, hr, rfl, hoff, hsize⟩ | ⟨hop, q, bytes, hq, rfl, hoff⟩⟩ := hx
  · have hread : PassthroughFs.read x.1 r.fh r.offset r.size.toNat s.world =
        .ok ((data.drop r.offset.toNat).take r.size.toNat) s.world := by
      rw [ho.read]
      exact sys_ok hfault (Host.pread_positional hf ho.file hoff hsize)
    have hhandle := handle_read x.1 s hh hop hr
    rw [hread] at hhandle
    refine ⟨⟨_, s, data, data, hhandle, ho.file, ho.file, fun header' hh' => ?_⟩,
      s, data, step_of_handle hhandle, ho, rfl⟩
    rw [hh] at hh'
    cases hh'
    refine ⟨fun _ r' hr' => ?_, fun hop' => ?_⟩
    · rw [hr] at hr'
      cases hr'
      exact ⟨rfl, rfl⟩
    · rw [hop] at hop'
      cases hop'
  · have hhandle := handle_write x.1 s hh hop hq
    rw [ho.write] at hhandle
    rcases sys_cases x.1 .pwrite (fun h => h.pwrite x.1.room fd q.offset
      (bytes.take (min q.size.toNat bytes.length))) s.world with ⟨e, he⟩ | ⟨n, h₁, hpw, hok⟩
    · rw [he] at hhandle
      refine ⟨⟨_, s, data, data, hhandle, ho.file, ho.file, fun header' hh' => ?_⟩,
        s, data, step_of_handle hhandle, ho, rfl⟩
      rw [hh] at hh'
      cases hh'
      refine ⟨fun hop' => ?_, fun _ q' bytes' hq' count hreply => ?_⟩
      · rw [hop] at hop'
        cases hop'
      · exact absurd hreply (errnoReply_ne_okReply _ _ _)
    · obtain ⟨hn, hmax, halign, hdata, hother⟩ := Host.pwrite_positional hf ho.file hpw
      rw [hok] at hhandle
      refine ⟨⟨_, _, data, _, hhandle, ho.file, hdata, fun header' hh' => ?_⟩,
        _, _, step_of_handle hhandle, ⟨ho.handle, hdata⟩, halign⟩
      rw [hh] at hh'
      cases hh'
      refine ⟨fun hop' => ?_, fun _ q' bytes' hq' count hreply => ?_⟩
      · rw [hop] at hop'
        cases hop'
      · rw [hq] at hq'
        cases hq'
        have hcount : count.toNat = n := by
          rw [← writeOut_inj (okReply_inj hreply), UInt32.toNat_ofNat_of_lt']
          exact hmax.trans_lt (by decide)
        rw [hcount]
        rw [List.length_take] at hn
        have htake : (bytes.take (min q.size.toNat bytes.length)).take n = bytes.take n := by
          rw [List.take_take, Nat.min_eq_left (by omega)]
        rw [htake]
        exact ⟨by omega, patched_writeAt .., hother⟩

/-- Any sequence of transfers on a positional handle is served. -/
theorem OpenOn.along (ho : OpenOn s.world fh fd data)
    (hf : Positional s.world.host.dioAlign fd.flags) {xs : List Input}
    (hxs : ∀ x ∈ xs, Transfers fh x) : Along Session.step (Served fd.file) s xs := by
  induction xs generalizing s data with
  | nil => trivial
  | cons x xs ih =>
    obtain ⟨hserved, s₁, new, hstep, ho₁, halign⟩ := ho.served hf (hxs x List.mem_cons_self)
    refine ⟨hserved, ?_⟩
    rw [hstep]
    exact ih ho₁ (halign ▸ hf) fun y hy => hxs y (List.mem_cons_of_mem x hy)

/-- A handle whose reads succeed is readable, not a path, and free of alignment. -/
theorem Served.read_flags (hserved : Served fd.file s (env, encodeRead fh 0 1))
    (ho : OpenOn s.world fh fd data) : hasFlag fd.flags O_PATH = false ∧
      readable fd.flags = true ∧ (hasFlag fd.flags O_DIRECT = true → s.world.host.dioAlign = 1) := by
  obtain ⟨reply, s', old, new, hhandle, -, -, hall⟩ := hserved
  obtain ⟨header, hh, hop, hparse⟩ := parse_encodeRead fh 0 1
  have hreply := ((hall header hh).1 hop _ hparse).2
  have hread := handle_read env s hh hop hparse
  rw [hread, hreply] at hhandle
  obtain ⟨b, w, hok, -, -⟩ := answered_ok hhandle
  rw [ho.read] at hok
  rcases sys_cases env .pread (fun h => h.pread fd 0 1) s.world with ⟨e, he⟩ | ⟨b', h₁, hp, -⟩
  · have herr : sys env .pread (fun h => h.pread fd 0 1) s.world = .ok b w := hok
    rw [he] at herr
    cases herr
  · obtain ⟨hpath, hreadable, halign, -⟩ := Host.pread_ok hp
    refine ⟨hpath, hreadable, fun hdirect => ?_⟩
    unfold Host.misaligned at halign
    rw [hdirect, Bool.true_and, Bool.or_eq_false_iff, bne_eq_false_iff_eq,
      bne_eq_false_iff_eq] at halign
    exact Nat.dvd_one.mp (Nat.dvd_of_mod_eq_zero halign.2)

/-- A served write of one byte did not append. -/
theorem Served.write_flags {off : UInt64} {b : UInt8}
    (hoff : off.toNat = if data = [] then 1 else 0) (hfault : env.fault .pwrite = none)
    (hroom : env.room = none)
    (hserved : Served fd.file s (env, encodeWrite fh off [b])) (ho : OpenOn s.world fh fd data)
    (hpath : hasFlag fd.flags O_PATH = false) (hw : writable fd.flags = true)
    (halign : hasFlag fd.flags O_DIRECT = true → s.world.host.dioAlign = 1) :
    hasFlag fd.flags O_APPEND = false := by
  by_contra happ
  have happ : hasFlag fd.flags O_APPEND = true := Bool.eq_true_of_not_eq_false happ
  have hal : s.world.host.misaligned fd off.toNat 1 = false := by
    unfold Host.misaligned
    cases hd : hasFlag fd.flags O_DIRECT with
    | false => rfl
    | true =>
      rw [halign hd]
      simp [Nat.mod_one]
  have hsmall : off.toNat < 2 ^ 63 := by
    rw [hoff]
    split_ifs <;> omega
  obtain ⟨h₁, hpw, hdata⟩ := Host.pwrite_append (b := b) hpath hw happ hal hsmall ho.file
  obtain ⟨reply, s', old, new, hhandle, hold, hnew, hall⟩ := hserved
  obtain ⟨header, hh, hop, hparse⟩ := parse_encodeWrite fh off [b]
  have hwrite := handle_write env s hh hop hparse
  have hok : PassthroughFs.write env fh off [b] s.world = .ok 1 (s.world.withHost h₁) := by
    rw [ho.write]
    refine sys_ok hfault ?_
    rw [hroom]
    exact hpw
  have htake : [b].take (min (UInt32.ofNat [b].length).toNat [b].length) = [b] := by simp
  simp only [htake, hok] at hwrite
  rw [hwrite] at hhandle
  obtain ⟨hreply, rfl⟩ := Prod.mk.inj hhandle
  obtain ⟨-, hpatch, -⟩ := (hall header hh).2 hop _ _ hparse 1 (Option.some.inj hreply).symm
  rw [ho.file] at hold
  cases hold
  have hnew' : new = writeAt data data.length [b] := Option.some.inj (hnew.symm.trans hdata)
  rw [hoff] at hpatch
  exact not_patched_append hnew' hpatch

end Transfer

/-- Every sequence of transfers on a handle is served exactly when the flags it was opened
with are positional. -/
theorem data_path_iff {env : Env} {s s₀ : Session} {request : Bytes} {flags : UInt32} {fh : UInt64}
    {fd : Fd} {data : List UInt8} (hopen : Opened env s request flags fh s₀)
    (hacc : writable flags = true) (hon : OpenOn s₀.world fh fd data) :
    (∀ xs : List Input, (∀ x ∈ xs, Transfers fh x) →
      Along Session.step (Served fd.file) s₀ xs) ↔
    Positional s₀.world.host.dioAlign flags := by
  obtain ⟨fd', hfd', hwr, hpos⟩ := hopen.positional
  have hsame : fd' = fd := by
    rw [hon.handle] at hfd'
    cases hfd'
    rfl
  subst hsame
  rw [← hpos]
  constructor
  · intro hall
    have hread : Transfers fh (calm 0 [], encodeRead fh 0 1) := by
      obtain ⟨header, hh, hop, hparse⟩ := parse_encodeRead fh 0 1
      have hsmall : (0 : UInt64).toNat + (1 : UInt32).toNat < 2 ^ 63 := by decide
      have hone : (1 : UInt32).toNat ≤ MAX_RW_COUNT := by decide
      exact ⟨header, hh, Or.inl ⟨hop, rfl, _, hparse, rfl, hsmall, hone⟩⟩
    have hserved := hall [(calm 0 [], encodeRead fh 0 1)] (by simpa using hread)
    obtain ⟨hpath, hreadable, halign⟩ := hserved.1.read_flags hon
    let off : UInt64 := if data = [] then 1 else 0
    have hoff : off.toNat = if data = [] then 1 else 0 := by
      by_cases hd : data = []
      · simp [off, hd]
      · simp [off, hd]
    have hwrite : Transfers fh (calm 0 [], encodeWrite fh off [0]) := by
      obtain ⟨header, hh, hop, hparse⟩ := parse_encodeWrite fh off [0]
      refine ⟨header, hh, Or.inr ⟨hop, _, _, hparse, rfl, ?_⟩⟩
      have hmin : min (UInt32.ofNat [(0 : UInt8)].length).toNat [(0 : UInt8)].length = 1 := rfl
      rw [hmin, hoff]
      split_ifs <;> omega
    have hserved' := hall [(calm 0 [], encodeWrite fh off [0])] (by simpa using hwrite)
    have hwr' : writable fd'.flags = true := hwr.trans hacc
    refine ⟨?_, hserved'.1.write_flags hoff rfl rfl hon hpath hwr' halign, hpath, halign⟩
    unfold writable at hwr'
    unfold readable at hreadable
    rw [Bool.or_eq_true, decide_eq_true_eq, decide_eq_true_eq] at hwr' hreadable
    rcases hwr' with h₁ | h₁
    · rw [h₁] at hreadable
      exact absurd hreadable (by decide)
    · exact h₁
  · intro hf xs hxs
    exact hon.along hf hxs

def createX (flags : UInt32) : Bytes :=
  encodeRequest 35 1 (((((Writer.new.u32 flags).u32 0o644).u32 0).u32 0).cstr [120]).intoVec

theorem Opened.of_createX (flags : UInt32) {c : CreateIn}
    (hparse : CreateIn.fromBytes (InHeader.body (createX flags)) = .ok (c, [120]))
    (hhead : (InHeader.fromBytes (createX flags)).toOption.map (fun h => (h.opcode, h.nodeid)) =
      some (35, 1)) (hc : c = ⟨flags, 0o644⟩)
    (hrun : (match PassthroughFs.create (calm 20 []) 1 [120] flags 0o644 smallWorld with
      | .ok r w => some (r.2.1, w.handles.handles 1, w.host.fileData ⟨1, 20⟩)
      | .error _ _ => none) =
        some (1, some (.file ⟨4, ⟨1, 20⟩, flags ||| O_CREAT ||| O_EXCL⟩), some [])) :
    ∃ s₀, Opened (calm 20 []) (.new smallWorld) (createX flags) flags 1 s₀ ∧
      OpenOn s₀.world 1 ⟨4, ⟨1, 20⟩, flags ||| O_CREAT ||| O_EXCL⟩ [] := by
  subst hc
  cases hh : InHeader.fromBytes (createX flags) with
  | error e =>
    rw [hh] at hhead
    cases hhead
  | ok header =>
    rw [hh] at hhead
    obtain ⟨hop, hnode⟩ := Prod.mk.inj (Option.some.inj hhead)
    have hop' : Opcode.ofU32 header.opcode = .create := by
      have : header.opcode = 35 := hop
      rw [this]
      rfl
    have hhandle := handle_create (calm 20 []) (.new smallWorld) hh hop' hparse
    have hnode' : header.nodeid = 1 := hnode
    rw [hnode'] at hhandle
    cases hcr : PassthroughFs.create (calm 20 []) 1 [120] flags 0o644 smallWorld with
    | error e w =>
      rw [hcr] at hrun
      cases hrun
    | ok r w =>
      rw [hcr] at hrun
      simp only [Option.some.injEq, Prod.mk.injEq] at hrun
      obtain ⟨hfh, hhd, hdata⟩ := hrun
      have hworld : PassthroughFs.create (calm 20 []) 1 [120] flags 0o644
          (Session.new smallWorld).world = .ok r w := hcr
      rw [hworld] at hhandle
      refine ⟨{ Session.new smallWorld with world := w },
        ⟨header, hh, Or.inr ⟨hop', ⟨flags, 0o644⟩, [120], r.1, r.2.2, hparse, rfl, ?_⟩⟩, hhd, hdata⟩
      rw [← hfh]
      exact hhandle

/-- Some transfer on a writable handle that was created with `flags` is not served. -/
def Misserves (flags : UInt32) : Prop :=
  ∃ s₀ fd x, Opened (calm 20 []) (.new smallWorld) (createX flags) flags 1 s₀ ∧
    writable flags = true ∧ OpenOn s₀.world 1 fd [] ∧ Transfers 1 x ∧ ¬ Served fd.file s₀ x

/-- A handle created write-only refuses reads, and one created for appending writes
elsewhere than it was told to. -/
theorem writable_handle_misserves : PassthroughFs.new smallHost ⟨1, 10⟩ = some smallWorld ∧
    Misserves O_WRONLY ∧ Misserves (O_RDWR ||| O_APPEND) := by
  refine ⟨smallWorld_new, ?_, ?_⟩
  · obtain ⟨s₀, hopen, hon⟩ := Opened.of_createX O_WRONLY (c := ⟨O_WRONLY, 0o644⟩)
      (by decide +kernel) (by decide +kernel) rfl (by decide +kernel)
    refine ⟨s₀, _, (calm 21 [], encodeRead 1 0 1), hopen, rfl, hon, ?_, fun hserved => ?_⟩
    · obtain ⟨header, hh, hop, hparse⟩ := parse_encodeRead 1 0 1
      exact ⟨header, hh, Or.inl ⟨hop, rfl, _, hparse, rfl, by decide, by decide⟩⟩
    · exact absurd (hserved.read_flags hon).2.1 (by decide)
  · obtain ⟨s₀, hopen, hon⟩ := Opened.of_createX (O_RDWR ||| O_APPEND)
      (c := ⟨O_RDWR ||| O_APPEND, 0o644⟩)
      (by decide +kernel) (by decide +kernel) rfl (by decide +kernel)
    refine ⟨s₀, _, (calm 21 [], encodeWrite 1 1 [7]), hopen, rfl, hon, ?_, fun hserved => ?_⟩
    · obtain ⟨header, hh, hop, hparse⟩ := parse_encodeWrite 1 1 [7]
      exact ⟨header, hh, Or.inr ⟨hop, _, _, hparse, rfl, by decide⟩⟩
    · have hdirect : hasFlag (O_RDWR ||| O_APPEND ||| O_CREAT ||| O_EXCL) O_DIRECT = false := by
        decide
      have hno := hserved.write_flags rfl rfl rfl hon (by decide) (by decide) fun h => by
        rw [hdirect] at h
        cases h
      exact absurd hno (by decide)

/-- A handle created for reading and writing serves every sequence of transfers. -/
theorem data_path_read_write : ∃ (s₀ : Session) (fd : Fd),
    Opened (calm 20 []) (.new smallWorld) (createX O_RDWR) O_RDWR 1 s₀ ∧
    ∀ xs : List Input, (∀ x ∈ xs, Transfers 1 x) → Along Session.step (Served fd.file) s₀ xs := by
  obtain ⟨s₀, hopen, hon⟩ := Opened.of_createX O_RDWR (c := ⟨O_RDWR, 0o644⟩)
    (by decide +kernel) (by decide +kernel) rfl (by decide +kernel)
  have hdirect : hasFlag O_RDWR O_DIRECT = false := by decide
  refine ⟨s₀, _, hopen, (data_path_iff hopen rfl hon).mpr ⟨by decide, by decide, by decide, ?_⟩⟩
  intro h
  rw [hdirect] at h
  cases h

end Riftlessfs.Fuse
