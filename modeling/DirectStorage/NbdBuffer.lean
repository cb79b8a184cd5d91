/-
DirectStorage/NbdBuffer.lean

Is the receive buffer of `serve_nbd` always large enough?

`bufUses` lists the calls of one pass that get `buf` together with `len`, each
with the capacity the buffer has at that moment.  When `realloc` fails the
capacity stays behind the length: a READ then makes no such call, but a WRITE
calls `read_full` before it looks at the `-ENOMEM`, and receives its payload
past the end of the buffer.

Main result: `serveNbd_bufDiscipline`.  For every stream, every sink and every
pattern of `realloc` results, all passes keep to the buffer exactly if no WRITE
is left without room, and then no byte is ever stored beyond it.  Either way a
request that is left without room does not change the device and is not
answered with success.
-/
import DirectStorage.NbdTruncation

namespace DirectStorage

variable {env : Realloc} {st st' : NbdServer} {req : NbdHeader} {len : UInt32}

/-! ### The calls that get the buffer -/

/-- The functions `serve_nbd` passes its buffer to. -/
inductive BufFn
  | readFull
  | writeFull
  | backendRead
  | backendWrite
  deriving DecidableEq

/-- The calls of the loop body that get the buffer, in the order of the source. -/
def bufCalls (env : Realloc) (st : NbdServer) (req : NbdHeader) : List BufFn :=
  if req.magic ≠ nbdRequestMagic then []
  else
    let (rc, st) := growBuf env st req.len
    if req.type = nbdCmdRead then
      if rc = 0 then
        let (rc, data) := ramdiskBackendRead st.backend req.from_ st.buf.isEmpty req.len
        .backendRead ::
          match answer (st.fillBuf data) req.handle rc with
          | .out _ => []
          | .next _ => if rc = 0 then [.writeFull] else []
      else []
    else if req.type = nbdCmdWrite then
      .readFull ::
        if (recvPayload st req.len).1 < 0 then []
        else if rc = 0 then [.backendWrite]
        else []
    else []

/-- A call with `buf` and `len`, and `buf_cap` at that moment. -/
structure BufUse where
  fn : BufFn
  len : Nat
  cap : Nat

/-- The calls with their arguments.  After the `realloc` at its start a pass
does not change the capacity any more. -/
def bufUses (env : Realloc) (st : NbdServer) (req : NbdHeader) : List BufUse :=
  (bufCalls env st req).map fun fn =>
    ⟨fn, req.len.toNat, (growBuf env st req.len).2.buf.length⟩

/-! ### Room -/

/-- The buffer is too small for `len` bytes, and `realloc` fails. -/
def NoRoom (env : Realloc) (st : NbdServer) (len : UInt32) : Prop :=
  st.buf.length < len.toNat ∧ env st.reallocs = none

theorem growBuf_noRoom (h : NoRoom env st len) :
    growBuf env st len = (-ENOMEM, { st with reallocs := st.reallocs + 1 }) := by
  unfold growBuf
  rw [if_pos h.1, h.2]

theorem growBuf_room (h : ¬ NoRoom env st len) :
    (growBuf env st len).1 = 0 ∧ len.toNat ≤ (growBuf env st len).2.buf.length := by
  unfold growBuf
  by_cases hlen : len.toNat > st.buf.length
  · rw [if_pos hlen]
    rcases e : env st.reallocs with - | m
    · exact absurd ⟨hlen, e⟩ h
    · refine ⟨rfl, ?_⟩
      simp only [List.length_append, ByteMem.length_load]
      omega
  · rw [if_neg hlen]
    exact ⟨rfl, Nat.not_lt.mp hlen⟩

/-- What growing leaves alone. -/
theorem growBuf_frame (env : Realloc) (st : NbdServer) (len : UInt32) :
    (growBuf env st len).2.backend = st.backend ∧ (growBuf env st len).2.snk = st.snk ∧
      (growBuf env st len).2.overflow = st.overflow := by
  unfold growBuf
  split_ifs
  · rcases env st.reallocs with - | m
    · exact ⟨rfl, rfl, rfl⟩
    · exact ⟨rfl, rfl, rfl⟩
  · exact ⟨rfl, rfl, rfl⟩

/-- The request is a WRITE that is left without room. -/
def UngrownWrite (env : Realloc) (st : NbdServer) (req : NbdHeader) : Prop :=
  req.magic = nbdRequestMagic ∧ req.type = nbdCmdWrite ∧ NoRoom env st req.len

/-- Without room only a WRITE passes the buffer on. -/
theorem bufCalls_noRoom (hmagic : req.magic = nbdRequestMagic) (hroom : NoRoom env st req.len) :
    bufCalls env st req ≠ [] ↔ req.type = nbdCmdWrite := by
  unfold bufCalls
  rw [if_neg (not_not.mpr hmagic), growBuf_noRoom hroom]
  dsimp only
  by_cases hread : req.type = nbdCmdRead
  · have hwrite : req.type ≠ nbdCmdWrite := by
      rw [hread]
      decide
    rw [if_pos hread, if_neg (by decide)]
    exact ⟨fun h => absurd rfl h, fun h => absurd h hwrite⟩
  · by_cases hwrite : req.type = nbdCmdWrite
    · rw [if_neg hread, if_pos hwrite]
      exact ⟨fun _ => hwrite, fun _ => List.cons_ne_nil _ _⟩
    · rw [if_neg hread, if_neg hwrite]
      exact ⟨fun h => absurd rfl h, fun h => absurd h hwrite⟩

/-- **The calls of a pass keep to the buffer, except for the WRITE that is left
without room.** -/
theorem bufUses_within_iff (env : Realloc) (st : NbdServer) (req : NbdHeader) :
    (∀ u ∈ bufUses env st req, u.len ≤ u.cap) ↔ ¬ UngrownWrite env st req := by
  unfold bufUses
  rw [List.forall_mem_map]
  constructor
  · rintro hall ⟨hmagic, hwrite, hroom⟩
    obtain ⟨fn, hfn⟩ := List.exists_mem_of_ne_nil _ ((bufCalls_noRoom hmagic hroom).mpr hwrite)
    have hle := hall fn hfn
    rw [growBuf_noRoom hroom] at hle
    exact absurd hroom.1 (Nat.not_lt.mpr hle)
  · intro hno fn hfn
    by_cases hroom : NoRoom env st req.len
    · by_cases hmagic : req.magic = nbdRequestMagic
      · have hcalls := (bufCalls_noRoom hmagic hroom).mp (List.ne_nil_of_mem hfn)
        exact absurd ⟨hmagic, hcalls, hroom⟩ hno
      · rw [bufCalls, if_pos hmagic] at hfn
        cases hfn
    · exact (growBuf_room hroom).2

/-! ### A request without room -/

/-- The pass over `req` leaves the device alone and sends at most a `-ENOMEM`
reply, or a beginning of it. -/
structure Refused (st : NbdServer) (req : NbdHeader) (flow : Flow NbdServer) : Prop where
  backend : flow.state.backend = st.backend
  reply : ∃ sent, sent <+: replyBytes req.handle (-ENOMEM) ∧
    flow.state.snk.out = st.snk.out ++ sent

theorem answer_state (st : NbdServer) (handle : List UInt8) (rc : Int) :
    (answer st handle rc).state = { st with snk := (sendReply st.snk handle rc).2 } := by
  simp only [answer]
  split_ifs <;> rfl

theorem answer_frame (st : NbdServer) (handle : List UInt8) (rc : Int) :
    (answer st handle rc).state.backend = st.backend ∧
      (answer st handle rc).state.overflow = st.overflow ∧
      ∃ sent, sent <+: replyBytes handle rc ∧
        (answer st handle rc).state.snk.out = st.snk.out ++ sent := by
  rw [answer_state]
  exact ⟨rfl, rfl, writeFull_prefix st.snk (replyBytes handle rc)⟩

theorem refused_answer (st : NbdServer) (req : NbdHeader) :
    Refused st req (answer st req.handle (-ENOMEM)) :=
  ⟨(answer_frame st req.handle (-ENOMEM)).1, (answer_frame st req.handle (-ENOMEM)).2.2⟩

theorem recvPayload_frame (st : NbdServer) (len : UInt32) :
    (recvPayload st len).2.backend = st.backend ∧ (recvPayload st len).2.snk = st.snk := by
  simp only [recvPayload]
  split_ifs
  · exact ⟨rfl, rfl⟩
  · exact ⟨rfl, rfl⟩

theorem nbdRead_failed (st : NbdServer) (handle : List UInt8) (from_ : UInt64) (len : UInt32)
    {rc : Int} (hrc : rc ≠ 0) : nbdRead st handle from_ len rc = answer st handle rc := by
  have hfill : st.fillBuf [] = st := by
    rw [NbdServer.fillBuf, List.nil_append, List.length_nil, List.drop_zero, List.take_length]
  unfold nbdRead
  simp only [if_neg hrc, hfill]
  rcases answer st handle rc with st' | st'
  · rfl
  · rfl

/-- **A READ or WRITE without room is refused.** -/
theorem serveRequest_noRoom (hmagic : req.magic = nbdRequestMagic)
    (hrw : req.type = nbdCmdRead ∨ req.type = nbdCmdWrite) (hroom : NoRoom env st req.len) :
    Refused st req (serveRequest env st req) := by
  have hrc : (-ENOMEM : Int) ≠ 0 := by decide
  rw [serveRequest, if_neg (not_not.mpr hmagic), growBuf_noRoom hroom]
  dsimp only
  rcases hrw with hread | hwrite
  · rw [if_pos hread, nbdRead_failed _ _ _ _ hrc]
    exact ⟨(refused_answer _ req).backend, (refused_answer _ req).reply⟩
  · have hread : req.type ≠ nbdCmdRead := by
      rw [hwrite]
      decide
    obtain ⟨hbackend, hsnk⟩ := recvPayload_frame { st with reallocs := st.reallocs + 1 } req.len
    rw [if_neg hread, if_pos hwrite]
    simp only [nbdWrite, if_neg hrc]
    split_ifs
    · refine ⟨hbackend, [], List.nil_prefix, ?_⟩
      show (recvPayload _ req.len).2.snk.out = _
      rw [hsnk, List.append_nil]
    · refine ⟨(refused_answer _ req).backend.trans hbackend, ?_⟩
      rw [← show (recvPayload { st with reallocs := st.reallocs + 1 } req.len).2.snk.out =
        st.snk.out from congrArg Sink.out hsnk]
      exact (refused_answer _ req).reply

/-! ### Memory beyond the buffer -/

theorem nbdRead_overflow (st : NbdServer) (handle : List UInt8) (from_ : UInt64) (len : UInt32)
    (rc : Int) : (nbdRead st handle from_ len rc).state.overflow = st.overflow := by
  unfold nbdRead
  generalize (if rc = 0 then ramdiskBackendRead st.backend from_ st.buf.isEmpty len
    else (rc, [])) = r
  obtain ⟨rc', data⟩ := r
  have hover := (answer_frame (st.fillBuf data) handle rc').2.1
  dsimp only
  rcases e : answer (st.fillBuf data) handle rc' with st' | st' <;> rw [e] at hover
  · dsimp only
    split_ifs <;> exact hover
  · exact hover

/-- A payload that fits stays inside the buffer. -/
theorem recvPayload_overflow (hfit : len.toNat ≤ st.buf.length) :
    (recvPayload st len).2.overflow = st.overflow := by
  have hgot := length_readFull_le st.src len.toNat
  simp only [recvPayload]
  split_ifs
  · rfl
  · show (st.overflow || decide (st.buf.length < (readFull st.src len.toNat).2.1.length)) = _
    rw [decide_eq_false (by omega), Bool.or_false]

/-- **Only a WRITE without room stores bytes beyond the buffer.** -/
theorem serveRequest_overflow (h : ¬ UngrownWrite env st req) :
    (serveRequest env st req).state.overflow = st.overflow := by
  obtain ⟨-, -, hgrow⟩ := growBuf_frame env st req.len
  by_cases hmagic : req.magic = nbdRequestMagic
  · simp only [serveRequest, if_neg (not_not.mpr hmagic)]
    split_ifs with hread hwrite
    · rw [nbdRead_overflow, hgrow]
    · have hfit := (growBuf_room fun hroom => h ⟨hmagic, hwrite, hroom⟩).2
      have hrecv := (recvPayload_overflow hfit).trans hgrow
      simp only [nbdWrite]
      split_ifs
      · exact hrecv
      · exact ((answer_frame _ _ _).2.1).trans hrecv
      · exact ((answer_frame _ _ _).2.1).trans hrecv
    · exact ((answer_frame _ _ _).2.1).trans hgrow
    · exact ((answer_frame _ _ _).2.1).trans hgrow
    · exact hgrow
    · exact ((answer_frame _ _ _).2.1).trans hgrow
  · rw [serveRequest, if_pos hmagic]
    rfl

/-! ### Whole runs -/

/-- The pass over `req` keeps to the buffer: no call gets a length beyond the
capacity, and a READ or WRITE without room is refused and stores nothing beyond
the buffer. -/
structure KeepsToBuffer (env : Realloc) (st : NbdServer) (req : NbdHeader) : Prop where
  uses : ∀ u ∈ bufUses env st req, u.len ≤ u.cap
  noRoom : req.magic = nbdRequestMagic → req.type = nbdCmdRead ∨ req.type = nbdCmdWrite →
    NoRoom env st req.len → Refused st req (serveRequest env st req) ∧
      (serveRequest env st req).state.overflow = st.overflow

theorem keepsToBuffer_iff (env : Realloc) (st : NbdServer) (req : NbdHeader) :
    KeepsToBuffer env st req ↔ ¬ UngrownWrite env st req := by
  rw [← bufUses_within_iff]
  refine ⟨KeepsToBuffer.uses, fun hall => ⟨hall, ?_⟩⟩
  intro hmagic hrw hroom
  exact ⟨serveRequest_noRoom hmagic hrw hroom,
    serveRequest_overflow ((bufUses_within_iff env st req).mp hall)⟩

/-- The header that the next pass reads, and the server without it. -/
def NbdServer.header (st : NbdServer) : Option (NbdHeader × NbdServer) :=
  let (n, hdr, src) := readFull st.src nbdRequestSize
  if n ≤ 0 then none else some ((loadRequest hdr).ntoh, { st with src := src })

theorem serveOnce_of_header (env : Realloc) (h : st.header = some (req, st')) :
    serveOnce env st = serveRequest env st' req ∧ st'.overflow = st.overflow := by
  unfold NbdServer.header at h
  dsimp only at h
  split_ifs at h with hn
  obtain ⟨rfl, rfl⟩ := Prod.mk.inj (Option.some.inj h)
  refine ⟨?_, rfl⟩
  unfold serveOnce
  dsimp only
  rw [if_neg (by omega), if_neg (by omega)]

theorem serveOnce_no_header (h : st.header = none) :
    (serveOnce env st).state.overflow = st.overflow := by
  unfold NbdServer.header at h
  dsimp only at h
  split_ifs at h with hn
  unfold serveOnce
  dsimp only
  split_ifs
  · rfl
  · rfl
  · omega

/-- Some pass of the run takes the header `req` off the stream and then has the
server `st`. -/
def Receives (env : Realloc) (b : Backend) (src : Source UInt8) (snk : Sink UInt8)
    (st : NbdServer) (req : NbdHeader) : Prop :=
  ∃ n st₀, passes (serveOnce env) n (NbdServer.start b src snk) = .next st₀ ∧
    st₀.header = some (req, st)

/-- **Buffer discipline of `serve_nbd`**, for every stream, every sink and every
pattern of `realloc` results: every pass keeps to the buffer exactly if no WRITE
is left without room; then no byte is stored beyond the buffer in the whole run;
and a READ or WRITE without room is refused in any case. -/
theorem serveNbd_bufDiscipline (env : Realloc) (b : Backend) (src : Source UInt8)
    (snk : Sink UInt8) :
    ((∀ st req, Receives env b src snk st req → KeepsToBuffer env st req) ↔
      ∀ st req, Receives env b src snk st req → ¬ UngrownWrite env st req) ∧
    ((∀ st req, Receives env b src snk st req → ¬ UngrownWrite env st req) →
      (serveNbd env (NbdServer.start b src snk)).overflow = false) ∧
    ∀ st req, Receives env b src snk st req → req.magic = nbdRequestMagic →
      req.type = nbdCmdRead ∨ req.type = nbdCmdWrite → NoRoom env st req.len →
      Refused st req (serveRequest env st req) := by
  refine ⟨?_, ?_, fun st req _ hmagic hrw hroom => serveRequest_noRoom hmagic hrw hroom⟩
  · constructor
    · exact fun h st req hst => (keepsToBuffer_iff env st req).mp (h st req hst)
    · exact fun h st req hst => (keepsToBuffer_iff env st req).mpr (h st req hst)
  · intro hroom
    refine runLoop_invariant (I := fun st : NbdServer => st.overflow = false) rfl ?_
    intro n st hn hst
    rcases e : st.header with - | ⟨req, st₁⟩
    · rw [serveOnce_no_header e, hst]
    · obtain ⟨honce, hover⟩ := serveOnce_of_header env e
      rw [honce, serveRequest_overflow (hroom st₁ req ⟨n, st, hn, e⟩), hover, hst]

namespace NbdSmall

/-- The first `realloc` succeeds, the others fail. -/
def oneRealloc : Realloc := fun k => if k = 0 then some ByteMem.zero else none

/-- A READ of four bytes, then a WRITE of eight. -/
def growing : Source UInt8 :=
  ⟨readReq.encode ++ (header nbdCmdWrite 0 8).bytes ++ [1, 2, 3, 4, 5, 6, 7, 8], []⟩

end NbdSmall

/-- **The payload of a WRITE without room goes beyond the buffer**: the buffer
has four bytes and cannot be grown, and `read_full` is called for eight. -/
theorem write_beyond_buffer :
    (∃ st req u, Receives NbdSmall.oneRealloc NbdSmall.backend NbdSmall.growing ⟨[], []⟩ st req ∧
      u ∈ bufUses NbdSmall.oneRealloc st req ∧ u.fn = .readFull ∧ u.cap = 4 ∧ u.len = 8) ∧
    (serveNbd NbdSmall.oneRealloc
      (NbdServer.start NbdSmall.backend NbdSmall.growing ⟨[], []⟩)).overflow = true := by
  refine ⟨?_, by decide +kernel⟩
  have hrun : (match passes (serveOnce NbdSmall.oneRealloc) 1
      (NbdServer.start NbdSmall.backend NbdSmall.growing ⟨[], []⟩) with
    | .next st₀ => match st₀.header with
      | some (req, st) => (bufUses NbdSmall.oneRealloc st req).any fun u =>
          u.fn = .readFull ∧ u.cap = 4 ∧ u.len = 8
      | none => false
    | .out _ => false) = true := by decide +kernel
  split at hrun
  · next st₀ hpass =>
    split at hrun
    · next req st hhdr =>
      obtain ⟨u, hu, hsmall⟩ := List.any_eq_true.mp hrun
      exact ⟨st, req, u, ⟨1, st₀, hpass, hhdr⟩, hu, of_decide_eq_true hsmall⟩
    · cases hrun
  · cases hrun

end DirectStorage
