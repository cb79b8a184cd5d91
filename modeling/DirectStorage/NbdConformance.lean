/-
DirectStorage/NbdConformance.lean

`serve_nbd` speaks the NBD protocol.

The client's side is described without the server: a reply on the wire
(`NbdReply`), how a client that sent certain requests reads the answer stream
(`Decodes`), and what a right answer to a request is (`Answers`).  Reading is
deterministic (`Decodes.unique`), because a client knows from its request and
from the error field how many bytes follow a reply.

Main result: `serveNbd_conforms`.  For every sequence of complete requests,
sent in any chunks, the server takes exactly their bytes off the stream and
sends a stream that decodes, in one way only, into one right answer for each
request, in order.
-/
import DirectStorage.NbdServe

namespace DirectStorage

/-! ### Replies as the client sees them -/

/-- A reply, with the data that follows it. -/
@[ext]
structure NbdReply where
  error : UInt32
  handle : List UInt8
  data : List UInt8
  handle_length : handle.length = 8
  deriving DecidableEq, Repr

/-- The sixteen bytes of the reply and its data on the wire. -/
def NbdReply.bytes (p : NbdReply) : List UInt8 :=
  toBe 4 nbdReplyMagic.toNat ++ (toBe 4 p.error.toNat ++ (p.handle ++ p.data))

/-- How many bytes follow a reply to `h` with this error. -/
def NbdHeader.dataLen (h : NbdHeader) (error : UInt32) : Nat :=
  if h.type = nbdCmdRead ∧ error = 0 then h.len.toNat else 0

/-- A client that sent the requests reads the stream as these replies. -/
inductive Decodes : List NbdReq → List UInt8 → List NbdReply → Prop
  | nil : Decodes [] [] []
  | cons {r : NbdReq} {rs : List NbdReq} {p : NbdReply} {ps : List NbdReply} {out : List UInt8}
      (hdata : p.data.length = r.hdr.dataLen p.error) (htail : Decodes rs out ps) :
      Decodes (r :: rs) (p.bytes ++ out) (p :: ps)

/-- The command is one of the protocol, and its range is inside the device if
it has one. -/
def NbdReq.Succeeds (b : Backend) (r : NbdReq) : Prop :=
  r.hdr.type ∈ [nbdCmdRead, nbdCmdWrite, nbdCmdDisc, nbdCmdFlush, nbdCmdTrim] ∧
    (r.hdr.type ∈ [nbdCmdRead, nbdCmdWrite, nbdCmdTrim] → r.hdr.InRange b)

instance (b : Backend) (r : NbdReq) : Decidable (r.Succeeds b) :=
  inferInstanceAs (Decidable (_ ∧ _))

/-- **A right answer** to a request when the device is `b`. -/
structure Answers (b : Backend) (r : NbdReq) (p : NbdReply) : Prop where
  handle_eq : p.handle = r.hdr.handle
  error_eq_zero_iff : p.error = 0 ↔ r.Succeeds b
  data_eq : p.data = if r.hdr.type = nbdCmdRead ∧ r.Succeeds b then
    b.mem.load r.hdr.from_.toNat r.hdr.len.toNat else []
  unchanged : ¬r.Succeeds b → r.apply b = b

/-- One right answer for each request, in order; the device evolves with the
requests. -/
inductive Conforms : Backend → List NbdReq → List NbdReply → Prop
  | nil (b : Backend) : Conforms b [] []
  | cons {b : Backend} {r : NbdReq} {rs : List NbdReq} {p : NbdReply} {ps : List NbdReply}
      (hanswer : Answers b r p) (hrest : Conforms (r.apply b) rs ps) :
      Conforms b (r :: rs) (p :: ps)

/-! ### The stream decodes in one way only -/

/-- The first reply of a stream is determined by its request. -/
theorem NbdReply.bytes_append_inj {h : NbdHeader} {p q : NbdReply} {out out' : List UInt8}
    (hp : p.data.length = h.dataLen p.error) (hq : q.data.length = h.dataLen q.error)
    (heq : p.bytes ++ out = q.bytes ++ out') : p = q ∧ out = out' := by
  simp only [NbdReply.bytes, List.append_assoc] at heq
  have h₁ := (List.append_inj heq rfl).2
  obtain ⟨herr, h₂⟩ := List.append_inj h₁ (by simp)
  obtain ⟨hhandle, h₃⟩ := List.append_inj h₂ (by rw [p.handle_length, q.handle_length])
  have herror : p.error = q.error := by
    rw [← ofBe_toBe32 p.error, herr, ofBe_toBe32]
  obtain ⟨hdata, hout⟩ := List.append_inj h₃ (by rw [hp, hq, herror])
  exact ⟨NbdReply.ext herror hhandle hdata, hout⟩

/-- **A stream decodes in at most one way.** -/
theorem Decodes.unique {rs : List NbdReq} {out : List UInt8} {ps ps' : List NbdReply}
    (h : Decodes rs out ps) (h' : Decodes rs out ps') : ps = ps' := by
  induction h generalizing ps' with
  | nil =>
      cases h'
      rfl
  | cons hdata htail ih =>
      generalize hout : NbdReply.bytes _ ++ _ = out at h'
      cases h' with
      | cons hdata' htail' =>
          obtain ⟨rfl, rfl⟩ := NbdReply.bytes_append_inj hdata hdata' hout
          rw [ih htail']

/-! ### The answers of the server -/

/-- The error field for a return code. -/
def errorOf (rc : Int) : UInt32 := if rc = 0 then 0 else UInt32.ofNat rc.natAbs

/-- The answer to a request when the device is `b`. -/
def NbdReq.answer (b : Backend) (r : NbdReq) : NbdReply where
  error := errorOf (r.hdr.rc b false)
  handle := r.hdr.handle
  data := if r.hdr.type = nbdCmdRead ∧ r.hdr.rc b false = 0 then
    b.mem.load r.hdr.from_.toNat r.hdr.len.toNat else []
  handle_length := r.handle_length

/-- The answers to a sequence of requests. -/
def answers (b : Backend) : List NbdReq → List NbdReply
  | [] => []
  | r :: rs => r.answer b :: answers (r.apply b) rs

theorem replyBytes_eq (handle : List UInt8) (rc : Int) :
    replyBytes handle rc =
      toBe 4 nbdReplyMagic.toNat ++ (toBe 4 (errorOf rc).toNat ++ handle) := by
  have herr : toLe 4 (nbdErrorFromRc rc).toNat = toBe 4 (errorOf rc).toNat := by
    rw [nbdErrorFromRc, errorOf]
    split_ifs
    · rfl
    · exact toLe_ntohl _
  rw [replyBytes, toLe_ntohl, herr]

/-- What `send_reply` and the copy after it put on the wire is the answer. -/
theorem reply_eq_bytes (b : Backend) (r : NbdReq) :
    r.hdr.reply b false = (r.answer b).bytes := by
  rw [NbdHeader.reply, replyBytes_eq, NbdReply.bytes]
  simp only [NbdReq.answer, List.append_assoc]

theorem errorOf_fails : ∀ rc ∈ [-ERANGE, - EIO], errorOf rc ≠ 0 ∧ rc ≠ 0 := by decide

/-- The return code says whether the request succeeds, and so does the error
field made from it. -/
theorem rc_cases (b : Backend) (r : NbdReq) :
    r.hdr.rc b false = 0 ∧ r.Succeeds b ∨
      errorOf (r.hdr.rc b false) ≠ 0 ∧ r.hdr.rc b false ≠ 0 ∧ ¬r.Succeeds b := by
  have hfail : ∀ rc ∈ [-ERANGE, - EIO], ¬r.Succeeds b →
      errorOf rc ≠ 0 ∧ rc ≠ 0 ∧ ¬r.Succeeds b :=
    fun rc hrc hs => ⟨(errorOf_fails rc hrc).1, (errorOf_fails rc hrc).2, hs⟩
  by_cases hmem : r.hdr.type ∈ [nbdCmdRead, nbdCmdWrite, nbdCmdTrim]
  · -- the commands with a range
    have hrc : r.hdr.rc b false = if r.hdr.InRange b then 0 else -ERANGE := by
      simp only [List.mem_cons, List.not_mem_nil, or_false] at hmem
      rw [NbdHeader.rc]
      split_ifs <;> simp_all
    have hknown : r.hdr.type ∈ [nbdCmdRead, nbdCmdWrite, nbdCmdDisc, nbdCmdFlush, nbdCmdTrim] := by
      simp only [List.mem_cons, List.not_mem_nil, or_false] at hmem ⊢
      rcases hmem with h | h | h <;> simp [h]
    rw [hrc]
    by_cases hr : r.hdr.InRange b
    · rw [if_pos hr]
      exact .inl ⟨rfl, hknown, fun _ => hr⟩
    · rw [if_neg hr]
      exact .inr (hfail _ (by simp) fun hs => hr (hs.2 hmem))
  · have hne : ¬(r.hdr.type = nbdCmdRead ∨ r.hdr.type = nbdCmdWrite) ∧
        r.hdr.type ≠ nbdCmdTrim := by
      simp only [List.mem_cons, List.not_mem_nil, or_false, not_or] at hmem ⊢
      exact ⟨⟨hmem.1, hmem.2.1⟩, hmem.2.2⟩
    rw [NbdHeader.rc, if_neg hne.1, if_neg hne.2]
    by_cases hfd : r.hdr.type = nbdCmdFlush ∨ r.hdr.type = nbdCmdDisc
    · rw [if_pos hfd]
      refine .inl ⟨rfl, ?_, fun h => absurd h hmem⟩
      rcases hfd with h | h <;> simp [h]
    · rw [if_neg hfd]
      refine .inr (hfail _ (by simp) fun hs => ?_)
      have hknown := hs.1
      simp only [List.mem_cons, List.not_mem_nil, or_false, not_or] at hknown hmem hfd
      rcases hknown with h | h | h | h | h
      · exact hmem.1 h
      · exact hmem.2.1 h
      · exact hfd.2 h
      · exact hfd.1 h
      · exact hmem.2.2 h

theorem apply_of_not_succeeds {b : Backend} {r : NbdReq} (h : ¬r.Succeeds b) : r.apply b = b := by
  rw [NbdReq.apply]
  split_ifs with hw ht
  · exact absurd ⟨by simp [hw.1], fun _ => hw.2⟩ h
  · exact absurd ⟨by simp [ht.1], fun _ => ht.2⟩ h
  · rfl

/-- The answer of the server is the right one. -/
theorem answer_answers (b : Backend) (r : NbdReq) : Answers b r (r.answer b) := by
  refine ⟨rfl, ?_, ?_, apply_of_not_succeeds⟩
  · show errorOf (r.hdr.rc b false) = 0 ↔ _
    rcases rc_cases b r with ⟨hrc, hs⟩ | ⟨herr, -, hs⟩
    · simp [hrc, hs, errorOf]
    · simp [herr, hs]
  · show (if r.hdr.type = nbdCmdRead ∧ r.hdr.rc b false = 0 then _ else _) = _
    rcases rc_cases b r with ⟨hrc, hs⟩ | ⟨-, hrc, hs⟩
    · simp [hrc, hs]
    · simp [hrc, hs]

theorem answers_decodes (b : Backend) (rs : List NbdReq) :
    Decodes rs ((answers b rs).flatMap NbdReply.bytes) (answers b rs) := by
  induction rs generalizing b with
  | nil => exact .nil
  | cons r rs ih =>
      refine .cons ?_ (ih (r.apply b))
      show (if r.hdr.type = nbdCmdRead ∧ r.hdr.rc b false = 0 then
        b.mem.load r.hdr.from_.toNat r.hdr.len.toNat else []).length =
          r.hdr.dataLen (errorOf (r.hdr.rc b false))
      rw [NbdHeader.dataLen]
      rcases rc_cases b r with ⟨hrc, -⟩ | ⟨herr, hrc, -⟩
      · split_ifs <;> simp_all [errorOf]
      · simp [hrc, herr]

theorem answers_conforms (b : Backend) (rs : List NbdReq) : Conforms b rs (answers b rs) := by
  induction rs generalizing b with
  | nil => exact .nil b
  | cons r rs ih => exact .cons (answer_answers b r) (ih (r.apply b))

/-! ### Sessions -/

/-- The requests a client may send: a READ or WRITE moves at least one byte,
and only the last request may be a DISC. -/
structure Session (rs : List NbdReq) : Prop where
  moves : ∀ r ∈ rs, r.hdr.type = nbdCmdRead ∨ r.hdr.type = nbdCmdWrite → r.hdr.len ≠ 0
  disc_last : ∀ r ∈ rs.dropLast, r.hdr.type ≠ nbdCmdDisc

/-- The session was ended by a DISC. -/
def EndsWithDisc (rs : List NbdReq) : Prop := ∃ r ∈ rs, r.hdr.type = nbdCmdDisc

instance (rs : List NbdReq) : Decidable (EndsWithDisc rs) :=
  inferInstanceAs (Decidable (∃ r ∈ rs, r.hdr.type = nbdCmdDisc))

/-- The server has consumed and answered exactly `rs`, with `tail` still
unread. -/
structure Answered (b : Backend) (snk : Sink UInt8) (rs : List NbdReq) (tail : List UInt8)
    (st : NbdServer) : Prop where
  consumed : st.src.data = tail
  device : st.backend = applyAll b rs
  replies : ∃ out ps, st.snk.out = snk.out ++ out ∧ Decodes rs out ps ∧
    (∀ ps', Decodes rs out ps' → ps' = ps) ∧ Conforms b rs ps

variable {fresh : Nat → ByteMem}

theorem Session.tail {r : NbdReq} {rs : List NbdReq} (h : Session (r :: rs)) : Session rs := by
  refine ⟨fun r' hr' => h.moves r' (List.mem_cons_of_mem r hr'), fun r' hr' => ?_⟩
  rcases rs with - | ⟨s, rs⟩
  · simp at hr'
  · exact h.disc_last r' (List.mem_cons_of_mem r hr')

/-- Nothing follows a DISC. -/
theorem Session.eq_nil_of_disc {r : NbdReq} {rs : List NbdReq} (h : Session (r :: rs))
    (hD : r.hdr.type = nbdCmdDisc) : rs = [] := by
  rcases rs with - | ⟨s, rs⟩
  · rfl
  · exact absurd hD (h.disc_last r List.mem_cons_self)

/-- Once the buffer has room for a request that moves data, it is not `NULL`. -/
theorem reply_grow (c : NbdCore) {r : NbdReq}
    (hmoves : r.hdr.type = nbdCmdRead ∨ r.hdr.type = nbdCmdWrite → r.hdr.len ≠ 0)
    (b : Backend) :
    r.hdr.reply b (c.grow fresh r.hdr.len.toNat).buf.isEmpty = r.hdr.reply b false := by
  by_cases hrw : r.hdr.type = nbdCmdRead ∨ r.hdr.type = nbdCmdWrite
  · have hpos : 0 < r.hdr.len.toNat :=
      Nat.pos_of_ne_zero fun h0 => hmoves hrw (UInt32.toNat.inj h0)
    have hbuf : (c.grow fresh r.hdr.len.toNat).buf.isEmpty = false := by
      rw [List.isEmpty_eq_false_iff_exists_mem]
      exact List.exists_mem_of_length_pos (hpos.trans_le (length_grow c _))
    rw [hbuf]
  · simp only [NbdHeader.reply, NbdHeader.rc, if_neg hrw]

/-- A session, one pass for each request. -/
theorem passes_session {rs : List NbdReq} {tail : List UInt8} {st : NbdServer}
    (hb : st.backend.Live) (hsrc : st.src.Calm) (hsnk : st.snk.Calm) (hs : Session rs)
    (hdata : st.src.data = rs.flatMap HeaderFormat.Frame.encode ++ tail) :
    ∃ st', passes (serveOnce (allocating fresh)) rs.length st =
        (if EndsWithDisc rs then .out st' else .next st') ∧
      st'.src.Calm ∧ st'.src.data = tail ∧
      st'.snk.out = st.snk.out ++ (answers st.backend rs).flatMap NbdReply.bytes ∧
      st'.backend = applyAll st.backend rs := by
  induction rs generalizing st with
  | nil =>
      refine ⟨st, ?_, hsrc, hdata, by simp [answers], rfl⟩
      rw [if_neg (by simp [EndsWithDisc])]
      rfl
  | cons r rs ih =>
      rw [List.flatMap_cons, List.append_assoc] at hdata
      obtain ⟨st₁, hserved, hdev, hlive, hpasses⟩ : ∃ st₁, Served fresh st r _ st₁ ∧ _ :=
        passes_complete rs.length hb hsrc hsnk hdata
      have hout := hserved.out
      rw [reply_grow _ (hs.moves r List.mem_cons_self), reply_eq_bytes] at hout
      by_cases hD : r.hdr.type = nbdCmdDisc
      · obtain rfl := hs.eq_nil_of_disc hD
        refine ⟨st₁, ?_, hserved.calm_src, hserved.data, ?_, hdev⟩
        · rw [if_pos hD] at hpasses
          rw [if_pos ⟨r, List.mem_cons_self, hD⟩]
          exact hpasses
        · simpa [answers] using hout
      · rw [if_neg hD] at hpasses
        obtain ⟨st', hmany, hcalm, hrest, hout', hdev'⟩ := ih hlive hserved.calm_src
          hserved.calm_snk hs.tail hserved.data
        refine ⟨st', ?_, hcalm, hrest, ?_, ?_⟩
        · have hiff : EndsWithDisc (r :: rs) ↔ EndsWithDisc rs := by
            simp [EndsWithDisc, hD]
          simp only [hiff]
          exact hpasses.trans hmany
        · rw [hout', hout, hdev, List.append_assoc]
          rfl
        · rw [hdev', hdev]
          rfl

/-- The output of a session is answered in the sense of the protocol. -/
theorem Answered.of_answers {b : Backend} {snk : Sink UInt8} {rs : List NbdReq}
    {tail : List UInt8} {st : NbdServer} (hdata : st.src.data = tail)
    (hout : st.snk.out = snk.out ++ (answers b rs).flatMap NbdReply.bytes)
    (hdev : st.backend = applyAll b rs) : Answered b snk rs tail st :=
  ⟨hdata, hdev, _, _, hout, answers_decodes b rs,
    fun _ h => h.unique (answers_decodes b rs), answers_conforms b rs⟩

/-- **`serve_nbd` conforms to the protocol.**  Whatever follows a session on
the stream, one pass for each of its requests takes exactly these requests
off the stream and answers each of them rightly, with replies that can be
read in one way only.  When nothing follows, or after a DISC, this is where
`serve_nbd` returns. -/
theorem serveNbd_conforms {b : Backend} {src : Source UInt8} {snk : Sink UInt8}
    {rs : List NbdReq} {tail : List UInt8} (hb : b.Live) (hsrc : src.Calm) (hsnk : snk.Calm)
    (hs : Session rs) (hdata : src.data = rs.flatMap HeaderFormat.Frame.encode ++ tail) :
    (∃ st', passes (serveOnce (allocating fresh)) rs.length (NbdServer.start b src snk) =
        (if EndsWithDisc rs then .out st' else .next st') ∧ Answered b snk rs tail st') ∧
      (tail = [] ∨ EndsWithDisc rs →
        Answered b snk rs tail (serveNbd (allocating fresh) (NbdServer.start b src snk))) := by
  obtain ⟨st', hmany, hcalm, hrest, hout, hdev⟩ :
      ∃ st', passes (serveOnce (allocating fresh)) rs.length (NbdServer.start b src snk) = _ ∧ _ :=
    passes_session hb hsrc hsnk hs hdata
  have hanswered : Answered b snk rs tail st' := Answered.of_answers hrest hout hdev
  refine ⟨⟨st', hmany, hanswered⟩, ?_⟩
  intro hend
  by_cases hD : EndsWithDisc rs
  · rw [if_pos hD] at hmany
    rw [show serveNbd (allocating fresh) _ = st' from runLoop_passes_out hmany]
    exact hanswered
  · -- the server comes back for another header and finds the end of the stream
    rw [if_neg hD] at hmany
    obtain rfl := hend.resolve_right hD
    obtain ⟨src', hnil, hstop⟩ := serveNbd_short (allocating fresh) hcalm (by rw [hrest]; decide)
    rw [show serveNbd (allocating fresh) _ = serveNbd (allocating fresh) st' from
      runLoop_passes_next hmany, hstop]
    exact Answered.of_answers hnil hout hdev

/-- Write four bytes, read them back, disconnect; all in pieces. -/
theorem serveNbd_conforms_small :
    Answered NbdSmall.backend ⟨[], NbdSmall.sched⟩
      [NbdSmall.writeReq, NbdSmall.readReq, NbdSmall.discReq] []
      (serveNbd (allocating fun _ => ByteMem.zero) (NbdServer.start NbdSmall.backend
        ⟨[NbdSmall.writeReq, NbdSmall.readReq, NbdSmall.discReq].flatMap HeaderFormat.Frame.encode,
          NbdSmall.sched⟩ ⟨[], NbdSmall.sched⟩)) :=
  (serveNbd_conforms NbdSmall.backend_live NbdSmall.sched_quiet NbdSmall.sched_quiet
    ⟨by decide, by decide⟩ (List.append_nil _).symm).2 (.inl rfl)

end DirectStorage
