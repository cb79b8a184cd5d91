/-
DirectStorage/NbdTruncation.lean

What `serve_nbd` leaves behind when its stream is cut off.

The stream is cut into the complete requests before the cut, up to a DISC,
and the rest.  The rest never holds a complete request, so it should never
reach the device.  It does in one case: `read_full` returns 0 both for "all
of nothing" and for the end of the stream before the first byte, and the
check `< 0` after it takes the second for the first.  A WRITE header that is
the very last thing on the stream is therefore carried out with whatever the
receive buffer holds, which is data of an earlier request or memory that was
never written.

Main results: `serveNbd_backend` computes the device for every stream and
every cut, and `truncationSafe_iff` says exactly when it is the one the
complete requests ask for.
-/
import DirectStorage.NbdServe

namespace DirectStorage

/-- A DISC is the last request that is served. -/
def NbdReq.isDisc (r : NbdReq) : Bool := r.hdr.type == nbdCmdDisc

/-- The complete requests at the head of a stream, up to and including the
first DISC, and what is left of the stream. -/
def completeRequests (data : List UInt8) : List NbdReq × List UInt8 :=
  nbdCodec.split NbdReq.isDisc data

/-- **The stream may be cut anywhere**: when `serve_nbd` returns, the device
is what the requests that were received completely make of it. -/
def TruncationSafe (fresh : Nat → ByteMem) (b : Backend) (src : Source UInt8)
    (snk : Sink UInt8) : Prop :=
  (serveNbd (allocating fresh) (NbdServer.start b src snk)).backend =
    applyAll b (completeRequests src.data).1

/-- The stream ends right after the header of a WRITE that has a payload. -/
def LostPayload (rest : List UInt8) : Prop :=
  rest.length = nbdRequestSize ∧ (wireRequest rest).magic = nbdRequestMagic ∧
    (wireRequest rest).type = nbdCmdWrite ∧ (wireRequest rest).len ≠ 0

instance (rest : List UInt8) : Decidable (LostPayload rest) :=
  inferInstanceAs (Decidable (_ ∧ _ ∧ _ ∧ _))

/-- The bytes that stand where the payload should: the start of the receive
buffer, grown to the length of the payload. -/
def NbdCore.stale (fresh : Nat → ByteMem) (c : NbdCore) (len : UInt32) : List UInt8 :=
  (c.grow fresh len.toNat).buf.take len.toNat

/-- The device after a WRITE without payload. -/
def NbdCore.staleWrite (fresh : Nat → ByteMem) (c : NbdCore) (h : NbdHeader) : Backend :=
  if h.InRange c.backend then
    { c.backend with mem := c.backend.mem.store h.from_.toNat (c.stale fresh h.len) }
  else c.backend

/-- The core after a sequence of requests. -/
def NbdCore.serveAll (fresh : Nat → ByteMem) (c : NbdCore) (rs : List NbdReq) : NbdCore :=
  rs.foldl (NbdCore.serve fresh) c

variable {fresh : Nat → ByteMem} {st : NbdServer}

theorem backend_serveAll (c : NbdCore) (rs : List NbdReq) :
    (c.serveAll fresh rs).backend = applyAll c.backend rs := by
  induction rs generalizing c with
  | nil => rfl
  | cons r rs ih => exact ih (c.serve fresh r)

/-! ### Passes over a stream without a complete request -/

/-- Not an NBD header: the server stops. -/
theorem serveNbd_badMagic (env : Realloc) (hsrc : st.src.Calm)
    (hfit : nbdRequestSize ≤ st.src.data.length)
    (hmagic : (wireRequest st.src.data).magic ≠ nbdRequestMagic) :
    (serveNbd env st).backend = st.backend := by
  obtain ⟨src, -, -, hpass⟩ := serveOnce_header env hsrc hfit
  rw [serveRequest, if_pos hmagic] at hpass
  rw [serveNbd_out hpass]

/-- What the loop body does with the header of a WRITE. -/
theorem serveRequest_write {h : NbdHeader} (hmagic : h.magic = nbdRequestMagic)
    (hwrite : h.type = nbdCmdWrite) :
    serveRequest (allocating fresh) st h =
      nbdWrite (st.withCore (st.core.grow fresh h.len.toNat)) h.handle h.from_ h.len 0 := by
  have hread : h.type ≠ nbdCmdRead := by rw [hwrite]; decide
  rw [serveRequest, if_neg (not_not.mpr hmagic), growBuf_allocating]
  simp only [if_neg hread, if_pos hwrite]

/-- Some, but not all of the payload: `read_full` fails. -/
theorem nbdWrite_short (st : NbdServer) (handle : List UInt8) (from_ : UInt64) {len : UInt32}
    (rc : Int) (hsrc : st.src.Calm) (hsome : st.src.data ≠ [])
    (hshort : st.src.data.length < len.toNat) :
    ∃ st', st'.backend = st.backend ∧ nbdWrite st handle from_ len rc = .out st' := by
  obtain ⟨src, -, -, hrd⟩ := readFull_calm len.toNat hsrc
  rw [if_neg (Nat.not_le.mpr hshort), if_neg hsome, List.take_of_length_le hshort.le] at hrd
  have hrecv : (recvPayload st len).1 < 0 ∧ (recvPayload st len).2.backend = st.backend := by
    simp only [recvPayload, hrd]
    split_ifs
    · exact ⟨show -EFAULT < 0 by decide, rfl⟩
    · exact ⟨show -EPIPE < 0 by decide, rfl⟩
  refine ⟨(recvPayload st len).2, hrecv.2, ?_⟩
  simp only [nbdWrite]
  rw [if_pos hrecv.1]

/-- None of the payload: `read_full` returns 0, and the WRITE is carried out
with what the buffer holds. -/
theorem nbdWrite_none (st : NbdServer) {h : NbdHeader} (hb : st.backend.Live)
    (hsnk : st.snk.Calm) (hsrc : st.src.Calm) (hwrite : h.type = nbdCmdWrite) (hlen : h.len ≠ 0)
    (hroom : h.len.toNat ≤ st.buf.length) (hnone : st.src.data = []) :
    ∃ st', st'.src.Calm ∧ st'.src.data = [] ∧
      st'.backend = (if h.InRange st.backend then
        { st.backend with mem := st.backend.mem.store h.from_.toNat (st.buf.take h.len.toNat) }
        else st.backend) ∧
      nbdWrite st h.handle h.from_ h.len 0 = .next st' := by
  have hpos : 0 < h.len.toNat := Nat.pos_of_ne_zero fun h0 => hlen (UInt32.toNat.inj h0)
  have hbuf : st.buf.isEmpty = false := by
    rw [List.isEmpty_eq_false_iff_exists_mem]
    exact List.exists_mem_of_length_pos (hpos.trans_le hroom)
  obtain ⟨src, hcalm, hrest, hrd⟩ := readFull_calm h.len.toNat hsrc
  rw [hnone, List.length_nil, if_neg (Nat.not_le.mpr hpos), if_pos rfl, List.take_nil] at hrd
  rw [hnone, List.drop_nil] at hrest
  have hrecv : recvPayload st h.len = (0, { st with src := src }) := by
    simp [recvPayload, hrd, NbdServer.fillBuf]
  have hwr := ramdiskBackendWrite_rc hwrite hb st.buf.isEmpty st.buf
  have hrc := rc_eq_zero_iff (.inr hwrite) st.backend st.buf.isEmpty
  simp only [hbuf, true_and] at hrc
  rw [hbuf] at hwr
  simp only [hrc] at hwr
  obtain ⟨snk, hcalm', -, hans⟩ := answer_calm
    { st with
      src := src
      backend := if h.InRange st.backend then
        { st.backend with mem := st.backend.mem.store h.from_.toNat (st.buf.take h.len.toNat) }
        else st.backend }
    hsnk h.handle (h.rc st.backend false)
  refine ⟨{ st with
    src := src
    snk := snk
    backend := if h.InRange st.backend then
      { st.backend with mem := st.backend.mem.store h.from_.toNat (st.buf.take h.len.toNat) }
      else st.backend }, hcalm, hrest, rfl, ?_⟩
  simp only [nbdWrite, hrecv, hbuf, if_true, hwr]
  exact hans

/-- A stream that does not start with a complete request: the device stays as
it is, unless the stream is the header of a WRITE and nothing else. -/
theorem serveNbd_incomplete (hb : st.backend.Live) (hsrc : st.src.Calm) (hsnk : st.snk.Calm)
    (h : nbdFormat.parse st.src.data = none) :
    (serveNbd (allocating fresh) st).backend =
      if LostPayload st.src.data then st.core.staleWrite fresh (wireRequest st.src.data)
      else st.backend := by
  rcases Nat.lt_or_ge st.src.data.length nbdRequestSize with hshort | hfit
  · obtain ⟨src, -, hend⟩ := serveNbd_short (allocating fresh) hsrc hshort
    rw [if_neg fun hl => hshort.ne hl.1, hend]
  by_cases hmagic : (wireRequest st.src.data).magic = nbdRequestMagic
  swap
  · rw [if_neg fun hl => hmagic hl.2.1]
    exact serveNbd_badMagic _ hsrc hfit hmagic
  -- only a WRITE can be incomplete with its header there
  have hpay : st.src.data.length < nbdRequestSize + (wireRequest st.src.data).payloadLen := by
    have hhandle : (wireRequest st.src.data).handle.length = 8 :=
      length_field ((show 8 + 8 ≤ nbdRequestSize by decide).trans hfit)
    rcases (nbdFormat.parse_eq_none_iff _).mp h with hcut | hbad
    · exact Nat.lt_of_not_le hcut
    · exact absurd ⟨hmagic, hhandle⟩ hbad
  have hwrite : (wireRequest st.src.data).type = nbdCmdWrite := by
    by_contra hne
    rw [NbdHeader.payloadLen, if_neg hne] at hpay
    omega
  rw [NbdHeader.payloadLen, if_pos hwrite] at hpay
  obtain ⟨src, hcalm, hrest, hpass⟩ := serveOnce_header (allocating fresh) hsrc hfit
  rw [serveRequest_write hmagic hwrite] at hpass
  have hback : (st.core.grow fresh (wireRequest st.src.data).len.toNat).backend = st.backend :=
    backend_grow _ _
  rcases hfit.eq_or_lt with hend | hmore
  · have hnone : src.data = [] := by
      rw [hrest]
      exact List.drop_of_length_le hend.ge
    have hlen : (wireRequest st.src.data).len ≠ 0 := by
      intro h0
      rw [h0, ← hend] at hpay
      exact absurd hpay (by decide)
    obtain ⟨st', hcalm', hnil, hdev, hflow⟩ := nbdWrite_none
      (({ st with src := src } : NbdServer).withCore
        (st.core.grow fresh (wireRequest st.src.data).len.toNat))
      (hback ▸ hb) hsnk hcalm hwrite hlen (length_grow _ _) hnone
    obtain ⟨src', -, hstop⟩ := serveNbd_short (allocating fresh) hcalm' (by rw [hnil]; decide)
    rw [if_pos ⟨hend.symm, hmagic, hwrite, hlen⟩, serveNbd_next (hpass.trans hflow), hstop, hdev]
    simp only [NbdServer.withCore, NbdCore.staleWrite, NbdCore.stale, hback]
    rfl
  · have hsome : src.data ≠ [] := by
      rw [hrest, ne_eq, List.drop_eq_nil_iff]
      omega
    have hshort : src.data.length < (wireRequest st.src.data).len.toNat := by
      rw [hrest, List.length_drop]
      omega
    obtain ⟨st', hdev, hflow⟩ := nbdWrite_short
      (({ st with src := src } : NbdServer).withCore
        (st.core.grow fresh (wireRequest st.src.data).len.toNat))
      (wireRequest st.src.data).handle (wireRequest st.src.data).from_ 0 hcalm hsome hshort
    rw [if_neg fun hl => hmore.ne hl.1.symm, serveNbd_out (hpass.trans hflow), hdev]
    exact hback

/-! ### Whole streams -/

/-- **The device for every stream and every cut.**  The complete requests are
applied in order; a lone WRITE header after them stores stale bytes. -/
theorem serveNbd_backend (hb : st.backend.Live) (hsrc : st.src.Calm) (hsnk : st.snk.Calm) :
    (serveNbd (allocating fresh) st).backend =
      if (∀ r ∈ (completeRequests st.src.data).1, r.isDisc = false) ∧
          LostPayload (completeRequests st.src.data).2 then
        (st.core.serveAll fresh (completeRequests st.src.data).1).staleWrite fresh
          (wireRequest (completeRequests st.src.data).2)
      else applyAll st.backend (completeRequests st.src.data).1 := by
  -- one complete request after the other is taken off the stream
  induction hd : st.src.data using nbdCodec.stream_induction generalizing st with
  | hnone data hparse =>
      subst hd
      rw [completeRequests, nbdCodec.split_of_none _ hparse,
        serveNbd_incomplete hb hsrc hsnk hparse]
      simp [NbdCore.serveAll, applyAll]
  | hframe r tail ih =>
      obtain ⟨st', hserved, honce⟩ : ∃ st', Served fresh st r tail st' ∧ _ :=
        serveOnce_complete hb hsrc hsnk hd
      have hdev : st'.backend = r.apply st.backend := congrArg NbdCore.backend hserved.core
      rw [completeRequests, nbdCodec.split_encode]
      by_cases hD : r.hdr.type = nbdCmdDisc
      · have hdisc : r.isDisc = true := beq_iff_eq.mpr hD
        rw [if_pos hD] at honce
        rw [serveNbd_out honce, hdev, if_pos hdisc,
          if_neg fun hall => by simpa [hdisc] using hall.1 r List.mem_cons_self]
        rfl
      · have hdisc : r.isDisc = false := beq_eq_false_iff_ne.mpr hD
        rw [if_neg hD] at honce
        rw [serveNbd_next honce, ih (hdev ▸ apply_live hb r) hserved.calm_src hserved.calm_snk
          hserved.data, hdev, hserved.core]
        simp only [hdisc, Bool.false_eq_true, if_false, List.forall_mem_cons, true_and]
        rfl

/-- **The exception**: the stream ends right after the header of a WRITE in
range, no DISC came before it, and the bytes the buffer happens to hold are
not the ones that are on the device already. -/
def StaleWrite (fresh : Nat → ByteMem) (b : Backend) (data : List UInt8) : Prop :=
  let (rs, rest) := completeRequests data
  let req := wireRequest rest
  let c := NbdCore.serveAll fresh ⟨b, [], 0⟩ rs
  (∀ r ∈ rs, r.isDisc = false) ∧ LostPayload rest ∧ req.InRange (applyAll b rs) ∧
    (applyAll b rs).mem.load req.from_.toNat req.len.toNat ≠ c.stale fresh req.len

instance (fresh : Nat → ByteMem) (b : Backend) (data : List UInt8) :
    Decidable (StaleWrite fresh b data) :=
  inferInstanceAs (Decidable (_ ∧ _ ∧ _ ∧ _))

theorem length_stale (c : NbdCore) (len : UInt32) :
    (c.stale fresh len).length = len.toNat := by
  rw [NbdCore.stale, List.length_take]
  exact Nat.min_eq_left (length_grow c len.toNat)

/-- A store leaves the device as it is only if the bytes were there. -/
theorem staleWrite_eq_self_iff (c : NbdCore) (h : NbdHeader) :
    c.staleWrite fresh h = c.backend ↔
      (h.InRange c.backend →
        c.backend.mem.load h.from_.toNat h.len.toNat = c.stale fresh h.len) := by
  rw [NbdCore.staleWrite]
  split_ifs with hr
  · have hself := ByteMem.store_eq_self_iff c.backend.mem h.from_.toNat (c.stale fresh h.len)
    rw [length_stale] at hself
    rw [← hself]
    constructor
    · intro heq _
      exact congrArg Backend.mem heq
    · intro hmem
      rw [hmem hr]
  · exact ⟨fun _ hin => absurd hin hr, fun _ => rfl⟩

/-- **When a cut is safe.**  For every stream, every cut and every chunking,
with allocations and socket writes succeeding, the device is the one that the
complete requests make, unless a lone WRITE header ends the stream and stale
bytes are stored for it. -/
theorem truncationSafe_iff {b : Backend} {src : Source UInt8} {snk : Sink UInt8}
    (hb : b.Live) (hsrc : src.Calm) (hsnk : snk.Calm) :
    TruncationSafe fresh b src snk ↔ ¬StaleWrite fresh b src.data := by
  have hdev : (serveNbd (allocating fresh) (NbdServer.start b src snk)).backend = _ :=
    serveNbd_backend hb hsrc hsnk
  have hcore : (NbdServer.start b src snk).core = ⟨b, [], 0⟩ := rfl
  have hstart : (NbdServer.start b src snk).src.data = src.data := rfl
  rw [TruncationSafe, hdev, hcore, hstart, StaleWrite]
  generalize completeRequests src.data = cut
  obtain ⟨rs, rest⟩ := cut
  have hserved : (NbdCore.serveAll fresh ⟨b, [], 0⟩ rs).backend = applyAll b rs :=
    backend_serveAll ⟨b, [], 0⟩ rs
  dsimp only at hserved ⊢
  by_cases hlost : (∀ r ∈ rs, r.isDisc = false) ∧ LostPayload rest
  · rw [if_pos hlost]
    show NbdCore.staleWrite _ _ _ = applyAll b rs ↔ _
    rw [← hserved, staleWrite_eq_self_iff]
    simp only [hlost.2, true_and, not_and, not_not]
    exact ⟨fun hself _ => hself, fun hself => hself hlost.1⟩
  · rw [if_neg hlost]
    refine ⟨fun _ hs => hlost ⟨hs.1, hs.2.1⟩, fun _ => rfl⟩

/-- A WRITE whose payload is cut after two of its four bytes, delivered in
pieces, does no harm. -/
theorem truncationSafe_cut_payload :
    TruncationSafe (fun _ => ByteMem.zero) NbdSmall.backend
      ⟨NbdSmall.writeReq.encode ++ (NbdSmall.header nbdCmdWrite 8 4).bytes ++ [5, 6],
        NbdSmall.sched⟩ ⟨[], NbdSmall.sched⟩ :=
  (truncationSafe_iff NbdSmall.backend_live NbdSmall.sched_quiet NbdSmall.sched_quiet).mpr
    (by decide +kernel)

/-- **A WRITE without its payload is carried out**: after a WRITE of four bytes
at offset 0, the lone header of a WRITE of four bytes at offset 8 stores the
first request's data once more. -/
theorem not_truncationSafe_lone_header :
    ¬TruncationSafe (fun _ => ByteMem.zero) NbdSmall.backend
      ⟨NbdSmall.writeReq.encode ++ (NbdSmall.header nbdCmdWrite 8 4).bytes, []⟩ ⟨[], []⟩ := by
  intro hsafe
  have hbyte := congrArg (fun b => b.mem 8) hsafe
  have hstored : (serveNbd (allocating fun _ => ByteMem.zero) (NbdServer.start NbdSmall.backend
      ⟨NbdSmall.writeReq.encode ++ (NbdSmall.header nbdCmdWrite 8 4).bytes, []⟩
      ⟨[], []⟩)).backend.mem 8 = 1 := by decide +kernel
  have hasked : (applyAll NbdSmall.backend (completeRequests (NbdSmall.writeReq.encode ++
      (NbdSmall.header nbdCmdWrite 8 4).bytes)).1).mem 8 = 0 := by decide +kernel
  dsimp only at hbyte
  rw [hstored, hasked] at hbyte
  exact absurd hbyte (by decide)

end DirectStorage
