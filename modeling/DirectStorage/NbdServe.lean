/-
DirectStorage/NbdServe.lean

One pass of `serve_nbd` over a complete request.

The server is described by what outlives a pass: the device, the receive
buffer and how often it was reallocated (`NbdCore`).  `NbdCore.serve` says
what a request does to these three, and `NbdReq.reply` which bytes are sent
back; neither mentions streams or chunks.

Main result: `serveOnce_complete`.  With allocations and socket writes
succeeding, and for every chunking, a pass over a stream that starts with a
complete request takes exactly this request off the stream, sends exactly its
reply, and changes the core as `NbdCore.serve` says.  The pass goes on unless
the request is a DISC.
-/
import DirectStorage.NbdProtocol

namespace DirectStorage

/-! ### The core of the server -/

/-- The allocator whose `k`-th block holds `fresh k` where it is new. -/
def allocating (fresh : Nat → ByteMem) : Realloc := fun k => some (fresh k)

/-- What outlives a pass through the loop. -/
structure NbdCore where
  backend : Backend
  buf : List UInt8
  reallocs : Nat

def NbdServer.core (st : NbdServer) : NbdCore := ⟨st.backend, st.buf, st.reallocs⟩

/-- The buffer once it has room for `len` bytes. -/
def NbdCore.grow (fresh : Nat → ByteMem) (c : NbdCore) (len : Nat) : NbdCore :=
  if c.buf.length < len then
    { c with buf := c.buf ++ (fresh c.reallocs).load c.buf.length (len - c.buf.length),
             reallocs := c.reallocs + 1 }
  else c

/-- The bytes that a request brings into the buffer. -/
def NbdReq.received (b : Backend) (r : NbdReq) : List UInt8 :=
  if r.hdr.type = nbdCmdRead ∧ r.hdr.InRange b then
    b.mem.load r.hdr.from_.toNat r.hdr.len.toNat
  else r.payload

/-- `bytes` over the start of `buf`. -/
def putFront (buf bytes : List UInt8) : List UInt8 := bytes ++ buf.drop bytes.length

/-- What a request does to the core. -/
def NbdCore.serve (fresh : Nat → ByteMem) (c : NbdCore) (r : NbdReq) : NbdCore :=
  let grown := c.grow fresh r.hdr.len.toNat
  { grown with
    backend := r.apply c.backend
    buf := putFront grown.buf (r.received c.backend) }

/-- The `rc` a request is answered with. -/
def NbdHeader.rc (h : NbdHeader) (b : Backend) (bufNull : Bool) : Int :=
  if h.type = nbdCmdRead ∨ h.type = nbdCmdWrite then
    if bufNull then -EINVAL else if h.InRange b then 0 else -ERANGE
  else if h.type = nbdCmdTrim then if h.InRange b then 0 else -ERANGE
  else if h.type = nbdCmdFlush ∨ h.type = nbdCmdDisc then 0
  else - EIO

/-- The bytes sent back: the reply, and after it the data of a READ that
succeeded. -/
def NbdHeader.reply (h : NbdHeader) (b : Backend) (bufNull : Bool) : List UInt8 :=
  replyBytes h.handle (h.rc b bufNull) ++
    if h.type = nbdCmdRead ∧ h.rc b bufNull = 0 then b.mem.load h.from_.toNat h.len.toNat
    else []

variable {fresh : Nat → ByteMem} {st : NbdServer}

theorem length_grow (c : NbdCore) (len : Nat) : len ≤ (c.grow fresh len).buf.length := by
  unfold NbdCore.grow
  split_ifs with h
  · simp only [List.length_append, ByteMem.length_load]
    omega
  · omega

@[simp] theorem backend_grow (c : NbdCore) (len : Nat) :
    (c.grow fresh len).backend = c.backend := by
  unfold NbdCore.grow
  split_ifs <;> rfl

/-! ### The pieces of a pass -/

/-- The server with another core. -/
def NbdServer.withCore (st : NbdServer) (c : NbdCore) : NbdServer :=
  { st with backend := c.backend, buf := c.buf, reallocs := c.reallocs }

theorem growBuf_allocating (st : NbdServer) (len : UInt32) :
    growBuf (allocating fresh) st len = (0, st.withCore (st.core.grow fresh len.toNat)) := by
  unfold growBuf NbdCore.grow
  by_cases h : st.buf.length < len.toNat
  · rw [if_pos h, if_pos (show st.core.buf.length < len.toNat from h)]
    rfl
  · rw [if_neg h, if_neg (show ¬st.core.buf.length < len.toNat from h)]
    rfl

theorem fillBuf_eq (st : NbdServer) {bytes : List UInt8} (h : bytes.length ≤ st.buf.length) :
    st.fillBuf bytes = { st with buf := putFront st.buf bytes } := by
  have hlen : (bytes ++ st.buf.drop bytes.length).length ≤ st.buf.length := by
    simp only [List.length_append, List.length_drop]
    omega
  rw [NbdServer.fillBuf, List.take_of_length_le hlen]
  rfl

theorem take_putFront (buf bytes : List UInt8) :
    (putFront buf bytes).take bytes.length = bytes := by
  simp [putFront]

theorem length_putFront {buf bytes : List UInt8} (h : bytes.length ≤ buf.length) :
    (putFront buf bytes).length = buf.length := by
  simp only [putFront, List.length_append, List.length_drop]
  omega

theorem isEmpty_putFront {buf bytes : List UInt8} (h : bytes.length ≤ buf.length) :
    (putFront buf bytes).isEmpty = buf.isEmpty := by
  rw [Bool.eq_iff_iff, List.isEmpty_iff_length_eq_zero, List.isEmpty_iff_length_eq_zero,
    length_putFront h]

theorem answer_calm (st : NbdServer) (h : st.snk.Calm) (handle : List UInt8) (rc : Int) :
    ∃ snk : Sink UInt8, snk.Calm ∧ snk.out = st.snk.out ++ replyBytes handle rc ∧
      answer st handle rc = .next { st with snk := snk } := by
  obtain ⟨snk, hcalm, hout, hw⟩ := writeFull_calm (replyBytes handle rc) h
  refine ⟨snk, hcalm, hout, ?_⟩
  simp only [answer, sendReply, hw]
  rw [if_neg (by omega)]

/-! ### The branches that move data -/

/-- A READ or WRITE succeeds exactly with a buffer and in range. -/
theorem rc_eq_zero_iff {h : NbdHeader} (hrw : h.type = nbdCmdRead ∨ h.type = nbdCmdWrite)
    (b : Backend) (bufNull : Bool) :
    h.rc b bufNull = 0 ↔ bufNull = false ∧ h.InRange b := by
  rw [NbdHeader.rc, if_pos hrw]
  cases bufNull <;> by_cases hr : h.InRange b <;> simp [hr]

theorem ramdiskBackendRead_rc {h : NbdHeader} (hread : h.type = nbdCmdRead) {b : Backend}
    (hb : b.Live) (bufNull : Bool) :
    ramdiskBackendRead b h.from_ bufNull h.len =
      (h.rc b bufNull,
        if h.rc b bufNull = 0 then b.mem.load h.from_.toNat h.len.toNat else []) := by
  rw [NbdHeader.rc, if_pos (.inl hread)]
  cases bufNull with
  | true => simp [ramdiskBackendRead]
  | false =>
      rw [read_live hb]
      by_cases hr : h.from_.toNat + h.len.toNat ≤ b.size.toNat <;> simp [NbdHeader.InRange, hr]

theorem ramdiskBackendWrite_rc {h : NbdHeader} (hwrite : h.type = nbdCmdWrite) {b : Backend}
    (hb : b.Live) (bufNull : Bool) (data : List UInt8) :
    ramdiskBackendWrite b h.from_ bufNull data h.len =
      (h.rc b bufNull,
        if h.rc b bufNull = 0 then
          { b with mem := b.mem.store h.from_.toNat (data.take h.len.toNat) } else b) := by
  rw [NbdHeader.rc, if_pos (.inr hwrite)]
  cases bufNull with
  | true => simp [ramdiskBackendWrite]
  | false =>
      rw [write_live hb]
      by_cases hr : h.from_.toNat + h.len.toNat ≤ b.size.toNat <;> simp [NbdHeader.InRange, hr]

theorem ramdiskBackendZero_rc {r : NbdReq} (htrim : r.hdr.type = nbdCmdTrim) {b : Backend}
    (hb : b.Live) :
    ramdiskBackendZero b r.hdr.from_ r.hdr.len = (r.hdr.rc b false, r.apply b) := by
  rw [zero_live hb]
  have hne : nbdCmdTrim ≠ nbdCmdWrite := by decide
  by_cases hr : r.hdr.from_.toNat + r.hdr.len.toNat ≤ b.size.toNat <;>
    simp [NbdHeader.rc, NbdReq.apply, NbdHeader.InRange, htrim, hne, hr]

@[simp] theorem putFront_nil (buf : List UInt8) : putFront buf [] = buf := rfl

section Branches

variable (st) (hb : st.backend.Live) (hsnk : st.snk.Calm) {h : NbdHeader}
  (hroom : h.len.toNat ≤ st.buf.length)
include hb hsnk hroom

/-- READ, once the buffer has room. -/
theorem nbdRead_calm (hread : h.type = nbdCmdRead) :
    ∃ snk : Sink UInt8, snk.Calm ∧ snk.out = st.snk.out ++ h.reply st.backend st.buf.isEmpty ∧
      nbdRead st h.handle h.from_ h.len 0 = .next { st with
        snk := snk
        buf := putFront st.buf (if h.InRange st.backend then
          st.backend.mem.load h.from_.toNat h.len.toNat else []) } := by
  have hiff := rc_eq_zero_iff (.inl hread) st.backend st.buf.isEmpty
  unfold nbdRead NbdHeader.reply
  rw [if_pos rfl, ramdiskBackendRead_rc hread hb]
  by_cases hrc : h.rc st.backend st.buf.isEmpty = 0
  · have hlen : (st.backend.mem.load h.from_.toNat h.len.toNat).length ≤ st.buf.length := by
      simpa using hroom
    have hfill := fillBuf_eq st hlen
    obtain ⟨snk₁, hcalm₁, hout₁, hans⟩ := answer_calm
      (st.fillBuf (st.backend.mem.load h.from_.toNat h.len.toNat)) hsnk h.handle 0
    obtain ⟨snk₂, hcalm₂, hout₂, hw⟩ := writeFull_calm
      (st.backend.mem.load h.from_.toNat h.len.toNat) hcalm₁
    refine ⟨snk₂, hcalm₂, ?_, ?_⟩
    · rw [hout₂, hout₁, if_pos ⟨hread, hrc⟩, hrc, List.append_assoc]
      rfl
    · have htake := take_putFront st.buf
        (st.backend.mem.load h.from_.toNat h.len.toNat)
      rw [ByteMem.length_load] at htake
      rw [hfill] at hans
      rw [if_pos (hiff.mp hrc).2]
      simp only [hrc, if_true, hfill, hans, htake, hw]
      rw [if_neg (by omega)]
  · -- nothing is copied: not in range, or a read of no bytes into `NULL`
    have hnone : (if h.InRange st.backend then
        st.backend.mem.load h.from_.toNat h.len.toNat else []) = [] := by
      split_ifs with hr
      · have hnull : st.buf.isEmpty = true := by
          by_contra hne
          exact hrc (hiff.mpr ⟨by simpa using hne, hr⟩)
        have hzero : h.len.toNat = 0 := by
          rw [List.isEmpty_iff.mp hnull] at hroom
          exact Nat.le_zero.mp hroom
        rw [hzero, ByteMem.load_zero]
      · rfl
    obtain ⟨snk, hcalm, hout, hans⟩ := answer_calm st hsnk h.handle (h.rc st.backend st.buf.isEmpty)
    refine ⟨snk, hcalm, ?_, ?_⟩
    · rw [hout, if_neg (fun hc => hrc hc.2), List.append_nil]
    · have hfill : st.fillBuf [] = st := by simp [NbdServer.fillBuf]
      simp only [hrc, if_false, hfill, hans, hnone, putFront_nil]

/-- WRITE, once the buffer has room, with its payload at the head of the
stream. -/
theorem nbdWrite_calm {payload tail : List UInt8} (hwrite : h.type = nbdCmdWrite)
    (hsrc : st.src.Calm) (hdata : st.src.data = payload ++ tail)
    (hlen : payload.length = h.len.toNat) :
    ∃ (src : Source UInt8) (snk : Sink UInt8), src.Calm ∧ src.data = tail ∧ snk.Calm ∧
      snk.out = st.snk.out ++ h.reply st.backend st.buf.isEmpty ∧
      nbdWrite st h.handle h.from_ h.len 0 = .next { st with
        src := src, snk := snk, buf := putFront st.buf payload
        backend := if h.InRange st.backend then
          { st.backend with mem := st.backend.mem.store h.from_.toNat payload }
          else st.backend } := by
  have hiff := rc_eq_zero_iff (.inr hwrite) st.backend st.buf.isEmpty
  obtain ⟨src, hcalm, hrest, hrd⟩ := readFull_calm h.len.toNat hsrc
  have hfit : h.len.toNat ≤ st.src.data.length := by
    rw [hdata, List.length_append]
    omega
  rw [if_pos hfit, hdata, List.take_left' hlen] at hrd
  rw [hdata, List.drop_left' hlen] at hrest
  have hroom' : payload.length ≤ st.buf.length := hlen.trans_le hroom
  -- the payload fits, so it does not matter whether the buffer is `NULL`
  have hnull : ¬(st.buf = [] ∧ payload ≠ []) := by
    rintro ⟨hnil, hne⟩
    rw [hnil, List.length_nil, Nat.le_zero, List.length_eq_zero_iff] at hroom'
    exact hne hroom'
  have hrecv : recvPayload st h.len = ((h.len.toNat : Int),
      { st with src := src, buf := putFront st.buf payload }) := by
    have hfill := fillBuf_eq { st with src := src } hroom'
    simp only [recvPayload, hrd, if_neg hnull, hfill]
    simp [Nat.not_lt.mpr hroom']
  have hwr := ramdiskBackendWrite_rc hwrite hb st.buf.isEmpty (putFront st.buf payload)
  rw [← hlen, take_putFront] at hwr
  -- storing an empty payload is storing nothing, so `NULL` does not matter here either
  have hstored : (if h.rc st.backend st.buf.isEmpty = 0 then
        { st.backend with mem := st.backend.mem.store h.from_.toNat payload } else st.backend) =
      if h.InRange st.backend then
        { st.backend with mem := st.backend.mem.store h.from_.toNat payload } else st.backend := by
    rcases e : st.buf with - | ⟨x, xs⟩
    · rw [e, List.length_nil, Nat.le_zero, List.length_eq_zero_iff] at hroom'
      simp [hroom']
    · rw [e, List.isEmpty_cons] at hiff
      simp [hiff]
  rw [hstored] at hwr
  obtain ⟨snk, hcalm', hout, hans⟩ := answer_calm
    { st with
      src := src
      buf := putFront st.buf payload
      backend := if h.InRange st.backend then
          { st.backend with mem := st.backend.mem.store h.from_.toNat payload } else st.backend }
    hsnk h.handle (h.rc st.backend st.buf.isEmpty)
  refine ⟨src, snk, hcalm, hrest, hcalm', ?_, ?_⟩
  · have hnot : ¬(h.type = nbdCmdRead ∧ h.rc st.backend st.buf.isEmpty = 0) := by
      rintro ⟨hread, -⟩
      rw [hwrite] at hread
      exact absurd hread (by decide)
    rw [hout, NbdHeader.reply, if_neg hnot, List.append_nil]
  · simp only [nbdWrite, hrecv, isEmpty_putFront hroom', if_true, hwr]
    rw [if_neg (by omega)]
    exact hans

end Branches

/-! ### A whole pass -/

/-- What a pass over the complete request `r` makes of the server. -/
structure Served (fresh : Nat → ByteMem) (st : NbdServer) (r : NbdReq) (tail : List UInt8)
    (st' : NbdServer) : Prop where
  calm_src : st'.src.Calm
  data : st'.src.data = tail
  calm_snk : st'.snk.Calm
  out : st'.snk.out = st.snk.out ++
    r.hdr.reply st.backend (st.core.grow fresh r.hdr.len.toNat).buf.isEmpty
  core : st'.core = st.core.serve fresh r
  overflow : st'.overflow = st.overflow

theorem NbdReq.payload_eq_nil {r : NbdReq} (h : r.hdr.type ≠ nbdCmdWrite) : r.payload = [] := by
  apply List.eq_nil_of_length_eq_zero
  rw [r.length_payload, NbdHeader.payloadLen, if_neg h]

theorem NbdReq.apply_eq_self {r : NbdReq} (hw : r.hdr.type ≠ nbdCmdWrite)
    (ht : r.hdr.type ≠ nbdCmdTrim) (b : Backend) : r.apply b = b := by
  simp [NbdReq.apply, hw, ht]

theorem NbdReq.apply_write {r : NbdReq} (hw : r.hdr.type = nbdCmdWrite) (b : Backend) :
    r.apply b = if r.hdr.InRange b then
      { b with mem := b.mem.store r.hdr.from_.toNat r.payload } else b := by
  have hne : nbdCmdWrite ≠ nbdCmdTrim := by decide
  simp [NbdReq.apply, hw, hne]

theorem NbdReq.received_eq_nil {r : NbdReq} (hr : r.hdr.type ≠ nbdCmdRead)
    (hw : r.hdr.type ≠ nbdCmdWrite) (b : Backend) : r.received b = [] := by
  simp [NbdReq.received, hr, NbdReq.payload_eq_nil hw]

/-- The core after a request, in terms of the grown buffer. -/
theorem NbdCore.serve_eq (c : NbdCore) (r : NbdReq) :
    c.serve fresh r = ⟨r.apply c.backend,
      putFront (c.grow fresh r.hdr.len.toNat).buf (r.received c.backend),
      (c.grow fresh r.hdr.len.toNat).reallocs⟩ := rfl

section Pass

/-! The header of `r` has been taken off the stream and the buffer has room. -/

variable {r : NbdReq} {tail : List UInt8} {src : Source UInt8} {g : NbdCore}
  (hb : st.backend.Live) (hsnk : st.snk.Calm) (hsrc : src.Calm)
  (hrest : src.data = r.payload ++ tail)
  (hg : st.core.grow fresh r.hdr.len.toNat = g)
include hb hsnk hsrc hrest hg

theorem serve_read (hR : r.hdr.type = nbdCmdRead) :
    ∃ st', Served fresh st r tail st' ∧
      nbdRead (({ st with src := src } : NbdServer).withCore g) r.hdr.handle r.hdr.from_
        r.hdr.len 0 = .next st' := by
  have hback : g.backend = st.backend := by rw [← hg]; exact backend_grow _ _
  have hroom : r.hdr.len.toNat ≤ g.buf.length := by rw [← hg]; exact length_grow _ _
  have hW : r.hdr.type ≠ nbdCmdWrite := by rw [hR]; decide
  have hT : r.hdr.type ≠ nbdCmdTrim := by rw [hR]; decide
  have hrecv : r.received st.backend = if r.hdr.InRange st.backend then
      st.backend.mem.load r.hdr.from_.toNat r.hdr.len.toNat else [] := by
    simp [NbdReq.received, hR, NbdReq.payload_eq_nil hW]
  obtain ⟨snk, hcalm, hout, hflow⟩ := nbdRead_calm
    (({ st with src := src } : NbdServer).withCore g) (hback ▸ hb) hsnk hroom hR
  refine ⟨_, ?_, hflow⟩
  refine ⟨hsrc, ?_, hcalm, ?_, ?_, rfl⟩
  · rw [NbdReq.payload_eq_nil hW] at hrest
    exact hrest
  · rw [hg, ← hback]
    exact hout
  · rw [NbdCore.serve_eq, hg]
    show _ = NbdCore.mk (r.apply st.backend) (putFront g.buf (r.received st.backend)) g.reallocs
    rw [hrecv, NbdReq.apply_eq_self hW hT, ← hback]
    rfl

theorem serve_write (hW : r.hdr.type = nbdCmdWrite) :
    ∃ st', Served fresh st r tail st' ∧
      nbdWrite (({ st with src := src } : NbdServer).withCore g) r.hdr.handle r.hdr.from_
        r.hdr.len 0 = .next st' := by
  have hback : g.backend = st.backend := by rw [← hg]; exact backend_grow _ _
  have hroom : r.hdr.len.toNat ≤ g.buf.length := by rw [← hg]; exact length_grow _ _
  have hR : r.hdr.type ≠ nbdCmdRead := by rw [hW]; decide
  have hpay : r.payload.length = r.hdr.len.toNat := by
    rw [r.length_payload, NbdHeader.payloadLen, if_pos hW]
  have hrecv : r.received st.backend = r.payload := by simp [NbdReq.received, hR]
  obtain ⟨src', snk, hsrc', hdata', hcalm, hout, hflow⟩ := nbdWrite_calm
    (({ st with src := src } : NbdServer).withCore g) (hback ▸ hb) hsnk hroom hW hsrc hrest
    hpay
  refine ⟨_, ?_, hflow⟩
  refine ⟨hsrc', hdata', hcalm, ?_, ?_, rfl⟩
  · rw [hg, ← hback]
    exact hout
  · rw [NbdCore.serve_eq, hg]
    show _ = NbdCore.mk (r.apply st.backend) (putFront g.buf (r.received st.backend)) g.reallocs
    rw [hrecv, NbdReq.apply_write hW, ← hback]
    rfl

omit hb hsnk in
/-- The branches that only change the device and reply. -/
theorem served_of_reply {snk : Sink UInt8} (hcalm : snk.Calm) (hR : r.hdr.type ≠ nbdCmdRead)
    (hW : r.hdr.type ≠ nbdCmdWrite)
    (hout : snk.out = st.snk.out ++ replyBytes r.hdr.handle (r.hdr.rc st.backend false)) :
    Served fresh st r tail { ({ st with src := src, snk := snk } : NbdServer).withCore g with
      backend := r.apply st.backend } := by
  refine ⟨hsrc, ?_, hcalm, ?_, ?_, rfl⟩
  · rw [NbdReq.payload_eq_nil hW] at hrest
    exact hrest
  · -- without a copy into the buffer the answer does not look at it
    have hrc : ∀ bufNull, r.hdr.rc st.backend bufNull = r.hdr.rc st.backend false := by
      intro bufNull
      simp [NbdHeader.rc, hR, hW]
    rw [NbdHeader.reply, if_neg (fun h => hR h.1), List.append_nil, hrc]
    exact hout
  · rw [NbdCore.serve_eq, hg]
    show _ = NbdCore.mk (r.apply st.backend) (putFront g.buf (r.received st.backend)) g.reallocs
    rw [NbdReq.received_eq_nil hR hW, putFront_nil]
    rfl

omit hb in
theorem serve_answer (hR : r.hdr.type ≠ nbdCmdRead) (hW : r.hdr.type ≠ nbdCmdWrite)
    {b : Backend} {rc : Int} (hdev : b = r.apply st.backend)
    (hrc : rc = r.hdr.rc st.backend false) :
    ∃ st', Served fresh st r tail st' ∧
      answer { ({ st with src := src } : NbdServer).withCore g with backend := b }
        r.hdr.handle rc = .next st' := by
  subst hdev hrc
  obtain ⟨snk, hcalm, hout, hans⟩ := answer_calm
    { ({ st with src := src } : NbdServer).withCore g with backend := r.apply st.backend }
    hsnk r.hdr.handle (r.hdr.rc st.backend false)
  have hserved : Served fresh st r tail _ := served_of_reply hsrc hrest hg hcalm hR hW hout
  exact ⟨_, hserved, hans⟩

omit hb in
theorem serve_disc (hD : r.hdr.type = nbdCmdDisc) :
    ∃ st', Served fresh st r tail st' ∧
      nbdDisc (({ st with src := src } : NbdServer).withCore g) r.hdr.handle = .out st' := by
  have hR : r.hdr.type ≠ nbdCmdRead := by rw [hD]; decide
  have hW : r.hdr.type ≠ nbdCmdWrite := by rw [hD]; decide
  have hT : r.hdr.type ≠ nbdCmdTrim := by rw [hD]; decide
  have hback : g.backend = st.backend := by rw [← hg]; exact backend_grow _ _
  have hrc : r.hdr.rc st.backend false = 0 := by
    rw [NbdHeader.rc, if_neg (not_or.mpr ⟨hR, hW⟩), if_neg hT, if_pos (.inr hD)]
  obtain ⟨snk, hcalm, hout, hsend⟩ := writeFull_calm (replyBytes r.hdr.handle 0) hsnk
  rw [← hrc] at hout
  have hserved : Served fresh st r tail _ := served_of_reply hsrc hrest hg hcalm hR hW hout
  rw [NbdReq.apply_eq_self hW hT, ← hback] at hserved
  refine ⟨_, hserved, ?_⟩
  show Flow.out { ({ st with src := src } : NbdServer).withCore g with
    snk := (writeFull st.snk (replyBytes r.hdr.handle 0)).2 } = _
  rw [hsend]
  rfl

end Pass

/-- The loop body on a complete request. -/
theorem serveRequest_complete {r : NbdReq} {tail : List UInt8} {src : Source UInt8}
    (hb : st.backend.Live) (hsnk : st.snk.Calm) (hsrc : src.Calm)
    (hrest : src.data = r.payload ++ tail) :
    ∃ st', Served fresh st r tail st' ∧
      serveRequest (allocating fresh) { st with src := src } r.hdr =
        if r.hdr.type = nbdCmdDisc then .out st' else .next st' := by
  have hback : (st.core.grow fresh r.hdr.len.toNat).backend = st.backend := backend_grow _ _
  rw [serveRequest, if_neg (not_not.mpr r.magic_eq), growBuf_allocating]
  dsimp only
  by_cases hR : r.hdr.type = nbdCmdRead
  · have hD : r.hdr.type ≠ nbdCmdDisc := by rw [hR]; decide
    simp only [if_pos hR, if_neg hD]
    exact serve_read hb hsnk hsrc hrest rfl hR
  by_cases hW : r.hdr.type = nbdCmdWrite
  · have hD : r.hdr.type ≠ nbdCmdDisc := by rw [hW]; decide
    simp only [if_neg hR, if_pos hW, if_neg hD]
    exact serve_write hb hsnk hsrc hrest rfl hW
  by_cases hF : r.hdr.type = nbdCmdFlush
  · have hT : r.hdr.type ≠ nbdCmdTrim := by rw [hF]; decide
    have hD : r.hdr.type ≠ nbdCmdDisc := by rw [hF]; decide
    simp only [if_neg hR, if_neg hW, if_pos hF, if_neg hD]
    apply serve_answer hsnk hsrc hrest rfl hR hW
    · rw [NbdReq.apply_eq_self hW hT]
      exact hback
    · rw [NbdHeader.rc, if_neg (not_or.mpr ⟨hR, hW⟩), if_neg hT, if_pos (.inl hF)]
  by_cases hT : r.hdr.type = nbdCmdTrim
  · have hD : r.hdr.type ≠ nbdCmdDisc := by rw [hT]; decide
    have hzero : ramdiskBackendZero (st.core.grow fresh r.hdr.len.toNat).backend r.hdr.from_
        r.hdr.len = (r.hdr.rc st.backend false, r.apply st.backend) := by
      rw [hback, ramdiskBackendZero_rc hT hb]
    simp only [if_neg hR, if_neg hW, if_neg hF, if_pos hT, if_neg hD, nbdTrim]
    apply serve_answer hsnk hsrc hrest rfl hR hW
    · exact congrArg Prod.snd hzero
    · exact congrArg Prod.fst hzero
  by_cases hD : r.hdr.type = nbdCmdDisc
  · simp only [if_neg hR, if_neg hW, if_neg hF, if_neg hT, if_pos hD]
    exact serve_disc hsnk hsrc hrest rfl hD
  · simp only [if_neg hR, if_neg hW, if_neg hF, if_neg hT, if_neg hD]
    apply serve_answer hsnk hsrc hrest rfl hR hW
    · rw [NbdReq.apply_eq_self hW hT]
      exact hback
    · rw [NbdHeader.rc, if_neg (not_or.mpr ⟨hR, hW⟩), if_neg hT, if_neg (not_or.mpr ⟨hF, hD⟩)]

/-- Less than a header: the server stops, and the stream is used up. -/
theorem serveNbd_short (env : Realloc) (hsrc : st.src.Calm)
    (h : st.src.data.length < nbdRequestSize) :
    ∃ src : Source UInt8, src.data = [] ∧ serveNbd env st = { st with src := src } := by
  obtain ⟨src, -, hrest, hrd⟩ := readFull_calm nbdRequestSize hsrc
  rw [List.drop_of_length_le h.le] at hrest
  rw [if_neg (Nat.not_le.mpr h)] at hrd
  refine ⟨src, hrest, serveNbd_out ?_⟩
  by_cases hnil : st.src.data = []
  · simp [serveOnce, hrd, hnil]
  · simp [serveOnce, hrd, hnil]

/-- A pass over a stream that still has a whole header. -/
theorem serveOnce_header (env : Realloc) (hsrc : st.src.Calm)
    (hfit : nbdRequestSize ≤ st.src.data.length) :
    ∃ src : Source UInt8, src.Calm ∧ src.data = st.src.data.drop nbdRequestSize ∧
      serveOnce env st = serveRequest env { st with src := src } (wireRequest st.src.data) := by
  obtain ⟨src, hcalm, hrest, hrd⟩ := readFull_calm nbdRequestSize hsrc
  refine ⟨src, hcalm, hrest, ?_⟩
  have hhandle : (wireRequest st.src.data).handle.length = 8 :=
    length_field ((show 8 + 8 ≤ nbdRequestSize by decide).trans hfit)
  have hhdr : (loadRequest (st.src.data.take nbdRequestSize)).ntoh = wireRequest st.src.data := by
    rw [← bytes_wireRequest hfit, loadRequest_ntoh (length_bytes hhandle).ge]
    simpa using wireRequest_bytes hhandle []
  rw [if_pos hfit] at hrd
  simp only [serveOnce, hrd, hhdr]
  rfl

/-- **One complete request**: a pass takes it off the stream, answers it and
changes the core as it says, in whatever chunks the bytes arrive. -/
theorem serveOnce_complete {r : NbdReq} {tail : List UInt8} (hb : st.backend.Live)
    (hsrc : st.src.Calm) (hsnk : st.snk.Calm) (hdata : st.src.data = r.encode ++ tail) :
    ∃ st', Served fresh st r tail st' ∧
      serveOnce (allocating fresh) st =
        if r.hdr.type = nbdCmdDisc then .out st' else .next st' := by
  have hfit : nbdRequestSize ≤ st.src.data.length := by
    rw [hdata, List.length_append, HeaderFormat.length_encode]
    exact Nat.le_add_right_of_le (Nat.le_add_right _ _)
  obtain ⟨src, hcalm, hrest, hpass⟩ := serveOnce_header (allocating fresh) hsrc hfit
  have hload : wireRequest st.src.data = r.hdr := by
    rw [hdata]
    exact HeaderFormat.load_encode r tail
  have htail : src.data = r.payload ++ tail := by
    rw [hrest, hdata]
    exact HeaderFormat.drop_encode r tail
  rw [hpass, hload]
  exact serveRequest_complete hb hsnk hcalm htail

/-- A complete request, and the passes after it. -/
theorem passes_complete {r : NbdReq} {tail : List UInt8} (n : Nat) (hb : st.backend.Live)
    (hsrc : st.src.Calm) (hsnk : st.snk.Calm) (hdata : st.src.data = r.encode ++ tail) :
    ∃ st', Served fresh st r tail st' ∧ st'.backend = r.apply st.backend ∧ st'.backend.Live ∧
      passes (serveOnce (allocating fresh)) (n + 1) st =
        if r.hdr.type = nbdCmdDisc then .out st'
        else passes (serveOnce (allocating fresh)) n st' := by
  obtain ⟨st', hserved, honce⟩ : ∃ st', Served fresh st r tail st' ∧ _ :=
    serveOnce_complete hb hsrc hsnk hdata
  have hdev : st'.backend = r.apply st.backend := congrArg NbdCore.backend hserved.core
  refine ⟨st', hserved, hdev, hdev ▸ apply_live hb r, ?_⟩
  rw [passes, honce]
  split_ifs
  · rfl
  · rfl

/-! ### A small device -/

namespace NbdSmall

/-- Two blocks of zeros. -/
def backend : Backend := ⟨4096, 1024, 512, true, ByteMem.zero⟩

theorem backend_live : backend.Live := ⟨rfl, by decide, by decide, by decide⟩

def header (type : UInt32) (from_ : UInt64) (len : UInt32) : NbdHeader :=
  ⟨nbdRequestMagic, type, [1, 2, 3, 4, 5, 6, 7, 8], from_, len⟩

/-- Write the bytes 1, 2, 3, 4 at the start of the device. -/
def writeReq : NbdReq := ⟨header nbdCmdWrite 0 4, [1, 2, 3, 4], ⟨rfl, rfl⟩, by decide⟩

def readReq : NbdReq := ⟨header nbdCmdRead 0 4, [], ⟨rfl, rfl⟩, by decide⟩

def discReq : NbdReq := ⟨header nbdCmdDisc 0 0, [], ⟨rfl, rfl⟩, by decide⟩

/-- Five bytes, an `EINTR`, then everything that is asked for. -/
def sched : List IoEvent := [.chunk 5, .error ⟨EINTR, by decide⟩]

theorem sched_quiet : Quiet isEintr sched := by
  intro e he
  simp only [sched, List.mem_cons, reduceCtorEq, List.not_mem_nil, or_false, false_or,
    IoEvent.error.injEq] at he
  rw [he]
  rfl

end NbdSmall

end DirectStorage
