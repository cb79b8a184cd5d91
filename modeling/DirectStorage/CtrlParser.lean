/-
DirectStorage/CtrlParser.lean

Which operations a client's byte stream performs.

A frame is an accepted header followed by its whole payload; the frames of a
stream are the longest sequence of them at its head.  `serve_client` performs
exactly their operations, with one exception.  Its `read_full` returns 0 when
the stream ends before the first byte of a payload, and the check `n < 0`
does not notice, so a header that is the last thing on the stream is handled
as if its payload were there, with whatever the array `payload` holds.

Main results: `serveClient_ops` gives the operations for every stream and
every cut, and `parserCorrect_iff` says exactly when they are those of the
frames.
-/
import DirectStorage.CtrlServer
import DirectStorage.Framing

namespace DirectStorage

namespace Ctrl

/-! ### Frames -/

theorem length_hdr_bytes (h : Hdr) : h.bytes.length = hdrSize := by
  simp [Hdr.bytes]

theorem loadHdr_bytes (h : Hdr) (rest : List UInt8) : loadHdr (h.bytes ++ rest) = h := by
  simp [loadHdr, Hdr.bytes, field_append_left, field_append_right, ofNat_ofLe_toLe16,
    ofNat_ofLe_toLe32, ofNat_ofLe_toLe64]

theorem bytes_loadHdr {bs : List UInt8} (h : hdrSize ≤ bs.length) :
    (loadHdr bs).bytes = bs.take hdrSize := by
  have hlen : ∀ {off w}, off + w ≤ hdrSize → (field bs off w).length = w :=
    fun hle => length_field (hle.trans h)
  simp only [loadHdr, Hdr.bytes]
  rw [toNat_ofNat_ofLe (hlen (by decide)), toNat_ofNat_ofLe16 (hlen (by decide)),
    toNat_ofNat_ofLe16 (hlen (by decide)), toNat_ofNat_ofLe (hlen (by decide)),
    toNat_ofNat_ofLe (hlen (by decide)), toNat_ofNat_ofLe64 (hlen (by decide))]
  rw [toLe_ofLe_of_length (hlen (by decide)), toLe_ofLe_of_length (hlen (by decide)),
    toLe_ofLe_of_length (hlen (by decide)), toLe_ofLe_of_length (hlen (by decide)),
    toLe_ofLe_of_length (hlen (by decide)), toLe_ofLe_of_length (hlen (by decide))]
  have hcut := take_append_field bs
  rw [show hdrSize = 16 + 8 from rfl, ← hcut, ← hcut 12 4, ← hcut 8 4, ← hcut 6 2, ← hcut 4 2,
    ← hcut 0 4]
  simp

/-- **The control protocol's frame format.** -/
def ctrlFormat : HeaderFormat UInt8 Hdr where
  size := hdrSize
  size_pos := by decide
  load := loadHdr
  bytes := Hdr.bytes
  ok := Hdr.Accepted
  payloadLen h := h.payloadLen.toNat
  decidableOk _ := inferInstance
  length_bytes _ := length_hdr_bytes _
  load_bytes _ := loadHdr_bytes _
  bytes_load := bytes_loadHdr

/-- A complete well-formed frame. -/
abbrev Frame := ctrlFormat.Frame

/-- The operation of a frame, if it has one. -/
def Frame.denotes (f : Frame) : Option Op := f.hdr.op f.payload

/-- The longest sequence of frames at the head of a stream, and the rest. -/
def frames (data : List UInt8) : List Frame × List UInt8 :=
  ctrlFormat.codec.split (fun _ => false) data

/-! ### One pass -/

variable {σ : Type*} {M : Manager σ} {junk : Nat → ByteMem} {s : Server σ}

/-- A response is sent whole. -/
theorem respond_sent (h : s.snk.Calm) (hdr : Hdr) (status : Int) (payload : List UInt8) :
    ∃ (rc : Int) (snk : Sink UInt8), 0 ≤ rc ∧ snk.Calm ∧
      snk.out = s.snk.out ++ (respBytes hdr status payload.length ++ payload) ∧
      respond s hdr status payload = (rc, { s with snk := snk }) := by
  obtain ⟨snk₁, hcalm₁, hout₁, hw₁⟩ := writeFull_calm (respBytes hdr status payload.length) h
  obtain ⟨snk₂, hcalm₂, hout₂, hw₂⟩ := writeFull_calm payload hcalm₁
  simp only [respond, sendResponse, hw₁]
  rw [if_neg (by omega)]
  by_cases hlen : payload.length ≠ 0
  · refine ⟨payload.length, snk₂, Int.natCast_nonneg _, hcalm₂, ?_, ?_⟩
    · rw [hout₂, hout₁, List.append_assoc]
    · rw [if_pos hlen, hw₂]
  · have hnil : payload = [] := List.eq_nil_of_length_eq_zero (not_not.mp hlen)
    refine ⟨0, snk₁, Int.le_refl 0, hcalm₁, ?_, ?_⟩
    · rw [hout₁, hnil, List.append_nil]
    · rw [if_neg hlen]

/-- A request is handled and the connection goes on. -/
theorem handleRequest_calm (M : Manager σ) (h : s.snk.Calm) (hdr : Hdr) (payload : List UInt8) :
    0 ≤ (handleRequest M s hdr payload).1 ∧ (handleRequest M s hdr payload).2.src = s.src ∧
      (handleRequest M s hdr payload).2.snk.Calm ∧
      (handleRequest M s hdr payload).2.passes = s.passes ∧
      (handleRequest M s hdr payload).2.ops = s.ops ++ (hdr.op payload).toList := by
  obtain ⟨s₁, status, data, heq, hops, -, hio⟩ := handleRequest_ops M s hdr payload
  obtain ⟨rc, snk, hrc, hcalm, -, hresp⟩ := respond_sent (hio.snk ▸ h) hdr status data
  rw [heq, hresp]
  exact ⟨hrc, hio.src, hcalm, hio.passes, hops⟩

/-- The loop body after an accepted header, once `read_full` has not failed:
the request is handled with what the array holds. -/
theorem serveAccepted_next {hdr : Hdr} {n : Int} {got : List UInt8} {src : Source UInt8}
    (hsnk : s.snk.Calm)
    (hread : (if hdr.payloadLen ≠ 0 then readFull s.src hdr.payloadLen.toNat
      else (0, [], s.src)) = (n, got, src)) (hn : 0 ≤ n) :
    serveAccepted M junk s hdr = .next (handleRequest M
      { s with src := src, passes := s.passes + 1 } hdr (payloadArray (junk s.passes) got)).2 := by
  have hcalm : Sink.Calm { s with src := src, passes := s.passes + 1 }.snk := hsnk
  have hrc := (handleRequest_calm M hcalm hdr (payloadArray (junk s.passes) got)).1
  simp only [serveAccepted, hread]
  rw [if_neg (Int.not_lt.mpr hn), if_neg (Int.not_lt.mpr hrc)]

/-- A pass over a stream that still has a whole header. -/
theorem serveFrame_header (hsrc : s.src.Calm) (hfit : hdrSize ≤ s.src.data.length) :
    ∃ src : Source UInt8, src.Calm ∧ src.data = s.src.data.drop hdrSize ∧
      serveFrame M junk s =
        if (loadHdr s.src.data).Accepted then
          serveAccepted M junk { s with src := src } (loadHdr s.src.data)
        else .out { s with
          src := src
          snk := (sendResponse s.snk (loadHdr s.src.data) (-EINVAL) []).2 } := by
  obtain ⟨src, hcalm, hrest, hrd⟩ := readFull_calm hdrSize hsrc
  refine ⟨src, hcalm, hrest, ?_⟩
  have hload : loadHdr (s.src.data.take hdrSize) = loadHdr s.src.data := by
    rw [← bytes_loadHdr hfit]
    simpa using loadHdr_bytes (loadHdr s.src.data) []
  rw [if_pos hfit] at hrd
  simp only [serveFrame, hrd, hload, ite_not]
  rfl

/-! ### The payload array behind a complete payload is not looked at -/

theorem loadConnect_append {as : List UInt8} (bs : List UInt8) (h : 56 ≤ as.length) :
    loadConnect (as ++ bs) = loadConnect as := by
  have hfield : ∀ {off w}, off + w ≤ 56 → field (as ++ bs) off w = field as off w :=
    fun hle => field_append_of_le (hle.trans h)
  simp [loadConnect, hfield]

theorem loadDisconnect_append {as : List UInt8} (bs : List UInt8) (h : 8 ≤ as.length) :
    loadDisconnect (as ++ bs) = loadDisconnect as := by
  rw [loadDisconnect, field_append_of_le (by omega), loadDisconnect]

theorem loadTransfer_append {as : List UInt8} (bs : List UInt8) (h : 40 ≤ as.length) :
    loadTransfer (as ++ bs) = loadTransfer as := by
  have hfield : ∀ {off w}, off + w ≤ 40 → field (as ++ bs) off w = field as off w :=
    fun hle => field_append_of_le (hle.trans h)
  simp [loadTransfer, hfield]

theorem op_append {h : Hdr} {as : List UInt8} (bs : List UInt8)
    (hlen : as.length = h.payloadLen.toNat) : h.op (as ++ bs) = h.op as := by
  have hsize : ∀ {size : UInt32}, h.payloadLen = size → size.toNat ≤ as.length := by
    rintro size rfl
    exact hlen.ge
  unfold Hdr.op
  -- the tests are on the header, so both sides take the same branch
  refine ite_congr rfl (fun _ => rfl) fun _ => ?_
  refine ite_congr rfl (fun _ => rfl) fun _ => ?_
  refine ite_congr rfl (fun _ => rfl) fun _ => ?_
  refine ite_congr rfl (fun _ => ?_) fun _ => ?_
  · refine ite_congr rfl (fun hc => ?_) fun _ => rfl
    rw [loadConnect_append bs (hsize hc)]
  refine ite_congr rfl (fun _ => ?_) fun _ => ?_
  · refine ite_congr rfl (fun hd => ?_) fun _ => rfl
    rw [loadDisconnect_append bs (hsize hd)]
  refine ite_congr rfl (fun _ => ?_) fun _ => rfl
  refine ite_congr rfl (fun ht => ?_) fun _ => rfl
  rw [loadTransfer_append bs (hsize ht)]

/-- A payload that is there is read whole. -/
theorem readPayload_complete {src : Source UInt8} {payload tail : List UInt8} {len : UInt32}
    (hsrc : src.Calm) (hdata : src.data = payload ++ tail) (hlen : payload.length = len.toNat) :
    ∃ (n : Int) (src' : Source UInt8), 0 ≤ n ∧ src'.Calm ∧ src'.data = tail ∧
      (if len ≠ 0 then readFull src len.toNat else (0, [], src)) = (n, payload, src') := by
  by_cases h0 : len = 0
  · have hnil : payload = [] := List.eq_nil_of_length_eq_zero (by rw [hlen, h0]; rfl)
    rw [hnil, List.nil_append] at hdata
    refine ⟨0, src, Int.le_refl 0, hsrc, hdata, ?_⟩
    rw [if_neg (not_not.mpr h0), hnil]
  · obtain ⟨src', hcalm, hrest, hrd⟩ := readFull_calm len.toNat hsrc
    have hfit : len.toNat ≤ src.data.length := by
      rw [hdata, List.length_append]
      omega
    rw [if_pos hfit, hdata, List.take_left' hlen] at hrd
    rw [hdata, List.drop_left' hlen] at hrest
    refine ⟨len.toNat, src', Int.natCast_nonneg _, hcalm, hrest, ?_⟩
    rw [if_pos h0, hrd]

/-- A complete frame is taken off the stream, in whatever chunks its bytes
arrive, and its request is handled. -/
theorem serveFrame_handles {f : Frame} {tail : List UInt8} (hsrc : s.src.Calm)
    (hsnk : s.snk.Calm) (hdata : s.src.data = f.encode ++ tail) :
    ∃ src : Source UInt8, src.Calm ∧ src.data = tail ∧
      serveFrame M junk s = .next (handleRequest M
        { s with src := src, passes := s.passes + 1 } f.hdr
        (payloadArray (junk s.passes) f.payload)).2 := by
  have hpay : f.payload.length = f.hdr.payloadLen.toNat := f.payload_length
  have hload : loadHdr s.src.data = f.hdr := by
    rw [hdata]
    exact HeaderFormat.load_encode f tail
  have hfit : hdrSize ≤ s.src.data.length := by
    rw [hdata, List.length_append, HeaderFormat.length_encode]
    exact Nat.le_add_right_of_le (Nat.le_add_right _ _)
  obtain ⟨src, hcalm, hrest, hpass⟩ : ∃ src : Source UInt8, src.Calm ∧ src.data = _ ∧
      serveFrame M junk s = _ := serveFrame_header hsrc hfit
  have htail : src.data = f.payload ++ tail := by
    rw [hrest, hdata]
    exact HeaderFormat.drop_encode f tail
  obtain ⟨n, src', hn, hcalm', hdata', hread⟩ := readPayload_complete hcalm htail hpay
  have hnext : serveAccepted M junk { s with src := src } f.hdr = _ :=
    serveAccepted_next hsnk hread hn
  refine ⟨src', hcalm', hdata', ?_⟩
  rw [hpass, hload, if_pos (show f.hdr.Accepted from f.ok), hnext]

/-- **One complete frame**: a pass takes it off the stream and performs its
operation. -/
theorem serveFrame_complete {f : Frame} {tail : List UInt8} (hsrc : s.src.Calm)
    (hsnk : s.snk.Calm) (hdata : s.src.data = f.encode ++ tail) :
    ∃ s', serveFrame M junk s = .next s' ∧ s'.src.Calm ∧ s'.src.data = tail ∧ s'.snk.Calm ∧
      s'.passes = s.passes + 1 ∧ s'.ops = s.ops ++ f.denotes.toList := by
  obtain ⟨src, hcalm, htail, hnext⟩ := serveFrame_handles hsrc hsnk hdata
  have hcalm' : Sink.Calm { s with src := src, passes := s.passes + 1 }.snk := hsnk
  obtain ⟨-, hsrc', hsnk', hpasses, hops⟩ :=
    handleRequest_calm M hcalm' f.hdr (payloadArray (junk s.passes) f.payload)
  refine ⟨_, hnext, hsrc' ▸ hcalm, hsrc' ▸ htail, hsnk', hpasses, ?_⟩
  rw [hops, payloadArray, op_append _ f.payload_length]
  rfl

/-! ### Streams without a complete frame -/

/-- The stream ends right after an accepted header that announces a payload. -/
def LostPayload (rest : List UInt8) : Prop :=
  rest.length = hdrSize ∧ (loadHdr rest).Accepted ∧ (loadHdr rest).payloadLen ≠ 0

instance (rest : List UInt8) : Decidable (LostPayload rest) :=
  inferInstanceAs (Decidable (_ ∧ _ ∧ _))

/-- Less than a header: the connection is closed. -/
theorem serveClient_short (hsrc : s.src.Calm) (h : s.src.data.length < hdrSize) :
    ∃ src, serveClient M junk s = { s with src := src } := by
  obtain ⟨src, -, -, hrd⟩ := readFull_calm hdrSize hsrc
  rw [if_neg (Nat.not_le.mpr h)] at hrd
  refine ⟨src, serveClient_out ?_⟩
  by_cases hnil : s.src.data = []
  · simp [serveFrame, hrd, hnil]
  · simp [serveFrame, hrd, hnil]

/-- A stream that does not start with a frame: no operation is performed,
unless the stream is an accepted header and nothing else. -/
theorem serveClient_incomplete (hsrc : s.src.Calm) (hsnk : s.snk.Calm)
    (h : ctrlFormat.parse s.src.data = none) :
    (serveClient M junk s).ops = s.ops ++
      if LostPayload s.src.data then
        ((loadHdr s.src.data).op (payloadArray (junk s.passes) [])).toList
      else [] := by
  rcases Nat.lt_or_ge s.src.data.length hdrSize with hshort | hfit
  · rw [if_neg fun hl => hshort.ne hl.1, List.append_nil]
    obtain ⟨src, hstop⟩ : ∃ src, serveClient M junk s = _ := serveClient_short hsrc hshort
    rw [hstop]
  obtain ⟨src, hcalm, hrest, hpass⟩ : ∃ src : Source UInt8, src.Calm ∧ src.data = _ ∧
      serveFrame M junk s = _ := serveFrame_header hsrc hfit
  by_cases hacc : (loadHdr s.src.data).Accepted
  swap
  · rw [if_neg hacc] at hpass
    rw [if_neg fun hl => hacc hl.2.1, List.append_nil, serveClient_out hpass]
  rw [if_pos hacc] at hpass
  have hpay : s.src.data.length < hdrSize + (loadHdr s.src.data).payloadLen.toNat := by
    rcases (ctrlFormat.parse_eq_none_iff _).mp h with hcut | hbad
    · exact Nat.lt_of_not_le hcut
    · exact absurd hacc hbad
  have hlen : (loadHdr s.src.data).payloadLen ≠ 0 := by
    intro h0
    rw [h0] at hpay
    exact absurd hpay (Nat.not_lt.mpr hfit)
  obtain ⟨src', hcalm', hrest', hrd⟩ :=
    readFull_calm (loadHdr s.src.data).payloadLen.toNat hcalm
  have hcut : src.data.length < (loadHdr s.src.data).payloadLen.toNat := by
    rw [hrest, List.length_drop]
    omega
  rw [if_neg (Nat.not_le.mpr hcut), List.take_of_length_le hcut.le] at hrd
  rcases hfit.eq_or_lt with hend | hmore
  · -- the end of the stream is taken for a payload of no bytes
    have hnone : src.data = [] := by
      rw [hrest]
      exact List.drop_of_length_le hend.ge
    rw [if_pos hnone, hnone] at hrd
    rw [hnone, List.drop_nil] at hrest'
    have hnext : serveAccepted M junk { s with src := src } (loadHdr s.src.data) = _ :=
      serveAccepted_next hsnk ((if_pos hlen).trans hrd) (Int.le_refl 0)
    have hsnk' : Sink.Calm { s with src := src', passes := s.passes + 1 }.snk := hsnk
    obtain ⟨-, hsrc', -, -, hops⟩ := handleRequest_calm M hsnk' (loadHdr s.src.data)
      (payloadArray (junk s.passes) [])
    generalize (handleRequest M { s with src := src', passes := s.passes + 1 }
      (loadHdr s.src.data) (payloadArray (junk s.passes) [])).2 = s' at hnext hsrc' hops
    obtain ⟨src'', hstop⟩ : ∃ src, serveClient M junk s' = _ :=
      serveClient_short (hsrc' ▸ hcalm') (by rw [hsrc', hrest']; decide)
    rw [if_pos ⟨hend.symm, hacc, hlen⟩, serveClient_next (hpass.trans hnext), hstop, hops]
  · have hsome : src.data ≠ [] := by
      rw [hrest, ne_eq, List.drop_eq_nil_iff]
      omega
    rw [if_neg hsome] at hrd
    have hout : serveAccepted M junk { s with src := src } (loadHdr s.src.data) =
        .out { s with src := src' } := by
      simp only [serveAccepted, if_pos hlen, hrd]
      rfl
    rw [if_neg fun hl => hmore.ne hl.1.symm, List.append_nil,
      serveClient_out (hpass.trans hout)]

/-! ### Whole streams -/

/-- **The operations for every stream and every cut**: those of the frames, in
order, and after them that of a header without its payload. -/
theorem serveClient_ops (hsrc : s.src.Calm) (hsnk : s.snk.Calm) :
    (serveClient M junk s).ops = s.ops ++ (frames s.src.data).1.filterMap Frame.denotes ++
      if LostPayload (frames s.src.data).2 then
        ((loadHdr (frames s.src.data).2).op
          (payloadArray (junk (s.passes + (frames s.src.data).1.length)) [])).toList
      else [] := by
  induction hd : s.src.data using ctrlFormat.codec.stream_induction generalizing s with
  | hnone data hparse =>
      subst hd
      rw [frames, ctrlFormat.codec.split_of_none _ hparse, serveClient_incomplete hsrc hsnk hparse]
      simp
  | hframe f tail ih =>
      obtain ⟨s', hnext, hsrc', hdata', hsnk', hpasses, hops⟩ : ∃ s', serveFrame M junk s =
        .next s' ∧ _ := serveFrame_complete hsrc hsnk hd
      have hsplit : frames (ctrlFormat.codec.encode f ++ tail) =
          (f :: (frames tail).1, (frames tail).2) := ctrlFormat.codec.split_encode _ f tail
      have hmap : (f :: (frames tail).1).filterMap Frame.denotes =
          (Frame.denotes f).toList ++ (frames tail).1.filterMap Frame.denotes := by
        rcases e : Frame.denotes f with - | op <;> simp [e]
      rw [serveClient_next hnext, ih hsrc' hsnk' hdata', hsplit, hpasses, hops, hmap,
        List.append_assoc s.ops, List.length_cons, Nat.add_assoc, Nat.add_comm 1]

/-- **The parser is right** on a stream: the operations performed are those of
its frames, in order and with their arguments. -/
def ParserCorrect (M : Manager σ) (mgr : σ) (junk : Nat → ByteMem) (src : Source UInt8)
    (snk : Sink UInt8) : Prop :=
  (serveClient M junk (Server.start mgr src snk)).ops =
    (frames src.data).1.filterMap Frame.denotes

/-- The header names an operation, whatever its payload holds. -/
def Hdr.Performs (h : Hdr) : Prop :=
  h.opcode = queryStatus ∨ h.opcode = urmaEnable ∨ h.opcode = urmaDisable ∨
    h.opcode = peerConnect ∧ h.payloadLen = connectSize ∨
    h.opcode = peerDisconnect ∧ h.payloadLen = disconnectSize ∨
    h.opcode = urmaTransfer ∧ h.payloadLen = transferSize

instance (h : Hdr) : Decidable h.Performs := inferInstanceAs (Decidable (_ ∨ _))

theorem op_eq_none_iff (h : Hdr) (payload : List UInt8) : h.op payload = none ↔ ¬h.Performs := by
  have hcd : peerConnect ≠ peerDisconnect := by decide
  have hct : peerConnect ≠ urmaTransfer := by decide
  have hdt : peerDisconnect ≠ urmaTransfer := by decide
  unfold Hdr.op Hdr.Performs
  split_ifs <;> simp_all

/-- **When the parser is right.**  For every stream, every cut and every
chunking, with response writes succeeding, the operations are those of the
frames, unless the stream ends with a header that names an operation and
announces a payload of which nothing came. -/
theorem parserCorrect_iff {mgr : σ} {src : Source UInt8} {snk : Sink UInt8}
    (hsrc : src.Calm) (hsnk : snk.Calm) :
    ParserCorrect M mgr junk src snk ↔
      ¬(LostPayload (frames src.data).2 ∧ (loadHdr (frames src.data).2).Performs) := by
  have hops : (serveClient M junk (Server.start mgr src snk)).ops = _ :=
    serveClient_ops hsrc hsnk
  rw [ParserCorrect, hops]
  show [] ++ _ ++ _ = _ ↔ _
  rw [List.nil_append]
  by_cases hlost : LostPayload (frames src.data).2
  · rw [show (Server.start mgr src snk).src.data = src.data from rfl, if_pos hlost]
    simp [op_eq_none_iff, hlost]
  · rw [show (Server.start mgr src snk).src.data = src.data from rfl, if_neg hlost]
    simp [hlost]

/-! ### Two small connections -/

/-- A manager that always succeeds and has nothing to report. -/
def idle : Manager Unit := ⟨fun _ _ => (0, ()), fun _ => ⟨0, 0, 0, 0, 0, 0, 0, 0, 0⟩⟩

/-- The header of a peer-disconnect request. -/
def disconnectHdr : Hdr := ⟨ctrlMagic, ctrlVersion, peerDisconnect, disconnectSize, 0, 1⟩

/-- A request to disconnect peer 7, and a second one that is cut after three
bytes of its payload: one peer is disconnected. -/
theorem parserCorrect_cut_payload :
    ParserCorrect idle () (fun _ => ByteMem.zero)
      ⟨disconnectHdr.bytes ++ toLe 8 7 ++ disconnectHdr.bytes ++ [7, 0, 0],
        [.chunk 5, .error ⟨EINTR, by decide⟩]⟩ ⟨[], []⟩ := by
  refine (parserCorrect_iff ?_ ?_).mpr (by decide +kernel)
  · intro e he
    simp only [List.mem_cons, reduceCtorEq, List.not_mem_nil, or_false, false_or,
      IoEvent.error.injEq] at he
    rw [he]
    rfl
  · intro e he
    simp at he

/-- **A header without its payload is carried out**: the lone header of a
peer-disconnect request disconnects the peer whose id the array happens to
hold. -/
theorem not_parserCorrect_lone_header :
    ¬ParserCorrect idle () (fun _ => ByteMem.zero) ⟨disconnectHdr.bytes, []⟩ ⟨[], []⟩ := by
  have hops : (serveClient idle (fun _ => ByteMem.zero)
      (Server.start () ⟨disconnectHdr.bytes, []⟩ ⟨[], []⟩)).ops = [.peerDisconnect 0] := by
    decide +kernel
  have hnone : (frames disconnectHdr.bytes).1.filterMap Frame.denotes = [] := by decide +kernel
  intro hcorrect
  rw [ParserCorrect, hops, hnone] at hcorrect
  cases hcorrect

end Ctrl

end DirectStorage
