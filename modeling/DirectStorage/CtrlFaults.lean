/-
DirectStorage/CtrlFaults.lean

Control calls over connections that fail.

`CtrlTransparent` is about connections that deliver every byte.  Here any call of
`socket`, `connect`, `read` and `write` may fail on either side, at any byte, and
the client closes the connection when one of its own calls has failed.  A call is
then in one of four cases: it was carried out and the client has the answer; it
was carried out, and the client is told an error of the connection; it was not
carried out, and the client is told an error; or the client's `write` has failed
right behind the header.  In the last case the server takes the end of the stream
for the payload, as `CtrlParser` says, and carries the operation out with
whatever its array holds.

A `write` to a connection that the other side has closed returns its error here, as
it does in a process that ignores `SIGPIPE`; neither the daemon nor `ramdiskctl`
asks for that, and a process that gets the signal ends at this point instead.

So a call is carried out at most once, a value that is not negative is the
manager's, and nothing else happens to the manager unless a request was torn
behind its header.

Main results: `transact_faulty` is one exchange over any connection, and
`socketSession_atMostOnce` a sequence of calls.
-/
import DirectStorage.CtrlTransparent
import DirectStorage.FullIoExact

namespace DirectStorage

namespace Ctrl

variable {σ : Type*} {M : Manager σ} {junk : Nat → ByteMem} {s : Server σ} {conn : Conn}
  {mgr mgr' : σ}

/-! ### The server's half -/

/-- Whether or not it can be answered, a request performs its operation. -/
theorem handleRequest_mgr (M : Manager σ) (s : Server σ) (hdr : Hdr) (payload : List UInt8) :
    (handleRequest M s hdr payload).2.mgr = M.after s.mgr (hdr.op payload) := by
  obtain ⟨s', rc, data, heq, hperforms⟩ := handleRequest_ops M s hdr payload
  rw [heq]
  exact hperforms.mgr

/-- Of a response some beginning is sent. -/
theorem respond_prefix (s : Server σ) (hdr : Hdr) (status : Int) (payload : List UInt8) :
    ∃ sent, sent <+: respBytes hdr status payload.length ++ payload ∧
      (respond s hdr status payload).2.snk.out = s.snk.out ++ sent := by
  unfold respond sendResponse
  rcases writeFull_cases s.snk (respBytes hdr status payload.length) with
    ⟨hneg, sent, hsent, hout⟩ | ⟨hrc, hout⟩
  · refine ⟨sent, hsent.trans (List.prefix_append _ _), ?_⟩
    dsimp only
    rw [if_pos hneg]
    exact hout
  dsimp only
  rw [if_neg (by omega)]
  split_ifs with hlen
  · obtain ⟨sent, hsent, hout'⟩ := writeFull_prefix
      (writeFull s.snk (respBytes hdr status payload.length)).2 payload
    refine ⟨respBytes hdr status payload.length ++ sent, ?_, ?_⟩
    · exact (List.prefix_append_right_inj _).mpr hsent
    · rw [hout', hout, List.append_assoc]
  · exact ⟨_, List.prefix_append _ _, hout⟩

/-- Without a header the connection is closed. -/
theorem serveClient_noHeader (M : Manager σ) (junk : Nat → ByteMem) (s : Server σ)
    (h : (readFull s.src hdrSize).1 ≤ 0) :
    (serveClient M junk s).mgr = s.mgr ∧ (serveClient M junk s).snk = s.snk := by
  have hout : serveFrame M junk s = .out { s with src := (readFull s.src hdrSize).2.2 } := by
    unfold serveFrame
    dsimp only
    split_ifs with hzero hneg
    · rfl
    · rfl
    · omega
    · omega
  rw [serveClient_out hout]
  exact ⟨rfl, rfl⟩

/-- Nothing more happens at the end of the stream. -/
theorem serveClient_ended (h : s.src.data = []) :
    (serveClient M junk s).mgr = s.mgr ∧ (serveClient M junk s).snk = s.snk := by
  refine serveClient_noHeader M junk s ?_
  rcases readFull_cases s.src hdrSize with hneg | ⟨hzero, -⟩ | ⟨-, hle, -⟩
  · exact hneg.le
  · exact hzero.le
  · rw [h] at hle
    exact absurd hle (by decide)

/-- `handle_request` with the payload that was read. -/
def Server.handle (M : Manager σ) (junk : Nat → ByteMem) (s : Server σ) (hdr : Hdr)
    (src : Source UInt8) (got : List UInt8) : Int × Server σ :=
  handleRequest M { s with src := src, passes := s.passes + 1 } hdr
    (payloadArray (junk s.passes) got)

theorem Server.handle_src (M : Manager σ) (junk : Nat → ByteMem) (s : Server σ) (hdr : Hdr)
    (src : Source UInt8) (got : List UInt8) : (s.handle M junk hdr src got).2.src = src := by
  obtain ⟨s', rc, data, heq, hperforms⟩ := handleRequest_ops M
    { s with src := src, passes := s.passes + 1 } hdr (payloadArray (junk s.passes) got)
  rw [Server.handle, heq]
  exact hperforms.io.src

/-- The last request on the stream: whether or not it could be answered, the server
stops there. -/
theorem serveClient_handle {t : Server σ} {hdr : Hdr} {n : Int} {got : List UInt8}
    {src : Source UInt8} (hframe : serveFrame M junk t = serveAccepted M junk s hdr)
    (hread : (if hdr.payloadLen ≠ 0 then readFull s.src hdr.payloadLen.toNat
      else (0, [], s.src)) = (n, got, src)) (hn : 0 ≤ n) (hend : src.data = []) :
    (serveClient M junk t).mgr = (s.handle M junk hdr src got).2.mgr ∧
      (serveClient M junk t).snk = (s.handle M junk hdr src got).2.snk := by
  have hacc : serveAccepted M junk s hdr =
      if (s.handle M junk hdr src got).1 < 0 then .out (s.handle M junk hdr src got).2
      else .next (s.handle M junk hdr src got).2 := by
    simp only [serveAccepted, hread]
    rw [if_neg (Int.not_lt.mpr hn)]
    rfl
  rw [hacc] at hframe
  split_ifs at hframe with hrc
  · rw [serveClient_out hframe]
    exact ⟨rfl, rfl⟩
  · rw [serveClient_next hframe]
    refine serveClient_ended ?_
    rw [Server.handle_src]
    exact hend

/-- What can become of a request of which the server gets `sent`. -/
inductive Fate (M : Manager σ) (conn : Conn) (mgr : σ) (f : Frame) (resp : List UInt8) :
    List UInt8 → σ → List UInt8 → Prop
  /-- It is not carried out, and nothing is answered. -/
  | dropped {sent} : Fate M conn mgr f resp sent mgr []
  /-- It is carried out, and some of the answer is written. -/
  | done {out} : out <+: resp → Fate M conn mgr f resp f.encode (M.after mgr f.denotes) out
  /-- The header came alone, and is carried out with what the array holds. -/
  | torn {out} : f.hdr.payloadLen ≠ 0 → Fate M conn mgr f resp f.hdr.bytes
      (M.after mgr (f.hdr.op (payloadArray (conn.junk 0) []))) out

/-- A whole request is carried out, and some beginning of the answer is written. -/
theorem Server.handle_done {f : Frame} {status : Int} {data : List UInt8}
    (junk : Nat → ByteMem) (src : Source UInt8)
    (hans : Answers M s.mgr f.hdr f.payload status data mgr') :
    (s.handle M junk f.hdr src f.payload).2.mgr = M.after s.mgr f.denotes ∧
      ∃ out, out <+: respBytes f.hdr status data.length ++ data ∧
        (s.handle M junk f.hdr src f.payload).2.snk.out = s.snk.out ++ out := by
  refine ⟨?_, ?_⟩
  · rw [Server.handle, handleRequest_mgr, payloadArray, op_append _ f.payload_length]
    rfl
  · obtain ⟨s', heq, -, hio⟩ := hans { s with src := src, passes := s.passes + 1 }
      ((junk s.passes).load f.payload.length (ctrlMaxPayload.toNat - f.payload.length)) rfl
    obtain ⟨out, hout, hsnk⟩ := respond_prefix s' f.hdr status data
    refine ⟨out, hout, ?_⟩
    rw [Server.handle, payloadArray, heq, hsnk, hio.snk]

/-- A pass over a stream whose header can be read. -/
theorem serveFrame_readHeader (M : Manager σ) (junk : Nat → ByteMem) {f : Frame}
    (hread : (readFull s.src hdrSize).1 = hdrSize)
    (hgot : (readFull s.src hdrSize).2.1 = f.hdr.bytes) :
    serveFrame M junk s =
      serveAccepted M junk { s with src := (readFull s.src hdrSize).2.2 } f.hdr := by
  have hload : loadHdr f.hdr.bytes = f.hdr := by simpa using loadHdr_bytes f.hdr []
  unfold serveFrame
  dsimp only
  rw [hread, hgot, hload, if_neg (by decide), if_neg (by decide),
    if_neg (not_not.mpr (show f.hdr.Accepted from f.ok))]

/-- Once the header has been read: what follows it on the stream is some beginning
of the payload. -/
theorem accepted_fate {f : Frame} {status : Int} {data tail : List UInt8} {t : Server σ}
    (hans : Answers M s.mgr f.hdr f.payload status data mgr') (hpasses : s.passes = 0)
    (hsnk : s.snk.out = []) (hbody : s.src.data ++ tail = f.payload)
    (hframe : serveFrame M conn.junk t = serveAccepted M conn.junk s f.hdr) :
    Fate M conn s.mgr f (respBytes f.hdr status data.length ++ data) (f.hdr.bytes ++ s.src.data)
      (serveClient M conn.junk t).mgr (serveClient M conn.junk t).snk.out := by
  have hpay : f.payload.length = f.hdr.payloadLen.toNat := f.payload_length
  have hdone : ∀ n src, (if f.hdr.payloadLen ≠ 0 then readFull s.src f.hdr.payloadLen.toNat
      else (0, [], s.src)) = (n, f.payload, src) → 0 ≤ n → src.data = [] →
      s.src.data = f.payload → Fate M conn s.mgr f (respBytes f.hdr status data.length ++ data)
        (f.hdr.bytes ++ s.src.data) (serveClient M conn.junk t).mgr
        (serveClient M conn.junk t).snk.out := by
    intro n src hread hn hend hall
    obtain ⟨hmgr, hout⟩ := serveClient_handle hframe hread hn hend
    obtain ⟨hmgr', out, hprefix, hout'⟩ := Server.handle_done conn.junk src hans
    rw [hmgr, hmgr', hout, hout', hsnk, hall]
    exact .done hprefix
  by_cases h0 : f.hdr.payloadLen = 0
  · have hnil : f.payload = [] := List.eq_nil_of_length_eq_zero (by rw [hpay, h0]; rfl)
    have hdata : s.src.data = [] := (List.append_eq_nil_iff.mp (hbody.trans hnil)).1
    exact hdone 0 s.src (by rw [if_neg (not_not.mpr h0), hnil]) (Int.le_refl 0) hdata
      (hdata.trans hnil.symm)
  have hcases := readFull_cases s.src f.hdr.payloadLen.toNat
  have hconserves := readFull_conserves s.src f.hdr.payloadLen.toNat
  rcases hread : readFull s.src f.hdr.payloadLen.toNat with ⟨n, got, src⟩
  have hif : (if f.hdr.payloadLen ≠ 0 then readFull s.src f.hdr.payloadLen.toNat
      else (0, [], s.src)) = (n, got, src) := (if_pos h0).trans hread
  rw [hread] at hcases hconserves
  dsimp only at hcases hconserves
  rcases hcases with hneg | ⟨hzero, -, hdata⟩ | ⟨hfull, hle, hgot, hrest⟩
  · have hout : serveAccepted M conn.junk s f.hdr = .out { s with src := src } := by
      simp only [serveAccepted, hif]
      rw [if_pos hneg]
    rw [serveClient_out (hframe.trans hout), hsnk]
    exact .dropped
  · -- the end of the stream is taken for a payload of no bytes
    rw [hdata] at hconserves
    obtain ⟨rfl, hend⟩ := List.append_eq_nil_iff.mp hconserves
    obtain ⟨hmgr, -⟩ := serveClient_handle hframe hif hzero.ge hend
    rw [hmgr, Server.handle, handleRequest_mgr, hpasses, hdata, List.append_nil]
    exact .torn h0
  · have htail : tail = [] := by
      have hlen := congrArg List.length hbody
      rw [List.length_append, hpay] at hlen
      exact List.eq_nil_of_length_eq_zero (by omega)
    rw [htail, List.append_nil] at hbody
    rw [hbody, List.take_of_length_le hpay.le] at hgot
    rw [hbody, List.drop_of_length_le hpay.le] at hrest
    exact hdone n src (hgot ▸ hif) (by omega) hrest hbody

/-- **The server's half**, when it gets some beginning of a request and any of its
calls may fail. -/
theorem serve_fate {f : Frame} {status : Int} {data sent : List UInt8}
    (hans : Answers M mgr f.hdr f.payload status data mgr') (hsent : sent <+: f.encode) :
    Fate M conn mgr f (respBytes f.hdr status data.length ++ data) sent
      (conn.serve M mgr sent).mgr (conn.serve M mgr sent).snk.out := by
  obtain ⟨tail, htail⟩ := hsent
  have htail : sent ++ tail = f.hdr.bytes ++ f.payload := htail
  have hnone : (readFull ⟨sent, conn.serverRead⟩ hdrSize).1 ≤ 0 →
      Fate M conn mgr f (respBytes f.hdr status data.length ++ data) sent
        (conn.serve M mgr sent).mgr (conn.serve M mgr sent).snk.out := by
    intro h
    obtain ⟨hmgr, hsnk⟩ := serveClient_noHeader M conn.junk
      (Server.start mgr ⟨sent, conn.serverRead⟩ ⟨[], conn.serverWrite⟩) h
    rw [Conn.serve, hmgr, hsnk]
    exact .dropped
  rcases readFull_cases ⟨sent, conn.serverRead⟩ hdrSize with
    hneg | ⟨hzero, -⟩ | ⟨hfull, hle, hgot, hrest⟩
  · exact hnone hneg.le
  · exact hnone hzero.le
  have hle : hdrSize ≤ sent.length := hle
  have hhdr : sent.take hdrSize = f.hdr.bytes := by
    rw [← List.take_append_of_le_length hle, htail, List.take_left' (length_hdr_bytes _)]
  have hbody : sent.drop hdrSize ++ tail = f.payload := by
    rw [← List.drop_append_of_le_length hle, htail, List.drop_left' (length_hdr_bytes _)]
  have hframe := serveFrame_readHeader M conn.junk
    (s := Server.start mgr ⟨sent, conn.serverRead⟩ ⟨[], conn.serverWrite⟩) hfull (hgot.trans hhdr)
  have hsplit : f.hdr.bytes ++ (readFull ⟨sent, conn.serverRead⟩ hdrSize).2.2.data = sent := by
    rw [hrest, ← hhdr]
    exact List.take_append_drop _ _
  have hfate : Fate M conn mgr f (respBytes f.hdr status data.length ++ data)
      (f.hdr.bytes ++ (readFull ⟨sent, conn.serverRead⟩ hdrSize).2.2.data)
      (conn.serve M mgr sent).mgr (conn.serve M mgr sent).snk.out :=
    accepted_fate hans rfl rfl ((congrArg (· ++ tail) hrest).trans hbody) hframe
  rwa [hsplit] at hfate

/-! ### The client's half -/

/-- A value that is not negative says that all was read. -/
theorem clientReadFull_got (src : Source UInt8) (len : Nat)
    (h : 0 ≤ (clientReadFull src len).1) :
    len ≤ src.data.length ∧ (clientReadFull src len).2.1 = src.data.take len ∧
      (clientReadFull src len).2.2.data = src.data.drop len := by
  rw [clientReadFull_eq] at h ⊢
  dsimp only at h ⊢
  rcases readFull_cases src len with hneg | ⟨hzero, hne, -⟩ | ⟨-, hgot⟩
  · rw [if_neg fun hz => hneg.ne hz.2] at h
    omega
  · rw [if_pos ⟨hne, hzero⟩] at h
    exact absurd h (by decide)
  · exact hgot

/-- **A value that is not negative is the server's**, whatever was lost on the way. -/
theorem receive_truthful {out : List UInt8} {sched : List IoEvent} {req : Hdr} {status : Int}
    {data : List UInt8} {cap : Option UInt32}
    (hout : out <+: respBytes req status data.length ++ data)
    (hlo : -2 ^ 31 ≤ status) (hhi : status < 2 ^ 31) (hcap : data.length ≤ (cap.getD 0).toNat)
    (h : 0 ≤ (receive ⟨out, sched⟩ cap).1) : receive ⟨out, sched⟩ cap = (status, data) := by
  have hlen : data.length < 2 ^ 32 := Nat.lt_of_le_of_lt hcap (cap.getD 0).toNat_lt
  have hsmall : (UInt32.ofNat data.length).toNat = data.length := UInt32.toNat_ofNat_of_lt' hlen
  obtain ⟨tail, htail⟩ := hout
  unfold receive at h ⊢
  have hgot := clientReadFull_got ⟨out, sched⟩ respSize
  rcases hread : clientReadFull ⟨out, sched⟩ respSize with ⟨rc, bs, recv⟩
  rw [hread] at h hgot
  dsimp only at h hgot ⊢
  by_cases hneg : rc < 0
  · rw [if_pos hneg] at h
    exact absurd h (Int.not_le.mpr hneg)
  rw [if_neg hneg] at h ⊢
  obtain ⟨hle, hbs, hrecv⟩ := hgot (Int.not_lt.mp hneg)
  -- the response is there, and behind it some beginning of the record
  have hresp : bs = respBytes req status data.length := by
    rw [hbs, ← List.take_append_of_le_length hle, htail, List.take_left' (length_respBytes _ _ _)]
  have hbody : recv.data ++ tail = data := by
    rw [hrecv, ← List.drop_append_of_le_length hle, htail, List.drop_left' (length_respBytes _ _ _)]
  rw [hresp, loadResp_bytes req hlo hhi hlen] at h ⊢
  dsimp only at h ⊢
  rw [if_neg (by simp [respHdr])] at h ⊢
  by_cases hnil : data = []
  · rw [if_neg (by simp [hnil]), hnil]
  have hne : UInt32.ofNat data.length ≠ 0 := by
    intro h0
    rw [h0] at hsmall
    exact hnil (List.eq_nil_of_length_eq_zero hsmall.symm)
  rw [if_pos hne] at h ⊢
  cases cap with
  | none => exact absurd (List.eq_nil_of_length_eq_zero (Nat.le_zero.mp hcap)) hnil
  | some cap =>
      have hroom : ¬cap < UInt32.ofNat data.length := by
        rw [UInt32.lt_iff_toNat_lt, hsmall]
        exact Nat.not_lt.mpr hcap
      dsimp only at h ⊢
      rw [if_neg hroom, hsmall] at h ⊢
      have hgot := clientReadFull_got recv data.length
      rcases hread' : clientReadFull recv data.length with ⟨rc', got, src⟩
      rw [hread'] at h hgot
      dsimp only at h hgot ⊢
      by_cases hneg' : rc' < 0
      · rw [if_pos hneg'] at h
        exact absurd h (Int.not_le.mpr hneg')
      · obtain ⟨hle', rfl, -⟩ := hgot (Int.not_lt.mp hneg')
        rw [if_neg hneg', ← List.take_append_of_le_length hle', hbody, List.take_length]

/-- Without an answer the client returns an error. -/
theorem receive_nil (sched : List IoEvent) (cap : Option UInt32) :
    (receive ⟨[], sched⟩ cap).1 < 0 := by
  have hgot := clientReadFull_got ⟨[], sched⟩ respSize
  unfold receive
  rcases hread : clientReadFull ⟨[], sched⟩ respSize with ⟨rc, bs, recv⟩
  rw [hread] at hgot
  dsimp only at hgot ⊢
  by_cases hneg : rc < 0
  · rw [if_pos hneg]
    exact hneg
  · exact absurd (hgot (Int.not_lt.mp hneg)).1 (by decide)

theorem connectSock_neg {rc : Int} (h : conn.connectSock = .error rc) : rc < 0 := by
  unfold Conn.connectSock at h
  split_ifs at h
  · obtain rfl := Except.error.inj h
    decide
  split at h
  · obtain rfl := Except.error.inj h
    exact Int.neg_neg_of_pos (Errno.pos _)
  · obtain rfl := Except.error.inj h
    exact Int.neg_neg_of_pos (Errno.pos _)
  · cases h

/-! ### One exchange -/

theorem Answers.after {hdr : Hdr} {payload data : List UInt8} {status : Int}
    (h : Answers M mgr hdr payload status data mgr') : M.after mgr (hdr.op payload) = mgr' := by
  obtain ⟨s', heq, hmgr, -⟩ := h (Server.start mgr ⟨[], []⟩ ⟨[], []⟩) [] rfl
  rw [List.append_nil] at heq
  have hafter := handleRequest_mgr M (Server.start mgr ⟨[], []⟩ ⟨[], []⟩) hdr payload
  rw [heq] at hafter
  exact hafter.symm.trans hmgr

/-- The client's `write` has failed behind the header of `f` and before its payload. -/
def Conn.Tears (conn : Conn) (f : Frame) : Prop :=
  f.hdr.payloadLen ≠ 0 ∧
    (sendRequest ⟨[], conn.clientWrite⟩ f.hdr f.payload).2.out = f.hdr.bytes

/-- What the manager has been through when the client is told an error. -/
def Failed (M : Manager σ) (conn : Conn) (mgr mgr' : σ) (f : Frame) (left : σ) : Prop :=
  left = mgr ∨ left = mgr' ∨
    conn.Tears f ∧ left = M.after mgr (f.hdr.op (payloadArray (conn.junk 0) []))

theorem Fate.failed {f : Frame} {resp sent out : List UInt8} {left : σ}
    (h : Fate M conn mgr f resp sent left out)
    (hsent : (sendRequest ⟨[], conn.clientWrite⟩ f.hdr f.payload).2.out = sent) :
    Failed M conn mgr (M.after mgr f.denotes) f left := by
  cases h with
  | dropped => exact .inl rfl
  | done => exact .inr (.inl rfl)
  | torn h0 => exact .inr (.inr ⟨⟨h0, hsent⟩, rfl⟩)

/-- **One exchange over any connection**: the client has the server's answer, or is
told an error, and then the request was carried out or not, or torn. -/
theorem transact_faulty (conn : Conn) (cap : Option UInt32) {opcode : UInt16}
    {payload : Option (List UInt8)} {payloadLen : UInt32} {requestId : UInt64} {status : Int}
    {data : List UInt8} {f : Frame} (hhdr : f.hdr = reqHdr opcode payloadLen requestId)
    (hpayload : f.payload = payload.getD [])
    (hans : Answers M mgr f.hdr f.payload status data mgr')
    (hlo : -2 ^ 31 ≤ status) (hhi : status < 2 ^ 31) (hcap : data.length ≤ (cap.getD 0).toNat) :
    ramdiskCtrlTransact M conn mgr opcode payload payloadLen cap requestId = ⟨status, data, mgr'⟩ ∨
      (ramdiskCtrlTransact M conn mgr opcode payload payloadLen cap requestId).rc < 0 ∧
        Failed M conn mgr mgr' f
          (ramdiskCtrlTransact M conn mgr opcode payload payloadLen cap requestId).mgr := by
  have hlen : f.payload.length = f.hdr.payloadLen.toNat := f.payload_length
  have hafter : M.after mgr f.denotes = mgr' := hans.after
  unfold ramdiskCtrlTransact
  split_ifs with hnull
  · refine .inr ⟨?_, .inl rfl⟩
    show -EINVAL < 0
    decide
  rcases hconn : conn.connectSock with rc | -
  · exact .inr ⟨connectSock_neg hconn, .inl rfl⟩
  dsimp only
  rw [← hhdr, ← hpayload]
  obtain ⟨sent, hsent, hout, hall⟩ := sendRequest_prefix ⟨[], conn.clientWrite⟩ hlen
  have hout : (sendRequest ⟨[], conn.clientWrite⟩ f.hdr f.payload).2.out = sent := hout
  have hfate : Fate M conn mgr f (respBytes f.hdr status data.length ++ data) sent
      (conn.serve M mgr sent).mgr (conn.serve M mgr sent).snk.out := serve_fate hans hsent
  have hfailed : Failed M conn mgr mgr' f (conn.serve M mgr sent).mgr := hafter ▸ hfate.failed hout
  rw [hout]
  by_cases hneg : (sendRequest ⟨[], conn.clientWrite⟩ f.hdr f.payload).1 < 0
  · rw [if_pos hneg]
    exact .inr ⟨hneg, hfailed⟩
  rw [if_neg hneg]
  by_cases hrecv : (receive ⟨(conn.serve M mgr sent).snk.out, conn.clientRead⟩ cap).1 < 0
  · exact .inr ⟨hrecv, hfailed⟩
  -- there is an answer, so the request was not dropped; and all of it was sent
  refine .inl ?_
  have hwhole : sent = f.hdr.bytes ++ f.payload := hall (Int.not_lt.mp hneg)
  generalize (conn.serve M mgr sent).mgr = left at hfate
  generalize (conn.serve M mgr sent).snk.out = out at hfate hrecv
  cases hfate with
  | dropped => exact absurd (receive_nil conn.clientRead cap) hrecv
  | done hprefix =>
      rw [receive_truthful hprefix hlo hhi hcap (Int.not_lt.mp hrecv), hafter]
  | torn h0 =>
      have hnil : f.payload = [] := List.self_eq_append_right.mp hwhole
      rw [hnil] at hlen
      exact absurd (UInt32.toNat_inj.mp hlen.symm) h0

/-! ### The client's calls -/

theorem connectSize_le : connectSize ≤ ctrlMaxPayload := by decide
theorem disconnectSize_le : disconnectSize ≤ ctrlMaxPayload := by decide
theorem transferSize_le : transferSize ≤ ctrlMaxPayload := by decide
theorem zero_le_maxPayload : 0 ≤ ctrlMaxPayload := by decide

def statusFrame : Frame := ⟨reqHdr queryStatus 0 1, [], ⟨rfl, rfl, zero_le_maxPayload⟩, rfl⟩

/-- The request that a call sends; a null pointer sends none. -/
def ClientCall.frame : ClientCall → Option Frame
  | .queryStatus => some statusFrame
  | .enableUrma => some ⟨reqHdr Ctrl.urmaEnable 0 1, [], ⟨rfl, rfl, zero_le_maxPayload⟩, rfl⟩
  | .disableUrma => some ⟨reqHdr Ctrl.urmaDisable 0 1, [], ⟨rfl, rfl, zero_le_maxPayload⟩, rfl⟩
  | .peerConnect none => none
  | .peerConnect (some (peer, reserved0)) =>
      some ⟨reqHdr Ctrl.peerConnect connectSize 1, storeConnect peer reserved0,
        ⟨rfl, rfl, connectSize_le⟩, length_storeConnect peer reserved0⟩
  | .peerDisconnect peerId =>
      some ⟨reqHdr Ctrl.peerDisconnect disconnectSize 1, storeDisconnect peerId,
        ⟨rfl, rfl, disconnectSize_le⟩, length_storeDisconnect peerId⟩
  | .urmaTransfer none => none
  | .urmaTransfer (some xfer) =>
      some ⟨reqHdr Ctrl.urmaTransfer transferSize xfer.requestId, storeTransfer xfer,
        ⟨rfl, rfl, transferSize_le⟩, length_storeTransfer xfer⟩

/-- The request of the call is torn behind its header. -/
def ClientCall.Torn (conn : Conn) (c : ClientCall) : Prop := ∃ f ∈ c.frame, conn.Tears f

/-- The manager after the header of the call, with what the server's array holds. -/
def ClientCall.garbled (M : Manager σ) (conn : Conn) (mgr : σ) (c : ClientCall) : σ :=
  M.after mgr (c.frame.bind fun f => f.hdr.op (payloadArray (conn.junk 0) []))

/-- A call of which the client is told an error: it was not carried out, or it was,
or its request was torn. -/
inductive Unsure (M : Manager σ) (conn : Conn) (mgr : σ) (c : ClientCall) : σ → Prop
  | lost : Unsure M conn mgr c mgr
  | performed : Unsure M conn mgr c (c.direct M mgr).2
  | torn : c.Torn conn → Unsure M conn mgr c (c.garbled M conn mgr)

theorem Failed.unsure {c : ClientCall} {f : Frame} {left : σ} (hf : c.frame = some f)
    (h : Failed M conn mgr (c.direct M mgr).2 f left) : Unsure M conn mgr c left := by
  rcases h with rfl | rfl | ⟨htears, rfl⟩
  · exact .lost
  · exact .performed
  · have hgarbled : c.garbled M conn mgr =
        M.after mgr (f.hdr.op (payloadArray (conn.junk 0) [])) := by
      rw [ClientCall.garbled, hf]
      rfl
    rw [← hgarbled]
    exact .torn ⟨f, hf, htears⟩

/-- A call without a record over any connection. -/
theorem transact_op_faulty (M : CManager σ) (conn : Conn) {c : ClientCall} {opcode : UInt16}
    {payload : Option (List UInt8)} {payloadLen : UInt32} {requestId : UInt64} {f : Frame} {op : Op}
    (hf : c.frame = some f) (hhdr : f.hdr = reqHdr opcode payloadLen requestId)
    (hpayload : f.payload = payload.getD []) (hop : f.hdr.op f.payload = some op)
    (hne : op ≠ .fillStatus)
    (hdirect : c.direct M.toManager mgr = (M.call mgr op).map (⟨·, none⟩) id)
    {r : Transacted σ}
    (hr : ramdiskCtrlTransact M.toManager conn mgr opcode payload payloadLen none requestId = r) :
    (⟨r.rc, none⟩, r.mgr) = c.direct M.toManager mgr ∨
      r.rc < 0 ∧ Unsure M.toManager conn mgr c r.mgr := by
  have hcall := transact_faulty conn none hhdr hpayload
    (answers_of_op f.payload_length hop hne) (M.lo mgr op) (M.hi mgr op) (Nat.le_refl 0)
  rw [hr] at hcall
  rcases hcall with h | ⟨hneg, hfailed⟩
  · rw [h, hdirect]
    exact .inl rfl
  · refine .inr ⟨hneg, Failed.unsure hf ?_⟩
    rw [hdirect]
    exact hfailed

/-- The status over any connection. -/
theorem queryStatus_faulty (M : CManager σ) (conn : Conn) :
    ClientCall.queryStatus.viaSocket M.toManager conn mgr =
        ClientCall.queryStatus.direct M.toManager mgr ∨
      (ClientCall.queryStatus.viaSocket M.toManager conn mgr).1.rc < 0 ∧
        Unsure M.toManager conn mgr .queryStatus
          (ClientCall.queryStatus.viaSocket M.toManager conn mgr).2 := by
  have hlen := length_statusBytes (M.status (M.call mgr .fillStatus).2)
  have hcap : (statusBytes (M.status (M.call mgr .fillStatus).2)).length ≤
      ((some statusSize).getD 0).toNat := hlen.le
  have hans : Answers M.toManager mgr statusFrame.hdr statusFrame.payload 0 _ _ :=
    answers_queryStatus 1
  have hcall : ramdiskCtrlTransact M.toManager conn mgr queryStatus none 0 (some statusSize) 1 =
      _ ∨ _ := transact_faulty conn (some statusSize) (f := statusFrame) rfl rfl hans (by decide)
        (by decide) hcap
  rw [ClientCall.viaSocket, ramdiskCtrlQueryStatus, if_neg Bool.false_ne_true]
  dsimp only
  rcases hcall with h | ⟨hneg, hfailed⟩
  · rw [h]
    dsimp only
    rw [hlen, Nat.sub_self, List.replicate_zero, List.append_nil, loadStatus_bytes]
    exact .inl rfl
  · exact .inr ⟨hneg, Failed.unsure rfl hfailed⟩

/-- **One call over any connection**: the client has the manager's answer, or is told
an error. -/
theorem viaSocket_faulty (M : CManager σ) (conn : Conn) (mgr : σ) (c : ClientCall) :
    c.viaSocket M.toManager conn mgr = c.direct M.toManager mgr ∨
      (c.viaSocket M.toManager conn mgr).1.rc < 0 ∧
        Unsure M.toManager conn mgr c (c.viaSocket M.toManager conn mgr).2 := by
  cases c with
  | queryStatus => exact queryStatus_faulty M conn
  | enableUrma =>
      exact transact_op_faulty M conn rfl rfl rfl (op_urmaEnable 1) (by simp) rfl rfl
  | disableUrma =>
      exact transact_op_faulty M conn rfl rfl rfl (op_urmaDisable 1) (by simp) rfl rfl
  | peerConnect peer =>
      rcases peer with - | ⟨peer, reserved0⟩
      · exact .inl rfl
      · exact transact_op_faulty M conn rfl rfl rfl (op_peerConnect 1 peer reserved0) (by simp) rfl
          rfl
  | peerDisconnect peerId =>
      exact transact_op_faulty M conn rfl rfl rfl (op_peerDisconnect 1 peerId) (by simp) rfl rfl
  | urmaTransfer xfer =>
      rcases xfer with - | xfer
      · exact .inl rfl
      · exact transact_op_faulty M conn rfl rfl rfl (op_urmaTransfer xfer.requestId xfer) (by simp)
          rfl rfl

/-! ### A sequence of calls -/

/-- What a sequence of calls with the replies `rs` may have done to the manager: each
was answered by it, or is in doubt and the client knows. -/
inductive Served (M : Manager σ) : σ → List (ClientCall × Conn) → List Reply → σ → Prop
  | nil {mgr : σ} : Served M mgr [] [] mgr
  | answered {mgr left : σ} {c : ClientCall} {conn : Conn} {cs : List (ClientCall × Conn)}
      {rs : List Reply} : Served M (c.direct M mgr).2 cs rs left →
      Served M mgr ((c, conn) :: cs) ((c.direct M mgr).1 :: rs) left
  | unsure {mgr mgr' left : σ} {c : ClientCall} {conn : Conn} {cs : List (ClientCall × Conn)}
      {r : Reply} {rs : List Reply} : r.rc < 0 → Unsure M conn mgr c mgr' →
      Served M mgr' cs rs left → Served M mgr ((c, conn) :: cs) (r :: rs) left

/-- One call after the other, each over a connection of its own. -/
theorem socketSession_served (M : CManager σ) (mgr : σ) (calls : List (ClientCall × Conn)) :
    Served M.toManager mgr calls (socketSession M.toManager mgr calls).1
      (socketSession M.toManager mgr calls).2 := by
  induction calls generalizing mgr with
  | nil => exact .nil
  | cons call calls ih =>
      obtain ⟨c, conn⟩ := call
      have hrest := ih (c.viaSocket M.toManager conn mgr).2
      show Served M.toManager mgr _ ((c.viaSocket M.toManager conn mgr).1 ::
        (socketSession M.toManager (c.viaSocket M.toManager conn mgr).2 calls).1)
        (socketSession M.toManager (c.viaSocket M.toManager conn mgr).2 calls).2
      rcases viaSocket_faulty M conn mgr c with h | ⟨hneg, hunsure⟩
      · rw [h] at hrest ⊢
        exact .answered hrest
      · exact .unsure hneg hunsure hrest

/-- Without a torn request the manager has been through some of the calls, each once
and in their order. -/
theorem Served.sublist {calls : List (ClientCall × Conn)} {rs : List Reply} {left : σ}
    (h : Served M mgr calls rs left) (hwhole : ∀ c ∈ calls, ¬ c.1.Torn c.2) :
    ∃ performed : List ClientCall, performed.Sublist (calls.map Prod.fst) ∧
      left = (directSession M mgr performed).2 := by
  induction h with
  | nil => exact ⟨[], .slnil, rfl⟩
  | @answered mgr left c conn cs rs hrest ih =>
      obtain ⟨performed, hsub, hleft⟩ := ih fun c hc => hwhole c (List.mem_cons_of_mem _ hc)
      exact ⟨c :: performed, hsub.cons_cons _, hleft⟩
  | @unsure mgr mgr' left c conn cs r rs hneg hunsure hrest ih =>
      obtain ⟨performed, hsub, hleft⟩ := ih fun c hc => hwhole c (List.mem_cons_of_mem _ hc)
      cases hunsure with
      | lost => exact ⟨performed, hsub.cons _, hleft⟩
      | performed => exact ⟨c :: performed, hsub.cons_cons _, hleft⟩
      | torn htorn => exact absurd htorn (hwhole (c, conn) List.mem_cons_self)

/-- **Control calls are carried out at most once**, over connections that may fail at
any byte on either side: a reply that is not negative is the manager's own, and if no
request was torn behind its header, the manager has been through some of the calls,
each once and in their order, and through nothing else. -/
theorem socketSession_atMostOnce (M : CManager σ) (mgr : σ) (calls : List (ClientCall × Conn)) :
    Served M.toManager mgr calls (socketSession M.toManager mgr calls).1
        (socketSession M.toManager mgr calls).2 ∧
      ((∀ c ∈ calls, ¬ c.1.Torn c.2) → ∃ performed : List ClientCall,
        performed.Sublist (calls.map Prod.fst) ∧
          (socketSession M.toManager mgr calls).2 = (directSession M.toManager mgr performed).2) :=
  ⟨socketSession_served M mgr calls, (socketSession_served M mgr calls).sublist⟩

end Ctrl

end DirectStorage
