/-
DirectStorage/Nbd.lean

The NBD server loop `serve_nbd` (`userspace-nbd/src/nbd_ramdisk.c`) with its
helpers `ntohll_u64`, `nbd_error_from_rc` and `send_reply`, on a little-endian
host.

The two directions of `app_sock` are a `Source` and a `Sink`.  The receive
buffer is kept as its content: its length is `buf_cap`, and the empty list is
the `NULL` of a server that has not allocated yet, because `realloc` is only
called for more bytes than there are.  What `realloc` does is an argument:
its `k`-th call fails or returns a block whose new bytes hold anything.  The
signal flag `g_stop` stays clear and log lines are left out.

Main results: `serveNbd` is total, because every pass through the loop that
goes on has taken a header off the stream (`serveOnce_length_lt`).
-/
import DirectStorage.FullIo
import DirectStorage.Loop
import DirectStorage.Wire

namespace DirectStorage

/-! ### Constants and messages of `nbd_protocol.h` -/

abbrev nbdRequestMagic : UInt32 := 0x25609513
abbrev nbdReplyMagic : UInt32 := 0x67446698
abbrev nbdCmdRead : UInt32 := 0
abbrev nbdCmdWrite : UInt32 := 1
abbrev nbdCmdDisc : UInt32 := 2
abbrev nbdCmdFlush : UInt32 := 3
abbrev nbdCmdTrim : UInt32 := 4

/-- `sizeof(struct ramdisk_nbd_request)`, a packed structure. -/
abbrev nbdRequestSize : Nat := 28

/-- `struct ramdisk_nbd_request`. -/
structure NbdHeader where
  magic : UInt32
  type : UInt32
  handle : List UInt8
  from_ : UInt64
  len : UInt32
  deriving DecidableEq, Repr

/-- The structure as the host loads it from the bytes that were received. -/
def loadRequest (bs : List UInt8) : NbdHeader where
  magic := UInt32.ofNat (ofLe (field bs 0 4))
  type := UInt32.ofNat (ofLe (field bs 4 4))
  handle := field bs 8 8
  from_ := UInt64.ofNat (ofLe (field bs 16 8))
  len := UInt32.ofNat (ofLe (field bs 24 4))

def ntohllU64 (value : UInt64) : UInt64 :=
  let high := ntohl (value >>> 32).toUInt32
  let low := ntohl (value &&& 0xffffffff).toUInt32
  (low.toUInt64 <<< 32) ||| high.toUInt64

/-- The conversions at the start of the loop body; the handle stays as it is. -/
def NbdHeader.ntoh (req : NbdHeader) : NbdHeader where
  magic := ntohl req.magic
  type := ntohl req.type
  handle := req.handle
  from_ := ntohllU64 req.from_
  len := ntohl req.len

def nbdErrorFromRc (rc : Int) : UInt32 :=
  if rc = 0 then 0 else ntohl (UInt32.ofNat rc.natAbs)

/-- The sixteen bytes of `struct ramdisk_nbd_reply` as `send_reply` fills it. -/
def replyBytes (handle : List UInt8) (rc : Int) : List UInt8 :=
  toLe 4 (ntohl nbdReplyMagic).toNat ++ (toLe 4 (nbdErrorFromRc rc).toNat ++ handle)

def sendReply (snk : Sink UInt8) (handle : List UInt8) (rc : Int) : Int × Sink UInt8 :=
  writeFull snk (replyBytes handle rc)

/-! ### The server -/

/-- What `serve_nbd` works on.  `overflow` records that bytes were received
beyond the end of the buffer. -/
structure NbdServer where
  backend : Backend
  src : Source UInt8
  snk : Sink UInt8
  buf : List UInt8
  reallocs : Nat
  overflow : Bool

/-- `serve_nbd` on entry. -/
def NbdServer.start (backend : Backend) (src : Source UInt8) (snk : Sink UInt8) : NbdServer :=
  ⟨backend, src, snk, [], 0, false⟩

/-- What the `k`-th call of `realloc` does: return `NULL`, or a block that
holds `m` where the old one had no bytes. -/
abbrev Realloc := Nat → Option ByteMem

/-- Put `bytes` at the start of the buffer. -/
def NbdServer.fillBuf (st : NbdServer) (bytes : List UInt8) : NbdServer :=
  { st with buf := (bytes ++ st.buf.drop bytes.length).take st.buf.length }

/-- `if (len > buf_cap) ...`: the `rc` afterwards and the server. -/
def growBuf (env : Realloc) (st : NbdServer) (len : UInt32) : Int × NbdServer :=
  if len.toNat > st.buf.length then
    match env st.reallocs with
    | none => (-ENOMEM, { st with reallocs := st.reallocs + 1 })
    | some m =>
        (0, { st with reallocs := st.reallocs + 1,
                      buf := st.buf ++ m.load st.buf.length (len.toNat - st.buf.length) })
  else (0, st)

/-- `if (send_reply(...) < 0) goto out; break;` -/
def answer (st : NbdServer) (handle : List UInt8) (rc : Int) : Flow NbdServer :=
  let (n, snk) := sendReply st.snk handle rc
  if n < 0 then .out { st with snk := snk } else .next { st with snk := snk }

/-- `read_full(ctx->app_sock, buf, len)`.  Reading into `NULL` fails as soon
as there is a byte to store. -/
def recvPayload (st : NbdServer) (len : UInt32) : Int × NbdServer :=
  let (n, got, src) := readFull st.src len.toNat
  let st := { st with src := src }
  if st.buf = [] ∧ got ≠ [] then (-EFAULT, st)
  else (n, { st.fillBuf got with overflow := st.overflow || st.buf.length < got.length })

/-- `case RAMDISK_NBD_CMD_READ`. -/
def nbdRead (st : NbdServer) (handle : List UInt8) (from_ : UInt64) (len : UInt32)
    (rc : Int) : Flow NbdServer :=
  let (rc, data) :=
    if rc = 0 then ramdiskBackendRead st.backend from_ st.buf.isEmpty len else (rc, [])
  let st := st.fillBuf data
  match answer st handle rc with
  | .out st => .out st
  | .next st =>
      if rc = 0 then
        let (n, snk) := writeFull st.snk (st.buf.take len.toNat)
        if n < 0 then .out { st with snk := snk } else .next { st with snk := snk }
      else .next st

/-- `case RAMDISK_NBD_CMD_WRITE`. -/
def nbdWrite (st : NbdServer) (handle : List UInt8) (from_ : UInt64) (len : UInt32)
    (rc : Int) : Flow NbdServer :=
  let (n, st) := recvPayload st len
  if n < 0 then .out st
  else
    let (rc, backend) :=
      if rc = 0 then ramdiskBackendWrite st.backend from_ st.buf.isEmpty st.buf len
      else (rc, st.backend)
    answer { st with backend := backend } handle rc

/-- `case RAMDISK_NBD_CMD_TRIM`. -/
def nbdTrim (st : NbdServer) (handle : List UInt8) (from_ : UInt64) (len : UInt32) :
    Flow NbdServer :=
  let (rc, backend) := ramdiskBackendZero st.backend from_ len
  answer { st with backend := backend } handle rc

/-- `case RAMDISK_NBD_CMD_DISC`: the result of `send_reply` is ignored. -/
def nbdDisc (st : NbdServer) (handle : List UInt8) : Flow NbdServer :=
  .out { st with snk := (sendReply st.snk handle 0).2 }

/-- The loop body after the conversions. -/
def serveRequest (env : Realloc) (st : NbdServer) (req : NbdHeader) : Flow NbdServer :=
  if req.magic ≠ nbdRequestMagic then .out st
  else
    let (rc, st) := growBuf env st req.len
    if req.type = nbdCmdRead then nbdRead st req.handle req.from_ req.len rc
    else if req.type = nbdCmdWrite then nbdWrite st req.handle req.from_ req.len rc
    else if req.type = nbdCmdFlush then answer st req.handle 0
    else if req.type = nbdCmdTrim then nbdTrim st req.handle req.from_ req.len
    else if req.type = nbdCmdDisc then nbdDisc st req.handle
    -- the payload of a WRITE is not read here: its type has a case of its own
    else answer st req.handle (- EIO)

/-- One pass through the loop. -/
def serveOnce (env : Realloc) (st : NbdServer) : Flow NbdServer :=
  let (n, hdr, src) := readFull st.src nbdRequestSize
  let st := { st with src := src }
  if n = 0 then .out st
  else if n < 0 then .out st
  else serveRequest env st (loadRequest hdr).ntoh

/-! ### Every pass takes a header off the stream -/

theorem growBuf_src (env : Realloc) (st : NbdServer) (len : UInt32) :
    (growBuf env st len).2.src = st.src := by
  unfold growBuf
  split_ifs
  · rcases env st.reallocs with - | m <;> rfl
  · rfl

theorem answer_src (st : NbdServer) (handle : List UInt8) (rc : Int) :
    (answer st handle rc).state.src = st.src := by
  simp only [answer]
  split_ifs <;> rfl

theorem nbdRead_src (st : NbdServer) (handle : List UInt8) (from_ : UInt64) (len : UInt32)
    (rc : Int) : (nbdRead st handle from_ len rc).state.src = st.src := by
  unfold nbdRead
  generalize (if rc = 0 then ramdiskBackendRead st.backend from_ st.buf.isEmpty len
    else (rc, [])) = r
  obtain ⟨rc', data⟩ := r
  have hsrc := answer_src (st.fillBuf data) handle rc'
  dsimp only
  rcases e : answer (st.fillBuf data) handle rc' with st' | st' <;> rw [e] at hsrc
  · dsimp only
    split_ifs <;> exact hsrc
  · exact hsrc

theorem recvPayload_length_le (st : NbdServer) (len : UInt32) :
    (recvPayload st len).2.src.data.length ≤ st.src.data.length := by
  have hle := readFull_length_le st.src len.toNat
  simp only [recvPayload]
  split_ifs <;> exact hle

theorem nbdWrite_length_le (st : NbdServer) (handle : List UInt8) (from_ : UInt64)
    (len : UInt32) (rc : Int) :
    (nbdWrite st handle from_ len rc).state.src.data.length ≤ st.src.data.length := by
  have hle := recvPayload_length_le st len
  simp only [nbdWrite]
  split_ifs
  · exact hle
  all_goals
    rw [answer_src]
    exact hle

theorem serveRequest_length_le (env : Realloc) (st : NbdServer) (req : NbdHeader) :
    (serveRequest env st req).state.src.data.length ≤ st.src.data.length := by
  have hgrow := growBuf_src env st req.len
  simp only [serveRequest]
  split_ifs
  · exact Nat.le_refl _
  · rw [nbdRead_src, hgrow]
  · rw [← hgrow]
    exact nbdWrite_length_le _ _ _ _ _
  · rw [answer_src, hgrow]
  · rw [nbdTrim, answer_src, ← hgrow]
  · rw [← hgrow]
    exact Nat.le_refl _
  · rw [answer_src, hgrow]

/-- **Every pass that goes on has taken a header off the stream.** -/
theorem serveOnce_length_lt {env : Realloc} {st st' : NbdServer}
    (h : serveOnce env st = .next st') : st'.src.data.length < st.src.data.length := by
  simp only [serveOnce] at h
  split_ifs at h with h0 hneg
  have hhdr : (readFull st.src nbdRequestSize).2.1.length = nbdRequestSize :=
    readFull_pos (by omega)
  have hsrc := readFull_conserves st.src nbdRequestSize
  have hle := serveRequest_length_le env { st with src := (readFull st.src nbdRequestSize).2.2 }
    (loadRequest (readFull st.src nbdRequestSize).2.1).ntoh
  rw [h] at hle
  calc st'.src.data.length ≤ (readFull st.src nbdRequestSize).2.2.data.length := hle
    _ < st.src.data.length := by
      rw [← hsrc, List.length_append, hhdr]
      exact Nat.lt_add_of_pos_left (by decide)

/-- `serve_nbd`: the server when the loop has been left. -/
def serveNbd (env : Realloc) : NbdServer → NbdServer :=
  runLoop (serveOnce env) (fun st => st.src.data.length) serveOnce_length_lt

theorem serveNbd_next {env : Realloc} {st st' : NbdServer} (h : serveOnce env st = .next st') :
    serveNbd env st = serveNbd env st' :=
  runLoop_next h

theorem serveNbd_out {env : Realloc} {st st' : NbdServer} (h : serveOnce env st = .out st') :
    serveNbd env st = st' :=
  runLoop_out h

end DirectStorage
