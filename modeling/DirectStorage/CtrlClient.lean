/-
DirectStorage/CtrlClient.lean

The control client's library (`userspace-nbd/src/ramdisk_ctrl_client.c`):
`ramdisk_ctrl_transact` and the six calls made of it, each over a connection
of its own with the server of `CtrlServer` on the other side.

A `Conn` is what the kernel does on one connection: how `socket` and `connect`
turn out, and in which pieces the four streams of calls are cut, the client's
and the server's `read`s and `write`s.  The client reads nothing before its
request is written and the server writes nothing before it has read a request,
so the server can be run on the bytes the client has sent, followed by the end
of the stream that `close` makes of them, and the client's `read`s be fed with
what the server has written.

`read_full` here is not the server's: the end of the stream is always
`-EPIPE`.  A pointer argument that the code compares with `NULL` is an
`Option`, and so is the pair of `resp_payload` and `resp_payload_len`, of which
only the capacity is kept: the bytes read into the buffer are returned.

Main results: `transact_reliable` gives the outcome of a whole exchange from
what the server's `handle_request` does with the request, and the round trips
(`loadConnect_store`, `loadTransfer_store`, `loadStatus_bytes`,
`loadResp_bytes`) say that client and server agree about the structures.
-/
import DirectStorage.CtrlParser

namespace DirectStorage

namespace Ctrl

/-! ### Structures of `ramdisk_ctrl.h`, stored by the client -/

/-- `sizeof` of the response and of the status record. -/
abbrev respSize : Nat := 32
abbrev statusSize : UInt32 := 48

/-- `struct ramdisk_ctrl_peer_connect_info` with its reserved word, which the
caller may have filled with anything. -/
def storeConnect (peer : PeerConnectInfo) (reserved0 : UInt32) : List UInt8 :=
  toLe 8 peer.peerId.toNat ++ (peer.eid.toList ++ (toLe 4 peer.uasid.toNat ++
    (toLe 4 reserved0.toNat ++ (toLe 8 peer.segVa.toNat ++ (toLe 8 peer.segLen.toNat ++
      (toLe 4 peer.segTokenId.toNat ++ toLe 4 peer.jettyId.toNat))))))

/-- `struct ramdisk_ctrl_peer_disconnect`. -/
def storeDisconnect (peerId : UInt64) : List UInt8 := toLe 8 peerId.toNat

/-- `struct ramdisk_ctrl_urma_transfer`. -/
def storeTransfer (xfer : UrmaTransfer) : List UInt8 :=
  toLe 8 xfer.peerId.toNat ++ (toLe 8 xfer.requestId.toNat ++ (toLe 8 xfer.localOffset.toNat ++
    (toLe 8 xfer.remoteHbmAddr.toNat ++ (toLe 4 xfer.length.toNat ++ toLe 4 xfer.direction.toNat))))

/-- `struct ramdisk_ctrl_resp`. -/
structure Resp where
  hdr : Hdr
  status : Int
  payloadLen : UInt32
  deriving DecidableEq

/-- The response as the client finds it in memory: `status` is an `int32_t`. -/
def loadResp (bs : List UInt8) : Resp where
  hdr := loadHdr bs
  status := Int.bmod (ofLe (field bs 24 4)) (2 ^ 32)
  payloadLen := UInt32.ofNat (ofLe (field bs 28 4))

/-- `struct ramdisk_ctrl_status` in the caller's memory. -/
def loadStatus (bs : List UInt8) : CtrlStatus where
  size := UInt64.ofNat (ofLe (field bs 0 8))
  blockSize := UInt32.ofNat (ofLe (field bs 8 4))
  urmaEnabled := UInt32.ofNat (ofLe (field bs 12 4))
  peerCount := UInt32.ofNat (ofLe (field bs 16 4))
  queueDepth := UInt32.ofNat (ofLe (field bs 20 4))
  inflight := UInt32.ofNat (ofLe (field bs 24 4))
  pending := UInt32.ofNat (ofLe (field bs 28 4))
  completed := UInt64.ofNat (ofLe (field bs 32 8))
  failed := UInt64.ofNat (ofLe (field bs 40 8))

/-! ### The client -/

/-- One connection: what `socket`, `connect`, `read` and `write` do on both
sides, and what the server's array `payload` holds in each pass. -/
structure Conn where
  pathNull : Bool
  socketErr : Option Errno
  connectErr : Option Errno
  clientWrite : List IoEvent
  serverRead : List IoEvent
  serverWrite : List IoEvent
  clientRead : List IoEvent
  junk : Nat → ByteMem

/-- `connect_sock`: an error, or a descriptor. -/
def Conn.connectSock (conn : Conn) : Except Int Unit :=
  if conn.pathNull then .error (-EINVAL)
  else
    match conn.socketErr, conn.connectErr with
    | some e, _ => .error (-e.code)
    | none, some e => .error (-e.code)
    | none, none => .ok ()

/-- The client's `read_full`. -/
def clientReadFull (src : Source UInt8) (len : Nat) : Int × List UInt8 × Source UInt8 :=
  match readLoop isEintr src len with
  | (got, .full, src') => (len, got, src')
  | (got, .eof, src') => (-EPIPE, got, src')
  | (got, .failed e, src') => (-e.code, got, src')

variable {σ : Type*}

/-- `serve_client` on the connection, once the client has written `sent`. -/
def Conn.serve (M : Manager σ) (conn : Conn) (mgr : σ) (sent : List UInt8) : Server σ :=
  serveClient M conn.junk
    (Server.start mgr ⟨sent, conn.serverRead⟩ ⟨[], conn.serverWrite⟩)

/-- The value `ramdisk_ctrl_transact` returns, the bytes it has put into
`resp_payload`, and the manager on the other side. -/
structure Transacted (σ : Type*) where
  rc : Int
  data : List UInt8
  mgr : σ

/-- From the response on: `recv` is the stream of bytes from the server. -/
def receive (recv : Source UInt8) (respPayloadLen : Option UInt32) : Int × List UInt8 :=
  let (rc, bs, recv) := clientReadFull recv respSize
  if rc < 0 then (rc, [])
  else
    let resp := loadResp bs
    if resp.hdr.magic ≠ ctrlMagic ∨ resp.hdr.version ≠ ctrlVersion then (-EPROTO, [])
    else if resp.payloadLen ≠ 0 then
      match respPayloadLen with
      | none => (-ENOSPC, [])
      | some cap =>
          if cap < resp.payloadLen then (-ENOSPC, [])
          else
            let (rc, data, _) := clientReadFull recv resp.payloadLen.toNat
            if rc < 0 then (rc, data) else (resp.status, data)
    else (resp.status, [])

/-- The header of a request. -/
def reqHdr (opcode : UInt16) (payloadLen : UInt32) (requestId : UInt64) : Hdr :=
  ⟨ctrlMagic, ctrlVersion, opcode, payloadLen, 0, requestId⟩

/-- Up to the response: the header is written, and the payload if there is one. -/
def sendRequest (snk : Sink UInt8) (hdr : Hdr) (payload : List UInt8) : Int × Sink UInt8 :=
  let (rc, snk) := writeFull snk hdr.bytes
  if rc < 0 then (rc, snk)
  else if hdr.payloadLen ≠ 0 then writeFull snk (payload.take hdr.payloadLen.toNat)
  else (rc, snk)

/-- `ramdisk_ctrl_transact`.  After a failed `write` the connection is closed,
and the server has what was sent before. -/
def ramdiskCtrlTransact (M : Manager σ) (conn : Conn) (mgr : σ) (opcode : UInt16)
    (payload : Option (List UInt8)) (payloadLen : UInt32) (respPayloadLen : Option UInt32)
    (requestId : UInt64) : Transacted σ :=
  if payloadLen ≠ 0 ∧ payload = none then ⟨-EINVAL, [], mgr⟩
  else
    match conn.connectSock with
    | .error rc => ⟨rc, [], mgr⟩
    | .ok () =>
        let (rc, snk) := sendRequest ⟨[], conn.clientWrite⟩ (reqHdr opcode payloadLen requestId)
          (payload.getD [])
        let server := conn.serve M mgr snk.out
        if rc < 0 then ⟨rc, [], server.mgr⟩
        else
          let (rc, data) := receive ⟨server.snk.out, conn.clientRead⟩ respPayloadLen
          ⟨rc, data, server.mgr⟩

/-- `ramdisk_ctrl_query_status`: the value returned and the record, which was
cleared before. -/
def ramdiskCtrlQueryStatus (M : Manager σ) (conn : Conn) (mgr : σ) (statusNull : Bool) :
    Int × Option CtrlStatus × σ :=
  if statusNull then (-EINVAL, none, mgr)
  else
    let r := ramdiskCtrlTransact M conn mgr queryStatus none 0 (some statusSize) 1
    (r.rc, some (loadStatus (r.data ++ List.replicate (statusSize.toNat - r.data.length) 0)), r.mgr)

def ramdiskCtrlEnableUrma (M : Manager σ) (conn : Conn) (mgr : σ) : Int × σ :=
  let r := ramdiskCtrlTransact M conn mgr urmaEnable none 0 none 1
  (r.rc, r.mgr)

def ramdiskCtrlDisableUrma (M : Manager σ) (conn : Conn) (mgr : σ) : Int × σ :=
  let r := ramdiskCtrlTransact M conn mgr urmaDisable none 0 none 1
  (r.rc, r.mgr)

/-- `ramdisk_ctrl_peer_connect`; the argument is the structure and its
reserved word. -/
def ramdiskCtrlPeerConnect (M : Manager σ) (conn : Conn) (mgr : σ) :
    Option (PeerConnectInfo × UInt32) → Int × σ
  | none => (-EINVAL, mgr)
  | some (peer, reserved0) =>
      let r := ramdiskCtrlTransact M conn mgr peerConnect (some (storeConnect peer reserved0))
        connectSize none 1
      (r.rc, r.mgr)

def ramdiskCtrlPeerDisconnect (M : Manager σ) (conn : Conn) (mgr : σ) (peerId : UInt64) :
    Int × σ :=
  let r := ramdiskCtrlTransact M conn mgr peerDisconnect (some (storeDisconnect peerId))
    disconnectSize none 1
  (r.rc, r.mgr)

def ramdiskCtrlUrmaTransfer (M : Manager σ) (conn : Conn) (mgr : σ) :
    Option UrmaTransfer → Int × σ
  | none => (-EINVAL, mgr)
  | some xfer =>
      let r := ramdiskCtrlTransact M conn mgr urmaTransfer (some (storeTransfer xfer))
        transferSize none xfer.requestId
      (r.rc, r.mgr)

/-! ### Client and server agree about the structures -/

theorem length_storeConnect (peer : PeerConnectInfo) (reserved0 : UInt32) :
    (storeConnect peer reserved0).length = connectSize.toNat := by
  simp only [storeConnect, List.length_append, length_toLe, Vector.length_toList]
  rfl

theorem length_storeDisconnect (peerId : UInt64) :
    (storeDisconnect peerId).length = disconnectSize.toNat := length_toLe _ _

theorem length_storeTransfer (xfer : UrmaTransfer) :
    (storeTransfer xfer).length = transferSize.toNat := by
  simp only [storeTransfer, List.length_append, length_toLe]
  rfl

theorem length_statusBytes (status : CtrlStatus) :
    (statusBytes status).length = statusSize.toNat := by
  simp only [statusBytes, List.length_append, length_toLe]
  rfl

theorem length_respBytes (req : Hdr) (status : Int) (payloadLen : Nat) :
    (respBytes req status payloadLen).length = respSize := by
  simp [respBytes, length_hdr_bytes]

/-- The reserved word does not reach the manager. -/
theorem loadConnect_store (peer : PeerConnectInfo) (reserved0 : UInt32) :
    loadConnect (storeConnect peer reserved0) = peer := by
  have heid : field (storeConnect peer reserved0) 8 16 = peer.eid.toList := by
    simp [storeConnect, field_append_left, field_append_right]
  have hvec : (Vector.ofFn fun i : Fin 16 => peer.eid.toList.getD i 0) = peer.eid := by
    ext i hi
    simp
  rw [loadConnect, heid, hvec]
  simp [storeConnect, field_append_left, field_append_right, field_self, ofNat_ofLe_toLe32,
    ofNat_ofLe_toLe64]

theorem loadDisconnect_store (peerId : UInt64) :
    loadDisconnect (storeDisconnect peerId) = peerId := by
  rw [loadDisconnect, storeDisconnect, field_self (length_toLe _ _), ofNat_ofLe_toLe64]

theorem loadTransfer_store (xfer : UrmaTransfer) : loadTransfer (storeTransfer xfer) = xfer := by
  simp [loadTransfer, storeTransfer, field_append_left, field_append_right, field_self,
    ofNat_ofLe_toLe32, ofNat_ofLe_toLe64]

theorem loadStatus_bytes (status : CtrlStatus) : loadStatus (statusBytes status) = status := by
  simp [loadStatus, statusBytes, field_append_left, field_append_right, field_self,
    ofNat_ofLe_toLe32, ofNat_ofLe_toLe64]

/-- A C `int` survives being stored as an `int32_t`. -/
theorem bmod_toNat_emod {rc : Int} (hlo : -2 ^ 31 ≤ rc) (hhi : rc < 2 ^ 31) :
    Int.bmod ((rc % 2 ^ 32).toNat : Int) (2 ^ 32) = rc := by
  rw [Int.toNat_of_nonneg (Int.emod_nonneg _ (by decide))]
  rw [show (2 ^ 32 : Int) = ((2 ^ 32 : Nat) : Int) from rfl, Int.emod_bmod]
  exact Int.bmod_eq_of_le (by omega) (by omega)

/-- The header of a response. -/
def respHdr (req : Hdr) (payloadLen : Nat) : Hdr :=
  ⟨ctrlMagic, ctrlVersion, req.opcode, UInt32.ofNat (8 + payloadLen), 0, req.requestId⟩

/-- The client finds in the response what the server has put into it. -/
theorem loadResp_bytes {status : Int} {payloadLen : Nat} (req : Hdr)
    (hlo : -2 ^ 31 ≤ status) (hhi : status < 2 ^ 31) (hlen : payloadLen < 2 ^ 32) :
    loadResp (respBytes req status payloadLen) =
      ⟨respHdr req payloadLen, status, UInt32.ofNat payloadLen⟩ := by
  have hstatus : field (respBytes req status payloadLen) 24 4 = toLe 4 (status % 2 ^ 32).toNat := by
    rw [respBytes, field_append_right (length_hdr_bytes _).le, length_hdr_bytes]
    exact field_append_left (length_toLe _ _)
  have hpayload : field (respBytes req status payloadLen) 28 4 = toLe 4 payloadLen := by
    rw [respBytes, field_append_right (by rw [length_hdr_bytes]; decide), length_hdr_bytes,
      field_append_right (by rw [length_toLe]; decide), length_toLe]
    exact field_self (length_toLe _ _)
  have hfit : (status % 2 ^ 32).toNat < 256 ^ 4 := by omega
  rw [loadResp, hstatus, hpayload, ofLe_toLe_of_lt hfit, ofLe_toLe_of_lt hlen,
    bmod_toNat_emod hlo hhi, respBytes, loadHdr_bytes, respHdr]

/-! ### A reliable connection -/

/-- **A reliable connection**: it comes about, and neither side sees an error
other than `EINTR`, in whatever pieces the bytes are moved. -/
structure Conn.Reliable (conn : Conn) : Prop where
  path : conn.pathNull = false
  socket : conn.socketErr = none
  connect : conn.connectErr = none
  clientWrite : Quiet isEintr conn.clientWrite
  serverRead : Quiet isEintr conn.serverRead
  serverWrite : Quiet isEintr conn.serverWrite
  clientRead : Quiet isEintr conn.clientRead

variable {M : Manager σ} {conn : Conn} {mgr mgr' : σ}

theorem Conn.Reliable.connectSock (h : conn.Reliable) : conn.connectSock = .ok () := by
  simp [Conn.connectSock, h.path, h.socket, h.connect]

/-- What is there is read whole. -/
theorem clientReadFull_calm {src : Source UInt8} {bs rest : List UInt8} (h : src.Calm)
    (hdata : src.data = bs ++ rest) :
    ∃ src' : Source UInt8, src'.Calm ∧ src'.data = rest ∧
      clientReadFull src bs.length = ((bs.length : Int), bs, src') := by
  obtain ⟨sched, hsched, heq⟩ := readLoop_quiet bs.length h
  have hfit : bs.length ≤ src.data.length := by
    rw [hdata, List.length_append]
    exact Nat.le_add_right _ _
  rw [if_pos hfit, hdata, List.take_left, List.drop_left] at heq
  exact ⟨⟨rest, sched⟩, hsched, rfl, by rw [clientReadFull, heq]⟩

/-- **The client's half**: a response that is there is taken for what it says,
if its payload fits. -/
theorem receive_calm {src : Source UInt8} {req : Hdr} {status : Int} {data : List UInt8}
    {cap : Option UInt32} (h : src.Calm)
    (hdata : src.data = respBytes req status data.length ++ data)
    (hlo : -2 ^ 31 ≤ status) (hhi : status < 2 ^ 31) (hcap : data.length ≤ (cap.getD 0).toNat) :
    receive src cap = (status, data) := by
  have hlen : data.length < 2 ^ 32 := Nat.lt_of_le_of_lt hcap (cap.getD 0).toNat_lt
  obtain ⟨src₁, hcalm₁, hdata₁, hread₁⟩ := clientReadFull_calm h hdata
  rw [length_respBytes] at hread₁
  have hsmall : (UInt32.ofNat data.length).toNat = data.length := UInt32.toNat_ofNat_of_lt' hlen
  rw [receive, hread₁]
  dsimp only
  rw [if_neg (by decide), loadResp_bytes req hlo hhi hlen]
  dsimp only
  rw [if_neg (by simp [respHdr])]
  by_cases hnil : data = []
  · rw [if_neg (by simp [hnil]), hnil]
  · have hne : UInt32.ofNat data.length ≠ 0 := by
      intro h0
      rw [h0] at hsmall
      exact hnil (List.eq_nil_of_length_eq_zero hsmall.symm)
    obtain ⟨src₂, -, -, hread₂⟩ := clientReadFull_calm hcalm₁
      (hdata₁.trans (List.append_nil data).symm)
    rw [if_pos hne]
    cases cap with
    | none => exact absurd (List.eq_nil_of_length_eq_zero (Nat.le_zero.mp hcap)) hnil
    | some cap =>
        have hroom : ¬cap < UInt32.ofNat data.length := by
          rw [UInt32.lt_iff_toNat_lt, hsmall]
          exact Nat.not_lt.mpr hcap
        dsimp only
        rw [if_neg hroom, hsmall, hread₂]
        dsimp only
        rw [if_neg (by omega)]

/-- What the server does with a request whose payload is `payload`: it answers
with `status` and `data`, and leaves the manager in state `mgr'`. -/
def Answers (M : Manager σ) (mgr : σ) (hdr : Hdr) (payload : List UInt8) (status : Int)
    (data : List UInt8) (mgr' : σ) : Prop :=
  ∀ (s : Server σ) (rest : List UInt8), s.mgr = mgr →
    ∃ s', handleRequest M s hdr (payload ++ rest) = respond s' hdr status data ∧
      s'.mgr = mgr' ∧ SameIo s s'

/-- **The server's half**: on a stream that is one frame, it answers the frame's
request and nothing else. -/
theorem Conn.Reliable.serve (h : conn.Reliable) {f : Frame} {status : Int} {data : List UInt8}
    (hans : Answers M mgr f.hdr f.payload status data mgr') :
    (conn.serve M mgr f.encode).mgr = mgr' ∧
      (conn.serve M mgr f.encode).snk.out = respBytes f.hdr status data.length ++ data := by
  obtain ⟨src, hsrc, hend, hnext⟩ : ∃ src : Source UInt8, src.Calm ∧ src.data = [] ∧
      serveFrame M conn.junk
        (Server.start mgr ⟨f.encode, conn.serverRead⟩ ⟨[], conn.serverWrite⟩) = _ :=
    serveFrame_handles h.serverRead h.serverWrite (List.append_nil f.encode).symm
  obtain ⟨s', heq, hmgr, hio⟩ := hans ⟨mgr, src, ⟨[], conn.serverWrite⟩, [], 1⟩
    ((conn.junk 0).load f.payload.length (ctrlMaxPayload.toNat - f.payload.length)) rfl
  have hcalm : s'.snk.Calm := hio.snk ▸ h.serverWrite
  obtain ⟨rc, snk, -, -, hout, hresp⟩ := respond_sent hcalm f.hdr status data
  -- the second pass finds the stream at its end
  obtain ⟨src', hstop⟩ : ∃ src', serveClient M conn.junk { s' with snk := snk } = _ :=
    serveClient_short (hio.src ▸ hsrc) (by rw [show s'.src = src from hio.src, hend]; decide)
  have hserve : conn.serve M mgr f.encode = { s' with snk := snk, src := src' } := by
    rw [Conn.serve, serveClient_next hnext]
    show serveClient M conn.junk (handleRequest M ⟨mgr, src, ⟨[], conn.serverWrite⟩, [], 1⟩ f.hdr
      (f.payload ++ (conn.junk 0).load f.payload.length _)).2 = _
    rw [heq, hresp, hstop]
  rw [hserve]
  refine ⟨hmgr, hout.trans ?_⟩
  rw [show s'.snk = ⟨[], conn.serverWrite⟩ from hio.snk]
  rfl

/-- Of a request some beginning is sent, and all of it if no `write` has failed. -/
theorem sendRequest_prefix (snk : Sink UInt8) {hdr : Hdr} {payload : List UInt8}
    (hlen : payload.length = hdr.payloadLen.toNat) :
    ∃ sent, sent <+: hdr.bytes ++ payload ∧ (sendRequest snk hdr payload).2.out = snk.out ++ sent ∧
      (0 ≤ (sendRequest snk hdr payload).1 → sent = hdr.bytes ++ payload) := by
  unfold sendRequest
  rcases writeFull_cases snk hdr.bytes with ⟨hneg, sent, hsent, hout⟩ | ⟨hrc, hout⟩
  · dsimp only
    rw [if_pos hneg]
    exact ⟨sent, hsent.trans (List.prefix_append _ _), hout, fun h => absurd h (by omega)⟩
  dsimp only
  rw [if_neg (by omega), List.take_of_length_le hlen.le]
  by_cases h0 : hdr.payloadLen = 0
  · have hnil : payload = [] := List.eq_nil_of_length_eq_zero (by rw [hlen, h0]; rfl)
    rw [if_neg (not_not.mpr h0), hnil, List.append_nil]
    exact ⟨_, List.prefix_rfl, hout, fun _ => rfl⟩
  rw [if_pos h0]
  rcases writeFull_cases (writeFull snk hdr.bytes).2 payload with
    ⟨hneg, sent, hsent, hout'⟩ | ⟨-, hout'⟩
  · refine ⟨hdr.bytes ++ sent, (List.prefix_append_right_inj _).mpr hsent, ?_, ?_⟩
    · rw [hout', hout, List.append_assoc]
    · exact fun h => absurd h (by omega)
  · refine ⟨hdr.bytes ++ payload, List.prefix_rfl, ?_, fun _ => rfl⟩
    rw [hout', hout, List.append_assoc]

/-- A request is sent whole. -/
theorem sendRequest_calm {snk : Sink UInt8} (h : snk.Calm) {hdr : Hdr} {payload : List UInt8}
    (hlen : payload.length = hdr.payloadLen.toNat) :
    ∃ (rc : Int) (snk' : Sink UInt8), 0 ≤ rc ∧ snk'.out = snk.out ++ (hdr.bytes ++ payload) ∧
      sendRequest snk hdr payload = (rc, snk') := by
  obtain ⟨snk₁, hcalm₁, hout₁, hw₁⟩ := writeFull_calm hdr.bytes h
  obtain ⟨snk₂, -, hout₂, hw₂⟩ := writeFull_calm payload hcalm₁
  rw [sendRequest, hw₁]
  dsimp only
  rw [if_neg (by omega), List.take_of_length_le hlen.le]
  by_cases h0 : hdr.payloadLen = 0
  · have hnil : payload = [] := List.eq_nil_of_length_eq_zero (by rw [hlen, h0]; rfl)
    refine ⟨hdr.bytes.length, snk₁, Int.natCast_nonneg _, ?_, if_neg (not_not.mpr h0)⟩
    rw [hout₁, hnil, List.append_nil]
  · refine ⟨payload.length, snk₂, Int.natCast_nonneg _, ?_, ?_⟩
    · rw [hout₂, hout₁, List.append_assoc]
    · rw [if_pos h0, hw₂]

/-- **A whole exchange** over a reliable connection: the client returns what the
server has answered. -/
theorem transact_reliable (h : conn.Reliable) {opcode : UInt16} {payload : Option (List UInt8)}
    {payloadLen : UInt32} {cap : Option UInt32} {requestId : UInt64} {status : Int}
    {data : List UInt8} (hlen : (payload.getD []).length = payloadLen.toNat)
    (hmax : payloadLen ≤ ctrlMaxPayload)
    (hans : Answers M mgr (reqHdr opcode payloadLen requestId) (payload.getD []) status data mgr')
    (hlo : -2 ^ 31 ≤ status) (hhi : status < 2 ^ 31) (hcap : data.length ≤ (cap.getD 0).toNat) :
    ramdiskCtrlTransact M conn mgr opcode payload payloadLen cap requestId =
      ⟨status, data, mgr'⟩ := by
  have hnull : ¬(payloadLen ≠ 0 ∧ payload = none) := by
    rintro ⟨hne, rfl⟩
    exact hne (UInt32.toNat_inj.mp hlen.symm)
  have hcalm : Sink.Calm ⟨[], conn.clientWrite⟩ := h.clientWrite
  obtain ⟨rc, snk, hrc, hout, hsend⟩ := sendRequest_calm hcalm
    (show _ = (reqHdr opcode payloadLen requestId).payloadLen.toNat from hlen)
  -- what was sent is one frame
  let f : Frame := ⟨reqHdr opcode payloadLen requestId, payload.getD [], ⟨rfl, rfl, hmax⟩, hlen⟩
  have hframe : snk.out = f.encode := hout
  obtain ⟨hmgr, hresp⟩ := h.serve (f := f) hans
  have hrecv : receive ⟨(conn.serve M mgr f.encode).snk.out, conn.clientRead⟩ cap =
      (status, data) := receive_calm h.clientRead hresp hlo hhi hcap
  rw [ramdiskCtrlTransact, if_neg hnull, h.connectSock]
  dsimp only
  rw [hsend]
  dsimp only
  rw [if_neg (Int.not_lt.mpr hrc), hframe, hrecv, hmgr]

end Ctrl

end DirectStorage
