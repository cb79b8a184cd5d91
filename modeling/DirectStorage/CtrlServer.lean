/-
DirectStorage/CtrlServer.lean

The control server's side of one connection: `serve_client`, `handle_request`
and `send_response` (`userspace-nbd/src/ramdisk_ctrl_server.c`), with the
structures of `ramdisk_ctrl.h` as a little-endian host with natural alignment
lays them out.

The manager is left abstract: a state, and for each operation a return code
and a new state.  The operations that were called, with their arguments, are
recorded in the order of the calls.  The array `payload` is a local of the
loop body that is never cleared, so what it holds before a read is an
argument, one content for each pass.  Log lines are left out.

Main results: `serveClient` is total (`serveFrame_length_lt`), and
`handleRequest_ops` says which operation a request performs.
-/
import DirectStorage.FullIo
import DirectStorage.Loop
import DirectStorage.Wire
import DirectStorage.CtrlTypes

namespace DirectStorage

namespace Ctrl

/-! ### Structures of `ramdisk_ctrl.h` in memory -/

abbrev ctrlMagic : UInt32 := 0x52444354
abbrev ctrlVersion : UInt16 := 1
abbrev ctrlMaxPayload : UInt32 := 4096

abbrev queryStatus : UInt16 := 1
abbrev urmaEnable : UInt16 := 2
abbrev urmaDisable : UInt16 := 3
abbrev peerConnect : UInt16 := 4
abbrev peerDisconnect : UInt16 := 5
abbrev urmaTransfer : UInt16 := 6

/-- `sizeof(struct ramdisk_ctrl_hdr)`. -/
abbrev hdrSize : Nat := 24

/-- `sizeof` of the connect, disconnect and transfer arguments. -/
abbrev connectSize : UInt32 := 56
abbrev disconnectSize : UInt32 := 8
abbrev transferSize : UInt32 := 40

/-- `struct ramdisk_ctrl_hdr`. -/
structure Hdr where
  magic : UInt32
  version : UInt16
  opcode : UInt16
  payloadLen : UInt32
  flags : UInt32
  requestId : UInt64
  deriving DecidableEq, Repr

def loadHdr (bs : List UInt8) : Hdr where
  magic := UInt32.ofNat (ofLe (field bs 0 4))
  version := UInt16.ofNat (ofLe (field bs 4 2))
  opcode := UInt16.ofNat (ofLe (field bs 6 2))
  payloadLen := UInt32.ofNat (ofLe (field bs 8 4))
  flags := UInt32.ofNat (ofLe (field bs 12 4))
  requestId := UInt64.ofNat (ofLe (field bs 16 8))

def Hdr.bytes (h : Hdr) : List UInt8 :=
  toLe 4 h.magic.toNat ++ (toLe 2 h.version.toNat ++ (toLe 2 h.opcode.toNat ++
    (toLe 4 h.payloadLen.toNat ++ (toLe 4 h.flags.toNat ++ toLe 8 h.requestId.toNat))))

/-- `(const struct ramdisk_ctrl_peer_connect_info *)payload`. -/
def loadConnect (p : List UInt8) : PeerConnectInfo where
  peerId := UInt64.ofNat (ofLe (field p 0 8))
  eid := Vector.ofFn fun i => (field p 8 16).getD i 0
  uasid := UInt32.ofNat (ofLe (field p 24 4))
  segVa := UInt64.ofNat (ofLe (field p 32 8))
  segLen := UInt64.ofNat (ofLe (field p 40 8))
  segTokenId := UInt32.ofNat (ofLe (field p 48 4))
  jettyId := UInt32.ofNat (ofLe (field p 52 4))

/-- `disc->peer_id`. -/
def loadDisconnect (p : List UInt8) : UInt64 := UInt64.ofNat (ofLe (field p 0 8))

/-- `(const struct ramdisk_ctrl_urma_transfer *)payload`. -/
def loadTransfer (p : List UInt8) : UrmaTransfer where
  peerId := UInt64.ofNat (ofLe (field p 0 8))
  requestId := UInt64.ofNat (ofLe (field p 8 8))
  localOffset := UInt64.ofNat (ofLe (field p 16 8))
  remoteHbmAddr := UInt64.ofNat (ofLe (field p 24 8))
  length := UInt32.ofNat (ofLe (field p 32 4))
  direction := UInt32.ofNat (ofLe (field p 36 4))

/-- The 48 bytes of `struct ramdisk_ctrl_status`. -/
def statusBytes (s : CtrlStatus) : List UInt8 :=
  toLe 8 s.size.toNat ++ (toLe 4 s.blockSize.toNat ++ (toLe 4 s.urmaEnabled.toNat ++
    (toLe 4 s.peerCount.toNat ++ (toLe 4 s.queueDepth.toNat ++ (toLe 4 s.inflight.toNat ++
      (toLe 4 s.pending.toNat ++ (toLe 8 s.completed.toNat ++ toLe 8 s.failed.toNat)))))))

/-- The 32 bytes of `struct ramdisk_ctrl_resp` as `send_response` fills it;
`status` is stored as a 32-bit two's complement number. -/
def respBytes (req : Hdr) (status : Int) (payloadLen : Nat) : List UInt8 :=
  Hdr.bytes { magic := ctrlMagic, version := ctrlVersion, opcode := req.opcode,
              payloadLen := UInt32.ofNat (8 + payloadLen), flags := 0,
              requestId := req.requestId } ++
    (toLe 4 (status % 2 ^ 32).toNat ++ toLe 4 payloadLen)

/-! ### The server -/

/-- The manager functions that the server calls. -/
inductive Op where
  | fillStatus
  | enable
  | disable
  | peerConnect (info : PeerConnectInfo)
  | peerDisconnect (peerId : UInt64)
  | transferSync (x : UrmaTransfer) (timeoutMs : UInt32)
  deriving DecidableEq

/-- A manager with state `σ`.  `status` is the record that `handle_request`
sends after `ramdisk_urma_fill_status`. -/
structure Manager (σ : Type*) where
  call : σ → Op → Int × σ
  status : σ → CtrlStatus

/-- The server while it serves a connection; `ops` are the operations it has
called so far. -/
structure Server (σ : Type*) where
  mgr : σ
  src : Source UInt8
  snk : Sink UInt8
  ops : List Op
  passes : Nat

variable {σ : Type*}

/-- `serve_client` on entry. -/
def Server.start (mgr : σ) (src : Source UInt8) (snk : Sink UInt8) : Server σ :=
  ⟨mgr, src, snk, [], 0⟩

def perform (M : Manager σ) (s : Server σ) (op : Op) : Int × Server σ :=
  let (rc, mgr) := M.call s.mgr op
  (rc, { s with mgr := mgr, ops := s.ops ++ [op] })

def sendResponse (snk : Sink UInt8) (req : Hdr) (status : Int) (payload : List UInt8) :
    Int × Sink UInt8 :=
  let (rc, snk) := writeFull snk (respBytes req status payload.length)
  if rc < 0 then (rc, snk)
  else if payload.length ≠ 0 then writeFull snk payload
  else (0, snk)

/-- `return send_response(fd, hdr, status, payload, payload_len);` -/
def respond (s : Server σ) (hdr : Hdr) (status : Int) (payload : List UInt8) :
    Int × Server σ :=
  let (rc, snk) := sendResponse s.snk hdr status payload
  (rc, { s with snk := snk })

/-- The three operations with arguments: the payload has to have the size of
the structure. -/
def performSized (M : Manager σ) (s : Server σ) (hdr : Hdr) (size : UInt32) (op : Op) :
    Int × Server σ :=
  if hdr.payloadLen ≠ size then (-EINVAL, s) else perform M s op

def handleRequest (M : Manager σ) (s : Server σ) (hdr : Hdr) (payload : List UInt8) :
    Int × Server σ :=
  if hdr.opcode = queryStatus then
    let (_, s) := perform M s .fillStatus
    respond s hdr 0 (statusBytes (M.status s.mgr))
  else if hdr.opcode = urmaEnable then
    let (rc, s) := perform M s .enable
    respond s hdr rc []
  else if hdr.opcode = urmaDisable then
    let (rc, s) := perform M s .disable
    respond s hdr rc []
  else if hdr.opcode = peerConnect then
    let (rc, s) := performSized M s hdr connectSize (.peerConnect (loadConnect payload))
    respond s hdr rc []
  else if hdr.opcode = peerDisconnect then
    let (rc, s) := performSized M s hdr disconnectSize (.peerDisconnect (loadDisconnect payload))
    respond s hdr rc []
  else if hdr.opcode = urmaTransfer then
    let (rc, s) := performSized M s hdr transferSize (.transferSync (loadTransfer payload) 30000)
    respond s hdr rc []
  else respond s hdr (-EOPNOTSUPP) []

/-- The header check of `serve_client`. -/
def Hdr.Accepted (h : Hdr) : Prop :=
  h.magic = ctrlMagic ∧ h.version = ctrlVersion ∧ h.payloadLen ≤ ctrlMaxPayload

instance (h : Hdr) : Decidable h.Accepted := inferInstanceAs (Decidable (_ ∧ _ ∧ _))

/-- The array `payload` after `got` was read into it. -/
def payloadArray (junk : ByteMem) (got : List UInt8) : List UInt8 :=
  got ++ junk.load got.length (ctrlMaxPayload.toNat - got.length)

/-- The loop body once the header has been accepted. -/
def serveAccepted (M : Manager σ) (junk : Nat → ByteMem) (s : Server σ) (hdr : Hdr) :
    Flow (Server σ) :=
  let (n, got, src) :=
    if hdr.payloadLen ≠ 0 then readFull s.src hdr.payloadLen.toNat else (0, [], s.src)
  if n < 0 then .out { s with src := src }
  else
    let (rc, s) := handleRequest M { s with src := src, passes := s.passes + 1 } hdr
      (payloadArray (junk s.passes) got)
    if rc < 0 then .out s else .next s

/-- One pass through the loop of `serve_client`. -/
def serveFrame (M : Manager σ) (junk : Nat → ByteMem) (s : Server σ) : Flow (Server σ) :=
  let (n, bs, src) := readFull s.src hdrSize
  let s := { s with src := src }
  if n = 0 then .out s
  else if n < 0 then .out s
  else if ¬(loadHdr bs).Accepted then
    .out { s with snk := (sendResponse s.snk (loadHdr bs) (-EINVAL) []).2 }
  else serveAccepted M junk s (loadHdr bs)

/-! ### Which operation a request performs -/

/-- The operation that a header and a payload ask for.  An operation with
arguments is one only when the payload has the size of its structure, and an
unknown opcode asks for none. -/
def Hdr.op (h : Hdr) (payload : List UInt8) : Option Op :=
  if h.opcode = queryStatus then some .fillStatus
  else if h.opcode = urmaEnable then some .enable
  else if h.opcode = urmaDisable then some .disable
  else if h.opcode = peerConnect then
    if h.payloadLen = connectSize then some (.peerConnect (loadConnect payload)) else none
  else if h.opcode = peerDisconnect then
    if h.payloadLen = disconnectSize then some (.peerDisconnect (loadDisconnect payload)) else none
  else if h.opcode = urmaTransfer then
    if h.payloadLen = transferSize then some (.transferSync (loadTransfer payload) 30000) else none
  else none

/-- What an operation does to the manager; there may be none. -/
def Manager.after (M : Manager σ) (mgr : σ) : Option Op → σ
  | none => mgr
  | some op => (M.call mgr op).2

/-- Everything but the manager and the record of its operations. -/
structure SameIo (s s' : Server σ) : Prop where
  src : s'.src = s.src
  snk : s'.snk = s.snk
  passes : s'.passes = s.passes

/-- The step from `s` to `s'` performs `op`, if there is one, and nothing else. -/
structure Performs (M : Manager σ) (s : Server σ) (op : Option Op) (s' : Server σ) : Prop where
  ops : s'.ops = s.ops ++ op.toList
  mgr : s'.mgr = M.after s.mgr op
  io : SameIo s s'

theorem performs_none (M : Manager σ) (s : Server σ) : Performs M s none s :=
  ⟨(List.append_nil _).symm, rfl, rfl, rfl, rfl⟩

theorem perform_spec (M : Manager σ) (s : Server σ) (op : Op) :
    Performs M s (some op) (perform M s op).2 :=
  ⟨rfl, rfl, rfl, rfl, rfl⟩

theorem performSized_spec (M : Manager σ) (s : Server σ) (hdr : Hdr) (size : UInt32) (op : Op) :
    Performs M s (if hdr.payloadLen = size then some op else none)
      (performSized M s hdr size op).2 := by
  rw [performSized]
  by_cases h : hdr.payloadLen = size
  · rw [if_neg (not_not.mpr h), if_pos h]
    exact perform_spec M s op
  · rw [if_pos h, if_neg h]
    exact performs_none M s

/-- **A request performs its operation, if it has one, and is answered.** -/
theorem handleRequest_ops (M : Manager σ) (s : Server σ) (hdr : Hdr) (payload : List UInt8) :
    ∃ s' rc data, handleRequest M s hdr payload = respond s' hdr rc data ∧
      Performs M s (hdr.op payload) s' := by
  rw [handleRequest, Hdr.op]
  by_cases h₁ : hdr.opcode = queryStatus
  · rw [if_pos h₁, if_pos h₁]
    exact ⟨_, _, _, rfl, perform_spec M s _⟩
  rw [if_neg h₁, if_neg h₁]
  by_cases h₂ : hdr.opcode = urmaEnable
  · rw [if_pos h₂, if_pos h₂]
    exact ⟨_, _, _, rfl, perform_spec M s _⟩
  rw [if_neg h₂, if_neg h₂]
  by_cases h₃ : hdr.opcode = urmaDisable
  · rw [if_pos h₃, if_pos h₃]
    exact ⟨_, _, _, rfl, perform_spec M s _⟩
  rw [if_neg h₃, if_neg h₃]
  by_cases h₄ : hdr.opcode = peerConnect
  · rw [if_pos h₄, if_pos h₄]
    exact ⟨_, _, _, rfl, performSized_spec M s hdr _ _⟩
  rw [if_neg h₄, if_neg h₄]
  by_cases h₅ : hdr.opcode = peerDisconnect
  · rw [if_pos h₅, if_pos h₅]
    exact ⟨_, _, _, rfl, performSized_spec M s hdr _ _⟩
  rw [if_neg h₅, if_neg h₅]
  by_cases h₆ : hdr.opcode = urmaTransfer
  · rw [if_pos h₆, if_pos h₆]
    exact ⟨_, _, _, rfl, performSized_spec M s hdr _ _⟩
  rw [if_neg h₆, if_neg h₆]
  exact ⟨s, _, _, rfl, performs_none M s⟩

/-! ### Every pass takes a header off the stream -/

theorem serveAccepted_length_le (M : Manager σ) (junk : Nat → ByteMem) (s : Server σ) (hdr : Hdr) :
    (serveAccepted M junk s hdr).state.src.data.length ≤ s.src.data.length := by
  have hread : (if hdr.payloadLen ≠ 0 then readFull s.src hdr.payloadLen.toNat
      else (0, [], s.src)).2.2.data.length ≤ s.src.data.length := by
    split_ifs
    · exact readFull_length_le s.src _
    · exact Nat.le_refl _
  unfold serveAccepted
  generalize (if hdr.payloadLen ≠ 0 then readFull s.src hdr.payloadLen.toNat
    else (0, [], s.src)) = r at hread ⊢
  obtain ⟨n, got, src⟩ := r
  obtain ⟨s', rc, data, heq, hperforms⟩ := handleRequest_ops M
    { s with src := src, passes := s.passes + 1 } hdr (payloadArray (junk s.passes) got)
  have hsrc : s'.src = src := hperforms.io.src
  simp only [heq]
  split_ifs
  · exact hread
  all_goals
    show s'.src.data.length ≤ _
    rw [hsrc]
    exact hread

/-- **Every pass that goes on has taken a header off the stream.** -/
theorem serveFrame_length_lt {M : Manager σ} {junk : Nat → ByteMem} {s s' : Server σ}
    (h : serveFrame M junk s = .next s') : s'.src.data.length < s.src.data.length := by
  simp only [serveFrame] at h
  split_ifs at h with h0 hneg hacc
  have hhdr : (readFull s.src hdrSize).2.1.length = hdrSize := readFull_pos (by omega)
  have hsrc := readFull_conserves s.src hdrSize
  have hle := serveAccepted_length_le M junk { s with src := (readFull s.src hdrSize).2.2 }
    (loadHdr (readFull s.src hdrSize).2.1)
  rw [h] at hle
  calc s'.src.data.length ≤ (readFull s.src hdrSize).2.2.data.length := hle
    _ < s.src.data.length := by
      rw [← hsrc, List.length_append, hhdr]
      exact Nat.lt_add_of_pos_left (by decide)

/-- `serve_client`: the server when the connection is no longer served. -/
def serveClient (M : Manager σ) (junk : Nat → ByteMem) : Server σ → Server σ :=
  runLoop (serveFrame M junk) (fun s => s.src.data.length) serveFrame_length_lt

theorem serveClient_next {M : Manager σ} {junk : Nat → ByteMem} {s s' : Server σ}
    (h : serveFrame M junk s = .next s') : serveClient M junk s = serveClient M junk s' :=
  runLoop_next h

theorem serveClient_out {M : Manager σ} {junk : Nat → ByteMem} {s s' : Server σ}
    (h : serveFrame M junk s = .out s') : serveClient M junk s = s' :=
  runLoop_out h

end Ctrl

end DirectStorage
