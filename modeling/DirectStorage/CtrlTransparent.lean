/-
DirectStorage/CtrlTransparent.lean

The control socket is transparent.

A client makes a sequence of the library's calls, each over a connection of
its own, and the server serves the connections one after the other.  Beside
this the same calls are made of the manager directly.  For every manager,
every sequence, all arguments and every way the bytes are cut, the two give
the same replies and leave the manager in the same state.

The manager is any state with any functions on it, so whatever its worker does
between two calls can be part of the state.  Of its functions only the type is
used: they return a C `int`, which is what a response has room for.

Main results: `answers_of_op` and `answers_queryStatus` say what the server
answers to a request, `viaSocket_eq_direct` is a single call and
`socketSession_eq_direct` a sequence.
-/
import DirectStorage.CtrlClient

namespace DirectStorage

namespace Ctrl

/-! ### Calls -/

/-- A manager whose functions return a C `int`. -/
structure CManager (σ : Type*) extends Manager σ where
  lo : ∀ mgr op, -2 ^ 31 ≤ (call mgr op).1
  hi : ∀ mgr op, (call mgr op).1 < 2 ^ 31

/-- A call of the client's library with its arguments; `none` is a null pointer.
The record that `ramdisk_ctrl_query_status` fills has to be there. -/
inductive ClientCall where
  | queryStatus
  | enableUrma
  | disableUrma
  | peerConnect (peer : Option (PeerConnectInfo × UInt32))
  | peerDisconnect (peerId : UInt64)
  | urmaTransfer (xfer : Option UrmaTransfer)
  deriving DecidableEq

/-- What the caller gets: the value returned, and the record filled. -/
structure Reply where
  rc : Int
  status : Option CtrlStatus
  deriving DecidableEq

variable {σ : Type*}

/-- The call through the socket. -/
def ClientCall.viaSocket (M : Manager σ) (conn : Conn) (mgr : σ) : ClientCall → Reply × σ
  | .queryStatus =>
      let (rc, status, mgr) := ramdiskCtrlQueryStatus M conn mgr false
      (⟨rc, status⟩, mgr)
  | .enableUrma => (ramdiskCtrlEnableUrma M conn mgr).map (⟨·, none⟩) id
  | .disableUrma => (ramdiskCtrlDisableUrma M conn mgr).map (⟨·, none⟩) id
  | .peerConnect peer => (ramdiskCtrlPeerConnect M conn mgr peer).map (⟨·, none⟩) id
  | .peerDisconnect peerId => (ramdiskCtrlPeerDisconnect M conn mgr peerId).map (⟨·, none⟩) id
  | .urmaTransfer xfer => (ramdiskCtrlUrmaTransfer M conn mgr xfer).map (⟨·, none⟩) id

/-- The same call made of the manager directly.  Its functions answer a null
pointer with `-EINVAL`, and a transfer waits for 30 seconds. -/
def ClientCall.direct (M : Manager σ) (mgr : σ) : ClientCall → Reply × σ
  | .queryStatus =>
      let mgr' := (M.call mgr .fillStatus).2
      (⟨0, some (M.status mgr')⟩, mgr')
  | .enableUrma => (M.call mgr .enable).map (⟨·, none⟩) id
  | .disableUrma => (M.call mgr .disable).map (⟨·, none⟩) id
  | .peerConnect none => (⟨-EINVAL, none⟩, mgr)
  | .peerConnect (some (peer, _)) => (M.call mgr (.peerConnect peer)).map (⟨·, none⟩) id
  | .peerDisconnect peerId => (M.call mgr (.peerDisconnect peerId)).map (⟨·, none⟩) id
  | .urmaTransfer none => (⟨-EINVAL, none⟩, mgr)
  | .urmaTransfer (some xfer) => (M.call mgr (.transferSync xfer 30000)).map (⟨·, none⟩) id

/-- Calls one after the other: the replies in their order, and the manager at
the end. -/
def session {κ : Type*} (exec : σ → κ → Reply × σ) : σ → List κ → List Reply × σ
  | mgr, [] => ([], mgr)
  | mgr, c :: cs =>
      let r := exec mgr c
      let rest := session exec r.2 cs
      (r.1 :: rest.1, rest.2)

/-- A client's session: every call has a connection of its own, and the server
serves one after the other. -/
def socketSession (M : Manager σ) : σ → List (ClientCall × Conn) → List Reply × σ :=
  session fun mgr c => c.1.viaSocket M c.2 mgr

/-- The same calls without client and server. -/
def directSession (M : Manager σ) : σ → List ClientCall → List Reply × σ :=
  session fun mgr c => c.direct M mgr

/-! ### What the server answers -/

variable {M : Manager σ} {conn : Conn} {mgr : σ}

/-- A request for anything but the status is answered with what its operation
returns. -/
theorem handleRequest_of_op {s : Server σ} {hdr : Hdr} {payload : List UInt8} {op : Op}
    (h : hdr.op payload = some op) (hop : op ≠ .fillStatus) :
    handleRequest M s hdr payload = respond (perform M s op).2 hdr (perform M s op).1 [] := by
  unfold Hdr.op at h
  split_ifs at h with h₁ h₂ h₃ h₄ hc h₅ hd h₆ ht <;> cases h
  · exact absurd rfl hop
  · rw [handleRequest, if_neg h₁, if_pos h₂]
  · rw [handleRequest, if_neg h₁, if_neg h₂, if_pos h₃]
  · rw [handleRequest, if_neg h₁, if_neg h₂, if_neg h₃, if_pos h₄, performSized,
      if_neg (not_not.mpr hc)]
  · rw [handleRequest, if_neg h₁, if_neg h₂, if_neg h₃, if_neg h₄, if_pos h₅, performSized,
      if_neg (not_not.mpr hd)]
  · rw [handleRequest, if_neg h₁, if_neg h₂, if_neg h₃, if_neg h₄, if_neg h₅, if_pos h₆,
      performSized, if_neg (not_not.mpr ht)]

/-- What the array holds behind the payload does not matter. -/
theorem answers_of_op {hdr : Hdr} {payload : List UInt8} {op : Op}
    (hlen : payload.length = hdr.payloadLen.toNat) (h : hdr.op payload = some op)
    (hop : op ≠ .fillStatus) :
    Answers M mgr hdr payload (M.call mgr op).1 [] (M.call mgr op).2 := by
  rintro s rest rfl
  have hop' : hdr.op (payload ++ rest) = some op := (op_append rest hlen).trans h
  exact ⟨(perform M s op).2, handleRequest_of_op hop' hop, rfl, (perform_spec M s op).io⟩

theorem answers_queryStatus (requestId : UInt64) :
    Answers M mgr (reqHdr queryStatus 0 requestId) [] 0
      (statusBytes (M.status (M.call mgr .fillStatus).2)) (M.call mgr .fillStatus).2 := by
  rintro s rest rfl
  exact ⟨(perform M s .fillStatus).2, rfl, rfl, (perform_spec M s .fillStatus).io⟩

theorem op_urmaEnable (requestId : UInt64) :
    (reqHdr urmaEnable 0 requestId).op [] = some .enable := rfl

theorem op_urmaDisable (requestId : UInt64) :
    (reqHdr urmaDisable 0 requestId).op [] = some .disable := rfl

theorem op_peerConnect (requestId : UInt64) (peer : PeerConnectInfo) (reserved0 : UInt32) :
    (reqHdr peerConnect connectSize requestId).op (storeConnect peer reserved0) =
      some (.peerConnect peer) := by
  show some (Op.peerConnect (loadConnect (storeConnect peer reserved0))) = _
  rw [loadConnect_store]

theorem op_peerDisconnect (requestId peerId : UInt64) :
    (reqHdr peerDisconnect disconnectSize requestId).op (storeDisconnect peerId) =
      some (.peerDisconnect peerId) := by
  show some (Op.peerDisconnect (loadDisconnect (storeDisconnect peerId))) = _
  rw [loadDisconnect_store]

theorem op_urmaTransfer (requestId : UInt64) (xfer : UrmaTransfer) :
    (reqHdr urmaTransfer transferSize requestId).op (storeTransfer xfer) =
      some (.transferSync xfer 30000) := by
  show some (Op.transferSync (loadTransfer (storeTransfer xfer)) 30000) = _
  rw [loadTransfer_store]

/-! ### One call and a sequence of calls -/

/-- A call without a status record returns what its operation returns. -/
theorem transact_of_op (M : CManager σ) (h : conn.Reliable) {opcode : UInt16} {op : Op}
    {payloadLen : UInt32} {requestId : UInt64} (payload : Option (List UInt8))
    (hlen : (payload.getD []).length = payloadLen.toNat) (hmax : payloadLen ≤ ctrlMaxPayload)
    (hop : (reqHdr opcode payloadLen requestId).op (payload.getD []) = some op)
    (hne : op ≠ .fillStatus) :
    ramdiskCtrlTransact M.toManager conn mgr opcode payload payloadLen none requestId =
      ⟨(M.call mgr op).1, [], (M.call mgr op).2⟩ :=
  transact_reliable h hlen hmax (answers_of_op hlen hop hne) (M.lo mgr op) (M.hi mgr op)
    (Nat.le_refl 0)

theorem queryStatus_eq (M : Manager σ) (h : conn.Reliable) :
    ramdiskCtrlQueryStatus M conn mgr false =
      (0, some (M.status (M.call mgr .fillStatus).2), (M.call mgr .fillStatus).2) := by
  have hlen := length_statusBytes (M.status (M.call mgr .fillStatus).2)
  have hcap : (statusBytes (M.status (M.call mgr .fillStatus).2)).length ≤
      ((some statusSize).getD 0).toNat := hlen.le
  rw [ramdiskCtrlQueryStatus, if_neg Bool.false_ne_true,
    transact_reliable h rfl (by decide) (answers_queryStatus 1) (by decide) (by decide) hcap]
  dsimp only
  rw [hlen, Nat.sub_self, List.replicate_zero, List.append_nil, loadStatus_bytes]

/-- **One call** over a reliable connection is the manager's function. -/
theorem viaSocket_eq_direct (M : CManager σ) (h : conn.Reliable) (c : ClientCall) :
    c.viaSocket M.toManager conn mgr = c.direct M.toManager mgr := by
  cases c with
  | queryStatus =>
      rw [ClientCall.viaSocket, queryStatus_eq M.toManager h]
      rfl
  | enableUrma =>
      rw [ClientCall.viaSocket, ramdiskCtrlEnableUrma,
        transact_of_op M h none rfl (by decide) (op_urmaEnable 1) (by simp)]
      rfl
  | disableUrma =>
      rw [ClientCall.viaSocket, ramdiskCtrlDisableUrma,
        transact_of_op M h none rfl (by decide) (op_urmaDisable 1) (by simp)]
      rfl
  | peerConnect peer =>
      rcases peer with - | ⟨peer, reserved0⟩
      · rfl
      · rw [ClientCall.viaSocket, ramdiskCtrlPeerConnect,
          transact_of_op M h (some (storeConnect peer reserved0))
            (length_storeConnect peer reserved0) (by decide) (op_peerConnect 1 peer reserved0)
            (by simp)]
        rfl
  | peerDisconnect peerId =>
      rw [ClientCall.viaSocket, ramdiskCtrlPeerDisconnect,
        transact_of_op M h (some (storeDisconnect peerId)) (length_storeDisconnect peerId)
          (by decide) (op_peerDisconnect 1 peerId) (by simp)]
      rfl
  | urmaTransfer xfer =>
      rcases xfer with - | xfer
      · rfl
      · rw [ClientCall.viaSocket, ramdiskCtrlUrmaTransfer,
          transact_of_op M h (some (storeTransfer xfer)) (length_storeTransfer xfer) (by decide)
            (op_urmaTransfer xfer.requestId xfer) (by simp)]
        rfl

/-- **The control socket is transparent.**  Over reliable connections, served
one at a time and with every `read` and `write` cut as one likes, a sequence of
client calls gives the replies of the manager's functions, called directly in
the same order with the same arguments, and ends in the same state. -/
theorem socketSession_eq_direct (M : CManager σ) (mgr : σ) (calls : List (ClientCall × Conn))
    (hrel : ∀ c ∈ calls, c.2.Reliable) :
    socketSession M.toManager mgr calls = directSession M.toManager mgr (calls.map Prod.fst) := by
  unfold socketSession directSession
  induction calls generalizing mgr with
  | nil => rfl
  | cons c cs ih =>
      have hc : c.2.Reliable := hrel c List.mem_cons_self
      have hcs : ∀ c' ∈ cs, c'.2.Reliable := fun c' h => hrel c' (List.mem_cons_of_mem c h)
      simp only [List.map_cons, session, viaSocket_eq_direct M hc, ih _ hcs]

/-! ### A small session -/

/-- A manager that keeps the operations it was called for, and returns the
number of those before, negated. -/
def recording : CManager (List Op) where
  call log op := (-(log.length % 100 : Nat), log ++ [op])
  status log := ⟨4096, 512, 1, 0, 0, 0, 0, UInt64.ofNat log.length, 0⟩
  lo log _ := by
    show -2 ^ 31 ≤ (-(log.length % 100 : Nat) : Int)
    omega
  hi log _ := by
    show (-(log.length % 100 : Nat) : Int) < 2 ^ 31
    omega

/-- A byte at first, then a few. -/
def Small.pieces : List IoEvent := [.chunk 1, .chunk 5, .chunk 2]

def Small.slow : Conn where
  pathNull := false
  socketErr := none
  connectErr := none
  clientWrite := Small.pieces
  serverRead := Small.pieces
  serverWrite := Small.pieces
  clientRead := Small.pieces
  junk := fun _ => ByteMem.zero

theorem Small.slow_reliable : Small.slow.Reliable := by
  have hq : Quiet isEintr Small.pieces := by
    intro e he
    simp [Small.pieces] at he
  exact ⟨rfl, rfl, rfl, hq, hq, hq, hq⟩

def Small.peer : PeerConnectInfo := ⟨7, Vector.replicate 16 3, 1, 0x1000, 64, 9, 5⟩

/-- A peer is connected, with a reserved word that is not zero, the status is
asked for and the peer is disconnected. -/
theorem socketSession_small :
    socketSession recording.toManager []
        [(.peerConnect (some (Small.peer, 0xffffffff)), Small.slow), (.queryStatus, Small.slow),
          (.peerDisconnect 7, Small.slow)] =
      ([⟨0, none⟩, ⟨0, some ⟨4096, 512, 1, 0, 0, 0, 0, 2, 0⟩⟩, ⟨-2, none⟩],
        [.peerConnect Small.peer, .fillStatus, .peerDisconnect 7]) := by
  refine (socketSession_eq_direct recording [] _ ?_).trans rfl
  intro c hc
  simp only [List.mem_cons, List.not_mem_nil, or_false] at hc
  rcases hc with rfl | rfl | rfl <;> exact Small.slow_reliable

end Ctrl

end DirectStorage
