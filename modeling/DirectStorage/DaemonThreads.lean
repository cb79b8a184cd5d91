/-
DirectStorage/DaemonThreads.lean

The daemon as a whole: the control thread (`ctrl_server_main` of
`userspace-nbd/src/ramdisk_ctrl_server.c`), the URMA worker, and the main thread of
`nbd_ramdisk.c`, which runs `serve_nbd` and then `cleanup`.

The manager, the backend and the worker are the `Sys` of `UrmaSystem`.  What is
new is who takes its steps.  A call of the manager is started by the control
thread, for a request it has read, and the control thread does nothing else until
the call has returned; the NBD requests are served by the main thread; and the
main thread destroys the manager, after it has stopped the control server.  Where
a thread works on its own data only (a socket, the receive buffer), its work is
part of the next step that touches something shared: a pass of `serve_nbd` makes at
most one call on the backend, and a pass of `serve_client` at most one on the
manager.

`main` is entered where the manager is initialised.  The control server has then
been started or not; when `setup_nbd` has failed the main thread is in `cleanup`
at once.  The NBD kernel thread and the descriptors are left out: no memory of the
daemon is touched through them.  What `ramdisk_urma_mgr_destroy` and
`ramdisk_backend_destroy` release is kept as one flag each.

Main results: `serveFrame_eq_readRequest` and `handleRequest_eq`, which say that
the control thread's steps make up `serve_client`, and `serveOnce_backend`, that a
pass of `serve_nbd` makes at most one call on the backend.
-/
import DirectStorage.CtrlServer
import DirectStorage.Nbd
import DirectStorage.UrmaSequential

namespace DirectStorage

namespace Daemon

open Ctrl Urma

/-! ### The control thread -/

/-- The two directions of a control connection. -/
structure CtrlConn where
  src : Source UInt8
  snk : Sink UInt8

/-- A pass of `serve_client` up to `handle_request`: the connection is given up, or
there is a request with its payload.  `junk` is what the array `payload` holds. -/
def readRequest (junk : ByteMem) (conn : CtrlConn) :
    Except CtrlConn (Hdr × List UInt8 × CtrlConn) :=
  let (n, bs, src) := readFull conn.src hdrSize
  let conn := { conn with src := src }
  if n = 0 then .error conn
  else if n < 0 then .error conn
  else if ¬(loadHdr bs).Accepted then
    .error { conn with snk := (sendResponse conn.snk (loadHdr bs) (-EINVAL) []).2 }
  else
    let hdr := loadHdr bs
    let (n, got, src) :=
      if hdr.payloadLen ≠ 0 then readFull conn.src hdr.payloadLen.toNat else (0, [], conn.src)
    let conn := { conn with src := src }
    if n < 0 then .error conn else .ok (hdr, payloadArray junk got, conn)

/-- The status of a request that asks for no operation. -/
def refusal (hdr : Hdr) : Int :=
  if hdr.opcode = Ctrl.peerConnect ∨ hdr.opcode = Ctrl.peerDisconnect ∨
      hdr.opcode = Ctrl.urmaTransfer then
    -EINVAL
  else -EOPNOTSUPP

/-- The record that `RAMDISK_CTRL_QUERY_STATUS` sends. -/
def statusOf (s : Sys) : CtrlStatus :=
  ramdiskUrmaFillStatus s.mgr
    ⟨ramdiskBackendSize s.backend, ramdiskBackendBlockSize s.backend, 0, 0, 0, 0, 0, 0, 0⟩

/-- The bytes that follow the response to an operation. -/
def report (s : Sys) : Op → List UInt8
  | .fillStatus => statusBytes (statusOf s)
  | _ => []

/-- What the environment does during a manager call. -/
structure CallEnv where
  connect : ConnectEnv
  now : ClockTime

/-- The step of the manager that starts an operation. -/
def startOf (env : CallEnv) : Op → Action
  | .fillStatus => .fillStatus
  | .enable => .enable
  | .disable => .disable
  | .peerConnect info => .peerConnect info env.connect
  | .peerDisconnect peerId => .peerDisconnect peerId
  | .transferSync x timeoutMs => .transferSync x timeoutMs env.now

/-- Where the control thread is. -/
inductive CtrlPc
  /-- At `while (server->running)`. -/
  | loop
  | accepting
  /-- In `serve_client`, about to read a request. -/
  | reading (conn : CtrlConn)
  /-- In manager call `c`, made for the operation `op` of a request; `data` follows the
  response. -/
  | calling (conn : CtrlConn) (hdr : Hdr) (op : Op) (c : CallId) (data : List UInt8)
  | exited

/-! ### The main thread -/

/-- What `serve_nbd` has to itself. -/
structure NbdIo where
  src : Source UInt8
  snk : Sink UInt8
  buf : List UInt8
  reallocs : Nat
  overflow : Bool

def NbdIo.server (io : NbdIo) (b : Backend) : NbdServer :=
  ⟨b, io.src, io.snk, io.buf, io.reallocs, io.overflow⟩

def nbdIo (st : NbdServer) : NbdIo := ⟨st.src, st.snk, st.buf, st.reallocs, st.overflow⟩

/-- Where the main thread is. -/
inductive MainPc
  | serving
  /-- At the start of `cleanup`. -/
  | cleanup
  /-- In `ramdisk_ctrl_server_stop`, with `running` cleared. -/
  | stopping
  /-- In `pthread_join` of the control thread; the listening socket is closed. -/
  | joiningCtrl
  /-- The control server is stopped. -/
  | ctrlStopped
  /-- In `ramdisk_urma_mgr_destroy`, waiting for the worker. -/
  | joiningWorker
  | mgrDestroyed
  | exited
  deriving DecidableEq

namespace MainPc

/-- The control server is stopped, or was never there. -/
def ctrlGone : MainPc → Bool
  | ctrlStopped | joiningWorker | mgrDestroyed | exited => true
  | _ => false

/-- `ramdisk_urma_mgr_destroy` has been called. -/
def destroys : MainPc → Bool
  | joiningWorker | mgrDestroyed | exited => true
  | _ => false

/-- `ramdisk_urma_mgr_destroy` has joined the worker. -/
def mgrGone : MainPc → Bool
  | mgrDestroyed | exited => true
  | _ => false

end MainPc

/-! ### The daemon -/

/-- A request with an accepted header, and the answer to it. -/
structure CtrlAnswer where
  hdr : Hdr
  op : Option Op
  status : Int
  data : List UInt8

/-- The daemon from the initialised manager on.  `answers` is a history. -/
structure Process where
  sys : Sys
  /-- `ctx.ctrl.initialized` and `ctx.ctrl.running`. -/
  ctrlInit : Bool
  running : Bool
  listening : Bool
  ctrl : CtrlPc
  main : MainPc
  nbd : NbdIo
  mgrFreed : Bool
  backendFreed : Bool
  answers : List CtrlAnswer

/-- One step of one thread. -/
inductive Label
  /-- The control thread looks at `running`. -/
  | test
  /-- `accept` fails, or returns a connection. -/
  | accept (conn : Option CtrlConn)
  | request (junk : ByteMem) (env : CallEnv)
  /-- The manager call goes on. -/
  | proceed (a : Action)
  /-- The manager call has returned, and the response is sent. -/
  | reply
  | worker (a : Action)
  | nbd (env : Realloc)
  /-- `serve_nbd` finds `g_stop` set. -/
  | interrupted
  /-- The main thread goes on in `cleanup`. -/
  | cleanup

namespace Process

/-- `send_response`, and what `serve_client` does with its result. -/
def respond (d : Process) (conn : CtrlConn) (a : CtrlAnswer) : Process :=
  let (rc, snk) := sendResponse conn.snk a.hdr a.status a.data
  { d with
    ctrl := if rc < 0 then .loop else .reading { conn with snk := snk }
    answers := d.answers ++ [a] }

/-- The control thread starts an operation. -/
def startCall (d : Process) (conn : CtrlConn) (hdr : Hdr) (op : Op) (env : CallEnv) :
    Option Process :=
  (Urma.step d.sys (startOf env op)).map fun sys =>
    { d with sys := sys, ctrl := .calling conn hdr op d.sys.nextCall (report d.sys op) }

/-- A pass of `serve_client` up to the manager call. -/
def serveRequest (d : Process) (conn : CtrlConn) (junk : ByteMem) (env : CallEnv) :
    Option Process :=
  match readRequest junk conn with
  | .error _ => some { d with ctrl := .loop }
  | .ok (hdr, payload, conn) =>
      match hdr.op payload with
      | none => some (d.respond conn ⟨hdr, none, refusal hdr, []⟩)
      | some op => d.startCall conn hdr op env

/-- One pass of `serve_nbd`. -/
def servePass (d : Process) (env : Realloc) : Process :=
  let flow := serveOnce env (d.nbd.server d.sys.backend)
  { d with
    sys := { d.sys with backend := flow.state.backend }
    nbd := nbdIo flow.state
    main := match flow with
      | .next _ => .serving
      | .out _ => .cleanup }

/-- The steps of `cleanup`. -/
def cleanupStep (d : Process) : Option Process :=
  match d.main with
  | .serving => none
  | .cleanup =>
      if d.ctrlInit then some { d with running := false, main := .stopping }
      else some { d with main := .ctrlStopped }
  | .stopping => some { d with listening := false, main := .joiningCtrl }
  | .joiningCtrl =>
      match d.ctrl with
      | .exited => some { d with ctrlInit := false, main := .ctrlStopped }
      | _ => none
  | .ctrlStopped =>
      (Urma.step d.sys .mgrDestroy).map fun sys => { d with sys := sys, main := .joiningWorker }
  | .joiningWorker =>
      match d.sys.worker with
      | .stopped => some { d with mgrFreed := true, main := .mgrDestroyed }
      | _ => none
  | .mgrDestroyed => some { d with backendFreed := true, main := .exited }
  | .exited => none

def step (d : Process) : Label → Option Process
  | .test =>
      match d.ctrl with
      | .loop => some { d with ctrl := if d.running then .accepting else .exited }
      | _ => none
  | .accept none =>
      match d.ctrl with
      | .accepting => some { d with ctrl := .loop }
      | _ => none
  | .accept (some conn) =>
      match d.ctrl with
      | .accepting => if d.listening then some { d with ctrl := .reading conn } else none
      | _ => none
  | .request junk env =>
      match d.ctrl with
      | .reading conn => d.serveRequest conn junk env
      | _ => none
  | .proceed a =>
      match d.ctrl with
      | .calling _ _ _ c _ =>
          if a.continues = some c then (Urma.step d.sys a).map fun sys => { d with sys := sys }
          else none
      | _ => none
  | .reply =>
      match d.ctrl with
      | .calling conn hdr op c data =>
          (d.sys.resultOf c).map fun rc => d.respond conn ⟨hdr, some op, rc, data⟩
      | _ => none
  | .worker a =>
      if a.byWorker then (Urma.step d.sys a).map fun sys => { d with sys := sys } else none
  | .nbd env =>
      match d.main with
      | .serving => some (d.servePass env)
      | _ => none
  | .interrupted =>
      match d.main with
      | .serving => some { d with main := .cleanup }
      | _ => none
  | .cleanup => d.cleanupStep

end Process

/-- The manager is initialised; the control server runs or was not started, and NBD is
served or was not set up. -/
structure Initial (d : Process) : Prop where
  sys : Urma.Initial d.sys
  ctrl : d.ctrlInit = true ∧ d.ctrl = .loop ∨ d.ctrlInit = false ∧ d.ctrl = .exited
  main : d.main = .serving ∨ d.main = .cleanup
  mgrFreed : d.mgrFreed = false
  backendFreed : d.backendFreed = false
  answers : d.answers = []

/-! ### The pieces make up `serve_client` -/

section ServeClient

variable {σ : Type*}

/-- **A pass of `serve_client`** is `readRequest` and then `handle_request`. -/
theorem serveFrame_eq_readRequest (M : Manager σ) (junk : Nat → ByteMem) (s : Server σ) :
    serveFrame M junk s =
      match readRequest (junk s.passes) ⟨s.src, s.snk⟩ with
      | .error conn => .out { s with src := conn.src, snk := conn.snk }
      | .ok (hdr, payload, conn) =>
          let r := handleRequest M
            { s with src := conn.src, snk := conn.snk, passes := s.passes + 1 } hdr payload
          if r.1 < 0 then .out r.2 else .next r.2 := by
  unfold serveFrame readRequest serveAccepted
  generalize readFull s.src hdrSize = r
  obtain ⟨n, bs, src⟩ := r
  dsimp only
  by_cases h₀ : n = 0
  · simp only [if_pos h₀]
  by_cases hneg : n < 0
  · simp only [if_neg h₀, if_pos hneg]
  by_cases hacc : (loadHdr bs).Accepted
  · simp only [if_neg h₀, if_neg hneg, not_true, hacc, if_false]
    generalize (if (loadHdr bs).payloadLen ≠ 0 then readFull src (loadHdr bs).payloadLen.toNat
      else (0, [], src)) = r
    obtain ⟨n', got, src'⟩ := r
    dsimp only
    by_cases hneg' : n' < 0
    · simp only [if_pos hneg']
    · simp only [if_neg hneg']
  · simp only [if_neg h₀, if_neg hneg, if_pos hacc]

/-- What follows the response to an operation, for any manager. -/
def reportOf (M : Manager σ) (mgr : σ) : Op → List UInt8
  | .fillStatus => statusBytes (M.status mgr)
  | _ => []

/-- An operation with a payload of a fixed size, or its refusal. -/
theorem performSized_eq (M : Manager σ) (s : Server σ) (hdr : Hdr) (size : UInt32) {op : Op}
    (hop : op ≠ .fillStatus) (hrefusal : refusal hdr = -EINVAL) :
    respond (performSized M s hdr size op).2 hdr (performSized M s hdr size op).1 [] =
      match if hdr.payloadLen = size then some op else none with
      | none => respond s hdr (refusal hdr) []
      | some op =>
          let r := perform M s op
          respond r.2 hdr (if op = .fillStatus then 0 else r.1) (reportOf M r.2.mgr op) := by
  unfold performSized
  by_cases hsize : hdr.payloadLen = size
  · rw [if_neg (not_not.mpr hsize), if_pos hsize]
    dsimp only
    rw [if_neg hop]
    cases op <;> first | rfl | exact absurd rfl hop
  · rw [if_pos hsize, if_neg hsize]
    dsimp only
    rw [hrefusal]

/-- **`handle_request`** refuses, or calls the operation of the request and answers with
its result. -/
theorem handleRequest_eq (M : Manager σ) (s : Server σ) (hdr : Hdr) (payload : List UInt8) :
    handleRequest M s hdr payload =
      match hdr.op payload with
      | none => respond s hdr (refusal hdr) []
      | some op =>
          let r := perform M s op
          respond r.2 hdr (if op = .fillStatus then 0 else r.1) (reportOf M r.2.mgr op) := by
  rw [handleRequest, Hdr.op]
  by_cases h₁ : hdr.opcode = queryStatus
  · rw [if_pos h₁, if_pos h₁]
    rfl
  rw [if_neg h₁, if_neg h₁]
  by_cases h₂ : hdr.opcode = urmaEnable
  · rw [if_pos h₂, if_pos h₂]
    rfl
  rw [if_neg h₂, if_neg h₂]
  by_cases h₃ : hdr.opcode = urmaDisable
  · rw [if_pos h₃, if_pos h₃]
    rfl
  rw [if_neg h₃, if_neg h₃]
  by_cases h₄ : hdr.opcode = Ctrl.peerConnect
  · rw [if_pos h₄, if_pos h₄]
    exact performSized_eq M s hdr _ (by rintro ⟨⟩) (if_pos (.inl h₄))
  rw [if_neg h₄, if_neg h₄]
  by_cases h₅ : hdr.opcode = Ctrl.peerDisconnect
  · rw [if_pos h₅, if_pos h₅]
    exact performSized_eq M s hdr _ (by rintro ⟨⟩) (if_pos (.inr (.inl h₅)))
  rw [if_neg h₅, if_neg h₅]
  by_cases h₆ : hdr.opcode = Ctrl.urmaTransfer
  · rw [if_pos h₆, if_pos h₆]
    exact performSized_eq M s hdr _ (by rintro ⟨⟩) (if_pos (.inr (.inr h₆)))
  rw [if_neg h₆, if_neg h₆]
  dsimp only
  rw [refusal, if_neg]
  rintro (h | h | h)
  · exact h₄ h
  · exact h₅ h
  · exact h₆ h

end ServeClient

/-! ### What a pass of `serve_nbd` does to the backend -/

/-- The backend is as it was, or one write or trim has been carried out on it. -/
inductive BackendStep (b : Backend) : Backend → Prop
  | same : BackendStep b b
  | write (offset : UInt64) (data : List UInt8) (len : UInt32) :
      BackendStep b (ramdiskBackendWrite b offset false data len).2
  | zero (offset : UInt64) (len : UInt32) : BackendStep b (ramdiskBackendZero b offset len).2

theorem answer_backend (st : NbdServer) (handle : List UInt8) (rc : Int) :
    (answer st handle rc).state.backend = st.backend := by
  simp only [answer]
  split_ifs <;> rfl

theorem growBuf_backend (env : Realloc) (st : NbdServer) (len : UInt32) :
    (growBuf env st len).2.backend = st.backend := by
  unfold growBuf
  split_ifs
  · rcases env st.reallocs with - | m <;> rfl
  · rfl

theorem nbdRead_backend (st : NbdServer) (handle : List UInt8) (from_ : UInt64) (len : UInt32)
    (rc : Int) : (nbdRead st handle from_ len rc).state.backend = st.backend := by
  unfold nbdRead
  generalize (if rc = 0 then ramdiskBackendRead st.backend from_ st.buf.isEmpty len
    else (rc, [])) = r
  obtain ⟨rc', data⟩ := r
  have hb : (answer (st.fillBuf data) handle rc').state.backend = st.backend :=
    answer_backend _ _ _
  dsimp only
  rcases e : answer (st.fillBuf data) handle rc' with st' | st' <;> rw [e] at hb
  · dsimp only
    split_ifs <;> exact hb
  · exact hb

theorem nbdWrite_backend (st : NbdServer) (handle : List UInt8) (from_ : UInt64) (len : UInt32)
    (rc : Int) : BackendStep st.backend (nbdWrite st handle from_ len rc).state.backend := by
  have hrecv : (recvPayload st len).2.backend = st.backend := by
    simp only [recvPayload]
    split_ifs <;> rfl
  unfold nbdWrite
  generalize recvPayload st len = r at hrecv
  obtain ⟨n, st'⟩ := r
  dsimp only at hrecv ⊢
  split_ifs with hn hrc
  · exact hrecv ▸ .same
  · rw [answer_backend]
    show BackendStep _ (ramdiskBackendWrite st'.backend from_ st'.buf.isEmpty st'.buf len).2
    rw [hrecv]
    cases st'.buf.isEmpty with
    | true => exact .same
    | false => exact .write from_ st'.buf len
  · rw [answer_backend]
    exact hrecv ▸ .same

theorem serveRequest_backend (env : Realloc) (st : NbdServer) (req : NbdHeader) :
    BackendStep st.backend (DirectStorage.serveRequest env st req).state.backend := by
  have hgrow := growBuf_backend env st req.len
  simp only [DirectStorage.serveRequest]
  split_ifs
  · exact .same
  · rw [nbdRead_backend, hgrow]
    exact .same
  · exact hgrow ▸ nbdWrite_backend _ _ _ _ _
  · rw [answer_backend, hgrow]
    exact .same
  · rw [nbdTrim, answer_backend]
    show BackendStep _ (ramdiskBackendZero (growBuf env st req.len).2.backend req.from_ req.len).2
    rw [hgrow]
    exact .zero _ _
  · show BackendStep _ (growBuf env st req.len).2.backend
    rw [hgrow]
    exact .same
  · rw [answer_backend, hgrow]
    exact .same

/-- **A pass of `serve_nbd`** makes at most one change to the backend. -/
theorem serveOnce_backend (env : Realloc) (st : NbdServer) :
    BackendStep st.backend (serveOnce env st).state.backend := by
  simp only [serveOnce]
  split_ifs
  · exact .same
  · exact .same
  · exact serveRequest_backend env { st with src := (readFull st.src nbdRequestSize).2.2 } _

end Daemon

end DirectStorage
