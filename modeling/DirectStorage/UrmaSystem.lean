/-
DirectStorage/UrmaSystem.lean

The URMA manager as a concurrent system: any number of API calls, the worker
thread and the NBD thread's backend writes, interleaved.

Grain.  Every section under `mgr->lock` is one step, and so is every section
between two of them that touches shared data: the worker's copy (or the
posting of its work request) and its completion log are steps of their own,
and so are the allocation before and the `free` after the locked section of
connect and disconnect.  A thread keeps no state between calls, so threads do
not appear: a label starts a new call at any time, and a call in progress is
advanced by labels that name it.

What the environment decides is part of the label: allocations, the answers of
the URMA library, the code `pthread_cond_timedwait` returns, the clock, and
what a read through an uninitialised pointer does.  Such a read is undefined
behaviour; the model lets it either stop the process (`UninitRead.fault`) or
produce an arbitrary word.  An out-of-bounds copy, or one into a freed buffer,
stops the process.

Not here: the part of `ramdisk_urma_mgr_destroy` after `pthread_join`.
-/
import DirectStorage.UrmaMgr
import DirectStorage.Lts

namespace DirectStorage

namespace Urma

open Function

/-! ### State -/

/-- A mock HBM buffer: whether it is allocated, its length and its content. -/
structure HbmBuf where
  live : Bool
  len : UInt64
  mem : ByteMem

/-- An API call with its arguments. -/
inductive CallKind
  | transfer (x : UrmaTransfer) (timeoutMs : UInt32)
  | peerConnect (info : PeerConnectInfo)
  | peerDisconnect (peerId : UInt64)
  | enable
  | disable
  | fillStatus
  | mockWritePeer (peerId remoteAddr : UInt64) (len : UInt32)
  | mgrDestroy

/-- How far a call has come. -/
inductive CallPc
  /-- `transfer_sync` is in `pthread_cond_timedwait` with this deadline. -/
  | waiting (ts : Timespec)
  /-- `peer_connect` has built `new_peer` and not yet taken the lock. -/
  | locking (newPeer : Peer)
  /-- `peer_disconnect` has cleared the slot and not yet released `old`. -/
  | releasing (old : Peer)
  /-- `mgr_destroy` has set `stopping` and waits for the worker. -/
  | joining
  | returned (rc : Int)
  deriving DecidableEq

structure Call where
  kind : CallKind
  pc : CallPc

/-- A scatter-gather element of a work request. -/
structure Sge where
  addr : UInt64
  len : UInt32
  tseg : Handle

inductive WrOpcode
  | write
  | read
  deriving DecidableEq

/-- The `urma_jfs_wr_t` built by `execute_real_xfer`. -/
structure WorkRequest where
  opcode : WrOpcode
  src : Sge
  dst : Sge
  tjetty : Handle
  userCtx : UInt64

/-- Where the worker thread is. -/
inductive WorkerPc
  /-- About to take the lock and look at the queue. -/
  | top
  /-- Dequeued and validated `c` on slot `k`; `conn` records the connection
  that was in the slot (a history variable). -/
  | executing (c : CallId) (k : Slot) (conn : CallId)
  /-- Posted the work request of `c`, polling for its completion. -/
  | polling (c : CallId)
  /-- Has the result of `c`, about to take the lock and complete it. -/
  | finishing (c : CallId) (rc : Int)
  /-- Completed `c`, about to log it without the lock. -/
  | logging (c : CallId) (rc : Int)
  /-- Left the loop. -/
  | stopped
  /-- Undefined behaviour while holding `c`: the process is gone. -/
  | faulted (c : Option CallId)
  deriving DecidableEq

/-- The daemon: backend, manager, HBM buffers, request objects, calls and
worker.  `accepted`, `dequeued`, `finished`, `wildReads` and `posted` are
histories. -/
structure Sys where
  backend : Backend
  mgr : Mgr
  hbm : CallId → HbmBuf
  reqs : CallId → Request
  calls : CallId → Option Call
  nextCall : CallId
  worker : WorkerPc
  /-- Requests put into the queue, in that order. -/
  accepted : List CallId
  /-- Requests the worker took out of the queue, in that order. -/
  dequeued : List CallId
  /-- Requests marked done, in that order. -/
  finished : List CallId
  /-- Reads through a peer pointer that was never set. -/
  wildReads : Nat
  /-- Work requests handed to the URMA library. -/
  posted : List WorkRequest

/-- The daemon right after a successful `ramdisk_urma_mgr_init`. -/
def Sys.start (b : Backend) (m : Mgr) : Sys where
  backend := b
  mgr := m
  hbm := fun _ => ⟨false, 0, ByteMem.zero⟩
  reqs := fun _ => ⟨0, 0, 0, 0, 0, 0, 0, false⟩
  calls := fun _ => none
  nextCall := 0
  worker := .top
  accepted := []
  dequeued := []
  finished := []
  wildReads := 0
  posted := []

/-- The start states: a live backend and a manager that was initialised on it. -/
def Initial (s : Sys) : Prop :=
  ∃ b m config queueOk mutexRc provider threadRc, Backend.Live b ∧
    ramdiskUrmaMgrInit config queueOk mutexRc provider threadRc = .ok m ∧
    s = Sys.start b m

/-! ### Labels -/

/-- What reading a field through an uninitialised pointer does. -/
inductive UninitRead
  | fault
  | value (v : UInt64)

/-- Allocation and import results seen by one `peer_connect`. -/
structure ConnectEnv where
  calloc : Bool
  importSeg : Option Handle
  importJetty : Option Handle

/-- One step of one thread. -/
inductive Action
  /-- `ramdisk_urma_transfer_sync` up to its first wait or its return. -/
  | transferSync (x : UrmaTransfer) (timeoutMs : UInt32) (now : ClockTime)
  /-- `pthread_cond_timedwait` of call `c` returns `rc`. -/
  | timedwait (c : CallId) (rc : Int) (now : ClockTime)
  /-- `ramdisk_urma_peer_connect` up to the lock. -/
  | peerConnect (info : PeerConnectInfo) (env : ConnectEnv)
  /-- The locked section of connect call `c`, and its undo on failure. -/
  | peerConnectLocked (c : CallId)
  /-- `ramdisk_urma_peer_disconnect` up to the unlock. -/
  | peerDisconnect (peerId : UInt64)
  /-- Disconnect call `c` releases what the slot held. -/
  | peerDisconnectRelease (c : CallId)
  | enable
  | disable
  | fillStatus
  | mockWritePeer (peerId remoteAddr : UInt64) (data : List UInt8) (len : UInt32)
  /-- `ramdisk_urma_mgr_destroy` sets `stopping`. -/
  | mgrDestroy
  /-- The worker's first locked section. -/
  | workerDequeue (uninit : UninitRead)
  /-- `execute_mock_xfer`, or `execute_real_xfer` up to the post, which
  succeeds or not. -/
  | workerExecute (post : Bool)
  /-- `real_poll_completion` returns `rc`. -/
  | workerPoll (rc : Int)
  /-- The worker's second locked section. -/
  | workerComplete
  /-- The completion log after the unlock. -/
  | workerLog
  /-- The NBD thread writes to, or trims, the backend. -/
  | backendWrite (offset : UInt64) (data : List UInt8) (len : UInt32)
  | backendZero (offset : UInt64) (len : UInt32)

/-! ### Elementary state changes -/

/-- Start a call with program point `pc`. -/
def Sys.newCall (s : Sys) (kind : CallKind) (pc : CallPc) : Sys :=
  { s with
    calls := update s.calls s.nextCall (some ⟨kind, pc⟩)
    nextCall := s.nextCall + 1 }

/-- Move call `c` of the given kind to `pc`. -/
def Sys.setCall (s : Sys) (c : CallId) (kind : CallKind) (pc : CallPc) : Sys :=
  { s with calls := update s.calls c (some ⟨kind, pc⟩) }

/-- `free` of a mock buffer; `free(NULL)` does nothing. -/
def Sys.freeHbm (s : Sys) : Option CallId → Sys
  | none => s
  | some h => { s with hbm := update s.hbm h { s.hbm h with live := false } }

section FreeHbm

variable (s : Sys) (h : Option CallId)

@[simp] theorem reqs_freeHbm : (s.freeHbm h).reqs = s.reqs := by
  cases h <;> rfl

@[simp] theorem calls_freeHbm : (s.freeHbm h).calls = s.calls := by
  cases h <;> rfl

@[simp] theorem nextCall_freeHbm : (s.freeHbm h).nextCall = s.nextCall := by
  cases h <;> rfl

@[simp] theorem mgr_freeHbm : (s.freeHbm h).mgr = s.mgr := by
  cases h <;> rfl

@[simp] theorem backend_freeHbm : (s.freeHbm h).backend = s.backend := by
  cases h <;> rfl

@[simp] theorem worker_freeHbm : (s.freeHbm h).worker = s.worker := by
  cases h <;> rfl

end FreeHbm

/-! ### API calls -/

/-- `ramdisk_urma_transfer_sync` from its entry to its first wait, or to its
return when validation fails or the queue is full. -/
def transferSync (s : Sys) (x : UrmaTransfer) (timeoutMs : UInt32)
    (now : ClockTime) : Sys :=
  match validateXferLocked s.mgr s.backend x with
  | .error rc => s.newCall (.transfer x timeoutMs) (.returned rc)
  | .ok _ =>
      if s.mgr.pending ≥ s.mgr.queueDepth then
        s.newCall (.transfer x timeoutMs) (.returned (-EBUSY))
      else
        { s.newCall (.transfer x timeoutMs)
            (.waiting (makeAbsTimeout now (effectiveTimeout timeoutMs))) with
          mgr := { s.mgr with queue := s.mgr.queue.push s.nextCall }
          reqs := update s.reqs s.nextCall (Request.ofXfer x)
          accepted := s.accepted ++ [s.nextCall] }

/-- `pthread_cond_timedwait` may return 0 at any time (a signal or a spurious
wake-up) or `ETIMEDOUT`; anything else only for a deadline it rejects. -/
def timedwaitMayReturn (ts : Timespec) (rc : Int) : Prop :=
  rc = 0 ∨ rc = ETIMEDOUT ∨ ¬ ts.Valid

instance (ts : Timespec) (rc : Int) : Decidable (timedwaitMayReturn ts rc) :=
  inferInstanceAs (Decidable (_ ∨ _))

/-- The loop condition of `ramdisk_urma_transfer_sync`: leave with the
request's status once it is done, else wait (again) with deadline `ts`. -/
def waitLoop (s : Sys) (c : CallId) (kind : CallKind) (ts : Timespec) : Sys :=
  if (s.reqs c).done then s.setCall c kind (.returned (s.reqs c).status)
  else s.setCall c kind (.waiting ts)

/-- The body of the wait loop of `ramdisk_urma_transfer_sync`. -/
def timedwait (s : Sys) (c : CallId) (rc : Int) (now : ClockTime) : Option Sys :=
  match s.calls c with
  | some ⟨.transfer x timeoutMs, .waiting ts⟩ =>
      if timedwaitMayReturn ts rc then
        if rc = ETIMEDOUT then
          some (waitLoop s c (.transfer x timeoutMs)
            (makeAbsTimeout now (effectiveTimeout timeoutMs)))
        else if rc ≠ 0 then
          some (s.setCall c (.transfer x timeoutMs) (.returned (-rc)))
        else some (waitLoop s c (.transfer x timeoutMs) ts)
      else none
  | _ => none

/-- `real_import_peer`; on a failed jetty import the segment is released
again. -/
def realImportPeer (m : Mgr) (p : Peer) (env : ConnectEnv) : Except Int Peer :=
  if !m.realInitialized then .error (-ENODEV)
  else
    match env.importSeg, env.importJetty with
    | none, _ => .error (- EIO)
    | some _, none => .error (- EIO)
    | some seg, some jetty =>
        .ok { p with
          remoteSeg := ⟨p.eid, p.uasid, p.segVa, p.segLen, p.segTokenId⟩
          importTseg := some seg
          tJetty := some jetty }

/-- `ramdisk_urma_peer_connect` up to the lock. -/
def peerConnect (s : Sys) (info : PeerConnectInfo) (env : ConnectEnv) : Sys :=
  if info.peerId = 0 ∨ info.segLen = 0 then
    s.newCall (.peerConnect info) (.returned (-EINVAL))
  else if s.mgr.useMock then
    if !env.calloc then s.newCall (.peerConnect info) (.returned (-ENOMEM))
    else
      { s.newCall (.peerConnect info)
          (.locking { Peer.ofInfo info s.nextCall with mockHbm := some s.nextCall }) with
        hbm := update s.hbm s.nextCall ⟨true, info.segLen, ByteMem.zero⟩ }
  else
    match realImportPeer s.mgr (Peer.ofInfo info s.nextCall) env with
    | .error rc => s.newCall (.peerConnect info) (.returned rc)
    | .ok p => s.newCall (.peerConnect info) (.locking p)

/-- The locked section of `ramdisk_urma_peer_connect`. -/
def peerConnectLocked (s : Sys) (c : CallId) : Option Sys :=
  match s.calls c with
  | some ⟨.peerConnect info, .locking p⟩ =>
      if !s.mgr.enabled then
        some ((s.freeHbm p.mockHbm).setCall c (.peerConnect info)
          (.returned (-EOPNOTSUPP)))
      else
        match findPeerLocked s.mgr p.peerId with
        | some _ => some ((s.freeHbm p.mockHbm).setCall c (.peerConnect info)
            (.returned (-EEXIST)))
        | none =>
            match findFreeSlot s.mgr with
            | none => some ((s.freeHbm p.mockHbm).setCall c (.peerConnect info)
                (.returned (-ENOSPC)))
            | some k =>
                some { s.setCall c (.peerConnect info) (.returned 0) with
                  mgr := { s.mgr with peers := update s.mgr.peers k p } }
  | _ => none

/-- `ramdisk_urma_peer_disconnect` up to the unlock. -/
def peerDisconnect (s : Sys) (peerId : UInt64) : Sys :=
  if peerId = 0 then s.newCall (.peerDisconnect peerId) (.returned (-EINVAL))
  else
    match findPeerLocked s.mgr peerId with
    | none => s.newCall (.peerDisconnect peerId) (.returned (-ENOENT))
    | some k =>
        { s.newCall (.peerDisconnect peerId) (.releasing (s.mgr.peers k)) with
          mgr := { s.mgr with peers := update s.mgr.peers k Peer.cleared } }

/-- The end of `ramdisk_urma_peer_disconnect`. -/
def peerDisconnectRelease (s : Sys) (c : CallId) : Option Sys :=
  match s.calls c with
  | some ⟨.peerDisconnect peerId, .releasing old⟩ =>
      some ((s.freeHbm old.mockHbm).setCall c (.peerDisconnect peerId) (.returned 0))
  | _ => none

/-- The range test shared by `ramdisk_urma_mock_write_peer` and
`ramdisk_urma_mock_read_peer`: the buffer and the offset into it. -/
def mockPeerRange (m : Mgr) (peerId remoteAddr : UInt64) (len : UInt32) :
    Except Int (CallId × UInt64) :=
  match findPeerLocked m peerId with
  | none => .error (-ENODEV)
  | some k =>
      match (m.peers k).mockHbm with
      | none => .error (-ENODEV)
      | some h =>
          let peer := m.peers k
          if remoteAddr < peer.segVa ∨ len.toUInt64 > peer.segLen ∨
              remoteAddr - peer.segVa > peer.segLen - len.toUInt64 then
            .error (-ERANGE)
          else .ok (h, remoteAddr - peer.segVa)

/-- `ramdisk_urma_mock_write_peer`. -/
def mockWritePeer (s : Sys) (peerId remoteAddr : UInt64) (data : List UInt8)
    (len : UInt32) : Sys :=
  match mockPeerRange s.mgr peerId remoteAddr len with
  | .error rc => s.newCall (.mockWritePeer peerId remoteAddr len) (.returned rc)
  | .ok (h, off) =>
      { s.newCall (.mockWritePeer peerId remoteAddr len) (.returned 0) with
        hbm := update s.hbm h
          { s.hbm h with mem := (s.hbm h).mem.store off.toNat (data.take len.toNat) } }

/-! ### The worker -/

/-- The worker's first locked section (`urma_worker_main`, from the lock to
the unlock before the execution).  While the queue is empty the worker stays
in `pthread_cond_wait`. -/
def workerDequeue (s : Sys) (uninit : UninitRead) : Option Sys :=
  match s.worker with
  | .top =>
      if !s.mgr.stopping && s.mgr.pending == 0 then some s
      else if s.mgr.stopping && s.mgr.pending == 0 then
        some { s with worker := .stopped }
      else
        match s.mgr.queue.front with
        | none => some { s with worker := .faulted none }
        | some c =>
            let s' : Sys := { s with
              mgr := { s.mgr with
                queue := s.mgr.queue.pop
                inflight := s.mgr.inflight + 1 }
              dequeued := s.dequeued ++ [c] }
            let req := s.reqs c
            match validateXferLocked s.mgr s.backend req.xfer with
            | .ok k =>
                some { s' with
                  reqs := update s.reqs c
                    { req with remoteHbmAddr := (s.mgr.peers k).segVa }
                  worker := .executing c k (s.mgr.peers k).conn }
            | .error rc =>
                -- `peer` was not set, and `peer->seg_va` is read all the same
                match uninit with
                | .fault => some { s' with
                    worker := .faulted (some c)
                    wildReads := s.wildReads + 1 }
                | .value v => some { s' with
                    reqs := update s.reqs c { req with remoteHbmAddr := v }
                    worker := .finishing c rc
                    wildReads := s.wildReads + 1 }
  | _ => none

/-- `execute_mock_xfer`: the return code, the backend content and the HBM
buffers afterwards; `none` when the copy leaves the buffers it may touch. -/
def executeMockXfer (s : Sys) (req : Request) (peer : Peer) :
    Option (Int × ByteMem × (CallId → HbmBuf)) :=
  let remoteOff := req.remoteHbmAddr - peer.segVa
  match peer.mockHbm with
  | none => some (-ENODEV, s.backend.mem, s.hbm)
  | some h =>
      if ramdiskBackendLock s.backend ≠ 0 then
        some (ramdiskBackendLock s.backend, s.backend.mem, s.hbm)
      else if (s.hbm h).live ∧
          remoteOff.toNat + req.length.toNat ≤ (s.hbm h).len.toNat ∧
          req.localOffset.toNat + req.length.toNat ≤ s.backend.size.toNat then
        if req.direction = ramdiskToHbm then
          some (0, s.backend.mem, update s.hbm h { s.hbm h with
            mem := (s.hbm h).mem.copy remoteOff.toNat s.backend.mem
              req.localOffset.toNat req.length.toNat })
        else
          some (0, s.backend.mem.copy req.localOffset.toNat (s.hbm h).mem
            remoteOff.toNat req.length.toNat, s.hbm)
      else none

/-- `execute_real_xfer` up to the post: the error code, or the work request. -/
def realWorkRequest (s : Sys) (req : Request) (peer : Peer) :
    Except Int WorkRequest :=
  match s.mgr.realInitialized, peer.importTseg, peer.tJetty, s.mgr.localTseg with
  | true, some importTseg, some tJetty, some localTseg =>
      let remoteOff := req.remoteHbmAddr - peer.segVa
      let localSge : Sge := ⟨s.backend.base + req.localOffset, req.length, localTseg⟩
      let remoteSge : Sge := ⟨peer.remoteSeg.va + remoteOff, req.length, importTseg⟩
      if req.direction = ramdiskToHbm then
        .ok ⟨.write, localSge, remoteSge, tJetty, req.requestId⟩
      else .ok ⟨.read, remoteSge, localSge, tJetty, req.requestId⟩
  | _, _, _, _ => .error (-ENODEV)

/-- The worker executes the request it validated, without the lock and through
the slot pointer. -/
def workerExecute (s : Sys) (post : Bool) : Option Sys :=
  match s.worker with
  | .executing c k _ =>
      if s.mgr.useMock then
        match executeMockXfer s (s.reqs c) (s.mgr.peers k) with
        | none => some { s with worker := .faulted (some c) }
        | some (rc, mem, hbm) => some { s with
            backend := { s.backend with mem := mem }
            hbm := hbm
            worker := .finishing c rc }
      else
        match realWorkRequest s (s.reqs c) (s.mgr.peers k) with
        | .error rc => some { s with worker := .finishing c rc }
        | .ok wr =>
            if !post then some { s with worker := .finishing c (- EIO) }
            else some { s with
              worker := .polling c
              posted := s.posted ++ [wr] }
  | _ => none

/-- `real_poll_completion` comes back with 0, `-EIO` or `-ETIMEDOUT`. -/
def workerPoll (s : Sys) (rc : Int) : Option Sys :=
  match s.worker with
  | .polling c =>
      if rc = 0 ∨ rc = - EIO ∨ rc = -ETIMEDOUT then
        some { s with worker := .finishing c rc }
      else none
  | _ => none

/-- The worker's second locked section. -/
def workerComplete (s : Sys) : Option Sys :=
  match s.worker with
  | .finishing c rc =>
      some { s with
        mgr := { s.mgr with
          inflight := s.mgr.inflight - 1
          completed := if rc = 0 then s.mgr.completed + 1 else s.mgr.completed
          failed := if rc = 0 then s.mgr.failed else s.mgr.failed + 1 }
        reqs := update s.reqs c { s.reqs c with status := rc, done := true }
        worker := .logging c rc
        finished := s.finished ++ [c] }
  | _ => none

/-- The completion log reads the request's fields and changes nothing. -/
def workerLog (s : Sys) : Option Sys :=
  match s.worker with
  | .logging _ _ => some { s with worker := .top }
  | _ => none

/-! ### The step function -/

/-- One step of the daemon; nothing happens any more once it has faulted. -/
def step (s : Sys) (a : Action) : Option Sys :=
  match s.worker with
  | .faulted _ => none
  | _ =>
      match a with
      | .transferSync x timeoutMs now => some (transferSync s x timeoutMs now)
      | .timedwait c rc now => timedwait s c rc now
      | .peerConnect info env => some (peerConnect s info env)
      | .peerConnectLocked c => peerConnectLocked s c
      | .peerDisconnect peerId => some (peerDisconnect s peerId)
      | .peerDisconnectRelease c => peerDisconnectRelease s c
      | .enable => some
          { s.newCall .enable (.returned 0) with mgr := { s.mgr with enabled := true } }
      | .disable => some
          { s.newCall .disable (.returned 0) with mgr := { s.mgr with enabled := false } }
      | .fillStatus => some (s.newCall .fillStatus (.returned 0))
      | .mockWritePeer peerId remoteAddr data len =>
          some (mockWritePeer s peerId remoteAddr data len)
      | .mgrDestroy => some
          { s.newCall .mgrDestroy .joining with mgr := { s.mgr with stopping := true } }
      | .workerDequeue uninit => workerDequeue s uninit
      | .workerExecute post => workerExecute s post
      | .workerPoll rc => workerPoll s rc
      | .workerComplete => workerComplete s
      | .workerLog => workerLog s
      | .backendWrite offset data len =>
          some { s with backend := (ramdiskBackendWrite s.backend offset false data len).2 }
      | .backendZero offset len =>
          some { s with backend := (ramdiskBackendZero s.backend offset len).2 }

/-- A state some run of the daemon reaches. -/
def Reachable (s : Sys) : Prop :=
  ∃ s₀ as, Initial s₀ ∧ run step s₀ as = some s

/-! ### A small daemon

One backend of two blocks and one mock manager, on which concrete runs can be
computed. -/

namespace Small

def backend : Backend := ⟨4096, 1024, 512, true, ByteMem.zero⟩

def config : Config := ⟨true, true, 4⟩

def start : Sys := Sys.start backend (Mgr.fresh (some config))

/-- A peer with a segment of two blocks. -/
def peer (peerId : UInt64) : PeerConnectInfo :=
  ⟨peerId, Vector.replicate 16 0, 0, 65536, 1024, 0, 0⟩

/-- Copy the first block of the ramdisk to `remoteHbmAddr`. -/
def xfer (remoteHbmAddr : UInt64) : UrmaTransfer :=
  ⟨7, 1, 0, remoteHbmAddr, 512, ramdiskToHbm⟩

def now : ClockTime := ⟨0, 0, by decide, by decide⟩

/-- Peer 7 connects as call 0. -/
def connect : List Action :=
  [.peerConnect (peer 7) ⟨true, none, none⟩, .peerConnectLocked 0]

theorem start_initial : Initial start := by
  refine ⟨backend, Mgr.fresh (some config), some config, true, 0, .error 0, 0, ?_, rfl, rfl⟩
  exact ⟨rfl, by decide, by decide, by decide⟩

end Small

end Urma

end DirectStorage
