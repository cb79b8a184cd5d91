/-
DirectStorage/UrmaResources.lean

The manager's life from `ramdisk_urma_mgr_init` to `ramdisk_urma_mgr_destroy`,
with every handle it acquires and releases on the way
(`userspace-nbd/src/ramdisk_urma.c`, built with `HAVE_URMA`).

`Host` is the manager with all its handle fields, and the ledger of the URMA
library and the heap.  One call is one step: the outcomes of the `urma_*` calls,
of the allocations and of the thread creation are in the label.  A handle that is
passed to a create call is a parent of the new one.  `ramdisk_urma_peer_connect` and
`ramdisk_urma_peer_disconnect` are here once more, with their handles; `UrmaHostCalls`
shows that they do what they do in `UrmaSystem`.

`ramdisk_urma_mgr_init` clears the structure it is given and initialises a mutex
in it, which is undefined for a manager whose mutex and worker are in use: on an
initialised manager it is not a step.
-/
import DirectStorage.UrmaSystem
import DirectStorage.Ledger

namespace DirectStorage

namespace Urma

open Function

/-! ### Device addresses -/

/-- `isspace`, in the C locale. -/
def isSpace (c : UInt8) : Bool := c = 32 || (9 ≤ c && c ≤ 13)

/-- `hex_value`; `none` for -1. -/
def hexValue (c : UInt8) : Option UInt8 :=
  if 48 ≤ c ∧ c ≤ 57 then some (c - 48)
  else if 97 ≤ c ∧ c ≤ 102 then some (c - 97 + 10)
  else if 65 ≤ c ∧ c ≤ 70 then some (c - 65 + 10)
  else none

/-- The loop of `parse_eid_text`: `nibbles`, `high` and the bytes so far. -/
def parseEidLoop : List UInt8 → Nat → Option UInt8 → List UInt8 →
    Except Int (Nat × Option UInt8 × List UInt8)
  | [], nibbles, high, raw => .ok (nibbles, high, raw)
  | c :: text, nibbles, high, raw =>
      if c = 58 ∨ c = 45 ∨ isSpace c then parseEidLoop text nibbles high raw
      else
        match hexValue c with
        | none => .error (-EINVAL)
        | some v =>
            if nibbles ≥ 32 then .error (-EINVAL)
            else
              match high with
              | none => parseEidLoop text (nibbles + 1) (some v) raw
              | some h => parseEidLoop text (nibbles + 1) none (raw ++ [(h <<< 4) ||| v])

/-- `parse_eid_text`: 32 hex digits, with `:`, `-` and spaces skipped. -/
def parseEidText (text : List UInt8) : Except Int (List UInt8) :=
  match parseEidLoop text 0 none [] with
  | .error rc => .error rc
  | .ok (nibbles, high, raw) =>
      if nibbles ≠ 32 ∨ high.isSome then .error (-EINVAL) else .ok raw

/-- `urma_eid_info_t`. -/
structure EidInfo where
  eid : List UInt8
  eidIndex : UInt32

/-- `(int)x` for a `uint32_t`. -/
def toCInt (x : UInt32) : Int := x.toInt32.toInt

/-- The loop of `real_select_eid_index`; an error leaves the function. -/
def selectEidLoop (requested : UInt32) (localEid : Option (List UInt8)) :
    List EidInfo → Int → Except Int Int
  | [], selected => .ok selected
  | e :: eids, selected =>
      if localEid = some e.eid then
        if requested ≠ 4294967295 ∧ requested ≠ e.eidIndex then .error (-EINVAL)
        else .ok (toCInt e.eidIndex)
      else if localEid = none ∧ e.eidIndex = requested then
        selectEidLoop requested localEid eids (toCInt requested)
      else selectEidLoop requested localEid eids selected

/-- `real_select_eid_index`; `eids` is what `urma_get_eid_list` returned. -/
def realSelectEidIndex (eids : Option (List EidInfo)) (requested : UInt32)
    (localEid : Option (List UInt8)) : Int :=
  match eids with
  | none => -ENODEV
  | some [] => -ENODEV
  | some (e :: rest) =>
      match selectEidLoop requested localEid (e :: rest) (-1) with
      | .error rc => rc
      | .ok selected =>
          let selected :=
            if selected < 0 ∧ localEid = none ∧ requested = 4294967295 then toCInt e.eidIndex
            else selected
          if selected < 0 then -ENOENT else selected

/-! ### The manager and its handles -/

/-- The kinds of handles. -/
inductive Kind
  /-- `urma_init` until `urma_uninit`. -/
  | init
  | context
  | jfce
  | jfc
  | jfr
  | jetty
  /-- The registered segment. -/
  | segment
  | importSeg
  | importJetty
  /-- A mock HBM buffer. -/
  | hbm
  deriving DecidableEq

/-- `struct ramdisk_urma_mgr` with its handles. -/
structure Host where
  initialized : Bool
  workerStarted : Bool
  mgr : Mgr
  urmaDev : List UInt8
  eidIndex : UInt32
  urmaCtx : Option Handle
  jfce : Option Handle
  jfc : Option Handle
  jfr : Option Handle
  jetty : Option Handle
  /-- The library's own state: the initialisation in force. -/
  urma : Option Handle
  ledger : Ledger Kind

/-- `memset(mgr, 0, sizeof(*mgr))`; the library and the heap do not notice. -/
def Host.cleared (s : Host) : Host where
  initialized := false
  workerStarted := false
  mgr := { Mgr.fresh none with useMock := false, queueDepth := 0, queue := Ring.empty 0 }
  urmaDev := []
  eidIndex := 0
  urmaCtx := none
  jfce := none
  jfc := none
  jfr := none
  jetty := none
  urma := s.urma
  ledger := s.ledger

/-- Nothing has happened: the manager is the zeroed one of the daemon's context. -/
def Host.start : Host :=
  Host.cleared ⟨false, false, Mgr.fresh none, [], 0, none, none, none, none, none, none,
    Ledger.empty⟩

/-- A handle field as a reference: nothing for `NULL`. -/
def ref (kind : Kind) (h : Option Handle) : List (Kind × Handle) := h.toList.map (Prod.mk kind)

namespace Host

/-- What a create call returns: a new handle, or `NULL`. -/
def created (s : Host) (ok : Bool) : Option Handle := if ok then some s.ledger.next else none

/-- A create call, with the handles passed to it. -/
def create (s : Host) (kind : Kind) (parents : List (Kind × Handle)) (ok : Bool) : Host :=
  if ok then { s with ledger := s.ledger.acquire kind parents } else s

/-- A release call, left out for `NULL` (`free(NULL)` does nothing). -/
def release (s : Host) (kind : Kind) : Option Handle → Host
  | none => s
  | some h => { s with ledger := s.ledger.release (kind, h) }

/-- `urma_uninit`. -/
def urmaUninit (s : Host) : Host := { s.release .init s.urma with urma := none }

/-! ### `real_init_provider` -/

/-- What `ramdisk_urma_mgr_init` and `real_init_provider` meet: whether each
call succeeds, and what the device reports. -/
structure InitEnv where
  queueOk : Bool
  mutexRc : Int
  urmaInit : Bool
  /-- `urma_get_device_by_eid` finds a device. -/
  device : Bool
  queryDevice : Bool
  eids : Option (List EidInfo)
  context : Bool
  jfce : Bool
  jfc : Bool
  jfr : Bool
  jetty : Bool
  segment : Bool
  threadRc : Int

/-- The part between `urma_init` and `urma_create_context`: the EID index, or the
code to return after `urma_uninit`. -/
def selectDevice (s : Host) (env : InitEnv) : Except Int Int :=
  if s.urmaDev = [] then .error (-EINVAL)
  else
    match parseEidText s.urmaDev with
    | .error _ => .error (-EINVAL)
    | .ok localEid =>
        if !env.device then .error (-ENODEV)
        else if !env.queryDevice then .error (- EIO)
        else
          let eidIndex := realSelectEidIndex env.eids s.eidIndex (some localEid)
          if eidIndex < 0 then .error eidIndex else .ok eidIndex

/-- The label `fail_ctx`. -/
def failCtx (s : Host) : Int × Host :=
  (- EIO, { s.release .context s.urmaCtx with urmaCtx := none }.urmaUninit)

/-- The label `fail_jfce`, which falls through to `fail_ctx`. -/
def failJfce (s : Host) : Int × Host := failCtx { s.release .jfce s.jfce with jfce := none }

def failJfc (s : Host) : Int × Host := failJfce { s.release .jfc s.jfc with jfc := none }

def failJfr (s : Host) : Int × Host := failJfc { s.release .jfr s.jfr with jfr := none }

def failJetty (s : Host) : Int × Host := failJfr { s.release .jetty s.jetty with jetty := none }

/-- From `urma_register_seg` on. -/
def registerSeg (s : Host) (env : InitEnv) : Int × Host :=
  let s' := { s.create .segment (ref .context s.urmaCtx) env.segment with
    mgr := { s.mgr with localTseg := s.created env.segment } }
  if !env.segment then s'.failJetty
  else (0, { s' with mgr := { s'.mgr with realInitialized := true } })

/-- From `urma_create_jetty` on. -/
def createJetty (s : Host) (env : InitEnv) : Int × Host :=
  let s' := { s.create .jetty (ref .context s.urmaCtx ++ ref .jfc s.jfc ++ ref .jfr s.jfr)
      env.jetty with jetty := s.created env.jetty }
  if !env.jetty then s'.failJfr else s'.registerSeg env

/-- From `urma_create_jfr` on. -/
def createJfr (s : Host) (env : InitEnv) : Int × Host :=
  let s' := { s.create .jfr (ref .context s.urmaCtx ++ ref .jfc s.jfc) env.jfr with
    jfr := s.created env.jfr }
  if !env.jfr then s'.failJfc else s'.createJetty env

/-- From `urma_create_jfc` on. -/
def createJfc (s : Host) (env : InitEnv) : Int × Host :=
  let s' := { s.create .jfc (ref .context s.urmaCtx ++ ref .jfce s.jfce) env.jfc with
    jfc := s.created env.jfc }
  if !env.jfc then s'.failJfce else s'.createJfr env

/-- From `urma_create_jfce` on. -/
def createJfce (s : Host) (env : InitEnv) : Int × Host :=
  let s' := { s.create .jfce (ref .context s.urmaCtx) env.jfce with
    jfce := s.created env.jfce }
  if !env.jfce then s'.failCtx else s'.createJfc env

/-- From `urma_create_context` on; without a context there is only `urma_uninit`
to undo. -/
def createContext (s : Host) (env : InitEnv) : Int × Host :=
  let s' := { s.create .context (ref .init s.urma) env.context with
    urmaCtx := s.created env.context }
  if !env.context then (- EIO, s'.urmaUninit) else s'.createJfce env

/-- `real_init_provider`. -/
def realInitProvider (s : Host) (env : InitEnv) : Int × Host :=
  if !env.urmaInit then (- EIO, s)
  else
    let s' := { s.create .init [] true with urma := s.created true }
    match s'.selectDevice env with
    | .error rc => (rc, s'.urmaUninit)
    | .ok _ => s'.createContext env

/-! ### Peers -/

/-- `real_destroy_peer`: the peer without its imports. -/
def realDestroyPeer (s : Host) (p : Peer) : Host × Peer :=
  ((s.release .importJetty p.tJetty).release .importSeg p.importTseg,
    { p with tJetty := none, importTseg := none })

/-- Whether the calls of one `ramdisk_urma_peer_connect` succeed. -/
structure ConnectOutcome where
  calloc : Bool
  importSeg : Bool
  importJetty : Bool

/-- `real_import_peer`. -/
def realImportPeer (s : Host) (p : Peer) (env : ConnectOutcome) : Except Int Peer × Host :=
  if !s.mgr.realInitialized then (.error (-ENODEV), s)
  else
    let s₁ := s.create .importSeg (ref .context s.urmaCtx) env.importSeg
    let p₁ : Peer := { p with
      remoteSeg := ⟨p.eid, p.uasid, p.segVa, p.segLen, p.segTokenId⟩
      importTseg := s.created env.importSeg }
    if !env.importSeg then (.error (- EIO), s₁)
    else
      let s₂ := s₁.create .importJetty (ref .context s₁.urmaCtx) env.importJetty
      let p₂ : Peer := { p₁ with tJetty := s₁.created env.importJetty }
      if !env.importJetty then (.error (- EIO), (s₂.realDestroyPeer p₂).1)
      else (.ok p₂, s₂)

/-- The undo of `ramdisk_urma_peer_connect`. -/
def dropPeer (s : Host) (p : Peer) : Host := ((s.release .hbm p.mockHbm).realDestroyPeer p).1

def setPeer (s : Host) (k : Slot) (p : Peer) : Host :=
  { s with mgr := { s.mgr with peers := update s.mgr.peers k p } }

/-- The locked section of `ramdisk_urma_peer_connect`. -/
def connectLocked (s : Host) (p : Peer) : Int × Host :=
  if !s.mgr.enabled then (-EOPNOTSUPP, s.dropPeer p)
  else
    match findPeerLocked s.mgr p.peerId with
    | some _ => (-EEXIST, s.dropPeer p)
    | none =>
        match findFreeSlot s.mgr with
        | none => (-ENOSPC, s.dropPeer p)
        | some k => (0, s.setPeer k p)

/-- `ramdisk_urma_peer_connect`. -/
def peerConnect (s : Host) (info : PeerConnectInfo) (env : ConnectOutcome) : Int × Host :=
  let newPeer := Peer.ofInfo info s.ledger.next
  if !s.initialized then (-EINVAL, s)
  else if info.peerId = 0 ∨ info.segLen = 0 then (-EINVAL, s)
  else if s.mgr.useMock then
    if !env.calloc then (-ENOMEM, s)
    else (s.create .hbm [] true).connectLocked { newPeer with mockHbm := s.created true }
  else
    match s.realImportPeer newPeer env with
    | (.error rc, s') => (rc, s')
    | (.ok p, s') => s'.connectLocked p

/-- `ramdisk_urma_peer_disconnect`. -/
def peerDisconnect (s : Host) (peerId : UInt64) : Int × Host :=
  if !s.initialized || peerId == 0 then (-EINVAL, s)
  else
    match findPeerLocked s.mgr peerId with
    | none => (-ENOENT, s)
    | some k =>
        let old := s.mgr.peers k
        (0, ((s.setPeer k Peer.cleared).realDestroyPeer old).1.release .hbm old.mockHbm)

/-! ### Initialisation and destruction -/

/-- The loop body of `ramdisk_urma_mgr_destroy`. -/
def destroySlot (s : Host) (k : Slot) : Host :=
  if (s.mgr.peers k).active then
    let (s', p) := s.realDestroyPeer (s.mgr.peers k)
    (s'.release .hbm p.mockHbm).setPeer k { p with mockHbm := none, active := false }
  else s

/-- The loop body of `real_destroy_provider`. -/
def realDestroySlot (s : Host) (k : Slot) : Host :=
  let (s', p) := s.realDestroyPeer (s.mgr.peers k)
  s'.setPeer k p

/-- `real_destroy_provider`; the fields are not cleared. -/
def realDestroyProvider (s : Host) : Host :=
  if !s.mgr.realInitialized then s
  else
    let s := (List.finRange maxPeers).foldl realDestroySlot s
    let s := s.release .segment s.mgr.localTseg
    let s := s.release .jetty s.jetty
    let s := s.release .jfr s.jfr
    let s := s.release .jfc s.jfc
    let s := s.release .jfce s.jfce
    let s := s.release .context s.urmaCtx
    let s := s.urmaUninit
    { s with mgr := { s.mgr with realInitialized := false } }

/-- `ramdisk_urma_mgr_destroy` stops the worker and joins it. -/
def stopWorker (s : Host) : Host :=
  if s.workerStarted then
    { s with mgr := { s.mgr with stopping := true }, workerStarted := false }
  else s

/-- `ramdisk_urma_mgr_destroy`. -/
def mgrDestroy (s : Host) : Host :=
  if !s.initialized then s
  else
    { ((List.finRange maxPeers).foldl destroySlot s.stopWorker).realDestroyProvider with
      initialized := false }

/-- `struct ramdisk_urma_config`, as far as it is read up to the context. -/
structure HostConfig where
  config : Config
  urmaDev : Option (List UInt8)
  eidIndex : UInt32

/-- The manager once its plain fields are set; `urma_dev` has room for 63
characters. -/
def filled (s : Host) (cfg : Option HostConfig) : Host :=
  { s.cleared with
    initialized := true
    mgr := Mgr.fresh (cfg.map HostConfig.config)
    urmaDev := ((cfg.bind HostConfig.urmaDev).getD []).take 63
    eidIndex := (cfg.map HostConfig.eidIndex).getD 4294967295 }

/-- The end of `ramdisk_urma_mgr_init`, from `pthread_create` on. -/
def startWorker (s : Host) (env : InitEnv) : Int × Host :=
  if env.threadRc ≠ 0 then (-env.threadRc, s.mgrDestroy)
  else (0, { s with workerStarted := true })

/-- `ramdisk_urma_mgr_init`. -/
def mgrInit (s : Host) (backend : Backend) (cfg : Option HostConfig) (env : InitEnv) :
    Int × Host :=
  if !backend.initialized then (-EINVAL, s)
  else if chosenDepth (cfg.map HostConfig.config) > maxQueueDepth then (-EINVAL, s.cleared)
  else if !env.queueOk then (-ENOMEM, s.cleared)
  else if env.mutexRc ≠ 0 then (-env.mutexRc, s.cleared)
  else
    let s := s.filled cfg
    if s.mgr.useMock then s.startWorker env
    else
      match s.realInitProvider env with
      | (0, s) => s.startWorker env
      | (rc, s) => (rc, s.mgrDestroy)

def enable (s : Host) : Int × Host :=
  if !s.initialized then (-EINVAL, s) else (0, { s with mgr := { s.mgr with enabled := true } })

def disable (s : Host) : Int × Host :=
  if !s.initialized then (-EINVAL, s) else (0, { s with mgr := { s.mgr with enabled := false } })

/-! ### Runs -/

inductive Api
  | mgrInit (backend : Backend) (cfg : Option HostConfig) (env : InitEnv)
  | mgrDestroy
  | enable
  | disable
  | peerConnect (info : PeerConnectInfo) (env : ConnectOutcome)
  | peerDisconnect (peerId : UInt64)

/-- The return code of a call (0 for `ramdisk_urma_mgr_destroy`, which has none)
and the state after it. -/
def call (s : Host) : Api → Option (Int × Host)
  | .mgrInit backend cfg env => if s.initialized then none else some (s.mgrInit backend cfg env)
  | .mgrDestroy => some (0, s.mgrDestroy)
  | .enable => some s.enable
  | .disable => some s.disable
  | .peerConnect info env => some (s.peerConnect info env)
  | .peerDisconnect peerId => some (s.peerDisconnect peerId)

def step (s : Host) (a : Api) : Option Host := (s.call a).map Prod.snd

end Host

end Urma

end DirectStorage
