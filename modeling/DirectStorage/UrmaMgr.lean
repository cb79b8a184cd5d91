/-
DirectStorage/UrmaMgr.lean

The URMA manager's data and the functions that run under `mgr->lock`
(`userspace-nbd/src/ramdisk_urma.c`): peer lookup, transfer validation,
the status record, timeouts and manager initialisation.

Identity of objects.  Every API call gets a number (`CallId`).  The request
object of `ramdisk_urma_transfer_sync` lives in the stack frame of its call,
so a pointer to it is the number of that call; the mock HBM buffer allocated
by `ramdisk_urma_peer_connect` is named by the call that allocated it, and so
is the connection it belongs to (`Peer.conn`, a history variable: the code
does not store it).

Modelled is the build with `HAVE_URMA`, in mock and in real mode; handles of
the URMA library are opaque numbers.
-/
import DirectStorage.CtrlTypes
import DirectStorage.RingQueue

namespace DirectStorage

namespace Urma

/-- Number of an API call, counted from the start of the run. -/
abbrev CallId := Nat

/-- A handle of the URMA library. -/
abbrev Handle := Nat

/-- `RAMDISK_URMA_MAX_PEERS`. -/
abbrev maxPeers : Nat := 32

/-- `RAMDISK_URMA_MAX_QUEUE_DEPTH`. -/
abbrev maxQueueDepth : Nat := 1024

/-- An index into `mgr->peers`. -/
abbrev Slot := Fin maxPeers

/-! ### Peers -/

/-- The `urma_seg_t` built by `real_import_peer`. -/
structure RemoteSeg where
  eid : Vector UInt8 16
  uasid : UInt32
  va : UInt64
  len : UInt64
  tokenId : UInt32
  deriving DecidableEq

/-- `struct ramdisk_urma_peer`; `none` stands for a `NULL` pointer. -/
structure Peer where
  active : Bool
  peerId : UInt64
  eid : Vector UInt8 16
  uasid : UInt32
  segVa : UInt64
  segLen : UInt64
  segTokenId : UInt32
  jettyId : UInt32
  mockHbm : Option CallId
  remoteSeg : RemoteSeg
  importTseg : Option Handle
  tJetty : Option Handle
  /-- History variable: the connect call that built this peer. -/
  conn : CallId
  deriving DecidableEq

/-- A slot after `memset(peer, 0, sizeof(*peer))`. -/
def Peer.cleared : Peer where
  active := false
  peerId := 0
  eid := Vector.replicate 16 0
  uasid := 0
  segVa := 0
  segLen := 0
  segTokenId := 0
  jettyId := 0
  mockHbm := none
  remoteSeg := ⟨Vector.replicate 16 0, 0, 0, 0, 0⟩
  importTseg := none
  tJetty := none
  conn := 0

/-- The local `new_peer` of `ramdisk_urma_peer_connect`, before the buffer or
the imports. -/
def Peer.ofInfo (info : PeerConnectInfo) (c : CallId) : Peer :=
  { Peer.cleared with
    active := true
    peerId := info.peerId
    eid := info.eid
    uasid := info.uasid
    segVa := info.segVa
    segLen := info.segLen
    segTokenId := info.segTokenId
    jettyId := info.jettyId
    conn := c }

/-! ### Requests -/

/-- `struct ramdisk_urma_request`. -/
structure Request where
  peerId : UInt64
  requestId : UInt64
  localOffset : UInt64
  remoteHbmAddr : UInt64
  length : UInt32
  direction : UInt32
  status : Int
  done : Bool

/-- The request object as `ramdisk_urma_transfer_sync` fills it in. -/
def Request.ofXfer (x : UrmaTransfer) : Request :=
  ⟨x.peerId, x.requestId, x.localOffset, x.remoteHbmAddr, x.length, x.direction,
    0, false⟩

/-- The local `xfer` the worker fills in from the request. -/
def Request.xfer (r : Request) : UrmaTransfer :=
  ⟨r.peerId, r.requestId, r.localOffset, r.remoteHbmAddr, r.length, r.direction⟩

/-! ### The manager -/

/-- `struct ramdisk_urma_mgr`.  The ring is `queue`, `head`, `tail` and
`pending`; its capacity is the length of the array `calloc` returned. -/
structure Mgr where
  enabled : Bool
  useMock : Bool
  stopping : Bool
  queueDepth : Nat
  queue : Ring CallId
  inflight : Nat
  completed : Nat
  failed : Nat
  peers : Slot → Peer
  realInitialized : Bool
  localTseg : Option Handle

/-- `mgr->pending`. -/
abbrev Mgr.pending (m : Mgr) : Nat := m.queue.count

/-- `struct ramdisk_urma_config`, as far as the manager's own logic reads it. -/
structure Config where
  enable : Bool
  useMock : Bool
  queueDepth : UInt32

/-- The queue depth `ramdisk_urma_mgr_init` uses: the configured one, or 32. -/
def chosenDepth : Option Config → Nat
  | some cfg => if cfg.queueDepth ≠ 0 then cfg.queueDepth.toNat else 32
  | none => 32

/-- The manager as `ramdisk_urma_mgr_init` fills it in before it sets up a
provider. -/
def Mgr.fresh (config : Option Config) : Mgr where
  enabled := (config.map Config.enable).getD false
  useMock := (config.map Config.useMock).getD true
  stopping := false
  queueDepth := chosenDepth config
  queue := Ring.empty (chosenDepth config)
  inflight := 0
  completed := 0
  failed := 0
  peers := fun _ => Peer.cleared
  realInitialized := false
  localTseg := none

/-- `ramdisk_urma_mgr_init` up to the start of the worker.  The arguments after
`config` are the outcomes of `calloc`, `pthread_mutex_init`,
`real_init_provider` (its code, or the registered segment) and
`pthread_create`. -/
def ramdiskUrmaMgrInit (config : Option Config) (queueOk : Bool) (mutexRc : Int)
    (provider : Except Int Handle) (threadRc : Int) : Except Int Mgr :=
  if chosenDepth config > maxQueueDepth then .error (-EINVAL)
  else if !queueOk then .error (-ENOMEM)
  else if mutexRc ≠ 0 then .error (-mutexRc)
  else if (Mgr.fresh config).useMock then
    if threadRc ≠ 0 then .error (-threadRc) else .ok (Mgr.fresh config)
  else
    match provider with
    | .error rc => .error rc
    | .ok tseg =>
        if threadRc ≠ 0 then .error (-threadRc)
        else .ok { Mgr.fresh config with realInitialized := true, localTseg := some tseg }

/-- `find_peer_locked`: the first active slot with that id. -/
def findPeerLocked (m : Mgr) (peerId : UInt64) : Option Slot :=
  (List.finRange maxPeers).find? fun k =>
    (m.peers k).active && (m.peers k).peerId == peerId

/-- The free-slot search of `ramdisk_urma_peer_connect`. -/
def findFreeSlot (m : Mgr) : Option Slot :=
  (List.finRange maxPeers).find? fun k => !(m.peers k).active

/-- `validate_alignment`. -/
def validateAlignment (b : Backend) (x : UrmaTransfer) : Int :=
  let bs := ramdiskBackendBlockSize b
  if bs = 0 then -EINVAL
  else if x.localOffset % bs.toUInt64 ≠ 0 ∨ x.remoteHbmAddr % bs.toUInt64 ≠ 0 ∨
      x.length % bs ≠ 0 then -EINVAL
  else 0

/-- `validate_xfer_locked`: the error code, or the slot stored in
`*peer_out`.  On an error `*peer_out` is not written. -/
def validateXferLocked (m : Mgr) (b : Backend) (x : UrmaTransfer) :
    Except Int Slot :=
  if !m.enabled then .error (-EOPNOTSUPP)
  else if x.length = 0 then .error (-EINVAL)
  else if x.direction ≠ ramdiskToHbm ∧ x.direction ≠ hbmToRamdisk then
    .error (-EINVAL)
  else if ramdiskBackendValidateRange b x.localOffset x.length.toUInt64 ≠ 0 then
    .error (-ERANGE)
  else if validateAlignment b x ≠ 0 then .error (-EINVAL)
  else
    match findPeerLocked m x.peerId with
    | none => .error (-ENODEV)
    | some k =>
        let peer := m.peers k
        if x.remoteHbmAddr < peer.segVa then .error (-ERANGE)
        else
          let remoteOff := x.remoteHbmAddr - peer.segVa
          if remoteOff > peer.segLen ∨ x.length.toUInt64 > peer.segLen - remoteOff then
            .error (-ERANGE)
          else .ok k

/-- `ramdisk_urma_fill_status` on an initialised manager. -/
def ramdiskUrmaFillStatus (m : Mgr) (status : CtrlStatus) : CtrlStatus :=
  { status with
    urmaEnabled := if m.enabled then 1 else 0
    queueDepth := UInt32.ofNat m.queueDepth
    inflight := UInt32.ofNat m.inflight
    pending := UInt32.ofNat m.pending
    completed := UInt64.ofNat m.completed
    failed := UInt64.ofNat m.failed
    peerCount := (List.finRange maxPeers).foldl
      (fun n k => if (m.peers k).active then n + 1 else n) status.peerCount }

/-! ### Timeouts -/

/-- What `clock_gettime` returns. -/
structure ClockTime where
  sec : Int
  nsec : Int
  nsec_nonneg : 0 ≤ nsec
  nsec_lt : nsec < 1000000000

/-- `struct timespec`. -/
structure Timespec where
  sec : Int
  nsec : Int
  deriving DecidableEq

/-- `make_abs_timeout`. -/
def makeAbsTimeout (now : ClockTime) (timeoutMs : UInt32) : Timespec :=
  let sec := now.sec + (timeoutMs / 1000).toNat
  let nsec := now.nsec + (timeoutMs % 1000).toNat * 1000000
  if nsec ≥ 1000000000 then ⟨sec + 1, nsec - 1000000000⟩ else ⟨sec, nsec⟩

/-- The deadline is one `pthread_cond_timedwait` accepts. -/
def Timespec.Valid (ts : Timespec) : Prop := 0 ≤ ts.nsec ∧ ts.nsec < 1000000000

instance (ts : Timespec) : Decidable ts.Valid :=
  inferInstanceAs (Decidable (_ ∧ _))

/-- `RAMDISK_URMA_DEFAULT_TIMEOUT_MS`, taken for a zero timeout. -/
def effectiveTimeout (timeoutMs : UInt32) : UInt32 :=
  if timeoutMs = 0 then 30000 else timeoutMs

/-- `make_abs_timeout` always produces a deadline that can be waited for. -/
theorem makeAbsTimeout_valid (now : ClockTime) (timeoutMs : UInt32) :
    (makeAbsTimeout now timeoutMs).Valid := by
  have h₀ := now.nsec_nonneg
  have h₁ := now.nsec_lt
  have hms : (timeoutMs % 1000).toNat < 1000 := by
    rw [UInt32.toNat_mod]
    exact Nat.mod_lt _ (by decide)
  unfold makeAbsTimeout Timespec.Valid
  dsimp only
  split <;> dsimp only <;> omega

/-! ### What initialisation, lookup and validation establish -/

theorem chosenDepth_pos (config : Option Config) : 1 ≤ chosenDepth config := by
  cases config with
  | none => decide
  | some cfg =>
      by_cases h : cfg.queueDepth = 0
      · simp [chosenDepth, h]
      · have hne : cfg.queueDepth.toNat ≠ 0 := fun e => h (UInt32.toNat.inj e)
        simp only [chosenDepth, ne_eq, h, not_false_eq_true, if_true]
        omega

/-- The manager `ramdisk_urma_mgr_init` leaves behind differs from the freshly
filled-in one only in the provider's fields, and its depth is 1 to 1024. -/
theorem mgrInit_ok {config : Option Config} {queueOk : Bool} {mutexRc threadRc : Int}
    {provider : Except Int Handle} {m : Mgr}
    (h : ramdiskUrmaMgrInit config queueOk mutexRc provider threadRc = .ok m) :
    chosenDepth config ≤ maxQueueDepth ∧
      m = { Mgr.fresh config with
              realInitialized := m.realInitialized, localTseg := m.localTseg } := by
  unfold ramdiskUrmaMgrInit at h
  cases provider with
  | error rc =>
      split_ifs at h
      obtain rfl := Except.ok.inj h
      exact ⟨by omega, rfl⟩
  | ok tseg =>
      dsimp only at h
      split_ifs at h
      · obtain rfl := Except.ok.inj h
        exact ⟨by omega, rfl⟩
      · obtain rfl := Except.ok.inj h
        exact ⟨by omega, rfl⟩

theorem findPeerLocked_some {m : Mgr} {peerId : UInt64} {k : Slot}
    (h : findPeerLocked m peerId = some k) :
    (m.peers k).active = true ∧ (m.peers k).peerId = peerId := by
  have := List.find?_some h
  simpa using this

theorem findFreeSlot_some {m : Mgr} {k : Slot} (h : findFreeSlot m = some k) :
    (m.peers k).active = false := by
  have := List.find?_some h
  simpa using this

/-- What a successful `validate_xfer_locked` guarantees, in integers. -/
structure ValidXfer (m : Mgr) (b : Backend) (x : UrmaTransfer) (k : Slot) :
    Prop where
  enabled : m.enabled = true
  length_ne : x.length ≠ 0
  direction : x.direction = ramdiskToHbm ∨ x.direction = hbmToRamdisk
  range : ramdiskBackendValidateRange b x.localOffset x.length.toUInt64 = 0
  aligned : validateAlignment b x = 0
  found : findPeerLocked m x.peerId = some k
  remote_ge : (m.peers k).segVa.toNat ≤ x.remoteHbmAddr.toNat
  remote_le : x.remoteHbmAddr.toNat + x.length.toNat ≤
    (m.peers k).segVa.toNat + (m.peers k).segLen.toNat

/-- The unsigned remote-range test is the integer one. -/
theorem remoteRange_iff {addr va len : UInt64} {n : UInt32} (hge : ¬ addr < va) :
    ¬ (addr - va > len ∨ n.toUInt64 > len - (addr - va)) ↔
      addr.toNat + n.toNat ≤ va.toNat + len.toNat := by
  have hle : va.toNat ≤ addr.toNat := by
    rw [UInt64.lt_iff_toNat_lt] at hge; omega
  have hoff : (addr - va).toNat = addr.toNat - va.toNat :=
    UInt64.toNat_sub_of_le _ _ (UInt64.le_iff_toNat_le.mpr hle)
  rw [rangeTest_iff, not_not, hoff, UInt32.toNat_toUInt64]
  omega

/-- **Validation, inverted**: the accepting path passed every test. -/
theorem validateXferLocked_ok_iff {m : Mgr} {b : Backend} {x : UrmaTransfer}
    {k : Slot} : validateXferLocked m b x = .ok k ↔ ValidXfer m b x k := by
  constructor
  · intro h
    unfold validateXferLocked at h
    split_ifs at h with h₁ h₂ h₃ h₄ h₅
    rcases e : findPeerLocked m x.peerId with - | k'
    · rw [e] at h; cases h
    · rw [e] at h
      dsimp only at h
      split_ifs at h with h₆ h₇
      obtain rfl := Except.ok.inj h
      refine ⟨by simpa using h₁, h₂, by tauto, not_not.mp h₄, not_not.mp h₅, e, ?_, ?_⟩
      · rw [UInt64.lt_iff_toNat_lt] at h₆; omega
      · exact (remoteRange_iff h₆).mp h₇
  · rintro ⟨h₁, h₂, h₃, h₄, h₅, h₆, h₇, h₈⟩
    have hge : ¬ x.remoteHbmAddr < (m.peers k).segVa := by
      rw [UInt64.lt_iff_toNat_lt]; omega
    have hrange := (remoteRange_iff (n := x.length) hge).mpr h₈
    unfold validateXferLocked
    rw [h₁, h₆]
    simp only [Bool.not_true, Bool.false_eq_true, if_false, h₂, h₄, h₅, ne_eq,
      not_true_eq_false, hge, hrange]
    rw [if_neg (by tauto)]

/-- The codes validation fails with. -/
theorem validateXferLocked_error_mem {m : Mgr} {b : Backend} {x : UrmaTransfer}
    {rc : Int} (h : validateXferLocked m b x = .error rc) :
    rc ∈ [-EOPNOTSUPP, -EINVAL, -ERANGE, -ENODEV] := by
  unfold validateXferLocked at h
  rcases e : findPeerLocked m x.peerId with - | k
  · rw [e] at h
    dsimp only at h
    repeat' split at h
    all_goals
      obtain rfl := Except.error.inj h
      decide
  · rw [e] at h
    dsimp only at h
    repeat' split at h
    all_goals first | cases h; decide | cases h

/-- Validation fails with an error code, never with 0. -/
theorem validateXferLocked_error_ne {m : Mgr} {b : Backend} {x : UrmaTransfer}
    {rc : Int} (h : validateXferLocked m b x = .error rc) : rc ≠ 0 := by
  rintro rfl
  exact absurd (validateXferLocked_error_mem h) (by decide)

end Urma

end DirectStorage
