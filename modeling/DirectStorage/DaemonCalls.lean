/-
DirectStorage/DaemonCalls.lean

One call of the manager, made for a control operation, against the `Store` of the
atomic service.

A call takes many steps, and other threads run between them.  There is one of its
steps that counts: the locked section of connect, the one that clears the slot of a
disconnect, and for a transfer the step with which the worker gets its result, be it
by copying or from the provider.  Before it the call is `Undecided` and the manager
agrees with the store as it was; after it the call is `Decided`, its result is the
operation's, and the manager agrees with the store the operation leaves.

Main results: `start_stage`, `Undecided.proceed` and `Undecided.worker`, by which a
call passes from the one to the other, and `Decided.proceed` and `Decided.worker`,
by which it keeps its result.
-/
import DirectStorage.DaemonService
import DirectStorage.UrmaAgreement
import DirectStorage.UrmaShutdown

namespace DirectStorage

namespace Daemon

open Ctrl Urma Function

variable {s t : Sys} {a : Action} {c : CallId} {K : Store} {op : Op}

/-! ### The invariant -/

/-- What holds of the manager in every run of the daemon. -/
structure ManagerInv (s : Sys) : Prop where
  orderly : OrderlyInv s
  imports : ImportInv s
  nopoll : s.mgr.useMock = true → ∀ c, s.worker ≠ .polling c

theorem managerInv_initial (hinit : Urma.Initial s) : ManagerInv s := by
  refine ⟨orderlyInv_initial hinit, importInv_initial hinit, ?_⟩
  obtain ⟨b, m, config, queueOk, mutexRc, provider, threadRc, -, -, rfl⟩ := hinit
  rintro - c ⟨⟩

theorem ManagerInv.step (h : ManagerInv s) (hok : Orderly s a) (hstep : Urma.step s a = some t) :
    ManagerInv t := by
  refine ⟨h.orderly.step hok hstep, h.imports.step hstep, ?_⟩
  intro hmock
  have hmock' : s.mgr.useMock = true :=
    (step_peerStep h.orderly.race.peers hstep).mock_eq.symm.trans hmock
  exact nopoll_step hstep hmock' (h.nopoll hmock')

/-! ### The manager agrees with the store -/

/-- The result the worker has and has not counted yet, as completed and failed. -/
def uncounted : WorkerPc → Nat × Nat
  | .finishing _ rc => if rc = 0 then (1, 0) else (0, 1)
  | _ => (0, 0)

theorem uncounted_finishing (c : CallId) (rc : Int) :
    uncounted (.finishing c rc) = if rc = 0 then (1, 0) else (0, 1) := rfl

structure Agrees (s : Sys) (K : Store) : Prop where
  mock : K.mock = s.mgr.useMock
  depth : K.queueDepth = s.mgr.queueDepth
  disk : Represents s K.disk
  completed : K.completed = s.mgr.completed + (uncounted s.worker).1
  failed : K.failed = s.mgr.failed + (uncounted s.worker).2

/-- A step of another thread than the worker. -/
theorem Agrees.other (h : Agrees s K) (ha : a.byWorker = false) (hstep : Urma.step s a = some t)
    {A : PeerState} (hrep : Represents t A) : Agrees t { K with disk := A } := by
  have hmeters := meters_other ha hstep
  have hw := (step_other hstep ha).1
  refine ⟨?_, ?_, hrep, ?_, ?_⟩
  · rw [hmeters.useMock]
    exact h.mock
  · rw [hmeters.queueDepth]
    exact h.depth
  · rw [hmeters.completed, hw]
    exact h.completed
  · rw [hmeters.failed, hw]
    exact h.failed

/-- The NBD thread writes to the ramdisk. -/
theorem Agrees.backend (h : Agrees s K) (b : Backend) :
    Agrees { s with backend := b } { K with disk := { K.disk with backend := b } } :=
  ⟨h.mock, h.depth, ⟨h.disk.enabled, rfl, h.disk.slots⟩, h.completed, h.failed⟩

/-- When no transfer waits, the worker has nothing in hand. -/
theorem inHand_nil (hinv : OrderlyInv s) (hnone : ∀ c, ¬ s.Waits c) : s.worker.inHand = [] := by
  have hhand : ∀ c, s.worker.inHand ≠ [c] := fun c hc => hnone c (hinv.race.queue.waits_hand hc)
  rcases e : s.worker with - | ⟨c, k, conn⟩ | c | ⟨c, rc⟩ | ⟨c, rc⟩ | - | o
  · rfl
  · exact absurd (congrArg WorkerPc.inHand e) (hhand c)
  · exact absurd (congrArg WorkerPc.inHand e) (hhand c)
  · exact absurd (congrArg WorkerPc.inHand e) (hhand c)
  · rfl
  · rfl
  · exact absurd e (hinv.unfaulted o)

theorem uncounted_of_inHand {w : WorkerPc} (h : w.inHand = []) : uncounted w = (0, 0) := by
  cases w with
  | finishing c rc => cases h
  | _ => rfl

theorem not_waits_of_idle (hinv : OrderlyInv s) (hidle : s.Idle) (c : CallId) : ¬ s.Waits c := by
  intro hwaits
  cases (hinv.one.idle hidle c).symm.trans hwaits.busy

/-- **The status record** between two calls is that of the store. -/
theorem Agrees.status (h : Agrees s K) (hinv : OrderlyInv s) (hidle : s.Idle) :
    statusOf s = K.status := by
  have hhand := inHand_nil hinv (not_waits_of_idle hinv hidle)
  have hzero := uncounted_of_inHand hhand
  have hpending : s.mgr.pending = 0 := (hinv.one.drained hinv.race.queue hidle).2
  have hinflight : s.mgr.inflight = 0 := by
    have hcount : s.mgr.inflight = s.worker.inHand.length := hinv.race.queue.core.inflight_eq
    rw [hcount, hhand]
    rfl
  have hcompleted : K.completed = s.mgr.completed := by
    rw [h.completed, hzero]
    rfl
  have hfailed : K.failed = s.mgr.failed := by
    rw [h.failed, hzero]
    rfl
  have hpeers : (statusOf s).peerCount = UInt32.ofNat K.disk.peers.size := by
    have hcount : (statusOf s).peerCount.toNat = K.disk.peers.size := h.disk.peerCount rfl
    rw [← hcount]
    exact (UInt32.ofNat_toNat).symm
  unfold statusOf at hpeers ⊢
  unfold ramdiskUrmaFillStatus Store.status at *
  dsimp only at hpeers ⊢
  rw [hpeers, hpending, hinflight, hcompleted, hfailed, h.depth, ← h.disk.enabled, ← h.disk.backend]
  rfl

theorem Agrees.report (h : Agrees s K) (hinv : OrderlyInv s) (hidle : s.Idle) (op : Op) :
    report s op = K.report op := by
  cases op with
  | fillStatus => exact congrArg statusBytes (h.status hinv hidle)
  | _ => rfl

/-! ### Where a call is -/

/-- Call `c` has not got to the step that counts. -/
inductive Undecided (s : Sys) (c : CallId) : Op → Prop
  /-- Connect has built its peer and is about to take the lock. -/
  | connecting (info : PeerConnectInfo) (p : Peer)
      (hcall : s.calls c = some ⟨.peerConnect info, .locking p⟩)
      (hkeyed : p.keyed s.hbm = some (info.peerId, PeerEntry.ofInfo info))
      (hvalid : info.peerId ≠ 0 ∧ info.segLen ≠ 0) : Undecided s c (.peerConnect info)
  /-- The request is accepted and has no result. -/
  | queued (x : UrmaTransfer) (timeoutMs : UInt32) (k : Slot) (p : Peer) (hheld : Held s c x k p)
      (hout : s.outcome c = none) : Undecided s c (.transferSync x timeoutMs)

/-- Call `c` has its result. -/
inductive Decided (s : Sys) (c : CallId) (rc : Int) : Prop
  | returned (hres : s.resultOf c = some rc)
  /-- Disconnect has cleared the slot and is about to release what it held. -/
  | releasing (peerId : UInt64) (old : Peer)
      (hcall : s.calls c = some ⟨.peerDisconnect peerId, .releasing old⟩) (hrc : rc = 0)
  /-- The request has a result and the call still waits. -/
  | executed (x : UrmaTransfer) (ts : Timespec) (hcall : s.transfer c = some (x, .waiting ts))
      (hout : s.outcome c = some rc)

/-- Call `c` for `op`, when the store was `K` before the operation. -/
inductive CallStage (s : Sys) (K : Store) (c : CallId) (op : Op) : Prop
  | undecided (h : Undecided s c op) (hagrees : Agrees s K)
  | decided (o : Outcome) (hpossible : o.Possible K.mock) (h : Decided s c (K.exec o op).2)
      (hagrees : Agrees s (K.exec o op).1)

theorem Undecided.report (h : Undecided s c op) (r : Sys) : report r op = [] := by
  cases h <;> rfl

theorem possible_ok (mock : Bool) : Outcome.Possible mock ⟨0, 0⟩ := by
  cases mock with
  | true => exact ⟨.inl rfl, rfl⟩
  | false => exact ⟨.inl rfl, .inl rfl⟩

/-! ### A call starts -/

/-- With the mock provider the manager is in sequential use, until it is destroyed. -/
theorem seqInv_of_running (hinv : OrderlyInv s) (hmock : s.mgr.useMock = true)
    (hrunning : s.worker.running = true)
    (hno : ∀ c, s.calls c ≠ some ⟨.mgrDestroy, .joining⟩) : SeqInv s := by
  refine ⟨hinv.race, hinv.one, hmock, ?_, hrunning, hinv.held⟩
  by_contra hstop
  rw [Bool.not_eq_false] at hstop
  obtain ⟨c, hc⟩ := hinv.byCall hstop
  exact hno c hc

theorem seqInv_of_idle (hinv : OrderlyInv s) (hmock : s.mgr.useMock = true) (hidle : s.Idle) :
    SeqInv s := by
  have hno : ∀ c, s.calls c ≠ some ⟨.mgrDestroy, .joining⟩ := by
    intro c hc
    have hbusy : s.busy c = true := by
      rw [Sys.busy, hc]
      rfl
    cases (hinv.one.idle hidle c).symm.trans hbusy
  refine seqInv_of_running hinv hmock ?_ hno
  have hhand := inHand_nil hinv (not_waits_of_idle hinv hidle)
  rcases e : s.worker with - | ⟨c, k, conn⟩ | c | ⟨c, rc⟩ | ⟨c, rc⟩ | - | o
  · rfl
  · rfl
  · rw [e] at hhand
    cases hhand
  · rfl
  · rfl
  · obtain ⟨c, hc⟩ := hinv.byCall (hinv.stopping e)
    exact absurd hc (hno c)
  · exact absurd e (hinv.unfaulted o)

/-- What connect's allocation comes to. -/
def acquireMock (calloc : Bool) : Int := if calloc then 0 else -ENOMEM

theorem connect_acquireMock (K : Store) (info : PeerConnectInfo) (calloc : Bool) :
    K.connect info (acquireMock calloc) = K.disk.connect info calloc := by
  unfold Store.connect
  cases calloc with
  | true => exact if_pos (.inr (.inr rfl))
  | false =>
      by_cases hbad : info.peerId = 0 ∨ info.segLen = 0
      · have hbad' : info.peerId = 0 ∨ info.segLen = 0 ∨ acquireMock false = 0 := by tauto
        rw [if_pos hbad', PeerState.connect, PeerState.connect, dif_pos hbad, dif_pos hbad]
      · have hok : ¬ (info.peerId = 0 ∨ info.segLen = 0 ∨ acquireMock false = 0) := by
          rintro (h | h | h)
          · exact hbad (.inl h)
          · exact hbad (.inr h)
          · exact absurd h (by decide)
        rw [if_neg hok, PeerState.connect, dif_neg hbad, if_pos rfl]
        rfl

/-- Connect with the mock provider. -/
theorem start_connectMock (hinv : OrderlyInv s) (hidle : s.Idle) (h : Agrees s K)
    (hmock : s.mgr.useMock = true) (info : PeerConnectInfo) (env : ConnectEnv)
    (hstep : Urma.step s (.peerConnect info env) = some (peerConnect s info env)) :
    CallStage (peerConnect s info env) K s.nextCall (.peerConnect info) := by
  have hseq := seqInv_of_idle hinv hmock hidle
  rcases start_connect hseq h.disk info env with hprog | hret
  · left
    · generalize env.calloc = calloc at hprog
      cases hprog with
      | connecting info hcall hvalid hzero hrep =>
          refine .connecting info _ hcall ?_ hvalid
          rw [keyed_active _ rfl]
          simp only [Peer.entry, Peer.ofInfo, PeerEntry.ofInfo, Option.map_some, Option.getD_some,
            hzero]
    · refine h.other rfl hstep ?_
      generalize env.calloc = calloc at hprog
      cases hprog with
      | connecting info hcall hvalid hzero hrep => exact hrep
  · have hexec : K.exec ⟨acquireMock env.calloc, 0⟩ (.peerConnect info) =
        ({ K with disk := (K.disk.connect info env.calloc).1 },
          (K.disk.connect info env.calloc).2) := by
      show ({ K with disk := (K.connect info (acquireMock env.calloc)).1 },
        (K.connect info (acquireMock env.calloc)).2) = _
      rw [connect_acquireMock]
    refine .decided ⟨acquireMock env.calloc, 0⟩ ?_ ?_ ?_
    · rw [h.mock, hmock]
      refine ⟨?_, rfl⟩
      cases env.calloc with
      | true => exact .inl rfl
      | false => exact .inr rfl
    · rw [hexec]
      exact .returned hret.result
    · rw [hexec]
      exact h.other rfl hstep hret.represents

/-- Connect with the real provider. -/
theorem start_connectReal (himport : ImportInv s) (h : Agrees s K)
    (hreal : s.mgr.useMock = false) (info : PeerConnectInfo) (env : ConnectEnv)
    (hstep : Urma.step s (.peerConnect info env) = some (peerConnect s info env)) :
    CallStage (peerConnect s info env) K s.nextCall (.peerConnect info) := by
  have hagrees : ∀ {pc}, peerConnect s info env = s.newCall (.peerConnect info) pc →
      Agrees (peerConnect s info env) K := by
    intro pc heq
    refine h.other rfl hstep ?_
    rw [heq]
    exact h.disk.newCall _ _
  -- a connect that fails before the lock
  have hfails : ∀ {acquire} (rc), Outcome.Possible K.mock ⟨acquire, 0⟩ →
      peerConnect s info env = s.newCall (.peerConnect info) (.returned rc) →
      K.connect info acquire = (K.disk, rc) →
      CallStage (peerConnect s info env) K s.nextCall (.peerConnect info) := by
    intro acquire rc hpossible heq hconnect
    have hexec : K.exec ⟨acquire, 0⟩ (.peerConnect info) = (K, rc) := by
      show ({ K with disk := (K.connect info acquire).1 }, (K.connect info acquire).2) = _
      rw [hconnect]
    refine .decided ⟨acquire, 0⟩ hpossible ?_ ?_
    · rw [hexec, heq]
      exact .returned (resultOf_newCall _ _ _)
    · rw [hexec]
      exact hagrees heq
  by_cases hbad : info.peerId = 0 ∨ info.segLen = 0
  · refine hfails (-EINVAL) (possible_ok _) (if_pos hbad) ?_
    rw [Store.connect, if_pos (.inr (.inr rfl)), PeerState.connect, dif_pos hbad]
  have hnot : ¬ s.mgr.useMock = true := by
    rw [hreal]
    exact Bool.false_ne_true
  have hinit := (himport.provider hreal).1
  -- the provider is there, so only the library can fail
  have hlibrary : realImportPeer s.mgr (Peer.ofInfo info s.nextCall) env = .error (- EIO) →
      CallStage (peerConnect s info env) K s.nextCall (.peerConnect info) := by
    intro herror
    have hpossible : Outcome.Possible K.mock ⟨- EIO, 0⟩ := by
      rw [h.mock, hreal]
      exact ⟨.inr rfl, .inl rfl⟩
    refine hfails (- EIO) hpossible ?_ ?_
    · rw [Urma.peerConnect, if_neg hbad, if_neg hnot, herror]
    · rw [Store.connect, if_neg]
      rintro (h₀ | h₀ | h₀)
      · exact hbad (.inl h₀)
      · exact hbad (.inr h₀)
      · exact absurd h₀ (by decide)
  rcases hseg : env.importSeg with - | seg
  · refine hlibrary ?_
    rw [realImportPeer, hinit, hseg]
    rfl
  · rcases hjetty : env.importJetty with - | jetty
    · refine hlibrary ?_
      rw [realImportPeer, hinit, hseg, hjetty]
      rfl
    · have heq : peerConnect s info env = s.newCall (.peerConnect info)
          (.locking { Peer.ofInfo info s.nextCall with
            remoteSeg := ⟨info.eid, info.uasid, info.segVa, info.segLen, info.segTokenId⟩
            importTseg := some seg
            tJetty := some jetty }) := by
        rw [Urma.peerConnect, if_neg hbad, if_neg hnot, realImportPeer, hinit, hseg, hjetty]
        rfl
      refine .undecided ?_ (hagrees heq)
      rw [heq]
      exact .connecting info _ (update_self _ _ _) (keyed_active _ rfl) (not_or.mp hbad)

/-- A transfer is put into the queue, or fails its validation. -/
theorem start_transferSync (hinv : OrderlyInv s) (hidle : s.Idle) (h : Agrees s K)
    (x : UrmaTransfer) (timeoutMs : UInt32) (now : ClockTime)
    (hstep : Urma.step s (.transferSync x timeoutMs now) = some (transferSync s x timeoutMs now)) :
    CallStage (transferSync s x timeoutMs now) K s.nextCall (.transferSync x timeoutMs) := by
  have hq := hinv.race.queue
  obtain ⟨hw, hbytes⟩ := transferSync_frame s x timeoutMs now
  rcases transferSync_cases s x timeoutMs now with ⟨k, hacc⟩ | ⟨rc, heq, hwhy⟩
  · refine .undecided (.queued x timeoutMs k _ hacc.held ?_) ?_
    · -- the worker has not seen the new call
      have hnew : s.nextCall ∉ s.accepted := fun hmem => hq.subs.accepted_ne hmem rfl
      have hfin := ((step_queueStep hq hstep).same_hand hq (congrArg WorkerPc.inHand hw)).1
      refine outcome_none ?_ ?_
      · intro hmem
        exact hnew (hq.core.finished_accepted (hfin ▸ hmem))
      · intro rc hfinishing
        rw [hw] at hfinishing
        exact hnew (hq.core.hand_accepted (congrArg WorkerPc.inHand hfinishing))
    · refine h.other rfl hstep ?_
      exact h.disk.congr hacc.enabled hacc.backend hacc.peers fun k _ => by rw [hbytes.2]
  · have herr : validateXferLocked s.mgr s.backend x = .error rc := by
      rcases hwhy with herr | ⟨-, hfull⟩
      · exact herr
      · -- the queue is empty between calls
        have hempty := (hinv.one.drained hq hidle).2
        have hdepth : 1 ≤ s.mgr.queueDepth := hq.core.depth_pos
        omega
    have hexec : K.exec ⟨0, 0⟩ (.transferSync x timeoutMs) = (K, rc) := by
      show K.transfer x 0 = _
      rw [Store.transfer, h.disk.validate x, herr]
      rfl
    refine .decided ⟨0, 0⟩ (possible_ok _) ?_ ?_
    · rw [hexec, heq]
      exact .returned (resultOf_newCall _ _ _)
    · rw [hexec]
      refine h.other rfl hstep ?_
      rw [heq]
      exact h.disk.newCall _ _

/-- A disconnect that finds its peer has cleared the slot. -/
theorem start_peerDisconnect (h : Agrees s K) (peerId : UInt64)
    (hstep : Urma.step s (.peerDisconnect peerId) = some (peerDisconnect s peerId)) :
    CallStage (peerDisconnect s peerId) K s.nextCall (.peerDisconnect peerId) := by
  rcases start_disconnect h.disk peerId with hprog | hret
  · cases hprog with
    | disconnecting peerId old hcall hrep hrc =>
        refine .decided ⟨0, 0⟩ (possible_ok _) ?_ (h.other rfl hstep hrep)
        exact .releasing peerId old hcall hrc
  · exact .decided ⟨0, 0⟩ (possible_ok _) (.returned hret.result)
      (h.other rfl hstep hret.represents)

/-- **A call that starts** for an operation. -/
theorem start_stage (hinv : ManagerInv s) (hidle : s.Idle) (h : Agrees s K) (env : CallEnv)
    (hstep : Urma.step s (startOf env op) = some t) :
    CallStage t K s.nextCall op := by
  have hstep' := hstep
  unfold Urma.step at hstep
  split at hstep
  · cases hstep
  cases op with
  | fillStatus =>
      obtain rfl := Option.some.inj hstep
      exact .decided ⟨0, 0⟩ (possible_ok _) (.returned (resultOf_newCall _ _ _))
        (h.other rfl hstep' (h.disk.newCall _ _))
  | enable =>
      obtain rfl := Option.some.inj hstep
      exact .decided ⟨0, 0⟩ (possible_ok _) (.returned (resultOf_newCall _ _ _))
        (h.other rfl hstep' ⟨rfl, h.disk.backend, h.disk.slots⟩)
  | disable =>
      obtain rfl := Option.some.inj hstep
      exact .decided ⟨0, 0⟩ (possible_ok _) (.returned (resultOf_newCall _ _ _))
        (h.other rfl hstep' ⟨rfl, h.disk.backend, h.disk.slots⟩)
  | peerConnect info =>
      obtain rfl := Option.some.inj hstep
      cases hmode : s.mgr.useMock with
      | true => exact start_connectMock hinv.orderly hidle h hmode info env.connect hstep'
      | false => exact start_connectReal hinv.imports h hmode info env.connect hstep'
  | peerDisconnect peerId =>
      obtain rfl := Option.some.inj hstep
      exact start_peerDisconnect h peerId hstep'
  | transferSync x timeoutMs =>
      obtain rfl := Option.some.inj hstep
      exact start_transferSync hinv.orderly hidle h x timeoutMs env.now hstep'

/-! ### A call goes on -/

theorem continues_same {c' : CallId} (hgo : Continues s t c' a) (ha : a.continues = some c) :
    c' = c := by
  cases hgo <;> exact Option.some.inj ha

/-- **The locked section of connect** does what the map does. -/
theorem connectLocked_exec {A : PeerState} (hrep : Represents s A) {info : PeerConnectInfo}
    {p : Peer} (hcall : s.calls c = some ⟨.peerConnect info, .locking p⟩)
    (hkeyed : p.keyed s.hbm = some (info.peerId, PeerEntry.ofInfo info))
    (hvalid : info.peerId ≠ 0 ∧ info.segLen ≠ 0) (hstep : peerConnectLocked s c = some t) :
    t.resultOf c = some (A.connect info true).2 ∧ Represents t (A.connect info true).1 := by
  obtain ⟨-, hid, -⟩ := keyed_some hkeyed
  have hbad : ¬ (info.peerId = 0 ∨ info.segLen = 0) := not_or.mpr hvalid
  unfold peerConnectLocked at hstep
  rw [hcall] at hstep
  dsimp only at hstep
  rw [hid] at hstep
  -- the three failures release what the peer holds and change nothing
  have hundo : ∀ rc, A.connect info true = (A, rc) →
      some ((s.freeHbm p.mockHbm).setCall c (.peerConnect info) (.returned rc)) = some t →
      t.resultOf c = some (A.connect info true).2 ∧ Represents t (A.connect info true).1 := by
    intro rc hexec ht
    obtain rfl := Option.some.inj ht
    rw [hexec]
    exact ⟨resultOf_setCall _ _ _ _, hrep.freeHbm _ _ _ _⟩
  cases henabled : s.mgr.enabled with
  | false =>
      rw [henabled] at hstep
      refine hundo _ ?_ hstep
      rw [PeerState.connect, dif_neg hbad, if_neg (by decide),
        if_pos (hrep.enabled.symm.trans henabled)]
  | true =>
      have hA : ¬ A.enabled = false := by rw [← hrep.enabled, henabled]; decide
      rw [henabled] at hstep
      rcases hfind : findPeerLocked s.mgr info.peerId with - | k'
      · have habsent := hrep.find_none hfind
        rw [hfind] at hstep
        rcases hfree : findFreeSlot s.mgr with - | k
        · rw [hfree] at hstep
          refine hundo _ ?_ hstep
          have hfull : ¬ A.peers.size < maxPeers := by
            rw [hrep.size_lt_iff, hfree]
            rintro ⟨k, ⟨⟩⟩
          rw [PeerState.connect, dif_neg hbad, if_neg (by decide), if_neg hA, if_neg habsent,
            dif_neg hfull]
        · rw [hfree] at hstep
          obtain rfl := Option.some.inj hstep
          have hroom : A.peers.size < maxPeers := hrep.size_lt_iff.mpr ⟨k, hfree⟩
          have hexec : A.connect info true = ({ A with
              peers := A.peers.insert info.peerId (PeerEntry.ofInfo info) hvalid (.inr hroom) },
              0) := by
            rw [PeerState.connect, dif_neg hbad, if_neg (by decide), if_neg hA, if_neg habsent,
              dif_pos hroom]
          rw [hexec]
          refine ⟨resultOf_setCall s c (.peerConnect info) 0, ?_⟩
          have hinstall := hrep.install (t := { s.setCall c (.peerConnect info) (.returned 0) with
              mgr := { s.mgr with enabled := true, peers := update s.mgr.peers k p } })
            (findFreeSlot_some hfree) (hid ▸ hkeyed) (hid ▸ hvalid) (hid ▸ habsent) hroom rfl
            henabled.symm rfl rfl
          simpa only [hid] using hinstall
      · rw [hfind] at hstep
        refine hundo _ ?_ hstep
        rw [PeerState.connect, dif_neg hbad, if_neg (by decide), if_neg hA,
          if_pos ((hrep.mem_iff _).mpr ⟨k', hfind⟩)]

/-- A call that goes on: connect gets through its locked section, and a transfer whose
request has no result waits again. -/
theorem Undecided.proceed (hu : Undecided s c op) (hinv : OrderlyInv s) (h : Agrees s K)
    (ha : a.continues = some c) (hstep : Urma.step s a = some t) : CallStage t K c op := by
  obtain ⟨c', hgo⟩ := step_continues hstep (by rw [ha]; rfl)
  obtain rfl := continues_same hgo ha
  cases hu with
  | connecting info p hcall hkeyed hvalid =>
      cases hgo with
      | wakes x timeoutMs ts rc now hcall' h => cases hcall'.symm.trans hcall
      | releases peerId old hcall' h => cases hcall'.symm.trans hcall
      | locks info' p' hcall' hlocked =>
          obtain ⟨hres, hrep⟩ := connectLocked_exec h.disk hcall hkeyed hvalid hlocked
          have hexec : K.exec ⟨0, 0⟩ (.peerConnect info) =
              ({ K with disk := (K.disk.connect info true).1 }, (K.disk.connect info true).2) := by
            show ({ K with disk := (K.connect info 0).1 }, (K.connect info 0).2) = _
            rw [Store.connect, if_pos (.inr (.inr rfl))]
          refine .decided ⟨0, 0⟩ (possible_ok _) ?_ ?_
          · rw [hexec]
            exact .returned hres
          · rw [hexec]
            exact h.other rfl hstep hrep
  | queued x timeoutMs k p hheld hout =>
      have hq := hinv.race.queue
      obtain ⟨rc, now, rfl, hwake⟩ := hgo.wakeup hheld.waits
      obtain ⟨hw, hbytes⟩ := timedwait_frame hwake
      obtain ⟨ts, hts⟩ := hheld.args
      have hacc := (hq.subs.waiting c' x ts hts).2
      have hserial := hinv.serial_of_waits (a := .timedwait c' rc now)
        (orderly_of_no_call rfl) hheld.waits
      have hnf := not_finished_of_outcome hout
      have hfin := ((step_queueStep hq hstep).same_hand hq (congrArg WorkerPc.inHand hw)).1
      have hnf' : c' ∉ t.finished := by
        rw [show t.finished = s.finished from hfin]
        exact hnf
      refine .undecided (.queued x timeoutMs k p (hheld.step hinv.one hq hserial hstep
        (mem_accepted_step hstep hacc) hnf') (outcome_none hnf' ?_))
        (h.other rfl hstep (h.disk.quiet hstep rfl hbytes))
      intro rc' hfinishing
      rw [hw] at hfinishing
      cases (outcome_finishing hnf hfinishing).symm.trans hout

/-! ### The worker -/

/-- What the worker did, seen from the requests. -/
inductive WorkerMove (s t : Sys) : Prop
  /-- It gets no result; at most it counts one. -/
  | goes (hbytes : SameBytes s t) (hout : ∀ c, t.outcome c = s.outcome c)
      (hcompleted : t.mgr.completed + (uncounted t.worker).1 =
        s.mgr.completed + (uncounted s.worker).1)
      (hfailed : t.mgr.failed + (uncounted t.worker).2 = s.mgr.failed + (uncounted s.worker).2)
  /-- The mock provider copies. -/
  | copies (c : CallId) (k : Slot) (conn : CallId) (post : Bool) (hmock : s.mgr.useMock = true)
      (hw : s.worker = .executing c k conn) (hexec : workerExecute s post = some t)
      (hstep : Urma.step s (.workerExecute post) = some t) (hmgr : t.mgr = s.mgr)
  /-- The real provider has ended the request. -/
  | ends (c : CallId) (rc : Int) (hreal : s.mgr.useMock = false) (hhand : s.worker.inHand = [c])
      (hrc : rc = 0 ∨ rc = - EIO ∨ rc = -ETIMEDOUT) (hzero : uncounted s.worker = (0, 0))
      (ht : t = { s with worker := .finishing c rc })

/-- A step that writes nothing but the worker's program point, and that not to
`finishing`. -/
theorem workerMove_of_pc (hs : uncounted s.worker = (0, 0)) (ht : uncounted t.worker = (0, 0))
    (hbytes : SameBytes s t)
    (hmgr : t.mgr.completed = s.mgr.completed ∧ t.mgr.failed = s.mgr.failed)
    (hfin : t.finished = s.finished) (hstatus : ∀ c, (t.reqs c).status = (s.reqs c).status) :
    WorkerMove s t := by
  have hno : ∀ {w : WorkerPc}, uncounted w = (0, 0) → ∀ c rc, w ≠ .finishing c rc := by
    rintro w hw c rc rfl
    rw [uncounted_finishing] at hw
    split_ifs at hw <;> cases hw
  refine .goes hbytes ?_ ?_ ?_
  · intro c
    exact outcome_congr hfin (fun _ => hstatus c) fun rc =>
      ⟨fun h => absurd h (hno ht c rc), fun h => absurd h (hno hs c rc)⟩
  · rw [hmgr.1, hs, ht]
  · rw [hmgr.2, hs, ht]

theorem workerMove_dequeue (hinv : OrderlyInv s) {uninit : UninitRead} (htop : s.worker = .top)
    (hres : DequeueResult s t) (hdeq : workerDequeue s uninit = some t) : WorkerMove s t := by
  obtain ⟨hwild, hw⟩ := hinv.dequeue hdeq
  have hmgr : t.mgr.completed = s.mgr.completed ∧ t.mgr.failed = s.mgr.failed := by
    simp only [workerDequeue] at hdeq
    repeat' split at hdeq
    all_goals first | (cases hdeq; exact ⟨rfl, rfl⟩) | cases hdeq
  have hs : uncounted s.worker = (0, 0) := by rw [htop]; rfl
  have ht : uncounted t.worker = (0, 0) := by
    rcases hw with rfl | ⟨hw, -⟩ | ⟨c, k, conn, hw⟩
    · exact hs
    · rw [hw]
      rfl
    · rw [hw]
      rfl
  cases hres with
  | idle hempty hbytes hw' hreqs hfin =>
      exact workerMove_of_pc hs ht hbytes hmgr hfin fun c => by rw [hreqs]
  | valid c k hd hw' hfin =>
      refine workerMove_of_pc hs ht hd.bytes hmgr hfin ?_
      rw [hd.reqs]
      exact status_setAddr s.reqs c _
  | invalid c rc hfront hrc hbytes hpeers hstatus hfin hwild' hw' => omega

theorem workerMove_execute (hinv : ManagerInv s) {post : Bool}
    (hexec : workerExecute s post = some t)
    (hstep : Urma.step s (.workerExecute post) = some t) : WorkerMove s t := by
  obtain ⟨c, k, conn, hw, -⟩ := workerExecute_worker hexec
  cases hmode : s.mgr.useMock with
  | true =>
      refine .copies c k conn post hmode hw hexec hstep ?_
      simp only [workerExecute, hw, hmode, if_true] at hexec
      split at hexec <;> cases hexec <;> rfl
  | false =>
      -- every peer is imported, so there is a work request to post
      have hready := hinv.orderly.race.ready c k conn hw
      obtain ⟨hinit, htseg⟩ := hinv.imports.provider hmode
      obtain ⟨hseg, hjetty⟩ := hinv.imports.peers hmode (.slot k) _
        (held_slot_active hready.active)
      obtain ⟨tseg, htseg⟩ := Option.isSome_iff_exists.mp htseg
      obtain ⟨seg, hseg⟩ := Option.isSome_iff_exists.mp hseg
      obtain ⟨jetty, hjetty⟩ := Option.isSome_iff_exists.mp hjetty
      have hzero : uncounted s.worker = (0, 0) := by rw [hw]; rfl
      simp only [workerExecute, hw, hmode, realWorkRequest, hinit, htseg, hseg, hjetty,
        Bool.false_eq_true, if_false] at hexec
      split at hexec
      next rc herr => split_ifs at herr
      next wr hwr =>
        cases post with
        | false =>
            obtain rfl := Option.some.inj hexec
            exact .ends c (- EIO) hmode (congrArg WorkerPc.inHand hw) (.inr (.inl rfl)) hzero rfl
        | true =>
            obtain rfl := Option.some.inj hexec
            exact workerMove_of_pc hzero rfl ⟨rfl, rfl⟩ ⟨rfl, rfl⟩ rfl fun _ => rfl

theorem workerMove_complete (hinv : OrderlyInv s) {c : CallId} {rc : Int}
    (hw : s.worker = .finishing c rc) (hres : Completed s t c rc) : WorkerMove s t := by
  have hnf : c ∉ s.finished :=
    hinv.race.queue.core.hand_not_finished (congrArg WorkerPc.inHand hw)
  refine .goes hres.bytes ?_ ?_ ?_
  · intro c'
    by_cases e : c' = c
    · subst e
      rw [outcome_finishing hnf hw, outcome_finished (by rw [hres.finished]; simp), hres.reqs,
        update_self]
    · have hmem : c' ∈ t.finished ↔ c' ∈ s.finished := by
        rw [hres.finished]
        simp [e]
      have hreq : t.reqs c' = s.reqs c' := by rw [hres.reqs, update_of_ne e]
      unfold Sys.outcome
      simp only [hmem, hreq, hres.worker, hw, if_neg (Ne.symm e)]
  · rw [hres.completed, hres.worker, hw, uncounted_finishing]
    split_ifs <;> rfl
  · rw [hres.failed, hres.worker, hw, uncounted_finishing]
    split_ifs <;> rfl

/-- **A step of the worker** in an orderly run. -/
theorem worker_move (hinv : ManagerInv s) (ha : a.byWorker = true)
    (hstep : Urma.step s a = some t) : WorkerMove s t := by
  cases step_cases hstep with
  | other ha' hw hgeo => cases ha'.symm.trans ha
  | dequeue uninit htop hres =>
      exact workerMove_dequeue hinv.orderly htop hres (by simpa only [Urma.step, htop] using hstep)
  | execute post hexec => exact workerMove_execute hinv hexec hstep
  | poll rc c hw ht =>
      have hreal : s.mgr.useMock = false := by
        cases hmode : s.mgr.useMock with
        | true => exact absurd hw (hinv.nopoll hmode c)
        | false => rfl
      have hrc : rc = 0 ∨ rc = - EIO ∨ rc = -ETIMEDOUT := by
        simp only [Urma.step, hw, workerPoll] at hstep
        split_ifs at hstep with hrc
        exact hrc
      exact .ends c rc hreal (congrArg WorkerPc.inHand hw) hrc (by rw [hw]; rfl) ht
  | complete c rc hw hres => exact workerMove_complete hinv.orderly hw hres
  | log c rc hw ht =>
      subst ht
      exact workerMove_of_pc (by rw [hw]; rfl) rfl ⟨rfl, rfl⟩ ⟨rfl, rfl⟩ rfl fun _ => rfl

/-! ### A call and the worker -/

/-- The queue depth never changes. -/
theorem queueDepth_step (hinv : OrderlyInv s) (hstep : Urma.step s a = some t) :
    t.mgr.queueDepth = s.mgr.queueDepth := by
  have hdepth : ∀ {v w : QueueView}, QueueStep v w → w.core.depth = v.core.depth := by
    intro v w h
    cases h <;> rfl
  exact hdepth (step_queueStep hinv.race.queue hstep)

/-- The worker gets no result. -/
theorem Agrees.goes (h : Agrees s K) (hinv : OrderlyInv s) (ha : a.byWorker = true)
    (hstep : Urma.step s a = some t) (hbytes : SameBytes s t)
    (hcompleted : t.mgr.completed + (uncounted t.worker).1 =
      s.mgr.completed + (uncounted s.worker).1)
    (hfailed : t.mgr.failed + (uncounted t.worker).2 = s.mgr.failed + (uncounted s.worker).2) :
    Agrees t K where
  mock := h.mock.trans (worker_kept hstep ha).useMock.symm
  depth := h.depth.trans (queueDepth_step hinv hstep).symm
  disk := h.disk.quiet hstep (quiet_of_byWorker ha) hbytes
  completed := h.completed.trans hcompleted.symm
  failed := h.failed.trans hfailed.symm

/-- The request in the worker's hands has no result before the step that gets it. -/
theorem outcome_in_hand (hinv : OrderlyInv s) (hhand : s.worker.inHand = [c])
    (hzero : uncounted s.worker = (0, 0)) : s.outcome c = none := by
  refine outcome_none (hinv.race.queue.core.hand_not_finished hhand) ?_
  intro rc hw
  rw [hw, uncounted_finishing] at hzero
  split_ifs at hzero <;> cases hzero

/-- **While no transfer waits**, the worker has nothing to do that the store would
notice. -/
theorem Agrees.worker (h : Agrees s K) (hinv : ManagerInv s) (hnone : ∀ c, ¬ s.Waits c)
    (ha : a.byWorker = true) (hstep : Urma.step s a = some t) :
    Agrees t K ∧ SameBytes s t := by
  have hwaits : ∀ c, s.worker.inHand ≠ [c] := fun c hc =>
    hnone c (hinv.orderly.race.queue.waits_hand hc)
  cases worker_move hinv ha hstep with
  | goes hbytes hout hcompleted hfailed =>
      exact ⟨h.goes hinv.orderly ha hstep hbytes hcompleted hfailed, hbytes⟩
  | copies c k conn post hmock hw hexec hstep' hmgr =>
      exact absurd (congrArg WorkerPc.inHand hw) (hwaits c)
  | ends c rc hreal hhand hrc hzero ht => exact absurd hhand (hwaits c)

/-- What a transfer in order comes to. -/
theorem exec_transferSync {x : UrmaTransfer} (timeoutMs : UInt32) {e : PeerEntry} (o : Outcome)
    (hvalid : K.disk.validate x = .ok e) : K.exec o (.transferSync x timeoutMs) =
      ({ K with disk := if K.mock then (K.disk.transfer x).1 else K.disk }.count o.provider,
        o.provider) := by
  show K.transfer x o.provider = _
  rw [Store.transfer, hvalid]

/-- The worker has the result of a request and has not counted it. -/
theorem Agrees.counted (h : Agrees s K) (hzero : uncounted s.worker = (0, 0)) {rc : Int}
    (hmgr : t.mgr = s.mgr) (hw : t.worker = .finishing c rc) {A : PeerState}
    (hrep : Represents t A) : Agrees t ({ K with disk := A }.count rc) := by
  have hmock := h.mock
  have hdepth := h.depth
  have hcompleted := h.completed
  have hfailed := h.failed
  rw [← hmgr] at hmock hdepth
  rw [hzero, ← hmgr] at hcompleted hfailed
  unfold Store.count
  split_ifs with h₀
  · refine ⟨hmock, hdepth, hrep, ?_, ?_⟩
    · rw [hw, uncounted_finishing, if_pos h₀]
      exact congrArg (· + 1) hcompleted
    · rw [hw, uncounted_finishing, if_pos h₀]
      exact hfailed
  · refine ⟨hmock, hdepth, hrep, ?_, ?_⟩
    · rw [hw, uncounted_finishing, if_neg h₀]
      exact hcompleted
    · rw [hw, uncounted_finishing, if_neg h₀]
      exact congrArg (· + 1) hfailed

/-- The worker's copy is the transfer of the store. -/
theorem queued_copies (hinv : ManagerInv s) (h : Agrees s K) {x : UrmaTransfer}
    {timeoutMs : UInt32} {k k' : Slot} {p : Peer} {conn : CallId} {post : Bool}
    (hheld : Held s c x k p) (hmock : s.mgr.useMock = true)
    (hw : s.worker = .executing c k' conn) (hexec : workerExecute s post = some t)
    (hstep : Urma.step s (.workerExecute post) = some t) (hmgr : t.mgr = s.mgr) :
    CallStage t K c (.transferSync x timeoutMs) := by
  have hno : ∀ c', s.calls c' ≠ some ⟨.mgrDestroy, .joining⟩ := by
    intro c' hc'
    have hbusy : s.busy c' = true := by
      rw [Sys.busy, hc']
      rfl
    obtain rfl := hinv.orderly.one.one c' c hbusy hheld.waits.busy
    obtain ⟨ts, hts⟩ := hheld.args
    rw [Sys.transfer, hc'] at hts
    cases hts
  have hseq := seqInv_of_running hinv.orderly hmock (by rw [hw]; rfl) hno
  have hnf : c ∉ s.finished :=
    hinv.orderly.race.queue.core.hand_not_finished (congrArg WorkerPc.inHand hw)
  obtain ⟨hfinishing, hfin, hrep, -⟩ := h.disk.execute hseq hheld hw hexec hstep
  have hvalid : K.disk.validate x = .ok ((s.mgr.peers k).entry s.hbm) := by
    rw [h.disk.validate x, hheld.valid]
    rfl
  have hresult := exec_transferSync timeoutMs ⟨0, 0⟩ hvalid
  rw [if_pos (h.mock.trans hmock)] at hresult
  refine .decided ⟨0, 0⟩ (possible_ok _) ?_ ?_
  · rw [hresult]
    obtain ⟨ts, hts⟩ := hheld.args
    refine .executed x ts ?_ (outcome_finishing (hfin ▸ hnf) hfinishing)
    rw [transfer_congr (congrFun (worker_kept hstep rfl).calls c)]
    exact hts
  · rw [hresult]
    exact h.counted (by rw [hw]; rfl) hmgr hfinishing hrep

/-- The provider's result is that of the store's transfer. -/
theorem queued_ends (h : Agrees s K) {x : UrmaTransfer} {timeoutMs : UInt32} {k : Slot} {p : Peer}
    {rc : Int} (hheld : Held s c x k p) (hout : s.outcome c = none)
    (hreal : s.mgr.useMock = false) (hrc : rc = 0 ∨ rc = - EIO ∨ rc = -ETIMEDOUT)
    (hzero : uncounted s.worker = (0, 0)) (ht : t = { s with worker := .finishing c rc }) :
    CallStage t K c (.transferSync x timeoutMs) := by
  subst ht
  have hvalid : K.disk.validate x = .ok ((s.mgr.peers k).entry s.hbm) := by
    rw [h.disk.validate x, hheld.valid]
    rfl
  have hresult := exec_transferSync timeoutMs ⟨0, rc⟩ hvalid
  rw [if_neg (by rw [h.mock, hreal]; exact Bool.false_ne_true)] at hresult
  have hnf : c ∉ s.finished := not_finished_of_outcome hout
  refine .decided ⟨0, rc⟩ ?_ ?_ ?_
  · rw [h.mock, hreal]
    exact ⟨.inl rfl, hrc⟩
  · rw [hresult]
    obtain ⟨ts, hts⟩ := hheld.args
    exact .executed x ts hts (outcome_finishing hnf rfl)
  · rw [hresult]
    exact h.counted (t := { s with worker := .finishing c rc }) hzero rfl rfl
      ⟨h.disk.enabled, h.disk.backend, h.disk.slots⟩

/-- **The worker goes on** before the call has its result. -/
theorem Undecided.worker (hu : Undecided s c op) (hinv : ManagerInv s) (h : Agrees s K)
    (ha : a.byWorker = true) (hstep : Urma.step s a = some t) : CallStage t K c op := by
  have hq := hinv.orderly.race.queue
  have hkept := worker_kept hstep ha
  cases hu with
  | connecting info p hcall hkeyed hvalid =>
      -- the call in progress is no transfer
      have hnone : ∀ c', ¬ s.Waits c' := by
        intro c' hwaits
        have hbusy : s.busy c = true := by
          rw [Sys.busy, hcall]
          rfl
        obtain rfl := hinv.orderly.one.one c' c hwaits.busy hbusy
        obtain ⟨x, ts, hts⟩ := hwaits
        rw [Sys.transfer, hcall] at hts
        cases hts
      obtain ⟨hagrees, hbytes⟩ := h.worker hinv hnone ha hstep
      refine .undecided (.connecting info p ?_ ?_ hvalid) hagrees
      · rw [hkept.calls]
        exact hcall
      · rw [hbytes.2]
        exact hkeyed
  | queued x timeoutMs k p hheld hout =>
      have honly : ∀ c', s.worker.inHand = [c'] → c' = c := fun c' hc' =>
        hinv.orderly.one.one c' c (hq.waits_hand hc').busy hheld.waits.busy
      obtain ⟨ts, hts⟩ := hheld.args
      have hacc := (hq.subs.waiting c x ts hts).2
      cases worker_move hinv ha hstep with
      | goes hbytes hout' hcompleted hfailed =>
          have hserial := hinv.orderly.serial_of_waits (orderly_of_no_call (call_of_byWorker ha))
            hheld.waits
          have hout'' : t.outcome c = none := (hout' c).trans hout
          exact .undecided (.queued x timeoutMs k p (hheld.step hinv.orderly.one hq hserial hstep
            (mem_accepted_step hstep hacc) (not_finished_of_outcome hout'')) hout'')
            (h.goes hinv.orderly ha hstep hbytes hcompleted hfailed)
      | copies c' k' conn post hmock hw hexec hstep' hmgr =>
          obtain rfl := honly c' (congrArg WorkerPc.inHand hw)
          exact queued_copies hinv h hheld hmock hw hexec hstep' hmgr
      | ends c' rc hreal hhand hrc hzero ht =>
          obtain rfl := honly c' hhand
          exact queued_ends h hheld hout hreal hrc hzero ht

/-- The result of a call that has one does not change, whatever the worker does. -/
theorem Decided.worker {rc : Int} (hd : Decided s c rc) (hinv : ManagerInv s)
    (honly : ∀ c', s.busy c' = true → c' = c) (h : Agrees s K) (ha : a.byWorker = true)
    (hstep : Urma.step s a = some t) : Decided t c rc ∧ Agrees t K := by
  have hcalls := (worker_kept hstep ha).calls
  -- a transfer without a result would be this call, which has one
  have hnot : ∀ c', s.worker.inHand = [c'] → uncounted s.worker ≠ (0, 0) := by
    intro c' hhand hzero
    have hwaits := hinv.orderly.race.queue.waits_hand hhand
    obtain rfl := honly c' hwaits.busy
    cases hd with
    | returned hres => cases (resultOf_busy hwaits.busy).symm.trans hres
    | releasing peerId old hcall hrc =>
        obtain ⟨x, ts, hts⟩ := hwaits
        rw [Sys.transfer, hcall] at hts
        cases hts
    | executed x ts hcall hout =>
        cases (outcome_in_hand hinv.orderly hhand hzero).symm.trans hout
  cases worker_move hinv ha hstep with
  | goes hbytes hout' hcompleted hfailed =>
      refine ⟨?_, h.goes hinv.orderly ha hstep hbytes hcompleted hfailed⟩
      cases hd with
      | returned hres => exact .returned ((resultOf_congr (congrFun hcalls c)).trans hres)
      | releasing peerId old hcall hrc =>
          exact .releasing peerId old ((congrFun hcalls c).trans hcall) hrc
      | executed x ts hcall hout =>
          exact .executed x ts ((transfer_congr (congrFun hcalls c)).trans hcall)
            ((hout' c).trans hout)
  | copies c' k conn post hmock hw hexec hstep' hmgr =>
      exact absurd (by rw [hw]; rfl) (hnot c' (congrArg WorkerPc.inHand hw))
  | ends c' rc' hreal hhand hrc hzero ht => exact absurd hzero (hnot c' hhand)

/-- A call that has its result goes on to return it. -/
theorem Decided.proceed {rc : Int} (hd : Decided s c rc) (hinv : OrderlyInv s) (h : Agrees s K)
    (ha : a.continues = some c) (hstep : Urma.step s a = some t) :
    Decided t c rc ∧ Agrees t K := by
  have hq := hinv.race.queue
  obtain ⟨c', hgo⟩ := step_continues hstep (by rw [ha]; rfl)
  obtain rfl := continues_same hgo ha
  cases hd with
  | returned hres => cases (resultOf_busy hgo.busy).symm.trans hres
  | releasing peerId old hcall hrc =>
      cases hgo with
      | wakes x timeoutMs ts rc now hcall' h => cases hcall'.symm.trans hcall
      | locks info p hcall' h => cases hcall'.symm.trans hcall
      | releases peerId' old' hcall' hrel =>
          simp only [peerDisconnectRelease, hcall] at hrel
          obtain rfl := Option.some.inj hrel
          refine ⟨.returned ?_, h.other rfl hstep (h.disk.freeHbm _ _ _ _)⟩
          rw [resultOf_setCall, hrc]
  | executed x ts hcall hout =>
      have hwaits : s.Waits c' := ⟨x, ts, hcall⟩
      obtain ⟨rc', now, rfl, hwake⟩ := hgo.wakeup hwaits
      obtain ⟨hw, hbytes⟩ := timedwait_frame hwake
      refine ⟨?_, h.other rfl hstep (h.disk.quiet hstep rfl hbytes)⟩
      rcases timedwait_cases hq hcall hwake with ⟨ts', hcall'⟩ | ⟨hdone, hres⟩
      · refine .executed x ts' hcall' ?_
        obtain ⟨hfin, hreqs⟩ := (step_queueStep hq hstep).same_hand hq (congrArg WorkerPc.inHand hw)
        rw [outcome_congr hfin ?_ fun rc' => by rw [hw]]
        · exact hout
        · exact fun hc => congrArg Request.status (hreqs c' (hq.core.finished_accepted hc))
      · -- the request is done, so its result is its status
        have hfin : c' ∈ s.finished := by
          by_contra hnf
          have hacc := (hq.subs.waiting c' x ts hcall).2
          cases hdone.symm.trans (hq.subs.pending c' hacc hnf).1
        rw [outcome_finished hfin] at hout
        exact .returned (hres.trans hout)

/-! ### A call and the NBD thread -/

theorem Undecided.backend (hu : Undecided s c op) {b : Backend} (hgeo : SameGeometry s.backend b) :
    Undecided { s with backend := b } c op := by
  cases hu with
  | connecting info p hcall hkeyed hvalid => exact .connecting info p hcall hkeyed hvalid
  | queued x timeoutMs k p hheld hout =>
      have hvalid : validateXferLocked s.mgr b x = validateXferLocked s.mgr s.backend x :=
        validateXferLocked_congr rfl rfl hgeo x
      exact .queued x timeoutMs k p ⟨hvalid.trans hheld.valid, hheld.slot, hheld.args⟩ hout

theorem Decided.backend {rc : Int} (hd : Decided s c rc) (b : Backend) :
    Decided { s with backend := b } c rc := by
  cases hd with
  | returned hres => exact .returned hres
  | releasing peerId old hcall hrc => exact .releasing peerId old hcall hrc
  | executed x ts hcall hout => exact .executed x ts hcall hout

end Daemon

end DirectStorage
