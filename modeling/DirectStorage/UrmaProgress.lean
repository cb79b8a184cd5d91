/-
DirectStorage/UrmaProgress.lean

The calls of a sequential run, against the abstract peer map.

`Phase A n cs s` says where a sequential run stands after the calls `cs`, which
started in abstract state `A` with call number `n`: between two calls, or inside
one (`Progress`).  A step either goes on inside the call or ends it with the
abstract machine's result and state.

Main result: `phase_run`, the phases of whole runs.
-/
import DirectStorage.UrmaSequential

namespace DirectStorage

namespace Urma

open Function

variable {s t : Sys} {a : Action} {as : List Action} {c n : CallId} {A : PeerState}
  {cs : List PeerCmd} {cmd : PeerCmd}

/-! ### Inside a call -/

/-- How far call `c` has come with `cmd`, which it started in abstract state `A`. -/
inductive Progress (s : Sys) (A : PeerState) (c : CallId) : PeerCmd → Prop
  /-- Connect has its buffer and is about to take the lock. -/
  | connecting (info : PeerConnectInfo)
      (hcall : s.calls c = some ⟨.peerConnect info,
        .locking { Peer.ofInfo info c with mockHbm := some c }⟩)
      (hvalid : info.peerId ≠ 0 ∧ info.segLen ≠ 0) (hzero : (s.hbm c).mem = ByteMem.zero)
      (hrep : Represents s A) : Progress s A c (.connect info true)
  /-- Disconnect has cleared the slot and is about to release the buffer. -/
  | disconnecting (peerId : UInt64) (old : Peer)
      (hcall : s.calls c = some ⟨.peerDisconnect peerId, .releasing old⟩)
      (hrep : Represents s (A.disconnect peerId).1) (hrc : (A.disconnect peerId).2 = 0) :
      Progress s A c (.disconnect peerId)
  /-- The request is accepted and not executed. -/
  | queued (x : UrmaTransfer) (k : Slot) (p : Peer) (hheld : Held s c x k p)
      (hout : s.outcome c = none) (hrep : Represents s A) : Progress s A c (.transfer x)
  /-- The request is executed and the call still waits. -/
  | executed (x : UrmaTransfer) (ts : Timespec) (hcall : s.transfer c = some (x, .waiting ts))
      (hout : s.outcome c = some 0) (hrep : Represents s (A.transfer x).1)
      (hrc : (A.transfer x).2 = 0) : Progress s A c (.transfer x)

/-- Call `c` has returned, with result and effect of `cmd` in abstract state `A`. -/
structure Returned (s : Sys) (A : PeerState) (c : CallId) (cmd : PeerCmd) : Prop where
  result : s.resultOf c = some (A.exec cmd).2
  represents : Represents s (A.exec cmd).1

theorem Progress.busy (h : Progress s A c cmd) : s.busy c = true := by
  cases h with
  | connecting info hcall hvalid hzero hrep =>
      rw [Sys.busy, hcall]
      rfl
  | disconnecting peerId old hcall hrep hrc =>
      rw [Sys.busy, hcall]
      rfl
  | queued x k p hheld hout hrep => exact hheld.waits.busy
  | executed x ts hcall hout hrep hrc =>
      have hwaits : s.Waits c := ⟨x, ts, hcall⟩
      exact hwaits.busy

theorem resultOf_setCall (s : Sys) (c : CallId) (kind : CallKind) (rc : Int) :
    (s.setCall c kind (.returned rc)).resultOf c = some rc := by
  simp [Sys.resultOf, Sys.setCall]

theorem resultOf_newCall (s : Sys) (kind : CallKind) (rc : Int) :
    (s.newCall kind (.returned rc)).resultOf s.nextCall = some rc := by
  simp [Sys.resultOf, Sys.newCall]

/-! ### Starting a call -/

/-- A call that does nothing but return. -/
theorem Represents.newCall (h : Represents s A) (kind : CallKind) (pc : CallPc) :
    Represents (s.newCall kind pc) A :=
  ⟨h.enabled, h.backend, h.slots⟩

theorem start_connect (hinv : SeqInv s) (hrep : Represents s A) (info : PeerConnectInfo)
    (env : ConnectEnv) :
    Progress (peerConnect s info env) A s.nextCall (.connect info env.calloc) ∨
      Returned (peerConnect s info env) A s.nextCall (.connect info env.calloc) := by
  by_cases hbad : info.peerId = 0 ∨ info.segLen = 0
  · right
    have hexec : A.exec (.connect info env.calloc) = (A, -EINVAL) := dif_pos hbad
    have heq : peerConnect s info env = s.newCall (.peerConnect info) (.returned (-EINVAL)) :=
      if_pos hbad
    rw [heq]
    refine ⟨?_, ?_⟩
    · rw [hexec]
      exact resultOf_newCall _ _ _
    · rw [hexec]
      exact hrep.newCall _ _
  · cases hcalloc : env.calloc with
    | false =>
        right
        have hexec : A.exec (.connect info false) = (A, -ENOMEM) := by
          show A.connect info false = _
          rw [PeerState.connect, dif_neg hbad, if_pos rfl]
        have heq : peerConnect s info env =
            s.newCall (.peerConnect info) (.returned (-ENOMEM)) := by
          rw [peerConnect, if_neg hbad, if_pos hinv.mock, hcalloc]
          rfl
        rw [heq]
        refine ⟨?_, ?_⟩
        · rw [hexec]
          exact resultOf_newCall _ _ _
        · rw [hexec]
          exact hrep.newCall _ _
    | true =>
        left
        have heq : peerConnect s info env =
            { s.newCall (.peerConnect info) (.locking
                { Peer.ofInfo info s.nextCall with mockHbm := some s.nextCall }) with
              hbm := update s.hbm s.nextCall ⟨true, info.segLen, ByteMem.zero⟩ } := by
          rw [peerConnect, if_neg hbad, if_pos hinv.mock, hcalloc]
          rfl
        rw [heq]
        refine .connecting info (update_self _ _ _) (not_or.mp hbad) ?_ ?_
        · show (update s.hbm s.nextCall _ s.nextCall).mem = _
          rw [update_self]
        · refine hrep.congr rfl rfl rfl ?_
          intro k hk
          refine entry_congr hinv.race.peers hinv.mock hk ?_
          -- connections are named by earlier calls
          have hne : (s.mgr.peers k).conn ≠ s.nextCall :=
            (hinv.race.peers.named (.slot k) _ (held_slot_active hk)).ne
          show (update s.hbm s.nextCall _ _).mem = _
          rw [update_of_ne hne]

theorem start_disconnect (hrep : Represents s A) (peerId : UInt64) :
    Progress (peerDisconnect s peerId) A s.nextCall (.disconnect peerId) ∨
      Returned (peerDisconnect s peerId) A s.nextCall (.disconnect peerId) := by
  by_cases hzero : peerId = 0
  · right
    have hexec : A.exec (.disconnect peerId) = (A, -EINVAL) := if_pos hzero
    have heq : peerDisconnect s peerId =
        s.newCall (.peerDisconnect peerId) (.returned (-EINVAL)) := if_pos hzero
    rw [heq]
    refine ⟨?_, ?_⟩
    · rw [hexec]
      exact resultOf_newCall _ _ _
    · rw [hexec]
      exact hrep.newCall _ _
  · unfold peerDisconnect
    rw [if_neg hzero]
    rcases hfind : findPeerLocked s.mgr peerId with - | k
    · right
      have hexec : A.exec (.disconnect peerId) = (A, -ENOENT) := by
        show A.disconnect peerId = _
        rw [PeerState.disconnect, if_neg hzero, if_neg (hrep.find_none hfind)]
      refine ⟨?_, ?_⟩
      · rw [hexec]
        exact resultOf_newCall _ _ _
      · rw [hexec]
        exact hrep.newCall _ _
    · left
      obtain ⟨hactive, hid⟩ := findPeerLocked_some hfind
      have hexec : A.disconnect peerId = ({ A with peers := A.peers.erase peerId }, 0) := by
        rw [PeerState.disconnect, if_neg hzero, if_pos ((hrep.mem_iff peerId).mpr ⟨k, hfind⟩)]
      refine .disconnecting peerId _ (update_self _ _ _) ?_ (by rw [hexec])
      rw [hexec, ← hid]
      exact hrep.clear hactive rfl rfl rfl rfl

theorem start_transfer (hinv : SeqInv s) (hidle : s.Idle) (hrep : Represents s A)
    (x : UrmaTransfer) (timeoutMs : UInt32) (now : ClockTime) :
    Progress (transferSync s x timeoutMs now) A s.nextCall (.transfer x) ∨
      Returned (transferSync s x timeoutMs now) A s.nextCall (.transfer x) := by
  have hq := hinv.race.queue
  have hbytes := (transferSync_frame s x timeoutMs now).2
  rcases transferSync_cases s x timeoutMs now with ⟨k, hacc⟩ | ⟨rc, heq, hwhy⟩
  · left
    refine .queued x k _ hacc.held ?_ ?_
    · -- the worker has not seen the new call
      have hnew : s.nextCall ∉ s.accepted := fun hmem => hq.subs.accepted_ne hmem rfl
      have hfin : (transferSync s x timeoutMs now).finished = s.finished := by
        unfold transferSync
        repeat' split
        all_goals rfl
      refine outcome_none ?_ ?_
      · rw [hfin]
        exact fun hmem => hnew (hq.core.finished_accepted hmem)
      · intro rc hw
        rw [(transferSync_frame s x timeoutMs now).1] at hw
        exact hnew (hq.core.hand_accepted (congrArg WorkerPc.inHand hw))
    · exact hrep.congr hacc.enabled hacc.backend hacc.peers fun k _ => by rw [hbytes.2]
  · right
    have herr : validateXferLocked s.mgr s.backend x = .error rc := by
      rcases hwhy with herr | ⟨-, hfull⟩
      · exact herr
      · -- the queue is empty between calls
        have hempty := (hinv.one.drained hq hidle).2
        have hdepth : 1 ≤ s.mgr.queueDepth := hq.core.depth_pos
        omega
    have hexec : A.exec (.transfer x) = (A, rc) := by
      show A.transfer x = _
      rw [PeerState.transfer, hrep.validate x, herr]
      rfl
    rw [heq]
    refine ⟨?_, ?_⟩
    · rw [hexec]
      exact resultOf_newCall _ _ _
    · rw [hexec]
      exact hrep.newCall _ _

/-- **A call that starts** is in progress, or has returned as the abstract one
does. -/
theorem start_call (hinv : SeqInv s) (hidle : s.Idle) (hrep : Represents s A)
    (hcmd : a.command = some cmd) (hstep : step s a = some t) :
    Progress t A s.nextCall cmd ∨ Returned t A s.nextCall cmd := by
  unfold step at hstep
  split at hstep
  · cases hstep
  cases a with
  | peerConnect info env =>
      obtain rfl := Option.some.inj hstep
      obtain rfl := Option.some.inj hcmd
      exact start_connect hinv hrep info env
  | peerDisconnect peerId =>
      obtain rfl := Option.some.inj hstep
      obtain rfl := Option.some.inj hcmd
      exact start_disconnect hrep peerId
  | transferSync x timeoutMs now =>
      obtain rfl := Option.some.inj hstep
      obtain rfl := Option.some.inj hcmd
      exact start_transfer hinv hidle hrep x timeoutMs now
  | enable =>
      obtain rfl := Option.some.inj hstep
      obtain rfl := Option.some.inj hcmd
      exact .inr ⟨resultOf_newCall _ _ _, rfl, hrep.backend, hrep.slots⟩
  | disable =>
      obtain rfl := Option.some.inj hstep
      obtain rfl := Option.some.inj hcmd
      exact .inr ⟨resultOf_newCall _ _ _, rfl, hrep.backend, hrep.slots⟩
  | _ => cases hcmd

/-! ### Going on with a call -/

/-- The locked section of connect, with the map's answer to each of its tests. -/
theorem connectLocked_returned (hrep : Represents s A) {info : PeerConnectInfo}
    (hcall : s.calls c = some ⟨.peerConnect info,
      .locking { Peer.ofInfo info c with mockHbm := some c }⟩)
    (hvalid : info.peerId ≠ 0 ∧ info.segLen ≠ 0) (hzero : (s.hbm c).mem = ByteMem.zero)
    (hstep : peerConnectLocked s c = some t) : Returned t A c (.connect info true) := by
  have hbad : ¬ (info.peerId = 0 ∨ info.segLen = 0) := not_or.mpr hvalid
  unfold peerConnectLocked at hstep
  rw [hcall] at hstep
  dsimp only [Peer.ofInfo] at hstep
  -- the three failures release the buffer and change nothing
  have hundo : ∀ rc, A.connect info true = (A, rc) →
      Returned ((s.freeHbm (some c)).setCall c (.peerConnect info) (.returned rc)) A c
        (.connect info true) := by
    intro rc hexec
    have hexec' : A.exec (.connect info true) = (A, rc) := hexec
    refine ⟨?_, ?_⟩
    · rw [hexec']
      exact resultOf_setCall _ _ _ _
    · rw [hexec']
      exact hrep.freeHbm _ _ _ _
  cases henabled : s.mgr.enabled with
  | false =>
      rw [henabled] at hstep
      obtain rfl := Option.some.inj hstep
      refine hundo _ ?_
      rw [PeerState.connect, dif_neg hbad, if_neg (by decide),
        if_pos (hrep.enabled.symm.trans henabled)]
  | true =>
      have hA : ¬ A.enabled = false := by rw [← hrep.enabled, henabled]; decide
      rw [henabled] at hstep
      rcases hfind : findPeerLocked s.mgr info.peerId with - | k'
      · have habsent := hrep.find_none hfind
        rw [hfind] at hstep
        rcases hfree : findFreeSlot s.mgr with - | k
        · rw [hfree] at hstep
          obtain rfl := Option.some.inj hstep
          refine hundo _ ?_
          have hfull : ¬ A.peers.size < maxPeers := by
            rw [hrep.size_lt_iff, hfree]
            rintro ⟨k, ⟨⟩⟩
          rw [PeerState.connect, dif_neg hbad, if_neg (by decide), if_neg hA, if_neg habsent,
            dif_neg hfull]
        · rw [hfree] at hstep
          obtain rfl := Option.some.inj hstep
          have hroom : A.peers.size < maxPeers := hrep.size_lt_iff.mpr ⟨k, hfree⟩
          have hexec : A.exec (.connect info true) = ({ A with
              peers := A.peers.insert info.peerId (PeerEntry.ofInfo info) hvalid (.inr hroom) },
              0) := by
            show A.connect info true = _
            rw [PeerState.connect, dif_neg hbad, if_neg (by decide), if_neg hA, if_neg habsent,
              dif_pos hroom]
          refine ⟨?_, ?_⟩
          · rw [hexec]
            exact resultOf_setCall s c (.peerConnect info) 0
          · rw [hexec]
            refine hrep.install (p := { Peer.ofInfo info c with mockHbm := some c })
              (e := PeerEntry.ofInfo info) (findFreeSlot_some hfree) ?_ hvalid habsent hroom rfl
              henabled.symm rfl rfl
            rw [keyed_active _ rfl]
            simp only [Peer.entry, Peer.ofInfo, PeerEntry.ofInfo, Option.map_some,
              Option.getD_some, hzero]
      · rw [hfind] at hstep
        obtain rfl := Option.some.inj hstep
        refine hundo _ ?_
        rw [PeerState.connect, dif_neg hbad, if_neg (by decide), if_neg hA,
          if_pos ((hrep.mem_iff _).mpr ⟨k', hfind⟩)]

/-- A wake-up of a waiting transfer: it waits again, or the request is done and
it returns the status. -/
theorem timedwait_cases (hq : QueueInv s.queueView) {x : UrmaTransfer} {ts : Timespec} {rc : Int}
    {now : ClockTime} (hcall : s.transfer c = some (x, .waiting ts))
    (h : timedwait s c rc now = some t) :
    (∃ ts', t.transfer c = some (x, .waiting ts')) ∨
      (s.reqs c).done = true ∧ t.resultOf c = some (s.reqs c).status := by
  obtain ⟨hvalid, -⟩ := hq.subs.waiting c x ts hcall
  have hloop : ∀ timeoutMs ts',
      (∃ ts'', (waitLoop s c (.transfer x timeoutMs) ts').transfer c = some (x, .waiting ts'')) ∨
      (s.reqs c).done = true ∧
        (waitLoop s c (.transfer x timeoutMs) ts').resultOf c = some (s.reqs c).status := by
    intro timeoutMs ts'
    unfold waitLoop
    split
    next hdone => exact .inr ⟨hdone, resultOf_setCall _ _ _ _⟩
    next => exact .inl ⟨ts', by simp [Sys.transfer, Sys.setCall, Call.transfer]⟩
  unfold timedwait at h
  split at h
  next x' timeoutMs ts' hc =>
    rw [Sys.transfer, hc] at hcall
    cases hcall
    split_ifs at h with hmay htimeout hother
    · obtain rfl := Option.some.inj h
      exact hloop _ _
    · -- another code only for an invalid deadline
      rcases hmay with h₀ | h₀ | h₀
      · exact absurd h₀ hother
      · exact absurd h₀ htimeout
      · exact absurd hvalid h₀
    · obtain rfl := Option.some.inj h
      exact hloop _ _
  next => cases h

theorem quiet_of_byWorker (h : a.byWorker = true) : a.quiet = true := by
  cases a <;> first | rfl | cases h

/-- A quiet step that changes no byte changes nothing of what is represented. -/
theorem Represents.quiet (h : Represents s A) (hstep : step s a = some t) (ha : a.quiet = true)
    (hbytes : SameBytes s t) : Represents t A := by
  obtain ⟨hpeers, henabled, -, -⟩ := step_quiet hstep ha
  exact h.congr henabled hbytes.1 hpeers fun k _ => by rw [hbytes.2]

/-- Only the call in progress can be waiting for a request. -/
theorem Progress.only (h : Progress s A c cmd) (hone : OneCall s) {c' : CallId}
    (hw : s.Waits c') : c' = c :=
  hone.one c' c hw.busy h.busy

theorem not_finished_of_outcome (h : s.outcome c = none) : c ∉ s.finished := by
  intro hfin
  cases (outcome_finished hfin).symm.trans h

/-- **The copy**: executing the request has the effect of the abstract transfer. -/
theorem Represents.execute (hrep : Represents s A) (hinv : SeqInv s) {x : UrmaTransfer}
    {k k' : Slot} {p : Peer} {conn : CallId} {post : Bool} (hheld : Held s c x k p)
    (hw : s.worker = .executing c k' conn) (hexec : workerExecute s post = some t)
    (hstep : Urma.step s (.workerExecute post) = some t) :
    t.worker = .finishing c 0 ∧ t.finished = s.finished ∧ Represents t (A.transfer x).1 ∧
      (A.transfer x).2 = 0 := by
  have hready := hinv.race.ready c k' conn hw
  have hacc : c ∈ s.accepted :=
    hinv.race.queue.core.hand_accepted (congrArg WorkerPc.inHand hw)
  obtain ⟨ts, hts⟩ := hheld.args
  have hargs := (hinv.race.queue.subs.args c x _ hts hacc).1
  have hargs' : (s.reqs c).xfer = { x with remoteHbmAddr := (s.reqs c).remoteHbmAddr } := hargs
  -- the id is in one slot only
  have hk : k' = k := by
    obtain ⟨hactive, hid⟩ := findPeerLocked_some (validateXferLocked_ok_iff.mp hheld.valid).found
    have hid' : (s.mgr.peers k').peerId = x.peerId :=
      hready.peer.trans (congrArg UrmaTransfer.peerId hargs')
    exact hrep.slots.once k' k x.peerId _ _ (hid' ▸ keyed_active s.hbm hready.active)
      (hid ▸ keyed_active s.hbm hactive)
  subst hk
  obtain ⟨hfinishing, hfin, -, heffect⟩ :=
    hready.execute hinv.race.peers hinv.race.live hinv.mock hw rfl hexec
  have hvalid : A.validate x = .ok ((s.mgr.peers k').entry s.hbm) := by
    rw [hrep.validate x, hheld.valid]
    rfl
  obtain ⟨hpeers, henabled, -, -⟩ := step_quiet hstep rfl
  have hy : (s.reqs c).xfer = { x with remoteHbmAddr := (s.mgr.peers k').segVa } := by
    rw [hargs', hready.addr]
  exact ⟨hfinishing, hfin, hrep.copied hinv.race.peers hinv.mock hvalid hy heffect hpeers henabled
    (step_geometry hstep)⟩

/-- The worker goes on while a connect or disconnect is in progress. -/
theorem worker_unloaded (hinv : SeqInv s) (hnone : ∀ c, ¬ s.Waits c) (hw : a.byWorker = true)
    (hstep : step s a = some t) : SameBytes s t ∧ t.calls = s.calls := by
  refine ⟨worker_bytes hstep hw ?_, (worker_kept hstep hw).calls⟩
  intro c k conn hexec
  exact hnone c (hinv.race.queue.waits_hand (congrArg WorkerPc.inHand hexec))

/-- The worker goes on while a transfer is queued. -/
theorem worker_queued (hinv : SeqInv s) (hok : Sequential s a) (hw : a.byWorker = true)
    (hstep : step s a = some t) {x : UrmaTransfer} {k : Slot} {p : Peer} (hheld : Held s c x k p)
    (hout : s.outcome c = none) (hrep : Represents s A) : Progress t A c (.transfer x) := by
  have hq := hinv.race.queue
  have hnf := not_finished_of_outcome hout
  obtain ⟨ts, hts⟩ := hheld.args
  have hacc : c ∈ s.accepted := (hq.subs.waiting c x ts hts).2
  -- a request in the worker's hands is this one
  have hhand : ∀ c', s.worker.inHand = [c'] → c' = c := fun c' hc' =>
    hinv.one.one c' c (hq.waits_hand hc').busy hheld.waits.busy
  -- nothing is decided unless the request is executed
  have hstay : t.finished = s.finished → SameBytes s t →
      (∀ rc, t.worker ≠ .finishing c rc) → Progress t A c (.transfer x) := by
    intro hfin hbytes hno
    have hnf' : c ∉ t.finished := hfin ▸ hnf
    exact .queued x k p
      (hheld.step hinv.one hq hok.serial hstep (mem_accepted_step hstep hacc) hnf')
      (outcome_none hnf' hno) (hrep.quiet hstep (quiet_of_byWorker hw) hbytes)
  cases step_cases hstep with
  | other ha hw' hgeo => cases ha.symm.trans hw
  | dequeue uninit htop hres =>
      have hne : ∀ c' k conn, s.worker ≠ .executing c' k conn := by
        rw [htop]
        rintro c' k conn ⟨⟩
      have hdeq : workerDequeue s uninit = some t := by simpa only [step, htop] using hstep
      have hfin : t.finished = s.finished := by
        cases hres with
        | idle hempty hbytes hw' hreqs hfin => exact hfin
        | valid c' k' hd hw' hfin => exact hfin
        | invalid c' rc hfront hrc hbytes hpeers hstatus hfin hwild hw' => exact hfin
      refine hstay hfin (worker_bytes hstep hw hne) ?_
      intro rc hfinishing
      rcases hinv.dequeue hdeq with ⟨-, rfl⟩ | ⟨c', k', conn, -, hw'⟩
      · cases htop.symm.trans hfinishing
      · cases hw'.symm.trans hfinishing
  | execute post hexec =>
      obtain ⟨c', k', conn, hw', -⟩ := workerExecute_worker hexec
      obtain rfl := hhand c' (congrArg WorkerPc.inHand hw')
      obtain ⟨hfinishing, hfin, hrep', hrc⟩ := hrep.execute hinv hheld hw' hexec hstep
      refine .executed x ts ?_ (outcome_finishing (hfin ▸ hnf) hfinishing) hrep' hrc
      rw [transfer_congr (congrFun (worker_kept hstep hw).calls c')]
      exact hts
  | poll rc c' hw' ht =>
      have hrunning := hinv.running
      rw [hw'] at hrunning
      cases hrunning
  | complete c' rc hw' hres =>
      obtain rfl := hhand c' (congrArg WorkerPc.inHand hw')
      cases (outcome_finishing hnf hw').symm.trans hout
  | log c' rc hw' ht =>
      subst ht
      refine hstay rfl ⟨rfl, rfl⟩ ?_
      rintro rc' ⟨⟩

/-- The worker goes on after a transfer has been executed. -/
theorem worker_executed (hinv : SeqInv s) (hw : a.byWorker = true) (hstep : step s a = some t)
    {x : UrmaTransfer} {ts : Timespec} (hcall : s.transfer c = some (x, .waiting ts))
    (hout : s.outcome c = some 0) (hrep : Represents s (A.transfer x).1)
    (hrc : (A.transfer x).2 = 0) : Progress t A c (.transfer x) := by
  have hq := hinv.race.queue
  have hwaits : s.Waits c := ⟨x, ts, hcall⟩
  have honly : ∀ c', s.Waits c' → c' = c := fun c' hc' =>
    hinv.one.one c' c hc'.busy hwaits.busy
  -- the request is no longer to be executed
  have hne : ∀ c' k conn, s.worker ≠ .executing c' k conn := by
    intro c' k conn hexec
    have hhand : s.worker.inHand = [c'] := congrArg WorkerPc.inHand hexec
    obtain rfl := honly c' (hq.waits_hand hhand)
    rw [outcome_none (hq.core.hand_not_finished hhand)] at hout
    · cases hout
    · intro rc hfinishing
      cases hexec.symm.trans hfinishing
  have hsame : OutcomeStep c s a t → t.outcome c = some 0 := by
    intro h
    cases h with
    | same hout' hbytes => exact hout'.trans hout
    | fails rc hrc hs ht hbytes => cases hs.symm.trans hout
    | succeeds hacc hs ht hexec => exact ht
  have hout' : t.outcome c = some 0 := by
    refine hsame ?_
    cases step_cases hstep with
    | other ha hw' hgeo => exact outcomeStep_other hq hstep ha hw'
    | dequeue uninit htop hres => exact outcomeStep_dequeue hq htop hres
    | execute post hexec =>
        obtain ⟨c', k', conn, hw', -⟩ := workerExecute_worker hexec
        exact absurd hw' (hne c' k' conn)
    | poll rc c' hw' ht =>
        have hrunning := hinv.running
        rw [hw'] at hrunning
        cases hrunning
    | complete c' rc hw' hres => exact outcomeStep_complete hq hw' hres
    | log c' rc hw' ht =>
        subst ht
        refine .same (outcome_congr rfl (fun _ => rfl) ?_) fun _ => ⟨rfl, rfl⟩
        intro rc'
        constructor
        · rintro ⟨⟩
        · intro hfinishing
          cases hw'.symm.trans hfinishing
  refine .executed x ts ?_ hout'
    (hrep.quiet hstep (quiet_of_byWorker hw) (worker_bytes hstep hw hne)) hrc
  rw [transfer_congr (congrFun (worker_kept hstep hw).calls c)]
  exact hcall

/-- **The worker's steps** go on inside the call. -/
theorem Progress.worker (h : Progress s A c cmd) (hinv : SeqInv s) (hok : Sequential s a)
    (hw : a.byWorker = true) (hstep : step s a = some t) : Progress t A c cmd := by
  have honly : ∀ c', s.Waits c' → c' = c := fun c' => h.only hinv.one
  -- a connect or disconnect in progress is no transfer
  have hnone : s.transfer c = none → ∀ c', ¬ s.Waits c' := by
    rintro hc c' hwaits
    obtain rfl := honly c' hwaits
    obtain ⟨x, ts, hx⟩ := hwaits
    cases hc.symm.trans hx
  cases h with
  | connecting info hcall hvalid hzero hrep =>
      obtain ⟨hbytes, hcalls⟩ := worker_unloaded hinv
        (hnone (by rw [Sys.transfer, hcall]; rfl)) hw hstep
      exact .connecting info (hcalls ▸ hcall) hvalid (by rw [hbytes.2]; exact hzero)
        (hrep.quiet hstep (quiet_of_byWorker hw) hbytes)
  | disconnecting peerId old hcall hrep hrc =>
      obtain ⟨hbytes, hcalls⟩ := worker_unloaded hinv
        (hnone (by rw [Sys.transfer, hcall]; rfl)) hw hstep
      exact .disconnecting peerId old (hcalls ▸ hcall)
        (hrep.quiet hstep (quiet_of_byWorker hw) hbytes) hrc
  | queued x k p hheld hout hrep => exact worker_queued hinv hok hw hstep hheld hout hrep
  | executed x ts hcall hout hrep hrc => exact worker_executed hinv hw hstep hcall hout hrep hrc

/-- A step that goes on with call `c`. -/
inductive Continues (s t : Sys) (c : CallId) : Action → Prop
  | wakes (x : UrmaTransfer) (timeoutMs : UInt32) (ts : Timespec) (rc : Int) (now : ClockTime)
      (hcall : s.calls c = some ⟨.transfer x timeoutMs, .waiting ts⟩)
      (h : timedwait s c rc now = some t) : Continues s t c (.timedwait c rc now)
  | locks (info : PeerConnectInfo) (p : Peer)
      (hcall : s.calls c = some ⟨.peerConnect info, .locking p⟩)
      (h : peerConnectLocked s c = some t) : Continues s t c (.peerConnectLocked c)
  | releases (peerId : UInt64) (old : Peer)
      (hcall : s.calls c = some ⟨.peerDisconnect peerId, .releasing old⟩)
      (h : peerDisconnectRelease s c = some t) : Continues s t c (.peerDisconnectRelease c)

theorem step_continues (hstep : step s a = some t) (hcont : a.continues.isSome = true) :
    ∃ c, Continues s t c a := by
  unfold step at hstep
  split at hstep
  · cases hstep
  cases a with
  | timedwait c rc now =>
      have hstep' := hstep
      simp only [timedwait] at hstep
      split at hstep
      next x timeoutMs ts hc => exact ⟨c, .wakes x timeoutMs ts rc now hc hstep'⟩
      next => cases hstep
  | peerConnectLocked c =>
      have hstep' := hstep
      simp only [peerConnectLocked] at hstep
      split at hstep
      next info p hc => exact ⟨c, .locks info p hc hstep'⟩
      next => cases hstep
  | peerDisconnectRelease c =>
      have hstep' := hstep
      simp only [peerDisconnectRelease] at hstep
      split at hstep
      next peerId old hc => exact ⟨c, .releases peerId old hc hstep'⟩
      next => cases hstep
  | _ => cases hcont

theorem Continues.busy (h : Continues s t c a) : s.busy c = true := by
  cases h with
  | wakes x timeoutMs ts rc now hcall h =>
      rw [Sys.busy, hcall]
      rfl
  | locks info p hcall h =>
      rw [Sys.busy, hcall]
      rfl
  | releases peerId old hcall h =>
      rw [Sys.busy, hcall]
      rfl

/-- A waiting transfer goes on by waking up. -/
theorem Continues.wakeup (h : Continues s t c a) (hwaits : s.Waits c) :
    ∃ rc now, a = .timedwait c rc now ∧ timedwait s c rc now = some t := by
  obtain ⟨x, ts, hx⟩ := hwaits
  cases h with
  | wakes x' timeoutMs ts' rc now hcall h => exact ⟨rc, now, rfl, h⟩
  | locks info p hcall h =>
      rw [Sys.transfer, hcall] at hx
      cases hx
  | releases peerId old hcall h =>
      rw [Sys.transfer, hcall] at hx
      cases hx

theorem Progress.continue (h : Progress s A c cmd) (hinv : SeqInv s) (hok : Sequential s a)
    (hcont : a.continues.isSome = true) (hstep : step s a = some t) :
    Progress t A c cmd ∨ Returned t A c cmd := by
  have hq := hinv.race.queue
  -- the call that goes on is the one in progress
  obtain ⟨c', hgo⟩ := step_continues hstep hcont
  obtain rfl := hinv.one.one c c' h.busy hgo.busy
  cases h with
  | connecting info hcall hvalid hzero hrep =>
      right
      cases hgo with
      | wakes x timeoutMs ts rc now hcall' h => cases hcall'.symm.trans hcall
      | locks info' p hcall' h => exact connectLocked_returned hrep hcall hvalid hzero h
      | releases peerId old hcall' h => cases hcall'.symm.trans hcall
  | disconnecting peerId old hcall hrep hrc =>
      right
      cases hgo with
      | wakes x timeoutMs ts rc now hcall' h => cases hcall'.symm.trans hcall
      | locks info' p hcall' h => cases hcall'.symm.trans hcall
      | releases peerId' old' hcall' h =>
          simp only [peerDisconnectRelease, hcall] at h
          obtain rfl := Option.some.inj h
          refine ⟨?_, hrep.freeHbm _ _ _ _⟩
          rw [resultOf_setCall]
          exact congrArg some hrc.symm
  | queued x k p hheld hout hrep =>
      left
      obtain ⟨rc, now, rfl, hwake⟩ := hgo.wakeup hheld.waits
      have hnf := not_finished_of_outcome hout
      obtain ⟨ts, hts⟩ := hheld.args
      have hacc : c ∈ s.accepted := (hq.subs.waiting c x ts hts).2
      obtain ⟨hw, hbytes⟩ := timedwait_frame hwake
      have hfin : t.finished = s.finished :=
        ((step_queueStep hq hstep).same_hand hq (congrArg WorkerPc.inHand hw)).1
      have hnf' : c ∉ t.finished := hfin ▸ hnf
      refine .queued x k p
        (hheld.step hinv.one hq hok.serial hstep (mem_accepted_step hstep hacc) hnf') ?_
        (hrep.quiet hstep rfl hbytes)
      refine outcome_none hnf' ?_
      intro rc' hfinishing
      cases (outcome_finishing hnf (hw ▸ hfinishing)).symm.trans hout
  | executed x ts hcall hout hrep hrc =>
      have hwaits : s.Waits c := ⟨x, ts, hcall⟩
      obtain ⟨rc, now, rfl, hwake⟩ := hgo.wakeup hwaits
      obtain ⟨hw, hbytes⟩ := timedwait_frame hwake
      have hrep' := hrep.quiet hstep rfl hbytes
      rcases timedwait_cases hq hcall hwake with ⟨ts', hcall'⟩ | ⟨hdone, hres⟩
      · left
        refine .executed x ts' hcall' ?_ hrep' hrc
        cases outcomeStep_other (c := c) hq hstep rfl hw with
        | same hout' hbytes' => exact hout'.trans hout
        | fails rc hrc hs ht hbytes => cases hs.symm.trans hout
        | succeeds hacc hs ht hexec => exact ht
      · right
        -- the request is done, so its outcome is its status
        have hfin : c ∈ s.finished := by
          by_contra hnf
          have hacc : c ∈ s.accepted := (hq.subs.waiting c x ts hcall).2
          have hpending := (hq.subs.pending c hacc hnf).1
          cases hdone.symm.trans hpending
        have hstatus : (s.reqs c).status = 0 := by
          rw [outcome_finished hfin] at hout
          exact Option.some.inj hout
        refine ⟨?_, hrep'⟩
        rw [hres, hstatus]
        exact congrArg some hrc.symm

/-- **One step inside a call**: the call goes on, or returns with the abstract
result. -/
theorem Progress.step (h : Progress s A c cmd) (hinv : SeqInv s) (hok : Sequential s a)
    (hc : c < s.nextCall) (hstep : Urma.step s a = some t) :
    a.command = none ∧ (Progress t A c cmd ∨ Returned t A c cmd) := by
  have hok' := hok
  rcases hok with ⟨-, hidle⟩ | hcont | hw
  · cases (hidle c hc).symm.trans h.busy
  · refine ⟨?_, h.continue hinv hok' hcont hstep⟩
    cases a <;> first | rfl | cases hcont
  · refine ⟨?_, .inl (h.worker hinv hok' hw hstep)⟩
    cases a <;> first | rfl | cases hw

/-! ### Between calls -/

/-- Where a run stands that started in abstract state `A` with call number `n` and
made the calls `cs`. -/
inductive Phase (A : PeerState) (n : CallId) (cs : List PeerCmd) (s : Sys) : Prop
  | between (hn : n ≤ s.nextCall) (hidle : s.Idle) (hrep : Represents s (A.after cs))
      (hres : s.results n = A.results cs)
  | inside (c : CallId) (cs' : List PeerCmd) (cmd : PeerCmd) (hcs : cs = cs' ++ [cmd])
      (hn : n ≤ c) (hnext : s.nextCall = c + 1) (hres : s.results n = A.results cs')
      (hprog : Progress s (A.after cs') c cmd)

/-- When the call in progress returns, no call is in progress. -/
theorem idle_of_result (hone : OneCall s) (hbusy : s.busy c = true) (hstep : CallStep s a t)
    (ha : a.call = none) {rc : Int} (hres : t.resultOf c = some rc) : t.Idle := by
  intro c' _
  by_contra hbusy'
  rw [Bool.not_eq_false] at hbusy'
  rcases hstep.busy_before hbusy' with hold | ⟨hstart, -⟩
  · obtain rfl := hone.one c' c hold hbusy
    cases (resultOf_busy hbusy').symm.trans hres
  · rw [ha] at hstart
    cases hstart

/-- When a new call returns at once, no call is in progress. -/
theorem idle_of_start (hone : OneCall s) (hidle : s.Idle) (hstep : CallStep s a t) {rc : Int}
    (hres : t.resultOf s.nextCall = some rc) : t.Idle := by
  intro c _
  by_contra hbusy
  rw [Bool.not_eq_false] at hbusy
  rcases hstep.busy_before hbusy with hold | ⟨-, rfl⟩
  · cases (hone.idle hidle c).symm.trans hold
  · cases (resultOf_busy hbusy).symm.trans hres

theorem Phase.between_step (hinv : SeqInv s) (hok : Sequential s a) (hstep : step s a = some t)
    (hn : n ≤ s.nextCall) (hidle : s.Idle) (hrep : Represents s (A.after cs))
    (hres : s.results n = A.results cs) : Phase A n (cs ++ a.command.toList) t := by
  have hcs := step_callStep hstep
  rcases hok with ⟨hcmd, -⟩ | hcont | hw
  · -- a call starts
    obtain ⟨cmd, hcmd⟩ := Option.isSome_iff_exists.mp hcmd
    have hcall : ∃ kind, a.call = some kind := by
      cases a <;> first | exact ⟨_, rfl⟩ | cases hcmd
    obtain ⟨kind, hkind⟩ := hcall
    rw [hcmd]
    cases hcs with
    | start k ha hcont hcalls hnext =>
        have hresults := results_start hn hcalls hnext
        rcases start_call hinv hidle hrep hcmd hstep with hprog | hret
        · refine .inside s.nextCall cs cmd rfl hn hnext ?_ hprog
          rw [hresults, resultOf_busy hprog.busy, hres]
          exact List.append_nil _
        · refine .between (hn.trans (Nat.le_of_lt (hnext ▸ Nat.lt_succ_self _)))
            (idle_of_start hinv.one hidle (step_callStep hstep) hret.result) ?_ ?_
          · rw [Option.toList_some, PeerState.after_snoc]
            exact hret.represents
          · rw [Option.toList_some, PeerState.results_snoc, hresults, hret.result, hres]
            rfl
    | advance c kind' pc pc' ha hcont hc hbusy hwait hcalls hnext => cases ha.symm.trans hkind
    | keep ha hcont hcalls hnext => cases ha.symm.trans hkind
  · -- no call is there to go on with
    obtain ⟨c, hgo⟩ := step_continues hstep hcont
    cases (hinv.one.idle hidle c).symm.trans hgo.busy
  · -- the worker finds the queue empty
    have hnone : ∀ c, ¬ s.Waits c := fun c hwaits => by
      cases (hinv.one.idle hidle c).symm.trans hwaits.busy
    obtain ⟨hbytes, hcalls⟩ := worker_unloaded hinv hnone hw hstep
    have hnext := (worker_kept hstep hw).nextCall
    have hcmd : a.command = none := by
      cases a <;> first | rfl | cases hw
    rw [hcmd, Option.toList_none, List.append_nil]
    refine .between (hnext ▸ hn) ?_ (hrep.quiet hstep (quiet_of_byWorker hw) hbytes) ?_
    · intro c hc
      rw [Sys.busy, hcalls]
      exact hinv.one.idle hidle c
    · rw [results_keep hcalls hnext]
      exact hres

/-- **One step of a sequential run.** -/
theorem Phase.step (h : Phase A n cs s) (hinv : SeqInv s) (hok : Sequential s a)
    (hstep : Urma.step s a = some t) : Phase A n (cs ++ a.command.toList) t := by
  cases h with
  | between hn hidle hrep hres => exact .between_step hinv hok hstep hn hidle hrep hres
  | inside c cs' cmd hcs hn hnext hres hprog =>
      have hlt : c < s.nextCall := hnext ▸ Nat.lt_succ_self c
      obtain ⟨hcmd, hgo⟩ := hprog.step hinv hok hlt hstep
      rw [hcmd, Option.toList_none, List.append_nil]
      -- the table of calls changes at most at `c`
      have hcall : a.call = none ∧ t.nextCall = s.nextCall ∧
          t.results n = s.results n ++ (t.resultOf c).toList := by
        cases step_callStep hstep with
        | start k ha hcont hcalls hnext' =>
            -- no call starts
            rcases hok with ⟨-, hidle⟩ | hcont' | hw
            · cases (hidle c hlt).symm.trans hprog.busy
            · rw [hcont] at hcont'
              cases hcont'
            · cases a <;> first | cases ha | cases hw
        | advance c' kind pc pc' ha hcont hc' hbusy hwait hcalls hnext' =>
            have hbusy' : s.busy c' = true := by
              rw [Sys.busy, hc']
              exact hbusy
            obtain rfl := hinv.one.one c' c hbusy' hprog.busy
            exact ⟨ha, hnext', results_advance hn hnext hbusy' hcalls hnext'⟩
        | keep ha hcont hcalls hnext' =>
            refine ⟨ha, hnext', ?_⟩
            rw [results_keep hcalls hnext', resultOf_congr (congrFun hcalls c),
              resultOf_busy hprog.busy]
            exact (List.append_nil _).symm
      obtain ⟨ha, hnext', hresults⟩ := hcall
      rcases hgo with hprog' | hret
      · refine .inside c cs' cmd hcs hn (hnext'.trans hnext) ?_ hprog'
        rw [hresults, resultOf_busy hprog'.busy, hres]
        exact List.append_nil _
      · refine .between (hn.trans ?_)
          (idle_of_result hinv.one hprog.busy (step_callStep hstep) ha hret.result) ?_ ?_
        · rw [hnext', hnext]
          exact Nat.le_succ c
        · rw [hcs, PeerState.after_snoc]
          exact hret.represents
        · rw [hcs, PeerState.results_snoc, hresults, hret.result, hres]
          rfl

/-! ### Whole runs -/

theorem commands_snoc (as : List Action) (a : Action) :
    commands (as ++ [a]) = commands as ++ a.command.toList := by
  rw [commands, List.filterMap_append]
  congr 1

theorem seqInv_run (h : SeqInv s) (hok : RunOk step Sequential s as)
    (hrun : run step s as = some t) : SeqInv t :=
  run_invariant h (fun _ _ _ hs hok hstep => hs.step hok hstep) hok hrun

/-- From a state between calls that represents `A`, every sequential run goes
through the phases of `A`. -/
theorem phase_run (hinv : SeqInv s) (hidle : s.Idle) (hrep : Represents s A)
    (hok : RunOk step Sequential s as) (hrun : run step s as = some t) :
    Phase A s.nextCall (commands as) t := by
  refine run_history (P := fun as u => Phase A s.nextCall (commands as) u) ?_ ?_ hok hrun
  · refine .between le_rfl hidle hrep ?_
    rw [Sys.results, Nat.sub_self]
    rfl
  · intro as u a v hrun' hok' ih hseq hstep
    rw [commands_snoc]
    exact ih.step (seqInv_run hinv hok' hrun') hseq hstep

end Urma

end DirectStorage
