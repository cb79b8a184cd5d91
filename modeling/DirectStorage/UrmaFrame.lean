/-
DirectStorage/UrmaFrame.lean

What the steps of the daemon leave alone.

Every step of a thread other than the worker keeps the worker where it is
(`step_other`), every step keeps the backend's geometry (`step_geometry`), and
the steps of a transfer call change no byte of the backend or of a buffer
except for the copy itself (`transferSync_frame`, `timedwait_frame`,
`worker_bytes`).  `step_executing`
is the inversion lemma for the worker: it can only be about to execute a
request because it was before, or because it just dequeued and validated it.
`worker_kept` and `step_kept` list the fields that the worker, and that all but
a few steps, leave alone.
-/
import DirectStorage.UrmaQueue
import DirectStorage.UrmaPeers

namespace DirectStorage

namespace Urma

open Function

variable {s t : Sys} {a : Action}

/-- The steps of the worker thread. -/
def Action.byWorker : Action → Bool
  | .workerDequeue _ | .workerExecute _ | .workerPoll _ | .workerComplete | .workerLog => true
  | _ => false

/-- Two backends that differ at most in their content. -/
def SameGeometry (b b' : Backend) : Prop := b' = { b with mem := b'.mem }

theorem SameGeometry.size_eq {b b' : Backend} (h : SameGeometry b b') : b'.size = b.size := by
  rw [h]

theorem SameGeometry.live {b b' : Backend} (h : SameGeometry b b') (hb : b.Live) : b'.Live := by
  rw [h]
  exact hb.withMem _

/-- No byte of the backend or of a buffer differs. -/
def SameBytes (s t : Sys) : Prop := t.backend = s.backend ∧ t.hbm = s.hbm

theorem sameBytes_refl (s : Sys) : SameBytes s s := ⟨rfl, rfl⟩

/-! ### The transfer call -/

theorem transferSync_frame (s : Sys) (x : UrmaTransfer) (timeoutMs : UInt32)
    (now : ClockTime) : (transferSync s x timeoutMs now).worker = s.worker ∧
      SameBytes s (transferSync s x timeoutMs now) := by
  unfold transferSync
  split
  · exact ⟨rfl, rfl, rfl⟩
  · split
    · exact ⟨rfl, rfl, rfl⟩
    · exact ⟨rfl, rfl, rfl⟩

theorem timedwait_frame {c : CallId} {rc : Int} {now : ClockTime}
    (h : timedwait s c rc now = some t) : t.worker = s.worker ∧ SameBytes s t := by
  have hloop : ∀ kind ts, (waitLoop s c kind ts).worker = s.worker ∧
      SameBytes s (waitLoop s c kind ts) := by
    intro kind ts
    unfold waitLoop
    split
    · exact ⟨rfl, rfl, rfl⟩
    · exact ⟨rfl, rfl, rfl⟩
  unfold timedwait at h
  split at h
  · split_ifs at h
    · obtain rfl := Option.some.inj h
      exact hloop _ _
    · obtain rfl := Option.some.inj h
      exact ⟨rfl, rfl, rfl⟩
    · obtain rfl := Option.some.inj h
      exact hloop _ _
  · cases h

/-! ### The other calls -/

theorem peerConnect_frame (s : Sys) (info : PeerConnectInfo) (env : ConnectEnv) :
    (peerConnect s info env).worker = s.worker ∧
      (peerConnect s info env).backend = s.backend := by
  unfold peerConnect
  split
  · exact ⟨rfl, rfl⟩
  · split
    · split
      · exact ⟨rfl, rfl⟩
      · exact ⟨rfl, rfl⟩
    · split
      · exact ⟨rfl, rfl⟩
      · exact ⟨rfl, rfl⟩

theorem peerConnectLocked_frame {c : CallId} (h : peerConnectLocked s c = some t) :
    t.worker = s.worker ∧ t.backend = s.backend := by
  have hundo : ∀ p kind rc,
      ((s.freeHbm p).setCall c kind (.returned rc)).worker = s.worker ∧
      ((s.freeHbm p).setCall c kind (.returned rc)).backend = s.backend :=
    fun p kind rc => ⟨worker_freeHbm s p, backend_freeHbm s p⟩
  unfold peerConnectLocked at h
  split at h
  · split at h
    · obtain rfl := Option.some.inj h
      exact hundo _ _ _
    · split at h
      · obtain rfl := Option.some.inj h
        exact hundo _ _ _
      · split at h
        · obtain rfl := Option.some.inj h
          exact hundo _ _ _
        · obtain rfl := Option.some.inj h
          exact ⟨rfl, rfl⟩
  · cases h

theorem peerDisconnect_frame (s : Sys) (peerId : UInt64) :
    (peerDisconnect s peerId).worker = s.worker ∧
      (peerDisconnect s peerId).backend = s.backend := by
  unfold peerDisconnect
  split
  · exact ⟨rfl, rfl⟩
  · split
    · exact ⟨rfl, rfl⟩
    · exact ⟨rfl, rfl⟩

theorem peerDisconnectRelease_frame {c : CallId} (h : peerDisconnectRelease s c = some t) :
    t.worker = s.worker ∧ t.backend = s.backend := by
  unfold peerDisconnectRelease at h
  split at h
  · obtain rfl := Option.some.inj h
    exact ⟨worker_freeHbm s _, backend_freeHbm s _⟩
  · cases h

theorem mockWritePeer_frame (s : Sys) (peerId remoteAddr : UInt64) (data : List UInt8)
    (len : UInt32) : (mockWritePeer s peerId remoteAddr data len).worker = s.worker ∧
      (mockWritePeer s peerId remoteAddr data len).backend = s.backend := by
  unfold mockWritePeer
  split
  · exact ⟨rfl, rfl⟩
  · exact ⟨rfl, rfl⟩

theorem write_geometry (b : Backend) (offset : UInt64) (data : List UInt8) (len : UInt32) :
    SameGeometry b (ramdiskBackendWrite b offset false data len).2 := by
  unfold ramdiskBackendWrite
  rw [if_neg Bool.false_ne_true]
  dsimp only
  split_ifs
  · rfl
  · rfl
  · rfl

theorem zero_geometry (b : Backend) (offset : UInt64) (len : UInt32) :
    SameGeometry b (ramdiskBackendZero b offset len).2 := by
  unfold ramdiskBackendZero
  dsimp only
  split_ifs
  · rfl
  · rfl
  · rfl

/-! ### Every thread but the worker -/

theorem sameGeometry_of_eq {b b' : Backend} (h : b' = b) : SameGeometry b b' := by
  rw [h]
  rfl

/-- **Other threads' steps** do not move the worker, and change at most the
backend's content. -/
theorem step_other (h : step s a = some t) (ha : a.byWorker = false) :
    t.worker = s.worker ∧ SameGeometry s.backend t.backend := by
  unfold step at h
  split at h
  · cases h
  cases a with
  | transferSync x timeoutMs now =>
      obtain rfl := Option.some.inj h
      obtain ⟨hw, hbytes⟩ := transferSync_frame s x timeoutMs now
      exact ⟨hw, sameGeometry_of_eq hbytes.1⟩
  | timedwait c rc now =>
      obtain ⟨hw, hbytes⟩ := timedwait_frame h
      exact ⟨hw, sameGeometry_of_eq hbytes.1⟩
  | peerConnect info env =>
      obtain rfl := Option.some.inj h
      obtain ⟨hw, hb⟩ := peerConnect_frame s info env
      exact ⟨hw, sameGeometry_of_eq hb⟩
  | peerConnectLocked c =>
      obtain ⟨hw, hb⟩ := peerConnectLocked_frame h
      exact ⟨hw, sameGeometry_of_eq hb⟩
  | peerDisconnect peerId =>
      obtain rfl := Option.some.inj h
      obtain ⟨hw, hb⟩ := peerDisconnect_frame s peerId
      exact ⟨hw, sameGeometry_of_eq hb⟩
  | peerDisconnectRelease c =>
      obtain ⟨hw, hb⟩ := peerDisconnectRelease_frame h
      exact ⟨hw, sameGeometry_of_eq hb⟩
  | enable =>
      obtain rfl := Option.some.inj h
      exact ⟨rfl, rfl⟩
  | disable =>
      obtain rfl := Option.some.inj h
      exact ⟨rfl, rfl⟩
  | fillStatus =>
      obtain rfl := Option.some.inj h
      exact ⟨rfl, rfl⟩
  | mockWritePeer peerId remoteAddr data len =>
      obtain rfl := Option.some.inj h
      obtain ⟨hw, hb⟩ := mockWritePeer_frame s peerId remoteAddr data len
      exact ⟨hw, sameGeometry_of_eq hb⟩
  | mgrDestroy =>
      obtain rfl := Option.some.inj h
      exact ⟨rfl, rfl⟩
  | workerDequeue uninit => cases ha
  | workerExecute post => cases ha
  | workerPoll rc => cases ha
  | workerComplete => cases ha
  | workerLog => cases ha
  | backendWrite offset data len =>
      obtain rfl := Option.some.inj h
      exact ⟨rfl, write_geometry _ _ _ _⟩
  | backendZero offset len =>
      obtain rfl := Option.some.inj h
      exact ⟨rfl, zero_geometry _ _ _⟩

/-! ### The worker -/

/-- A successful dequeue: `c` was first in the queue and passed validation on
slot `k`. -/
structure Dequeued (s t : Sys) (c : CallId) (k : Slot) : Prop where
  front : s.mgr.queue.front = some c
  valid : ValidXfer s.mgr s.backend (s.reqs c).xfer k
  peers : t.mgr.peers = s.mgr.peers
  reqs : t.reqs = update s.reqs c { s.reqs c with remoteHbmAddr := (s.mgr.peers k).segVa }
  bytes : SameBytes s t

/-- Rewriting the remote address of a request does not touch its status. -/
theorem status_setAddr (reqs : CallId → Request) (c : CallId) (addr : UInt64) (c' : CallId) :
    (update reqs c { reqs c with remoteHbmAddr := addr } c').status = (reqs c').status := by
  by_cases e : c' = c
  · subst e
    rw [update_self]
  · rw [update_of_ne e]

/-- The ways the first locked section of the worker can end. -/
inductive DequeueResult (s t : Sys) : Prop
  | idle (hempty : s.mgr.pending = 0 ∨ s.mgr.queue.front = none)
      (hbytes : SameBytes s t) (hw : t.worker = .top ∨ t.worker = .stopped ∨
      t.worker = .faulted none) (hreqs : t.reqs = s.reqs) (hfin : t.finished = s.finished)
  | valid (c : CallId) (k : Slot) (hd : Dequeued s t c k)
      (hw : t.worker = .executing c k (s.mgr.peers k).conn) (hfin : t.finished = s.finished)
  | invalid (c : CallId) (rc : Int) (hfront : s.mgr.queue.front = some c)
      (hrc : validateXferLocked s.mgr s.backend (s.reqs c).xfer = .error rc)
      (hbytes : SameBytes s t) (hpeers : t.mgr.peers = s.mgr.peers)
      (hstatus : ∀ c', (t.reqs c').status = (s.reqs c').status)
      (hfin : t.finished = s.finished) (hwild : t.wildReads = s.wildReads + 1)
      (hw : t.worker = .finishing c rc ∨ t.worker = .faulted (some c))

/-- **Inversion of the dequeue step.** -/
theorem workerDequeue_result {uninit : UninitRead} (h : workerDequeue s uninit = some t) :
    s.worker = .top ∧ DequeueResult s t := by
  unfold workerDequeue at h
  split at h
  · next htop =>
    refine ⟨htop, ?_⟩
    split_ifs at h with hwait hstop
    · obtain rfl := Option.some.inj h
      refine .idle (Or.inl ?_) (sameBytes_refl _) (Or.inl htop) rfl rfl
      simp only [Bool.and_eq_true, beq_iff_eq] at hwait
      exact hwait.2
    · obtain rfl := Option.some.inj h
      refine .idle (Or.inl ?_) ⟨rfl, rfl⟩ (Or.inr (Or.inl rfl)) rfl rfl
      simp only [Bool.and_eq_true, beq_iff_eq] at hstop
      exact hstop.2
    · split at h
      · next hnone =>
        obtain rfl := Option.some.inj h
        exact .idle (Or.inr hnone) ⟨rfl, rfl⟩ (Or.inr (Or.inr rfl)) rfl rfl
      · next c hfront =>
        dsimp only at h
        split at h
        · next k hk =>
          obtain rfl := Option.some.inj h
          exact .valid c k ⟨hfront, validateXferLocked_ok_iff.mp hk, rfl, rfl, rfl, rfl⟩ rfl rfl
        · next rc hrc =>
          cases uninit with
          | fault =>
              obtain rfl := Option.some.inj h
              exact .invalid c rc hfront hrc ⟨rfl, rfl⟩ rfl (fun _ => rfl) rfl rfl (Or.inr rfl)
          | value v =>
              obtain rfl := Option.some.inj h
              exact .invalid c rc hfront hrc ⟨rfl, rfl⟩ rfl (status_setAddr s.reqs c v) rfl rfl
                (Or.inl rfl)
  · cases h

/-- The mock copy changes at most the content of backend and buffers. -/
theorem workerExecute_geometry {post : Bool} (h : workerExecute s post = some t) :
    SameGeometry s.backend t.backend := by
  unfold workerExecute at h
  split at h
  · split at h
    · split at h
      · obtain rfl := Option.some.inj h
        rfl
      · obtain rfl := Option.some.inj h
        rfl
    · split at h
      · obtain rfl := Option.some.inj h
        rfl
      · split at h
        · obtain rfl := Option.some.inj h
          rfl
        · obtain rfl := Option.some.inj h
          rfl
  · cases h

/-- After executing, the worker is polling, finishing or gone. -/
theorem workerExecute_worker {post : Bool} (h : workerExecute s post = some t) :
    ∃ c k conn, s.worker = .executing c k conn ∧
      (t.worker = .polling c ∨ (∃ rc, t.worker = .finishing c rc) ∨
        t.worker = .faulted (some c)) := by
  unfold workerExecute at h
  split at h
  · next c k conn hw =>
    refine ⟨c, k, conn, hw, ?_⟩
    split at h
    · split at h
      · obtain rfl := Option.some.inj h
        exact Or.inr (Or.inr rfl)
      · obtain rfl := Option.some.inj h
        exact Or.inr (Or.inl ⟨_, rfl⟩)
    · split at h
      · obtain rfl := Option.some.inj h
        exact Or.inr (Or.inl ⟨_, rfl⟩)
      · split at h
        · obtain rfl := Option.some.inj h
          exact Or.inr (Or.inl ⟨_, rfl⟩)
        · obtain rfl := Option.some.inj h
          exact Or.inl rfl
  · cases h

theorem workerPoll_result {rc : Int} (h : workerPoll s rc = some t) :
    ∃ c, s.worker = .polling c ∧ t = { s with worker := .finishing c rc } := by
  unfold workerPoll at h
  split at h
  · next c hw =>
    split_ifs at h
    obtain rfl := Option.some.inj h
    exact ⟨c, hw, rfl⟩
  · cases h

theorem workerLog_result (h : workerLog s = some t) :
    ∃ c rc, s.worker = .logging c rc ∧ t = { s with worker := .top } := by
  unfold workerLog at h
  split at h
  · next c rc hw =>
    obtain rfl := Option.some.inj h
    exact ⟨c, rc, hw, rfl⟩
  · cases h

/-- What completing a request writes. -/
structure Completed (s t : Sys) (c : CallId) (rc : Int) : Prop where
  worker : t.worker = .logging c rc
  finished : t.finished = s.finished ++ [c]
  reqs : t.reqs = update s.reqs c { s.reqs c with status := rc, done := true }
  failed : t.mgr.failed = if rc = 0 then s.mgr.failed else s.mgr.failed + 1
  completed : t.mgr.completed = if rc = 0 then s.mgr.completed + 1 else s.mgr.completed
  peers : t.mgr.peers = s.mgr.peers
  wildReads : t.wildReads = s.wildReads
  bytes : SameBytes s t

theorem workerComplete_result (h : workerComplete s = some t) :
    ∃ c rc, s.worker = .finishing c rc ∧ Completed s t c rc := by
  unfold workerComplete at h
  split at h
  · next c rc hw =>
    obtain rfl := Option.some.inj h
    exact ⟨c, rc, hw, rfl, rfl, rfl, rfl, rfl, rfl, rfl, rfl, rfl⟩
  · cases h

/-! ### Inversion of a step -/

/-- What a step did, seen from the worker. -/
inductive StepCases (s t : Sys) : Action → Prop
  | other {a : Action} (ha : a.byWorker = false) (hw : t.worker = s.worker)
      (hgeo : SameGeometry s.backend t.backend) : StepCases s t a
  | dequeue (uninit : UninitRead) (htop : s.worker = .top) (hres : DequeueResult s t) :
      StepCases s t (.workerDequeue uninit)
  | execute (post : Bool) (h : workerExecute s post = some t) :
      StepCases s t (.workerExecute post)
  | poll (rc : Int) (c : CallId) (hw : s.worker = .polling c)
      (ht : t = { s with worker := .finishing c rc }) : StepCases s t (.workerPoll rc)
  | complete (c : CallId) (rc : Int) (hw : s.worker = .finishing c rc)
      (hres : Completed s t c rc) : StepCases s t .workerComplete
  | log (c : CallId) (rc : Int) (hw : s.worker = .logging c rc)
      (ht : t = { s with worker := .top }) : StepCases s t .workerLog

/-- **Inversion of the step function.** -/
theorem step_cases (h : step s a = some t) : StepCases s t a := by
  cases ha : a.byWorker with
  | false =>
      obtain ⟨hw, hgeo⟩ := step_other h ha
      exact .other ha hw hgeo
  | true =>
      unfold step at h
      split at h
      · cases h
      cases a with
      | workerDequeue uninit =>
          obtain ⟨htop, hres⟩ := workerDequeue_result h
          exact .dequeue uninit htop hres
      | workerExecute post => exact .execute post h
      | workerPoll rc =>
          obtain ⟨c, hw, ht⟩ := workerPoll_result h
          exact .poll rc c hw ht
      | workerComplete =>
          obtain ⟨c, rc, hw, hres⟩ := workerComplete_result h
          exact .complete c rc hw hres
      | workerLog =>
          obtain ⟨c, rc, hw, ht⟩ := workerLog_result h
          exact .log c rc hw ht
      | _ => cases ha

/-- The worker changes no byte except when it executes. -/
theorem worker_bytes (h : step s a = some t) (ha : a.byWorker = true)
    (hne : ∀ c k conn, s.worker ≠ .executing c k conn) : SameBytes s t := by
  cases step_cases h with
  | other ha' hw hgeo => cases ha'.symm.trans ha
  | dequeue uninit htop hres =>
      cases hres with
      | idle hempty hbytes hw hreqs hfin => exact hbytes
      | valid c k hd hw hfin => exact hd.bytes
      | invalid c rc hfront hrc hbytes hpeers hstatus hfin hwild hw => exact hbytes
  | execute post hexec =>
      obtain ⟨c, k, conn, hw, -⟩ := workerExecute_worker hexec
      exact absurd hw (hne c k conn)
  | poll rc c hw ht =>
      rw [ht]
      exact ⟨rfl, rfl⟩
  | complete c rc hw hres => exact hres.bytes
  | log c rc hw ht =>
      rw [ht]
      exact ⟨rfl, rfl⟩

/-- **Every step keeps the backend's geometry.** -/
theorem step_geometry (h : step s a = some t) : SameGeometry s.backend t.backend := by
  cases step_cases h with
  | other ha hw hgeo => exact hgeo
  | dequeue uninit htop hres =>
      cases hres with
      | idle hempty hbytes hw hreqs hfin => exact sameGeometry_of_eq hbytes.1
      | valid c k hd hw hfin => exact sameGeometry_of_eq hd.bytes.1
      | invalid c rc hfront hrc hbytes hpeers hstatus hfin hwild hw =>
          exact sameGeometry_of_eq hbytes.1
  | execute post hexec => exact workerExecute_geometry hexec
  | poll rc c hw ht =>
      rw [ht]
      rfl
  | complete c rc hw hres => exact sameGeometry_of_eq hres.bytes.1
  | log c rc hw ht =>
      rw [ht]
      rfl

/-- The worker can only be about to execute a request because it was before, or
because it just dequeued and validated it. -/
theorem step_executing (h : step s a = some t) {c : CallId} {k : Slot} {conn : CallId}
    (hw : t.worker = .executing c k conn) :
    s.worker = .executing c k conn ∨
      ∃ uninit, a = .workerDequeue uninit ∧ Dequeued s t c k ∧
        conn = (s.mgr.peers k).conn := by
  cases step_cases h with
  | other ha hw' hgeo => exact Or.inl (hw'.symm.trans hw)
  | dequeue uninit htop hres =>
      cases hres with
      | idle hempty hbytes hw' hreqs hfin =>
          rw [hw] at hw'
          rcases hw' with h₁ | h₁ | h₁ <;> cases h₁
      | valid c' k' hd hw' hfin =>
          rw [hw] at hw'
          cases hw'
          exact Or.inr ⟨uninit, rfl, hd, rfl⟩
      | invalid c' rc hfront hrc hbytes hpeers hstatus hfin hwild hw' =>
          rw [hw] at hw'
          rcases hw' with h₁ | h₁ <;> cases h₁
  | execute post hexec =>
      obtain ⟨c', k', conn', -, hw'⟩ := workerExecute_worker hexec
      rw [hw] at hw'
      rcases hw' with h₁ | ⟨rc, h₁⟩ | h₁ <;> cases h₁
  | poll rc c' hw' ht =>
      rw [ht] at hw
      cases hw
  | complete c' rc hw' hres =>
      cases hw.symm.trans hres.worker
  | log c' rc hw' ht =>
      rw [ht] at hw
      cases hw

/-- **The backend is live in every reachable state.** -/
theorem Reachable.live (h : Reachable s) : s.backend.Live := by
  obtain ⟨s₀, as, hinit, hrun⟩ := h
  have hlive₀ : s₀.backend.Live := by
    obtain ⟨b, m, config, queueOk, mutexRc, provider, threadRc, hlive, -, rfl⟩ := hinit
    exact hlive
  exact run_invariant (I := fun s => s.backend.Live) hlive₀
    (fun s a t hs _ hstep => (step_geometry hstep).live hs) (runOk_trivial s₀ as) hrun

/-! ### Fields that few steps change -/

/-- The calls, the accepted requests, the peer table and the flags. -/
structure WorkerKept (s t : Sys) : Prop where
  calls : t.calls = s.calls
  nextCall : t.nextCall = s.nextCall
  accepted : t.accepted = s.accepted
  peers : t.mgr.peers = s.mgr.peers
  enabled : t.mgr.enabled = s.mgr.enabled
  useMock : t.mgr.useMock = s.mgr.useMock
  stopping : t.mgr.stopping = s.mgr.stopping

theorem workerDequeue_kept {uninit : UninitRead} (h : workerDequeue s uninit = some t) :
    WorkerKept s t ∧ t.backend = s.backend ∧ t.posted = s.posted := by
  simp only [workerDequeue] at h
  repeat' split at h
  all_goals first | cases h; exact ⟨⟨rfl, rfl, rfl, rfl, rfl, rfl, rfl⟩, rfl, rfl⟩ | cases h

theorem workerExecute_kept {post : Bool} (h : workerExecute s post = some t) :
    WorkerKept s t := by
  simp only [workerExecute] at h
  repeat' split at h
  all_goals first | cases h; exact ⟨rfl, rfl, rfl, rfl, rfl, rfl, rfl⟩ | cases h

theorem workerComplete_kept (h : workerComplete s = some t) :
    WorkerKept s t ∧ t.backend = s.backend ∧ t.posted = s.posted := by
  simp only [workerComplete] at h
  split at h <;> cases h
  exact ⟨⟨rfl, rfl, rfl, rfl, rfl, rfl, rfl⟩, rfl, rfl⟩

/-- **What the worker leaves alone.** -/
theorem worker_kept (h : step s a = some t) (ha : a.byWorker = true) : WorkerKept s t := by
  unfold step at h
  split at h
  · cases h
  cases a with
  | workerDequeue uninit => exact (workerDequeue_kept h).1
  | workerExecute post => exact workerExecute_kept h
  | workerPoll rc =>
      obtain ⟨c, -, rfl⟩ := workerPoll_result h
      exact ⟨rfl, rfl, rfl, rfl, rfl, rfl, rfl⟩
  | workerComplete => exact (workerComplete_kept h).1
  | workerLog =>
      obtain ⟨c, rc, -, rfl⟩ := workerLog_result h
      exact ⟨rfl, rfl, rfl, rfl, rfl, rfl, rfl⟩
  | _ => cases ha

/-- The accepted requests, the posted work requests and the flag that stops the
worker. -/
structure Kept (s t : Sys) : Prop where
  accepted : t.accepted = s.accepted
  posted : t.posted = s.posted
  stopping : t.mgr.stopping = s.mgr.stopping

theorem kept_freeHbm (s : Sys) (h : Option CallId) (c : CallId) (kind : CallKind) (pc : CallPc) :
    Kept s ((s.freeHbm h).setCall c kind pc) := by
  cases h <;> exact ⟨rfl, rfl, rfl⟩

theorem timedwait_kept {c : CallId} {rc : Int} {now : ClockTime}
    (h : timedwait s c rc now = some t) : Kept s t := by
  simp only [timedwait, waitLoop] at h
  repeat' split at h
  all_goals first | cases h; exact ⟨rfl, rfl, rfl⟩ | cases h

theorem peerConnect_kept (s : Sys) (info : PeerConnectInfo) (env : ConnectEnv) :
    Kept s (peerConnect s info env) := by
  unfold peerConnect
  repeat' split
  all_goals exact ⟨rfl, rfl, rfl⟩

theorem peerConnectLocked_kept {c : CallId} (h : peerConnectLocked s c = some t) : Kept s t := by
  simp only [peerConnectLocked] at h
  repeat' split at h
  all_goals
    first
    | cases h
      exact kept_freeHbm _ _ _ _ _
    | cases h
      exact ⟨rfl, rfl, rfl⟩
    | cases h

theorem peerDisconnect_kept (s : Sys) (peerId : UInt64) : Kept s (peerDisconnect s peerId) := by
  unfold peerDisconnect
  repeat' split
  all_goals exact ⟨rfl, rfl, rfl⟩

theorem peerDisconnectRelease_kept {c : CallId} (h : peerDisconnectRelease s c = some t) :
    Kept s t := by
  simp only [peerDisconnectRelease] at h
  split at h <;> cases h
  exact kept_freeHbm _ _ _ _ _

theorem mockWritePeer_kept (s : Sys) (peerId remoteAddr : UInt64) (data : List UInt8)
    (len : UInt32) : Kept s (mockWritePeer s peerId remoteAddr data len) := by
  unfold mockWritePeer
  split <;> exact ⟨rfl, rfl, rfl⟩

/-- The steps that can change the backend or post a work request. -/
def Action.touches : Action → Bool
  | .workerExecute _ | .backendWrite _ _ _ | .backendZero _ _ => true
  | _ => false

/-- Which steps change which of these fields. -/
structure StepKept (s : Sys) (a : Action) (t : Sys) : Prop where
  backend : a.touches = false → t.backend = s.backend
  posted : a.touches = false → t.posted = s.posted
  accepted : (∃ x timeoutMs now, a = .transferSync x timeoutMs now) ∨ t.accepted = s.accepted
  stopping : a = .mgrDestroy ∨ t.mgr.stopping = s.mgr.stopping

theorem StepKept.of_kept (hbackend : t.backend = s.backend) (h : Kept s t) : StepKept s a t :=
  ⟨fun _ => hbackend, fun _ => h.posted, .inr h.accepted, .inr h.stopping⟩

/-- **Only a transfer accepts, only the worker's execution posts, and only
`ramdisk_urma_mgr_destroy` stops the worker.** -/
theorem step_kept (h : step s a = some t) : StepKept s a t := by
  unfold step at h
  split at h
  · cases h
  cases a with
  | transferSync x timeoutMs now =>
      obtain rfl := Option.some.inj h
      have hbackend := (transferSync_frame s x timeoutMs now).2.1
      refine ⟨fun _ => hbackend, fun _ => ?_, .inl ⟨x, timeoutMs, now, rfl⟩, .inr ?_⟩
      all_goals
        unfold transferSync
        repeat' split
        all_goals rfl
  | timedwait c rc now => exact .of_kept (timedwait_frame h).2.1 (timedwait_kept h)
  | peerConnect info env =>
      obtain rfl := Option.some.inj h
      exact .of_kept (peerConnect_frame s info env).2 (peerConnect_kept s info env)
  | peerConnectLocked c =>
      exact .of_kept (peerConnectLocked_frame h).2 (peerConnectLocked_kept h)
  | peerDisconnect peerId =>
      obtain rfl := Option.some.inj h
      exact .of_kept (peerDisconnect_frame s peerId).2 (peerDisconnect_kept s peerId)
  | peerDisconnectRelease c =>
      exact .of_kept (peerDisconnectRelease_frame h).2 (peerDisconnectRelease_kept h)
  | mockWritePeer peerId remoteAddr data len =>
      obtain rfl := Option.some.inj h
      exact .of_kept (mockWritePeer_frame s peerId remoteAddr data len).2
        (mockWritePeer_kept s peerId remoteAddr data len)
  | mgrDestroy =>
      obtain rfl := Option.some.inj h
      exact ⟨fun _ => rfl, fun _ => rfl, .inr rfl, .inl rfl⟩
  | workerDequeue uninit =>
      obtain ⟨hkept, hbackend, hposted⟩ := workerDequeue_kept h
      exact .of_kept hbackend ⟨hkept.accepted, hposted, hkept.stopping⟩
  | workerExecute post =>
      have hkept := workerExecute_kept h
      exact ⟨by rintro ⟨⟩, by rintro ⟨⟩, .inr hkept.accepted, .inr hkept.stopping⟩
  | workerPoll rc =>
      obtain ⟨c, -, rfl⟩ := workerPoll_result h
      exact .of_kept rfl ⟨rfl, rfl, rfl⟩
  | workerComplete =>
      obtain ⟨hkept, hbackend, hposted⟩ := workerComplete_kept h
      exact .of_kept hbackend ⟨hkept.accepted, hposted, hkept.stopping⟩
  | workerLog =>
      obtain ⟨c, rc, -, rfl⟩ := workerLog_result h
      exact .of_kept rfl ⟨rfl, rfl, rfl⟩
  | backendWrite offset data len =>
      obtain rfl := Option.some.inj h
      exact ⟨by rintro ⟨⟩, by rintro ⟨⟩, .inr rfl, .inr rfl⟩
  | backendZero offset len =>
      obtain rfl := Option.some.inj h
      exact ⟨by rintro ⟨⟩, by rintro ⟨⟩, .inr rfl, .inr rfl⟩
  | _ =>
      obtain rfl := Option.some.inj h
      exact .of_kept rfl ⟨rfl, rfl, rfl⟩

end Urma

end DirectStorage
