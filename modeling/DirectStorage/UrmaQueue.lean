/-
DirectStorage/UrmaQueue.lean

The daemon's request queue over whole runs.

`step_queueStep` says that the daemon refines the hand-over protocol: every
step of any thread is, seen through `queueView`, a step of the protocol or
leaves its state alone.  The protocol's invariant therefore holds in every
reachable state, and `Reachable.queueSpec` reads it back in terms of the
daemon's own fields.

The one fact about the environment is that `pthread_cond_timedwait` returns 0
or `ETIMEDOUT` for a valid deadline (`timedwaitMayReturn`); that the deadlines
are valid is `makeAbsTimeout_valid`.
-/
import DirectStorage.HandOver

namespace DirectStorage

namespace Urma

open Function

variable {w : QueueView}

/-! ### The daemon refines the hand-over -/

variable {s t : Sys}

theorem transfer_update {c : CallId} {k : Call}
    (h : t.calls = update s.calls c (some k)) :
    t.transfer = update s.transfer c k.transfer := by
  funext c'
  by_cases e : c' = c
  · subst e
    simp [Sys.transfer, h]
  · simp [Sys.transfer, h, update_of_ne e]

theorem transfer_setTransfer {c : CallId} {x : UrmaTransfer} {timeoutMs : UInt32}
    {pc : CallPc} (h : t.calls = update s.calls c (some ⟨.transfer x timeoutMs, pc⟩)) :
    t.transfer = update s.transfer c (some (x, pc)) :=
  transfer_update h

/-- A step to `w` is a step to every daemon state that looks like `w`. -/
theorem QueueStep.of_view (hstep : QueueStep s.queueView w) (hcore : t.queueCore = w.core)
    (hreqs : t.reqs = w.reqs) (hcalls : t.transfer = w.calls)
    (hn : t.nextCall = w.nextCall) : QueueStep s.queueView t.queueView := by
  have hview : t.queueView = w := by
    cases w
    simp only [Sys.queueView, hcore, hreqs, hcalls, hn]
  rw [hview]
  exact hstep

/-- A step that leaves queue, requests and transfer calls alone. -/
theorem QueueStep.of_unchanged (hcore : t.queueCore = s.queueCore)
    (hreqs : t.reqs = s.reqs) (hcalls : t.transfer = s.transfer)
    (hn : s.nextCall ≤ t.nextCall) : QueueStep s.queueView t.queueView :=
  (QueueStep.other (v := s.queueView) t.nextCall hn).of_view hcore hreqs hcalls rfl

/-- A step that only writes a call which is not, and was not, a transfer. -/
theorem QueueStep.of_otherCall {c : CallId} {k : Call} (hk : k.transfer = none)
    (hc : s.transfer c = none) (hcalls : t.calls = update s.calls c (some k))
    (hcore : t.queueCore = s.queueCore) (hreqs : t.reqs = s.reqs)
    (hn : s.nextCall ≤ t.nextCall) : QueueStep s.queueView t.queueView := by
  refine .of_unchanged hcore hreqs ?_ hn
  rw [transfer_update hcalls, hk, ← hc, update_eq_self]

/-- The freed buffer is not part of the hand-over. -/
@[simp] theorem queueCore_freeHbm (s : Sys) (h : Option CallId) :
    (s.freeHbm h).queueCore = s.queueCore := by
  cases h <;> rfl

theorem queueStep_transferSync (s : Sys) (x : UrmaTransfer) (timeoutMs : UInt32)
    (now : ClockTime) :
    QueueStep s.queueView (transferSync s x timeoutMs now).queueView := by
  -- a refused transfer returns an error code
  have hreject : ∀ rc : Int, rc ≠ 0 → QueueStep s.queueView
      (s.newCall (.transfer x timeoutMs) (.returned rc)).queueView := by
    intro rc hrc
    exact (QueueStep.reject (v := s.queueView) x rc hrc).of_view rfl rfl
      (transfer_setTransfer rfl) rfl
  unfold transferSync
  rcases e : validateXferLocked s.mgr s.backend x with rc | k
  · exact hreject rc (validateXferLocked_error_ne e)
  · dsimp only
    split
    · exact hreject _ (by decide)
    · next hroom =>
      have haccept := QueueStep.accept (v := s.queueView) x
        (makeAbsTimeout now (effectiveTimeout timeoutMs)) (makeAbsTimeout_valid _ _)
        (Nat.lt_of_not_le hroom)
      exact haccept.of_view rfl rfl (transfer_setTransfer rfl) rfl

theorem queueStep_waitLoop {c : CallId} {x : UrmaTransfer} {timeoutMs : UInt32}
    {ts ts' : Timespec} (hc : s.calls c = some ⟨.transfer x timeoutMs, .waiting ts⟩)
    (hts : ts.Valid → ts'.Valid) :
    QueueStep s.queueView (waitLoop s c (.transfer x timeoutMs) ts').queueView := by
  have hpc : s.queueView.calls c = some (x, .waiting ts) := by
    simp [Sys.queueView, Sys.transfer, hc, Call.transfer]
  unfold waitLoop
  split
  · next hdone =>
    exact (QueueStep.leave (v := s.queueView) c x ts hpc hdone).of_view rfl rfl
      (transfer_setTransfer rfl) rfl
  · exact (QueueStep.rewait (v := s.queueView) c x ts ts' hpc hts).of_view rfl rfl
      (transfer_setTransfer rfl) rfl

theorem queueStep_timedwait {c : CallId} {rc : Int} {now : ClockTime}
    (h : timedwait s c rc now = some t) : QueueStep s.queueView t.queueView := by
  unfold timedwait at h
  split at h
  · next x timeoutMs ts hc =>
    split at h
    · next hmay =>
      split_ifs at h with htimeout hzero
      · obtain rfl := Option.some.inj h
        exact queueStep_waitLoop hc fun _ => makeAbsTimeout_valid _ _
      · -- any other code means that the deadline was rejected
        obtain rfl := Option.some.inj h
        have hpc : s.queueView.calls c = some (x, .waiting ts) := by
          simp [Sys.queueView, Sys.transfer, hc, Call.transfer]
        have hinvalid : ¬ ts.Valid := by
          rcases hmay with h₀ | h₁ | h₂
          · exact absurd h₀ hzero
          · exact absurd h₁ htimeout
          · exact h₂
        exact (QueueStep.abandon (v := s.queueView) c x ts (-rc) hpc hinvalid).of_view
          rfl rfl (transfer_setTransfer rfl) rfl
      · obtain rfl := Option.some.inj h
        exact queueStep_waitLoop hc id
    · cases h
  · cases h

theorem queueStep_peerConnect (hfresh : s.transfer s.nextCall = none)
    (info : PeerConnectInfo) (env : ConnectEnv) :
    QueueStep s.queueView (peerConnect s info env).queueView := by
  unfold peerConnect
  -- on every path a call begins that is not a transfer
  repeat' split
  all_goals
    exact .of_otherCall (k := ⟨.peerConnect info, _⟩) rfl hfresh rfl rfl rfl (Nat.le_succ _)

theorem queueStep_peerConnectLocked {c : CallId} (h : peerConnectLocked s c = some t) :
    QueueStep s.queueView t.queueView := by
  unfold peerConnectLocked at h
  split at h
  · next info p hc =>
    have hpc : s.transfer c = none := by simp [Sys.transfer, hc, Call.transfer]
    -- the undo on the error paths only frees the buffer
    have hundo : ∀ rc, QueueStep s.queueView
        ((s.freeHbm p.mockHbm).setCall c (.peerConnect info) (.returned rc)).queueView := by
      intro rc
      refine .of_otherCall (k := ⟨.peerConnect info, .returned rc⟩) rfl hpc ?_ ?_ ?_ ?_
      · exact congrArg (update · c _) (calls_freeHbm s _)
      · exact queueCore_freeHbm s _
      · exact reqs_freeHbm s _
      · exact (nextCall_freeHbm s _).ge
    split at h
    · obtain rfl := Option.some.inj h
      exact hundo _
    · split at h
      · obtain rfl := Option.some.inj h
        exact hundo _
      · split at h
        · obtain rfl := Option.some.inj h
          exact hundo _
        · obtain rfl := Option.some.inj h
          exact .of_otherCall (k := ⟨.peerConnect info, .returned 0⟩) rfl hpc rfl rfl rfl
            le_rfl
  · cases h

theorem queueStep_peerDisconnect (hfresh : s.transfer s.nextCall = none)
    (peerId : UInt64) : QueueStep s.queueView (peerDisconnect s peerId).queueView := by
  unfold peerDisconnect
  repeat' split
  all_goals
    exact .of_otherCall (k := ⟨.peerDisconnect peerId, _⟩) rfl hfresh rfl rfl rfl (Nat.le_succ _)

theorem queueStep_peerDisconnectRelease {c : CallId}
    (h : peerDisconnectRelease s c = some t) : QueueStep s.queueView t.queueView := by
  unfold peerDisconnectRelease at h
  split at h
  · next peerId old hc =>
    have hpc : s.transfer c = none := by simp [Sys.transfer, hc, Call.transfer]
    obtain rfl := Option.some.inj h
    refine .of_otherCall (k := ⟨.peerDisconnect peerId, .returned 0⟩) rfl hpc ?_ ?_ ?_ ?_
    · exact congrArg (update · c _) (calls_freeHbm s _)
    · exact queueCore_freeHbm s _
    · exact reqs_freeHbm s _
    · exact (nextCall_freeHbm s _).ge
  · cases h

theorem queueStep_mockWritePeer (hfresh : s.transfer s.nextCall = none)
    (peerId remoteAddr : UInt64) (data : List UInt8) (len : UInt32) :
    QueueStep s.queueView (mockWritePeer s peerId remoteAddr data len).queueView := by
  unfold mockWritePeer
  split
  · exact .of_otherCall (k := ⟨.mockWritePeer peerId remoteAddr len, _⟩) rfl hfresh rfl rfl
      rfl (Nat.le_succ _)
  · exact .of_otherCall (k := ⟨.mockWritePeer peerId remoteAddr len, _⟩) rfl hfresh rfl rfl
      rfl (Nat.le_succ _)

theorem queueStep_workerDequeue {uninit : UninitRead}
    (h : workerDequeue s uninit = some t) : QueueStep s.queueView t.queueView := by
  unfold workerDequeue at h
  split at h
  · next htop =>
    have hidle : s.queueView.core.inHand = [] := by
      show s.worker.inHand = []
      rw [htop]
      rfl
    split_ifs at h with hwait hstop
    · obtain rfl := Option.some.inj h
      exact .of_unchanged rfl rfl rfl le_rfl
    · obtain rfl := Option.some.inj h
      exact .of_unchanged (by simp [Sys.queueCore, htop, WorkerPc.inHand]) rfl rfl le_rfl
    · split at h
      · obtain rfl := Option.some.inj h
        exact .of_unchanged (by simp [Sys.queueCore, htop, WorkerPc.inHand]) rfl rfl le_rfl
      · next c hfront =>
        -- whatever re-validation says, at most the remote address is rewritten
        have hdeq : ∀ addr : UInt64, QueueStep s.queueView _ :=
          fun addr => QueueStep.dequeue (v := s.queueView) c addr hfront hidle
        dsimp only at h
        split at h
        · next k hk =>
          obtain rfl := Option.some.inj h
          exact (hdeq (s.mgr.peers k).segVa).of_view rfl rfl rfl rfl
        · cases uninit with
          | fault =>
              obtain rfl := Option.some.inj h
              exact (hdeq (s.reqs c).remoteHbmAddr).of_view rfl
                (update_eq_self c s.reqs).symm rfl rfl
          | value v =>
              obtain rfl := Option.some.inj h
              exact (hdeq v).of_view rfl rfl rfl rfl
  · cases h

theorem queueStep_workerExecute {post : Bool} (h : workerExecute s post = some t) :
    QueueStep s.queueView t.queueView := by
  unfold workerExecute at h
  split at h
  · next c k conn hw =>
    split at h
    · split at h
      · obtain rfl := Option.some.inj h
        exact .of_unchanged (by simp [Sys.queueCore, hw, WorkerPc.inHand]) rfl rfl le_rfl
      · obtain rfl := Option.some.inj h
        exact .of_unchanged (by simp [Sys.queueCore, hw, WorkerPc.inHand]) rfl rfl le_rfl
    · split at h
      · obtain rfl := Option.some.inj h
        exact .of_unchanged (by simp [Sys.queueCore, hw, WorkerPc.inHand]) rfl rfl le_rfl
      · split at h <;> obtain rfl := Option.some.inj h <;>
          exact .of_unchanged (by simp [Sys.queueCore, hw, WorkerPc.inHand]) rfl rfl le_rfl
  · cases h

theorem queueStep_workerPoll {rc : Int} (h : workerPoll s rc = some t) :
    QueueStep s.queueView t.queueView := by
  unfold workerPoll at h
  split at h
  · next c hw =>
    split_ifs at h
    obtain rfl := Option.some.inj h
    exact .of_unchanged (by simp [Sys.queueCore, hw, WorkerPc.inHand]) rfl rfl le_rfl
  · cases h

theorem queueStep_workerComplete (h : workerComplete s = some t) :
    QueueStep s.queueView t.queueView := by
  unfold workerComplete at h
  split at h
  · next c rc hw =>
    have hhand : s.queueView.core.inHand = [c] := by
      show s.worker.inHand = [c]
      rw [hw]
      rfl
    obtain rfl := Option.some.inj h
    exact (QueueStep.complete (v := s.queueView) c rc hhand).of_view rfl rfl rfl rfl
  · cases h

theorem queueStep_workerLog (h : workerLog s = some t) :
    QueueStep s.queueView t.queueView := by
  unfold workerLog at h
  split at h
  · next c rc hw =>
    obtain rfl := Option.some.inj h
    exact .of_unchanged (by simp [Sys.queueCore, hw, WorkerPc.inHand]) rfl rfl le_rfl
  · cases h

/-- **Every step of the daemon is a step of the hand-over.** -/
theorem step_queueStep {a : Action} (hinv : QueueInv s.queueView)
    (h : step s a = some t) : QueueStep s.queueView t.queueView := by
  have hfresh : s.transfer s.nextCall = none := hinv.subs.fresh _ le_rfl
  unfold step at h
  split at h
  · cases h
  cases a with
  | transferSync x timeoutMs now =>
      obtain rfl := Option.some.inj h
      exact queueStep_transferSync s x timeoutMs now
  | timedwait c rc now => exact queueStep_timedwait h
  | peerConnect info env =>
      obtain rfl := Option.some.inj h
      exact queueStep_peerConnect hfresh info env
  | peerConnectLocked c => exact queueStep_peerConnectLocked h
  | peerDisconnect peerId =>
      obtain rfl := Option.some.inj h
      exact queueStep_peerDisconnect hfresh peerId
  | peerDisconnectRelease c => exact queueStep_peerDisconnectRelease h
  | enable =>
      obtain rfl := Option.some.inj h
      exact .of_otherCall (k := ⟨.enable, .returned 0⟩) rfl hfresh rfl rfl rfl (Nat.le_succ _)
  | disable =>
      obtain rfl := Option.some.inj h
      exact .of_otherCall (k := ⟨.disable, .returned 0⟩) rfl hfresh rfl rfl rfl (Nat.le_succ _)
  | fillStatus =>
      obtain rfl := Option.some.inj h
      exact .of_otherCall (k := ⟨.fillStatus, .returned 0⟩) rfl hfresh rfl rfl rfl
        (Nat.le_succ _)
  | mockWritePeer peerId remoteAddr data len =>
      obtain rfl := Option.some.inj h
      exact queueStep_mockWritePeer hfresh peerId remoteAddr data len
  | mgrDestroy =>
      obtain rfl := Option.some.inj h
      exact .of_otherCall (k := ⟨.mgrDestroy, .joining⟩) rfl hfresh rfl rfl rfl (Nat.le_succ _)
  | workerDequeue uninit => exact queueStep_workerDequeue h
  | workerExecute post => exact queueStep_workerExecute h
  | workerPoll rc => exact queueStep_workerPoll h
  | workerComplete => exact queueStep_workerComplete h
  | workerLog => exact queueStep_workerLog h
  | backendWrite offset data len =>
      obtain rfl := Option.some.inj h
      exact .of_unchanged rfl rfl rfl le_rfl
  | backendZero offset len =>
      obtain rfl := Option.some.inj h
      exact .of_unchanged rfl rfl rfl le_rfl

/-! ### Whole runs -/

theorem queueInv_initial (h : Initial s) : QueueInv s.queueView := by
  obtain ⟨b, m, config, queueOk, mutexRc, provider, threadRc, -, hinit, rfl⟩ := h
  obtain ⟨hdepth, hm⟩ := mgrInit_ok hinit
  have hq : m.queue = Ring.empty (chosenDepth config) := by rw [hm]; rfl
  have hd : m.queueDepth = chosenDepth config := by rw [hm]; rfl
  have hi : m.inflight = 0 := by rw [hm]; rfl
  have hcount : m.completed + m.failed = 0 := by rw [hm]; rfl
  have hpos := chosenDepth_pos config
  refine ⟨?_, ?_⟩
  · constructor
    case depth_pos => exact hpos.trans hd.ge
    case depth_le => exact hd.le.trans hdepth
    case cap_eq =>
      show m.queue.cap = m.queueDepth
      rw [hq, hd, Ring.cap_empty]
    case order =>
      refine ⟨[], ?_, rfl⟩
      show m.queue.Holds []
      rw [hq]
      exact Ring.empty_holds hpos
    case dequeued_eq => rfl
    case nodup => exact List.nodup_nil
    case hand_le => exact Nat.zero_le 1
    case inflight_eq => exact hi
    case counters => exact hcount
  · constructor
    case fresh => exact fun c _ => rfl
    case called => nofun
    case waiting => nofun
    case args => nofun
    case pending => nofun
    case refused => nofun
    case done => nofun

/-- **The invariant holds in every reachable state.** -/
theorem Reachable.queueInv (h : Reachable s) : QueueInv s.queueView := by
  obtain ⟨s₀, as, hinit, hrun⟩ := h
  exact run_invariant (I := fun s => QueueInv s.queueView) (queueInv_initial hinit)
    (fun s a t hs _ hstep => (step_queueStep hs hstep).preserves hs)
    (runOk_trivial s₀ as) hrun

/-- What the queue is for: requests pass from their submitters through the ring
to the worker and back, in order and each exactly once. -/
structure QueueSpec (s : Sys) : Prop where
  depth_pos : 1 ≤ s.mgr.queueDepth
  depth_le : s.mgr.queueDepth ≤ 1024
  slots_length : s.mgr.queue.slots.length = s.mgr.queueDepth
  pending_le : s.mgr.pending ≤ s.mgr.queueDepth
  inflight_le : s.mgr.inflight ≤ 1
  tail_eq : s.mgr.queue.tail = (s.mgr.queue.head + s.mgr.pending) % s.mgr.queueDepth
  /-- The occupied slots hold the requests `q`, oldest first: distinct, accepted,
  not done, and with a submitter that still waits.  What was dequeued comes
  before them in the order of acceptance; of that, everything is finished but
  the request in the worker's hands. -/
  content : ∃ q hand : List CallId,
    q.length = s.mgr.pending ∧ hand.length = s.mgr.inflight ∧
    (∀ i (hi : i < q.length),
      s.mgr.queue.slots[(s.mgr.queue.head + i) % s.mgr.queueDepth]? = some (some q[i])) ∧
    (∀ c ∈ q, c ∈ s.accepted ∧ (s.reqs c).done = false ∧
      ∃ x ts, s.transfer c = some (x, .waiting ts)) ∧
    s.accepted = s.dequeued ++ q ∧ s.dequeued = s.finished ++ hand
  /-- Every other slot is `NULL`. -/
  vacant : ∀ j < s.mgr.queueDepth,
    (∀ i < s.mgr.pending, (s.mgr.queue.head + i) % s.mgr.queueDepth ≠ j) →
    s.mgr.queue.slots[j]? = some none
  /-- No request is accepted, dequeued or completed twice. -/
  once : s.accepted.Nodup ∧ s.dequeued.Nodup ∧ s.finished.Nodup
  counted : s.mgr.completed + s.mgr.failed + s.mgr.pending + s.mgr.inflight =
    s.accepted.length
  /-- A submitter whose request was accepted returns after its own request is
  done, and with that request's status; any other one returns an error. -/
  returned : ∀ c x rc, s.transfer c = some (x, .returned rc) →
    (c ∈ s.accepted → c ∈ s.finished ∧ (s.reqs c).done = true ∧ rc = (s.reqs c).status) ∧
    (c ∉ s.accepted → rc ≠ 0)

/-- **The request queue is correct in every reachable state**, whatever
validation, execution and the waits return. -/
theorem Reachable.queueSpec (h : Reachable s) : QueueSpec s := by
  have hinv := h.queueInv
  obtain ⟨q, hq, hacc⟩ : ∃ q, s.mgr.queue.Holds q ∧
    s.accepted = s.finished ++ s.worker.inHand ++ q := hinv.core.order
  have hcap : s.mgr.queue.cap = s.mgr.queueDepth := hinv.core.cap_eq
  have hdeq : s.dequeued = s.finished ++ s.worker.inHand := hinv.core.dequeued_eq
  have hin : s.mgr.inflight = s.worker.inHand.length := hinv.core.inflight_eq
  have hnodup : s.accepted.Nodup := hinv.core.nodup
  have hnodup_deq : s.dequeued.Nodup := by
    rw [hacc, ← hdeq] at hnodup
    exact hnodup.of_append_left
  constructor
  case depth_pos => exact hinv.core.depth_pos
  case depth_le => exact hinv.core.depth_le
  case slots_length => exact hcap
  case pending_le => exact hq.count_le.trans hcap.le
  case inflight_le => exact hin.le.trans hinv.core.hand_le
  case tail_eq => exact hcap ▸ hq.tail_eq
  case content =>
    refine ⟨q, s.worker.inHand, hq.count_eq.symm, hin.symm, ?_, ?_, hdeq ▸ hacc, hdeq⟩
    · intro i hi
      exact hcap ▸ hq.occupied hi
    · intro c hc
      have hmem : c ∈ s.accepted := by rw [hacc]; simp [hc]
      -- a request in the ring is not finished, as nothing is accepted twice
      have hnf : c ∉ s.finished := by
        intro hfin
        rw [hacc, List.append_assoc] at hnodup
        exact List.disjoint_of_nodup_append hnodup hfin (by simp [hc])
      exact ⟨hmem, hinv.subs.pending c hmem hnf⟩
  case vacant =>
    intro j hj hne
    refine hq.vacant (hcap ▸ hj) ?_
    intro i hi
    rw [hcap]
    exact hne i (hi.trans_eq hq.count_eq.symm)
  case once => exact ⟨hnodup, hnodup_deq, (hdeq ▸ hnodup_deq).of_append_left⟩
  case counted =>
    have hcount : s.mgr.completed + s.mgr.failed = s.finished.length := hinv.core.counters
    have hpend : s.mgr.pending = q.length := hq.count_eq
    rw [hacc, hcount, hpend, hin, List.length_append, List.length_append]
    omega
  case returned =>
    intro c x rc hc
    refine ⟨?_, hinv.subs.refused c x rc hc⟩
    intro hmem
    have hfin := hinv.subs.returned_finished hc hmem
    obtain ⟨hdone, hrc⟩ := hinv.subs.done c hfin
    exact ⟨hfin, hdone, hrc x rc hc⟩

/-- One request is executed and its submitter returns; a second one waits. -/
def Small.twoTransfers : List Action :=
  Small.connect ++
    [.transferSync (Small.xfer 65536) 0 Small.now, .workerDequeue .fault, .workerExecute true,
      .workerComplete, .transferSync (Small.xfer 65536) 0 Small.now, .timedwait 1 0 Small.now]

/-- The theorem at a state with one finished and one waiting request. -/
theorem queueSpec_small : ∃ s, run step Small.start Small.twoTransfers = some s ∧
    (s.accepted = [1, 2] ∧ s.finished = [1]) ∧ QueueSpec s := by
  obtain ⟨s, hrun, hs⟩ := exists_of_run_any (δ := step) Small.start Small.twoTransfers
    (fun s => s.accepted = [1, 2] ∧ s.finished = [1]) (by decide +kernel)
  exact ⟨s, hrun, by simpa using hs, Reachable.queueSpec ⟨_, _, Small.start_initial, hrun⟩⟩

end Urma

end DirectStorage
