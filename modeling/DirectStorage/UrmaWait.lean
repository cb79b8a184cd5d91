/-
DirectStorage/UrmaWait.lean

The condition variables of the URMA manager
(`userspace-nbd/src/ramdisk_urma.c`).

In `Urma.step` a worker that finds the queue empty, and a submitter whose request
is not done, look again at the next step.  In the source they sleep: the worker in
`pthread_cond_wait(&mgr->not_empty)`, a submitter in
`pthread_cond_timedwait(&req.done_cond)`.  Signals come from
`ramdisk_urma_transfer_sync` when it has queued a request, from
`ramdisk_urma_mgr_destroy`, and from the worker when it has completed the request.
`not_full` is signalled and broadcast too, but nobody waits on it.

Main results.  `reachable_noLostWakeup`: whoever has something to do is awake, so
no step depends on a deadline or a spurious wake-up.  `worker_drains`: left alone,
the worker finishes everything that was accepted in a bounded number of steps and
then sleeps, or leaves its loop if the manager is being destroyed.
`waits_sameReach`: the condition variables restrict the schedule and nothing else.
-/
import DirectStorage.CondWait
import DirectStorage.UrmaRefines

namespace DirectStorage

namespace Urma

open Function

/-! ### Who waits, and who signals -/

/-- A thread in `pthread_cond_wait` or `pthread_cond_timedwait`. -/
inductive Waiter
  | worker
  /-- The submitter of call `c`, on the `done_cond` of its request. -/
  | caller (c : CallId)
  deriving DecidableEq

/-- Call `c` is in the wait loop of `ramdisk_urma_transfer_sync`. -/
def Sys.inWaitLoop (s : Sys) (c : CallId) : Bool :=
  match s.calls c with
  | some ⟨.transfer _ _, .waiting _⟩ => true
  | _ => false

/-- The condition variables of the manager and of the requests. -/
def waits : CondWait Sys Action Waiter where
  taker
    | .workerDequeue _ => some .worker
    | .timedwait c _ _ => some (.caller c)
    | _ => none
  ready
    | .worker, s => s.mgr.stopping || s.mgr.pending != 0
    | .caller c, s => (s.reqs c).done
  sleeps s a t w :=
    match w, a with
    | .worker, .workerDequeue _ => !s.mgr.stopping && s.mgr.pending == 0
    | .caller c, .transferSync _ _ _ => c == s.nextCall && t.inWaitLoop c
    | .caller c, .timedwait c' _ _ => c == c' && t.inWaitLoop c
    | _, _ => false
  signals s a w :=
    match w, a with
    | .worker, .transferSync x _ _ => admits s x
    | .worker, .mgrDestroy => true
    | .caller c, .workerComplete =>
        match s.worker with
        | .finishing c' _ => c == c'
        | _ => false
    | _, _ => false

abbrev WaitSys := WaitState Sys Waiter

/-- A step of the daemon with its condition variables. -/
abbrev waitStep : WaitSys → WaitLabel Action Waiter → Option WaitSys := waits.step step

/-- A state some run of the daemon with its condition variables reaches; at the
start nobody sleeps. -/
def WaitReachable (s : WaitSys) : Prop :=
  ∃ s₀ ls, Initial s₀ ∧ run waitStep (CondWait.allAwake s₀) ls = some s

variable {s t : Sys} {a : Action} {c : CallId}

theorem WaitReachable.sys {s : WaitSys} (h : WaitReachable s) : Reachable s.sys := by
  obtain ⟨s₀, ls, hinit, hrun⟩ := h
  exact ⟨s₀, CondWait.acts ls, hinit, CondWait.run_sys hrun⟩

/-- **The condition variables restrict the schedule and nothing else**: with them
the daemon gets into the same states as without. -/
theorem waits_sameReach (s : Sys) : Reachable s ↔ ∃ z, WaitReachable ⟨s, z⟩ := by
  constructor
  · rintro ⟨s₀, as, hinit, hrun⟩
    obtain ⟨ls, z, -, hrun'⟩ := CondWait.run_of_sys (W := waits) hrun fun _ => false
    exact ⟨z, s₀, ls, hinit, hrun'⟩
  · rintro ⟨z, h⟩
    exact h.sys

/-! ### The discipline of the signals -/

theorem inWaitLoop_iff : s.inWaitLoop c = true ↔ s.Waits c := by
  unfold Sys.inWaitLoop Sys.Waits Sys.transfer
  constructor
  · intro h
    split at h
    next x timeoutMs ts hc => exact ⟨x, ts, by rw [hc]; rfl⟩
    next => cases h
  · rintro ⟨x, ts, hx⟩
    rcases hc : s.calls c with - | ⟨kind, pc⟩
    · rw [hc] at hx
      cases hx
    · rw [hc] at hx
      cases kind <;> cases hx
      rfl

theorem unready_worker_iff :
    waits.ready .worker s = false ↔ s.mgr.stopping = false ∧ s.mgr.pending = 0 := by
  simp [waits]

/-- The worker falls asleep when it finds nothing to do. -/
theorem sleeps_worker_iff {uninit : UninitRead} :
    waits.sleeps s (.workerDequeue uninit) t .worker = true ↔ waits.ready .worker s = false := by
  simp [waits]

/-- A submitter that falls asleep is in its wait loop. -/
theorem inWaitLoop_of_sleeps (h : waits.sleeps s a t (.caller c) = true) :
    t.inWaitLoop c = true := by
  cases a with
  | transferSync x timeoutMs now => exact (Bool.and_eq_true _ _ ▸ h).2
  | timedwait c' rc now => exact (Bool.and_eq_true _ _ ▸ h).2
  | _ => cases h

/-- A worker that finds nothing to do changes nothing. -/
theorem workerDequeue_unready {uninit : UninitRead} (hidle : waits.ready .worker s = false)
    (h : workerDequeue s uninit = some t) : t = s := by
  obtain ⟨hgo, hempty⟩ := unready_worker_iff.mp hidle
  have hwait : (!s.mgr.stopping && s.mgr.pending == 0) = true := by rw [hgo, hempty]; rfl
  unfold workerDequeue at h
  split at h
  · rw [if_pos hwait] at h
    exact (Option.some.inj h).symm
  · cases h

/-- A step that makes the queue longer accepts a request. -/
theorem QueueStep.count_le_or_accepts {v w : QueueView} (h : QueueStep v w) :
    w.core.queue.count ≤ v.core.queue.count ∨ w.core.accepted ≠ v.core.accepted := by
  cases h with
  | accept x ts hts hroom => exact .inr (by simp [QueueCore.accept])
  | dequeue c addr hfront hidle => exact .inl (Nat.sub_le _ _)
  | _ => exact .inl (Nat.le_refl _)

/-- A request that becomes done was in the worker's hands. -/
theorem QueueStep.done_cases {v w : QueueView} (h : QueueStep v w) (hv : (v.reqs c).done = false)
    (hw : (w.reqs c).done = true) : v.core.inHand = [c] ∧ w.core.inHand = [] := by
  cases h with
  | accept x ts hts hroom =>
      dsimp only at hw
      by_cases e : c = v.nextCall
      · rw [e, update_self] at hw
        cases hw
      · rw [update_of_ne e, hv] at hw
        cases hw
  | dequeue c' addr hfront hidle =>
      dsimp only at hw
      by_cases e : c = c'
      · rw [e, update_self, ← e, hv] at hw
        cases hw
      · rw [update_of_ne e, hv] at hw
        cases hw
  | complete c' rc hhand =>
      dsimp only at hw
      by_cases e : c = c'
      · exact ⟨e ▸ hhand, rfl⟩
      · rw [update_of_ne e, hv] at hw
        cases hw
  | _ => cases hv.symm.trans hw

/-- A step that fills the empty queue is a transfer that is admitted. -/
theorem pending_signalled (hq : QueueInv s.queueView) (h : step s a = some t)
    (hs : s.mgr.pending = 0) (ht : t.mgr.pending ≠ 0) : waits.signals s a .worker = true := by
  rcases accepted_step h with hacc | ⟨x, timeoutMs, now, k, rfl, hacc⟩
  · rcases (step_queueStep hq h).count_le_or_accepts with hle | hne
    · exact absurd (Nat.le_zero.mp (hs ▸ hle)) ht
    · exact absurd hacc hne
  · exact hacc.admits

/-- A step that completes request `c` is the worker's second locked section. -/
theorem done_signalled (hq : QueueInv s.queueView) (h : step s a = some t)
    (hs : (s.reqs c).done = false) (ht : (t.reqs c).done = true) :
    waits.signals s a (.caller c) = true := by
  obtain ⟨hhand, hfree⟩ : s.worker.inHand = [c] ∧ t.worker.inHand = [] :=
    (step_queueStep hq h).done_cases hs ht
  cases step_cases h with
  | other ha hw hgeo =>
      rw [hw, hhand] at hfree
      cases hfree
  | dequeue uninit htop hres =>
      rw [htop] at hhand
      cases hhand
  | execute post hexec =>
      -- a request that was executed stays in hand
      obtain ⟨c', k, conn, -, hw | ⟨rc, hw⟩ | hw⟩ := workerExecute_worker hexec
      all_goals
        rw [hw] at hfree
        cases hfree
  | poll rc c' hw ht' =>
      rw [ht'] at hfree
      cases hfree
  | complete c' rc hw hres =>
      rw [hw] at hhand
      obtain rfl : c' = c := by simpa [WorkerPc.inHand] using hhand
      simp [waits, hw]
  | log c' rc hw ht' =>
      rw [hw] at hhand
      cases hhand

/-- A submitter that goes to sleep has a request that is not done. -/
theorem sleeps_caller (h : step s a = some t) (hsleeps : waits.sleeps s a t (.caller c) = true) :
    (t.reqs c).done = false := by
  unfold step at h
  split at h
  · cases h
  cases a with
  | transferSync x timeoutMs now =>
      obtain rfl := Option.some.inj h
      obtain ⟨rfl, hwaits⟩ :
          c = s.nextCall ∧ (transferSync s x timeoutMs now).inWaitLoop c = true := by
        simpa [waits] using hsleeps
      rcases transferSync_cases s x timeoutMs now with ⟨k, hacc⟩ | ⟨rc, heq, -⟩
      · rw [hacc.reqs]
        rfl
      · rw [heq] at hwaits
        simp [Sys.inWaitLoop, Sys.newCall] at hwaits
  | timedwait c' rc now =>
      obtain ⟨rfl, hwaits⟩ : c = c' ∧ t.inWaitLoop c = true := by simpa [waits] using hsleeps
      simp only [timedwait, waitLoop] at h
      repeat' split at h
      all_goals first
        | cases h
          simp_all [Sys.inWaitLoop, Sys.setCall]
        | cases h
  | _ => cases hsleeps

theorem waits_signalled : waits.Signalled step fun s => QueueInv s.queueView where
  keeps s a t hq h := (step_queueStep hq h).preserves hq
  sleeps_unready s a t w hq h hsleeps := by
    cases w with
    | worker =>
        cases a with
        | workerDequeue uninit =>
            have hidle := sleeps_worker_iff.mp hsleeps
            have hdeq : workerDequeue s uninit = some t := by
              unfold step at h
              split at h
              · cases h
              · exact h
            rw [workerDequeue_unready hidle hdeq]
            exact hidle
        | _ => cases hsleeps
    | caller c => exact sleeps_caller h hsleeps
  signalled s a t w hq h hs ht := by
    cases w with
    | worker =>
        obtain ⟨hrun, hempty⟩ := unready_worker_iff.mp hs
        rcases (step_kept h).stopping with rfl | hkept
        · rfl
        · refine pending_signalled hq h hempty ?_
          intro hzero
          cases ht.symm.trans (unready_worker_iff.mpr ⟨hkept.trans hrun, hzero⟩)
    | caller c => exact done_signalled hq h hs ht

/-! ### Who is asleep -/

/-- A waiting call is continued by its own wake-up only. -/
theorem continues_waits (hc : s.Waits c) (h : step s a = some t) (hcont : a.continues = some c) :
    waits.taker a = some (.caller c) := by
  obtain ⟨x, timeoutMs, ts, hcall⟩ := hc.call
  unfold step at h
  split at h
  · cases h
  cases a with
  | timedwait c' rc now =>
      obtain rfl := Option.some.inj hcont
      rfl
  | peerConnectLocked c' =>
      obtain rfl := Option.some.inj hcont
      simp [peerConnectLocked, hcall] at h
  | peerDisconnectRelease c' =>
      obtain rfl := Option.some.inj hcont
      simp [peerDisconnectRelease, hcall] at h
  | _ => cases hcont

/-- A sleeping worker is at the top of its loop, a sleeping submitter in its wait
loop. -/
structure AsleepInv (s : WaitSys) : Prop where
  queue : QueueInv s.sys.queueView
  worker : s.asleep .worker = true → s.sys.worker = .top
  caller : ∀ c, s.asleep (.caller c) = true → s.sys.Waits c

variable {w w' : WaitSys}

/-- A worker that sleeps makes no step: only a signal or a spurious wake-up gets it
out of `pthread_cond_wait`. -/
theorem worker_asleep (htop : w.sys.worker = .top) (hz : w.asleep .worker = true)
    (hstep : waitStep w (.act a) = some w') :
    a.byWorker = false ∧ w'.sys.worker = w.sys.worker := by
  obtain ⟨hawake, hsys, -⟩ := CondWait.step_act_iff.mp hstep
  rcases step_idle (.inl htop) hsys with hother | ⟨-, uninit, rfl⟩
  · exact hother
  · cases hz.symm.trans (hawake .worker rfl)

theorem AsleepInv.act (h : AsleepInv w) (hstep : waitStep w (.act a) = some w') :
    AsleepInv w' := by
  obtain ⟨hawake, hsys, hasleep⟩ := CondWait.step_act_iff.mp hstep
  refine ⟨(step_queueStep h.queue hsys).preserves h.queue, ?_, ?_⟩
  · intro hz
    rw [hasleep] at hz
    cases hnew : waits.sleeps w.sys a w'.sys .worker with
    | true =>
        -- it found nothing to do and stayed where it was
        cases a with
        | workerDequeue uninit =>
            have htop : w.sys.worker = .top := by
              cases step_cases hsys with
              | other ha hw hgeo => cases ha
              | dequeue uninit htop hres => exact htop
            have hidle := sleeps_worker_iff.mp hnew
            have hdeq : workerDequeue w.sys uninit = some w'.sys := by
              simpa only [step, htop] using hsys
            rw [workerDequeue_unready hidle hdeq]
            exact htop
        | _ => cases hnew
    | false =>
        simp only [hnew, Bool.false_or, Bool.and_eq_true] at hz
        have htop := h.worker hz.1
        exact (worker_asleep htop hz.1 hstep).2.trans htop
  · intro c hz
    rw [hasleep] at hz
    cases hnew : waits.sleeps w.sys a w'.sys (.caller c) with
    | true => exact inWaitLoop_iff.mp (inWaitLoop_of_sleeps hnew)
    | false =>
        simp only [hnew, Bool.false_or, Bool.and_eq_true] at hz
        have hw := h.caller c hz.1
        refine hw.step h.queue hsys ?_
        intro hcont
        cases hz.1.symm.trans (hawake _ (continues_waits hw hsys hcont))

theorem AsleepInv.step (h : AsleepInv w) {l : WaitLabel Action Waiter}
    (hstep : waitStep w l = some w') : AsleepInv w' := by
  cases l with
  | act a => exact h.act hstep
  | wakeup x =>
      obtain rfl := Option.some.inj hstep
      refine ⟨h.queue, ?_, ?_⟩
      · intro hz
        cases x with
        | worker => simp at hz
        | caller c => exact h.worker (by simpa using hz)
      · intro c hz
        by_cases e : Waiter.caller c = x
        · subst e
          simp at hz
        · exact h.caller c ((update_of_ne e _ _).symm.trans hz)

theorem WaitReachable.asleepInv (h : WaitReachable w) : AsleepInv w ∧ waits.Unready w := by
  obtain ⟨s₀, ls, hinit, hrun⟩ := h
  have hq := queueInv_initial hinit
  refine ⟨?_, waits_signalled.unready (s := CondWait.allAwake s₀) hq (by rintro x ⟨⟩) hrun⟩
  exact run_invariant (I := AsleepInv) ⟨hq, by rintro ⟨⟩, by rintro c ⟨⟩⟩
    (fun _ _ _ hs _ hstep => hs.step hstep) (runOk_trivial _ ls) hrun

/-! ### No lost wake-up -/

/-- Nothing is in the queue and nothing is in the worker's hands, so everything
accepted is finished. -/
theorem finished_of_empty (hq : QueueInv s.queueView) (hempty : s.mgr.pending = 0)
    (hhand : s.worker.inHand = []) : s.finished = s.accepted := by
  obtain ⟨q, hholds, horder⟩ : ∃ q, s.mgr.queue.Holds q ∧
    s.accepted = s.finished ++ s.worker.inHand ++ q := hq.core.order
  have hnil : q = [] := List.eq_nil_of_length_eq_zero (hholds.count_eq.symm.trans hempty)
  rw [horder, hhand, hnil, List.append_nil, List.append_nil]

/-- Where the worker can make a step. -/
def WorkerPc.live : WorkerPc → Bool
  | .stopped | .faulted _ => false
  | _ => true

/-- **A live worker that is awake can make a step.** -/
theorem worker_enabled (hlive : w.sys.worker.live = true) (hawake : w.asleep .worker = false) :
    ∃ a w', a.byWorker = true ∧ waitStep w (.act a) = some w' := by
  -- the daemon's step, and the waiters do not stand in its way
  obtain ⟨a, t, ha, hstep, htaker⟩ : ∃ a t, a.byWorker = true ∧ Urma.step w.sys a = some t ∧
      ∀ x, waits.taker a = some x → w.asleep x = false := by
    cases hw : w.sys.worker with
    | top =>
        obtain ⟨t, ht⟩ : ∃ t, workerDequeue w.sys .fault = some t := by
          refine Option.isSome_iff_exists.mp ?_
          simp only [workerDequeue, hw]
          repeat' split
          all_goals rfl
        refine ⟨.workerDequeue .fault, t, rfl, by simpa only [Urma.step, hw] using ht, ?_⟩
        intro x hx
        obtain rfl := Option.some.inj hx
        exact hawake
    | executing c k conn =>
        obtain ⟨t, ht⟩ : ∃ t, workerExecute w.sys true = some t := by
          refine Option.isSome_iff_exists.mp ?_
          simp only [workerExecute, hw]
          repeat' split
          all_goals rfl
        exact ⟨.workerExecute true, t, rfl, by simpa only [Urma.step, hw] using ht, by rintro x ⟨⟩⟩
    | polling c =>
        refine ⟨.workerPoll 0, { w.sys with worker := .finishing c 0 }, rfl, ?_, by rintro x ⟨⟩⟩
        simp [Urma.step, workerPoll, hw]
    | finishing c rc =>
        obtain ⟨t, ht⟩ : ∃ t, workerComplete w.sys = some t := by
          simp only [workerComplete, hw]
          exact ⟨_, rfl⟩
        exact ⟨.workerComplete, t, rfl, by simpa only [Urma.step, hw] using ht, by rintro x ⟨⟩⟩
    | logging c rc =>
        refine ⟨.workerLog, { w.sys with worker := .top }, rfl, ?_, by rintro x ⟨⟩⟩
        simp [Urma.step, workerLog, hw]
    | stopped =>
        rw [hw] at hlive
        cases hlive
    | faulted c =>
        rw [hw] at hlive
        cases hlive
  obtain ⟨asleep, hact⟩ := CondWait.step_act_of htaker hstep
  exact ⟨a, ⟨t, asleep⟩, ha, hact⟩

/-- Who sleeps has nothing to do, and who has something to do can go on. -/
structure NoLostWakeup (s : WaitSys) : Prop where
  /-- A worker that sleeps has an empty queue and has finished everything, and it has
  not been told to stop. -/
  worker : s.asleep .worker = true →
    s.sys.worker = .top ∧ s.sys.mgr.pending = 0 ∧ s.sys.finished = s.sys.accepted ∧
      s.sys.mgr.stopping = false
  /-- A submitter that sleeps waits for a request that is not done. -/
  caller : ∀ c, s.asleep (.caller c) = true → s.sys.Waits c ∧ (s.sys.reqs c).done = false
  /-- As long as a request is not finished, or once the worker has been told to stop,
  it can make a step. -/
  works : s.sys.worker.live = true →
    s.sys.finished ≠ s.sys.accepted ∨ s.sys.mgr.stopping = true →
    ∃ a t, a.byWorker = true ∧ waitStep s (.act a) = some t
  /-- A submitter whose request is finished can return its status. -/
  returns : ∀ c ∈ s.sys.finished, s.sys.Waits c → (∀ c', s.sys.worker ≠ .faulted c') → ∀ now,
    ∃ t, waitStep s (.act (.timedwait c 0 now)) = some t ∧
      t.sys.resultOf c = some (s.sys.reqs c).status

/-- A submitter whose request is done leaves its wait loop with the status. -/
theorem timedwait_done (hw : s.Waits c) (hdone : (s.reqs c).done = true)
    (halive : ∀ c', s.worker ≠ .faulted c') (now : ClockTime) :
    ∃ t, step s (.timedwait c 0 now) = some t ∧ t.resultOf c = some (s.reqs c).status := by
  obtain ⟨x, timeoutMs, ts, hcall⟩ := hw.call
  refine ⟨s.setCall c (.transfer x timeoutMs) (.returned (s.reqs c).status), ?_,
    resultOf_setCall _ _ _ _⟩
  have hmay : timedwaitMayReturn ts 0 := .inl rfl
  have hwake : timedwait s c 0 now =
      some (s.setCall c (.transfer x timeoutMs) (.returned (s.reqs c).status)) := by
    simp only [timedwait, hcall, waitLoop]
    rw [if_pos hmay, if_neg (by decide), if_neg (by decide), if_pos hdone]
  unfold step
  split
  next c' hfault => exact absurd hfault (halive c')
  next => exact hwake

/-- **No wake-up is lost**: in every reachable state, whoever sleeps has nothing to
do, and whoever has something to do can go on without a deadline or a spurious
wake-up. -/
theorem reachable_noLostWakeup (h : WaitReachable w) : NoLostWakeup w := by
  obtain ⟨hinv, hunready⟩ := h.asleepInv
  have hworker : w.asleep .worker = true → w.sys.worker = .top ∧ w.sys.mgr.pending = 0 ∧
      w.sys.finished = w.sys.accepted ∧ w.sys.mgr.stopping = false := by
    intro hz
    have htop := hinv.worker hz
    obtain ⟨hrun, hempty⟩ := unready_worker_iff.mp (hunready _ hz)
    exact ⟨htop, hempty, finished_of_empty hinv.queue hempty (by rw [htop]; rfl), hrun⟩
  refine ⟨hworker, fun c hz => ⟨hinv.caller c hz, hunready _ hz⟩, ?_, ?_⟩
  · intro hlive hdue
    refine worker_enabled hlive ?_
    cases hz : w.asleep .worker with
    | false => rfl
    | true =>
        obtain ⟨-, -, hfin, hgo⟩ := hworker hz
        rcases hdue with hne | hstop
        · exact absurd hfin hne
        · cases hgo.symm.trans hstop
  · intro c hfin hw halive now
    have hdone : (w.sys.reqs c).done = true := (hinv.queue.subs.done c hfin).1
    obtain ⟨t, ht, hres⟩ := timedwait_done hw hdone halive now
    have hawake : ∀ x, waits.taker (.timedwait c 0 now) = some x → w.asleep x = false := by
      intro x hx
      obtain rfl := Option.some.inj hx
      cases hz : w.asleep (.caller c) with
      | false => rfl
      | true => cases hdone.symm.trans (hunready _ hz)
    obtain ⟨asleep, hact⟩ := CondWait.step_act_of hawake ht
    exact ⟨⟨t, asleep⟩, hact, hres⟩

/-- The worker goes to sleep, a transfer wakes it up and goes to sleep itself. -/
def Small.asleep : List (WaitLabel Action Waiter) :=
  .act (.workerDequeue .fault) :: Small.connect.map .act ++
    [.act (.transferSync (Small.xfer 65536) 0 Small.now)]

theorem noLostWakeup_small : ∃ s,
    run waitStep (CondWait.allAwake Small.start) Small.asleep = some s ∧
    (s.asleep (.caller 1) = true ∧ s.asleep .worker = false) ∧ NoLostWakeup s := by
  obtain ⟨s, hrun, hs⟩ := exists_of_run_any (δ := waitStep) (CondWait.allAwake Small.start)
    Small.asleep (fun s => s.asleep (.caller 1) = true ∧ s.asleep .worker = false)
    (by decide +kernel)
  exact ⟨s, hrun, of_decide_eq_true hs,
    reachable_noLostWakeup ⟨_, _, Small.start_initial, hrun⟩⟩

/-! ### The worker on its own -/

/-- A step of the worker. -/
def ByWorker (_ : WaitSys) : WaitLabel Action Waiter → Prop
  | .act a => a.byWorker = true
  | .wakeup _ => False

/-- How many steps the worker is away from the end of the request it has in hand;
a worker that sleeps, has stopped or is gone makes none. -/
def workerBudget (s : WaitSys) : Nat :=
  match s.sys.worker with
  | .executing _ _ _ => 5
  | .polling _ => 4
  | .finishing _ _ => 3
  | .logging _ _ => 2
  | .top => if s.asleep .worker then 0 else 1
  | .stopped | .faulted _ => 0

/-- A bound on the steps the worker makes when nothing new arrives. -/
def budget (s : WaitSys) : Nat := 5 * s.sys.mgr.pending + workerBudget s

theorem budget_le (s : WaitSys) : budget s ≤ 5 * (s.sys.mgr.pending + 1) := by
  have : workerBudget s ≤ 5 := by
    unfold workerBudget
    repeat' split
    all_goals decide
  unfold budget
  omega

/-- What the first locked section does to the queue. -/
theorem workerDequeue_pending {uninit : UninitRead} (h : workerDequeue s uninit = some t) :
    (waits.ready .worker s = false ∧ t = s) ∨
    (s.mgr.pending = 0 ∧ s.mgr.stopping = true ∧ t.mgr.pending = 0 ∧ t.worker = .stopped) ∨
    (t.mgr.pending = s.mgr.pending ∧ t.worker = .faulted none) ∨
    (s.mgr.pending ≠ 0 ∧ t.mgr.pending = s.mgr.pending - 1 ∧
      ((∃ c k conn, t.worker = .executing c k conn) ∨ (∃ c rc, t.worker = .finishing c rc) ∨
        ∃ c, t.worker = .faulted c)) := by
  unfold workerDequeue at h
  split at h
  next htop =>
    split_ifs at h with hwait hstop
    · refine .inl ⟨unready_worker_iff.mpr ?_, (Option.some.inj h).symm⟩
      simpa using hwait
    · obtain rfl := Option.some.inj h
      simp only [Bool.and_eq_true, beq_iff_eq] at hstop
      exact .inr (.inl ⟨hstop.2, hstop.1, hstop.2, rfl⟩)
    · have hne : s.mgr.pending ≠ 0 := by
        intro hzero
        cases hs : s.mgr.stopping <;> simp [hs, hzero] at hwait hstop
      split at h
      · obtain rfl := Option.some.inj h
        exact .inr (.inr (.inl ⟨rfl, rfl⟩))
      · dsimp only at h
        split at h
        · obtain rfl := Option.some.inj h
          exact .inr (.inr (.inr ⟨hne, rfl, .inl ⟨_, _, _, rfl⟩⟩))
        · split at h
          · obtain rfl := Option.some.inj h
            exact .inr (.inr (.inr ⟨hne, rfl, .inr (.inr ⟨_, rfl⟩)⟩))
          · obtain rfl := Option.some.inj h
            exact .inr (.inr (.inr ⟨hne, rfl, .inr (.inl ⟨_, _, rfl⟩)⟩))
  next => cases h

/-- The worker's other steps leave the queue alone. -/
theorem worker_pending (h : step s a = some t) (ha : a.byWorker = true)
    (hdeq : ∀ uninit, a ≠ .workerDequeue uninit) : t.mgr.pending = s.mgr.pending := by
  cases step_cases h with
  | other ha' hw hgeo => cases ha.symm.trans ha'
  | dequeue uninit htop hres => exact absurd rfl (hdeq uninit)
  | execute post hexec =>
      unfold workerExecute at hexec
      repeat' split at hexec
      all_goals first | cases hexec; rfl | cases hexec
  | poll rc c hw ht =>
      rw [ht]
  | complete c rc hw hres =>
      have hcomp : workerComplete s = some t := by simpa only [step, hw] using h
      unfold workerComplete at hcomp
      rw [hw] at hcomp
      obtain rfl := Option.some.inj hcomp
      rfl
  | log c rc hw ht =>
      rw [ht]

/-- **Every step of the worker lowers its budget.** -/
theorem budget_lt (ha : a.byWorker = true)
    (hstep : waitStep w (.act a) = some w') : budget w' < budget w := by
  obtain ⟨hawake, hsys, hasleep⟩ := CondWait.step_act_iff.mp hstep
  cases step_cases hsys with
  | other ha' hw hgeo => cases ha.symm.trans ha'
  | dequeue uninit htop hres =>
      have hz : w.asleep .worker = false := hawake .worker rfl
      have hbudget : budget w = 5 * w.sys.mgr.pending + 1 := by
        simp [budget, workerBudget, htop, hz]
      have hdeq : workerDequeue w.sys uninit = some w'.sys := by
        simpa only [step, htop] using hsys
      rw [hbudget]
      rcases workerDequeue_pending hdeq with ⟨hidle, heq⟩ | ⟨-, -, hzero, hw⟩ | ⟨hsame, hw⟩ |
        ⟨hne, hpop, ⟨c, k, conn, hw⟩ | ⟨c, rc, hw⟩ | ⟨c, hw⟩⟩
      · -- nothing to do: the worker falls asleep
        have hslept : w'.asleep .worker = true := by
          have hsleeps : waits.sleeps w.sys (.workerDequeue uninit) w'.sys .worker = true :=
            sleeps_worker_iff.mpr hidle
          simp only [hasleep, hsleeps, Bool.true_or]
        simp [budget, workerBudget, heq, htop, hslept]
      · simp [budget, workerBudget, hw, hzero]
      · simp [budget, workerBudget, hw, hsame]
      all_goals
        simp only [budget, workerBudget, hw, hpop]
        omega
  | execute post hexec =>
      obtain ⟨c, k, conn, hw, hto⟩ := workerExecute_worker hexec
      have hsame := worker_pending hsys ha (by rintro u ⟨⟩)
      rcases hto with hto | ⟨rc, hto⟩ | hto <;> simp [budget, workerBudget, hw, hto, hsame]
  | poll rc c hw ht => simp [budget, workerBudget, hw, ht]
  | complete c rc hw hres =>
      have hsame := worker_pending hsys ha (by rintro u ⟨⟩)
      simp [budget, workerBudget, hw, hres.worker, hsame]
  | log c rc hw ht =>
      simp only [budget, workerBudget, hw, ht]
      split <;> omega

/-- The worker has left its loop only with an empty queue behind it. -/
def StoppedEmpty (s : Sys) : Prop := s.worker = .stopped → s.mgr.pending = 0 ∧ s.mgr.stopping = true

/-- A step of the worker that leaves the loop finds the queue empty. -/
theorem stoppedEmpty_worker (hstep : step s a = some t) (ha : a.byWorker = true) :
    StoppedEmpty t := by
  intro hstopped
  by_cases hw : s.worker = .stopped
  · cases ha.symm.trans (step_of_stopped hw hstep).1
  · obtain ⟨hzero, hstop, rfl, -⟩ := step_stops hw hstep hstopped
    exact ⟨hzero, hstop⟩

/-- Everything that was accepted is finished, and the worker sleeps, or has left its
loop because the manager is being destroyed. -/
structure AllFinished (s : WaitSys) : Prop where
  finished : s.sys.finished = s.sys.accepted
  counters : s.sys.mgr.pending = 0 ∧ s.sys.mgr.inflight = 0
  rest : if s.sys.mgr.stopping then s.sys.worker = .stopped
    else s.sys.worker = .top ∧ s.asleep .worker = true

/-- **Left alone, the worker finishes.**  From every reachable state in which it has
not left its loop, the worker makes at most five steps for each request and five
more; where it can make no step any more, the process is gone or every accepted
request is finished. -/
theorem worker_drains (h : WaitReachable w) (hw : w.sys.worker ≠ .stopped)
    {ls : List (WaitLabel Action Waiter)} (hls : RunOk waitStep ByWorker w ls)
    (hrun : run waitStep w ls = some w') :
    ls.length ≤ 5 * (w.sys.mgr.pending + 1) ∧
      ((∀ l, ByWorker w' l → waitStep w' l = none) →
        (∃ c, w'.sys.worker = .faulted c) ∨ AllFinished w') := by
  obtain ⟨hinv, hunready⟩ := h.asleepInv
  have hstep : ∀ s l t, AsleepInv s ∧ StoppedEmpty s.sys → ByWorker s l → waitStep s l = some t →
      (AsleepInv t ∧ StoppedEmpty t.sys) ∧ budget t < budget s := by
    rintro s (a | x) t ⟨hs, -⟩ hl ht
    · exact ⟨⟨hs.step ht, stoppedEmpty_worker (CondWait.step_act_iff.mp ht).2.1 hl⟩,
        budget_lt hl ht⟩
    · cases hl
  have hstart : AsleepInv w ∧ StoppedEmpty w.sys := ⟨hinv, fun hstopped => absurd hstopped hw⟩
  refine ⟨?_, ?_⟩
  · have := run_length_le hstep hstart hls hrun
    have := budget_le w
    omega
  · intro hblocked
    obtain ⟨hinv', hempty'⟩ := run_invariant (I := fun s => AsleepInv s ∧ StoppedEmpty s.sys)
      hstart (fun s l t hs hl ht => (hstep s l t hs hl ht).1) hls hrun
    have hunready' := waits_signalled.unready hinv.queue hunready hrun
    -- a live worker that is blocked sleeps
    have hsleeps : w'.sys.worker.live = true → w'.asleep .worker = true := by
      intro hlive
      cases hz : w'.asleep .worker with
      | true => rfl
      | false =>
          obtain ⟨a, t, ha, ht⟩ := worker_enabled hlive hz
          cases (hblocked (.act a) ha).symm.trans ht
    have hdrained : ∀ {pc}, w'.sys.worker = pc → pc.inHand = [] → w'.sys.mgr.pending = 0 →
        w'.sys.finished = w'.sys.accepted ∧ w'.sys.mgr.inflight = 0 := by
      intro pc hpc hhand hzero
      have hhand' : w'.sys.worker.inHand = [] := hpc ▸ hhand
      have hinflight : w'.sys.mgr.inflight = w'.sys.worker.inHand.length :=
        hinv'.queue.core.inflight_eq
      exact ⟨finished_of_empty hinv'.queue hzero hhand', by rw [hinflight, hhand']; rfl⟩
    cases hpc : w'.sys.worker with
    | faulted c => exact .inl ⟨c, rfl⟩
    | stopped =>
        obtain ⟨hzero, hstop⟩ := hempty' hpc
        obtain ⟨hfin, hin⟩ := hdrained hpc rfl hzero
        exact .inr ⟨hfin, ⟨hzero, hin⟩, by rw [if_pos hstop]; exact hpc⟩
    | _ =>
        have hz := hsleeps (by rw [hpc]; rfl)
        have htop := hinv'.worker hz
        obtain ⟨hgo, hzero⟩ := unready_worker_iff.mp (hunready' _ hz)
        obtain ⟨hfin, hin⟩ := hdrained htop rfl hzero
        refine .inr ⟨hfin, ⟨hzero, hin⟩, ?_⟩
        rw [if_neg (by rw [hgo]; exact Bool.false_ne_true)]
        exact ⟨htop, hz⟩

/-- The worker takes the request, executes and completes it, and goes to sleep. -/
def Small.drain : List (WaitLabel Action Waiter) :=
  [.act (.workerDequeue .fault), .act (.workerExecute true), .act .workerComplete,
    .act .workerLog, .act (.workerDequeue .fault)]

/-- From the state in which the transfer waits, the worker makes these five steps and
can make no other. -/
theorem worker_drains_small : ∃ s t,
    run waitStep (CondWait.allAwake Small.start) Small.asleep = some s ∧
    run waitStep s Small.drain = some t ∧ Small.drain.length ≤ 5 * (s.sys.mgr.pending + 1) ∧
    (∀ l, ByWorker t l → waitStep t l = none) ∧ t.sys.accepted = [1] ∧ AllFinished t := by
  obtain ⟨t, hrun, ht⟩ := exists_of_run_any (δ := waitStep) (CondWait.allAwake Small.start)
    (Small.asleep ++ Small.drain)
    (fun t => t.sys.worker = .top ∧ t.asleep .worker = true ∧ t.sys.accepted = [1])
    (by decide +kernel)
  obtain ⟨htop, hz, hacc⟩ := of_decide_eq_true ht
  obtain ⟨s, hs, htop'⟩ := exists_of_run_any (δ := waitStep) (CondWait.allAwake Small.start)
    Small.asleep (fun s => s.sys.worker = .top) (by decide +kernel)
  rw [run_append hs] at hrun
  have hw : s.sys.worker ≠ .stopped := by
    rw [of_decide_eq_true htop']
    exact WorkerPc.noConfusion
  have hls : RunOk waitStep ByWorker s Small.drain :=
    runOk_of_forall (by simp [Small.drain, ByWorker, Action.byWorker]) s
  have hblocked : ∀ l, ByWorker t l → waitStep t l = none := by
    rintro (a | x) hl
    · refine Option.eq_none_iff_forall_ne_some.mpr ?_
      intro u hu
      cases hl.symm.trans (worker_asleep htop hz hu).1
    · cases hl
  obtain ⟨hlength, hdone⟩ := worker_drains ⟨_, _, Small.start_initial, hs⟩ hw hls hrun
  refine ⟨s, t, hs, hrun, hlength, hblocked, hacc, ?_⟩
  rcases hdone hblocked with ⟨c, hfault⟩ | hfinished
  · cases hfault.symm.trans htop
  · exact hfinished

end Urma

end DirectStorage
