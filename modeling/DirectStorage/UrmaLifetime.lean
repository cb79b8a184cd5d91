/-
DirectStorage/UrmaLifetime.lean

How a request's life ends: the drain at shutdown, and the request object.

*Drain.*  The worker leaves its loop when it finds `stopping` set and the queue
empty, and at that moment every accepted request is done.  But
`ramdisk_urma_transfer_sync` does not look at `stopping`: a transfer that takes the
lock afterwards, passes validation and finds room in the queue is accepted and never
executed, and its submitter waits for ever.  The drain is complete exactly in the
runs without such a transfer (`throughout_drained_iff`, `not_drained_late`).

*Request objects* live in the stack frame of their submitter.  The submitter
waits until `done` is set, so every access of the worker up to the completion
finds the frame in place; the completion log, which reads the request after the
unlock, does so only if the submitter has not returned in between
(`accessSafe_of_noEarlyReturn`, `not_accessSafe_log`).
-/
import DirectStorage.UrmaCalls

namespace DirectStorage

namespace Urma

open Function

variable {s t s₀ : Sys} {a : Action} {as : List Action}

/-! ### The drain at shutdown -/

/-- When the worker has left its loop, the queue is empty and every accepted
request is done. -/
def Drained (s : Sys) : Prop :=
  s.worker = .stopped → s.mgr.pending = 0 ∧ ∀ c ∈ s.accepted, (s.reqs c).done = true

/-- No request is accepted once the worker has left its loop. -/
def NoLateAccept (s : Sys) (a : Action) : Prop :=
  s.worker = .stopped → ∀ t ∈ step s a, t.accepted = s.accepted

/-- The transfer of a call of `ramdisk_urma_transfer_sync`. -/
def Action.submits : Action → Option UrmaTransfer
  | .transferSync x _ _ => some x
  | _ => none

/-- Once the worker has left its loop, no transfer takes the lock that passes
validation and finds room in the queue. -/
def NoLateTransfer (s : Sys) (a : Action) : Prop :=
  s.worker = .stopped → ∀ x ∈ a.submits, admits s x = false

instance (s : Sys) (a : Action) : Decidable (NoLateTransfer s a) :=
  inferInstanceAs (Decidable (_ → ∀ x ∈ a.submits, admits s x = false))

/-- No transfer takes the lock once `ramdisk_urma_mgr_destroy` has set `stopping`. -/
def NoTransferOnceStopping (s : Sys) (a : Action) : Prop :=
  s.mgr.stopping = true → a.submits = none

theorem drained_iff_finished (hq : QueueInv s.queueView) :
    Drained s ↔ (s.worker = .stopped → s.accepted = s.finished) := by
  obtain ⟨q, hholds, horder⟩ : ∃ q, s.mgr.queue.Holds q ∧
    s.accepted = s.finished ++ s.worker.inHand ++ q := hq.core.order
  refine forall_congr' fun hw => ?_
  rw [hw] at horder
  have horder' : s.accepted = s.finished ++ q := by
    rw [horder]
    simp [WorkerPc.inHand]
  constructor
  · rintro ⟨hempty, -⟩
    have hnil : q = [] := List.eq_nil_of_length_eq_zero (hholds.count_eq.symm.trans hempty)
    rw [horder', hnil, List.append_nil]
  · intro hfin
    have hnil : q = [] := by
      rw [hfin] at horder'
      simpa using horder'.symm
    refine ⟨?_, ?_⟩
    · show s.mgr.queue.count = 0
      rw [hholds.count_eq, hnil]
      rfl
    · intro c hc
      rw [hfin] at hc
      exact (hq.subs.done c hc).1

/-- A worker that has nothing in hand looks at the queue, or the step is another
thread's. -/
theorem step_idle (hw : s.worker = .top ∨ s.worker = .stopped) (h : step s a = some t) :
    (a.byWorker = false ∧ t.worker = s.worker) ∨
      s.worker = .top ∧ ∃ uninit, a = .workerDequeue uninit := by
  -- the worker's other steps start with a request in hand
  have hbusy : ∀ {pc}, s.worker = pc → pc ≠ .top → pc ≠ .stopped → False := by
    rintro pc rfl htop hstopped
    exact hw.elim htop hstopped
  cases step_cases h with
  | other ha hw' hgeo => exact .inl ⟨ha, hw'⟩
  | dequeue uninit htop hres => exact .inr ⟨htop, uninit, rfl⟩
  | execute post hexec =>
      obtain ⟨c, k, conn, hexec', -⟩ := workerExecute_worker hexec
      exact (hbusy hexec' WorkerPc.noConfusion WorkerPc.noConfusion).elim
  | poll rc c hpoll ht => exact (hbusy hpoll WorkerPc.noConfusion WorkerPc.noConfusion).elim
  | complete c rc hfin hres => exact (hbusy hfin WorkerPc.noConfusion WorkerPc.noConfusion).elim
  | log c rc hlog ht => exact (hbusy hlog WorkerPc.noConfusion WorkerPc.noConfusion).elim

/-- A worker that has left its loop makes no step. -/
theorem step_of_stopped (hw : s.worker = .stopped) (h : step s a = some t) :
    a.byWorker = false ∧ t.worker = .stopped := by
  rcases step_idle (.inr hw) h with ⟨ha, hw'⟩ | ⟨htop, -⟩
  · exact ⟨ha, hw'.trans hw⟩
  · cases hw.symm.trans htop

/-- The worker that has stopped stays stopped, and nothing is finished any
more. -/
theorem step_stopped (hq : QueueInv s.queueView) (hw : s.worker = .stopped)
    (h : step s a = some t) : t.worker = .stopped ∧ t.finished = s.finished := by
  have hw' := (step_of_stopped hw h).2
  refine ⟨hw', ?_⟩
  have hhand : t.queueView.core.inHand = s.queueView.core.inHand := by
    show t.worker.inHand = s.worker.inHand
    rw [hw, hw']
  exact ((step_queueStep hq h).same_hand hq hhand).1

/-- The worker stops on an empty queue, when it is told to. -/
theorem step_stops (hw : s.worker ≠ .stopped) (h : step s a = some t)
    (hw' : t.worker = .stopped) : s.mgr.pending = 0 ∧ s.mgr.stopping = true ∧
      t = { s with worker := .stopped } ∧ s.worker = .top := by
  cases step_cases h with
  | other ha heq hgeo => exact absurd (heq.symm.trans hw') hw
  | dequeue uninit htop hres =>
      have hstep : workerDequeue s uninit = some t := by
        simpa only [step, htop] using h
      simp only [workerDequeue, htop] at hstep
      repeat' split at hstep
      all_goals obtain rfl := Option.some.inj hstep
      · exact absurd hw' hw
      next hstop =>
        simp only [Bool.and_eq_true, beq_iff_eq] at hstop
        exact ⟨hstop.2, hstop.1, rfl, htop⟩
      all_goals cases hw'
  | execute post hexec =>
      obtain ⟨c, k, conn, -, hto⟩ := workerExecute_worker hexec
      rw [hw'] at hto
      rcases hto with h₁ | ⟨rc, h₁⟩ | h₁ <;> cases h₁
  | poll rc c hpoll ht =>
      rw [ht] at hw'
      cases hw'
  | complete c rc hfin hres => cases hw'.symm.trans hres.worker
  | log c rc hlog ht =>
      rw [ht] at hw'
      cases hw'

/-- What a transfer that is not admitted, or no transfer at all, does not do. -/
theorem NoLateTransfer.noLateAccept (hok : NoLateTransfer s a) : NoLateAccept s a := by
  intro hw t ht
  rcases accepted_step ht with heq | ⟨x, timeoutMs, now, k, rfl, hacc⟩
  · exact heq
  · cases hacc.admits.symm.trans (hok hw x rfl)

/-- A step that accepts nothing is not a transfer that would be admitted. -/
theorem NoLateTransfer.of_accepted (h : step s a = some t) (hacc : t.accepted = s.accepted) :
    NoLateTransfer s a := by
  intro _ x hx
  unfold step at h
  split at h
  · cases h
  cases a with
  | transferSync y timeoutMs now =>
      obtain rfl := Option.some.inj h
      obtain rfl := Option.some.inj hx
      exact (transferSync_accepted_iff s y timeoutMs now).mp hacc
  | _ => cases hx

theorem Drained.step (hd : Drained s) (hq : QueueInv s.queueView) (hok : NoLateTransfer s a)
    (h : step s a = some t) : Drained t := by
  by_cases hw : s.worker = .stopped
  · -- nothing is accepted and nothing is finished
    obtain ⟨-, hfin⟩ := step_stopped hq hw h
    refine (drained_iff_finished ((step_queueStep hq h).preserves hq)).mpr fun _ => ?_
    rw [hok.noLateAccept hw t h, hfin]
    exact (drained_iff_finished hq).mp hd hw
  · intro hw'
    obtain ⟨hempty, -, rfl, htop⟩ := step_stops hw h hw'
    -- the queue is empty and the worker holds nothing
    have hdone : Drained { s with worker := .stopped } := by
      refine (drained_iff_finished ((step_queueStep hq h).preserves hq)).mpr fun _ => ?_
      obtain ⟨q, hholds, horder⟩ : ∃ q, s.mgr.queue.Holds q ∧
        s.accepted = s.finished ++ s.worker.inHand ++ q := hq.core.order
      have hnil : q = [] := List.eq_nil_of_length_eq_zero (hholds.count_eq.symm.trans hempty)
      show s.accepted = s.finished
      rw [horder, htop, hnil]
      simp [WorkerPc.inHand]
    exact hdone hw'

/-- The worker leaves its loop only when it is told to, and `stopping` stays set. -/
theorem stopping_of_stopped (hs : s.worker = .stopped → s.mgr.stopping = true)
    (h : step s a = some t) (hw' : t.worker = .stopped) : t.mgr.stopping = true := by
  by_cases hw : s.worker = .stopped
  · rcases (step_kept h).stopping with rfl | hkept
    · unfold step at h
      split at h <;> cases h
      rfl
    · rw [hkept]
      exact hs hw
  · obtain ⟨-, hstop, rfl, -⟩ := step_stops hw h hw'
    exact hstop

/-- **The drain is complete, and nothing is accepted afterwards, exactly in the runs
in which no transfer that would be admitted takes the lock once the worker has left
its loop**, for every interleaving of the submitters, the worker and
`ramdisk_urma_mgr_destroy`; and so it is if no transfer comes once `stopping` is
set. -/
theorem throughout_drained_iff (hinit : Initial s₀) (hrun : run step s₀ as = some s) :
    (Throughout step s₀ as Drained ∧ RunOk step NoLateAccept s₀ as ↔
        RunOk step NoLateTransfer s₀ as) ∧
      (RunOk step NoTransferOnceStopping s₀ as → RunOk step NoLateTransfer s₀ as) := by
  have hdrained₀ : Drained s₀ := by
    obtain ⟨b, m, config, queueOk, mutexRc, provider, threadRc, -, -, rfl⟩ := hinit
    rintro ⟨⟩
  have hexact : RunOk step NoLateTransfer s₀ as ↔ Throughout step s₀ as Drained := by
    refine runOk_iff_throughout (I := fun s => QueueInv s.queueView ∧ Drained s)
      ⟨queueInv_initial hinit, hdrained₀⟩ ?_ (fun _ hs => hs.2) ?_ hrun
    · rintro s a t ⟨hq, hd⟩ hok hstep
      exact ⟨(step_queueStep hq hstep).preserves hq, hd.step hq hok hstep⟩
    · rintro s a t ⟨hq, hd⟩ hstep hdt hw
      -- the drain is complete before and after, so the step accepted nothing
      obtain ⟨hw', hfin⟩ := step_stopped hq hw hstep
      have hs := (drained_iff_finished hq).mp hd hw
      have ht := (drained_iff_finished ((step_queueStep hq hstep).preserves hq)).mp hdt hw'
      exact NoLateTransfer.of_accepted hstep (by rw [ht, hfin, hs]) hw
  refine ⟨⟨fun h => hexact.mpr h.1, fun hok => ⟨hexact.mp hok, ?_⟩⟩, ?_⟩
  · exact runOk_of_invariant (I := fun _ => True) trivial (fun _ _ _ _ _ _ => trivial)
      (fun _ _ _ hs => hs.noLateAccept) hok
  · refine runOk_of_invariant (I := fun s => s.worker = .stopped → s.mgr.stopping = true) ?_
      (fun _ _ _ hs _ hstep => stopping_of_stopped hs hstep) ?_
    · obtain ⟨b, m, config, queueOk, mutexRc, provider, threadRc, -, -, rfl⟩ := hinit
      rintro ⟨⟩
    · intro s a hs hok hw x hx
      rw [hok (hs hw)] at hx
      cases hx

/-- One request is executed while the manager is being destroyed, the worker stops,
and a transfer for a peer that is not connected comes late. -/
def Small.drained : List Action :=
  Small.connect ++
    [.transferSync (Small.xfer 65536) 0 Small.now, .mgrDestroy, .workerDequeue .fault,
      .workerExecute true, .workerComplete, .workerLog, .workerDequeue .fault,
      .transferSync { Small.xfer 65536 with peerId := 8 } 0 Small.now]

theorem throughout_drained_small : ∃ s, run step Small.start Small.drained = some s ∧
    s.worker = .stopped ∧ s.accepted = [1] ∧
    Throughout step Small.start Small.drained Drained ∧
    RunOk step NoLateAccept Small.start Small.drained := by
  obtain ⟨s, hrun, hs⟩ := exists_of_run_any (δ := step) Small.start Small.drained
    (fun s => s.worker = .stopped ∧ s.accepted = [1]) (by decide +kernel)
  obtain ⟨hw, hacc⟩ := of_decide_eq_true hs
  exact ⟨s, hrun, hw, hacc,
    (throughout_drained_iff Small.start_initial hrun).1.mpr (by decide +kernel)⟩

/-- The worker stops, and a request comes in before the manager is gone. -/
def Small.late : List Action :=
  Small.connect ++
    [.mgrDestroy, .workerDequeue .fault, .transferSync (Small.xfer 65536) 0 Small.now]

/-- **A request is stranded**: the worker has left its loop, and the request is
accepted, in the queue and not done. -/
theorem not_drained_late : ∃ s, Initial Small.start ∧
    run step Small.start Small.late = some s ∧ s.worker = .stopped ∧ s.mgr.pending = 1 ∧
    2 ∈ s.accepted ∧ (s.reqs 2).done = false ∧ ¬ Drained s := by
  obtain ⟨s, hrun, hs⟩ := exists_of_run_any (δ := step) Small.start Small.late
    (fun s => s.worker = .stopped ∧ s.mgr.pending = 1 ∧ 2 ∈ s.accepted ∧
      (s.reqs 2).done = false) (by decide +kernel)
  obtain ⟨hw, hpending, hacc, hdone⟩ := of_decide_eq_true hs
  refine ⟨s, Small.start_initial, hrun, hw, hpending, hacc, hdone, ?_⟩
  intro hd
  have hempty := (hd hw).1
  omega

/-! ### The request objects -/

/-- The request whose fields the worker reads or writes in the step. -/
def workerAccess (s : Sys) (a : Action) : Option CallId :=
  match a, s.worker with
  | .workerDequeue _, .top => if s.mgr.pending = 0 then none else s.mgr.queue.front
  | .workerExecute _, .executing c _ _ => some c
  | .workerPoll _, .polling c => some c
  | .workerComplete, .finishing c _ => some c
  | .workerLog, .logging c _ => some c
  | _, _ => none

/-- The call of `c` is inside `ramdisk_urma_transfer_sync`, waiting for `done`. -/
def Sys.Waits (s : Sys) (c : CallId) : Prop := ∃ x ts, s.transfer c = some (x, .waiting ts)

/-- A request that the worker accesses belongs to a call that has not returned. -/
def AccessSafe (s : Sys) (a : Action) : Prop :=
  ∀ c, workerAccess s a = some c → s.Waits c

/-- The request that the worker has completed and is about to log. -/
def WorkerPc.logs : WorkerPc → Option CallId
  | .logging c _ => some c
  | _ => none

/-- The submitter of the request that is about to be logged does not go on. -/
def NoEarlyReturn (s : Sys) (a : Action) : Prop := ∀ c ∈ a.continues, s.worker.logs ≠ some c

instance (s : Sys) (a : Action) : Decidable (NoEarlyReturn s a) :=
  inferInstanceAs (Decidable (∀ c ∈ a.continues, s.worker.logs ≠ some c))

/-- A request that is not finished is waited for. -/
theorem QueueInv.waits (hq : QueueInv s.queueView) {c : CallId} (hacc : c ∈ s.accepted)
    (hnf : c ∉ s.finished) : s.Waits c :=
  (hq.subs.pending c hacc hnf).2

theorem QueueInv.waits_hand (hq : QueueInv s.queueView) {c : CallId}
    (hc : s.worker.inHand = [c]) : s.Waits c :=
  hq.waits (hq.core.hand_accepted hc) (hq.core.hand_not_finished hc)

/-- The request being logged is waited for. -/
def LogSafe (s : Sys) : Prop := ∀ c rc, s.worker = .logging c rc → s.Waits c

theorem accessSafe_of_logSafe (hq : QueueInv s.queueView) (hlog : LogSafe s) :
    AccessSafe s a := by
  intro c hc
  unfold workerAccess at hc
  split at hc
  next htop =>
    split_ifs at hc
    -- the front of the queue is not taken out, so not finished
    obtain ⟨hacc, hnd⟩ := hq.core.front_pending (c := c) hc
    exact hq.waits hacc fun hfin => hnd (hq.core.finished_dequeued hfin)
  next hw =>
    obtain rfl := Option.some.inj hc
    exact hq.waits_hand (by rw [hw]; rfl)
  next hw =>
    obtain rfl := Option.some.inj hc
    exact hq.waits_hand (by rw [hw]; rfl)
  next hw =>
    obtain rfl := Option.some.inj hc
    exact hq.waits_hand (by rw [hw]; rfl)
  next rc hw =>
    obtain rfl := Option.some.inj hc
    exact hlog _ _ hw
  next => cases hc

theorem transfer_congr {c : CallId} (h : t.calls c = s.calls c) : t.transfer c = s.transfer c := by
  simp only [Sys.transfer, h]

/-- A waiting call that the step does not go on with still waits. -/
theorem Sys.Waits.step {c : CallId} (hc : s.Waits c) (hq : QueueInv s.queueView)
    (h : step s a = some t) (hcont : a.continues ≠ some c) : t.Waits c := by
  obtain ⟨x, ts, hw⟩ := hc
  have hne : c ≠ s.nextCall := by
    rintro rfl
    cases (hq.subs.fresh _ le_rfl).symm.trans hw
  exact ⟨x, ts, (transfer_congr ((step_callStep h).calls_eq hne hcont)).trans hw⟩

theorem LogSafe.step (hlog : LogSafe s) (hq : QueueInv s.queueView) (hok : NoEarlyReturn s a)
    (h : step s a = some t) : LogSafe t := by
  intro c rc hw
  cases step_cases h with
  | other ha heq hgeo =>
      have hws : s.worker = .logging c rc := heq.symm.trans hw
      refine (hlog c rc hws).step hq h ?_
      intro hcont
      exact hok c hcont (by rw [hws]; rfl)
  | complete c' rc' hfin hres =>
      -- the request has just left the worker's hands
      cases hw.symm.trans hres.worker
      exact (hq.waits_hand (by rw [hfin]; rfl)).step hq h (by simp [Action.continues])
  | dequeue uninit htop hres =>
      cases hres with
      | idle hempty hbytes hto hreqs hfin =>
          rw [hw] at hto
          rcases hto with h₁ | h₁ | h₁ <;> cases h₁
      | valid c' k hd hto hfin => cases hw.symm.trans hto
      | invalid c' rc' hfront hrc hbytes hpeers hstatus hfin hwild hto =>
          rw [hw] at hto
          rcases hto with h₁ | h₁ <;> cases h₁
  | execute post hexec =>
      obtain ⟨c', k, conn, -, hto⟩ := workerExecute_worker hexec
      rw [hw] at hto
      rcases hto with h₁ | ⟨rc', h₁⟩ | h₁ <;> cases h₁
  | poll rc' c' hpoll ht =>
      rw [ht] at hw
      cases hw
  | log c' rc' hlog' ht =>
      rw [ht] at hw
      cases hw

/-- **The worker touches no request whose submitter has returned**, in every
run in which no submitter returns while its request is being logged. -/
theorem accessSafe_of_noEarlyReturn (hinit : Initial s₀) (hok : RunOk step NoEarlyReturn s₀ as) :
    RunOk step AccessSafe s₀ as := by
  have hlog₀ : LogSafe s₀ := by
    obtain ⟨b, m, config, queueOk, mutexRc, provider, threadRc, -, -, rfl⟩ := hinit
    rintro c rc ⟨⟩
  refine runOk_of_invariant (I := fun s => QueueInv s.queueView ∧ LogSafe s)
    ⟨queueInv_initial hinit, hlog₀⟩ ?_ (fun s a hs _ => accessSafe_of_logSafe hs.1 hs.2) hok
  rintro s a t ⟨hq, hlog⟩ hok hstep
  exact ⟨(step_queueStep hq hstep).preserves hq, hlog.step hq hok hstep⟩

/-- A request is submitted, executed, logged and returned. -/
def Small.logged : List Action :=
  Small.connect ++
    [.transferSync (Small.xfer 65536) 0 Small.now, .workerDequeue .fault, .workerExecute true,
      .workerComplete, .workerLog, .timedwait 1 0 Small.now]

theorem accessSafe_logged : (run step Small.start Small.logged).isSome = true ∧
    RunOk step NoEarlyReturn Small.start Small.logged ∧
    RunOk step AccessSafe Small.start Small.logged :=
  ⟨by decide +kernel, by decide +kernel,
    accessSafe_of_noEarlyReturn Small.start_initial (by decide +kernel)⟩

/-- The submitter wakes up and returns as soon as the request is done. -/
def Small.returned : List Action :=
  Small.connect ++
    [.transferSync (Small.xfer 65536) 0 Small.now, .workerDequeue .fault, .workerExecute true,
      .workerComplete, .timedwait 1 0 Small.now]

/-- **The log reads a dead stack frame**: the call has returned, and the next
step of the worker reads its request. -/
theorem not_accessSafe_log : ∃ s, Initial Small.start ∧
    run step Small.start Small.returned = some s ∧
    s.transfer 1 = some (Small.xfer 65536, .returned 0) ∧
    workerAccess s .workerLog = some 1 ∧ (step s .workerLog).isSome = true ∧
    ¬ AccessSafe s .workerLog := by
  obtain ⟨s, hrun, hs⟩ := exists_of_run_any (δ := step) Small.start Small.returned
    (fun s => s.transfer 1 = some (Small.xfer 65536, .returned 0) ∧
      workerAccess s .workerLog = some 1 ∧ (step s .workerLog).isSome = true) (by decide +kernel)
  obtain ⟨hret, haccess, hsome⟩ := of_decide_eq_true hs
  refine ⟨s, Small.start_initial, hrun, hret, haccess, hsome, ?_⟩
  intro hsafe
  obtain ⟨x, ts, hw⟩ := hsafe 1 haccess
  rw [hw] at hret
  cases hret

end Urma

end DirectStorage
