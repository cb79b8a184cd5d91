/-
DirectStorage/UrmaRefines.lean

The manager in sequential use refines the bounded peer map.

Main result: `sequential_refines`.  A sequential run can always be continued
until the call in progress returns; between calls, the results are those of the
abstract machine on the same calls, the table represents its state, `peer_count`
is the size of the map, and none of this depends on which slots are used.
-/
import DirectStorage.UrmaProgress

namespace DirectStorage

namespace Urma

open Function

variable {s t s₀ : Sys} {a : Action} {as : List Action} {c : CallId} {A : PeerState}
  {cmd : PeerCmd}

/-! ### Every call returns -/

/-- The run can go on, without a new call, until no call is in progress. -/
def CanReturn (s : Sys) : Prop :=
  ∃ as t, commands as = [] ∧ RunOk step Sequential s as ∧ run step s as = some t ∧ t.Idle

theorem CanReturn.of_idle (h : s.Idle) : CanReturn s := ⟨[], s, rfl, trivial, rfl, h⟩

theorem CanReturn.of_step (hok : Sequential s a) (hcmd : a.command = none)
    (hstep : step s a = some t) (h : CanReturn t) : CanReturn s := by
  obtain ⟨as, u, hcmds, hokas, hrun, hidle⟩ := h
  refine ⟨a :: as, u, ?_, ⟨hok, ?_⟩, ?_, hidle⟩
  · rw [commands, List.filterMap_cons_none hcmd]
    exact hcmds
  · intro t' ht'
    obtain rfl := Option.some.inj (ht'.symm.trans hstep)
    exact hokas
  · exact run_cons_iff.mpr ⟨t, hstep, hrun⟩

/-- A running daemon makes every step that goes on with a call. -/
theorem step_running (h : s.worker.running = true) :
    (∀ c rc now, step s (.timedwait c rc now) = timedwait s c rc now) ∧
    (∀ c, step s (.peerConnectLocked c) = peerConnectLocked s c) ∧
    (∀ c, step s (.peerDisconnectRelease c) = peerDisconnectRelease s c) := by
  cases hw : s.worker <;> first
    | (rw [hw] at h; cases h; done)
    | exact ⟨fun _ _ _ => by simp only [step, hw], fun _ => by simp only [step, hw],
        fun _ => by simp only [step, hw]⟩

theorem Sys.Waits.call {s : Sys} (h : s.Waits c) :
    ∃ x timeoutMs ts, s.calls c = some ⟨.transfer x timeoutMs, .waiting ts⟩ := by
  obtain ⟨x, ts, hw⟩ := h
  obtain ⟨⟨kind, pc⟩, hk, hx⟩ := Option.bind_eq_some_iff.mp hw
  cases kind <;> cases hx
  exact ⟨_, _, ts, hk⟩

/-- Transfer `c` is in progress. -/
structure Transferring (s : Sys) (A : PeerState) (c : CallId) (x : UrmaTransfer) : Prop where
  inv : SeqInv s
  progress : Progress s A c (.transfer x)

section Transferring

variable {x : UrmaTransfer}

theorem Transferring.waits (h : Transferring s A c x) : s.Waits c := by
  cases h.progress with
  | queued x k p hheld hout hrep => exact hheld.waits
  | executed x ts hcall hout hrep hrc => exact ⟨x, ts, hcall⟩

/-- The worker makes a step, and the rest is left to what follows. -/
theorem Transferring.worker (h : Transferring s A c x) (ha : a.byWorker = true)
    (hstep : step s a = some t) (hrest : Transferring t A c x → CanReturn t) : CanReturn s := by
  have hok : Sequential s a := .inr (.inr ha)
  refine .of_step hok ?_ hstep
    (hrest ⟨h.inv.step hok hstep, h.progress.worker h.inv hok ha hstep⟩)
  cases a <;> first | rfl | cases ha

/-- A transfer whose request is done returns at its next wake-up. -/
theorem Transferring.done (h : Transferring s A c x) (hfin : c ∈ s.finished) : CanReturn s := by
  have hdone : (s.reqs c).done = true := (h.inv.race.queue.subs.done c hfin).1
  obtain ⟨x, timeoutMs, ts, hcall⟩ := h.waits.call
  have hwake : timedwait s c 0 ⟨0, 0, by decide, by decide⟩ =
      some (s.setCall c (.transfer x timeoutMs) (.returned (s.reqs c).status)) := by
    have hmay : timedwaitMayReturn ts 0 := .inl rfl
    simp only [timedwait, hcall, waitLoop]
    rw [if_pos hmay, if_neg (by decide), if_neg (by decide), if_pos hdone]
  have hstep := ((step_running h.inv.running).1 c 0 _).trans hwake
  exact .of_step (.inr (.inl rfl)) rfl hstep (.of_idle (idle_of_result h.inv.one h.progress.busy
    (step_callStep hstep) rfl (resultOf_setCall _ _ _ _)))

theorem Transferring.finishing (h : Transferring s A c x) {rc : Int}
    (hw : s.worker = .finishing c rc) : CanReturn s := by
  obtain ⟨t, ht⟩ : ∃ t, workerComplete s = some t := by
    simp only [workerComplete, hw]
    exact ⟨_, rfl⟩
  have hstep : step s .workerComplete = some t := by
    simp only [step, hw]
    exact ht
  refine h.worker rfl hstep fun h' => h'.done ?_
  obtain ⟨c', rc', hw', hres⟩ := workerComplete_result ht
  cases hw.symm.trans hw'
  rw [hres.finished]
  exact List.mem_append_right _ (List.mem_singleton_self c)

theorem Transferring.executing (h : Transferring s A c x) {k : Slot} {conn : CallId}
    (hw : s.worker = .executing c k conn) : CanReturn s := by
  obtain ⟨t, ht⟩ : ∃ t, workerExecute s true = some t := by
    refine Option.isSome_iff_exists.mp ?_
    simp only [workerExecute, hw]
    repeat' split
    all_goals rfl
  have hstep : step s (.workerExecute true) = some t := by
    simp only [step, hw]
    exact ht
  have hw' : t.worker = .finishing c 0 :=
    ((h.inv.race.ready c k conn hw).execute h.inv.race.peers h.inv.race.live h.inv.mock hw rfl ht).1
  exact h.worker rfl hstep fun h' => h'.finishing hw'

/-- A worker at the top of its loop finds the request in the queue. -/
theorem Transferring.top (h : Transferring s A c x) (hw : s.worker = .top) : CanReturn s := by
  by_cases hfin : c ∈ s.finished
  · exact h.done hfin
  obtain ⟨t, ht⟩ : ∃ t, workerDequeue s .fault = some t := by
    refine Option.isSome_iff_exists.mp ?_
    simp only [workerDequeue, hw]
    repeat' split
    all_goals rfl
  have hstep : step s (.workerDequeue .fault) = some t := by
    simp only [step, hw]
    exact ht
  have hq := h.inv.race.queue
  refine h.worker rfl hstep fun h' => ?_
  rcases h.inv.dequeue ht with ⟨hempty, -⟩ | ⟨c', k, conn, hfront, hw'⟩
  · -- an unfinished request is in the worker's hands or in the queue
    obtain ⟨q, hholds, horder⟩ : ∃ q, s.mgr.queue.Holds q ∧
      s.accepted = s.finished ++ s.worker.inHand ++ q := hq.core.order
    have hnil : q = [] := List.eq_nil_of_length_eq_zero (hholds.count_eq.symm.trans hempty)
    obtain ⟨x', ts, hx⟩ := h.waits
    have hacc : c ∈ s.accepted := (hq.subs.waiting c x' ts hx).2
    rw [horder, hw, hnil] at hacc
    simp only [WorkerPc.inHand, List.append_nil] at hacc
    exact absurd hacc hfin
  · obtain ⟨hacc, hnd⟩ := hq.core.front_pending (c := c') hfront
    have hwaits' := hq.waits hacc fun hfin' => hnd (hq.core.finished_dequeued hfin')
    obtain rfl := h.progress.only h.inv.one hwaits'
    exact h'.executing hw'

/-- **A transfer in progress can return.** -/
theorem Transferring.canReturn (h : Transferring s A c x) : CanReturn s := by
  -- what the worker has in hand is this request
  have hhand : ∀ c', s.worker.inHand = [c'] → c' = c := fun c' hc' =>
    h.progress.only h.inv.one (h.inv.race.queue.waits_hand hc')
  have hrunning := h.inv.running
  cases hw : s.worker with
  | top => exact h.top hw
  | executing c' k conn =>
      obtain rfl := hhand c' (congrArg WorkerPc.inHand hw)
      exact h.executing hw
  | finishing c' rc =>
      obtain rfl := hhand c' (congrArg WorkerPc.inHand hw)
      exact h.finishing hw
  | logging c' rc =>
      have hstep : step s .workerLog = some { s with worker := .top } := by
        simp only [step, workerLog, hw]
      exact h.worker rfl hstep fun h' => h'.top rfl
  | _ =>
      rw [hw] at hrunning
      cases hrunning

end Transferring

/-- **Every call can return**: a sequential run never gets stuck inside a call. -/
theorem Progress.canReturn (h : Progress s A c cmd) (hinv : SeqInv s) : CanReturn s := by
  cases h with
  | connecting info hcall hvalid hzero hrep =>
      obtain ⟨t, ht⟩ : ∃ t, peerConnectLocked s c = some t := by
        refine Option.isSome_iff_exists.mp ?_
        simp only [peerConnectLocked, hcall]
        repeat' split
        all_goals rfl
      have hstep := ((step_running hinv.running).2.1 c).trans ht
      have hret := connectLocked_returned hrep hcall hvalid hzero ht
      exact .of_step (.inr (.inl rfl)) rfl hstep (.of_idle (idle_of_result hinv.one
        (Progress.connecting info hcall hvalid hzero hrep).busy (step_callStep hstep) rfl
        hret.result))
  | disconnecting peerId old hcall hrep hrc =>
      have hrel : peerDisconnectRelease s c = some ((s.freeHbm old.mockHbm).setCall c
          (.peerDisconnect peerId) (.returned 0)) := by
        simp only [peerDisconnectRelease, hcall]
      have hstep := ((step_running hinv.running).2.2 c).trans hrel
      exact .of_step (.inr (.inl rfl)) rfl hstep (.of_idle (idle_of_result hinv.one
        (Progress.disconnecting peerId old hcall hrep hrc).busy (step_callStep hstep) rfl
        (resultOf_setCall _ _ _ _)))
  | queued x k p hheld hout hrep =>
      exact Transferring.canReturn ⟨hinv, .queued x k p hheld hout hrep⟩
  | executed x ts hcall hout hrep hrc =>
      exact Transferring.canReturn ⟨hinv, .executed x ts hcall hout hrep hrc⟩

/-! ### The refinement -/

/-- The abstract state of a freshly initialised manager: no peer is connected. -/
def PeerState.start (s₀ : Sys) : PeerState := ⟨s₀.mgr.enabled, PeerMap.empty, s₀.backend⟩

theorem represents_initial (hinit : Initial s) : Represents s (.start s) := by
  refine ⟨rfl, rfl, ?_⟩
  have hslots : s.slots = fun _ => none := by
    obtain ⟨b, m, config, queueOk, mutexRc, provider, threadRc, -, hok, rfl⟩ := hinit
    funext k
    refine keyed_inactive _ ?_
    show (m.peers k).active = false
    rw [(mgrInit_ok hok).2]
    rfl
  rw [hslots]
  exact Slots.empty

/-- Between calls of a sequential run of an initialised mock-mode manager. -/
def Settled (s : Sys) : Prop :=
  ∃ s₀ as, Initial s₀ ∧ s₀.mgr.useMock = true ∧ RunOk step Sequential s₀ as ∧
    run step s₀ as = some s ∧ s.Idle

theorem Settled.seqInv (h : Settled s) : SeqInv s := by
  obtain ⟨s₀, as, hinit, hmock, hok, hrun, -⟩ := h
  exact seqInv_run (seqInv_initial hinit hmock) hok hrun

theorem Settled.idle (h : Settled s) : s.Idle := by
  obtain ⟨s₀, as, -, -, -, -, hidle⟩ := h
  exact hidle

/-- From a settled state on, results and effects are those of the map. -/
theorem Settled.refines (h : Settled s) (hrep : Represents s A)
    (hok : RunOk step Sequential s as) (hrun : run step s as = some t) (hidle : t.Idle) :
    t.results s.nextCall = A.results (commands as) ∧ Represents t (A.after (commands as)) := by
  cases phase_run h.seqInv h.idle hrep hok hrun with
  | between hn _ hrep' hres => exact ⟨hres, hrep'⟩
  | inside c cs' cmd hcs hn hnext hres hprog =>
      cases (hidle c (hnext ▸ Nat.lt_succ_self c)).symm.trans hprog.busy

/-- Two managers that represent the same map, in whatever slots, answer the same
calls alike and end with the same map. -/
def SlotFree (s : Sys) : Prop :=
  ∀ s' A, Settled s' → Represents s A → Represents s' A → ∀ as as' t t',
    RunOk step Sequential s as → run step s as = some t → t.Idle →
    RunOk step Sequential s' as' → run step s' as' = some t' → t'.Idle →
    commands as = commands as' →
    t.results s.nextCall = t'.results s'.nextCall ∧ ∃ B, Represents t B ∧ Represents t' B

/-- What the calls `cs` did, compared with the map. -/
structure RefinesMap (s₀ : Sys) (cs : List PeerCmd) (s : Sys) : Prop where
  results : s.results 0 = (PeerState.start s₀).results cs
  represents : Represents s ((PeerState.start s₀).after cs)
  peerCount : ∀ status : CtrlStatus, status.peerCount = 0 →
    (ramdiskUrmaFillStatus s.mgr status).peerCount.toNat =
      ((PeerState.start s₀).after cs).peers.size
  slotFree : SlotFree s

/-- **The peer table refines a bounded map.**  After every sequence of calls, and
whatever the worker does in between: the call in progress can return, and once
it has, results, table and peer count are those of the map. -/
theorem sequential_refines (hinit : Initial s₀) (hmock : s₀.mgr.useMock = true)
    (hok : RunOk step Sequential s₀ as) (hrun : run step s₀ as = some s) :
    CanReturn s ∧ (s.Idle → RefinesMap s₀ (commands as) s) := by
  have hinv₀ := seqInv_initial hinit hmock
  have hrep₀ := represents_initial hinit
  have hzero : s₀.nextCall = 0 ∧ s₀.Idle := by
    obtain ⟨b, m, config, queueOk, mutexRc, provider, threadRc, -, -, rfl⟩ := hinit
    exact ⟨rfl, fun c _ => rfl⟩
  have hsettled₀ : Settled s₀ := ⟨s₀, [], hinit, hmock, trivial, rfl, hzero.2⟩
  refine ⟨?_, ?_⟩
  · cases phase_run hinv₀ hzero.2 hrep₀ hok hrun with
    | between hn hidle hrep hres => exact .of_idle hidle
    | inside c cs' cmd hcs hn hnext hres hprog =>
        exact hprog.canReturn (seqInv_run hinv₀ hok hrun)
  · intro hidle
    obtain ⟨hres, hrep⟩ := hsettled₀.refines hrep₀ hok hrun hidle
    rw [hzero.1] at hres
    refine ⟨hres, hrep, fun status hstatus => hrep.peerCount hstatus, ?_⟩
    intro s' A hs' hA hA' as₁ as₂ t t' hok₁ hrun₁ hidle₁ hok₂ hrun₂ hidle₂ hcmds
    have hs : Settled s := ⟨s₀, as, hinit, hmock, hok, hrun, hidle⟩
    obtain ⟨hres₁, hrep₁⟩ := hs.refines hA hok₁ hrun₁ hidle₁
    obtain ⟨hres₂, hrep₂⟩ := hs'.refines hA' hok₂ hrun₂ hidle₂
    rw [← hcmds] at hres₂ hrep₂
    exact ⟨hres₁.trans hres₂.symm, _, hrep₁, hrep₂⟩

/-- Peer 7 connects, receives a block, cannot connect again, and disconnects. -/
def Small.sequential : List Action :=
  Small.connect ++
    [.transferSync (Small.xfer 65536) 0 Small.now, .workerDequeue .fault, .workerExecute true,
      .workerComplete, .timedwait 1 0 Small.now, .workerLog,
      .peerConnect (Small.peer 7) ⟨true, none, none⟩, .peerConnectLocked 2,
      .peerDisconnect 7, .peerDisconnectRelease 3]

theorem refinesMap_small : ∃ s, run step Small.start Small.sequential = some s ∧
    s.results 0 = [0, 0, -EEXIST, 0] ∧
    RefinesMap Small.start (commands Small.sequential) s := by
  obtain ⟨s, hrun, hs⟩ := exists_of_run_any (δ := step) Small.start Small.sequential
    (fun s => s.results 0 = [0, 0, -EEXIST, 0] ∧ s.Idle) (by decide +kernel)
  obtain ⟨hres, hidle⟩ := of_decide_eq_true hs
  have hok : RunOk step Sequential Small.start Small.sequential := by decide +kernel
  exact ⟨s, hrun, hres, (sequential_refines Small.start_initial rfl hok hrun).2 hidle⟩

end Urma

end DirectStorage
