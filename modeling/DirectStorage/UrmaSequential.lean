/-
DirectStorage/UrmaSequential.lean

The manager in sequential use.

In a sequential run the five calls of the peer table come one after the other;
the worker runs whenever it likes, and a waiting transfer may wake up early or
time out any number of times (`Sequential`).  `commands` are the calls of a run,
`Sys.results` what they returned, and `SeqInv` is the invariant: requests are
held as they were validated, so the worker never faults.
-/
import DirectStorage.UrmaTable

namespace DirectStorage

namespace Urma

open Function

variable {s t : Sys} {a : Action} {c n : CallId}

/-! ### Sequential runs -/

/-- The call of the peer table that the step starts. -/
def Action.command : Action → Option PeerCmd
  | .peerConnect info env => some (.connect info env.calloc)
  | .peerDisconnect peerId => some (.disconnect peerId)
  | .enable => some .enable
  | .disable => some .disable
  | .transferSync x _ _ => some (.transfer x)
  | _ => none

/-- The calls a run starts, in their order. -/
def commands (as : List Action) : List PeerCmd := as.filterMap Action.command

/-- The step starts one of the five calls while none is in progress, or goes on
with a call, or is the worker's. -/
def Sequential (s : Sys) (a : Action) : Prop :=
  (a.command.isSome = true ∧ s.Idle) ∨ a.continues.isSome = true ∨ a.byWorker = true

instance (s : Sys) (a : Action) : Decidable (Sequential s a) :=
  inferInstanceAs (Decidable (_ ∨ _ ∨ _))

theorem Sequential.serial (h : Sequential s a) : Serial s a := by
  intro kind hkind
  rcases h with ⟨hcmd, hidle⟩ | hcont | hw
  · refine ⟨?_, hidle⟩
    cases a <;> first | (cases hkind <;> rfl) | cases hcmd
  · cases a <;> first | (cases hkind; done) | cases hcont
  · cases a <;> first | (cases hkind; done) | cases hw

/-- The result of call `c`, if it has returned. -/
def Sys.resultOf (s : Sys) (c : CallId) : Option Int :=
  (s.calls c).bind fun k =>
    match k.pc with
    | .returned rc => some rc
    | _ => none

/-- The results of the calls from number `n` on that have returned. -/
def Sys.results (s : Sys) (n : CallId) : List Int :=
  (List.range' n (s.nextCall - n)).filterMap s.resultOf

theorem resultOf_busy (h : s.busy c = true) : s.resultOf c = none := by
  unfold Sys.busy at h
  unfold Sys.resultOf
  rcases hc : s.calls c with - | ⟨kind, pc⟩
  · rfl
  · rw [hc] at h
    cases pc <;> first | rfl | cases h

/-- The results up to a call, and that call's. -/
theorem results_last {m : CallId} (hnext : s.nextCall = m + 1) (hn : n ≤ m) :
    s.results n = (List.range' n (m - n)).filterMap s.resultOf ++ (s.resultOf m).toList := by
  rw [Sys.results, hnext, Nat.succ_sub hn, List.range'_1_concat, List.filterMap_append,
    Nat.add_sub_cancel' hn]
  congr 1

theorem resultOf_congr (h : t.calls c = s.calls c) : t.resultOf c = s.resultOf c := by
  rw [Sys.resultOf, h]
  rfl

/-- A new call adds its result, if it has one. -/
theorem results_start {k : Call} (hn : n ≤ s.nextCall)
    (hcalls : t.calls = update s.calls s.nextCall (some k)) (hnext : t.nextCall = s.nextCall + 1) :
    t.results n = s.results n ++ (t.resultOf s.nextCall).toList := by
  rw [results_last hnext hn, Sys.results]
  congr 1
  refine List.filterMap_congr ?_
  intro c hc
  have hlt := (List.mem_range'_1.mp hc).2
  rw [Nat.add_sub_cancel' hn] at hlt
  refine resultOf_congr ?_
  rw [hcalls, update_of_ne hlt.ne]

/-- The last call, so far in progress, adds its result, if it has one now. -/
theorem results_advance {k : Call} (hn : n ≤ c) (hnext : s.nextCall = c + 1)
    (hbusy : s.busy c = true) (hcalls : t.calls = update s.calls c (some k))
    (hnext' : t.nextCall = s.nextCall) :
    t.results n = s.results n ++ (t.resultOf c).toList := by
  rw [results_last (hnext'.trans hnext) hn, results_last hnext hn, resultOf_busy hbusy]
  simp only [Option.toList_none, List.append_nil]
  congr 1
  refine List.filterMap_congr ?_
  intro c' hc'
  have hlt := (List.mem_range'_1.mp hc').2
  rw [Nat.add_sub_cancel' hn] at hlt
  refine resultOf_congr ?_
  rw [hcalls, update_of_ne hlt.ne]

theorem results_keep (hcalls : t.calls = s.calls) (hnext : t.nextCall = s.nextCall) (n : CallId) :
    t.results n = s.results n := by
  rw [Sys.results, Sys.results, hnext]
  exact List.filterMap_congr fun c _ => resultOf_congr (congrFun hcalls c)

/-! ### The invariant of sequential runs -/

/-- The worker is in its loop, and not in the real transfer path. -/
def WorkerPc.running : WorkerPc → Bool
  | .polling _ | .stopped | .faulted _ => false
  | _ => true

structure SeqInv (s : Sys) : Prop where
  race : RaceFree s
  one : OneCall s
  mock : s.mgr.useMock = true
  unstopped : s.mgr.stopping = false
  running : s.worker.running = true
  held : ∀ c ∈ s.accepted, c ∉ s.finished → ∃ x k p, Held s c x k p

theorem seqInv_initial (hinit : Initial s) (hmock : s.mgr.useMock = true) : SeqInv s := by
  have hrace := raceFree_initial hinit
  have hone := oneCall_initial hinit
  obtain ⟨b, m, config, queueOk, mutexRc, provider, threadRc, -, hok, rfl⟩ := hinit
  refine ⟨hrace, hone, hmock, ?_, rfl, ?_⟩
  · rw [Sys.start, (mgrInit_ok hok).2]
    rfl
  · rintro c ⟨⟩

/-- No step of a serial run empties the slot of the request about to be executed. -/
theorem Serial.noRace (hok : Serial s a) (hone : OneCall s) (hq : QueueInv s.queueView)
    (hstep : step s a = some t) : NoRace s a := by
  intro c k conn hw
  have hwaits : s.Waits c := hq.waits_hand (congrArg WorkerPc.inHand hw)
  have hquiet := quiet_of_waits hone hok hwaits hstep
  have hnone : vacates s a = none := by
    cases a <;> first | rfl | cases hquiet
  rw [hnone]
  rintro ⟨⟩

theorem stopping_step (hok : Sequential s a) (hstep : step s a = some t) :
    t.mgr.stopping = s.mgr.stopping := by
  rcases (step_kept hstep).stopping with rfl | hkept
  · rcases hok with ⟨hcmd, -⟩ | hcont | hw <;> contradiction
  · exact hkept

/-- A request at the front of the queue is held. -/
theorem SeqInv.held_front (h : SeqInv s) (hfront : s.mgr.queue.front = some c) :
    ∃ x k p, Held s c x k p ∧ (s.reqs c).xfer = x := by
  have hq := h.race.queue
  obtain ⟨hacc, hnd⟩ := hq.core.front_pending (c := c) hfront
  obtain ⟨x, k, p, hheld⟩ := h.held c hacc fun hfin => hnd (hq.core.finished_dequeued hfin)
  obtain ⟨ts, hts⟩ := hheld.args
  exact ⟨x, k, p, hheld, (hq.subs.args c x _ hts hacc).2 hnd⟩

/-- A request the worker takes out of the queue validates. -/
theorem SeqInv.front_valid (h : SeqInv s) (hfront : s.mgr.queue.front = some c) :
    ∃ k, validateXferLocked s.mgr s.backend (s.reqs c).xfer = .ok k := by
  obtain ⟨x, k, p, hheld, hx⟩ := h.held_front hfront
  exact ⟨k, by rw [hx]; exact hheld.valid⟩

/-- **The worker's first locked section**: it stays where it is, or takes a valid
request out of the queue. -/
theorem SeqInv.dequeue (h : SeqInv s) {uninit : UninitRead}
    (hstep : workerDequeue s uninit = some t) :
    (s.mgr.pending = 0 ∧ t = s) ∨
      ∃ c k conn, s.mgr.queue.front = some c ∧ t.worker = .executing c k conn := by
  unfold workerDequeue at hstep
  split at hstep
  next htop =>
    rw [h.unstopped] at hstep
    split_ifs at hstep with hwait hstop
    · refine .inl ⟨?_, (Option.some.inj hstep).symm⟩
      simpa using hwait
    · simp at hstop
    · have hcount : s.mgr.pending ≠ 0 := by simpa using hwait
      split at hstep
      next hnone =>
        -- the ring is not empty
        obtain ⟨q, hholds, -⟩ := h.race.queue.core.order
        have hq : q = [] := by
          have : q.head? = none := (hholds.front_eq.symm.trans hnone)
          exact List.head?_eq_none_iff.mp this
        rw [hq] at hholds
        exact absurd hholds.count_eq hcount
      next c hfront =>
        obtain ⟨k, hk⟩ := h.front_valid hfront
        dsimp only at hstep
        rw [hk] at hstep
        obtain rfl := Option.some.inj hstep
        exact .inr ⟨c, k, _, hfront, rfl⟩
  next => cases hstep

theorem SeqInv.running_step (h : SeqInv s) (hstep : step s a = some t) :
    t.worker.running = true := by
  cases step_cases hstep with
  | other ha hw hgeo =>
      rw [hw]
      exact h.running
  | dequeue uninit htop hres =>
      have hdeq : workerDequeue s uninit = some t := by simpa only [step, htop] using hstep
      rcases h.dequeue hdeq with ⟨-, rfl⟩ | ⟨c, k, conn, -, hw⟩
      · exact h.running
      · rw [hw]
        rfl
  | execute post hexec =>
      obtain ⟨c, k, conn, hw, -⟩ := workerExecute_worker hexec
      rw [((h.race.ready c k conn hw).execute h.race.peers h.race.live h.mock hw rfl hexec).1]
      rfl
  | poll rc c hw ht =>
      rw [ht]
      rfl
  | complete c rc hw hres =>
      rw [hres.worker]
      rfl
  | log c rc hw ht =>
      rw [ht]
      rfl

theorem SeqInv.step (h : SeqInv s) (hok : Sequential s a) (hstep : step s a = some t) :
    SeqInv t := by
  have hq := h.race.queue
  refine ⟨h.race.step (hok.serial.noRace h.one hq hstep) hstep, h.one.step hok.serial hstep,
    (step_peerStep h.race.peers hstep).mock_eq.trans h.mock,
    (stopping_step hok hstep).trans h.unstopped, h.running_step hstep, ?_⟩
  intro c hacc hnf
  have hold : c ∈ s.accepted → ∃ x k p, Held t c x k p := by
    intro hacc'
    obtain ⟨x, k, p, hheld⟩ := h.held c hacc' fun hfin =>
      hnf ((step_queueStep hq hstep).finished_mono hfin)
    exact ⟨x, k, p, hheld.step h.one hq hok.serial hstep hacc hnf⟩
  rcases accepted_step hstep with heq | ⟨x, timeoutMs, now, k, rfl, hnew⟩
  · exact hold (heq ▸ hacc)
  · rw [hnew.accepted] at hacc
    rcases List.mem_append.mp hacc with hacc' | hacc'
    · exact hold hacc'
    · obtain rfl := List.mem_singleton.mp hacc'
      exact ⟨x, k, s.mgr.peers k, hnew.held⟩

end Urma

end DirectStorage
