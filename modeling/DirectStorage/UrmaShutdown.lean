/-
DirectStorage/UrmaShutdown.lean

The manager's whole life under one caller at a time: calls one after the other,
and `ramdisk_urma_mgr_destroy` when none of them is in progress (`Orderly`).

The manager alone promises less.  With several callers the second validation of a
request may fail and read through a pointer that was never set, a slot may change
hands under the worker, and a request that comes in late is never executed.  In an
orderly run none of this happens, whichever provider is used, and it still does
not happen while the worker is being stopped: between two calls every request is
done, and the destroy call, once begun, is the call in progress for ever.

Main results: `OrderlyInv.of_run`, and what it says (`OrderlyInv.sound`).
-/
import DirectStorage.UrmaProgress

namespace DirectStorage

namespace Urma

open Function

variable {s t s₀ : Sys} {a : Action} {as : List Action} {c : CallId}

/-! ### Orderly runs -/

/-- The calls of the daemon: the control server's, and the destroy. -/
def CallKind.orderly : CallKind → Bool
  | .mockWritePeer _ _ _ => false
  | _ => true

/-- The step starts no call, or one of the daemon's, and that only when no other
call is in progress. -/
def Orderly (s : Sys) (a : Action) : Prop := ∀ kind ∈ a.call, kind.orderly = true ∧ s.Idle

instance (s : Sys) (a : Action) : Decidable (Orderly s a) :=
  inferInstanceAs (Decidable (∀ kind ∈ a.call, kind.orderly = true ∧ s.Idle))

theorem orderly_of_no_call (h : a.call = none) : Orderly s a := by
  intro kind hkind
  rw [h] at hkind
  cases hkind

theorem call_of_continues (h : a.continues = some c) : a.call = none := by
  cases a <;> first | rfl | cases h

theorem call_of_byWorker (h : a.byWorker = true) : a.call = none := by
  cases a <;> first | rfl | cases h

/-- The manager when `ramdisk_urma_mgr_destroy` has set `stopping`. -/
def Sys.destroying (s : Sys) : Sys :=
  { s.newCall .mgrDestroy .joining with mgr := { s.mgr with stopping := true } }

/-- An orderly step is a serial one, or the destroy. -/
theorem Orderly.serial_or_destroy (hok : Orderly s a) (hstep : step s a = some t) :
    Serial s a ∨ a = .mgrDestroy ∧ s.Idle ∧ t = s.destroying := by
  by_cases ha : a = .mgrDestroy
  · subst ha
    right
    unfold step at hstep
    split at hstep
    · cases hstep
    · exact ⟨rfl, (hok _ rfl).2, (Option.some.inj hstep).symm⟩
  · left
    intro kind hkind
    obtain ⟨hserved, hidle⟩ := hok kind hkind
    refine ⟨?_, hidle⟩
    cases a with
    | mgrDestroy => exact absurd rfl ha
    | mockWritePeer peerId remoteAddr data len =>
        cases hkind
        cases hserved
    | _ => cases hkind <;> rfl

/-- A call in progress keeps the others from starting. -/
theorem Orderly.no_call (hok : Orderly s a) (hone : OneCall s) (hbusy : s.busy c = true) :
    a.call = none := by
  by_contra hne
  obtain ⟨kind, hkind⟩ := Option.ne_none_iff_exists'.mp hne
  cases (hone.idle (hok kind hkind).2 c).symm.trans hbusy

theorem OneCall.destroying (h : OneCall s) (hidle : s.Idle) : OneCall s.destroying := by
  have hcalls : s.destroying.calls = update s.calls s.nextCall (some ⟨.mgrDestroy, .joining⟩) := rfl
  have honly : ∀ c, s.destroying.busy c = true → c = s.nextCall := by
    intro c hc
    by_contra hne
    rw [Sys.busy, hcalls, update_of_ne hne] at hc
    cases (h.idle hidle c).symm.trans hc
  refine ⟨?_, ?_⟩
  · intro c hc
    have hlt : s.nextCall < c := hc
    rw [hcalls, update_of_ne hlt.ne']
    exact h.fresh c hlt.le
  · intro c c' hc hc'
    rw [honly c hc, honly c' hc']

/-! ### The invariant -/

/-- `stopping` is set by a call that is still in progress. -/
def StoppedByCall (s : Sys) : Prop :=
  s.mgr.stopping = true → ∃ c, s.calls c = some ⟨.mgrDestroy, .joining⟩

/-- The destroy call does not go on: it waits for the worker. -/
theorem joining_step (hone : OneCall s) (hc : s.calls c = some ⟨.mgrDestroy, .joining⟩)
    (hstep : step s a = some t) : t.calls c = some ⟨.mgrDestroy, .joining⟩ := by
  rw [(step_callStep hstep).calls_eq ?_ ?_]
  · exact hc
  · rintro rfl
    cases (hone.fresh _ le_rfl).symm.trans hc
  · intro hcont
    obtain ⟨c', hgo⟩ := step_continues hstep (by rw [hcont]; rfl)
    have hcc : c' = c := by
      cases hgo <;> exact Option.some.inj hcont
    subst hcc
    cases hgo with
    | wakes x timeoutMs ts rc now hcall h => cases hcall.symm.trans hc
    | locks info p hcall h => cases hcall.symm.trans hc
    | releases peerId old hcall h => cases hcall.symm.trans hc

theorem StoppedByCall.step (h : StoppedByCall s) (hone : OneCall s) (hstep : step s a = some t) :
    StoppedByCall t := by
  intro hstop
  rcases (step_kept hstep).stopping with rfl | hkept
  · unfold Urma.step at hstep
    split at hstep
    · cases hstep
    · obtain rfl := Option.some.inj hstep
      exact ⟨s.nextCall, update_self _ _ _⟩
  · obtain ⟨c, hc⟩ := h (hkept ▸ hstop)
    exact ⟨c, joining_step hone hc hstep⟩

/-- What holds in every orderly run. -/
structure OrderlyInv (s : Sys) : Prop where
  race : RaceFree s
  one : OneCall s
  held : ∀ c ∈ s.accepted, c ∉ s.finished → ∃ x k p, Held s c x k p
  unfaulted : ∀ c, s.worker ≠ .faulted c
  /-- No read through a peer pointer that was not set. -/
  noWild : s.wildReads = 0
  stopping : s.worker = .stopped → s.mgr.stopping = true
  byCall : StoppedByCall s
  drained : Drained s

theorem orderlyInv_initial (hinit : Initial s) : OrderlyInv s := by
  have hrace := raceFree_initial hinit
  have hone := oneCall_initial hinit
  obtain ⟨b, m, config, queueOk, mutexRc, provider, threadRc, -, hok, rfl⟩ := hinit
  have hstop : m.stopping = false := by
    rw [(mgrInit_ok hok).2]
    rfl
  refine ⟨hrace, hone, by rintro c ⟨⟩, by rintro c ⟨⟩, rfl, by rintro ⟨⟩, ?_, by rintro ⟨⟩⟩
  intro hstop'
  cases hstop.symm.trans hstop'

/-- While a request is not done, an orderly step is a serial one. -/
theorem OrderlyInv.serial_of_waits (h : OrderlyInv s) (hok : Orderly s a) (hc : s.Waits c) :
    Serial s a := by
  intro kind hkind
  rw [hok.no_call h.one hc.busy] at hkind
  cases hkind

theorem OrderlyInv.noRace (h : OrderlyInv s) (hok : Orderly s a) (hstep : step s a = some t) :
    NoRace s a := by
  intro c k conn hw
  have hwaits : s.Waits c := h.race.queue.waits_hand (congrArg WorkerPc.inHand hw)
  exact (h.serial_of_waits hok hwaits).noRace h.one h.race.queue hstep c k conn hw

theorem OrderlyInv.held_step (h : OrderlyInv s) (hok : Orderly s a) (hstep : step s a = some t) :
    ∀ c ∈ t.accepted, c ∉ t.finished → ∃ x k p, Held t c x k p := by
  intro c hacc hnf
  have hold : c ∈ s.accepted → ∃ x k p, Held t c x k p := by
    intro hacc'
    have hnf' : c ∉ s.finished := fun hfin =>
      hnf ((step_queueStep h.race.queue hstep).finished_mono hfin)
    obtain ⟨x, k, p, hheld⟩ := h.held c hacc' hnf'
    have hserial := h.serial_of_waits hok hheld.waits
    exact ⟨x, k, p, hheld.step h.one h.race.queue hserial hstep hacc hnf⟩
  rcases accepted_step hstep with heq | ⟨x, timeoutMs, now, k, rfl, hnew⟩
  · exact hold (heq ▸ hacc)
  · rw [hnew.accepted] at hacc
    rcases List.mem_append.mp hacc with hacc' | hacc'
    · exact hold hacc'
    · obtain rfl := List.mem_singleton.mp hacc'
      exact ⟨x, k, s.mgr.peers k, hnew.held⟩

/-- The request at the front of the queue validates. -/
theorem OrderlyInv.front_valid (h : OrderlyInv s) (hfront : s.mgr.queue.front = some c) :
    ∃ k, validateXferLocked s.mgr s.backend (s.reqs c).xfer = .ok k := by
  have hq := h.race.queue
  obtain ⟨hacc, hnd⟩ := hq.core.front_pending (c := c) hfront
  obtain ⟨x, k, p, hheld⟩ := h.held c hacc fun hfin => hnd (hq.core.finished_dequeued hfin)
  obtain ⟨ts, hts⟩ := hheld.args
  have hx : (s.reqs c).xfer = x := (hq.subs.args c x _ hts hacc).2 hnd
  exact ⟨k, by rw [hx]; exact hheld.valid⟩

/-! ### The worker -/

/-- **The worker's first locked section** in an orderly run: it waits, leaves its
loop, or goes on to execute a request; nothing unset is read. -/
theorem OrderlyInv.dequeue (h : OrderlyInv s) {uninit : UninitRead}
    (hstep : workerDequeue s uninit = some t) :
    t.wildReads = s.wildReads ∧ (t = s ∨ t.worker = .stopped ∧ s.mgr.stopping = true ∨
      ∃ c k conn, t.worker = .executing c k conn) := by
  unfold workerDequeue at hstep
  split at hstep
  next htop =>
    split_ifs at hstep with hwait hstop
    · obtain rfl := Option.some.inj hstep
      exact ⟨rfl, .inl rfl⟩
    · obtain rfl := Option.some.inj hstep
      simp only [Bool.and_eq_true] at hstop
      exact ⟨rfl, .inr (.inl ⟨rfl, hstop.1⟩)⟩
    · have hcount : s.mgr.pending ≠ 0 := by
        intro hzero
        rw [hzero] at hwait hstop
        revert hwait hstop
        cases s.mgr.stopping <;> simp
      split at hstep
      next hnone =>
        -- the ring is not empty
        obtain ⟨q, hholds, -⟩ := h.race.queue.core.order
        have hnil : q = [] := List.head?_eq_none_iff.mp (hholds.front_eq.symm.trans hnone)
        rw [hnil] at hholds
        exact absurd hholds.count_eq hcount
      next c hfront =>
        obtain ⟨k, hk⟩ := h.front_valid hfront
        dsimp only at hstep
        rw [hk] at hstep
        obtain rfl := Option.some.inj hstep
        exact ⟨rfl, .inr (.inr ⟨c, k, _, rfl⟩)⟩
  next => cases hstep

/-- Executing a ready request does not fault, whichever provider is used. -/
theorem OrderlyInv.execute (h : OrderlyInv s) {post : Bool}
    (hexec : workerExecute s post = some t) :
    t.wildReads = s.wildReads ∧
      ∃ c, (∃ rc, t.worker = .finishing c rc) ∨ t.worker = .polling c := by
  obtain ⟨c, k, conn, hw, -⟩ := workerExecute_worker hexec
  have hwild : t.wildReads = s.wildReads := by
    simp only [workerExecute] at hexec
    repeat' split at hexec
    all_goals first | (cases hexec; rfl) | cases hexec
  refine ⟨hwild, c, ?_⟩
  cases hmode : s.mgr.useMock with
  | true =>
      have hready := h.race.ready c k conn hw
      exact .inl ⟨0, (hready.execute h.race.peers h.race.live hmode hw rfl hexec).1⟩
  | false =>
      simp only [workerExecute, hw, hmode, Bool.false_eq_true, if_false] at hexec
      repeat' split at hexec
      all_goals obtain rfl := Option.some.inj hexec
      · exact .inl ⟨_, rfl⟩
      · exact .inl ⟨_, rfl⟩
      · exact .inr rfl

/-- The fields that only the worker writes, and those that nobody does. -/
structure SameMeters (s t : Sys) : Prop where
  wildReads : t.wildReads = s.wildReads
  completed : t.mgr.completed = s.mgr.completed
  failed : t.mgr.failed = s.mgr.failed
  useMock : t.mgr.useMock = s.mgr.useMock
  queueDepth : t.mgr.queueDepth = s.mgr.queueDepth

theorem sameMeters_freeHbm (s : Sys) (h : Option CallId) (c : CallId) (kind : CallKind)
    (pc : CallPc) : SameMeters s ((s.freeHbm h).setCall c kind pc) := by
  cases h <;> exact ⟨rfl, rfl, rfl, rfl, rfl⟩

/-- Only the worker reads through a peer pointer, and only it counts. -/
theorem meters_other (ha : a.byWorker = false) (hstep : step s a = some t) : SameMeters s t := by
  unfold step at hstep
  split at hstep
  · cases hstep
  cases a with
  | transferSync x timeoutMs now =>
      simp only [transferSync] at hstep
      repeat' split at hstep
      all_goals
        obtain rfl := Option.some.inj hstep
        exact ⟨rfl, rfl, rfl, rfl, rfl⟩
  | timedwait c rc now =>
      simp only [timedwait, waitLoop] at hstep
      repeat' split at hstep
      all_goals first | (cases hstep; exact ⟨rfl, rfl, rfl, rfl, rfl⟩) | cases hstep
  | peerConnect info env =>
      simp only [peerConnect] at hstep
      repeat' split at hstep
      all_goals
        obtain rfl := Option.some.inj hstep
        exact ⟨rfl, rfl, rfl, rfl, rfl⟩
  | peerConnectLocked c =>
      simp only [peerConnectLocked] at hstep
      repeat' split at hstep
      all_goals first
        | cases hstep
          exact sameMeters_freeHbm _ _ _ _ _
        | cases hstep
          exact ⟨rfl, rfl, rfl, rfl, rfl⟩
        | cases hstep
  | peerDisconnect peerId =>
      simp only [peerDisconnect] at hstep
      repeat' split at hstep
      all_goals
        obtain rfl := Option.some.inj hstep
        exact ⟨rfl, rfl, rfl, rfl, rfl⟩
  | peerDisconnectRelease c =>
      simp only [peerDisconnectRelease] at hstep
      split at hstep <;> cases hstep
      exact sameMeters_freeHbm _ _ _ _ _
  | mockWritePeer peerId remoteAddr data len =>
      simp only [mockWritePeer] at hstep
      split at hstep <;> cases hstep <;> exact ⟨rfl, rfl, rfl, rfl, rfl⟩
  | workerDequeue uninit => cases ha
  | workerExecute post => cases ha
  | workerPoll rc => cases ha
  | workerComplete => cases ha
  | workerLog => cases ha
  | _ =>
      obtain rfl := Option.some.inj hstep
      exact ⟨rfl, rfl, rfl, rfl, rfl⟩

/-- Where a step takes the worker, and what it read on the way. -/
theorem OrderlyInv.worker_step (h : OrderlyInv s) (hstep : step s a = some t) :
    (∀ c, t.worker ≠ .faulted c) ∧ t.wildReads = 0 := by
  have hnone := h.noWild
  cases step_cases hstep with
  | other ha hw hgeo =>
      refine ⟨?_, (meters_other ha hstep).wildReads.trans hnone⟩
      rw [hw]
      exact h.unfaulted
  | dequeue uninit htop hres =>
      have hdeq : workerDequeue s uninit = some t := by simpa only [step, htop] using hstep
      obtain ⟨hwild, rfl | ⟨hw, -⟩ | ⟨c, k, conn, hw⟩⟩ := h.dequeue hdeq
      · exact ⟨h.unfaulted, hnone⟩
      all_goals exact ⟨by rw [hw]; rintro c ⟨⟩, hwild.trans hnone⟩
  | execute post hexec =>
      obtain ⟨hwild, c, ⟨rc, hw⟩ | hw⟩ := h.execute hexec
      all_goals exact ⟨by rw [hw]; rintro c ⟨⟩, hwild.trans hnone⟩
  | poll rc c hw ht =>
      subst ht
      exact ⟨by rintro c ⟨⟩, hnone⟩
  | complete c rc hw hres =>
      refine ⟨?_, hres.wildReads.trans hnone⟩
      rw [hres.worker]
      rintro c ⟨⟩
  | log c rc hw ht =>
      subst ht
      exact ⟨by rintro c ⟨⟩, hnone⟩

/-- **No transfer comes once the worker has left its loop**: the destroy call is in
progress. -/
theorem OrderlyInv.noLateTransfer (h : OrderlyInv s) (hok : Orderly s a) : NoLateTransfer s a := by
  intro hstopped x hx
  obtain ⟨c, hc⟩ := h.byCall (h.stopping hstopped)
  have hbusy : s.busy c = true := by
    rw [Sys.busy, hc]
    rfl
  have hcall := hok.no_call h.one hbusy
  cases a with
  | transferSync y timeoutMs now => cases hcall
  | _ => cases hx

theorem OrderlyInv.step (h : OrderlyInv s) (hok : Orderly s a) (hstep : step s a = some t) :
    OrderlyInv t := by
  obtain ⟨hunfaulted, hwild⟩ := h.worker_step hstep
  have hone : OneCall t := by
    rcases hok.serial_or_destroy hstep with hserial | ⟨-, hidle, rfl⟩
    · exact h.one.step hserial hstep
    · exact h.one.destroying hidle
  exact ⟨h.race.step (h.noRace hok hstep) hstep, hone, h.held_step hok hstep, hunfaulted, hwild,
    stopping_of_stopped h.stopping hstep, h.byCall.step h.one hstep,
    h.drained.step h.race.queue (h.noLateTransfer hok) hstep⟩

/-! ### Whole runs -/

/-- What an orderly caller can rely on, from the first call to the end of the
worker. -/
structure Sound (s : Sys) : Prop where
  unfaulted : ∀ c, s.worker ≠ .faulted c
  noWild : s.wildReads = 0
  isolated : ∀ c k conn, s.worker = .executing c k conn → Isolated s c k conn
  load_le : s.mgr.pending + s.mgr.inflight ≤ 1
  drained : Drained s

theorem OrderlyInv.sound (h : OrderlyInv s) : Sound s where
  unfaulted := h.unfaulted
  noWild := h.noWild
  isolated := fun c k conn hw => (h.race.ready c k conn hw).isolated h.race.peers
  load_le := h.one.load_le h.race.queue
  drained := h.drained

theorem OrderlyInv.of_run (h : OrderlyInv s) (hok : RunOk Urma.step Orderly s as)
    (hrun : run Urma.step s as = some t) : OrderlyInv t :=
  run_invariant h (fun _ _ _ hs hok hstep => hs.step hok hstep) hok hrun

end Urma

end DirectStorage
