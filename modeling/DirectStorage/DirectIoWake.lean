/-
DirectStorage/DirectIoWake.lean

No lost wake-up in the direct-IO queue.

A submitter puts its request on `pending_list` and calls `queue_work` later;
the worker decides to leave and is gone later.  As long as the device is not
stopping, a request on the list is always somebody's business (`Woken`): the
work item is queued, the worker is still going to look at the list, a
submitter is still going to call `queue_work`, or the queue is at its depth.

The worker ends its run in one of two ways.  When it finds the list empty,
whoever adds a request afterwards has yet to call `queue_work`.  When it finds
`inflight` at the depth, nothing brings `inflight` down again before the
cleanup: only the worker itself decrements it, and it is not running.  The
`queue_work` itself is not lost because the work queue is live
(`QueueAlive`): a device whose work queue could not be allocated turns every
submission away before it reaches the list.

Main result: `reachable_woken`.
-/
import DirectStorage.DirectIoDepth

namespace DirectStorage

namespace DirectIo

variable {dev : Dev} {s t : St} {a : Action} {c : ReqId} {pc pc' : SubPc}

/-! ### The statement -/

/-- The worker is running and has not made the check that ends its run: with
that check the run is over, because nothing the worker does after it touches
the queue. -/
def Worker.undecided : Worker → Bool
  | .idle => false
  | .running _ _ => true

/-- Somebody is going to look at `pending_list`, or the queue is at its depth. -/
inductive St.Woken (dev : Dev) (s : St) : Prop
  | queued : s.queued.isSome → St.Woken dev s
  | running : s.worker.undecided → St.Woken dev s
  /-- A submitter has added its request and not called `queue_work` yet. -/
  | added (c : ReqId) : s.subs[c]? = some .added → St.Woken dev s
  | full : (dev.queueDepth.toNat : Int) ≤ s.inflight → St.Woken dev s

/-! ### The work queue is live -/

/-- The submitter has not passed the check of `io_wq`. -/
def SubPc.beforeWq : SubPc → Bool
  | .checking _ | .returned _ => true
  | _ => false

/-- Before the cleanup the work queue is live, or it was never allocated and no
submitter has passed the check of `io_wq`. -/
def QueueAlive (s : St) : Prop :=
  s.stopping = false → s.ioWq = .live ∨ s.ioWq = .null ∧ ∀ pc ∈ s.subs, pc.beforeWq

theorem beforeWq_submitEntry (stopping : Bool) (args : SubmitArgs) :
    (submitEntry stopping args).beforeWq := by
  unfold submitEntry
  split_ifs <;> rfl

theorem beforeWq_submitCheck (dev : Dev) (args : SubmitArgs) :
    (submitCheck dev .null args).beforeWq := by
  unfold submitCheck
  rw [if_pos (rfl : IoWq.null = .null)]
  split_ifs <;> rfl

/-- With no work queue, a submitter that has not passed the check returns. -/
theorem submitStep_null {ok : Bool} (hpc : pc.beforeWq) (hnull : s.ioWq = .null)
    (h : submitStep dev s c ok pc = some t) :
    ∃ pc' : SubPc, pc'.beforeWq ∧ t = s.setSub c pc' := by
  cases pc with
  | checking args =>
      cases h
      rw [hnull]
      exact ⟨_, beforeWq_submitCheck dev args, rfl⟩
  | returned rc => cases h
  | _ => cases hpc

theorem SubMove.frame (h : SubMove dev s c pc t) : t.stopping = s.stopping ∧ t.ioWq = s.ioWq := by
  cases h with
  | wake =>
      unfold St.queueWork
      split_ifs <;> exact ⟨rfl, rfl⟩
  | _ => exact ⟨rfl, rfl⟩

/-- With its first step the cleanup sets `stopping`, and nothing clears it. -/
theorem CleanMove.stopping (h : CleanMove s s.cleaner t) (hc : CleanOk s) :
    t.stopping = true := by
  have hstop := hc.stopping
  generalize s.cleaner = cpc at h hstop
  cases h with
  | stop => rfl
  | _ => exact hstop (by simp)

theorem QueueAlive.step (hs : QueueAlive s) (hinv : Inv s) (h : step dev s a = some t) :
    QueueAlive t := by
  intro hstop
  cases a with
  | submit args =>
      cases h
      refine (hs hstop).imp_right ?_
      rintro ⟨hnull, hsubs⟩
      refine ⟨hnull, ?_⟩
      intro pc hpc
      rcases List.mem_append.mp hpc with hpc | hpc
      · exact hsubs pc hpc
      · rw [List.mem_singleton.mp hpc]
        exact beforeWq_submitEntry _ _
  | sub c ok =>
      obtain ⟨pc, hpc, hstep⟩ := Option.bind_eq_some_iff.mp h
      obtain ⟨hstop', hwq⟩ := (submitStep_move hstep).frame
      rw [hwq]
      refine (hs (hstop' ▸ hstop)).imp_right ?_
      rintro ⟨hnull, hsubs⟩
      refine ⟨hnull, ?_⟩
      obtain ⟨pc', hpc', rfl⟩ :=
        submitStep_null (hsubs pc (List.mem_of_getElem? hpc)) hnull hstep
      intro pc₁ hpc₁
      rcases List.mem_or_eq_of_mem_set hpc₁ with hmem | rfl
      · exact hsubs pc₁ hmem
      · exact hpc'
  | start =>
      cases step_move h with
      | start => exact hs hstop
  | work rc =>
      cases step_move h with
      | @work run wpc _ hrun =>
          obtain ⟨hsubs, -, -, -, hwq, hstop', -⟩ := workStep_frame dev s run rc wpc
          rw [hwq, hsubs]
          exact hs (hstop' ▸ hstop)
  | clean =>
      cases step_move h with
      | clean hmove =>
          rw [hmove.stopping hinv.clean] at hstop
          cases hstop

theorem queueAlive_initIoQueue (allocated : Bool) : QueueAlive (initIoQueue allocated).2 := by
  intro _
  cases allocated with
  | true => exact .inl rfl
  | false =>
      refine .inr ⟨rfl, ?_⟩
      rintro pc ⟨⟩

/-- While a submitter is about to call `queue_work`, the work queue is live. -/
theorem QueueAlive.live (hs : QueueAlive s) (hstop : s.stopping = false)
    (hpc : s.subs[c]? = some .added) : s.ioWq = .live := by
  rcases hs hstop with hlive | ⟨-, hsubs⟩
  · exact hlive
  · cases hsubs _ (List.mem_of_getElem? hpc)

/-! ### The invariant -/

/-- A request on the list is somebody's business. -/
def Awake (dev : Dev) (s : St) : Prop :=
  s.stopping = false → s.pendingList ≠ [] → s.Woken dev

/-- A submitter that moves on, and was not about to call `queue_work`, takes
nobody's wake-up away. -/
theorem St.Woken.setSub (h : s.Woken dev) (hpc : s.subs[c]? = some pc) (hne : pc ≠ .added)
    (hqueued : t.queued = s.queued) (hworker : t.worker = s.worker)
    (hinflight : t.inflight = s.inflight) (hsubs : t.subs = s.subs.set c pc') : t.Woken dev := by
  cases h with
  | queued hq => exact .queued (hqueued ▸ hq)
  | running hw => exact .running (hworker ▸ hw)
  | added c' hadded =>
      refine .added c' ?_
      have hcc : c ≠ c' := by
        rintro rfl
        exact hne (Option.some.inj (hpc.symm.trans hadded))
      rw [hsubs, List.getElem?_set_ne hcc]
      exact hadded
  | full hfull => exact .full (hinflight ▸ hfull)

theorem queueWork_queued (hlive : s.ioWq = .live) : s.queueWork.queued.isSome := by
  unfold St.queueWork
  split_ifs with h
  · rfl
  · exact Option.isSome_iff_ne_none.mpr fun hnone => h ⟨hlive, hnone⟩

theorem submitStep_added (hlive : s.ioWq = .live) (ok : Bool) :
    submitStep dev s c ok .added = some (s.queueWork.setSub c (.returned 0)) := by
  simp only [submitStep, hlive]

/-- **A submitter's step loses no wake-up**: it adds its request before it calls
`queue_work`. -/
theorem submitStep_awake {ok : Bool} (hs : Awake dev s) (halive : QueueAlive s)
    (hpc : s.subs[c]? = some pc) (h : submitStep dev s c ok pc = some t) : Awake dev t := by
  intro hstop hlist
  rw [(submitStep_move h).frame.1] at hstop
  by_cases hadded : pc = .added
  · subst hadded
    have hlive := halive.live hstop hpc
    rw [submitStep_added hlive] at h
    obtain rfl := Option.some.inj h
    exact .queued (queueWork_queued hlive)
  · cases submitStep_move h with
    | accept =>
        refine .added c ?_
        exact List.getElem?_set_self (List.getElem?_eq_some_iff.mp hpc).1
    | wake => exact absurd rfl hadded
    | crash => exact absurd rfl hadded
    | _ => exact (hs hstop hlist).setSub hpc hadded rfl rfl rfl rfl

/-- A counter that is not negative is at least what the comparison sees of it. -/
theorem asUnsigned_le {v : Int} (h : 0 ≤ v) : (asUnsigned v : Int) ≤ v := by
  unfold asUnsigned
  omega

/-- **The worker's step loses no wake-up**: it leaves when the list is empty or
the queue is at its depth. -/
theorem workStep_awake {run : Nat} {wpc : WorkPc} (rc : Int) (hrun : s.worker = .running run wpc)
    (hcounters : Counters s) : Awake dev (workStep dev s run rc wpc) := by
  intro hstop hlist
  rw [(workStep_frame dev s run rc wpc).2.2.2.2.2.1] at hstop
  cases wpc with
  | head =>
      simp only [workStep, hstop]
      exact .running rfl
  | depth =>
      have hi := hcounters.inflight_eq
      rw [hrun] at hi
      have hnonneg : 0 ≤ s.inflight := by
        have hi' : s.inflight + 0 = s.inflightReqs.entries.length + 0 + s.cleaner.overcounted := hi
        omega
      simp only [workStep]
      split_ifs with hdepth
      · exact .running rfl
      · refine .full ?_
        have hle := asUnsigned_le hnonneg
        show (dev.queueDepth.toNat : Int) ≤ s.inflight
        omega
  | pop =>
      rcases hcons : s.pendingList with - | ⟨r, rest⟩
      · simp only [workStep, hcons] at hlist
        exact absurd rfl hlist
      · simp only [workStep, hcons]
        exact .running rfl
  | numbered r wrId =>
      simp only [workStep]
      split_ifs <;> exact .running rfl
  | _ => exact .running rfl

/-- **One step loses no wake-up.** -/
theorem Awake.step (hs : Awake dev s) (halive : QueueAlive s) (hinv : Inv s)
    (hcounters : Counters s) (h : step dev s a = some t) : Awake dev t := by
  cases a with
  | submit args =>
      cases h
      intro hstop hlist
      cases hs hstop hlist with
      | queued hq => exact .queued hq
      | running hw => exact .running hw
      | added c hc =>
          refine .added c ?_
          rw [← hc]
          exact List.getElem?_append_left (List.getElem?_eq_some_iff.mp hc).1
      | full hfull => exact .full hfull
  | sub c ok =>
      obtain ⟨pc, hpc, hstep⟩ := Option.bind_eq_some_iff.mp h
      exact submitStep_awake hs halive hpc hstep
  | start =>
      cases step_move h with
      | start => exact fun _ _ => .running rfl
  | work rc =>
      cases step_move h with
      | work _ hrun => exact workStep_awake rc hrun hcounters
  | clean =>
      cases step_move h with
      | clean hmove =>
          intro hstop
          rw [hmove.stopping hinv.clean] at hstop
          cases hstop

/-! ### The result -/

/-- What every reachable state meets, besides `Inv`. -/
structure WakeInv (dev : Dev) (s : St) : Prop where
  inv : Inv s
  counters : Counters s
  alive : QueueAlive s
  awake : Awake dev s

/-- **No wake-up is lost**, in every run of any number of submitters, the worker
and the cleanup: before the cleanup sets `stopping`, a nonempty `pending_list`
is going to be looked at, or the queue is at its depth. -/
theorem reachable_woken (dev : Dev) (allocated : Bool) (as : List Action) (s : St)
    (h : run (step dev) (initIoQueue allocated).2 as = some s) (hstop : s.stopping = false)
    (hlist : s.pendingList ≠ []) : s.Woken dev := by
  have hwake : WakeInv dev s := by
    refine run_invariant (I := WakeInv dev) ?_ ?_ (runOk_trivial _ as) h
    · refine ⟨inv_initIoQueue _, counters_initIoQueue _, queueAlive_initIoQueue _, ?_⟩
      exact fun _ hne => absurd rfl hne
    · intro s a t hs _ ha
      exact ⟨hs.inv.step ha, hs.counters.step hs.inv ha, hs.alive.step hs.inv ha,
        hs.awake.step hs.alive hs.inv hs.counters ha⟩
  exact hwake.awake hstop hlist

namespace Small

/-- The worker has found the list empty and is gone when request 1 is added;
its `queue_work` is still to come. -/
def lateAdd : List Action :=
  List.flatten [enqueue 0 ioRead, [.sub 0 true, .start], work 10, enqueue 1 ioWrite]

theorem woken_lateAdd :
    ∃ s, run (step device) (initIoQueue true).2 lateAdd = some s ∧
      (s.pendingList == [1] && s.queued.isNone && !s.worker.undecided) = true ∧
      s.Woken device := by
  obtain ⟨s, hrun, htest⟩ := exists_of_run_any (δ := step device) (initIoQueue true).2 lateAdd
    (fun s => !s.stopping && (s.pendingList == [1] && s.queued.isNone && !s.worker.undecided))
    (by decide +kernel)
  obtain ⟨hstop, hstate⟩ := (Bool.and_eq_true _ _).mp htest
  refine ⟨s, hrun, hstate, reachable_woken device true lateAdd s hrun (by simpa using hstop) ?_⟩
  intro hempty
  rw [hempty] at hstate
  cases hstate

end Small

end DirectIo

end DirectStorage
