/-
DirectStorage/DirectIoDepth.lean

The queue depth of the direct-IO queue.

A submitter compares `pending + inflight` with `queue_depth` under
`pending_lock`, but the worker takes a request off the list (`pending--`)
before it counts it as in flight (`inflight++`).  In between the request is in
neither counter, and a submitter that looks there lets one request too many in.

`Counters` says, for every reachable state, what the two counters count;
`Worker.gap` is the request that is in neither.  The amount
`pending + inflight + gap` is what the depth bounds as long as no submission
is accepted on the last free place while the gap is open (`NoGapAccept`), and
one such submission breaks the bound.

Main results: `throughout_depthOk_iff` and the run `not_depthOk_gap` on which
two requests are accepted at depth one.
-/
import DirectStorage.DirectIoOnce

namespace DirectStorage

namespace DirectIo

variable {dev : Dev} {s t : St} {a : Action}

/-! ### What the counters count -/

/-- The worker has taken a request off the list that is not in `inflight_reqs`. -/
def Worker.untracked : Worker → Nat
  | .running _ (.popped _) | .running _ (.numbered _ _) => 1
  | _ => 0

/-- The worker's request is in `inflight_reqs` and not in `inflight`. -/
def Worker.uncounted : Worker → Nat
  | .running _ (.stored _ _) => 1
  | _ => 0

/-- The worker's request is in `inflight` and no longer in `inflight_reqs`. -/
def Worker.overcounted : Worker → Nat
  | .running _ (.erased _ _) => 1
  | _ => 0

/-- The cleanup has erased a request that is still in `inflight`. -/
def CleanPc.overcounted : CleanPc → Nat
  | .collected _ _ => 1
  | _ => 0

/-- The request that is in neither counter. -/
def Worker.gap (w : Worker) : Nat := w.untracked + w.uncounted

/-- The accepted requests that are pending or in flight. -/
def St.load (s : St) : Nat :=
  s.pendingList.length + s.worker.untracked + s.inflightReqs.entries.length

/-- What the depth has to bound: the two counters and the gap between them. -/
def St.occupancy (s : St) : Int := s.pending + s.inflight + s.worker.gap

structure Counters (s : St) : Prop where
  pending_eq : s.pending = s.pendingList.length
  inflight_eq : s.inflight + s.worker.uncounted =
    s.inflightReqs.entries.length + s.worker.overcounted + s.cleaner.overcounted

theorem Counters.occupancy_eq (h : Counters s) :
    s.occupancy = s.load + s.worker.overcounted + s.cleaner.overcounted := by
  have hp := h.pending_eq
  have hi := h.inflight_eq
  simp only [St.occupancy, St.load, Worker.gap, Nat.cast_add]
  omega

theorem SubMove.counters {c : ReqId} {pc : SubPc} (h : SubMove dev s c pc t)
    (hs : Counters s) : Counters t := by
  cases h with
  | accept =>
      refine ⟨?_, hs.inflight_eq⟩
      show s.pending + 1 = ((s.pendingList ++ [c]).length : Int)
      rw [List.length_append, hs.pending_eq]
      rfl
  | wake =>
      unfold St.queueWork
      split_ifs <;> exact ⟨hs.pending_eq, hs.inflight_eq⟩
  | _ => exact ⟨hs.pending_eq, hs.inflight_eq⟩

theorem workStep_counters {run : Nat} {wpc : WorkPc} (rc : Int)
    (hrun : s.worker = .running run wpc) (hw : WorkOk s) (hs : Counters s) :
    Counters (workStep dev s run rc wpc) := by
  obtain ⟨hp, hi⟩ := hs
  have htracks := hw.tracks
  rw [hrun] at htracks hi
  cases wpc with
  | head =>
      simp only [workStep]
      split_ifs <;> exact ⟨hp, hi⟩
  | depth =>
      simp only [workStep]
      split_ifs <;> exact ⟨hp, hi⟩
  | pop =>
      simp only [workStep]
      split
      · exact ⟨hp, hi⟩
      next r rest hlist =>
        refine ⟨?_, hi⟩
        show s.pending - 1 = (rest.length : Int)
        rw [hp, hlist, List.length_cons]
        omega
  | numbered r wrId =>
      simp only [workStep]
      split_ifs
      · exact ⟨hp, hi⟩
      · -- tracked now, and not counted yet
        refine ⟨hp, ?_⟩
        show s.inflight + 1 = ((s.inflightReqs.store wrId r).entries.length : Int) + 0 +
          s.cleaner.overcounted
        rw [s.inflightReqs.length_store htracks.2]
        have hi' : s.inflight + 0 =
          (s.inflightReqs.entries.length : Int) + 0 + s.cleaner.overcounted := hi
        omega
  | stored r wrId =>
      refine ⟨hp, ?_⟩
      show s.inflight + 1 + 0 = _
      exact (add_zero _).trans hi
  | counted r wrId =>
      simp only [workStep]
      split_ifs <;> exact ⟨hp, hi⟩
  | postFailed r wrId rc =>
      -- out of `inflight_reqs`, and still counted
      refine ⟨hp, ?_⟩
      show s.inflight + 0 = ((s.inflightReqs.erase wrId).entries.length : Int) + 1 +
        s.cleaner.overcounted
      have hi' : s.inflight + 0 =
        (s.inflightReqs.entries.length : Int) + 0 + s.cleaner.overcounted := hi
      rw [s.inflightReqs.length_erase htracks] at hi'
      omega
  | erased r rc =>
      refine ⟨hp, ?_⟩
      show s.inflight - 1 + 0 = (s.inflightReqs.entries.length : Int) + 0 + s.cleaner.overcounted
      have hi' : s.inflight + 0 =
        (s.inflightReqs.entries.length : Int) + 1 + s.cleaner.overcounted := hi
      omega
  | popped r => exact ⟨hp, hi⟩
  | failing r rc => exact ⟨hp, hi⟩
  | putting r => exact ⟨hp, hi⟩

theorem CleanMove.counters (h : CleanMove s s.cleaner t) (hc : CleanOk s) (hs : Counters s) :
    Counters t := by
  obtain ⟨hp, hi⟩ := hs
  have hremaining := hc.remaining
  generalize hcpc : s.cleaner = cpc at h hi hremaining
  cases h with
  | splice => exact ⟨rfl, hi⟩
  | @erase index r l =>
      refine ⟨hp, ?_⟩
      show s.inflight + s.worker.uncounted =
        ((s.inflightReqs.erase index).entries.length : Int) + s.worker.overcounted + 1
      have hi' : s.inflight + s.worker.uncounted =
        (s.inflightReqs.entries.length : Int) + s.worker.overcounted + 0 := hi
      rw [s.inflightReqs.length_erase hremaining.1] at hi'
      omega
  | @uncount index l =>
      refine ⟨hp, ?_⟩
      show s.inflight - 1 + s.worker.uncounted =
        (s.inflightReqs.entries.length : Int) + s.worker.overcounted + 0
      have hi' : s.inflight + s.worker.uncounted =
        (s.inflightReqs.entries.length : Int) + s.worker.overcounted + 1 := hi
      omega
  | gone =>
      -- `xa_destroy` finds an empty array
      have hempty : s.inflightReqs.entries = [] := hremaining
      refine ⟨hp, ?_⟩
      rw [hempty] at hi
      exact hi
  | _ => exact ⟨hp, hi⟩

theorem Counters.step (hs : Counters s) (hinv : Inv s) (h : step dev s a = some t) :
    Counters t := by
  cases step_move h with
  | enter args => exact ⟨hs.pending_eq, hs.inflight_eq⟩
  | sub ok hpc hmove => exact hmove.counters hs
  | start hidle hqueued =>
      refine ⟨hs.pending_eq, ?_⟩
      have hi := hs.inflight_eq
      rw [hidle] at hi
      exact hi
  | work rc hrun => exact workStep_counters rc hrun hinv.work hs
  | clean hmove => exact hmove.counters hinv.clean hs

theorem counters_initIoQueue (allocated : Bool) : Counters (initIoQueue allocated).2 :=
  ⟨rfl, rfl⟩

/-! ### The occupancy -/

/-- The step puts a request on the list. -/
def accepts (dev : Dev) (s : St) : Action → Bool
  | .sub c _ =>
      match s.subs[c]? with
      | some .allocated => !s.stopping && !queueFull dev s.pending s.inflight
      | _ => false
  | _ => false

/-- What a step that accepts a request does to the counters. -/
structure Accepted (dev : Dev) (s t : St) : Prop where
  running : s.stopping = false
  notFull : queueFull dev s.pending s.inflight = false
  pending_eq : t.pending = s.pending + 1
  inflight_eq : t.inflight = s.inflight
  worker_eq : t.worker = s.worker
  cleaner_eq : t.cleaner = s.cleaner

theorem accepted_of_accepts (hacc : accepts dev s a = true) (h : step dev s a = some t) :
    Accepted dev s t := by
  cases a with
  | sub c ok =>
      obtain ⟨pc, hpc, hstep⟩ := Option.bind_eq_some_iff.mp h
      simp only [accepts, hpc] at hacc
      split at hacc
      next heq =>
        obtain rfl := Option.some.inj heq
        obtain ⟨hstop, hfull⟩ : s.stopping = false ∧
            queueFull dev s.pending s.inflight = false := by simpa using hacc
        simp only [submitStep, submitLocked, hstop, hfull, Bool.false_eq_true, if_false,
          Option.some.injEq] at hstep
        subst hstep
        exact ⟨hstop, hfull, rfl, rfl, rfl, rfl⟩
      next => cases hacc
  | _ => cases hacc

theorem SubMove.occupancy {c : ReqId} {pc : SubPc} (h : SubMove dev s c pc t) (ok : Bool)
    (hpc : s.subs[c]? = some pc) :
    t.occupancy ≤ s.occupancy ∨ accepts dev s (.sub c ok) = true := by
  cases h with
  | accept hstop hfull =>
      right
      simp only [accepts, hpc, hstop, hfull]
      rfl
  | wake =>
      left
      unfold St.queueWork
      split_ifs <;> exact Int.le_refl _
  | _ => exact .inl (Int.le_refl _)

theorem workStep_occupancy {run : Nat} {wpc : WorkPc} (rc : Int)
    (hrun : s.worker = .running run wpc) :
    (workStep dev s run rc wpc).occupancy ≤ s.occupancy := by
  have hs : s.occupancy = s.pending + s.inflight + (Worker.running run wpc).gap := by
    rw [← hrun]
    rfl
  rw [hs]
  cases wpc with
  | head =>
      simp only [workStep]
      split_ifs <;> exact Int.le_refl _
  | depth =>
      simp only [workStep]
      split_ifs <;> exact Int.le_refl _
  | pop =>
      simp only [workStep]
      split
      · exact Int.le_refl _
      · -- from the list into the gap
        show s.pending - 1 + s.inflight + 1 ≤ s.pending + s.inflight + 0
        omega
  | numbered r wrId =>
      simp only [workStep]
      split_ifs
      · show s.pending + s.inflight + 0 ≤ s.pending + s.inflight + 1
        omega
      · exact Int.le_refl _
  | stored r wrId =>
      -- out of the gap
      show s.pending + (s.inflight + 1) + 0 ≤ s.pending + s.inflight + 1
      omega
  | counted r wrId =>
      simp only [workStep]
      split_ifs <;> exact Int.le_refl _
  | erased r rc =>
      show s.pending + (s.inflight - 1) + 0 ≤ s.pending + s.inflight + 0
      omega
  | popped r => exact Int.le_refl _
  | postFailed r wrId rc => exact Int.le_refl _
  | failing r rc => exact Int.le_refl _
  | putting r => exact Int.le_refl _

theorem CleanMove.occupancy {cpc : CleanPc} (h : CleanMove s cpc t) (hs : Counters s) :
    t.occupancy ≤ s.occupancy := by
  cases h with
  | splice =>
      have hp := hs.pending_eq
      show 0 + s.inflight + (s.worker.gap : Int) ≤ s.pending + s.inflight + s.worker.gap
      omega
  | uncount =>
      show s.pending + (s.inflight - 1) + (s.worker.gap : Int) ≤
        s.pending + s.inflight + s.worker.gap
      omega
  | _ => exact Int.le_refl _

/-- **Only an accepted submission adds to the occupancy.** -/
theorem occupancy_step (hs : Counters s) (h : step dev s a = some t) :
    t.occupancy ≤ s.occupancy ∨ accepts dev s a = true := by
  cases step_move h with
  | enter args => exact .inl (Int.le_refl _)
  | sub ok hpc hmove => exact hmove.occupancy ok hpc
  | start hidle hqueued =>
      left
      show s.pending + s.inflight + (0 : Nat) ≤ s.pending + s.inflight + (s.worker.gap : Int)
      omega
  | work rc hrun => exact .inl (workStep_occupancy rc hrun)
  | clean hmove => exact .inl (hmove.occupancy hs)

/-! ### The bound -/

/-- The bound of the queue: on the requests and on the two counters. -/
def DepthOk (dev : Dev) (s : St) : Prop :=
  s.load ≤ dev.queueDepth.toNat ∧ s.pending + s.inflight ≤ dev.queueDepth.toNat

/-- No submission is accepted on the last free place while the worker has a
request between the two counters. -/
def NoGapAccept (dev : Dev) (s : St) (a : Action) : Prop :=
  accepts dev s a = true → s.worker.gap ≠ 0 →
    s.pending + s.inflight + 1 < dev.queueDepth.toNat

instance (dev : Dev) (s : St) (a : Action) : Decidable (NoGapAccept dev s a) :=
  inferInstanceAs (Decidable (_ → _ → _))

/-- The invariant of the runs without such a submission. -/
structure Bounded (dev : Dev) (s : St) : Prop where
  inv : Inv s
  counters : Counters s
  occupancy_le : s.occupancy ≤ dev.queueDepth.toNat

theorem asUnsigned_of_le {v : Int} {d : UInt32} (h₀ : 0 ≤ v) (h : v ≤ d.toNat) :
    (asUnsigned v : Int) = v := by
  have hd := d.toNat_lt
  unfold asUnsigned
  omega

theorem Worker.gap_le (w : Worker) : w.gap ≤ 1 := by
  rcases w with - | ⟨run, pc⟩
  · exact Nat.zero_le _
  · cases pc <;> first | exact Nat.zero_le _ | exact Nat.le_refl _

/-- In a gap nothing is counted that is gone. -/
theorem Worker.overcounted_of_gap {w : Worker} (h : w.gap ≠ 0) : w.overcounted = 0 := by
  rcases w with - | ⟨run, pc⟩
  · rfl
  · cases pc <;> first | rfl | exact absurd rfl h

namespace Bounded

theorem sum_nonneg (h : Bounded dev s) : 0 ≤ s.pending + s.inflight := by
  have hsum := h.counters.occupancy_eq
  have hgap := s.worker.gap_le
  have hload : (s.load : Int) ≥ s.worker.untracked := by
    simp only [St.load, Nat.cast_add]
    omega
  have htracked : s.worker.uncounted ≤ s.inflightReqs.entries.length := by
    -- a request that is stored is in the array
    have htracks := h.inv.work.tracks
    rcases e : s.worker with - | ⟨run, pc⟩
    · exact Nat.zero_le _
    · rw [e] at htracks
      cases pc <;> first | exact List.length_pos_of_mem htracks | exact Nat.zero_le _
  have hi := h.counters.inflight_eq
  have hp := h.counters.pending_eq
  omega

theorem depthOk (h : Bounded dev s) : DepthOk dev s := by
  have hsum := h.counters.occupancy_eq
  have hle := h.occupancy_le
  refine ⟨?_, ?_⟩
  · omega
  · simp only [St.occupancy] at hle
    omega

/-- A submission that finds the queue not full. -/
theorem lt_depth (h : Bounded dev s) (hfull : queueFull dev s.pending s.inflight = false) :
    s.pending + s.inflight < dev.queueDepth.toNat := by
  have hle := h.depthOk.2
  have huns := asUnsigned_of_le h.sum_nonneg hle
  simp only [queueFull, decide_eq_false_iff_not] at hfull
  omega

theorem step (h : Bounded dev s) (hok : NoGapAccept dev s a)
    (hstep : DirectIo.step dev s a = some t) : Bounded dev t := by
  refine ⟨h.inv.step hstep, h.counters.step h.inv hstep, ?_⟩
  rcases occupancy_step h.counters hstep with hle | hacc
  · exact hle.trans h.occupancy_le
  · have hmove := accepted_of_accepts hacc hstep
    have hlt := h.lt_depth hmove.notFull
    have hgap := s.worker.gap_le
    simp only [St.occupancy, hmove.pending_eq, hmove.inflight_eq, hmove.worker_eq]
    by_cases hzero : s.worker.gap = 0
    · rw [hzero]
      omega
    · have hroom := hok hacc hzero
      omega

/-- **A submission accepted in the gap breaks the bound.** -/
theorem noGapAccept_of_depthOk (h : Bounded dev s) (hstep : DirectIo.step dev s a = some t)
    (ht : DepthOk dev t) : NoGapAccept dev s a := by
  intro hacc hgap
  have hmove := accepted_of_accepts hacc hstep
  -- the cleanup has not started and the worker overcounts nothing
  have hcleaner : s.cleaner = .idle := by
    by_contra hne
    exact absurd (h.inv.clean.stopping hne) (by simp [hmove.running])
  have hocc := (h.counters.step h.inv hstep).occupancy_eq
  rw [hmove.worker_eq, hmove.cleaner_eq, hcleaner, Worker.overcounted_of_gap hgap] at hocc
  simp only [St.occupancy, hmove.pending_eq, hmove.inflight_eq, hmove.worker_eq] at hocc
  have hover : CleanPc.idle.overcounted = 0 := rfl
  have hload := ht.1
  omega

end Bounded

theorem bounded_initIoQueue (dev : Dev) (allocated : Bool) :
    Bounded dev (initIoQueue allocated).2 := by
  refine ⟨inv_initIoQueue allocated, counters_initIoQueue allocated, ?_⟩
  show (0 : Int) + 0 + 0 ≤ dev.queueDepth.toNat
  omega

/-- **The depth bounds the queue exactly in the runs without a submission in
the gap**: whatever the submitters, the worker and the cleanup do, the bound
holds in every state of the run if and only if no step accepts a request on the
last free place while the worker holds one that is in neither counter. -/
theorem throughout_depthOk_iff (dev : Dev) (allocated : Bool) (as : List Action) (s : St)
    (h : run (step dev) (initIoQueue allocated).2 as = some s) :
    Throughout (step dev) (initIoQueue allocated).2 as (DepthOk dev) ↔
      RunOk (step dev) (NoGapAccept dev) (initIoQueue allocated).2 as :=
  (runOk_iff_throughout (bounded_initIoQueue dev allocated)
    (fun _ _ _ hs hok hstep => hs.step hok hstep) (fun _ hs => hs.depthOk)
    (fun _ _ _ hs hstep ht => hs.noGapAccept_of_depthOk hstep ht) h).symm

namespace Small

/-- The device with a queue of one request. -/
def shallow : Dev := { device with queueDepth := initQueueDepth 1 }

/-- The second request comes when the first one is posted. -/
def oneByOne : List Action :=
  List.flatten [enqueue 0 ioRead, [.sub 0 true, .start], work 6, [.work (-EOPNOTSUPP)], work 4,
    enqueue 1 ioWrite]

/-- At depth one, the bound holds in the run of `oneByOne`. -/
theorem throughout_depthOk_oneByOne : ∃ s,
    run (step shallow) (initIoQueue true).2 oneByOne = some s ∧
      s.accepted = [0, 1] ∧
      Throughout (step shallow) (initIoQueue true).2 oneByOne (DepthOk shallow) := by
  obtain ⟨s, hrun, htest⟩ := exists_of_run_any (δ := step shallow) (initIoQueue true).2 oneByOne
    (fun s => s.accepted == [0, 1]) (by decide +kernel)
  refine ⟨s, hrun, by simpa using htest, ?_⟩
  exact (throughout_depthOk_iff shallow true oneByOne s hrun).mpr (by decide +kernel)

/-- The worker pops request 0, request 1 is accepted, and the worker goes on
until it has counted request 0. -/
def gap : List Action :=
  List.flatten [enqueue 0 ioRead, [.sub 0 true, .start], work 3, enqueue 1 ioWrite, work 3]

/-- At depth one, two requests are accepted and both counters are one. -/
theorem not_depthOk_gap : ∃ s,
    run (step shallow) (initIoQueue true).2 gap = some s ∧
      s.load = 2 ∧ s.pending + s.inflight = 2 ∧ ¬ DepthOk shallow s := by
  obtain ⟨s, hrun, htest⟩ := exists_of_run_any (δ := step shallow) (initIoQueue true).2 gap
    (fun s => s.load == 2 && s.pending + s.inflight == 2) (by decide +kernel)
  obtain ⟨hload, hsum⟩ : s.load = 2 ∧ s.pending + s.inflight = 2 := by simpa using htest
  refine ⟨s, hrun, hload, hsum, ?_⟩
  rintro ⟨hle, -⟩
  rw [hload] at hle
  exact absurd hle (by decide)

end Small

end DirectIo

end DirectStorage
