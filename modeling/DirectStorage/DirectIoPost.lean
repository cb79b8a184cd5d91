/-
DirectStorage/DirectIoPost.lean

The direct-IO queue when every post fails, as it does with the driver's own
`urma_blkdev_post_jetty_wr`.

In such a queue (`FailsFast`) `inflight_reqs` holds only the request in the
worker's hands: it is stored before the post and erased after it, and the
cleanup, which walks the array after the flush, finds it empty.  Every callback
gets an error.

A request that a successful post leaves in `inflight_reqs` waits there for the
cleanup.  Here none does: every step of the worker lowers `workLeft`, and when the
worker rests while the device is in use, nothing waits anywhere
(`FailsFast.rests`).  A request on the list would have woken the worker
(`Awake`), since `inflight` is 0 and below the depth.
-/
import DirectStorage.DirectIoWake

namespace DirectStorage

namespace DirectIo

variable {dev : Dev} {s t : St} {a : Action}

/-! ### The invariant -/

/-- What the request in the worker's hands leaves in `inflight_reqs`. -/
def Worker.tracked : Worker → List (Nat × ReqId)
  | .running _ (.stored r wrId) | .running _ (.counted r wrId)
  | .running _ (.postFailed r wrId _) => [(wrId, r)]
  | _ => []

/-- The code that the worker is going to complete its request with. -/
def Worker.code : Worker → Option Int
  | .running _ (.postFailed _ _ rc) | .running _ (.erased _ rc) | .running _ (.failing _ rc) =>
      some rc
  | _ => none

/-- The worker is about to post. -/
def Worker.posting : Worker → Bool
  | .running _ (.counted _ _) => true
  | _ => false

/-- No code is positive, and the post fails. -/
def PostFails (s : St) : Action → Prop
  | .work rc => rc ≤ 0 ∧ (s.worker.posting → rc ≠ 0)
  | _ => True

/-- What holds of a queue whose posts fail. -/
structure FailsFast (s : St) : Prop where
  alone : s.inflightReqs.entries = s.worker.tracked
  code_neg : ∀ rc ∈ s.worker.code, rc < 0
  done_neg : ∀ e ∈ s.done, e.2 < 0

/-- A step that leaves the worker, `inflight_reqs` and the completions alone. -/
theorem FailsFast.congr (hs : FailsFast s) (hworker : t.worker = s.worker)
    (hreqs : t.inflightReqs = s.inflightReqs) (hdone : t.done = s.done) : FailsFast t := by
  refine ⟨?_, ?_, ?_⟩
  · rw [hreqs, hworker]
    exact hs.alone
  · rw [hworker]
    exact hs.code_neg
  · rw [hdone]
    exact hs.done_neg

theorem code_neg_of_none {w : Worker} (h : w.code = none) : ∀ rc ∈ w.code, rc < 0 := by
  rw [h]
  exact fun rc hrc => absurd hrc (Option.not_mem_none rc)

/-- The worker's request is stored into an empty array and erased from it before
it is completed. -/
theorem FailsFast.work {run : Nat} {wpc : WorkPc} {rc : Int} (hs : FailsFast s)
    (hrun : s.worker = .running run wpc) (hok : PostFails s (.work rc)) :
    FailsFast (workStep dev s run rc wpc) := by
  have halone := hs.alone
  have hcode := hs.code_neg
  rw [hrun] at halone hcode
  cases wpc with
  | head =>
      simp only [workStep]
      split_ifs
      · exact ⟨halone, code_neg_of_none rfl, hs.done_neg⟩
      · exact ⟨halone, code_neg_of_none rfl, hs.done_neg⟩
  | depth =>
      simp only [workStep]
      split_ifs
      · exact ⟨halone, code_neg_of_none rfl, hs.done_neg⟩
      · exact ⟨halone, code_neg_of_none rfl, hs.done_neg⟩
  | pop =>
      simp only [workStep]
      split
      · exact ⟨halone, code_neg_of_none rfl, hs.done_neg⟩
      · exact ⟨halone, code_neg_of_none rfl, hs.done_neg⟩
  | popped r => exact ⟨halone, code_neg_of_none rfl, hs.done_neg⟩
  | numbered r wrId =>
      simp only [workStep]
      split_ifs with hrc
      · refine ⟨halone, ?_, hs.done_neg⟩
        rintro _ ⟨⟩
        exact lt_of_le_of_ne hok.1 hrc
      · refine ⟨?_, code_neg_of_none rfl, hs.done_neg⟩
        show Xarray.insertAt wrId r s.inflightReqs.entries = [(wrId, r)]
        rw [halone]
        rfl
  | stored r wrId => exact ⟨halone, code_neg_of_none rfl, hs.done_neg⟩
  | counted r wrId =>
      have hne : rc ≠ 0 := hok.2 (by rw [hrun]; rfl)
      simp only [workStep, if_pos hne]
      refine ⟨halone, ?_, hs.done_neg⟩
      rintro _ ⟨⟩
      exact lt_of_le_of_ne hok.1 hne
  | postFailed r wrId code =>
      refine ⟨?_, hcode, hs.done_neg⟩
      show s.inflightReqs.entries.filter _ = []
      rw [halone]
      simp [Worker.tracked]
  | erased r code => exact ⟨halone, hcode, hs.done_neg⟩
  | failing r code =>
      refine ⟨halone, code_neg_of_none rfl, ?_⟩
      intro e he
      rcases List.mem_append.mp he with he | he
      · exact hs.done_neg e he
      · obtain rfl := List.mem_singleton.mp he
        exact hcode code rfl
  | putting r => exact ⟨halone, code_neg_of_none rfl, hs.done_neg⟩

theorem Worker.tracked_of_atHead {w : Worker} (h : w.atHead) : w.tracked = [] := by
  rcases w with - | ⟨run, wpc⟩
  · rfl
  · cases wpc <;> first | rfl | cases h

/-- The cleanup finds `inflight_reqs` empty: it walks after the flush. -/
theorem FailsFast.clean {cpc : CleanPc} (hs : FailsFast s) (hinv : Inv s)
    (hcpc : s.cleaner = cpc) (h : CleanMove s cpc t) : FailsFast t := by
  have hempty : cpc.pastFlush = true → s.inflightReqs.entries = [] := by
    rintro hpast
    rw [← hcpc] at hpast
    rw [hs.alone, Worker.tracked_of_atHead (hinv.clean.atHead hpast)]
  cases h with
  | find hfind =>
      have hmem := (Xarray.find_some hfind).1
      rw [hempty rfl] at hmem
      cases hmem
  | erase =>
      have hmem := hinv.clean.remaining
      rw [hcpc] at hmem
      have hmem := hmem.1
      rw [hempty rfl] at hmem
      cases hmem
  | done =>
      refine ⟨hs.alone, hs.code_neg, ?_⟩
      intro e he
      rcases List.mem_append.mp he with he | he
      · exact hs.done_neg e he
      · obtain rfl := List.mem_singleton.mp he
        show -ESHUTDOWN < 0
        decide
  | gone =>
      refine ⟨?_, hs.code_neg, hs.done_neg⟩
      show [] = s.worker.tracked
      rw [← hs.alone, hempty rfl]
  | _ => exact hs.congr rfl rfl rfl

/-- **One step keeps the queue empty-handed.** -/
theorem FailsFast.step (hs : FailsFast s) (hinv : Inv s) (hok : PostFails s a)
    (h : DirectIo.step dev s a = some t) : FailsFast t := by
  cases step_move h with
  | enter args => exact hs.congr rfl rfl rfl
  | sub ok hpc hmove =>
      cases hmove with
      | wake =>
          unfold St.queueWork
          split_ifs <;> exact hs.congr rfl rfl rfl
      | _ => exact hs.congr rfl rfl rfl
  | start hidle hqueued =>
      refine ⟨?_, code_neg_of_none rfl, hs.done_neg⟩
      have halone := hs.alone
      rw [hidle] at halone
      exact halone
  | work rc hrun => exact hs.work hrun hok
  | clean hmove => exact hs.clean hinv rfl hmove

/-! ### The worker comes to rest -/

/-- How far the worker is from the end of its run when the list is empty. -/
def WorkPc.toGo : WorkPc → Nat
  | .pop => 1
  | .depth => 2
  | .head => 3
  | .putting _ => 4
  | .failing _ _ => 5
  | .erased _ _ => 6
  | .postFailed _ _ _ => 7
  | .counted _ _ => 8
  | .stored _ _ => 9
  | .numbered _ _ => 10
  | .popped _ => 11

def Worker.toGo : Worker → Nat
  | .idle => 0
  | .running _ wpc => wpc.toGo

/-- A bound on the steps the worker can take before it rests: a request on the
list is one more round, a queued run one more look. -/
def St.workLeft (s : St) : Nat :=
  12 * s.pendingList.length + s.worker.toGo + if s.queued.isSome then 4 else 0

def Action.byWorker : Action → Bool
  | .start | .work _ => true
  | _ => false

/-- **Every step of the worker brings it closer to its rest.** -/
theorem workLeft_lt (ha : a.byWorker) (h : DirectIo.step dev s a = some t) :
    t.workLeft < s.workLeft := by
  cases step_move h with
  | enter args => cases ha
  | sub ok hpc hmove => cases ha
  | clean hmove => cases ha
  | start hidle hqueued =>
      simp [St.workLeft, hidle, hqueued, Worker.toGo, WorkPc.toGo]
  | @work run wpc rc hrun =>
      have hqueued := (workStep_frame dev s run rc wpc).2.2.1
      unfold St.workLeft
      rw [hqueued, hrun]
      -- off the queued run, which a step of the worker does not see
      refine Nat.add_lt_add_right ?_ _
      cases wpc with
      | head =>
          simp only [workStep]
          split_ifs <;> simp [St.workAt, Worker.toGo, WorkPc.toGo]
      | depth =>
          simp only [workStep]
          split_ifs <;> simp [St.workAt, Worker.toGo, WorkPc.toGo]
      | pop =>
          simp only [workStep]
          split
          next hnil => simp [Worker.toGo, WorkPc.toGo]
          next r rest hcons =>
            simp only [hcons, St.workAt, Worker.toGo, WorkPc.toGo, List.length_cons]
            omega
      | numbered r wrId =>
          simp only [workStep]
          split_ifs <;> simp [St.workAt, Worker.toGo, WorkPc.toGo]
      | counted r wrId =>
          simp only [workStep, St.workAt, Worker.toGo]
          split_ifs <;> simp [WorkPc.toGo]
      | _ => simp [workStep, St.workAt, St.callDone, St.reqPut, Worker.toGo, WorkPc.toGo]

/-- The worker is not running and not going to be. -/
def St.Rests (s : St) : Prop := s.worker = .idle ∧ s.queued = none

/-- **When the worker rests, nothing waits**: a request on the list would have
woken it, and `inflight_reqs` holds only what is in its hands. -/
theorem FailsFast.rests (hs : FailsFast s) (hwake : WakeInv dev s)
    (hdepth : 0 < dev.queueDepth.toNat) (hstop : s.stopping = false)
    (hadded : ∀ c : ReqId, s.subs[c]? ≠ some .added) (hrests : s.Rests) :
    s.pendingList = [] ∧ s.inflight = 0 ∧ ∀ c ∈ s.accepted, s.doneCount c = 1 := by
  have hcleaner : s.cleaner = .idle := by
    by_contra hne
    rw [hwake.inv.clean.stopping hne] at hstop
    cases hstop
  have hentries : s.inflightReqs.entries = [] := by
    rw [hs.alone, hrests.1]
    rfl
  have hinflight : s.inflight = 0 := by
    have heq := hwake.counters.inflight_eq
    rw [hentries, hrests.1, hcleaner] at heq
    simpa [Worker.uncounted, Worker.overcounted, CleanPc.overcounted] using heq
  have hlist : s.pendingList = [] := by
    by_contra hne
    cases hwake.awake hstop hne with
    | queued hq =>
        rw [hrests.2] at hq
        cases hq
    | running hw =>
        rw [hrests.1] at hw
        cases hw
    | added c hc => exact hadded c hc
    | full hfull => omega
  refine ⟨hlist, hinflight, ?_⟩
  intro c hc
  have hheld : s.books.held = 0 := by
    show waiting s.pendingList s.worker s.inflightReqs s.cleaner.failList = 0
    rw [hlist, hrests.1, hcleaner]
    simp [waiting, Worker.hands, Worker.leaves, Worker.storedAt, Xarray.values, hentries,
      CleanPc.failList]
  rw [← count_books_done]
  exact hwake.inv.balanced.count_done_of_held_eq_zero hheld (Multiset.mem_coe.mpr hc)

end DirectIo

end DirectStorage
