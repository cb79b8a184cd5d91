/-
DirectStorage/DirectIoOnce.lean

Exactly-once completion in the direct-IO queue.

For every run of any number of submitters, the worker and the cleanup, from
`urma_blkdev_init_io_queue` on, `ExactlyOnce` says: no request is completed
twice; when `fail_queued` has returned, every request whose submit returned 0
is completed; a request whose submit returned an error is never completed and
no step of the call touched the list, the counters or `inflight_reqs`; a
request that was accepted and is not completed is in exactly one place; and
the module references are those of the allocated requests and of the
submitters that are about to allocate one.

The accounts of the reachable states give all but the error case, which is
about the whole run: the only step of a call that changes the queue puts the
request on the list, and from then on the call cannot return an error
(`SubMove.queue_eq`, `mem_accepted_step`).

Main results: `reachable_exactlyOnce`; no request that waits is freed
(`reachable_place_allocated`), and in the end none is left
(`reachable_no_leak`).
-/
import DirectStorage.DirectIoCleanup

namespace DirectStorage

namespace DirectIo

variable {dev : Dev} {s t : St} {c : ReqId}

/-! ### The statement -/

/-- Where an accepted request can be before it is completed. -/
inductive Place where
  | pendingList
  | hands
  | inflightReqs
  | failList
  deriving DecidableEq

/-- The requests in a place.  One that is stored in `inflight_reqs` and not yet
posted is in the worker's hands. -/
def St.place (s : St) : Place → List ReqId
  | .pendingList => s.pendingList
  | .hands => s.worker.hands
  | .inflightReqs => s.worker.leaves s.inflightReqs
  | .failList => s.cleaner.failList

/-- The request is in one place, and there once. -/
def St.InOnePlace (s : St) (c : ReqId) : Prop :=
  ∃ p, (s.place p).count c = 1 ∧ ∀ q, q ≠ p → c ∉ s.place q

/-- How often `done` was called for the request. -/
def St.doneCount (s : St) (c : ReqId) : Nat := (s.done.map Prod.fst).count c

/-- The step `a` from `s` is one of call `c`. -/
def OfCall (c : ReqId) (s : St) : Action → Prop
  | .submit _ => s.subs.length = c
  | .sub d _ => d = c
  | _ => False

/-- The list, the counters and the tracked requests are the same. -/
def SameQueue (s t : St) : Prop :=
  t.pendingList = s.pendingList ∧ t.pending = s.pending ∧ t.inflight = s.inflight ∧
    t.inflightReqs = s.inflightReqs

/-- A step of call `c` that changes the queue. -/
def Disturbs (c : ReqId) (s : St) (a : Action) (t : St) : Prop :=
  OfCall c s a ∧ ¬ SameQueue s t

/-- Exactly-once completion for the run `as`, which ends in `s`. -/
structure ExactlyOnce (dev : Dev) (s₀ : St) (as : List Action) (s : St) : Prop where
  atMostOnce : ∀ c, s.doneCount c ≤ 1
  onceFailed : s.cleaner.failedQueued → ∀ c : ReqId, s.subs[c]? = some (.returned 0) →
    s.doneCount c = 1
  accepted : ∀ c : ReqId, s.subs[c]? = some (.returned 0) → c ∈ s.accepted
  rejected : ∀ (c : ReqId) (rc : Int), s.subs[c]? = some (.returned rc) → rc ≠ 0 →
    c ∉ s.accepted ∧ s.doneCount c = 0 ∧ ¬ Occurs (step dev) s₀ as (Disturbs c)
  inOnePlace : ∀ c ∈ s.accepted, s.doneCount c = 0 → s.InOnePlace c
  moduleRefs : s.moduleRefs =
    s.heap.length + (positions SubPc.hasRefOnly s.subs).card

/-! ### One state -/

theorem Inv.mem_accepted (hs : Inv s) {pc : SubPc} (hpc : s.subs[c]? = some pc) :
    c ∈ s.accepted ↔ pc.accepted := by
  rw [← Multiset.mem_coe, hs.sub.accepted_eq, Finset.mem_val, mem_positions_of_getElem? hpc]

theorem count_books_done (s : St) (c : ReqId) : s.books.done.count c = s.doneCount c := by
  show (↑(s.done.map Prod.fst) : Multiset ReqId).count c = _
  rw [Multiset.coe_count]
  rfl

theorem count_books_held (s : St) (c : ReqId) :
    s.books.held.count c = (s.place .pendingList).count c + (s.place .hands).count c +
      (s.place .inflightReqs).count c + (s.place .failList).count c := by
  show (waiting s.pendingList s.worker s.inflightReqs s.cleaner.failList).count c = _
  simp only [waiting, Multiset.count_add, Multiset.coe_count]
  rfl

/-- Waiting once is being in one place. -/
theorem inOnePlace_of_count (h : s.books.held.count c = 1) : s.InOnePlace c := by
  rw [count_books_held] at h
  -- one of the four counts is 1, and then the others are 0
  have hone : ∃ p, (s.place p).count c = 1 ∧ ∀ q, q ≠ p → (s.place q).count c = 0 := by
    by_cases h₁ : (s.place .pendingList).count c = 0
    · by_cases h₂ : (s.place .hands).count c = 0
      · by_cases h₃ : (s.place .inflightReqs).count c = 0
        · refine ⟨.failList, by omega, ?_⟩
          rintro (- | - | - | -) hq <;> first | exact absurd rfl hq | assumption
        · refine ⟨.inflightReqs, by omega, ?_⟩
          rintro (- | - | - | -) hq <;> first | exact absurd rfl hq | omega
      · refine ⟨.hands, by omega, ?_⟩
        rintro (- | - | - | -) hq <;> first | exact absurd rfl hq | omega
    · refine ⟨.pendingList, by omega, ?_⟩
      rintro (- | - | - | -) hq <;> first | exact absurd rfl hq | omega
  obtain ⟨p, hp, hothers⟩ := hone
  exact ⟨p, hp, fun q hq => List.count_eq_zero.mp (hothers q hq)⟩

theorem Inv.inOnePlace (hs : Inv s) (hc : c ∈ s.accepted) (hdone : s.doneCount c = 0) :
    s.InOnePlace c := by
  apply inOnePlace_of_count
  apply hs.balanced.count_held
  · exact Multiset.mem_coe.mpr hc
  · rw [← Multiset.count_eq_zero, count_books_done]
    exact hdone

/-! ### One call over a run -/

/-- Only the step that puts the request on the list changes the queue. -/
theorem SubMove.queue_eq {pc : SubPc} (h : SubMove dev s c pc t) (hpc : s.subs[c]? = some pc) :
    SameQueue s t ∨ ∃ pc', t.subs[c]? = some pc' ∧ pc'.accepted := by
  cases h with
  | accept =>
      right
      refine ⟨.added, ?_, rfl⟩
      show (s.subs.set c .added)[c]? = some .added
      rw [getElem?_set_eq hpc, if_pos rfl]
  | wake =>
      left
      unfold St.queueWork
      split_ifs <;> exact ⟨rfl, rfl, rfl, rfl⟩
  | _ => exact .inl ⟨rfl, rfl, rfl, rfl⟩

theorem CleanMove.accepted_eq {cpc : CleanPc} (h : CleanMove s cpc t) :
    t.accepted = s.accepted := by
  cases h <;> rfl

/-- A call that has put its request on the list stays accepted. -/
theorem mem_accepted_step {a : Action} (h : step dev s a = some t) (hc : c ∈ s.accepted) :
    c ∈ t.accepted := by
  cases step_move h with
  | enter args => exact hc
  | sub ok hpc hmove =>
      cases hmove with
      | accept => exact List.mem_append_left _ hc
      | wake =>
          unfold St.queueWork
          split_ifs <;> exact hc
      | _ => exact hc
  | start hidle hqueued => exact hc
  | work rc hrun =>
      rw [(workStep_frame dev s _ rc _).2.1]
      exact hc
  | clean hmove =>
      rw [hmove.accepted_eq]
      exact hc

/-- A step of call `c` that changes the queue accepts its request. -/
theorem Disturbs.accepted {a : Action} (hd : Disturbs c s a t) (h : step dev s a = some t)
    (hs : Inv s) : c ∈ t.accepted := by
  obtain ⟨hcall, hchanged⟩ := hd
  cases a with
  | submit args =>
      cases h
      exact absurd ⟨rfl, rfl, rfl, rfl⟩ hchanged
  | sub d ok =>
      obtain rfl : d = c := hcall
      obtain ⟨pc, hpc, hstep⟩ := Option.bind_eq_some_iff.mp h
      rcases (submitStep_move hstep).queue_eq hpc with hsame | ⟨pc', hpc', hacc⟩
      · exact absurd hsame hchanged
      · exact ((hs.step h).mem_accepted hpc').mpr hacc
  | start => exact hcall.elim
  | work rc => exact hcall.elim
  | clean => exact hcall.elim

/-- **A call that changed the queue has its request accepted**, in whatever
state the run ends. -/
theorem mem_accepted_of_disturbs {allocated : Bool} {as : List Action}
    (hrun : run (step dev) (initIoQueue allocated).2 as = some s)
    (h : Occurs (step dev) (initIoQueue allocated).2 as (Disturbs c)) : c ∈ s.accepted := by
  have hall : ∀ pre, OccursAt (step dev) (initIoQueue allocated).2 as pre (Disturbs c) →
      c ∈ s.accepted := by
    -- along the run: an occurrence is an old one or the last step
    refine run_history (P := fun as s => ∀ pre,
      OccursAt (step dev) (initIoQueue allocated).2 as pre (Disturbs c) → c ∈ s.accepted)
      ?_ ?_ (runOk_trivial _ as) hrun
    · rintro pre ⟨a, post, u, v, heq, -⟩
      simp at heq
    · intro as s a t hrun' _ ih _ ha pre hocc
      rcases hocc.of_snoc hrun' ha with hold | ⟨-, hlast⟩
      · exact mem_accepted_step ha (ih pre hold)
      · exact hlast.accepted ha (reachable_inv hrun')
  obtain ⟨pre, hpre⟩ := h
  exact hall pre hpre

/-! ### The memory of the requests -/

/-- **No request that waits is freed**: whoever takes it from its place finds it
allocated. -/
theorem reachable_place_allocated {allocated : Bool} {as : List Action}
    (h : run (step dev) (initIoQueue allocated).2 as = some s) {p : Place}
    (hc : c ∈ s.place p) : c ∈ s.heap := by
  have hs := reachable_inv h
  have hheld : c ∈ s.books.held := by
    rw [← Multiset.count_pos, count_books_held]
    have hpos : 0 < (s.place p).count c := List.count_pos_iff.mpr hc
    cases p <;> omega
  have hlive : c ∈ s.books.live := by
    rw [hs.balanced.live_eq]
    exact Multiset.mem_add.mpr (.inl (Multiset.mem_add.mpr (.inr hheld)))
  simpa [St.books] using hlive

theorem positions_eq_empty {p : SubPc → Bool} {l : List SubPc} (h : ∀ pc ∈ l, p pc = false) :
    positions p l = ∅ := by
  apply Finset.eq_empty_of_forall_notMem
  intro c hc
  obtain ⟨pc, hpc, hp⟩ := mem_positions.mp hc
  rw [h pc (List.mem_of_getElem? hpc)] at hp
  cases hp

theorem Inv.closing_of_failedQueued (hs : Inv s) (h : s.cleaner.failedQueued) :
    s.books.closing = 0 := by
  have hcleaner : s.cleaner.pastFlush = true ∧ s.cleaner.closing = [] := by
    rcases e : s.cleaner with _ | _ | _ | _ | _ | _ | _ | (_ | _) | _ | _ | _ | _ | _ <;>
      rw [e] at h <;> first | exact ⟨rfl, rfl⟩ | cases h
  have hworker : s.worker.closing = [] := by
    have hat := hs.clean.atHead hcleaner.1
    rcases e : s.worker with - | ⟨run, wpc⟩
    · rfl
    · rw [e] at hat
      cases wpc <;> first | rfl | cases hat
  show (↑s.worker.closing + ↑s.cleaner.closing : Multiset ReqId) = 0
  rw [hworker, hcleaner.2]
  rfl

/-- **Nothing leaks**: when `fail_queued` has returned and every submitter has
got rid of what it held, no request is allocated and the module can go. -/
theorem reachable_no_leak {allocated : Bool} {as : List Action}
    (h : run (step dev) (initIoQueue allocated).2 as = some s)
    (hfailed : s.cleaner.failedQueued)
    (hsubs : ∀ pc ∈ s.subs, pc.owns = false ∧ pc.hasRefOnly = false) :
    s.heap = [] ∧ s.moduleRefs = 0 := by
  have hs := reachable_inv h
  have howned : s.books.owned = 0 := by
    show (positions SubPc.owns s.subs).val = 0
    rw [positions_eq_empty fun pc hpc => (hsubs pc hpc).1]
    rfl
  have hheap : s.heap = [] := by
    have hlive := hs.balanced.live_eq
    rw [howned, hs.held_of_failedQueued hfailed, hs.closing_of_failedQueued hfailed] at hlive
    exact (Multiset.coe_eq_zero s.heap).mp hlive
  refine ⟨hheap, ?_⟩
  rw [hs.sub.refs_eq, hheap, positions_eq_empty fun pc hpc => (hsubs pc hpc).2]
  rfl

/-! ### The result -/

/-- **Exactly-once completion**, in every run of any number of submitters, the
worker and the cleanup. -/
theorem reachable_exactlyOnce (dev : Dev) (allocated : Bool) (as : List Action) (s : St)
    (h : run (step dev) (initIoQueue allocated).2 as = some s) :
    ExactlyOnce dev (initIoQueue allocated).2 as s := by
  have hs := reachable_inv h
  refine ⟨?_, ?_, ?_, ?_, ?_, hs.sub.refs_eq⟩
  · intro c
    rw [← count_books_done]
    exact hs.balanced.count_done_le c
  · intro hfailed c hc
    have hacc : c ∈ s.accepted := (hs.mem_accepted hc).mpr rfl
    rw [← count_books_done]
    exact hs.balanced.count_done_of_held_eq_zero (hs.held_of_failedQueued hfailed)
      (Multiset.mem_coe.mpr hacc)
  · intro c hc
    exact (hs.mem_accepted hc).mpr rfl
  · intro c rc hc hrc
    have hnot : c ∉ s.accepted := by
      rw [hs.mem_accepted hc]
      simpa [SubPc.accepted] using hrc
    refine ⟨hnot, ?_, fun hocc => hnot (mem_accepted_of_disturbs h hocc)⟩
    rw [← count_books_done]
    exact hs.balanced.count_done_of_not_mem fun hmem => hnot (Multiset.mem_coe.mp hmem)
  · intro c hc hdone
    exact hs.inOnePlace hc hdone

namespace Small

def device : Dev where
  ramdiskSize := 4096
  ubvaAddr := 0
  logicalBlockSize := 512
  urmaReady := true
  queueDepth := initQueueDepth 4

/-- A request for one block, in direction `dir`. -/
def args (dir : UInt32) : SubmitArgs where
  peerNull := false
  ioNull := false
  doneNull := false
  devNull := false
  jettyNull := false
  dir := dir
  lba := 0
  blockCount := 1

/-- A call that runs to the end of the locked section, as number `c`. -/
def enqueue (c : ReqId) (dir : UInt32) : List Action :=
  .submit (args dir) :: List.replicate 6 (.sub c true)

/-- `n` steps of the worker in which nothing fails. -/
def work (n : Nat) : List Action := List.replicate n (.work 0)

/-- Request 0 is posted and left in `inflight_reqs`, request 1 fails to post,
call 2 is turned away for its direction, and request 3 is on the list when the
cleanup comes; its `queue_work` is too late for the flush. -/
def trace : List Action :=
  List.flatten
    [enqueue 0 ioRead, enqueue 1 ioWrite, [.sub 0 true, .sub 1 true],
      [.submit (args 3), .sub 2 true], [.start], work 7, work 6, [.work (-EOPNOTSUPP)], work 7,
      enqueue 3 ioRead, List.replicate 4 .clean, [.sub 3 true, .start, .work 0],
      List.replicate 12 .clean]

/-- The run of `trace`: all is completed once, the cleanup's share in the order
of its list. -/
theorem exactlyOnce_trace :
    ∃ s, run (step device) (initIoQueue true).2 trace = some s ∧
      (s.cleaner.failedQueued && s.subs.map SubPc.accepted == [true, true, false, true] &&
        s.done == [(1, -EOPNOTSUPP), (3, -ESHUTDOWN), (0, -ESHUTDOWN)]) = true ∧
      ExactlyOnce device (initIoQueue true).2 trace s := by
  obtain ⟨s, hrun, htest⟩ := exists_of_run_any (δ := step device) (initIoQueue true).2 trace
    (fun s => s.cleaner.failedQueued && s.subs.map SubPc.accepted == [true, true, false, true] &&
      s.done == [(1, -EOPNOTSUPP), (3, -ESHUTDOWN), (0, -ESHUTDOWN)])
    (by decide +kernel)
  exact ⟨s, hrun, htest, reachable_exactlyOnce device true trace s hrun⟩

end Small

end DirectIo

end DirectStorage
