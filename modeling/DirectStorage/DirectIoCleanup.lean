/-
DirectStorage/DirectIoCleanup.lean

The cleanup of the direct-IO queue keeps the invariant.

When the cleanup is past the flush, the worker is idle or at its loop head
and holds nothing, so what `fail_queued` finds in `pending_list` and in
`inflight_reqs` is all there is.  Its walk over `inflight_reqs` goes up from
index 0 and leaves nothing behind (`CleanPc.Remaining`).

Main results: every step of the cleanup keeps the invariant
(`CleanMove.inv`), the invariant holds in every reachable state
(`reachable_inv`), and after `fail_queued` no request waits
(`Inv.held_of_failedQueued`).
-/
import DirectStorage.DirectIoWorker

namespace DirectStorage

namespace DirectIo

variable {dev : Dev} {s t : St} {cpc : CleanPc}

/-! ### What a step of the cleanup can do -/

/-- The steps of the cleanup, from `cpc`. -/
inductive CleanMove (s : St) : CleanPc → St → Prop
  | stop : CleanMove s .idle { s.cleanAt .stopped with stopping := true }
  | flush : CleanMove s .stopped (s.cleanAt (.flushing s.nextRun))
  | noWq : s.ioWq = .null → CleanMove s .stopped (s.cleanAt .flushed)
  | flushed {target : Nat} : s.Flushed target →
      CleanMove s (.flushing target) (s.cleanAt .flushed)
  | splice : CleanMove s .flushed
      { s.cleanAt (.collecting 0 s.pendingList) with pendingList := [], pending := 0 }
  | find {index index' : Nat} {r : ReqId} {l : List ReqId} :
      s.inflightReqs.find index = some (index', r) →
      CleanMove s (.collecting index l) (s.cleanAt (.found index' r l))
  | walked {index : Nat} {l : List ReqId} : s.inflightReqs.find index = none →
      CleanMove s (.collecting index l) (s.cleanAt (.failing l))
  | erase {index : Nat} {r : ReqId} {l : List ReqId} :
      CleanMove s (.found index r l) { s.cleanAt (.collected index (l ++ [r])) with
        inflightReqs := s.inflightReqs.erase index }
  | uncount {index : Nat} {l : List ReqId} :
      CleanMove s (.collected index l) { s.cleanAt (.collecting (index + 1) l) with
        inflight := s.inflight - 1 }
  | done {r : ReqId} {l : List ReqId} :
      CleanMove s (.failing (r :: l)) ((s.cleanAt (.putting r l)).callDone r (-ESHUTDOWN))
  | put {r : ReqId} {l : List ReqId} :
      CleanMove s (.putting r l) ((s.cleanAt (.failing l)).reqPut r)
  | drain : CleanMove s (.failing []) { s.cleanAt .draining with ioWq := .draining }
  | skip : CleanMove s (.failing []) (s.cleanAt .unset)
  | drained : s.Drained → CleanMove s .draining { s.cleanAt .destroyed with ioWq := .destroyed }
  | unset : CleanMove s .destroyed { s.cleanAt .unset with ioWq := .null }
  | gone : CleanMove s .unset { s.cleanAt .gone with inflightReqs := Xarray.empty }

/-- **What a step of the cleanup can do.** -/
theorem cleanStep_move (h : cleanStep s cpc = some t) : CleanMove s cpc t := by
  cases cpc with
  | idle =>
      cases h
      exact .stop
  | stopped =>
      simp only [cleanStep] at h
      split_ifs at h with hwq <;> cases h
      · exact .flush
      · exact .noWq (by simpa using hwq)
  | flushing target =>
      simp only [cleanStep] at h
      split_ifs at h with hflushed
      cases h
      exact .flushed hflushed
  | flushed =>
      cases h
      exact .splice
  | collecting index l =>
      simp only [cleanStep] at h
      split at h
      next hfind =>
        cases h
        exact .walked hfind
      next index' r hfind =>
        cases h
        exact .find hfind
  | found index r l =>
      cases h
      exact .erase
  | collected index l =>
      cases h
      exact .uncount
  | failing l =>
      cases l with
      | nil =>
          simp only [cleanStep] at h
          split_ifs at h <;> cases h
          · exact .drain
          · exact .skip
      | cons r l =>
          cases h
          exact .done
  | putting r l =>
      cases h
      exact .put
  | draining =>
      simp only [cleanStep] at h
      split_ifs at h with hdrained
      cases h
      exact .drained hdrained
  | destroyed =>
      cases h
      exact .unset
  | unset =>
      cases h
      exact .gone
  | gone => cases h

/-! ### A worker at its loop head -/

theorem Worker.hands_of_atHead {w : Worker} (h : w.atHead) : w.hands = [] := by
  rcases w with - | ⟨run, pc⟩
  · rfl
  · cases pc <;> first | rfl | cases h

theorem Worker.leaves_of_atHead {w : Worker} (h : w.atHead) (x : Xarray ReqId) :
    w.leaves x = x.values := by
  rcases w with - | ⟨run, pc⟩
  · rfl
  · cases pc <;> first | rfl | cases h

theorem Worker.tracks_of_atHead {w : Worker} (h : w.atHead) (x : Xarray ReqId) (n : Nat) :
    w.Tracks x n := by
  rcases w with - | ⟨run, pc⟩
  · trivial
  · cases pc <;> trivial

/-- From `inflight_reqs` to the fail list. -/
theorem waiting_collect {pending l : List ReqId} {w : Worker} {x : Xarray ReqId} {r : ReqId}
    {index : Nat} (h : w.atHead) (hmem : (index, r) ∈ x.entries) :
    waiting pending w (x.erase index) (l ++ [r]) = waiting pending w x l := by
  have hvalues : (↑x.values : Multiset ReqId) = r ::ₘ ↑(x.erase index).values :=
    Multiset.coe_eq_coe.mpr (x.values_erase hmem)
  unfold waiting
  rw [Worker.leaves_of_atHead h, Worker.leaves_of_atHead h, hvalues, coe_append_singleton]
  simp only [Multiset.cons_add, Multiset.add_cons]

theorem values_of_entries_eq_nil {x : Xarray ReqId} (h : x.entries = []) :
    x.values = [] := by
  show x.entries.map Prod.snd = []
  rw [h]
  rfl

/-- `xa_destroy` of an empty array. -/
theorem waiting_destroy {pending l : List ReqId} {w : Worker} {x : Xarray ReqId} (h : w.atHead)
    (hempty : x.entries = []) : waiting pending w Xarray.empty l = waiting pending w x l := by
  unfold waiting
  rw [Worker.leaves_of_atHead h, Worker.leaves_of_atHead h, values_of_entries_eq_nil hempty]
  rfl

/-! ### The books -/

theorem books_withCleaner {pc : CleanPc} (hfail : pc.failList = s.cleaner.failList)
    (hclosing : pc.closing = s.cleaner.closing) :
    St.books { s with cleaner := pc } = s.books := by
  simp only [St.books, hfail, hclosing]

theorem CleanMove.books (h : CleanMove s cpc t) (hcpc : s.cleaner = cpc) (hc : CleanOk s) :
    s.books.Step t.books := by
  have hat := hc.atHead
  have hremaining := hc.remaining
  rw [hcpc] at hat hremaining
  -- a step that leaves the fail list alone
  have hsame : ∀ pc : CleanPc, pc.failList = cpc.failList → pc.closing = cpc.closing →
      s.books.Step (St.books { s with cleaner := pc }) := by
    intro pc hfail hclosing
    rw [← hcpc] at hfail hclosing
    exact books_keep (books_withCleaner hfail hclosing)
  have hclose : s.books.closing = ↑s.worker.closing + ↑cpc.closing := by
    rw [← hcpc]
    rfl
  have hheld : s.books.held =
      waiting s.pendingList s.worker s.inflightReqs cpc.failList := by
    rw [← hcpc]
    rfl
  cases h with
  | stop => exact hsame .stopped rfl rfl
  | flush => exact hsame (.flushing _) rfl rfl
  | noWq => exact hsame .flushed rfl rfl
  | flushed => exact hsame .flushed rfl rfl
  | splice =>
      refine books_moved rfl rfl rfl rfl hclose.symm ?_
      rw [hheld]
      exact waiting_splice
  | @find _ index' r l => exact hsame (.found index' r l) rfl rfl
  | @walked _ l => exact hsame (.failing l) rfl rfl
  | @erase index r l =>
      -- from `inflight_reqs` to the fail list
      refine books_moved rfl rfl rfl rfl hclose.symm ?_
      rw [hheld]
      exact waiting_collect (hat rfl) hremaining.1
  | @uncount index l => exact hsame (.collecting (index + 1) l) rfl rfl
  | @done r l =>
      refine books_done rfl rfl rfl rfl ?_ ?_
      · rw [hclose]
        show (↑s.worker.closing + (r ::ₘ 0) : Multiset ReqId) = r ::ₘ (↑s.worker.closing + 0)
        rw [Multiset.add_cons]
      · rw [hheld]
        exact waiting_cons_fail
  | @put r l =>
      refine books_put rfl rfl rfl rfl ?_ hheld.symm
      rw [hclose]
      show (↑s.worker.closing + (r ::ₘ 0) : Multiset ReqId) = r ::ₘ (↑s.worker.closing + 0)
      rw [Multiset.add_cons]
  | drain => exact hsame .draining rfl rfl
  | skip => exact hsame .unset rfl rfl
  | drained => exact hsame .destroyed rfl rfl
  | unset => exact hsame .unset rfl rfl
  | gone =>
      -- `xa_destroy` finds an empty array
      refine books_moved rfl rfl rfl rfl hclose.symm ?_
      rw [hheld]
      exact waiting_destroy (hat rfl) hremaining

/-! ### The invariant -/

theorem CleanMove.subOk (h : CleanMove s cpc t) (hcpc : s.cleaner = cpc) (hs : Inv s) :
    SubOk t := by
  cases h with
  | @put r l =>
      have hmem : r ∈ s.books.closing := by
        simp [St.books, hcpc, CleanPc.closing]
      refine ⟨hs.sub.accepted_eq, hs.sub.rejected_ne, ?_⟩
      exact refs_reqPut (s := s.cleanAt (.failing l)) (mem_heap_of_closing hs.balanced hmem)
        hs.sub.refs_eq
  | _ => exact ⟨hs.sub.accepted_eq, hs.sub.rejected_ne, hs.sub.refs_eq⟩

theorem drained_iff : s.Drained ↔ s.queued = none ∧ s.worker = .idle := by
  unfold St.Drained
  rcases s.worker with - | ⟨run, pc⟩ <;> simp

theorem CleanMove.workOk (h : CleanMove s cpc t) (hcpc : s.cleaner = cpc) (hw : WorkOk s)
    (hc : CleanOk s) : WorkOk t := by
  have hat := hc.atHead
  rw [hcpc] at hat
  cases h with
  | erase =>
      refine ⟨?_, Worker.tracks_of_atHead (hat rfl) _ _, hw.queued_lt, hw.running_lt, hw.drained⟩
      intro e he
      exact hw.keys_le e (s.inflightReqs.mem_erase.mp he).1
  | drain =>
      refine ⟨hw.keys_le, hw.tracks, hw.queued_lt, hw.running_lt, ?_⟩
      rintro (h | h) <;> cases h
  | drained hdrained =>
      exact ⟨hw.keys_le, hw.tracks, hw.queued_lt, hw.running_lt,
        fun _ => drained_iff.mp hdrained⟩
  | unset =>
      exact ⟨hw.keys_le, hw.tracks, hw.queued_lt, hw.running_lt,
        fun _ => hw.drained (.inr (hc.destroyed hcpc))⟩
  | gone =>
      refine ⟨?_, Worker.tracks_of_atHead (hat rfl) _ _, hw.queued_lt, hw.running_lt, hw.drained⟩
      intro e he
      cases he
  | _ => exact ⟨hw.keys_le, hw.tracks, hw.queued_lt, hw.running_lt, hw.drained⟩

/-- When the flush returns, what runs is a late run. -/
theorem atHead_of_flushed {target : Nat} (hc : CleanOk s) (hcpc : s.cleaner = .flushing target)
    (h : s.Flushed target) : s.worker.atHead := by
  rcases e : s.worker with - | ⟨run, pc⟩
  · rfl
  · have hle : target ≤ run := by
      simp only [St.Flushed, e, Bool.and_eq_true, decide_eq_true_eq] at h
      exact h.2
    rw [hc.late target hcpc run pc e hle]
    rfl

theorem CleanPc.pastFlush_of_pastSplice {pc : CleanPc} (h : pc.pastSplice) :
    pc.pastFlush ∧ pc ≠ .idle := by
  cases pc <;> first | exact ⟨rfl, by simp⟩ | cases h

/-- Past the splice, the walk over `inflight_reqs` is all there is to check. -/
theorem CleanOk.walk (hc : CleanOk s) (hpast : s.cleaner.pastSplice)
    (hstopping : t.stopping = s.stopping) (hworker : t.worker = s.worker)
    (hpending : t.pendingList = s.pendingList) (hpast' : t.cleaner.pastSplice)
    (hremaining : t.cleaner.Remaining t.inflightReqs)
    (hdestroyed : t.cleaner = .destroyed → t.ioWq = .destroyed) : CleanOk t := by
  obtain ⟨hflush, hidle⟩ := CleanPc.pastFlush_of_pastSplice hpast
  refine ⟨?_, ?_, ?_, ?_, hremaining, hdestroyed⟩
  · rw [hstopping]
    exact fun _ => hc.stopping hidle
  · intro target htarget
    rw [htarget] at hpast'
    cases hpast'
  · rw [hworker]
    exact fun _ => hc.atHead hflush
  · rw [hpending]
    exact fun _ => hc.spliced hpast

theorem CleanMove.cleanOk (h : CleanMove s cpc t) (hcpc : s.cleaner = cpc) (hw : WorkOk s)
    (hc : CleanOk s) : CleanOk t := by
  have hstop := hc.stopping
  have hat := hc.atHead
  have hremaining := hc.remaining
  have hpast : cpc.pastSplice → s.cleaner.pastSplice := by
    rw [hcpc]
    exact id
  rw [hcpc] at hstop hat hremaining
  cases h with
  | stop =>
      refine ⟨fun _ => rfl, ?_, ?_, ?_, trivial, ?_⟩
      · rintro target ⟨⟩
      · rintro ⟨⟩
      · rintro ⟨⟩
      · rintro ⟨⟩
  | flush =>
      refine ⟨fun _ => hstop (by simp), ?_, ?_, ?_, trivial, ?_⟩
      · -- every run so far is below the target
        rintro target ⟨⟩ run pc hrun hle
        exact absurd (hw.running_lt run pc hrun) (Nat.not_lt.mpr hle)
      · rintro ⟨⟩
      · rintro ⟨⟩
      · rintro ⟨⟩
  | noWq hwq =>
      have hhead : s.worker.atHead := by
        rw [(hw.drained (.inl hwq)).2]
        rfl
      refine ⟨fun _ => hstop (by simp), ?_, fun _ => hhead, ?_, trivial, ?_⟩
      · rintro target ⟨⟩
      · rintro ⟨⟩
      · rintro ⟨⟩
  | flushed hflushed =>
      have hhead : s.worker.atHead := atHead_of_flushed hc hcpc hflushed
      refine ⟨fun _ => hstop (by simp), ?_, fun _ => hhead, ?_, trivial, ?_⟩
      · rintro target ⟨⟩
      · rintro ⟨⟩
      · rintro ⟨⟩
  | splice =>
      refine ⟨fun _ => hstop (by simp), ?_, fun _ => hat rfl, fun _ => rfl, ?_, ?_⟩
      · rintro target ⟨⟩
      · exact fun e _ => Nat.zero_le e.1
      · rintro ⟨⟩
  | find hfind =>
      obtain ⟨hmem, hfirst⟩ := Xarray.find_some hfind
      refine hc.walk (hpast rfl) rfl rfl rfl rfl ?_ (by rintro ⟨⟩)
      exact ⟨hmem, fun e he => hfirst e he (hremaining e he)⟩
  | walked hfind =>
      refine hc.walk (hpast rfl) rfl rfl rfl rfl ?_ (by rintro ⟨⟩)
      -- every index is at least the one the walk is at, and below it
      refine List.eq_nil_iff_forall_not_mem.mpr ?_
      intro e he
      exact absurd (Xarray.find_none hfind e he) (Nat.not_lt.mpr (hremaining e he))
  | erase =>
      refine hc.walk (hpast rfl) rfl rfl rfl rfl ?_ (by rintro ⟨⟩)
      intro e he
      obtain ⟨hmem, hne⟩ := s.inflightReqs.mem_erase.mp he
      exact Nat.lt_of_le_of_ne (hremaining.2 e hmem) (Ne.symm hne)
  | drained => exact hc.walk (hpast rfl) rfl rfl rfl rfl hremaining fun _ => rfl
  | gone => exact hc.walk (hpast rfl) rfl rfl rfl rfl rfl (by rintro ⟨⟩)
  | _ => exact hc.walk (hpast rfl) rfl rfl rfl rfl hremaining (by rintro ⟨⟩)

theorem CleanMove.inv (h : CleanMove s cpc t) (hcpc : s.cleaner = cpc) (hs : Inv s) : Inv t :=
  ⟨h.subOk hcpc hs, h.workOk hcpc hs.work hs.clean, h.cleanOk hcpc hs.work hs.clean,
    hs.balanced.step (h.books hcpc hs.clean)⟩

/-! ### Reachable states -/

theorem inv_initIoQueue (allocated : Bool) : Inv (initIoQueue allocated).2 := by
  refine ⟨⟨rfl, ?_, rfl⟩, ⟨?_, trivial, ?_, ?_, fun _ => ⟨rfl, rfl⟩⟩,
    ⟨?_, ?_, ?_, ?_, trivial, ?_⟩, ⟨rfl, rfl, ?_⟩⟩
  · rintro c rc ⟨⟩
  · rintro e ⟨⟩
  · rintro run ⟨⟩
  · rintro run pc ⟨⟩
  · exact fun h => absurd rfl h
  · rintro target ⟨⟩
  · rintro ⟨⟩
  · rintro ⟨⟩
  · rintro ⟨⟩
  · exact Multiset.nodup_zero

/-- The steps of the system. -/
inductive StepMove (dev : Dev) (s : St) : Action → St → Prop
  | enter (args : SubmitArgs) :
      StepMove dev s (.submit args) { s with subs := s.subs ++ [submitEntry s.stopping args] }
  | sub {c : ReqId} {pc : SubPc} {t : St} (ok : Bool) : s.subs[c]? = some pc →
      SubMove dev s c pc t → StepMove dev s (.sub c ok) t
  | start {run : Nat} : s.worker = .idle → s.queued = some run →
      StepMove dev s .start { s with worker := .running run .head, queued := none }
  | work {run : Nat} {wpc : WorkPc} (rc : Int) : s.worker = .running run wpc →
      StepMove dev s (.work rc) (workStep dev s run rc wpc)
  | clean {t : St} : CleanMove s s.cleaner t → StepMove dev s .clean t

/-- **What a step of the system can do.** -/
theorem step_move {a : Action} (h : step dev s a = some t) : StepMove dev s a t := by
  cases a with
  | submit args =>
      cases h
      exact .enter args
  | sub c ok =>
      obtain ⟨pc, hpc, hstep⟩ := Option.bind_eq_some_iff.mp h
      exact .sub ok hpc (submitStep_move hstep)
  | start =>
      simp only [step, workStart] at h
      split at h
      next run hidle hqueued =>
        cases h
        exact .start hidle hqueued
      next => cases h
  | work rc =>
      rcases e : s.worker with - | ⟨run, wpc⟩ <;> simp only [step, e] at h <;> cases h
      exact .work rc e
  | clean => exact .clean (cleanStep_move h)

/-- **One step keeps the invariant.** -/
theorem Inv.step {a : Action} (hs : Inv s) (h : step dev s a = some t) : Inv t := by
  cases step_move h with
  | enter args => exact hs.submit (outside_submitEntry _ _)
  | sub ok hpc hmove => exact hmove.inv hpc hs
  | start hidle hqueued => exact hs.workStart hidle hqueued
  | work rc hrun => exact hs.work_step rc hrun
  | clean hmove => exact hmove.inv rfl hs

/-- **The invariant holds in every reachable state.** -/
theorem reachable_inv {allocated : Bool} {as : List Action}
    (h : run (DirectIo.step dev) (initIoQueue allocated).2 as = some s) : Inv s :=
  run_invariant (inv_initIoQueue allocated) (fun _ _ _ hs _ => hs.step) (runOk_trivial _ as) h

/-- **After `fail_queued` no request waits anywhere.** -/
theorem Inv.held_of_failedQueued (hs : Inv s) (h : s.cleaner.failedQueued) :
    s.books.held = 0 := by
  have hfacts : s.cleaner.pastFlush = true ∧ s.cleaner.pastSplice = true ∧
      s.cleaner.failList = [] ∧ s.inflightReqs.entries = [] := by
    have hremaining := hs.clean.remaining
    rcases e : s.cleaner with _ | _ | _ | _ | _ | _ | _ | (_ | _) | _ | _ | _ | _ | _ <;>
      rw [e] at h hremaining <;> first | exact ⟨rfl, rfl, rfl, hremaining⟩ | cases h
  obtain ⟨hflush, hsplice, hfail, hentries⟩ := hfacts
  have hat := hs.clean.atHead hflush
  show waiting s.pendingList s.worker s.inflightReqs s.cleaner.failList = 0
  unfold waiting
  rw [hs.clean.spliced hsplice, Worker.hands_of_atHead hat, Worker.leaves_of_atHead hat,
    values_of_entries_eq_nil hentries, hfail]
  rfl

end DirectIo

end DirectStorage
