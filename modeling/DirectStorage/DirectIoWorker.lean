/-
DirectStorage/DirectIoWorker.lean

The worker of the direct-IO queue keeps the invariant.

A request that the worker stores in `inflight_reqs` stays in its hands until
the post has succeeded, so for the books the request moves only then; when
the post fails, the entry is erased again and the request is completed.

Main results: every step of the worker is a step of the books
(`workStep_books`), and keeps the invariant (`Inv.work_step`).
-/
import DirectStorage.DirectIoInv

namespace DirectStorage

namespace DirectIo

variable {dev : Dev} {s t : St} {run : Nat} {wpc : WorkPc}

/-! ### The books -/

theorem books_withWorker {w : Worker} (hhands : w.hands = s.worker.hands)
    (hclosing : w.closing = s.worker.closing) (hstored : w.storedAt = s.worker.storedAt) :
    St.books { s with worker := w } = s.books := by
  simp only [St.books, waiting, Worker.leaves, hhands, hclosing, hstored]

/-- **Every step of the worker is a step of the books.** -/
theorem workStep_books (rc : Int) (hrun : s.worker = .running run wpc) (hw : WorkOk s) :
    s.books.Step (workStep dev s run rc wpc).books := by
  have htracks := hw.tracks
  rw [hrun] at htracks
  -- a step after which the worker holds the same request in the same way
  have hsame : ∀ w : Worker, w.hands = (Worker.running run wpc).hands →
      w.closing = (Worker.running run wpc).closing →
      w.storedAt = (Worker.running run wpc).storedAt →
      s.books.Step (St.books { s with worker := w }) := by
    intro w hhands hclosing hstored
    rw [← hrun] at hhands hclosing hstored
    exact books_keep (books_withWorker hhands hclosing hstored)
  have hclose : s.books.closing = ↑(Worker.running run wpc).closing + ↑s.cleaner.closing := by
    rw [← hrun]
    rfl
  have hheld : s.books.held =
      waiting s.pendingList (.running run wpc) s.inflightReqs s.cleaner.failList := by
    rw [← hrun]
    rfl
  cases wpc with
  | head =>
      simp only [workStep]
      split_ifs
      · exact hsame .idle rfl rfl rfl
      · exact hsame (.running run .depth) rfl rfl rfl
  | depth =>
      simp only [workStep]
      split_ifs
      · exact hsame (.running run .pop) rfl rfl rfl
      · exact hsame .idle rfl rfl rfl
  | pop =>
      simp only [workStep]
      split
      · exact hsame .idle rfl rfl rfl
      next r rest h =>
        -- from the list into the worker's hands
        refine books_moved rfl rfl rfl rfl hclose.symm ?_
        rw [hheld, h]
        exact waiting_pop
  | popped r => exact hsame (.running run (.numbered r _)) rfl rfl rfl
  | numbered r wrId =>
      simp only [workStep]
      split_ifs
      · exact hsame (.running run (.failing r rc)) rfl rfl rfl
      · refine books_moved rfl rfl rfl rfl hclose.symm ?_
        rw [hheld]
        exact waiting_store htracks.2
  | stored r wrId => exact hsame (.running run (.counted r wrId)) rfl rfl rfl
  | counted r wrId =>
      simp only [workStep]
      split_ifs
      · exact hsame (.running run (.postFailed r wrId rc)) rfl rfl rfl
      · refine books_moved rfl rfl rfl rfl hclose.symm ?_
        rw [hheld]
        exact waiting_posted htracks
  | postFailed r wrId rc => exact books_moved rfl rfl rfl rfl hclose.symm hheld.symm
  | erased r rc => exact hsame (.running run (.failing r rc)) rfl rfl rfl
  | failing r rc =>
      refine books_done rfl rfl rfl rfl ?_ ?_
      · rw [hclose]
        show (r ::ₘ 0 + ↑s.cleaner.closing : Multiset ReqId) = r ::ₘ (0 + ↑s.cleaner.closing)
        rw [Multiset.cons_add]
      · rw [hheld]
        exact waiting_failing
  | putting r =>
      refine books_put rfl rfl rfl rfl ?_ hheld.symm
      rw [hclose]
      show (r ::ₘ 0 + ↑s.cleaner.closing : Multiset ReqId) = r ::ₘ (0 + ↑s.cleaner.closing)
      rw [Multiset.cons_add]

/-! ### The indices and the work queue -/

/-- What the worker leaves alone. -/
theorem workStep_frame (dev : Dev) (s : St) (run : Nat) (rc : Int) (wpc : WorkPc) :
    (workStep dev s run rc wpc).subs = s.subs ∧
    (workStep dev s run rc wpc).accepted = s.accepted ∧
    (workStep dev s run rc wpc).queued = s.queued ∧
    (workStep dev s run rc wpc).nextRun = s.nextRun ∧
    (workStep dev s run rc wpc).ioWq = s.ioWq ∧
    (workStep dev s run rc wpc).stopping = s.stopping ∧
    (workStep dev s run rc wpc).cleaner = s.cleaner := by
  cases wpc <;> simp only [workStep]
  case head => split_ifs <;> exact ⟨rfl, rfl, rfl, rfl, rfl, rfl, rfl⟩
  case depth => split_ifs <;> exact ⟨rfl, rfl, rfl, rfl, rfl, rfl, rfl⟩
  case pop => split <;> exact ⟨rfl, rfl, rfl, rfl, rfl, rfl, rfl⟩
  case numbered => split_ifs <;> exact ⟨rfl, rfl, rfl, rfl, rfl, rfl, rfl⟩
  all_goals exact ⟨rfl, rfl, rfl, rfl, rfl, rfl, rfl⟩

/-- The run goes on or is over. -/
theorem workStep_run (dev : Dev) (s : St) (rc : Int) {run' : Nat} {wpc' : WorkPc}
    (h : (workStep dev s run rc wpc).worker = .running run' wpc') : run' = run := by
  cases wpc <;> simp only [workStep] at h
  case head =>
    split_ifs at h
    cases h
    rfl
  case depth =>
    split_ifs at h
    cases h
    rfl
  case pop =>
    split at h
    · cases h
    · cases h
      rfl
  case numbered => split_ifs at h <;> cases h <;> rfl
  all_goals (cases h; rfl)

/-- The indices of `inflight_reqs` after a step of the worker. -/
theorem workStep_tracks (dev : Dev) (rc : Int) (hrun : s.worker = .running run wpc)
    (hw : WorkOk s) :
    (∀ e ∈ (workStep dev s run rc wpc).inflightReqs.entries,
      e.1 ≤ (workStep dev s run rc wpc).nextWrId) ∧
    (workStep dev s run rc wpc).worker.Tracks (workStep dev s run rc wpc).inflightReqs
      (workStep dev s run rc wpc).nextWrId := by
  have hkeys := hw.keys_le
  have htracks := hw.tracks
  rw [hrun] at htracks
  cases wpc with
  | popped r =>
      -- a new index is above all that were used
      refine ⟨fun e he => Nat.le_succ_of_le (hkeys e he), Nat.le_refl _, ?_⟩
      intro e he
      exact Nat.ne_of_lt (Nat.lt_succ_of_le (hkeys e he))
  | numbered r wrId =>
      simp only [workStep]
      split_ifs
      · exact ⟨hkeys, trivial⟩
      · refine ⟨?_, (s.inflightReqs.mem_store htracks.2).mpr (.inl rfl)⟩
        intro e he
        rcases (s.inflightReqs.mem_store htracks.2).mp he with rfl | he
        · exact htracks.1
        · exact hkeys e he
  | postFailed r wrId rc =>
      refine ⟨?_, trivial⟩
      intro e he
      exact hkeys e (s.inflightReqs.mem_erase.mp he).1
  | head =>
      simp only [workStep]
      split_ifs <;> exact ⟨hkeys, trivial⟩
  | depth =>
      simp only [workStep]
      split_ifs <;> exact ⟨hkeys, trivial⟩
  | pop =>
      simp only [workStep]
      split <;> exact ⟨hkeys, trivial⟩
  | stored r wrId => exact ⟨hkeys, htracks⟩
  | counted r wrId =>
      simp only [workStep]
      split_ifs
      · exact ⟨hkeys, htracks⟩
      · exact ⟨hkeys, trivial⟩
  | erased r rc => exact ⟨hkeys, trivial⟩
  | failing r rc => exact ⟨hkeys, trivial⟩
  | putting r => exact ⟨hkeys, trivial⟩

theorem workStep_workOk (rc : Int) (hrun : s.worker = .running run wpc) (hw : WorkOk s) :
    WorkOk (workStep dev s run rc wpc) := by
  obtain ⟨-, -, hqueued, hnext, hwq, -, -⟩ := workStep_frame dev s run rc wpc
  obtain ⟨hkeys, htracks⟩ := workStep_tracks dev rc hrun hw
  refine ⟨hkeys, htracks, ?_, ?_, ?_⟩
  · rw [hqueued, hnext]
    exact hw.queued_lt
  · intro run' wpc' h
    rw [hnext, workStep_run dev s rc h]
    exact hw.running_lt run wpc hrun
  · -- the worker runs, so there is a work queue
    intro hdead
    rw [hwq] at hdead
    cases (hw.drained hdead).2.symm.trans hrun

/-! ### Against the cleanup -/

/-- A worker that is about to do more than look at `stopping` works while
nothing is cleaned up yet, or for a flush that waits for it. -/
theorem CleanOk.early (hc : CleanOk s) (hrun : s.worker = .running run wpc)
    (h : wpc = .head → s.stopping = false) :
    s.cleaner = .idle ∨ s.cleaner = .stopped ∨
      ∃ target, s.cleaner = .flushing target ∧ run < target := by
  have hhead : s.cleaner = .idle ∨ wpc ≠ .head := by
    by_contra hne
    rw [not_or, not_not] at hne
    exact absurd (hc.stopping hne.1) (by simp [h hne.2])
  rcases hhead with hidle | hhead
  · exact .inl hidle
  have hflush : s.cleaner.pastFlush = false := by
    by_contra hne
    have hat := hc.atHead (by simpa using hne)
    rw [hrun] at hat
    cases wpc <;> first | exact hhead rfl | cases hat
  rcases e : s.cleaner with - | - | target | _ <;> rw [e] at hflush
  case idle => exact .inl rfl
  case stopped => exact .inr (.inl rfl)
  case flushing =>
    refine .inr (.inr ⟨target, rfl, ?_⟩)
    by_contra hle
    exact hhead (hc.late target e run wpc hrun (Nat.le_of_not_lt hle))
  all_goals cases hflush

theorem workStep_cleanOk (rc : Int) (hrun : s.worker = .running run wpc) (hc : CleanOk s) :
    CleanOk (workStep dev s run rc wpc) := by
  by_cases hleave : wpc = .head ∧ s.stopping = true
  · obtain ⟨rfl, hstop⟩ := hleave
    have heq : workStep dev s run rc .head = { s with worker := .idle } := by
      simp [workStep, hstop]
    rw [heq]
    refine ⟨hc.stopping, ?_, fun _ => rfl, hc.spliced, hc.remaining, hc.destroyed⟩
    rintro target _ run' pc' ⟨⟩
  · -- the cleanup is at most waiting for this run, and promises nothing yet
    obtain ⟨-, -, -, -, hwq, hstopping, hcleaner⟩ := workStep_frame dev s run rc wpc
    have hearly := hc.early hrun (by simpa using hleave)
    have hquiet : s.cleaner.pastFlush = false ∧ s.cleaner.pastSplice = false ∧
        s.cleaner ≠ .destroyed ∧ ∀ x, s.cleaner.Remaining x := by
      rcases hearly with h | h | ⟨target, h, -⟩ <;> rw [h] <;>
        exact ⟨rfl, rfl, by simp, fun _ => trivial⟩
    obtain ⟨hflush, hsplice, hdest, hremaining⟩ := hquiet
    refine ⟨?_, ?_, ?_, ?_, ?_, ?_⟩ <;> rw [hcleaner]
    · rw [hstopping]
      exact hc.stopping
    · intro target htarget run' wpc' h hle
      obtain rfl := workStep_run dev s rc h
      rcases hearly with h' | h' | ⟨target', h', hlt⟩
      · cases h'.symm.trans htarget
      · cases h'.symm.trans htarget
      · obtain rfl : target' = target := by
          rw [h'] at htarget
          cases htarget
          rfl
        omega
    · rw [hflush]
      intro h
      cases h
    · rw [hsplice]
      intro h
      cases h
    · exact hremaining _
    · exact fun h => absurd h hdest

/-! ### The invariant -/

theorem workStep_subOk (rc : Int) (hrun : s.worker = .running run wpc) (hs : Inv s) :
    SubOk (workStep dev s run rc wpc) := by
  obtain ⟨hsubs, haccepted, -, -, -, -, -⟩ := workStep_frame dev s run rc wpc
  refine ⟨?_, ?_, ?_⟩
  · rw [hsubs, haccepted]
    exact hs.sub.accepted_eq
  · rw [hsubs]
    exact hs.sub.rejected_ne
  · rw [hsubs]
    cases wpc
    case putting r =>
      have hmem : r ∈ s.books.closing := by
        simp [St.books, hrun, Worker.closing]
      exact refs_reqPut (s := s.workAt run .head) (mem_heap_of_closing hs.balanced hmem)
        hs.sub.refs_eq
    all_goals simp only [workStep]
    case head => split_ifs <;> exact hs.sub.refs_eq
    case depth => split_ifs <;> exact hs.sub.refs_eq
    case pop => split <;> exact hs.sub.refs_eq
    case numbered => split_ifs <;> exact hs.sub.refs_eq
    all_goals exact hs.sub.refs_eq

theorem Inv.work_step (hs : Inv s) (rc : Int) (hrun : s.worker = .running run wpc) :
    Inv (workStep dev s run rc wpc) :=
  ⟨workStep_subOk rc hrun hs, workStep_workOk rc hrun hs.work, workStep_cleanOk rc hrun hs.clean,
    hs.balanced.step (workStep_books rc hrun hs.work)⟩

/-- A run begins at the loop head. -/
theorem Inv.workStart (hs : Inv s) (hidle : s.worker = .idle) (hqueued : s.queued = some run) :
    Inv { s with worker := .running run .head, queued := none } := by
  refine ⟨⟨hs.sub.accepted_eq, hs.sub.rejected_ne, hs.sub.refs_eq⟩,
    ⟨hs.work.keys_le, trivial, ?_, ?_, ?_⟩,
    ⟨hs.clean.stopping, ?_, fun _ => rfl, hs.clean.spliced, hs.clean.remaining,
      hs.clean.destroyed⟩, ?_⟩
  · rintro run' ⟨⟩
  · rintro run' pc' ⟨⟩
    exact hs.work.queued_lt run hqueued
  · intro hdead
    cases (hs.work.drained hdead).1.symm.trans hqueued
  · rintro target _ run' pc' ⟨⟩ _
    rfl
  · have hbooks : St.books { s with worker := .running run .head, queued := none } = s.books :=
      books_withWorker (by rw [hidle]; rfl) (by rw [hidle]; rfl) (by rw [hidle]; rfl)
    rw [hbooks]
    exact hs.balanced

end DirectIo

end DirectStorage
