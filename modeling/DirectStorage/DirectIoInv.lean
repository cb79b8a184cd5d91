/-
DirectStorage/DirectIoInv.lean

The invariant of the direct-IO queue, and the submitters.

The requests are accounted for in `Books` (`St.books`): a request is with its
submitter until it is put on `pending_list`, waits in `pending_list`, in the
worker's hands, in `inflight_reqs` or in the cleanup's fail list, and is freed
after its `done`.  Every step of the system is a step of the books.  To see
that, one has to know which indices `inflight_reqs` uses (`WorkOk`) and where
the worker can be once the cleanup has flushed the work queue (`CleanOk`).

The reason the cleanup misses nothing: it sets `stopping` before it flushes,
so a run that is queued too late for the flush leaves at its first look at
`stopping` and never takes a request (`CleanOk.late`).

Main result: a submitter's step keeps the invariant (`SubMove.inv`).
-/
import DirectStorage.DirectIo
import DirectStorage.Lifecycle

namespace DirectStorage

namespace DirectIo

/-! ### Where the requests are -/

/-- The submitter holds an allocated request. -/
def SubPc.owns : SubPc → Bool
  | .allocated | .rejected _ => true
  | _ => false

/-- The submitter holds a module reference and no request. -/
def SubPc.hasRefOnly : SubPc → Bool
  | .gotRef => true
  | _ => false

/-- The submitter has put its request on `pending_list`. -/
def SubPc.accepted : SubPc → Bool
  | .added | .crashed => true
  | .returned rc => rc = 0
  | _ => false

/-- The submitter holds nothing and has handed nothing over. -/
def SubPc.outside (pc : SubPc) : Bool := !pc.owns && !pc.hasRefOnly && !pc.accepted

/-- The worker's hands: a request that was popped and neither completed nor
left in `inflight_reqs` after a successful post. -/
def Worker.hands : Worker → List ReqId
  | .running _ (.popped r) | .running _ (.numbered r _) | .running _ (.stored r _)
  | .running _ (.counted r _) | .running _ (.postFailed r _ _) | .running _ (.erased r _)
  | .running _ (.failing r _) => [r]
  | _ => []

/-- The index under which the request in the worker's hands is stored. -/
def Worker.storedAt : Worker → Option Nat
  | .running _ (.stored _ wrId) | .running _ (.counted _ wrId)
  | .running _ (.postFailed _ wrId _) => some wrId
  | _ => none

def Worker.closing : Worker → List ReqId
  | .running _ (.putting r) => [r]
  | _ => []

/-- The cleanup's fail list `to_complete`. -/
def CleanPc.failList : CleanPc → List ReqId
  | .collecting _ l | .found _ _ l | .collected _ l | .failing l | .putting _ l => l
  | _ => []

def CleanPc.closing : CleanPc → List ReqId
  | .putting r _ => [r]
  | _ => []

/-- The requests of `inflight_reqs` that are not in the worker's hands. -/
def Worker.leaves (x : Xarray ReqId) (w : Worker) : List ReqId :=
  match w.storedAt with
  | none => x.values
  | some wrId => (x.erase wrId).values

/-- The requests that wait, for a given list, worker, `inflight_reqs` and fail
list. -/
def waiting (pending : List ReqId) (w : Worker) (x : Xarray ReqId) (fail : List ReqId) :
    Multiset ReqId :=
  ↑pending + ↑w.hands + ↑(w.leaves x) + ↑fail

/-- The accounts of the requests. -/
def St.books (s : St) : Books ReqId where
  owned := (positions SubPc.owns s.subs).val
  accepted := s.accepted
  held := waiting s.pendingList s.worker s.inflightReqs s.cleaner.failList
  done := ↑(s.done.map Prod.fst)
  closing := ↑s.worker.closing + ↑s.cleaner.closing
  live := s.heap

section Waiting

variable {run : Nat} {pending fail : List ReqId} {w : Worker} {x : Xarray ReqId} {r : ReqId}
  {wrId : Nat}

theorem waiting_pop :
    waiting pending (.running run (.popped r)) x fail =
      waiting (r :: pending) (.running run .pop) x fail := by
  show (↑pending + (r ::ₘ 0) + ↑x.values + ↑fail : Multiset ReqId) =
    r ::ₘ ↑pending + 0 + ↑x.values + ↑fail
  simp only [Multiset.cons_add, Multiset.add_cons]

/-- A request that is stored is still in the worker's hands. -/
theorem waiting_store (hfree : ∀ e ∈ x.entries, e.1 ≠ wrId) :
    waiting pending (.running run (.stored r wrId)) (x.store wrId r) fail =
      waiting pending (.running run (.numbered r wrId)) x fail := by
  have hleaves : (↑((x.store wrId r).erase wrId).values : Multiset ReqId) = ↑x.values :=
    Multiset.coe_eq_coe.mpr (x.erase_store hfree)
  show (↑pending + ↑[r] + ↑((x.store wrId r).erase wrId).values + ↑fail : Multiset ReqId) = _
  rw [hleaves]
  rfl

/-- A request that is posted leaves the worker's hands and stays in
`inflight_reqs`. -/
theorem waiting_posted (hmem : (wrId, r) ∈ x.entries) :
    waiting pending (.running run .head) x fail =
      waiting pending (.running run (.counted r wrId)) x fail := by
  have hvalues : (↑x.values : Multiset ReqId) = r ::ₘ ↑(x.erase wrId).values :=
    Multiset.coe_eq_coe.mpr (x.values_erase hmem)
  show (↑pending + 0 + ↑x.values + ↑fail : Multiset ReqId) =
    ↑pending + (r ::ₘ 0) + ↑(x.erase wrId).values + ↑fail
  rw [hvalues]
  simp only [Multiset.cons_add, Multiset.add_cons]

theorem waiting_failing {rc : Int} :
    waiting pending (.running run (.failing r rc)) x fail =
      r ::ₘ waiting pending (.running run (.putting r)) x fail := by
  show (↑pending + (r ::ₘ 0) + ↑x.values + ↑fail : Multiset ReqId) =
    r ::ₘ (↑pending + 0 + ↑x.values + ↑fail)
  simp only [Multiset.cons_add, Multiset.add_cons]

theorem waiting_splice : waiting [] w x pending = waiting pending w x [] := by
  show (0 + ↑w.hands + ↑(w.leaves x) + ↑pending : Multiset ReqId) =
    ↑pending + ↑w.hands + ↑(w.leaves x) + 0
  rw [Multiset.zero_add, Multiset.add_zero, Multiset.add_comm, Multiset.add_assoc]

theorem waiting_cons_fail :
    waiting pending w x (r :: fail) = r ::ₘ waiting pending w x fail := by
  show (↑pending + ↑w.hands + ↑(w.leaves x) + (r ::ₘ ↑fail) : Multiset ReqId) =
    r ::ₘ (↑pending + ↑w.hands + ↑(w.leaves x) + ↑fail)
  rw [Multiset.add_cons]

end Waiting

/-! ### What a submitter's step can do -/

/-- The steps of submitter `c`, from `pc`. -/
inductive SubMove (dev : Dev) (s : St) (c : ReqId) : SubPc → St → Prop
  /-- Look around, or return an error. -/
  | move {pc pc' : SubPc} : pc.outside → pc'.outside → SubMove dev s c pc (s.setSub c pc')
  | getRef : SubMove dev s c .admitted
      { s.setSub c .gotRef with moduleRefs := s.moduleRefs + 1 }
  | noMemory : SubMove dev s c .gotRef
      { s.setSub c (.returned (-ENOMEM)) with moduleRefs := s.moduleRefs - 1 }
  | alloc : SubMove dev s c .gotRef { s.setSub c .allocated with heap := c :: s.heap }
  | reject {rc : Int} : rc ≠ 0 → SubMove dev s c .allocated (s.setSub c (.rejected rc))
  | accept : s.stopping = false → queueFull dev s.pending s.inflight = false →
      SubMove dev s c .allocated
        { s.setSub c .added with
          pendingList := s.pendingList ++ [c]
          pending := s.pending + 1
          accepted := s.accepted ++ [c] }
  | drop {rc : Int} : SubMove dev s c (.rejected rc) ((s.setSub c (.returned rc)).reqPut c)
  | wake : s.ioWq = .live ∨ s.ioWq = .draining →
      SubMove dev s c .added (s.queueWork.setSub c (.returned 0))
  | crash : SubMove dev s c .added (s.setSub c .crashed)

variable {dev : Dev} {s t : St} {c : ReqId} {pc pc' : SubPc}

theorem outside_returned {rc : Int} (h : rc ≠ 0) : (SubPc.returned rc).outside := by
  simp [SubPc.outside, SubPc.owns, SubPc.hasRefOnly, SubPc.accepted, h]

theorem outside_submitEntry (stopping : Bool) (args : SubmitArgs) :
    (submitEntry stopping args).outside := by
  unfold submitEntry
  split_ifs <;> first | exact outside_returned (by decide) | rfl

theorem mapIo_error_ne {lbs blockCount : UInt32} {size ubva lba : UInt64} {rc : Int}
    (h : Blkdev.urmaBlkdevMapIo lbs size ubva lba blockCount = .error rc) : rc ≠ 0 := by
  unfold Blkdev.urmaBlkdevMapIo at h
  dsimp only at h
  split_ifs at h <;> cases h <;> decide

theorem outside_submitCheck (dev : Dev) (ioWq : IoWq) (args : SubmitArgs) :
    (submitCheck dev ioWq args).outside := by
  unfold submitCheck
  split_ifs
  case neg =>
    split
    next ret h => exact outside_returned (mapIo_error_ne h)
    next => rfl
  all_goals exact outside_returned (by decide)

/-- **What a submitter's step can do.** -/
theorem submitStep_move {ok : Bool} (h : submitStep dev s c ok pc = some t) :
    SubMove dev s c pc t := by
  cases pc with
  | checking args =>
      cases h
      exact .move rfl (outside_submitCheck _ _ _)
  | checked =>
      cases h
      exact .move rfl rfl
  | sawPending pending =>
      cases h
      refine .move rfl ?_
      split_ifs
      · exact outside_returned (by decide)
      · rfl
  | admitted =>
      simp only [submitStep] at h
      split_ifs at h <;> cases h
      · exact .getRef
      · exact .move rfl (outside_returned (by decide))
  | gotRef =>
      simp only [submitStep] at h
      split_ifs at h <;> cases h
      · exact .alloc
      · exact .noMemory
  | allocated =>
      simp only [submitStep, submitLocked, Option.some.injEq] at h
      split_ifs at h with hstop hfull <;> subst h
      · exact .reject (by decide)
      · exact .reject (by decide)
      · exact .accept (by simpa using hstop) (by simpa using hfull)
  | rejected rc =>
      cases h
      exact .drop
  | added =>
      simp only [submitStep] at h
      split at h <;> cases h
      · exact .crash
      · exact .crash
      · exact .wake (.inl ‹_›)
      · exact .wake (.inr ‹_›)
  | returned rc => cases h
  | crashed => cases h

/-! ### The invariants -/

/-- What the submitters' program points say. -/
structure SubOk (s : St) : Prop where
  accepted_eq : (s.accepted : Multiset ReqId) = (positions SubPc.accepted s.subs).val
  rejected_ne : ∀ (c : ReqId) (rc : Int), s.subs[c]? = some (.rejected rc) → rc ≠ 0
  refs_eq : s.moduleRefs = s.heap.length + (positions SubPc.hasRefOnly s.subs).card

/-- The index of the request in the worker's hands is free before the request
is stored, and its own afterwards. -/
def Worker.Tracks (x : Xarray ReqId) (nextWrId : Nat) : Worker → Prop
  | .running _ (.numbered _ wrId) => wrId ≤ nextWrId ∧ ∀ e ∈ x.entries, e.1 ≠ wrId
  | .running _ (.stored r wrId) | .running _ (.counted r wrId)
  | .running _ (.postFailed r wrId _) => (wrId, r) ∈ x.entries
  | _ => True

/-- The worker has no step before its look at `stopping`. -/
def Worker.atHead : Worker → Bool
  | .idle | .running _ .head => true
  | _ => false

structure WorkOk (s : St) : Prop where
  keys_le : ∀ e ∈ s.inflightReqs.entries, e.1 ≤ s.nextWrId
  tracks : s.worker.Tracks s.inflightReqs s.nextWrId
  queued_lt : ∀ run, s.queued = some run → run < s.nextRun
  running_lt : ∀ run pc, s.worker = .running run pc → run < s.nextRun
  /-- Without a work queue there is no work. -/
  drained : s.ioWq = .null ∨ s.ioWq = .destroyed → s.queued = none ∧ s.worker = .idle

/-- `flush_workqueue` has returned, or there was nothing to flush. -/
def CleanPc.pastFlush : CleanPc → Bool
  | .idle | .stopped | .flushing _ => false
  | _ => true

/-- `fail_queued` has emptied `pending_list`. -/
def CleanPc.pastSplice : CleanPc → Bool
  | .idle | .stopped | .flushing _ | .flushed => false
  | _ => true

/-- `fail_queued` has returned. -/
def CleanPc.failedQueued : CleanPc → Bool
  | .failing [] | .draining | .destroyed | .unset | .gone => true
  | _ => false

/-- What the cleanup's walk over `inflight_reqs` has left. -/
def CleanPc.Remaining (x : Xarray ReqId) : CleanPc → Prop
  | .collecting index _ => ∀ e ∈ x.entries, index ≤ e.1
  | .found index r _ => (index, r) ∈ x.entries ∧ ∀ e ∈ x.entries, index ≤ e.1
  | .collected index _ => ∀ e ∈ x.entries, index < e.1
  | .failing _ | .putting _ _ | .draining | .destroyed | .unset | .gone => x.entries = []
  | _ => True

structure CleanOk (s : St) : Prop where
  stopping : s.cleaner ≠ .idle → s.stopping = true
  /-- A run that the flush does not wait for started after `stopping` was set. -/
  late : ∀ target, s.cleaner = .flushing target →
    ∀ run pc, s.worker = .running run pc → target ≤ run → pc = .head
  atHead : s.cleaner.pastFlush → s.worker.atHead
  spliced : s.cleaner.pastSplice → s.pendingList = []
  remaining : s.cleaner.Remaining s.inflightReqs
  destroyed : s.cleaner = .destroyed → s.ioWq = .destroyed

/-- The invariant of the system. -/
structure Inv (s : St) : Prop where
  sub : SubOk s
  work : WorkOk s
  clean : CleanOk s
  balanced : s.books.Balanced

/-! ### A submitter's step -/

theorem books_setSub (hpc : s.subs[c]? = some pc) (howns : pc'.owns = pc.owns) :
    (s.setSub c pc').books = s.books := by
  show Books.mk (positions SubPc.owns (s.subs.set c pc')).val _ _ _ _ _ = _
  rw [positions_set hpc howns]
  rfl

theorem owned_of_leave (hpc : s.subs[c]? = some pc) (hin : pc.owns = true)
    (hout : pc'.owns = false) :
    s.books.owned = c ::ₘ (s.setSub c pc').books.owned := by
  show (positions SubPc.owns s.subs).val = c ::ₘ (positions SubPc.owns (s.subs.set c pc')).val
  exact positions_set_leave pc' hpc hin hout

theorem SubMove.books (h : SubMove dev s c pc t) (hpc : s.subs[c]? = some pc) (hs : SubOk s) :
    s.books.Step t.books := by
  -- a step that neither takes nor gives away a request is not seen by the books
  have hkeep : ∀ (pc' : SubPc) {t : St}, pc'.owns = pc.owns →
      t.books = (s.setSub c pc').books → s.books.Step t.books := by
    intro pc' t howns ht
    rw [ht, books_setSub hpc howns]
    exact .keep
  cases h with
  | @move _ pc' hout hout' =>
      simp only [SubPc.outside, Bool.and_eq_true, Bool.not_eq_true'] at hout hout'
      exact hkeep pc' (hout'.1.1.trans hout.1.1.symm) rfl
  | getRef => exact hkeep .gotRef rfl rfl
  | noMemory => exact hkeep (.returned (-ENOMEM)) rfl rfl
  | @reject rc _ => exact hkeep (.rejected rc) rfl rfl
  | wake =>
      refine hkeep (.returned 0) rfl ?_
      unfold St.queueWork
      split_ifs <;> rfl
  | crash => exact hkeep .crashed rfl rfl
  | alloc =>
      have hnot : c ∉ s.books.accepted := by
        show c ∉ (s.accepted : Multiset ReqId)
        rw [hs.accepted_eq, Finset.mem_val, mem_positions_of_getElem? hpc]
        simp [SubPc.accepted]
      have hfree : c ∉ s.books.owned := by
        show c ∉ (positions SubPc.owns s.subs).val
        rw [Finset.mem_val, mem_positions_of_getElem? hpc]
        simp [SubPc.owns]
      have hbooks : (St.books { s.setSub c .allocated with heap := c :: s.heap }) =
          { s.books with owned := c ::ₘ s.books.owned, live := c ::ₘ s.books.live } := by
        show Books.mk (positions SubPc.owns (s.subs.set c .allocated)).val _ _ _ _ _ = _
        rw [positions_set_enter hpc rfl rfl]
        rfl
      rw [hbooks]
      exact .create c hfree hnot
  | accept =>
      have hbooks : St.books { s.setSub c .added with
            pendingList := s.pendingList ++ [c]
            pending := s.pending + 1
            accepted := s.accepted ++ [c] } =
          { s.books with
            owned := (s.setSub c .added).books.owned
            accepted := c ::ₘ s.books.accepted
            held := c ::ₘ s.books.held } := by
        simp only [St.books, waiting, St.setSub, coe_append_singleton, Multiset.cons_add]
      rw [hbooks]
      exact .accept c _ (owned_of_leave hpc rfl rfl)
  | @drop rc =>
      have hbooks : St.books ((s.setSub c (.returned rc)).reqPut c) =
          { s.books with
            owned := (s.setSub c (.returned rc)).books.owned
            live := s.books.live.erase c } := by
        simp only [St.books, St.setSub, St.reqPut, Multiset.coe_erase]
      rw [hbooks]
      exact .discard c _ (owned_of_leave hpc rfl rfl)

theorem mem_heap_of_owns (hb : s.books.Balanced) (hpc : s.subs[c]? = some pc)
    (howns : pc.owns = true) : c ∈ s.heap := by
  have hlive : c ∈ s.books.live := by
    rw [hb.live_eq]
    have howned : c ∈ s.books.owned := by
      show c ∈ (positions SubPc.owns s.subs).val
      rw [Finset.mem_val, mem_positions_of_getElem? hpc]
      exact howns
    exact Multiset.mem_add.mpr (.inl (Multiset.mem_add.mpr (.inl howned)))
  simpa [St.books] using hlive

/-- The reference count after `req_put` of an allocated request. -/
theorem refs_reqPut {r : ReqId} {n : Nat} (hmem : r ∈ s.heap)
    (hrefs : s.moduleRefs = s.heap.length + n) :
    (s.reqPut r).moduleRefs = (s.reqPut r).heap.length + n := by
  show s.moduleRefs - 1 = ((s.heap.erase r).length : Int) + n
  have hpos := List.length_pos_of_mem hmem
  rw [List.length_erase_of_mem hmem]
  omega

theorem rejected_ne_set (hs : SubOk s) (hpc : s.subs[c]? = some pc)
    (hpc' : ∀ rc, pc' = .rejected rc → rc ≠ 0) (d : ReqId) (rc : Int)
    (h : (s.subs.set c pc')[d]? = some (.rejected rc)) : rc ≠ 0 := by
  rw [getElem?_set_eq hpc] at h
  split_ifs at h
  · exact hpc' rc (Option.some.inj h)
  · exact hs.rejected_ne d rc h

theorem accepted_eq_set (hs : SubOk s) (hpc : s.subs[c]? = some pc)
    (hacc : pc'.accepted = pc.accepted) :
    (s.accepted : Multiset ReqId) = (positions SubPc.accepted (s.subs.set c pc')).val := by
  rw [positions_set hpc hacc]
  exact hs.accepted_eq

theorem refs_eq_set (hs : SubOk s) (hpc : s.subs[c]? = some pc)
    (href : pc'.hasRefOnly = pc.hasRefOnly) :
    s.moduleRefs =
      s.heap.length + (positions SubPc.hasRefOnly (s.subs.set c pc')).card := by
  rw [positions_set hpc href]
  exact hs.refs_eq

/-- A step that takes no reference and puts nothing on the list. -/
theorem SubOk.setSub (hs : SubOk s) (hpc : s.subs[c]? = some pc)
    (hacc : pc'.accepted = pc.accepted) (href : pc'.hasRefOnly = pc.hasRefOnly)
    (hrej : ∀ rc, pc' = .rejected rc → rc ≠ 0) : SubOk (s.setSub c pc') := by
  refine ⟨accepted_eq_set hs hpc hacc, rejected_ne_set hs hpc hrej, ?_⟩
  show s.moduleRefs =
    s.heap.length + (positions SubPc.hasRefOnly (s.subs.set c pc')).card
  exact refs_eq_set hs hpc href

theorem SubMove.subOk (h : SubMove dev s c pc t) (hpc : s.subs[c]? = some pc) (hs : SubOk s)
    (hb : s.books.Balanced) : SubOk t := by
  have hrej : ∀ pc' : SubPc, (∀ rc, pc' = .rejected rc → rc ≠ 0) → ∀ (d : ReqId) (rc : Int),
      (s.subs.set c pc')[d]? = some (.rejected rc) → rc ≠ 0 :=
    fun _ => rejected_ne_set hs hpc
  cases h with
  | @move _ pc' hout hout' =>
      simp only [SubPc.outside, Bool.and_eq_true, Bool.not_eq_true'] at hout hout'
      refine hs.setSub hpc (hout'.2.trans hout.2.symm) (hout'.1.2.trans hout.1.2.symm) ?_
      rintro rc rfl
      exact absurd hout'.1.1 (by simp [SubPc.owns])
  | getRef =>
      refine ⟨accepted_eq_set hs hpc rfl, hrej _ (by simp), ?_⟩
      show s.moduleRefs + 1 =
        s.heap.length + ((positions SubPc.hasRefOnly (s.subs.set c .gotRef)).val.card : Int)
      rw [positions_set_enter hpc rfl rfl, Multiset.card_cons, hs.refs_eq, Finset.card_def]
      omega
  | noMemory =>
      refine ⟨accepted_eq_set hs hpc rfl, hrej _ (by simp), ?_⟩
      show s.moduleRefs - 1 = s.heap.length +
        ((positions SubPc.hasRefOnly (s.subs.set c (.returned (-ENOMEM)))).val.card : Int)
      rw [hs.refs_eq, Finset.card_def,
        positions_set_leave (.returned (-ENOMEM)) hpc rfl rfl, Multiset.card_cons]
      omega
  | alloc =>
      refine ⟨accepted_eq_set hs hpc rfl, hrej _ (by simp), ?_⟩
      -- the reference goes from the submitter to the request
      show s.moduleRefs = ((c :: s.heap).length : Int) +
        (positions SubPc.hasRefOnly (s.subs.set c .allocated)).val.card
      rw [hs.refs_eq, Finset.card_def, positions_set_leave .allocated hpc rfl rfl,
        Multiset.card_cons, List.length_cons]
      omega
  | @reject rc hrc =>
      refine hs.setSub hpc rfl rfl ?_
      rintro rc' ⟨⟩
      exact hrc
  | accept =>
      refine ⟨?_, hrej _ (by simp), ?_⟩
      · show (↑(s.accepted ++ [c]) : Multiset ReqId) =
          (positions SubPc.accepted (s.subs.set c .added)).val
        rw [positions_set_enter hpc rfl rfl, coe_append_singleton, hs.accepted_eq]
      · show s.moduleRefs =
          s.heap.length + (positions SubPc.hasRefOnly (s.subs.set c .added)).card
        exact refs_eq_set hs hpc rfl
  | @drop rc =>
      have hrc := hs.rejected_ne c rc hpc
      have hset : SubOk (s.setSub c (.returned rc)) :=
        hs.setSub hpc (by simp [SubPc.accepted, hrc]) rfl (by simp)
      refine ⟨hset.accepted_eq, hset.rejected_ne, ?_⟩
      have hmem : c ∈ s.heap := mem_heap_of_owns hb hpc rfl
      exact refs_reqPut (s := s.setSub c (.returned rc)) hmem hset.refs_eq
  | wake =>
      have hset : SubOk (s.setSub c (.returned 0)) := hs.setSub hpc rfl rfl (by simp)
      unfold St.queueWork
      split_ifs
      · exact ⟨hset.accepted_eq, hset.rejected_ne, hset.refs_eq⟩
      · exact hset
  | crash => exact hs.setSub hpc rfl rfl (by simp)

theorem WorkOk.queueWork (hw : WorkOk s) : WorkOk s.queueWork := by
  unfold St.queueWork
  split_ifs with h
  · refine ⟨hw.keys_le, hw.tracks, ?_, ?_, ?_⟩
    · rintro run ⟨⟩
      exact Nat.lt_succ_self _
    · intro run pc hrun
      exact Nat.lt_succ_of_lt (hw.running_lt run pc hrun)
    · intro hdead
      have hlive : s.ioWq = .live := h.1
      rcases hdead with hdead | hdead <;> cases hlive.symm.trans hdead
  · exact hw

theorem SubMove.workOk (h : SubMove dev s c pc t) (hw : WorkOk s) : WorkOk t := by
  cases h with
  | wake =>
      have hw' := hw.queueWork
      exact ⟨hw'.keys_le, hw'.tracks, hw'.queued_lt, hw'.running_lt, hw'.drained⟩
  | _ => exact ⟨hw.keys_le, hw.tracks, hw.queued_lt, hw.running_lt, hw.drained⟩

theorem SubMove.cleanOk (h : SubMove dev s c pc t) (hc : CleanOk s) : CleanOk t := by
  cases h with
  | accept hstop =>
      -- nothing is put on the list once the cleanup has started
      have hidle : s.cleaner = .idle := by
        by_contra hne
        exact absurd (hc.stopping hne) (by simp [hstop])
      refine ⟨hc.stopping, hc.late, hc.atHead, ?_, hc.remaining, hc.destroyed⟩
      intro hspliced
      have hspliced' : s.cleaner.pastSplice = true := hspliced
      rw [hidle] at hspliced'
      cases hspliced'
  | wake =>
      unfold St.queueWork
      split_ifs <;>
        exact ⟨hc.stopping, hc.late, hc.atHead, hc.spliced, hc.remaining, hc.destroyed⟩
  | _ => exact ⟨hc.stopping, hc.late, hc.atHead, hc.spliced, hc.remaining, hc.destroyed⟩

theorem SubMove.inv (h : SubMove dev s c pc t) (hpc : s.subs[c]? = some pc) (hs : Inv s) :
    Inv t :=
  ⟨h.subOk hpc hs.sub hs.balanced, h.workOk hs.work, h.cleanOk hs.clean,
    hs.balanced.step (h.books hpc hs.sub)⟩

/-- A call begins with nothing. -/
theorem Inv.submit (hs : Inv s) (hout : pc.outside) : Inv { s with subs := s.subs ++ [pc] } := by
  simp only [SubPc.outside, Bool.and_eq_true, Bool.not_eq_true'] at hout
  obtain ⟨⟨howns, href⟩, hacc⟩ := hout
  have hbooks : St.books { s with subs := s.subs ++ [pc] } = s.books := by
    show Books.mk (positions SubPc.owns (s.subs ++ [pc])).val _ _ _ _ _ = _
    rw [positions_append howns]
    rfl
  refine ⟨⟨?_, ?_, ?_⟩, ?_, ?_, ?_⟩
  · show (s.accepted : Multiset ReqId) = (positions SubPc.accepted (s.subs ++ [pc])).val
    rw [positions_append hacc]
    exact hs.sub.accepted_eq
  · intro d rc h
    rcases List.mem_append.mp (List.mem_of_getElem? h) with hmem | hmem
    · obtain ⟨d', hd'⟩ := List.mem_iff_getElem?.mp hmem
      exact hs.sub.rejected_ne d' rc hd'
    · obtain rfl := List.mem_singleton.mp hmem
      cases howns
  · show s.moduleRefs = s.heap.length + (positions SubPc.hasRefOnly (s.subs ++ [pc])).card
    rw [positions_append href]
    exact hs.sub.refs_eq
  · exact ⟨hs.work.keys_le, hs.work.tracks, hs.work.queued_lt, hs.work.running_lt,
      hs.work.drained⟩
  · exact ⟨hs.clean.stopping, hs.clean.late, hs.clean.atHead, hs.clean.spliced,
      hs.clean.remaining, hs.clean.destroyed⟩
  · rw [hbooks]
    exact hs.balanced

/-! ### Moving, completing and releasing a request -/

theorem books_keep (h : t.books = s.books) : s.books.Step t.books := by
  rw [h]
  exact .keep

theorem books_frame (hsubs : t.subs = s.subs) (haccepted : t.accepted = s.accepted) :
    t.books = { s.books with
      held := t.books.held
      done := t.books.done
      closing := t.books.closing
      live := t.books.live } := by
  simp only [St.books, hsubs, haccepted]

/-- Requests that only move from place to place. -/
theorem books_moved (hsubs : t.subs = s.subs) (haccepted : t.accepted = s.accepted)
    (hdone : t.books.done = s.books.done) (hlive : t.books.live = s.books.live)
    (hclosing : t.books.closing = s.books.closing) (hheld : t.books.held = s.books.held) :
    s.books.Step t.books := by
  rw [books_frame hsubs haccepted, hdone, hlive, hclosing, hheld]
  exact .keep

/-- A request that is completed. -/
theorem books_done {r : ReqId} {rc : Int} (hsubs : t.subs = s.subs)
    (haccepted : t.accepted = s.accepted) (hdone : t.done = s.done ++ [(r, rc)])
    (hlive : t.books.live = s.books.live) (hclosing : t.books.closing = r ::ₘ s.books.closing)
    (hheld : s.books.held = r ::ₘ t.books.held) : s.books.Step t.books := by
  have hdone' : t.books.done = r ::ₘ s.books.done := by
    show (↑(t.done.map Prod.fst) : Multiset ReqId) = r ::ₘ ↑(s.done.map Prod.fst)
    rw [hdone, List.map_append, List.map_singleton, coe_append_singleton]
  rw [books_frame hsubs haccepted, hdone', hlive, hclosing]
  exact .complete r _ hheld

/-- A request that is freed. -/
theorem books_put {r : ReqId} (hsubs : t.subs = s.subs) (haccepted : t.accepted = s.accepted)
    (hdone : t.books.done = s.books.done) (hheap : t.heap = s.heap.erase r)
    (hclosing : s.books.closing = r ::ₘ t.books.closing)
    (hheld : t.books.held = s.books.held) : s.books.Step t.books := by
  have hlive : t.books.live = s.books.live.erase r := by
    show (t.heap : Multiset ReqId) = (↑s.heap : Multiset ReqId).erase r
    rw [hheap, Multiset.coe_erase]
  rw [books_frame hsubs haccepted, hdone, hlive, hheld]
  exact .release r _ hclosing

theorem mem_heap_of_closing (hb : s.books.Balanced) {r : ReqId} (h : r ∈ s.books.closing) :
    r ∈ s.heap := by
  have hlive : r ∈ s.books.live := by
    rw [hb.live_eq]
    exact Multiset.mem_add.mpr (.inr h)
  simpa [St.books] using hlive

end DirectIo

end DirectStorage
