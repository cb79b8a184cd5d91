/-
DirectStorage/DirectIoOrder.lean

The order of the requests in the direct-IO queue.

Requests pass through four lists, each a sublist of the next: the posted ones,
the ones that got a `wr_id` (`assignments`), the ones that were taken off
`pending_list`, and the ones that were put on it (`accepted`).  Error exits
drop requests on the way and the cleanup takes all that are left, but nothing
overtakes.  `Pipeline` is the invariant; what the worker has in hand is the
last element of the list it has reached.

Main result: `reachable_ordered`.
-/
import DirectStorage.DirectIoOnce

namespace DirectStorage

namespace DirectIo

variable {dev : Dev} {s₀ s t : St} {a : Action} {as : List Action}

/-! ### The statement -/

/-- The request that gets a `wr_id` in the step, and the `wr_id`. -/
def assigned (s : St) : Action → Option (ReqId × Nat)
  | .work _ =>
      match s.worker with
      | .running _ (.popped r) => some (r, s.nextWrId + 1)
      | _ => none
  | _ => none

/-- The requests that got a `wr_id` in the run, in that order. -/
def assignments (dev : Dev) (s₀ : St) (as : List Action) : List (ReqId × Nat) :=
  outputs (step dev) assigned s₀ as

/-- Order and numbering in the run `as`, which ends in `s`. -/
structure Ordered (dev : Dev) (s₀ : St) (as : List Action) (s : St) : Prop where
  /-- No submission enters `pending_list` twice, and what is posted is posted in
  the order in which the submissions entered it. -/
  accepted_nodup : s.accepted.Nodup
  posted_order : (s.posted.map Prod.fst).Sublist s.accepted
  /-- The same for the numbers: each request gets at most one. -/
  assigned_order : ((assignments dev s₀ as).map Prod.fst).Sublist s.accepted
  /-- The numbers are 1, 2, 3 and so on. -/
  consecutive : (assignments dev s₀ as).map Prod.snd =
    List.range' 1 (assignments dev s₀ as).length
  /-- As `u64` they increase strictly as long as they fit. -/
  increasing : (assignments dev s₀ as).length < 2 ^ 64 →
    ((assignments dev s₀ as).map fun e => UInt64.ofNat e.2).Pairwise (· < ·)
  /-- A request is posted under its own number. -/
  posted_own : s.posted.Sublist (assignments dev s₀ as)
  /-- Every entry of `inflight_reqs` is stored under its own request's number. -/
  stored_own : ∀ e ∈ s.inflightReqs.entries, (e.2, e.1) ∈ assignments dev s₀ as

/-! ### The invariant -/

/-- The request that is off the list and has no number yet. -/
def Worker.unnumbered : Worker → List ReqId
  | .running _ (.popped r) => [r]
  | _ => []

/-- The request that has a number and is not posted yet. -/
def Worker.unposted : Worker → List (ReqId × Nat)
  | .running _ (.numbered r wrId) | .running _ (.stored r wrId)
  | .running _ (.counted r wrId) => [(r, wrId)]
  | _ => []

/-- The invariant, for the assignments `l` so far. -/
structure Pipeline (l : List (ReqId × Nat)) (s : St) : Prop where
  taken : ∃ taken, s.accepted = taken ++ s.pendingList ∧
    (l.map Prod.fst ++ s.worker.unnumbered).Sublist taken
  posted : (s.posted ++ s.worker.unposted).Sublist l
  numbers : l.map Prod.snd = List.range' 1 s.nextWrId
  stored : ∀ e ∈ s.inflightReqs.entries, (e.2, e.1) ∈ l

variable {l : List (ReqId × Nat)}

/-- A step after which everything is where it was. -/
theorem Pipeline.congr (h : Pipeline l s) (haccepted : t.accepted = s.accepted)
    (hpending : t.pendingList = s.pendingList) (hposted : t.posted = s.posted)
    (hnext : t.nextWrId = s.nextWrId) (hreqs : t.inflightReqs = s.inflightReqs)
    (hunnumbered : t.worker.unnumbered = s.worker.unnumbered)
    (hunposted : t.worker.unposted = s.worker.unposted) : Pipeline l t := by
  refine ⟨?_, ?_, ?_, ?_⟩
  · rw [haccepted, hpending, hunnumbered]
    exact h.taken
  · rw [hposted, hunposted]
    exact h.posted
  · rw [hnext]
    exact h.numbers
  · rw [hreqs]
    exact h.stored

theorem SubMove.pipeline {c : ReqId} {pc : SubPc} (h : SubMove dev s c pc t)
    (hs : Pipeline l s) : Pipeline l t := by
  cases h with
  | accept =>
      obtain ⟨taken, haccepted, hsub⟩ := hs.taken
      refine ⟨⟨taken, ?_, hsub⟩, hs.posted, hs.numbers, hs.stored⟩
      show s.accepted ++ [c] = taken ++ (s.pendingList ++ [c])
      rw [haccepted, List.append_assoc]
  | wake =>
      unfold St.queueWork
      split_ifs <;> exact hs.congr rfl rfl rfl rfl rfl rfl rfl
  | _ => exact hs.congr rfl rfl rfl rfl rfl rfl rfl

/-- The step of the worker gives out a number only after a pop. -/
theorem assigned_eq_none {run : Nat} {wpc : WorkPc} {rc : Int}
    (hrun : s.worker = .running run wpc) (h : ∀ r, wpc ≠ .popped r) :
    assigned s (.work rc) = none := by
  simp only [assigned, hrun]
  split
  next heq =>
    cases heq
    exact absurd rfl (h _)
  next => rfl

theorem workStep_pipeline {run : Nat} {wpc : WorkPc} (rc : Int)
    (hrun : s.worker = .running run wpc) (hw : WorkOk s) (hs : Pipeline l s) :
    Pipeline (l ++ (assigned s (.work rc)).toList) (workStep dev s run rc wpc) := by
  have htracks := hw.tracks
  obtain ⟨⟨taken, haccepted, hsub⟩, hposted, hnumbers, hstored⟩ := hs
  rw [hrun] at htracks hsub hposted
  have hkeep : (∀ r, wpc ≠ .popped r) → l ++ (assigned s (.work rc)).toList = l := by
    intro hne
    rw [assigned_eq_none hrun hne]
    exact List.append_nil l
  -- a request that is dropped, or still in the same state
  have hsub' : (l.map Prod.fst ++ []).Sublist taken := by
    rw [List.append_nil]
    exact (List.sublist_append_left _ _).trans hsub
  have hposted' : (s.posted ++ []).Sublist l := by
    rw [List.append_nil]
    exact (List.sublist_append_left _ _).trans hposted
  cases wpc with
  | popped r =>
      have hnew : assigned s (.work rc) = some (r, s.nextWrId + 1) := by
        simp only [assigned, hrun]
      rw [hnew]
      refine ⟨⟨taken, haccepted, ?_⟩, ?_, ?_, ?_⟩
      · show ((l ++ [(r, s.nextWrId + 1)]).map Prod.fst ++ []).Sublist taken
        rw [List.append_nil, List.map_append]
        exact hsub
      · show (s.posted ++ [(r, s.nextWrId + 1)]).Sublist (l ++ [(r, s.nextWrId + 1)])
        exact ((List.sublist_append_left _ _).trans hposted).append (List.Sublist.refl _)
      · show (l ++ [(r, s.nextWrId + 1)]).map Prod.snd = List.range' 1 (s.nextWrId + 1)
        rw [List.map_append, hnumbers, List.range'_1_concat, Nat.add_comm 1]
        rfl
      · intro e he
        exact List.mem_append_left _ (hstored e he)
  | pop =>
      rw [hkeep (by simp)]
      simp only [workStep]
      split
      · exact ⟨⟨taken, haccepted, hsub⟩, hposted, hnumbers, hstored⟩
      next r rest hlist =>
        -- the first of the list is the next of those taken
        refine ⟨⟨taken ++ [r], ?_, ?_⟩, hposted, hnumbers, hstored⟩
        · show s.accepted = taken ++ [r] ++ rest
          rw [haccepted, hlist, List.append_assoc]
          rfl
        · show (l.map Prod.fst ++ [r]).Sublist (taken ++ [r])
          exact ((List.sublist_append_left _ _).trans hsub).append (List.Sublist.refl _)
  | numbered r wrId =>
      rw [hkeep (by simp)]
      simp only [workStep]
      split_ifs
      · exact ⟨⟨taken, haccepted, hsub⟩, hposted', hnumbers, hstored⟩
      · refine ⟨⟨taken, haccepted, hsub⟩, hposted, hnumbers, ?_⟩
        intro e he
        rcases (s.inflightReqs.mem_store htracks.2).mp he with rfl | he
        · exact hposted.subset (List.mem_append_right _ (List.mem_singleton_self _))
        · exact hstored e he
  | counted r wrId =>
      rw [hkeep (by simp)]
      -- posted, whatever comes of it
      have hnow : (s.posted ++ [(r, wrId)] ++ []).Sublist l := by
        rw [List.append_nil]
        exact hposted
      simp only [workStep]
      split_ifs <;> exact ⟨⟨taken, haccepted, hsub⟩, hnow, hnumbers, hstored⟩
  | postFailed r wrId rc' =>
      rw [hkeep (by simp)]
      refine ⟨⟨taken, haccepted, hsub⟩, hposted, hnumbers, ?_⟩
      intro e he
      exact hstored e (s.inflightReqs.mem_erase.mp he).1
  | head =>
      rw [hkeep (by simp)]
      simp only [workStep]
      split_ifs <;> exact ⟨⟨taken, haccepted, hsub⟩, hposted, hnumbers, hstored⟩
  | depth =>
      rw [hkeep (by simp)]
      simp only [workStep]
      split_ifs <;> exact ⟨⟨taken, haccepted, hsub⟩, hposted, hnumbers, hstored⟩
  | _ =>
      rw [hkeep (by simp)]
      exact ⟨⟨taken, haccepted, hsub⟩, hposted, hnumbers, hstored⟩

theorem CleanMove.pipeline {cpc : CleanPc} (h : CleanMove s cpc t) (hs : Pipeline l s) :
    Pipeline l t := by
  cases h with
  | splice =>
      -- the cleanup takes all that wait
      obtain ⟨taken, haccepted, hsub⟩ := hs.taken
      refine ⟨⟨taken ++ s.pendingList, ?_, ?_⟩, hs.posted, hs.numbers, hs.stored⟩
      · show s.accepted = taken ++ s.pendingList ++ []
        rw [haccepted, List.append_nil]
      · exact hsub.trans (List.sublist_append_left _ _)
  | erase =>
      refine ⟨hs.taken, hs.posted, hs.numbers, ?_⟩
      intro e he
      exact hs.stored e (s.inflightReqs.mem_erase.mp he).1
  | gone =>
      refine ⟨hs.taken, hs.posted, hs.numbers, ?_⟩
      rintro e ⟨⟩
  | _ => exact ⟨hs.taken, hs.posted, hs.numbers, hs.stored⟩

/-- **One step keeps the requests in order.** -/
theorem Pipeline.step (hs : Pipeline l s) (hinv : Inv s) (h : step dev s a = some t) :
    Pipeline (l ++ (assigned s a).toList) t := by
  cases step_move h with
  | enter args =>
      rw [show assigned s (.submit args) = none from rfl, Option.toList_none, List.append_nil]
      exact ⟨hs.taken, hs.posted, hs.numbers, hs.stored⟩
  | @sub c pc t ok hpc hmove =>
      rw [show assigned s (.sub c ok) = none from rfl, Option.toList_none, List.append_nil]
      exact hmove.pipeline hs
  | start hidle hqueued =>
      rw [show assigned s .start = none from rfl, Option.toList_none, List.append_nil]
      have htaken := hs.taken
      have hposted := hs.posted
      rw [hidle] at htaken hposted
      exact ⟨htaken, hposted, hs.numbers, hs.stored⟩
  | work rc hrun => exact workStep_pipeline rc hrun hinv.work hs
  | clean hmove =>
      rw [show assigned s .clean = none from rfl, Option.toList_none, List.append_nil]
      exact hmove.pipeline hs

/-- **The requests are in order in every run.** -/
theorem reachable_pipeline {allocated : Bool}
    (h : run (DirectIo.step dev) (initIoQueue allocated).2 as = some s) :
    Pipeline (assignments dev (initIoQueue allocated).2 as) s := by
  refine run_history
    (P := fun as s => Pipeline (assignments dev (initIoQueue allocated).2 as) s)
    ?_ ?_ (runOk_trivial _ as) h
  · refine ⟨⟨[], rfl, List.Sublist.refl _⟩, List.Sublist.refl _, rfl, ?_⟩
    rintro e ⟨⟩
  · intro as s a t hrun _ ih _ ha
    rw [assignments, outputs_snoc hrun ha]
    exact ih.step (reachable_inv hrun) ha

/-! ### The result -/

/-- Consecutive numbers below `2 ^ 64` increase as `u64`. -/
theorem pairwise_lt_of_range {l : List (ReqId × Nat)}
    (h : l.map Prod.snd = List.range' 1 l.length) (hlen : l.length < 2 ^ 64) :
    (l.map fun e => UInt64.ofNat e.2).Pairwise (· < ·) := by
  have hcomp : (l.map fun e => UInt64.ofNat e.2) = (List.range' 1 l.length).map UInt64.ofNat := by
    rw [← h, List.map_map]
    rfl
  rw [hcomp, List.pairwise_map]
  have hfits : ∀ i ∈ List.range' 1 l.length, i < UInt64.size := by
    intro i hi
    have hi' := (List.mem_range'_1.mp hi).2
    show i < 2 ^ 64
    omega
  refine List.Pairwise.imp_of_mem ?_ (List.pairwise_lt_range' (s := 1) (n := l.length))
  intro i j hi hj hij
  rw [UInt64.lt_iff_toNat_lt, UInt64.toNat_ofNat_of_lt' (hfits i hi),
    UInt64.toNat_ofNat_of_lt' (hfits j hj)]
  exact hij

theorem Inv.accepted_nodup (hs : Inv s) : s.accepted.Nodup := by
  have hnodup : (s.accepted : Multiset ReqId).Nodup := by
    rw [hs.sub.accepted_eq]
    exact Finset.nodup _
  exact Multiset.coe_nodup.mp hnodup

/-- **Nothing overtakes**, in every run of any number of submitters, the worker
and the cleanup, and for every outcome of `xa_store` and of the posts. -/
theorem reachable_ordered (dev : Dev) (allocated : Bool) (as : List Action) (s : St)
    (h : run (step dev) (initIoQueue allocated).2 as = some s) :
    Ordered dev (initIoQueue allocated).2 as s := by
  have hpipe := reachable_pipeline h
  obtain ⟨taken, haccepted, hsub⟩ := hpipe.taken
  have hassigned : ((assignments dev (initIoQueue allocated).2 as).map Prod.fst).Sublist
      s.accepted := by
    rw [haccepted]
    exact ((List.sublist_append_left _ _).trans hsub).trans (List.sublist_append_left _ _)
  have hposted : s.posted.Sublist (assignments dev (initIoQueue allocated).2 as) :=
    (List.sublist_append_left _ _).trans hpipe.posted
  have hnext : s.nextWrId = (assignments dev (initIoQueue allocated).2 as).length := by
    have hlen := congrArg List.length hpipe.numbers
    rw [List.length_map, List.length_range'] at hlen
    exact hlen.symm
  have hnumbers := hpipe.numbers
  rw [hnext] at hnumbers
  exact
    { accepted_nodup := (reachable_inv h).accepted_nodup
      posted_order := (hposted.map Prod.fst).trans hassigned
      assigned_order := hassigned
      consecutive := hnumbers
      increasing := pairwise_lt_of_range hnumbers
      posted_own := hposted
      stored_own := hpipe.stored }

namespace Small

/-- In the run of `trace`, request 1 fails to post and call 2 is turned away;
requests 0 and 1 got the numbers 1 and 2, and request 3 none. -/
theorem ordered_trace :
    ∃ s, run (step device) (initIoQueue true).2 trace = some s ∧
      assignments device (initIoQueue true).2 trace = [(0, 1), (1, 2)] ∧
      s.accepted = [0, 1, 3] ∧ Ordered device (initIoQueue true).2 trace s := by
  obtain ⟨s, hrun, htest⟩ := exists_of_run_any (δ := step device) (initIoQueue true).2 trace
    (fun s => s.accepted == [0, 1, 3]) (by decide +kernel)
  exact ⟨s, hrun, by decide +kernel, by simpa using htest,
    reachable_ordered device true trace s hrun⟩

end Small

end DirectIo

end DirectStorage
