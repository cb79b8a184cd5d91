/-
DirectStorage/UrmaCompletion.lean

Completion matching in the real transfer path.

`real_poll_completion` takes any completion record whose `user_ctx` is the
`request_id` of the request it polls for.  That id is chosen by the client.  A
request whose poll failed or timed out leaves its work request with the
provider, and a later request with the same id takes the late completion for its
own.

`OwnCompletion` is the property: `execute_real_xfer` returns 0 only after the
work request it posted itself has completed successfully.  It holds in every run
in which no work request is posted while an older one with the same id is still
undelivered (`NoStale`), and fails in others (`not_ownCompletion_stale`).
-/
import DirectStorage.UrmaProvider

namespace DirectStorage

namespace Urma

open Function

variable {r t r₀ : Real} {a : RealAction} {as : List RealAction} {c : CallId} {s u : Sys}
  {b : Action}

/-! ### The property -/

/-- `execute_real_xfer` posts the `i`-th work request, for request `c`. -/
def Posts (c : CallId) (i : Nat) (r : Real) (a : RealAction) (t : Real) : Prop :=
  (∃ post, a = .daemon (.workerExecute post)) ∧ (∃ k conn, r.sys.worker = .executing c k conn) ∧
    r.sys.posted.length = i ∧ ∃ wr, t.sys.posted = r.sys.posted ++ [wr]

/-- `execute_real_xfer` returns 0 for request `c`. -/
def ReturnsZero (c : CallId) (r : Real) (_ : RealAction) (t : Real) : Prop :=
  r.sys.worker = .polling c ∧ t.sys.worker = .finishing c 0

/-- The `i`-th work request is the last one posted, and has completed with
`URMA_CR_SUCCESS`. -/
def HasSucceeded (i : Nat) (r : Real) (_ : RealAction) (_ : Real) : Prop :=
  r.sys.posted.length = i + 1 ∧ r.completion i = some .success

/-- Whenever `execute_real_xfer` returns 0, the work request it posted before has
succeeded. -/
def OwnCompletion (r₀ : Real) (as : List RealAction) : Prop :=
  ∀ pre c, OccursAt Real.step r₀ as pre (ReturnsZero c) → ∃ pre' i, pre'.length < pre.length ∧
    OccursAt Real.step r₀ as pre' (Posts c i) ∧ OccursAt Real.step r₀ as pre (HasSucceeded i)

/-- When a request is executed, the completions of all earlier work requests with
its `request_id` have been delivered. -/
def NoStale (r : Real) (a : RealAction) : Prop :=
  match a, r.sys.worker with
  | .daemon (.workerExecute _), .executing c _ _ =>
      ∀ j < r.sys.posted.length, ∀ wr ∈ r.sys.posted[j]?,
        wr.userCtx = (r.sys.reqs c).requestId → r.delivered j = true
  | _, _ => True

instance (r : Real) (a : RealAction) : Decidable (NoStale r a) := by
  unfold NoStale
  split <;> infer_instance

/-! ### While the worker polls -/

theorem realWorkRequest_userCtx {req : Request} {p : Peer} {wr : WorkRequest}
    (h : realWorkRequest s req p = .ok wr) : wr.userCtx = req.requestId := by
  unfold realWorkRequest at h
  split at h
  · dsimp only at h
    split at h
    · cases h
      rfl
    · cases h
      rfl
  · cases h

/-- Only an execution posts. -/
theorem step_posted (h : step s b = some u) (hb : ∀ post, b ≠ .workerExecute post) :
    u.posted = s.posted := by
  cases htouches : b.touches with
  | false => exact (step_kept h).posted htouches
  | true =>
      unfold step at h
      split at h
      · cases h
      cases b with
      | workerExecute post => exact absurd rfl (hb post)
      | backendWrite offset data len =>
          obtain rfl := Option.some.inj h
          rfl
      | backendZero offset len =>
          obtain rfl := Option.some.inj h
          rfl
      | _ => cases htouches

/-- The worker polls because it did before, or because it has just posted. -/
theorem step_polling (hq : QueueInv s.queueView) (h : step s b = some u)
    (hw : u.worker = .polling c) :
    (s.worker = .polling c ∧ u.posted = s.posted ∧ u.reqs c = s.reqs c) ∨
      ∃ post k conn wr, b = .workerExecute post ∧ s.worker = .executing c k conn ∧
        wr.userCtx = (s.reqs c).requestId ∧ u.posted = s.posted ++ [wr] ∧ u.reqs = s.reqs := by
  cases step_cases h with
  | other hb hw' hgeo =>
      left
      have hhand : u.worker.inHand = s.worker.inHand := congrArg WorkerPc.inHand hw'
      rw [hw'] at hw
      have hacc : c ∈ s.accepted := hq.core.hand_accepted (congrArg WorkerPc.inHand hw)
      refine ⟨hw, step_posted h ?_, ((step_queueStep hq h).same_hand hq hhand).2 c hacc⟩
      rintro post rfl
      cases hb
  | dequeue uninit htop hres =>
      cases hres with
      | idle hempty hbytes hw' hreqs hfin =>
          rw [hw] at hw'
          rcases hw' with h₁ | h₁ | h₁ <;> cases h₁
      | valid c' k hd hw' hfin => cases hw.symm.trans hw'
      | invalid c' rc hfront hrc hbytes hpeers hstatus hfin hwild hw' =>
          rw [hw] at hw'
          rcases hw' with h₁ | h₁ <;> cases h₁
  | execute post hexec =>
      right
      obtain ⟨c', k, conn, hw', hres⟩ := workerExecute_executed hexec
      cases hres with
      | mock rc mem hbm hmock hrc hu =>
          rw [hu] at hw
          cases hw
      | fault hmock hrc hu =>
          rw [hu] at hw
          cases hw
      | refused rc hreal hno hu =>
          rw [hu] at hw
          cases hw
      | posted wr hreal hpost hwr hu =>
          rw [hu] at hw
          cases hw
          exact ⟨post, k, conn, wr, rfl, hw', realWorkRequest_userCtx hwr, by rw [hu], by rw [hu]⟩
  | poll rc c' hw' ht =>
      rw [ht] at hw
      cases hw
  | complete c' rc hw' hres => cases hw.symm.trans hres.worker
  | log c' rc hw' ht =>
      rw [ht] at hw
      cases hw

/-- What is known while the worker polls for `c`: its work request is the last
one posted, and every other one with its id has been delivered. -/
structure OwnPosted (r₀ : Real) (as : List RealAction) (r : Real) (c : CallId) (i : Nat)
    (pre : List RealAction) : Prop where
  posts : OccursAt Real.step r₀ as pre (Posts c i)
  length : r.sys.posted.length = i + 1
  others : ∀ j wr, j ≠ i → r.sys.posted[j]? = some wr →
    wr.userCtx = (r.sys.reqs c).requestId → r.delivered j = true

def PollInv (r₀ : Real) (as : List RealAction) (r : Real) : Prop :=
  ∀ c, r.sys.worker = .polling c → ∃ i pre, OwnPosted r₀ as r c i pre

/-- Steps that post nothing and keep the request keep what is known. -/
theorem OwnPosted.snoc {i : Nat} {pre : List RealAction} (h : OwnPosted r₀ as r c i pre)
    (a : RealAction) (hposted : t.sys.posted = r.sys.posted)
    (hreqs : t.sys.reqs c = r.sys.reqs c)
    (hdel : ∀ j, r.delivered j = true → t.delivered j = true) :
    OwnPosted r₀ (as ++ [a]) t c i pre := by
  refine ⟨h.posts.snoc a, by rw [hposted]; exact h.length, ?_⟩
  intro j wr hj hwr huser
  rw [hposted] at hwr
  rw [hreqs] at huser
  exact hdel j (h.others j wr hj hwr huser)

theorem PollInv.step (h : PollInv r₀ as r) (hr : Reachable r.sys) (hok : NoStale r a)
    (hrun : run Real.step r₀ as = some r) (hstep : r.step a = some t) :
    PollInv r₀ (as ++ [a]) t := by
  intro c hw
  cases step_realStep hstep with
  | daemon b u hpoll hu =>
      rcases step_polling hr.queueInv hu hw with ⟨hw', hposted, hreqs⟩ |
        ⟨post, k, conn, wr, rfl, hw', huser, hposted, hreqs⟩
      · obtain ⟨i, pre, hown⟩ := h c hw'
        exact ⟨i, pre, hown.snoc _ hposted hreqs fun _ hj => hj⟩
      · -- the new work request is the only one not delivered
        refine ⟨r.sys.posted.length, as, ?_, ?_, ?_⟩
        · exact OccursAt.last hrun hstep ⟨⟨post, rfl⟩, ⟨k, conn, hw'⟩, rfl, wr, hposted⟩
        · show u.posted.length = _
          rw [hposted, List.length_append]
          rfl
        · intro j wr' hj hwr' huser'
          have hlt : j < r.sys.posted.length := by
            have hlen := (List.getElem?_eq_some_iff.mp hwr').1
            have hlen' : j < u.posted.length := hlen
            rw [hposted, List.length_append, List.length_singleton] at hlen'
            omega
          have hwr'' : u.posted[j]? = some wr' := hwr'
          rw [hposted, List.getElem?_append_left hlt] at hwr''
          have huser'' : wr'.userCtx = (u.reqs c).requestId := huser'
          rw [hreqs] at huser''
          simp only [NoStale, hw'] at hok
          exact hok j hlt wr' hwr'' huser''
  | nbdRead offset len =>
      obtain ⟨i, pre, hown⟩ := h c hw
      exact ⟨i, pre, hown.snoc _ rfl rfl fun _ hj => hj⟩
  | moveRead i' lo n wr hrunning hwr hop hopen hin hlocal =>
      obtain ⟨i, pre, hown⟩ := h c hw
      exact ⟨i, pre, hown.snoc _ rfl rfl fun _ hj => hj⟩
  | moveWrite i' lo n wr hwr hop =>
      obtain ⟨i, pre, hown⟩ := h c hw
      exact ⟨i, pre, hown.snoc _ rfl rfl fun _ hj => hj⟩
  | complete i' status wr hwr hopen hall =>
      obtain ⟨i, pre, hown⟩ := h c hw
      exact ⟨i, pre, hown.snoc _ rfl rfl fun _ hj => hj⟩
  | again out c' r' p hw' hfetch honce =>
      obtain ⟨heq, hdel, -⟩ := fetch_some hfetch
      have hsys : r'.sys = r.sys := by rw [heq]
      obtain ⟨i, pre, hown⟩ := h c (hsys ▸ hw)
      exact ⟨i, pre, hown.snoc _ (congrArg Sys.posted hsys) (congrArg (fun s => s.reqs c) hsys)
        hdel⟩
  | returns out c' r' p rc u hw' hfetch honce hu =>
      -- the poll is over
      have hu' : u = { r.sys with worker := .finishing c' rc } := by
        have hpoll : workerPoll r.sys rc = some u := by simpa only [Urma.step, hw'] using hu
        obtain ⟨c'', hc'', hu'⟩ := workerPoll_result hpoll
        cases hw'.symm.trans hc''
        exact hu'
      have hwu : u.worker = .polling c := hw
      rw [hu'] at hwu
      cases hwu

/-! ### The result -/

/-- A poll that returns 0 took the completion of the worker's own work request. -/
theorem OwnPosted.succeeded {i : Nat} {pre : List RealAction} (h : OwnPosted r₀ as r c i pre)
    (hw : r.sys.worker = .polling c) (hstep : r.step a = some t)
    (hret : t.sys.worker = .finishing c 0) : HasSucceeded i r a t := by
  refine ⟨h.length, ?_⟩
  cases step_realStep hstep with
  | daemon b u hpoll hu =>
      -- no other step ends a poll
      have hret' : u.worker = .finishing c 0 := hret
      cases step_cases hu with
      | other hb hw' hgeo => cases (hw'.trans hw).symm.trans hret'
      | dequeue uninit htop hres => cases hw.symm.trans htop
      | execute post hexec =>
          obtain ⟨c', k, conn, hw', -⟩ := workerExecute_worker hexec
          cases hw.symm.trans hw'
      | poll rc c' hw' ht => exact absurd rfl (hpoll rc)
      | complete c' rc hw' hres => cases hw.symm.trans hw'
      | log c' rc hw' ht => cases hw.symm.trans hw'
  | nbdRead offset len => cases hw.symm.trans hret
  | moveRead i' lo n wr hrunning hwr hop hopen hin hlocal => cases hw.symm.trans hret
  | moveWrite i' lo n wr hwr hop => cases hw.symm.trans hret
  | complete i' status wr hwr hopen hall => cases hw.symm.trans hret
  | again out c' r' p hw' hfetch honce =>
      have hsys : r'.sys = r.sys := by rw [(fetch_some hfetch).1]
      have hret' : r'.sys.worker = .finishing c 0 := hret
      rw [hsys] at hret'
      cases hw.symm.trans hret'
  | returns out c' r' p rc u hw' hfetch honce hu =>
      cases hw.symm.trans hw'
      have hrc : rc = 0 := by
        have hpoll : workerPoll r.sys rc = some u := by simpa only [Urma.step, hw] using hu
        obtain ⟨c'', hc'', hu'⟩ := workerPoll_result hpoll
        have hret' : u.worker = .finishing c 0 := hret
        rw [hu'] at hret'
        cases hret'
        rfl
      subst hrc
      have honce' : realPollOnce (r.sys.reqs c).requestId p = some 0 := by
        rcases honce with h₀ | ⟨-, h₀⟩
        · exact h₀
        · cases h₀
      cases p with
      | failed => cases honce'
      | empty => cases honce'
      | record userCtx status =>
          simp only [realPollOnce] at honce'
          split_ifs at honce' with hctx hstatus
          · exact absurd (Option.some.inj honce') (by decide)
          -- the record is of an undelivered work request with this id, so of this one
          · obtain ⟨j, wr, hwr, huser, hcompl, hfresh⟩ :=
              (fetch_some hfetch).2.2 userCtx status rfl
            have hj : j = i := by
              by_contra hne
              have hdel := h.others j wr hne hwr (huser.trans (not_not.mp hctx))
              cases hfresh.symm.trans hdel
            rw [← hj, hcompl, not_not.mp hstatus]

/-- **Completions match** in every run in which no id is reused while an older
work request with it is undelivered. -/
theorem ownCompletion_of_noStale (hinit : RealInitial r₀) (hok : RunOk Real.step NoStale r₀ as)
    (hrun : run Real.step r₀ as = some r) : OwnCompletion r₀ as := by
  have hinv : PollInv r₀ as r ∧ OwnCompletion r₀ as := by
    refine run_history (P := fun as r => PollInv r₀ as r ∧ OwnCompletion r₀ as) ?_ ?_ hok hrun
    · refine ⟨?_, ?_⟩
      · obtain ⟨s, remote, hs, rfl⟩ := hinit
        obtain ⟨b, m, config, queueOk, mutexRc, provider, threadRc, -, -, rfl⟩ := hs
        rintro c ⟨⟩
      · rintro pre c ⟨a, post, u, v, heq, -⟩
        simp at heq
    · rintro as r a t hrun' hok' ⟨hpoll, hall⟩ hns hstep
      refine ⟨hpoll.step (Real.reachable hinit hrun') hns hrun' hstep, ?_⟩
      intro pre c hocc
      rcases hocc.of_snoc hrun' hstep with hold | ⟨rfl, hw, hret⟩
      · obtain ⟨pre', i, hlt, hposts, hsucc⟩ := hall pre c hold
        exact ⟨pre', i, hlt, hposts.snoc a, hsucc.snoc a⟩
      · obtain ⟨i, pre', hown⟩ := hpoll c hw
        exact ⟨pre', i, hown.posts.length_lt, hown.posts.snoc a,
          OccursAt.last hrun' hstep (hown.succeeded hw hstep hret)⟩
  exact hinv.2

/-! ### The small daemon in real mode -/

namespace Small

/-- The small daemon, in real mode with an initialised provider. -/
def realStart : Real :=
  Real.start (Sys.start backend { Mgr.fresh (some ⟨true, false, 4⟩) with
    realInitialized := true, localTseg := some 100 }) fun _ _ => 1

theorem realStart_initial : RealInitial realStart := by
  refine ⟨_, _, ⟨backend, _, some ⟨true, false, 4⟩, true, 0, .ok 100, 0, ?_, rfl, rfl⟩, rfl⟩
  exact ⟨rfl, by decide, by decide, by decide⟩

/-- Peer 7 connects as call 0. -/
def realConnect : List RealAction :=
  [.daemon (.peerConnect (peer 7) ⟨true, some 1, some 2⟩), .daemon (.peerConnectLocked 0)]

/-- Transfer call `c` is submitted and its work request posted. -/
def realPost : List RealAction :=
  [.daemon (.transferSync (xfer 65536) 0 now), .daemon (.workerDequeue .fault),
    .daemon (.workerExecute true)]

/-- The first transfer is completed and its call returns. -/
def realReturn : List RealAction :=
  [.daemon .workerComplete, .daemon .workerLog, .daemon (.timedwait 1 0 now)]

/-- Two transfers with one id, each completed and polled for. -/
def realTransfers : List RealAction :=
  realConnect ++ realPost ++
    [.move 0 0 512, .complete 0 .success, .poll .empty, .poll (.deliver 0)] ++ realReturn ++
    realPost ++ [.move 1 0 512, .complete 1 .success, .poll .empty, .poll (.deliver 1)]

/-- The poll of a first transfer fails.  A second one with the same id takes the
first one's late completion for its own. -/
def staleTransfer : List RealAction :=
  realConnect ++ realPost ++ (.poll .failed :: realReturn) ++
    realPost ++ [.move 0 0 512, .complete 0 .success, .poll (.deliver 0)]

end Small

/-- The second transfer reuses the id of the first, whose completion has been
delivered. -/
theorem ownCompletion_small : ∃ r, run Real.step Small.realStart Small.realTransfers = some r ∧
    r.sys.worker = .finishing 2 0 ∧ r.sys.posted.map WorkRequest.userCtx = [1, 1] ∧
    OwnCompletion Small.realStart Small.realTransfers := by
  obtain ⟨r, hrun, hr⟩ := exists_of_run_any (δ := Real.step) Small.realStart Small.realTransfers
    (fun r => r.sys.worker = .finishing 2 0 ∧ r.sys.posted.map WorkRequest.userCtx = [1, 1])
    (by decide +kernel)
  obtain ⟨hw, hposted⟩ := of_decide_eq_true hr
  have hok : RunOk Real.step NoStale Small.realStart Small.realTransfers := by decide +kernel
  exact ⟨r, hrun, hw, hposted, ownCompletion_of_noStale Small.realStart_initial hok hrun⟩

/-- **A stale completion is taken for the own one**: the second transfer returns 0
although its work request has not completed. -/
theorem not_ownCompletion_stale : ∃ r,
    run Real.step Small.realStart Small.staleTransfer = some r ∧
    r.sys.worker = .finishing 2 0 ∧ r.sys.posted.length = 2 ∧ r.completion 1 = none ∧
    ¬ OwnCompletion Small.realStart Small.staleTransfer := by
  obtain ⟨r, hrun, hr⟩ := exists_of_run_any (δ := Real.step) Small.realStart Small.staleTransfer
    (fun r => r.sys.worker = .finishing 2 0 ∧ r.sys.posted.length = 2 ∧ r.completion 1 = none)
    (by decide +kernel)
  obtain ⟨hw, hlen, hopen⟩ := of_decide_eq_true hr
  refine ⟨r, hrun, hw, hlen, hopen, ?_⟩
  intro hown
  obtain ⟨u, hu, hlast⟩ : ∃ u, run Real.step Small.realStart Small.staleTransfer.dropLast = some u ∧
      u.step (.poll (.deliver 0)) = some r := run_snoc_iff.mp hrun
  obtain ⟨u', hu', hp⟩ := exists_of_run_any (δ := Real.step) Small.realStart
    Small.staleTransfer.dropLast
    (fun u => u.sys.worker = .polling 2 ∧ u.sys.posted.length = 2 ∧ u.completion 1 = none)
    (by decide +kernel)
  obtain rfl := Option.some.inj (hu.symm.trans hu')
  obtain ⟨hw', hlen', hopen'⟩ := of_decide_eq_true hp
  obtain ⟨pre', i, -, -, hsucc⟩ := hown _ 2 (OccursAt.last hu hlast ⟨hw', hw⟩)
  rcases hsucc.of_snoc hu hlast with hold | ⟨-, hlen'', hcompl⟩
  · exact absurd hold.length_lt (lt_irrefl _)
  · -- the last work request is the second one
    have hi : i = 1 := by omega
    subst hi
    cases hopen'.symm.trans hcompl

end Urma

end DirectStorage
