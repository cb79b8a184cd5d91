/-
DirectStorage/UrmaTransfer.lean

What a mock transfer does to memory.

A transfer call acts through several steps: its own (submit, wait) and the
worker's (dequeue, execute, complete, log).  `TransferCorrect` says what these
steps together may do: if the call returns 0, exactly one of them touches
memory, and it copies the requested bytes and nothing else (`CopyEffect`); if
the call returns another code, none of them does.

The worker replaces the requested remote address by the start of the segment,
so this holds for requests that ask for the start of the segment
(`AtSegmentStart`, together with the absence of the slot race), and fails for
others.

The proof is a history invariant: `outcome s c` is the result of request `c`
as far as it is decided, and `step_outcome` says how a step can change it and
what it may touch on the way.
-/
import DirectStorage.UrmaIsolation

namespace DirectStorage

namespace Urma

open Function

variable {s t : Sys} {a : Action} {c : CallId}

/-! ### The property -/

/-- The request the worker is working on. -/
def WorkerPc.request : WorkerPc → Option CallId
  | .executing c _ _ => some c
  | .polling c => some c
  | .finishing c _ => some c
  | .logging c _ => some c
  | _ => none

/-- The step is made by transfer call `c`, or by the worker for it. -/
def ActsFor (c : CallId) (s : Sys) : Action → Prop
  | .transferSync _ _ _ => s.nextCall = c
  | .timedwait c' _ _ => c' = c
  | .workerDequeue _ => s.mgr.queue.front = some c
  | .workerExecute _ | .workerPoll _ | .workerComplete | .workerLog =>
      s.worker.request = some c
  | _ => False

/-- The step acts for `c` and changes a byte of the backend or of a buffer. -/
def Touches (c : CallId) (s : Sys) (a : Action) (t : Sys) : Prop :=
  ActsFor c s a ∧ ¬ SameBytes s t

/-- `m'` is `m` with the `len` bytes from `off` on replaced by those of `src`
from `sOff` on. -/
structure Copied (m m' : ByteMem) (off : Nat) (src : ByteMem) (sOff len : Nat) : Prop where
  inside : ∀ i < len, m' (off + i) = src (sOff + i)
  outside : ∀ j, j < off ∨ off + len ≤ j → m' j = m j

/-- The exact effect of transfer `x` between `s` and `t`, when `k` is the slot
and `b` the buffer of its peer: the bytes of the one range are those of the
other, and no other byte of the backend or of any buffer differs. -/
structure CopyEffect (s t : Sys) (x : UrmaTransfer) (k : Slot) (b : CallId) : Prop where
  active : (s.mgr.peers k).active = true
  peer : (s.mgr.peers k).peerId = x.peerId
  buffer : (s.mgr.peers k).mockHbm = some b
  /-- No other connected peer uses that buffer. -/
  alone : ∀ k', (s.mgr.peers k').active = true → (s.mgr.peers k').mockHbm = some b → k' = k
  range : (s.mgr.peers k).segVa.toNat ≤ x.remoteHbmAddr.toNat ∧
    x.remoteHbmAddr.toNat - (s.mgr.peers k).segVa.toNat + x.length.toNat ≤
      (s.mgr.peers k).segLen.toNat
  toHbm : x.direction = ramdiskToHbm → t.backend = s.backend ∧
    Copied (s.hbm b).mem (t.hbm b).mem
      (x.remoteHbmAddr.toNat - (s.mgr.peers k).segVa.toNat) s.backend.mem
      x.localOffset.toNat x.length.toNat
  toRamdisk : x.direction = hbmToRamdisk → t.hbm b = s.hbm b ∧
    Copied s.backend.mem t.backend.mem x.localOffset.toNat (s.hbm b).mem
      (x.remoteHbmAddr.toNat - (s.mgr.peers k).segVa.toNat) x.length.toNat
  direction : x.direction = ramdiskToHbm ∨ x.direction = hbmToRamdisk
  others : ∀ b', b' ≠ b → t.hbm b' = s.hbm b'

/-- The step executes `c`, with the effect of transfer `x`. -/
def Executes (c : CallId) (x : UrmaTransfer) (s : Sys) (a : Action) (t : Sys) : Prop :=
  ActsFor c s a ∧ (∃ post, a = .workerExecute post) ∧ ∃ k b, CopyEffect s t x k b

/-- Exactly one step for `c` touched memory, and it executed `x`. -/
def ExecutedOnce (s₀ : Sys) (as : List Action) (c : CallId) (x : UrmaTransfer) : Prop :=
  ∃ pre, OccursAt step s₀ as pre (Executes c x) ∧
    ∀ pre', pre' ≠ pre → ¬ OccursAt step s₀ as pre' (Touches c)

/-- What transfer call `c` with argument `x` did in the run `as` is what its
return code says. -/
def TransferCorrect (s₀ : Sys) (as : List Action) (c : CallId) (x : UrmaTransfer)
    (rc : Int) : Prop :=
  (rc = 0 → ExecutedOnce s₀ as c x) ∧ (rc ≠ 0 → ¬ Occurs step s₀ as (Touches c))

/-- The side condition for request `c`: when the worker dequeues it and it is
valid, it asks for the start of its peer's segment; and while it is validated
and not executed, no step empties the slot. -/
def AtSegmentStart (c : CallId) (s : Sys) (a : Action) : Prop :=
  (∀ uninit k, a = .workerDequeue uninit → s.mgr.queue.front = some c →
    validateXferLocked s.mgr s.backend (s.reqs c).xfer = .ok k →
    (s.reqs c).remoteHbmAddr = (s.mgr.peers k).segVa) ∧
  (∀ k conn, s.worker = .executing c k conn → vacates s a ≠ some k)

/-! ### The copy -/

theorem copied_copy (m src : ByteMem) (off sOff len : Nat) :
    Copied m (m.copy off src sOff len) off src sOff len :=
  ⟨fun _ hi => ByteMem.copy_inside m src off sOff hi,
    fun _ hj => ByteMem.copy_outside m src off sOff hj⟩

/-- A ready request of transfer `x` is executed with the effect of `x`. -/
theorem ExecReady.execute {k : Slot} {conn : CallId} {x : UrmaTransfer} {post : Bool}
    (h : ExecReady s c k conn) (hp : PeerInv s.peerView) (hlive : s.backend.Live)
    (hmock : s.mgr.useMock = true) (hw : s.worker = .executing c k conn)
    (hx : (s.reqs c).xfer = x) (hstep : workerExecute s post = some t) :
    t.worker = .finishing c 0 ∧ t.finished = s.finished ∧ t.reqs = s.reqs ∧
      CopyEffect s t x k conn := by
  obtain ⟨hbuf, hblive, hblen⟩ := hp.mock_slot hmock h.active
  rw [h.conn] at hbuf hblive hblen
  have hoff : (s.reqs c).remoteHbmAddr - (s.mgr.peers k).segVa = 0 := by
    rw [h.addr, UInt64.sub_self]
  have hoff' : x.remoteHbmAddr.toNat - (s.mgr.peers k).segVa.toNat = 0 := by
    rw [← hx]
    show (s.reqs c).remoteHbmAddr.toNat - _ = 0
    rw [h.addr, Nat.sub_self]
  -- nobody else is connected with this buffer
  have halone : ∀ k', (s.mgr.peers k').active = true →
      (s.mgr.peers k').mockHbm = some conn → k' = k :=
    fun k' hk' hbuf' => hp.buffer_alone hmock hk' h.active (hbuf'.trans hbuf.symm)
  have hrange : (s.mgr.peers k).segVa.toNat ≤ x.remoteHbmAddr.toNat ∧
      x.remoteHbmAddr.toNat - (s.mgr.peers k).segVa.toNat + x.length.toNat ≤
        (s.mgr.peers k).segLen.toNat := by
    refine ⟨?_, ?_⟩
    · rw [← hx]
      exact (congrArg UInt64.toNat h.addr).ge
    · rw [hoff', Nat.zero_add, ← hx]
      exact h.fits
  have hguard : (s.hbm conn).live = true ∧
      (0 : UInt64).toNat + (s.reqs c).length.toNat ≤ (s.hbm conn).len.toNat ∧
      (s.reqs c).localOffset.toNat + (s.reqs c).length.toNat ≤ s.backend.size.toNat := by
    refine ⟨hblive, ?_, h.inside⟩
    rw [hblen, UInt64.toNat_zero, Nat.zero_add]
    exact h.fits
  unfold workerExecute at hstep
  rw [hw] at hstep
  dsimp only at hstep
  rw [if_pos hmock] at hstep
  unfold executeMockXfer at hstep
  rw [hbuf, lock_live hlive, hoff] at hstep
  dsimp only at hstep
  rw [if_neg (not_not.mpr rfl), if_pos hguard] at hstep
  subst hx
  by_cases hdir : (s.reqs c).direction = ramdiskToHbm
  · rw [if_pos hdir] at hstep
    obtain rfl := Option.some.inj hstep
    refine ⟨rfl, rfl, rfl, h.active, h.peer, hbuf, halone, hrange, ?_, ?_, h.direction, ?_⟩
    · intro _
      refine ⟨rfl, ?_⟩
      show Copied _ (update s.hbm conn _ conn).mem _ _ _ _
      rw [update_self, hoff']
      exact copied_copy _ _ _ _ _
    · intro hdir'
      exact absurd (hdir.symm.trans hdir') (by decide)
    · exact fun b' hb' => update_of_ne hb' _ _
  · rw [if_neg hdir] at hstep
    obtain rfl := Option.some.inj hstep
    refine ⟨rfl, rfl, rfl, h.active, h.peer, hbuf, halone, hrange, ?_, ?_, h.direction, ?_⟩
    · exact fun hdir' => absurd hdir' hdir
    · intro _
      refine ⟨rfl, ?_⟩
      rw [hoff']
      exact copied_copy _ _ _ _ _
    · exact fun _ _ => rfl

/-! ### The outcome of a request -/

/-- The result of request `c`, from the moment the worker knows it. -/
def Sys.outcome (s : Sys) (c : CallId) : Option Int :=
  if c ∈ s.finished then some (s.reqs c).status
  else
    match s.worker with
    | .finishing c' rc => if c' = c then some rc else none
    | _ => none

theorem outcome_finished (h : c ∈ s.finished) : s.outcome c = some (s.reqs c).status :=
  if_pos h

theorem outcome_finishing {rc : Int} (h : c ∉ s.finished) (hw : s.worker = .finishing c rc) :
    s.outcome c = some rc := by
  unfold Sys.outcome
  rw [if_neg h, hw]
  exact if_pos rfl

theorem outcome_none (h : c ∉ s.finished) (hw : ∀ rc, s.worker ≠ .finishing c rc) :
    s.outcome c = none := by
  unfold Sys.outcome
  rw [if_neg h]
  split
  · next c' rc hw' =>
    split_ifs with e
    · subst e
      exact absurd hw' (hw rc)
    · rfl
  · rfl

/-- The outcome depends on the finished requests' statuses and on whether the
worker is finishing `c`. -/
theorem outcome_congr (hfin : t.finished = s.finished)
    (hstatus : c ∈ s.finished → (t.reqs c).status = (s.reqs c).status)
    (hw : ∀ rc, t.worker = .finishing c rc ↔ s.worker = .finishing c rc) :
    t.outcome c = s.outcome c := by
  by_cases hc : c ∈ s.finished
  · rw [outcome_finished hc, outcome_finished (hfin ▸ hc), hstatus hc]
  · have hc' : c ∉ t.finished := hfin ▸ hc
    by_cases hex : ∃ rc, s.worker = .finishing c rc
    · obtain ⟨rc, hrc⟩ := hex
      rw [outcome_finishing hc hrc, outcome_finishing hc' ((hw rc).mpr hrc)]
    · have hno : ∀ rc, s.worker ≠ .finishing c rc := fun rc hrc => hex ⟨rc, hrc⟩
      rw [outcome_none hc hno, outcome_none hc' fun rc hrc => hno rc ((hw rc).mp hrc)]

/-- A request with an outcome was accepted. -/
theorem outcome_accepted (hq : QueueInv s.queueView) {rc : Int} (h : s.outcome c = some rc) :
    c ∈ s.accepted := by
  by_contra hacc
  have hfin : c ∉ s.finished := fun hc => hacc (hq.core.finished_accepted hc)
  have hw : ∀ rc, s.worker ≠ .finishing c rc := by
    intro rc' hw'
    exact hacc (hq.core.hand_accepted (congrArg WorkerPc.inHand hw'))
  rw [outcome_none hfin hw] at h
  cases h

/-! ### The invariant -/

/-- The invariant of runs that meet `AtSegmentStart c`. -/
structure TransferInv (c : CallId) (s : Sys) : Prop where
  queue : QueueInv s.queueView
  peers : PeerInv s.peerView
  live : s.backend.Live
  mock : s.mgr.useMock = true
  nopoll : ∀ c', s.worker ≠ .polling c'
  /-- When the worker is about to execute `c`, it is ready, and it is what the
  call asked for. -/
  ready : ∀ k conn, s.worker = .executing c k conn → ExecReady s c k conn ∧
    ∀ x pc, s.transfer c = some (x, pc) → (s.reqs c).xfer = x

theorem transferInv_initial (h : Initial s) (hmock : s.mgr.useMock = true) (c : CallId) :
    TransferInv c s := by
  have hfree := raceFree_initial h
  obtain ⟨b, m, config, queueOk, mutexRc, provider, threadRc, -, -, rfl⟩ := h
  exact ⟨hfree.queue, hfree.peers, hfree.live, hmock, nofun, nofun⟩

theorem PeerStep.mock_eq {v w : PeerView} {o : Option Slot} (h : PeerStep v o w) :
    w.mock = v.mock := by
  cases h <;> rfl

/-- In mock mode the worker never polls. -/
theorem workerExecute_mock {post : Bool} (h : workerExecute s post = some t)
    (hmock : s.mgr.useMock = true) (c' : CallId) : t.worker ≠ .polling c' := by
  unfold workerExecute at h
  split at h
  · rw [if_pos hmock] at h
    split at h
    · obtain rfl := Option.some.inj h
      nofun
    · obtain rfl := Option.some.inj h
      nofun
  · cases h

theorem nopoll_step (hstep : step s a = some t) (hmock : s.mgr.useMock = true)
    (h : ∀ c', s.worker ≠ .polling c') (c' : CallId) : t.worker ≠ .polling c' := by
  intro hw
  cases step_cases hstep with
  | other ha hw' hgeo => exact h c' (hw'.symm.trans hw)
  | dequeue uninit htop hres =>
      cases hres with
      | idle hempty hbytes hw' hreqs hfin =>
          rw [hw] at hw'
          rcases hw' with h₁ | h₁ | h₁ <;> cases h₁
      | valid c₁ k hd hw' hfin => cases hw.symm.trans hw'
      | invalid c₁ rc hfront hrc hbytes hpeers hstatus hfin hwild hw' =>
          rw [hw] at hw'
          rcases hw' with h₁ | h₁ <;> cases h₁
  | execute post hexec => exact workerExecute_mock hexec hmock c' hw
  | poll rc c₁ hw' ht =>
      rw [ht] at hw
      cases hw
  | complete c₁ rc hw' hres => cases hw.symm.trans hres.worker
  | log c₁ rc hw' ht =>
      rw [ht] at hw
      cases hw

/-- Dequeued under the side condition, a request keeps the address it asked
for. -/
theorem Dequeued.xfer_eq {k : Slot} {uninit : UninitRead} (h : Dequeued s t c k)
    (hok : AtSegmentStart c s (.workerDequeue uninit)) : (t.reqs c).xfer = (s.reqs c).xfer := by
  have haddr := hok.1 uninit k rfl h.front (validateXferLocked_ok_iff.mpr h.valid)
  rw [h.reqs, update_self, ← haddr]

theorem TransferInv.step (h : TransferInv c s) (hok : AtSegmentStart c s a)
    (hstep : step s a = some t) : TransferInv c t := by
  have hqstep := step_queueStep h.queue hstep
  have hpstep := step_peerStep h.peers hstep
  refine ⟨hqstep.preserves h.queue, hpstep.preserves h.peers, (step_geometry hstep).live h.live,
    hpstep.mock_eq.trans h.mock, nopoll_step hstep h.mock h.nopoll, ?_⟩
  intro k conn hw
  rcases step_executing hstep hw with hbefore | ⟨uninit, rfl, hdeq, rfl⟩
  · obtain ⟨hready, hargs⟩ := h.ready k conn hbefore
    refine ⟨hready.step h.queue h.peers hstep hbefore hw (hok.2 k conn hbefore), ?_⟩
    intro x pc hx
    have hacc := h.queue.core.hand_accepted (congrArg WorkerPc.inHand hbefore)
    obtain ⟨pc', hx'⟩ := hqstep.arg_kept h.queue hacc hx
    have hreq := (hqstep.same_hand h.queue
      (congrArg WorkerPc.inHand (hw.trans hbefore.symm))).2 c hacc
    exact (congrArg Request.xfer hreq).trans (hargs x pc' hx')
  · refine ⟨hdeq.execReady h.live, ?_⟩
    intro x pc hx
    obtain ⟨hacc, hndeq⟩ := h.queue.core.front_pending hdeq.front
    obtain ⟨pc', hx'⟩ := hqstep.arg_kept h.queue hacc hx
    exact (hdeq.xfer_eq hok).trans ((h.queue.subs.args c x pc' hx' hacc).2 hndeq)

/-! ### One step -/

/-- How a step can change the outcome of `c`, and what it touches for `c`. -/
inductive OutcomeStep (c : CallId) (s : Sys) (a : Action) (t : Sys) : Prop
  | same (hout : t.outcome c = s.outcome c) (hbytes : ActsFor c s a → SameBytes s t)
  | fails (rc : Int) (hrc : rc ≠ 0) (hs : s.outcome c = none) (ht : t.outcome c = some rc)
      (hbytes : SameBytes s t)
  | succeeds (hacc : c ∈ s.accepted) (hs : s.outcome c = none) (ht : t.outcome c = some 0)
      (hexec : ∀ x pc, s.transfer c = some (x, pc) → Executes c x s a t)

/-- The steps of the call itself touch no memory. -/
theorem actsFor_other (hstep : step s a = some t) (ha : a.byWorker = false)
    (hact : ActsFor c s a) : SameBytes s t := by
  unfold step at hstep
  split at hstep
  · cases hstep
  cases a with
  | transferSync x timeoutMs now =>
      obtain rfl := Option.some.inj hstep
      exact (transferSync_frame s x timeoutMs now).2
  | timedwait c' rc now => exact (timedwait_frame hstep).2
  | workerDequeue uninit => cases ha
  | workerExecute post => cases ha
  | workerPoll rc => cases ha
  | workerComplete => cases ha
  | workerLog => cases ha
  | _ => cases hact

theorem outcomeStep_other (hq : QueueInv s.queueView) (hstep : step s a = some t)
    (ha : a.byWorker = false) (hw : t.worker = s.worker) : OutcomeStep c s a t := by
  obtain ⟨hfin, hreqs⟩ := (step_queueStep hq hstep).same_hand hq (congrArg WorkerPc.inHand hw)
  refine .same (outcome_congr hfin ?_ ?_) (actsFor_other hstep ha)
  · exact fun hc => congrArg Request.status (hreqs c (hq.core.finished_accepted hc))
  · intro rc
    rw [hw]

theorem outcomeStep_dequeue (hq : QueueInv s.queueView) (htop : s.worker = .top)
    (hres : DequeueResult s t) : OutcomeStep c s a t := by
  have hno : ∀ rc, s.worker ≠ .finishing c rc := by
    intro rc hw
    cases htop.symm.trans hw
  -- unless the worker now finishes `c`, nothing is decided
  have hsame : t.finished = s.finished → (∀ c', (t.reqs c').status = (s.reqs c').status) →
      SameBytes s t → (∀ rc, t.worker ≠ .finishing c rc) → OutcomeStep c s a t := by
    intro hfin hstatus hbytes hno'
    refine .same (outcome_congr hfin (fun _ => hstatus c) ?_) fun _ => hbytes
    exact fun rc => ⟨fun h => absurd h (hno' rc), fun h => absurd h (hno rc)⟩
  cases hres with
  | idle hempty hbytes hw hreqs hfin =>
      refine hsame hfin (fun c' => by rw [hreqs]) hbytes ?_
      intro rc h
      rw [h] at hw
      rcases hw with h₁ | h₁ | h₁ <;> cases h₁
  | valid c' k hd hw hfin =>
      refine hsame hfin ?_ hd.bytes fun rc h => by cases h.symm.trans hw
      rw [hd.reqs]
      exact status_setAddr s.reqs c' _
  | invalid c' rc hfront hrc hbytes hpeers hstatus hfin hwild hw =>
      by_cases hfinishing : t.worker = .finishing c rc
      · -- `c` itself failed re-validation
        have hcc : c' = c := by
          rw [hfinishing] at hw
          rcases hw with h₁ | h₁ <;> cases h₁
          rfl
        subst hcc
        have hnf : c' ∉ s.finished := fun hc =>
          (hq.core.front_pending hfront).2 (hq.core.finished_dequeued hc)
        exact .fails rc (validateXferLocked_error_ne hrc) (outcome_none hnf hno)
          (outcome_finishing (hfin ▸ hnf) hfinishing) hbytes
      · refine hsame hfin hstatus hbytes ?_
        intro rc' h
        rcases hw with hw | hw
        · cases h.symm.trans hw
          exact hfinishing hw
        · cases h.symm.trans hw

theorem outcomeStep_execute (h : TransferInv c s) {post : Bool}
    (hstep : step s (.workerExecute post) = some t) (hexec : workerExecute s post = some t) :
    OutcomeStep c s (.workerExecute post) t := by
  obtain ⟨c', k, conn, hw, hw'⟩ := workerExecute_worker hexec
  by_cases e : c' = c
  · subst e
    obtain ⟨hready, hargs⟩ := h.ready k conn hw
    have hnf : c' ∉ s.finished :=
      h.queue.core.hand_not_finished (congrArg WorkerPc.inHand hw)
    obtain ⟨hfinishing, hfin, -, -⟩ := hready.execute h.peers h.live h.mock hw rfl hexec
    refine .succeeds (h.queue.core.hand_accepted (congrArg WorkerPc.inHand hw))
      (outcome_none hnf ?_) (outcome_finishing (hfin ▸ hnf) hfinishing) ?_
    · intro rc hrc
      cases hw.symm.trans hrc
    · intro x pc hx
      have heffect := (hready.execute h.peers h.live h.mock hw (hargs x pc hx) hexec).2.2.2
      refine ⟨?_, ⟨post, rfl⟩, k, conn, heffect⟩
      show s.worker.request = some c'
      rw [hw]
      rfl
  · -- another request is executed
    have hhand : t.worker.inHand = s.worker.inHand := by
      rw [hw]
      rcases hw' with h₁ | ⟨rc, h₁⟩ | h₁ <;> rw [h₁] <;> rfl
    obtain ⟨hfin, hreqs⟩ := (step_queueStep h.queue hstep).same_hand h.queue hhand
    refine .same (outcome_congr hfin ?_ ?_) ?_
    · exact fun hc => congrArg Request.status (hreqs c (h.queue.core.finished_accepted hc))
    · intro rc
      refine ⟨fun hrc => ?_, fun hrc => by cases hw.symm.trans hrc⟩
      rw [hrc] at hw'
      rcases hw' with h₁ | ⟨rc', h₁⟩ | h₁ <;> cases h₁
      exact absurd rfl e
    · intro hact
      have hreq : s.worker.request = some c := hact
      rw [hw] at hreq
      exact absurd (Option.some.inj hreq) e

theorem outcomeStep_complete (hq : QueueInv s.queueView) {c' : CallId} {rc : Int}
    (hw : s.worker = .finishing c' rc) (hres : Completed s t c' rc) :
    OutcomeStep c s a t := by
  refine .same ?_ fun _ => hres.bytes
  have hnf : c' ∉ s.finished := hq.core.hand_not_finished (congrArg WorkerPc.inHand hw)
  by_cases e : c' = c
  · -- the outcome moves from the worker into the request
    subst e
    have hfin : c' ∈ t.finished := by
      rw [hres.finished]
      exact List.mem_append_right _ (List.mem_singleton_self _)
    rw [outcome_finishing hnf hw, outcome_finished hfin, hres.reqs, update_self]
  · have hiff : c ∈ t.finished ↔ c ∈ s.finished := by
      rw [hres.finished, List.mem_append, List.mem_singleton]
      exact ⟨fun h => h.resolve_right fun h' => e h'.symm, Or.inl⟩
    by_cases hc : c ∈ s.finished
    · rw [outcome_finished hc, outcome_finished (hiff.mpr hc), hres.reqs,
        update_of_ne (fun h => e h.symm)]
    · rw [outcome_none hc, outcome_none (fun h => hc (hiff.mp h))]
      · intro rc' h
        cases h.symm.trans hres.worker
      · intro rc' h
        cases h.symm.trans hw
        exact e rfl

/-- **What one step can do to the outcome of a request.** -/
theorem step_outcome (h : TransferInv c s) (hstep : step s a = some t) :
    OutcomeStep c s a t := by
  cases step_cases hstep with
  | other ha hw hgeo => exact outcomeStep_other h.queue hstep ha hw
  | dequeue uninit htop hres => exact outcomeStep_dequeue h.queue htop hres
  | execute post hexec => exact outcomeStep_execute h hstep hexec
  | poll rc c' hw ht => exact absurd hw (h.nopoll c')
  | complete c' rc hw hres => exact outcomeStep_complete h.queue hw hres
  | log c' rc hw ht =>
      subst ht
      refine .same (outcome_congr rfl (fun _ => rfl) ?_) fun _ => ⟨rfl, rfl⟩
      intro rc'
      refine ⟨nofun, fun hrc => ?_⟩
      cases hw.symm.trans hrc

/-! ### Whole runs -/

/-- What the run so far did for `c`, told by the outcome of `c`. -/
def Story (c : CallId) (s₀ : Sys) (as : List Action) (s : Sys) : Prop :=
  (s.outcome c = some 0 → ∀ x pc, s.transfer c = some (x, pc) → ExecutedOnce s₀ as c x) ∧
  (s.outcome c ≠ some 0 → ¬ Occurs step s₀ as (Touches c))

variable {s₀ : Sys} {as : List Action}

/-- A step that touches nothing for `c` adds nothing to its story. -/
theorem not_occurs_snoc (hrun : run step s₀ as = some s) (hstep : step s a = some t)
    (hno : ¬ Occurs step s₀ as (Touches c)) (hbytes : ActsFor c s a → SameBytes s t) :
    ¬ Occurs step s₀ (as ++ [a]) (Touches c) := by
  rintro ⟨pre, hpre⟩
  rcases hpre.of_snoc hrun hstep with hold | ⟨-, hact, htouch⟩
  · exact hno ⟨pre, hold⟩
  · exact htouch (hbytes hact)

theorem ExecutedOnce.snoc {x : UrmaTransfer} (h : ExecutedOnce s₀ as c x)
    (hrun : run step s₀ as = some s) (hstep : step s a = some t)
    (hbytes : ActsFor c s a → SameBytes s t) : ExecutedOnce s₀ (as ++ [a]) c x := by
  obtain ⟨pre, hpre, honly⟩ := h
  refine ⟨pre, hpre.snoc a, ?_⟩
  intro pre' hne hocc
  rcases hocc.of_snoc hrun hstep with hold | ⟨-, hact, htouch⟩
  · exact honly pre' hne hold
  · exact htouch (hbytes hact)

/-- The executing step is the first, and so far the only, one that touches
memory for `c`. -/
theorem executedOnce_last {x : UrmaTransfer} (hrun : run step s₀ as = some s)
    (hstep : step s a = some t) (hno : ¬ Occurs step s₀ as (Touches c))
    (hexec : Executes c x s a t) : ExecutedOnce s₀ (as ++ [a]) c x := by
  refine ⟨as, OccursAt.last hrun hstep hexec, ?_⟩
  intro pre hne hocc
  rcases hocc.of_snoc hrun hstep with hold | ⟨heq, -⟩
  · exact hno ⟨pre, hold⟩
  · exact hne heq

theorem Story.step (h : Story c s₀ as s) (hinv : TransferInv c s)
    (hrun : run step s₀ as = some s) (hstep : step s a = some t) :
    Story c s₀ (as ++ [a]) t := by
  -- the argument of an accepted call does not change
  have harg : c ∈ s.accepted → ∀ x pc, t.transfer c = some (x, pc) →
      ∃ pc', s.transfer c = some (x, pc') := fun hacc x pc hx =>
    (step_queueStep hinv.queue hstep).arg_kept hinv.queue hacc hx
  cases step_outcome hinv hstep with
  | same hout hbytes =>
      refine ⟨?_, ?_⟩
      · intro hzero x pc hx
        rw [hout] at hzero
        obtain ⟨pc', hx'⟩ := harg (outcome_accepted hinv.queue hzero) x pc hx
        exact (h.1 hzero x pc' hx').snoc hrun hstep hbytes
      · intro hne
        rw [hout] at hne
        exact not_occurs_snoc hrun hstep (h.2 hne) hbytes
  | fails rc hrc hs ht hbytes =>
      refine ⟨?_, ?_⟩
      · intro hzero
        rw [ht] at hzero
        exact absurd (Option.some.inj hzero) hrc
      · intro _
        have hno : ¬ Occurs Urma.step s₀ as (Touches c) := by
          refine h.2 ?_
          rw [hs]
          nofun
        exact not_occurs_snoc hrun hstep hno fun _ => hbytes
  | succeeds hacc hs ht hexec =>
      refine ⟨?_, fun hne => absurd ht hne⟩
      intro _ x pc hx
      have hno : ¬ Occurs Urma.step s₀ as (Touches c) := by
        refine h.2 ?_
        rw [hs]
        nofun
      obtain ⟨pc', hx'⟩ := harg hacc x pc hx
      exact executedOnce_last hrun hstep hno (hexec x pc' hx')

theorem story_initial (s₀ : Sys) (hinit : Initial s₀) (c : CallId) : Story c s₀ [] s₀ := by
  have hno : ¬ Occurs step s₀ [] (Touches c) := by
    rintro ⟨pre, a, post, u, v, heq, -⟩
    exact List.cons_ne_nil _ _ (List.append_eq_nil_iff.mp heq.symm).2
  refine ⟨?_, fun _ => hno⟩
  obtain ⟨b, m, config, queueOk, mutexRc, provider, threadRc, -, -, rfl⟩ := hinit
  intro hzero
  cases hzero

/-- **A transfer does what its return code says**, in every run in mock mode in
which the request asks for the start of its peer's segment and its slot is not
emptied between validation and execution, whatever else happens. -/
theorem transferCorrect_of_atSegmentStart {x : UrmaTransfer} {rc : Int} (hinit : Initial s₀)
    (hmock : s₀.mgr.useMock = true) (hok : RunOk step (AtSegmentStart c) s₀ as)
    (hrun : run step s₀ as = some s) (hret : s.transfer c = some (x, .returned rc)) :
    TransferCorrect s₀ as c x rc := by
  have hinv₀ := transferInv_initial hinit hmock c
  have hboth : TransferInv c s ∧ Story c s₀ as s :=
    run_history (P := fun as s => TransferInv c s ∧ Story c s₀ as s)
      ⟨hinv₀, story_initial s₀ hinit c⟩
      (fun as s a t hrun' _ h hsa hstep =>
        ⟨h.1.step hsa hstep, h.2.step h.1 hrun' hstep⟩) hok hrun
  obtain ⟨hinv, hstory⟩ := hboth
  by_cases hacc : c ∈ s.accepted
  · -- an accepted call returned the outcome of its request
    have hfin := hinv.queue.subs.returned_finished hret hacc
    have hout : s.outcome c = some rc := by
      rw [outcome_finished hfin]
      exact congrArg some ((hinv.queue.subs.done c hfin).2 x rc hret).symm
    refine ⟨?_, ?_⟩
    · rintro rfl
      exact hstory.1 hout x _ hret
    · intro hne
      refine hstory.2 ?_
      rw [hout]
      exact fun h => hne (Option.some.inj h)
  · have hrc := hinv.queue.subs.refused c x rc hret hacc
    refine ⟨fun h => absurd h hrc, fun _ => hstory.2 ?_⟩
    intro hzero
    exact hacc (outcome_accepted hinv.queue hzero)

theorem atSegmentStart_of_quiet (hdeq : ∀ uninit, a ≠ .workerDequeue uninit)
    (hvac : ∀ s, vacates s a = none) (s : Sys) : AtSegmentStart c s a := by
  refine ⟨fun uninit k h => absurd h (hdeq uninit), ?_⟩
  intro k conn _ h
  cases (hvac s).symm.trans h

/-- Peer 7 connects and a transfer is submitted. -/
def Small.submitted (remoteHbmAddr : UInt64) : List Action :=
  .backendWrite 0 [1] 1 :: Small.connect ++ [.transferSync (Small.xfer remoteHbmAddr) 0 Small.now]

/-- The worker executes and completes it, and the submitter returns. -/
def Small.executed : List Action :=
  [.workerExecute true, .workerComplete, .timedwait 1 0 Small.now]

theorem transferCorrect_small : ∃ s,
    run step Small.start (Small.submitted 65536 ++ .workerDequeue .fault :: Small.executed) =
      some s ∧ s.transfer 1 = some (Small.xfer 65536, .returned 0) ∧
    TransferCorrect Small.start
      (Small.submitted 65536 ++ .workerDequeue .fault :: Small.executed) 1
      (Small.xfer 65536) 0 := by
  obtain ⟨s, hrun, hs⟩ := exists_of_run_any (δ := step) Small.start
    (Small.submitted 65536 ++ .workerDequeue .fault :: Small.executed)
    (fun s => s.transfer 1 = some (Small.xfer 65536, .returned 0)) (by decide +kernel)
  obtain ⟨u, hu, huaddr⟩ := exists_of_run_any (δ := step) Small.start (Small.submitted 65536)
    (fun u => (u.reqs 1).remoteHbmAddr = 65536 ∧
      ∀ k, (u.mgr.peers k).active = true → (u.mgr.peers k).segVa = 65536) (by decide +kernel)
  obtain ⟨haddr, hva⟩ := of_decide_eq_true huaddr
  have hret : s.transfer 1 = some (Small.xfer 65536, .returned 0) := of_decide_eq_true hs
  refine ⟨s, hrun, hret, transferCorrect_of_atSegmentStart Small.start_initial rfl ?_ hrun hret⟩
  refine (runOk_append_iff hu).mpr ⟨?_, ⟨?_, ?_⟩, ?_⟩
  · refine runOk_of_forall ?_ _
    intro a ha
    simp only [Small.submitted, Small.connect, List.cons_append, List.nil_append, List.mem_cons,
      List.not_mem_nil, or_false] at ha
    rcases ha with rfl | rfl | rfl | rfl <;>
      exact atSegmentStart_of_quiet (by rintro uninit ⟨⟩) (fun _ => rfl)
  · intro uninit k _ _ hk
    rw [haddr, hva k (findPeerLocked_some (validateXferLocked_ok_iff.mp hk).found).1]
  · rintro k conn - ⟨⟩
  · intro t _
    refine runOk_of_forall ?_ _
    intro a ha
    simp only [Small.executed, List.mem_cons, List.not_mem_nil, or_false] at ha
    rcases ha with rfl | rfl | rfl <;>
      exact atSegmentStart_of_quiet (by rintro uninit ⟨⟩) (fun _ => rfl)

/-- **Elsewhere in the segment the copy goes to the wrong place**: a transfer of
one block to the second block of the segment returns 0, and the second block
is not written. -/
theorem not_transferCorrect_second_block : ∃ s as, Initial Small.start ∧
    run step Small.start as = some s ∧ s.transfer 1 = some (Small.xfer 66048, .returned 0) ∧
    ¬ TransferCorrect Small.start as 1 (Small.xfer 66048) 0 := by
  obtain ⟨s, hrun, hs⟩ := exists_of_run_any (δ := step) Small.start
    ((Small.submitted 66048 ++ [.workerDequeue .fault]) ++ Small.executed)
    (fun s => s.transfer 1 = some (Small.xfer 66048, .returned 0)) (by decide +kernel)
  refine ⟨s, _, Small.start_initial, hrun, of_decide_eq_true hs, ?_⟩
  intro h
  obtain ⟨pre, ⟨a, post, u, v, heq, hu, hv, -, hexec, k, b, heffect⟩, -⟩ := h.1 rfl
  -- the run has one execution, so `u` and `v` are the states around it
  obtain ⟨rfl, rfl⟩ := split_unique (p := fun a => ∃ post, a = Action.workerExecute post)
    heq.symm hexec (by
      intro a ha
      simp only [Small.submitted, Small.connect, List.cons_append, List.nil_append,
        List.mem_cons, List.not_mem_nil, or_false] at ha
      rcases ha with rfl | rfl | rfl | rfl | rfl <;> rintro ⟨post, ⟨⟩⟩)
    (by
      intro a ha
      simp only [List.mem_cons, List.not_mem_nil, or_false] at ha
      rcases ha with rfl | rfl <;> rintro ⟨post, ⟨⟩⟩)
  obtain ⟨u', hu', hpeers⟩ := exists_of_run_any (δ := step) Small.start
    (Small.submitted 66048 ++ [.workerDequeue .fault])
    (fun u => u.backend.mem 0 = 1 ∧ ∀ k, (u.mgr.peers k).active = true →
      (u.mgr.peers k).segVa = 65536 ∧ (u.mgr.peers k).mockHbm = some 0) (by decide +kernel)
  obtain ⟨v', hv', hbyte⟩ := exists_of_run_any (δ := step) Small.start
    ((Small.submitted 66048 ++ [.workerDequeue .fault]) ++ [.workerExecute true])
    (fun v => (v.hbm 0).mem 512 = 0) (by decide +kernel)
  obtain rfl : u = u' := Option.some.inj (hu.symm.trans hu')
  obtain rfl : v = v' :=
    Option.some.inj ((run_snoc_iff.mpr ⟨u, hu, hv⟩).symm.trans hv')
  obtain ⟨hmem, hslots⟩ := of_decide_eq_true hpeers
  obtain ⟨hva, hbuf⟩ := hslots k heffect.active
  obtain rfl : 0 = b := Option.some.inj (hbuf.symm.trans heffect.buffer)
  have hcopied := (heffect.toHbm rfl).2.inside 0 (by decide)
  rw [hva] at hcopied
  have hwrong : (v.hbm 0).mem 512 = u.backend.mem 0 := hcopied
  rw [of_decide_eq_true hbyte, hmem] at hwrong
  cases hwrong

end Urma

end DirectStorage
