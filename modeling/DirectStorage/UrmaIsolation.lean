/-
DirectStorage/UrmaIsolation.lean

The worker and the peer slot it uses.

The worker validates a request under the lock and uses the slot after it has
given the lock up.  In between a disconnect can empty the slot, and a connect
can put another peer there.  `NoRace` is the side condition that excludes
exactly this: no step empties the slot of a request that has been validated
and not executed.  Under it every execution is isolated
(`isolated_of_noRace`); without it a request for one peer can run on another
(`not_isolated_race`).

The second half is about requests that fail re-validation.  `urma_worker_main`
reads `peer->seg_va` before it looks at the result of `validate_xfer_locked`,
so every such failure reads through a pointer that was never set
(`revalidation_reads_unset_peer`).
-/
import DirectStorage.UrmaFrame

namespace DirectStorage

namespace Urma

open Function

variable {s t : Sys} {a : Action} {c conn : CallId} {k : Slot}

/-! ### A validated request -/

/-- The worker is about to execute `c` on slot `k`, and everything it relies on
holds: the slot is in use by the connection `conn` of the request's peer, and
the ranges fit. -/
structure ExecReady (s : Sys) (c : CallId) (k : Slot) (conn : CallId) : Prop where
  active : (s.mgr.peers k).active = true
  peer : (s.mgr.peers k).peerId = (s.reqs c).peerId
  conn : (s.mgr.peers k).conn = conn
  addr : (s.reqs c).remoteHbmAddr = (s.mgr.peers k).segVa
  fits : (s.reqs c).length.toNat ≤ (s.mgr.peers k).segLen.toNat
  direction : (s.reqs c).direction = ramdiskToHbm ∨ (s.reqs c).direction = hbmToRamdisk
  inside : (s.reqs c).localOffset.toNat + (s.reqs c).length.toNat ≤ s.backend.size.toNat

/-- The worker's dequeue step makes the request ready. -/
theorem Dequeued.execReady (h : Dequeued s t c k) (hlive : s.backend.Live) :
    ExecReady t c k (s.mgr.peers k).conn := by
  obtain ⟨hactive, hpeer⟩ := findPeerLocked_some h.valid.found
  have hreq : t.reqs c = { s.reqs c with remoteHbmAddr := (s.mgr.peers k).segVa } := by
    rw [h.reqs, update_self]
  have hrange := h.valid.range
  rw [validateRange_live hlive] at hrange
  constructor
  case active => rw [h.peers]; exact hactive
  case peer => rw [h.peers, hreq]; exact hpeer
  case conn => rw [h.peers]
  case addr => rw [h.peers, hreq]
  case fits =>
    rw [h.peers, hreq]
    show (s.reqs c).length.toNat ≤ (s.mgr.peers k).segLen.toNat
    have hge : (s.mgr.peers k).segVa.toNat ≤ (s.reqs c).remoteHbmAddr.toNat :=
      h.valid.remote_ge
    have hle : (s.reqs c).remoteHbmAddr.toNat + (s.reqs c).length.toNat ≤
      (s.mgr.peers k).segVa.toNat + (s.mgr.peers k).segLen.toNat := h.valid.remote_le
    omega
  case direction => rw [hreq]; exact h.valid.direction
  case inside =>
    rw [hreq, h.bytes.1]
    by_contra hlt
    have hlt' : ¬ (s.reqs c).xfer.localOffset.toNat +
      (s.reqs c).xfer.length.toUInt64.toNat ≤ s.backend.size.toNat := by
      rw [UInt32.toNat_toUInt64]
      exact hlt
    rw [if_neg hlt'] at hrange
    cases hrange

/-- A ready request stays ready as long as the worker has not executed it and
its slot is not vacated. -/
theorem ExecReady.step (h : ExecReady s c k conn) (hq : QueueInv s.queueView)
    (hp : PeerInv s.peerView) (hstep : step s a = some t)
    (hw : s.worker = .executing c k conn) (hw' : t.worker = .executing c k conn)
    (hvac : vacates s a ≠ some k) : ExecReady t c k conn := by
  have hhand : s.queueView.core.inHand = [c] := congrArg WorkerPc.inHand hw
  have hreq : t.reqs c = s.reqs c :=
    ((step_queueStep hq hstep).same_hand hq (congrArg WorkerPc.inHand (hw'.trans hw.symm))).2 c
      (hq.core.hand_accepted hhand)
  have hslot : t.mgr.peers k = s.mgr.peers k :=
    (held_slot_some ((step_peerStep hp hstep).slot_kept (held_slot_active h.active) hvac)).2
  have hsize : t.backend.size = s.backend.size := (step_geometry hstep).size_eq
  constructor
  case active => rw [hslot]; exact h.active
  case peer => rw [hslot, hreq]; exact h.peer
  case conn => rw [hslot]; exact h.conn
  case addr => rw [hslot, hreq]; exact h.addr
  case fits => rw [hslot, hreq]; exact h.fits
  case direction => rw [hreq]; exact h.direction
  case inside => rw [hreq, hsize]; exact h.inside

/-! ### Isolation -/

/-- No step empties the slot of a request that is validated and not yet
executed. -/
def NoRace (s : Sys) (a : Action) : Prop :=
  ∀ c k conn, s.worker = .executing c k conn → vacates s a ≠ some k

/-- The remote element of a work request. -/
def WorkRequest.remote (wr : WorkRequest) : Sge :=
  match wr.opcode with
  | .write => wr.dst
  | .read => wr.src

/-- Executing `c` now on slot `k` is isolated: the slot is active, belongs to
the request's peer and is still the connection `conn` the request was validated
against, and the range the mock copy or the work request touches lies inside
the peer's segment. -/
structure Isolated (s : Sys) (c : CallId) (k : Slot) (conn : CallId) : Prop where
  active : (s.mgr.peers k).active = true
  peer : (s.mgr.peers k).peerId = (s.reqs c).peerId
  conn : (s.mgr.peers k).conn = conn
  mock : s.mgr.useMock = true →
    ((s.reqs c).remoteHbmAddr - (s.mgr.peers k).segVa).toNat + (s.reqs c).length.toNat ≤
      (s.mgr.peers k).segLen.toNat
  real : s.mgr.useMock = false →
    ∀ wr, realWorkRequest s (s.reqs c) (s.mgr.peers k) = .ok wr →
      (s.mgr.peers k).segVa.toNat ≤ wr.remote.addr.toNat ∧
      wr.remote.addr.toNat + wr.remote.len.toNat ≤
        (s.mgr.peers k).segVa.toNat + (s.mgr.peers k).segLen.toNat

/-- The remote element starts at the offset into the imported segment. -/
theorem realWorkRequest_remote {req : Request} {p : Peer} {wr : WorkRequest}
    (h : realWorkRequest s req p = .ok wr) :
    wr.remote.addr = p.remoteSeg.va + (req.remoteHbmAddr - p.segVa) ∧
      wr.remote.len = req.length := by
  unfold realWorkRequest at h
  split at h
  · dsimp only at h
    split_ifs at h
    · obtain rfl := Except.ok.inj h
      exact ⟨rfl, rfl⟩
    · obtain rfl := Except.ok.inj h
      exact ⟨rfl, rfl⟩
  · cases h

theorem ExecReady.isolated (h : ExecReady s c k conn) (hp : PeerInv s.peerView) :
    Isolated s c k conn := by
  refine ⟨h.active, h.peer, h.conn, ?_, ?_⟩
  · intro _
    rw [h.addr, UInt64.sub_self]
    simpa using h.fits
  · intro hreal wr hwr
    obtain ⟨haddr, hlen⟩ := realWorkRequest_remote hwr
    have hbuilt := hp.built (.slot k) _ (held_slot_active h.active)
    have hva : (s.mgr.peers k).remoteSeg.va = (s.mgr.peers k).segVa := by
      have hmock : s.peerView.mock = false := hreal
      rw [hmock] at hbuilt
      exact hbuilt.2
    rw [haddr, hlen, hva, h.addr, UInt64.sub_self, UInt64.add_zero]
    have := h.fits
    omega

/-- The invariant of race-free runs. -/
structure RaceFree (s : Sys) : Prop where
  queue : QueueInv s.queueView
  peers : PeerInv s.peerView
  live : s.backend.Live
  ready : ∀ c k conn, s.worker = .executing c k conn → ExecReady s c k conn

theorem raceFree_initial (h : Initial s) : RaceFree s := by
  refine ⟨queueInv_initial h, peerInv_initial h, ?_, ?_⟩
  · obtain ⟨b, m, config, queueOk, mutexRc, provider, threadRc, hlive, -, rfl⟩ := h
    exact hlive
  · obtain ⟨b, m, config, queueOk, mutexRc, provider, threadRc, -, -, rfl⟩ := h
    nofun

theorem RaceFree.step (h : RaceFree s) (hok : NoRace s a) (hstep : step s a = some t) :
    RaceFree t := by
  refine ⟨(step_queueStep h.queue hstep).preserves h.queue,
    (step_peerStep h.peers hstep).preserves h.peers, (step_geometry hstep).live h.live, ?_⟩
  intro c k conn hw
  rcases step_executing hstep hw with hbefore | ⟨uninit, -, hdeq, rfl⟩
  · exact (h.ready c k conn hbefore).step h.queue h.peers hstep hbefore hw
      (hok c k conn hbefore)
  · exact hdeq.execReady h.live

/-- **Peer isolation**: in every run in which no step empties the slot of a
validated request, whenever the worker is about to execute a request the
execution is isolated. -/
theorem isolated_of_noRace {s₀ : Sys} {as : List Action} (hinit : Initial s₀)
    (hok : RunOk step NoRace s₀ as) (hrun : run step s₀ as = some s)
    (hw : s.worker = .executing c k conn) : Isolated s c k conn := by
  have hinv : RaceFree s := run_invariant (raceFree_initial hinit)
    (fun s a t hs hsa hstep => hs.step hsa hstep) hok hrun
  exact (hinv.ready c k conn hw).isolated hinv.peers

/-- A request is accepted and validated by the worker. -/
def Small.validated : List Action :=
  Small.connect ++ [.transferSync (Small.xfer 65536) 0 Small.now, .workerDequeue .fault]

theorem noRace_of_vacates_none (h : vacates s a = none) : NoRace s a := by
  intro c k conn _ hvac
  cases h.symm.trans hvac

theorem isolated_small : ∃ s, run step Small.start Small.validated = some s ∧
    s.worker = .executing 1 0 0 ∧ Isolated s 1 0 0 := by
  obtain ⟨s, hrun, hs⟩ := exists_of_run_any (δ := step) Small.start Small.validated
    (fun s => s.worker = .executing 1 0 0) (by decide +kernel)
  have hw : s.worker = .executing 1 0 0 := of_decide_eq_true hs
  refine ⟨s, hrun, hw, isolated_of_noRace Small.start_initial ?_ hrun hw⟩
  refine runOk_of_forall ?_ _
  intro a ha s
  simp only [Small.validated, Small.connect, List.cons_append, List.nil_append, List.mem_cons,
    List.not_mem_nil, or_false] at ha
  rcases ha with rfl | rfl | rfl | rfl <;> exact noRace_of_vacates_none rfl

/-- Between validation and execution, peer 7 leaves and peer 8 gets its slot. -/
def Small.reused : List Action :=
  Small.validated ++ [.peerDisconnect 7, .peerConnect (Small.peer 8) ⟨true, none, none⟩,
    .peerConnectLocked 3]

/-- **The race is real**: the worker goes on to execute a request for peer 7 on
the slot, and into the buffer, of peer 8. -/
theorem not_isolated_race : ∃ s, Reachable s ∧
    s.worker = .executing 1 0 0 ∧ (step s (.workerExecute true)).isSome = true ∧
    (s.reqs 1).peerId = 7 ∧ (s.mgr.peers 0).peerId = 8 ∧ ¬ Isolated s 1 0 0 := by
  obtain ⟨s, hrun, hs⟩ := exists_of_run_any (δ := step) Small.start Small.reused
    (fun s => s.worker = .executing 1 0 0 ∧ (step s (.workerExecute true)).isSome = true ∧
      (s.reqs 1).peerId = 7 ∧ (s.mgr.peers 0).peerId = 8) (by decide +kernel)
  obtain ⟨hw, hexec, hreq, hpeer⟩ := of_decide_eq_true hs
  refine ⟨s, ⟨_, _, Small.start_initial, hrun⟩, hw, hexec, hreq, hpeer, ?_⟩
  intro h
  have hsame := h.peer
  rw [hreq, hpeer] at hsame
  cases hsame

/-! ### Requests that fail re-validation -/

/-- What a failed re-validation of `c` with code `e` should do: leave the
request with that result, touch nothing, and read no peer. -/
structure HandledAsError (s t : Sys) (c : CallId) (e : Int) : Prop where
  /-- The request will complete with status `e`. -/
  result : t.worker = .finishing c e
  peers : t.mgr.peers = s.mgr.peers
  bytes : SameBytes s t
  /-- No field was read through the pointer that was not set. -/
  reads : t.wildReads = s.wildReads

/-- **Every failed re-validation reads the unset peer pointer.**  If that read
does not stop the process, the rest is as it should be. -/
theorem revalidation_reads_unset_peer {uninit : UninitRead} {e : Int} (h : Reachable s)
    (hfront : s.mgr.queue.front = some c)
    (hfail : validateXferLocked s.mgr s.backend (s.reqs c).xfer = .error e)
    (hstep : step s (.workerDequeue uninit) = some t) :
    ¬ HandledAsError s t c e ∧ t.wildReads = s.wildReads + 1 ∧
      t.mgr.peers = s.mgr.peers ∧ SameBytes s t ∧
      (t.worker = .finishing c e ∨ t.worker = .faulted (some c)) := by
  have hpending : s.mgr.pending ≠ 0 := h.queueInv.core.count_ne_zero (c := c) hfront
  cases step_cases hstep with
  | other ha hw hgeo => cases ha
  | dequeue _ htop hres =>
      cases hres with
      | idle hempty hbytes hw hreqs hfin =>
          rcases hempty with h₀ | h₀
          · exact absurd h₀ hpending
          · cases hfront.symm.trans h₀
      | valid c' k hd hw hfin =>
          cases hfront.symm.trans hd.front
          cases hfail.symm.trans (validateXferLocked_ok_iff.mpr hd.valid)
      | invalid c' rc hfront' hrc hbytes hpeers hstatus hfin hwild hw =>
          cases hfront.symm.trans hfront'
          cases hfail.symm.trans hrc
          refine ⟨?_, hwild, hpeers, hbytes, hw⟩
          intro hgood
          have := hgood.reads
          omega

/-- A request is accepted, and the path is disabled before the worker looks. -/
def Small.disabled : List Action :=
  Small.connect ++ [.transferSync (Small.xfer 65536) 0 Small.now, .disable]

theorem revalidation_reads_unset_peer_small : ∃ s t, Reachable s ∧
    s.mgr.queue.front = some 1 ∧
    step s (.workerDequeue (.value 0)) = some t ∧ t.wildReads = s.wildReads + 1 := by
  obtain ⟨s, hrun, hs⟩ := exists_of_run_any (δ := step) Small.start Small.disabled
    (fun s => s.mgr.queue.front = some 1 ∧
      validateXferLocked s.mgr s.backend (s.reqs 1).xfer = .error (-EOPNOTSUPP) ∧
      (step s (.workerDequeue (.value 0))).isSome = true) (by decide +kernel)
  obtain ⟨hfront, hfail, hsome⟩ := of_decide_eq_true hs
  obtain ⟨t, ht⟩ := Option.isSome_iff_exists.mp hsome
  have hreach : Reachable s := ⟨_, _, Small.start_initial, hrun⟩
  exact ⟨s, t, hreach, hfront, ht, (revalidation_reads_unset_peer hreach hfront hfail ht).2.1⟩

/-- The failed re-validation of a request whose path was disabled. -/
theorem not_handledAsError_disabled : ∃ s t, Reachable s ∧
    s.mgr.queue.front = some 1 ∧
    validateXferLocked s.mgr s.backend (s.reqs 1).xfer = .error (-EOPNOTSUPP) ∧
    step s (.workerDequeue (.value 0)) = some t ∧ ¬ HandledAsError s t 1 (-EOPNOTSUPP) := by
  obtain ⟨t, hrun', ht⟩ := exists_of_run_any (δ := step) Small.start
    (Small.disabled ++ [.workerDequeue (.value 0)]) (fun t => t.wildReads = 1)
    (by decide +kernel)
  obtain ⟨u, hu, hstep⟩ := run_snoc_iff.mp hrun'
  obtain ⟨s, hrun, hs⟩ := exists_of_run_any (δ := step) Small.start Small.disabled
    (fun s => s.wildReads = 0 ∧ s.mgr.queue.front = some 1 ∧
      validateXferLocked s.mgr s.backend (s.reqs 1).xfer = .error (-EOPNOTSUPP))
    (by decide +kernel)
  obtain rfl : u = s := Option.some.inj (hu.symm.trans hrun)
  obtain ⟨hzero, hfront, hfail⟩ := of_decide_eq_true hs
  refine ⟨u, t, ⟨_, _, Small.start_initial, hu⟩, hfront, hfail, hstep, ?_⟩
  intro h
  have hreads := h.reads
  rw [hzero, of_decide_eq_true ht] at hreads
  cases hreads

end Urma

end DirectStorage
