/-
DirectStorage/UrmaEffects.lean

What NBD requests and URMA transfers store in the ramdisk.

An `Effect` is what a request stores as a whole: an NBD write or trim, or a
transfer to the ramdisk.  `nbdEffects` and `transfers` list the effects of a run,
and a serial execution of the run (`SerialExec`) is a list of effects that contains
the NBD ones in their order and some of the transfers, each at most once.

In mock mode every transfer is carried out under the backend mutex, so a step
has its effect at once (`step_mockStep`), and the content is that of a serial
execution with all the transfers in it (`run_mockInv`).
-/
import DirectStorage.UrmaProvider
import DirectStorage.UrmaTransfer

namespace DirectStorage

namespace Urma

open Function

/-! ### Effects -/

/-- The store of an NBD request, or of the transfer with the given number, as a
whole. -/
structure Effect where
  transfer : Option Nat
  off : Nat
  data : List UInt8
  deriving DecidableEq

variable {r t r₀ : Real} {a : RealAction} {as : List RealAction} {ops : List Effect} {s u : Sys}
  {b : Action}

/-- The ramdisk after these stores, one after the other. -/
def replay (m : ByteMem) (ops : List Effect) : ByteMem :=
  ops.foldl (fun m e => m.store e.off e.data) m

theorem replay_append (m : ByteMem) (ops ops' : List Effect) :
    replay m (ops ++ ops') = replay (replay m ops) ops' := List.foldl_append

/-- What every single store keeps, a serial execution keeps. -/
theorem replay_invariant {I : ByteMem → Prop} {m : ByteMem} (hm : I m)
    (h : ∀ e ∈ ops, ∀ m, I m → I (m.store e.off e.data)) : I (replay m ops) := by
  induction ops generalizing m with
  | nil => exact hm
  | cons e ops ih =>
      refine ih (h e List.mem_cons_self m hm) ?_
      intro e' he'
      exact h e' (List.mem_cons_of_mem e he')

/-- What an NBD write or trim stores. -/
def nbdEffect (r : Real) : RealAction → Option Effect
  | .daemon (.backendWrite offset data len) =>
      if (ramdiskBackendWrite r.sys.backend offset false data len).1 = 0 then
        some ⟨none, offset.toNat, data.take len.toNat⟩
      else none
  | .daemon (.backendZero offset len) =>
      if (ramdiskBackendZero r.sys.backend offset len).1 = 0 then
        some ⟨none, offset.toNat, List.replicate len.toNat 0⟩
      else none
  | _ => none

/-- What the `i`-th work request, an `HBM_TO_RAMDISK` one, is to store. -/
def Real.wrEffect (r : Real) (i : Nat) (wr : WorkRequest) : Effect :=
  ⟨some i, wr.localOff r.sys.backend, (r.remote i).load 0 wr.size⟩

/-- What a transfer to the ramdisk is to store, when it is executed: in mock mode
the bytes of the peer's HBM, in real mode those of the remote segment. -/
def transferEffect (r : Real) : RealAction → Option Effect
  | .daemon (.workerExecute post) =>
      match r.sys.worker with
      | .executing c k _ =>
          let req := r.sys.reqs c
          let peer := r.sys.mgr.peers k
          if r.sys.mgr.useMock then
            match executeMockXfer r.sys req peer, peer.mockHbm with
            | some (0, _, _), some h =>
                if req.direction = ramdiskToHbm then none
                else some ⟨some c, req.localOffset.toNat, (r.sys.hbm h).mem.load
                  (req.remoteHbmAddr - peer.segVa).toNat req.length.toNat⟩
            | _, _ => none
          else
            match realWorkRequest r.sys req peer with
            | .ok wr =>
                if post = true ∧ wr.opcode = .read then some (r.wrEffect r.sys.posted.length wr)
                else none
            | .error _ => none
      | _ => none
  | _ => none

/-- The stores of the NBD requests of a run, in their order. -/
def nbdEffects (r₀ : Real) (as : List RealAction) : List Effect :=
  outputs Real.step nbdEffect r₀ as

/-- The transfers to the ramdisk that a run executes. -/
def transfers (r₀ : Real) (as : List RealAction) : List Effect :=
  outputs Real.step transferEffect r₀ as

/-! ### Serial executions -/

/-- A serial execution of the run: its NBD requests, in their order, and some of
its transfers, each at most once and each as a whole. -/
structure SerialExec (r₀ : Real) (as : List RealAction) (ops : List Effect) : Prop where
  nbd : ops.filter (fun e => e.transfer.isNone) = nbdEffects r₀ as
  once : (ops.filter fun e => e.transfer.isSome).Nodup
  whole : ∀ e ∈ ops, e.transfer.isSome = true → e ∈ transfers r₀ as

theorem nbdEffect_transfer {e : Effect} (h : nbdEffect r a = some e) : e.transfer = none := by
  unfold nbdEffect at h
  split at h
  · split_ifs at h
    cases h
    rfl
  · split_ifs at h
    cases h
    rfl
  · cases h

/-- A step adds its NBD effect. -/
theorem SerialExec.snoc (h : SerialExec r₀ as ops) (hrun : run Real.step r₀ as = some r)
    (hstep : r.step a = some t) : SerialExec r₀ (as ++ [a]) (ops ++ (nbdEffect r a).toList) := by
  have hnone : ∀ e ∈ (nbdEffect r a).toList, e.transfer = none := by
    intro e he
    exact nbdEffect_transfer (Option.mem_toList.mp he)
  refine ⟨?_, ?_, ?_⟩
  · rw [List.filter_append, h.nbd, nbdEffects, nbdEffects, outputs_snoc hrun hstep]
    congr 1
    refine List.filter_eq_self.mpr ?_
    intro e he
    rw [hnone e he]
    rfl
  · have hfilter : (nbdEffect r a).toList.filter (fun e => e.transfer.isSome) = [] := by
      refine List.filter_eq_nil_iff.mpr ?_
      intro e he
      rw [hnone e he]
      exact Bool.false_ne_true
    rw [List.filter_append, hfilter, List.append_nil]
    exact h.once
  · intro e he hsome
    rw [transfers, outputs_snoc hrun hstep]
    refine List.mem_append_left _ ?_
    rcases List.mem_append.mp he with he | he
    · exact h.whole e he hsome
    · rw [hnone e he] at hsome
      cases hsome

/-- A transfer of the run that was not applied so far is applied last. -/
theorem SerialExec.apply {e : Effect} {i : Nat} (h : SerialExec r₀ as ops)
    (he : e ∈ transfers r₀ as) (hid : e.transfer = some i) (hnew : e ∉ ops) :
    SerialExec r₀ as (ops ++ [e]) := by
  have hsome : e.transfer.isSome = true := by rw [hid]; rfl
  refine ⟨?_, ?_, ?_⟩
  · have hfilter : [e].filter (fun e => e.transfer.isNone) = [] := by
      refine List.filter_eq_nil_iff.mpr ?_
      intro e' he'
      rw [List.mem_singleton.mp he', hid]
      exact Bool.false_ne_true
    rw [List.filter_append, hfilter, List.append_nil]
    exact h.nbd
  · rw [List.filter_append, List.filter_singleton, hsome, cond_true, List.nodup_append]
    refine ⟨h.once, List.nodup_singleton e, ?_⟩
    intro e₁ h₁ e₂ h₂ heq
    rw [List.mem_singleton.mp h₂] at heq
    subst heq
    exact hnew (List.mem_filter.mp h₁).1
  · intro e' he' hsome'
    rcases List.mem_append.mp he' with he' | he'
    · exact h.whole e' he' hsome'
    · rw [List.mem_singleton.mp he']
      exact he

theorem serial_nil (r₀ : Real) : SerialExec r₀ [] [] :=
  ⟨rfl, List.nodup_nil, by rintro e ⟨⟩⟩

theorem transfers_snoc (hrun : run Real.step r₀ as = some r) (hstep : r.step a = some t) :
    transfers r₀ (as ++ [a]) = transfers r₀ as ++ (transferEffect r a).toList :=
  outputs_snoc hrun hstep

/-! ### Effects of single steps -/

/-- Steps that touch nothing have no effect. -/
theorem effect_untouched (hb : b.touches = false) :
    nbdEffect r (.daemon b) = none ∧ transferEffect r (.daemon b) = none := by
  cases b <;> first | exact ⟨rfl, rfl⟩ | cases hb

/-- An NBD write or trim has its effect, and changes the content only. -/
theorem nbd_step (hlive : r.sys.backend.Live) (h : Urma.step r.sys b = some u)
    (hb : b.touches = true) (hexec : ∀ post, b ≠ .workerExecute post) :
    transferEffect r (.daemon b) = none ∧ u = { r.sys with backend := { r.sys.backend with
      mem := replay r.sys.backend.mem (nbdEffect r (.daemon b)).toList } } := by
  unfold Urma.step at h
  split at h
  · cases h
  cases b with
  | backendWrite offset data len =>
      obtain rfl := Option.some.inj h
      refine ⟨rfl, ?_⟩
      simp only [nbdEffect, write_live hlive]
      split
      · rfl
      · rfl
  | backendZero offset len =>
      obtain rfl := Option.some.inj h
      refine ⟨rfl, ?_⟩
      simp only [nbdEffect, zero_live hlive]
      split
      · simp only [ByteMem.fill_eq_store]
        rfl
      · rfl
  | workerExecute post => exact absurd rfl (hexec post)
  | _ => cases hb

/-- A mock transfer has its effect on the ramdisk. -/
theorem mock_transfer (post : Bool) {c : CallId} {k : Slot} {conn : CallId} {rc : Int}
    {mem : ByteMem} {hbm : CallId → HbmBuf} (hw : r.sys.worker = .executing c k conn)
    (hmock : r.sys.mgr.useMock = true)
    (hrc : executeMockXfer r.sys (r.sys.reqs c) (r.sys.mgr.peers k) = some (rc, mem, hbm)) :
    mem = replay r.sys.backend.mem (transferEffect r (.daemon (.workerExecute post))).toList ∧
      ∀ e ∈ transferEffect r (.daemon (.workerExecute post)), e.transfer = some c := by
  simp only [transferEffect, hw, hmock, if_true, hrc]
  unfold executeMockXfer at hrc
  dsimp only at hrc
  split at hrc
  next hbuf =>
    cases hrc
    simp only [hbuf]
    exact ⟨rfl, by rintro e ⟨⟩⟩
  next h hbuf =>
    simp only [hbuf]
    split at hrc
    next hlock =>
      cases hrc
      split
      next hzero _ => exact absurd (congrArg Prod.fst (Option.some.inj hzero)) hlock
      next => exact ⟨rfl, by rintro e ⟨⟩⟩
    next =>
      split_ifs at hrc with hin hdir
      · cases hrc
        simp only [hdir, if_true]
        exact ⟨rfl, by rintro e ⟨⟩⟩
      · cases hrc
        simp only [hdir, if_false]
        refine ⟨?_, by rintro e ⟨⟩; rfl⟩
        rw [ByteMem.copy_eq_store]
        rfl

/-! ### Mock mode -/

/-- Request `c` has left the queue and is not being executed any more, or never
was. -/
def Passed (s : Sys) (c : CallId) : Prop :=
  c ∈ s.dequeued ∧ ∀ k conn, s.worker ≠ .executing c k conn

theorem QueueStep.dequeued_mono {v w : QueueView} (h : QueueStep v w) {c : CallId}
    (hc : c ∈ v.core.dequeued) : c ∈ w.core.dequeued := by
  cases h with
  | dequeue c' addr hfront hidle => exact List.mem_append_left _ hc
  | _ => exact hc

theorem Passed.step {c : CallId} (h : Passed s c) (hq : QueueInv s.queueView)
    (hstep : Urma.step s b = some u) : Passed u c := by
  refine ⟨QueueStep.dequeued_mono (step_queueStep hq hstep) h.1, ?_⟩
  intro k conn hw
  rcases step_executing hstep hw with hbefore | ⟨uninit, rfl, hdeq, rfl⟩
  · exact h.2 k conn hbefore
  · exact (hq.core.front_pending hdeq.front).2 h.1

/-- What is being executed has not passed, and passes by its execution. -/
theorem passed_of_execute {c : CallId} {k : Slot} {conn : CallId} {rc : Int}
    (hq : QueueInv s.queueView) (hw : s.worker = .executing c k conn)
    (hu : u.dequeued = s.dequeued) (hw' : u.worker = .finishing c rc) :
    ¬ Passed s c ∧ Passed u c := by
  refine ⟨fun h => h.2 k conn hw, ?_, ?_⟩
  · rw [hu]
    have hdeq : s.dequeued = s.finished ++ s.worker.inHand := hq.core.dequeued_eq
    rw [hdeq, hw]
    exact List.mem_append_right _ List.mem_cons_self
  · intro k' conn' hw''
    cases hw'.symm.trans hw''

/-- In mock mode every step has its effect at once. -/
structure MockStep (r : Real) (a : RealAction) (t : Real) : Prop where
  content : t.sys.backend.mem = replay r.sys.backend.mem
    ((nbdEffect r a).toList ++ (transferEffect r a).toList)
  posted : t.sys.posted = []
  passed : ∀ c, Passed r.sys c → Passed t.sys c
  transfer : ∀ e ∈ transferEffect r a, ∃ c, e.transfer = some c ∧ ¬ Passed r.sys c ∧ Passed t.sys c

theorem mockStep_execute {post : Bool} (hq : QueueInv r.sys.queueView)
    (hmock : r.sys.mgr.useMock = true) (hposted : r.sys.posted = [])
    (hu : Urma.step r.sys (.workerExecute post) = some u) :
    MockStep r (.daemon (.workerExecute post)) { r with sys := u } := by
  obtain ⟨c, k, conn, hw, hexec⟩ := workerExecute_executed (step_workerExecute hu)
  cases hexec with
  | mock rc mem hbm _ hrc hu' =>
      obtain ⟨hmem, hid⟩ := mock_transfer post hw hmock hrc
      refine ⟨?_, ?_, fun c' hc' => hc'.step hq hu, ?_⟩
      · show u.backend.mem = _
        rw [hu']
        exact hmem
      · show u.posted = []
        rw [hu']
        exact hposted
      · intro e he
        refine ⟨c, hid e he, ?_⟩
        show ¬ Passed r.sys c ∧ Passed u c
        exact passed_of_execute hq hw (by rw [hu']) (by rw [hu'])
  | fault _ hrc hu' =>
      have hnone : transferEffect r (.daemon (.workerExecute post)) = none := by
        simp only [transferEffect, hw, hmock, if_true, hrc]
      refine ⟨?_, ?_, fun c' hc' => hc'.step hq hu, ?_⟩
      · show u.backend.mem = _
        rw [hu', hnone]
        rfl
      · show u.posted = []
        rw [hu']
        exact hposted
      · rw [hnone]
        rintro e ⟨⟩
  | refused rc hreal hno hu' => cases hmock.symm.trans hreal
  | posted wr hreal hpost hwr hu' => cases hmock.symm.trans hreal

/-- Steps that leave the daemon's content and posts alone. -/
theorem mockStep_same (hposted : r.sys.posted = []) (hmem : t.sys.backend.mem = r.sys.backend.mem)
    (hp : t.sys.posted = r.sys.posted) (hpassed : ∀ c, Passed r.sys c → Passed t.sys c)
    (hn : nbdEffect r a = none) (ht : transferEffect r a = none) : MockStep r a t := by
  refine ⟨?_, hp.trans hposted, hpassed, ?_⟩
  · rw [hmem, hn, ht]
    rfl
  · rw [ht]
    rintro e ⟨⟩

theorem step_mockStep (hr : Reachable r.sys) (hmock : r.sys.mgr.useMock = true)
    (hposted : r.sys.posted = []) (hstep : r.step a = some t) : MockStep r a t := by
  have hq := hr.queueInv
  cases step_realStep hstep with
  | daemon b u hpoll hu =>
      cases hb : b.touches with
      | false =>
          have hbackend := (step_kept hu).backend hb
          have hposted' := (step_kept hu).posted hb
          obtain ⟨hn, ht⟩ := effect_untouched (r := r) hb
          exact mockStep_same hposted (congrArg Backend.mem hbackend) hposted'
            (fun c hc => hc.step hq hu) hn ht
      | true =>
          by_cases hexec : ∃ post, b = .workerExecute post
          · obtain ⟨post, rfl⟩ := hexec
            exact mockStep_execute hq hmock hposted hu
          · have hne : ∀ post, b ≠ .workerExecute post := fun post e => hexec ⟨post, e⟩
            obtain ⟨ht, hu'⟩ := nbd_step hr.live hu hb hne
            refine ⟨?_, ?_, fun c hc => hc.step hq hu, ?_⟩
            · show u.backend.mem = _
              rw [hu', ht]
              exact congrArg _ (List.append_nil _).symm
            · show u.posted = []
              rw [hu']
              exact hposted
            · rw [ht]
              rintro e ⟨⟩
  | nbdRead offset len => exact mockStep_same hposted rfl rfl (fun _ hc => hc) rfl rfl
  | moveRead i lo n wr hrunning hwr hop hopen hin hlocal =>
      rw [hposted] at hwr
      cases hwr
  | moveWrite i lo n wr hwr hop =>
      rw [hposted] at hwr
      cases hwr
  | complete i status wr hwr hopen hall =>
      rw [hposted] at hwr
      cases hwr
  | again out c r' p hw hfetch honce =>
      have hsys : r'.sys = r.sys := by rw [(fetch_some hfetch).1]
      refine mockStep_same hposted (congrArg (fun s => s.backend.mem) hsys)
        (congrArg Sys.posted hsys) ?_ rfl rfl
      intro c' hc'
      show Passed r'.sys c'
      rw [hsys]
      exact hc'
  | returns out c r' p rc u hw hfetch honce hu =>
      have hbackend := (step_kept hu).backend rfl
      have hposted' := (step_kept hu).posted rfl
      exact mockStep_same hposted (congrArg Backend.mem hbackend) hposted'
        (fun c hc => hc.step hq hu) rfl rfl

/-- The invariant of runs in mock mode: the content is that after a serial
execution with all the transfers. -/
structure MockInv (r₀ : Real) (as : List RealAction) (r : Real) (ops : List Effect) : Prop where
  serial : SerialExec r₀ as ops
  content : r.sys.backend.mem = replay r₀.sys.backend.mem ops
  posted : r.sys.posted = []
  passed : ∀ e ∈ ops, ∀ c, e.transfer = some c → Passed r.sys c
  all : ∀ e ∈ transfers r₀ as, e ∈ ops

theorem MockInv.step (h : MockInv r₀ as r ops) (hrun : run Real.step r₀ as = some r)
    (hstep : r.step a = some t) (hm : MockStep r a t) :
    ∃ ops', MockInv r₀ (as ++ [a]) t ops' := by
  have hserial := h.serial.snoc hrun hstep
  have hcontent := hm.content
  rw [h.content, ← replay_append, ← List.append_assoc] at hcontent
  have hpassed : ∀ e ∈ ops ++ (nbdEffect r a).toList, ∀ c, e.transfer = some c →
      Passed r.sys c := by
    intro e he c hc
    rcases List.mem_append.mp he with he | he
    · exact h.passed e he c hc
    · cases (nbdEffect_transfer (Option.mem_toList.mp he)).symm.trans hc
  have htransfers := transfers_snoc hrun hstep
  cases heff : transferEffect r a with
  | none =>
      rw [heff, Option.toList_none, List.append_nil] at hcontent htransfers
      refine ⟨_, hserial, hcontent, hm.posted, ?_, ?_⟩
      · intro e he c hc
        exact hm.passed c (hpassed e he c hc)
      · intro e he
        rw [htransfers] at he
        exact List.mem_append_left _ (h.all e he)
  | some e₀ =>
      rw [heff, Option.toList_some] at hcontent htransfers
      obtain ⟨c₀, hid, hnot, hnow⟩ := hm.transfer e₀ heff
      have hnew : e₀ ∉ ops ++ (nbdEffect r a).toList := fun he => hnot (hpassed e₀ he c₀ hid)
      have hmem : e₀ ∈ transfers r₀ (as ++ [a]) := by
        rw [htransfers]
        exact List.mem_append_right _ List.mem_cons_self
      refine ⟨_, hserial.apply hmem hid hnew, hcontent, hm.posted, ?_, ?_⟩
      · intro e he c hc
        rcases List.mem_append.mp he with he | he
        · exact hm.passed c (hpassed e he c hc)
        · rw [List.mem_singleton.mp he, hid] at hc
          cases hc
          exact hnow
      · intro e he
        rw [htransfers] at he
        rcases List.mem_append.mp he with he | he
        · exact List.mem_append_left _ (List.mem_append_left _ (h.all e he))
        · exact List.mem_append_right _ he

/-! ### The mode of a run -/

theorem step_useMock (hr : Reachable r.sys) (hstep : r.step a = some t) :
    t.sys.mgr.useMock = r.sys.mgr.useMock := by
  rcases step_project hr.live hstep with heq | ⟨b, hb⟩
  · rw [heq]
  · exact (step_peerStep hr.peerInv hb).mock_eq

theorem run_useMock (hinit : RealInitial r₀) (hrun : run Real.step r₀ as = some r) :
    r.sys.mgr.useMock = r₀.sys.mgr.useMock := by
  refine run_history (P := fun _ r => r.sys.mgr.useMock = r₀.sys.mgr.useMock) rfl ?_
    (runOk_trivial r₀ as) hrun
  intro as r a t hrun' _ ih _ hstep
  exact (step_useMock (Real.reachable hinit hrun') hstep).trans ih

theorem run_mockInv (hinit : RealInitial r₀) (hmock : r₀.sys.mgr.useMock = true)
    (hrun : run Real.step r₀ as = some r) : ∃ ops, MockInv r₀ as r ops := by
  refine run_history (P := fun as r => ∃ ops, MockInv r₀ as r ops) ?_ ?_
    (runOk_trivial r₀ as) hrun
  · obtain ⟨s, remote, hs, rfl⟩ := hinit
    obtain ⟨b, m, config, queueOk, mutexRc, provider, threadRc, -, -, rfl⟩ := hs
    exact ⟨[], serial_nil _, rfl, rfl, by rintro e ⟨⟩, by rintro e ⟨⟩⟩
  · rintro as r a t hrun' - ⟨ops, hinv⟩ - hstep
    have hr := Real.reachable hinit hrun'
    have hmock' := (run_useMock hinit hrun').trans hmock
    exact hinv.step hrun' hstep (step_mockStep hr hmock' hinv.posted hstep)

end Urma

end DirectStorage
