/-
DirectStorage/UrmaSerial.lean

The daemon as the control server drives it: one API call after the other.

The control server handles one client at a time and one request at a time, so
a call starts only when the previous one has returned (`Serial`).  The worker
and the NBD thread run concurrently all the same.  While a transfer waits, no
other call can start or go on, so nothing changes the peer table or the enable
flag under the worker (`Held`): the worker's second validation sees what the
first one saw.

The reason is one invariant, `OneCall`: at most one call is in progress.  A
request that is not done keeps its call in progress (`QueueInv.waits`), across
timeouts and spurious wake-ups.

Main result: `serial_workerSafe`.
-/
import DirectStorage.UrmaLifetime

namespace DirectStorage

namespace Urma

open Function

variable {s t s₀ : Sys} {a : Action} {as : List Action} {c : CallId}

/-! ### Serial runs -/

/-- No call is in progress. -/
def Sys.Idle (s : Sys) : Prop := ∀ c < s.nextCall, s.busy c = false

instance (s : Sys) : Decidable s.Idle := inferInstanceAs (Decidable (∀ c < s.nextCall, _))

/-- The calls the control server makes. -/
def CallKind.served : CallKind → Bool
  | .transfer _ _ | .peerConnect _ | .peerDisconnect _ | .enable | .disable | .fillStatus => true
  | .mockWritePeer _ _ _ | .mgrDestroy => false

/-- The step starts no call, or one of the control server's, and that only when
no other call is in progress. -/
def Serial (s : Sys) (a : Action) : Prop := ∀ kind ∈ a.call, kind.served = true ∧ s.Idle

instance (s : Sys) (a : Action) : Decidable (Serial s a) :=
  inferInstanceAs (Decidable (∀ kind ∈ a.call, kind.served = true ∧ s.Idle))

structure OneCall (s : Sys) : Prop where
  fresh : ∀ c, s.nextCall ≤ c → s.calls c = none
  one : ∀ c c', s.busy c = true → s.busy c' = true → c = c'

theorem OneCall.idle (h : OneCall s) (hidle : s.Idle) (c : CallId) : s.busy c = false := by
  by_cases hc : c < s.nextCall
  · exact hidle c hc
  · rw [Sys.busy, h.fresh c (Nat.le_of_not_lt hc)]
    rfl

theorem OneCall.step (h : OneCall s) (hok : Serial s a) (hstep : step s a = some t) :
    OneCall t := by
  have hcall := step_callStep hstep
  refine ⟨?_, ?_⟩
  · intro c hc
    cases hcall with
    | start k ha _ hcalls hnext =>
        have hlt : s.nextCall < c := by
          rw [hnext] at hc
          exact hc
        rw [hcalls, update_of_ne hlt.ne']
        exact h.fresh c hlt.le
    | advance c' kind pc pc' ha hcont hc' hbusy hwait hcalls hnext =>
        have hne : c ≠ c' := by
          rintro rfl
          rw [h.fresh c (hnext ▸ hc)] at hc'
          cases hc'
        rw [hcalls, update_of_ne hne]
        exact h.fresh c (hnext ▸ hc)
    | keep ha _ hcalls hnext =>
        rw [hcalls]
        exact h.fresh c (hnext ▸ hc)
  · intro c c' hc hc'
    rcases hcall.busy_before hc with hold | ⟨hstart, rfl⟩ <;>
      rcases hcall.busy_before hc' with hold' | ⟨hstart', rfl⟩
    · exact h.one c c' hold hold'
    · -- a call starts, so none was in progress
      obtain ⟨kind, hkind⟩ := Option.isSome_iff_exists.mp hstart'
      cases (h.idle (hok kind hkind).2 c).symm.trans hold
    · obtain ⟨kind, hkind⟩ := Option.isSome_iff_exists.mp hstart
      cases (h.idle (hok kind hkind).2 c').symm.trans hold'
    · rfl

theorem oneCall_initial (hinit : Initial s) : OneCall s := by
  obtain ⟨b, m, config, queueOk, mutexRc, provider, threadRc, -, -, rfl⟩ := hinit
  refine ⟨fun _ _ => rfl, ?_⟩
  rintro c c' ⟨⟩

/-! ### While a transfer waits -/

theorem Sys.Waits.busy (h : s.Waits c) : s.busy c = true := by
  obtain ⟨x, ts, hw⟩ := h
  obtain ⟨k, hk, hx⟩ := Option.bind_eq_some_iff.mp hw
  rw [Sys.busy, hk]
  rcases k with ⟨kind, pc⟩
  cases kind <;> cases hx
  rfl

/-- While a transfer waits, every step of a serial run is a quiet one. -/
theorem quiet_of_waits (h : OneCall s) (hok : Serial s a) (hc : s.Waits c)
    (hstep : step s a = some t) : a.quiet = true := by
  have hbusy := hc.busy
  have hnostart : a.call = none := by
    by_contra hne
    obtain ⟨kind, hkind⟩ := Option.ne_none_iff_exists'.mp hne
    cases (h.idle (hok kind hkind).2 c).symm.trans hbusy
  -- a connect or disconnect in progress would be the transfer itself
  have hother : ∀ c' kind pc, s.calls c' = some ⟨kind, pc⟩ → pc.busy = true →
      (∀ x ms, kind ≠ .transfer x ms) → False := by
    intro c' kind pc hc' hpc hkind
    have hbusy' : s.busy c' = true := by
      rw [Sys.busy, hc']
      exact hpc
    obtain rfl := h.one c c' hbusy hbusy'
    obtain ⟨x, ts, hw⟩ := hc
    rw [Sys.transfer, hc'] at hw
    cases kind <;> first | exact hkind _ _ rfl | cases hw
  unfold step at hstep
  split at hstep
  · cases hstep
  cases a with
  | peerConnectLocked c' =>
      simp only [peerConnectLocked] at hstep
      split at hstep
      next info p hc' => exact (hother c' _ _ hc' rfl (by simp)).elim
      next => cases hstep
  | peerDisconnectRelease c' =>
      simp only [peerDisconnectRelease] at hstep
      split at hstep
      next peerId old hc' => exact (hother c' _ _ hc' rfl (by simp)).elim
      next => cases hstep
  | _ => first | rfl | cases hnostart

/-- Validation looks at the flag, the peers and the backend's geometry. -/
theorem validateXferLocked_congr {m m' : Mgr} {b b' : Backend} (henabled : m'.enabled = m.enabled)
    (hpeers : m'.peers = m.peers) (hgeo : SameGeometry b b') (x : UrmaTransfer) :
    validateXferLocked m' b' x = validateXferLocked m b x := by
  have hfind : findPeerLocked m' x.peerId = findPeerLocked m x.peerId := by
    simp only [findPeerLocked, hpeers]
  have hrange : ramdiskBackendValidateRange b' x.localOffset x.length.toUInt64 =
      ramdiskBackendValidateRange b x.localOffset x.length.toUInt64 := by
    rw [hgeo]
    rfl
  have halign : validateAlignment b' x = validateAlignment b x := by
    rw [hgeo]
    rfl
  simp only [validateXferLocked, henabled, hpeers, hfind, hrange, halign]

/-- Transfer `x` of call `c` was validated on slot `k`, which held peer `p`, and
so it still is. -/
structure Held (s : Sys) (c : CallId) (x : UrmaTransfer) (k : Slot) (p : Peer) : Prop where
  valid : validateXferLocked s.mgr s.backend x = .ok k
  slot : s.mgr.peers k = p
  args : ∃ ts, s.transfer c = some (x, .waiting ts)

/-- An accepted transfer is held. -/
theorem Accepts.held {x : UrmaTransfer} {k : Slot} (h : Accepts s t x k) :
    Held t s.nextCall x k (s.mgr.peers k) := by
  refine ⟨?_, by rw [h.peers], h.waits⟩
  rw [validateXferLocked_congr h.enabled h.peers (sameGeometry_of_eq h.backend)]
  exact h.valid

theorem Held.waits {x : UrmaTransfer} {k : Slot} {p : Peer} (h : Held s c x k p) : s.Waits c := by
  obtain ⟨ts, hts⟩ := h.args
  exact ⟨x, ts, hts⟩

theorem QueueStep.finished_mono {v w : QueueView} (h : QueueStep v w) (hc : c ∈ v.core.finished) :
    c ∈ w.core.finished := by
  cases h with
  | complete c' rc hhand => exact List.mem_append_left _ hc
  | _ => exact hc

theorem Held.step {x : UrmaTransfer} {k : Slot} {p : Peer} (h : Held s c x k p)
    (hone : OneCall s) (hq : QueueInv s.queueView) (hok : Serial s a) (hstep : step s a = some t)
    (hacc : c ∈ t.accepted) (hnf : c ∉ t.finished) : Held t c x k p := by
  obtain ⟨hpeers, henabled, -, -⟩ := step_quiet hstep (quiet_of_waits hone hok h.waits hstep)
  refine ⟨?_, ?_, ?_⟩
  · rw [validateXferLocked_congr henabled hpeers (step_geometry hstep)]
    exact h.valid
  · rw [hpeers]
    exact h.slot
  · -- the request is not done, so the call still waits, for the same transfer
    obtain ⟨x', ts', hw⟩ := ((step_queueStep hq hstep).preserves hq).waits hacc hnf
    obtain ⟨ts, hts⟩ := h.args
    have hacc' : c ∈ s.accepted := (hq.subs.waiting c x ts hts).2
    obtain ⟨pc, hpc⟩ := (step_queueStep hq hstep).arg_kept hq hacc' hw
    have heq : some (x, CallPc.waiting ts) = some (x', pc) := hts.symm.trans hpc
    cases heq
    exact ⟨ts', hw⟩

/-! ### One request at a time -/

theorem length_le_one_of_eq {l : List CallId} (hnodup : l.Nodup) (h : ∀ c ∈ l, ∀ c' ∈ l, c = c') :
    l.length ≤ 1 := by
  rcases l with - | ⟨c, - | ⟨c', l⟩⟩
  · exact Nat.zero_le 1
  · exact Nat.le_refl 1
  · obtain rfl := h c (by simp) c' (by simp)
    simp at hnodup

/-- The requests that are accepted and not done: the one in the worker's hands
and those in the queue. -/
theorem QueueInv.unfinished (hq : QueueInv s.queueView) : ∃ l : List CallId,
    s.accepted = s.finished ++ l ∧ l.length = s.mgr.pending + s.mgr.inflight ∧ l.Nodup ∧
      ∀ c ∈ l, s.Waits c := by
  obtain ⟨q, hholds, horder⟩ : ∃ q, s.mgr.queue.Holds q ∧
    s.accepted = s.finished ++ s.worker.inHand ++ q := hq.core.order
  have hin : s.mgr.inflight = s.worker.inHand.length := hq.core.inflight_eq
  have hnodup : s.accepted.Nodup := hq.core.nodup
  rw [List.append_assoc] at horder
  refine ⟨s.worker.inHand ++ q, horder, ?_, ?_, ?_⟩
  · rw [List.length_append, ← hin, ← hholds.count_eq, Nat.add_comm]
  · rw [horder] at hnodup
    exact hnodup.of_append_right
  · intro c hc
    have hacc : c ∈ s.accepted := by
      rw [horder]
      exact List.mem_append_right _ hc
    refine hq.waits hacc ?_
    intro hfin
    rw [horder] at hnodup
    exact List.disjoint_of_nodup_append hnodup hfin hc

/-- **At most one request is pending or in flight.** -/
theorem OneCall.load_le (h : OneCall s) (hq : QueueInv s.queueView) :
    s.mgr.pending + s.mgr.inflight ≤ 1 := by
  obtain ⟨l, -, hlen, hnodup, hwaits⟩ := hq.unfinished
  rw [← hlen]
  refine length_le_one_of_eq hnodup ?_
  intro c hc c' hc'
  exact h.one c c' (hwaits c hc).busy (hwaits c' hc').busy

/-- Between calls, every request is done and the queue is empty. -/
theorem OneCall.drained (h : OneCall s) (hq : QueueInv s.queueView) (hidle : s.Idle) :
    s.accepted = s.finished ∧ s.mgr.pending = 0 := by
  obtain ⟨l, horder, hlen, -, hwaits⟩ := hq.unfinished
  have hnil : l = [] := by
    refine List.eq_nil_iff_forall_not_mem.mpr ?_
    intro c hc
    cases (h.idle hidle c).symm.trans (hwaits c hc).busy
  rw [hnil] at horder hlen
  refine ⟨by rw [horder, List.append_nil], ?_⟩
  rw [List.length_nil] at hlen
  omega

/-! ### No transfer returns `-EBUSY` -/

theorem executeMockXfer_rc {req : Request} {p : Peer} {rc : Int} {mem : ByteMem}
    {hbm : CallId → HbmBuf} (h : executeMockXfer s req p = some (rc, mem, hbm)) :
    rc ∈ [0, -EINVAL, -ENODEV] := by
  unfold executeMockXfer at h
  dsimp only at h
  repeat' split at h
  all_goals first
    | cases h; decide
    | cases h
      unfold ramdiskBackendLock
      split <;> decide
    | cases h

/-- The results of the worker. -/
theorem finishing_rc {rc : Int} (h : step s a = some t) (hw : t.worker = .finishing c rc) :
    s.worker = .finishing c rc ∨ rc ≠ -EBUSY := by
  cases step_cases h with
  | other ha heq hgeo => exact .inl (heq.symm.trans hw)
  | dequeue uninit htop hres =>
      cases hres with
      | idle hempty hbytes hto hreqs hfin =>
          rw [hw] at hto
          rcases hto with h₁ | h₁ | h₁ <;> cases h₁
      | valid c' k hd hto hfin => cases hw.symm.trans hto
      | invalid c' rc' hfront hrc hbytes hpeers hstatus hfin hwild hto =>
          rw [hw] at hto
          rcases hto with h₁ | h₁ <;> cases h₁
          right
          rintro rfl
          exact absurd (validateXferLocked_error_mem hrc) (by decide)
  | execute post hexec =>
      right
      simp only [workerExecute] at hexec
      repeat' split at hexec
      all_goals first | cases hexec; cases hw | cases hexec
      next hrc =>
        rintro rfl
        exact absurd (executeMockXfer_rc hrc) (by decide)
      next hrc =>
        rintro rfl
        simp only [realWorkRequest] at hrc
        repeat' split at hrc
        all_goals cases hrc
      next => decide
  | poll rc' c' hpoll ht =>
      right
      have hpoll' : workerPoll s rc' = some t := by
        simpa only [step, hpoll] using h
      simp only [workerPoll, hpoll] at hpoll'
      split_ifs at hpoll' with hrc
      cases hpoll'
      cases hw
      rcases hrc with rfl | rfl | rfl <;> decide
  | complete c' rc' hfin hres => cases hw.symm.trans hres.worker
  | log c' rc' hlog ht =>
      rw [ht] at hw
      cases hw

/-- No status and no result of a refused transfer is `-EBUSY`. -/
structure NoBusy (s : Sys) : Prop where
  worker : ∀ c rc, s.worker = .finishing c rc → rc ≠ -EBUSY
  status : ∀ c ∈ s.finished, (s.reqs c).status ≠ -EBUSY
  refused : ∀ c x rc, s.transfer c = some (x, .returned rc) → c ∉ s.accepted → rc ≠ -EBUSY

/-- The statuses of the finished requests after a step. -/
theorem status_step (hq : QueueInv s.queueView) (h : step s a = some t) (hc : c ∈ t.finished) :
    c ∈ s.finished ∧ (t.reqs c).status = (s.reqs c).status ∨
      ∃ rc, s.worker = .finishing c rc ∧ (t.reqs c).status = rc := by
  -- the worker keeps what it has in hand
  have hsame : t.worker.inHand = s.worker.inHand →
      c ∈ s.finished ∧ (t.reqs c).status = (s.reqs c).status := by
    intro hhand
    obtain ⟨hfin, hreqs⟩ := (step_queueStep hq h).same_hand hq hhand
    have hfin' : t.finished = s.finished := hfin
    rw [hfin'] at hc
    have hreq : t.reqs c = s.reqs c := hreqs c (hq.core.finished_accepted hc)
    exact ⟨hc, by rw [hreq]⟩
  cases step_cases h with
  | other ha heq hgeo => exact .inl (hsame (by rw [heq]))
  | dequeue uninit htop hres =>
      left
      cases hres with
      | idle hempty hbytes hto hreqs hfin =>
          rw [hfin] at hc
          exact ⟨hc, by rw [hreqs]⟩
      | valid c' k hd hto hfin =>
          rw [hfin] at hc
          exact ⟨hc, by rw [hd.reqs, status_setAddr]⟩
      | invalid c' rc hfront hrc hbytes hpeers hstatus hfin hwild hto =>
          rw [hfin] at hc
          exact ⟨hc, hstatus c⟩
  | execute post hexec =>
      left
      obtain ⟨c', k, conn, hw, hto⟩ := workerExecute_worker hexec
      refine hsame ?_
      rw [hw]
      rcases hto with h₁ | ⟨rc, h₁⟩ | h₁ <;> rw [h₁] <;> rfl
  | poll rc c' hw ht =>
      left
      refine hsame ?_
      rw [hw, ht]
      rfl
  | complete c' rc hw hres =>
      rw [hres.finished] at hc
      rcases List.mem_append.mp hc with hold | hnew
      · left
        have hne : c ≠ c' := by
          rintro rfl
          exact hq.core.hand_not_finished (by show s.worker.inHand = [c]; rw [hw]; rfl) hold
        exact ⟨hold, by rw [hres.reqs, update_of_ne hne]⟩
      · right
        obtain rfl := List.mem_singleton.mp hnew
        exact ⟨rc, hw, by rw [hres.reqs, update_self]⟩
  | log c' rc hw ht =>
      left
      refine hsame ?_
      rw [hw, ht]
      rfl

theorem mem_accepted_step (h : step s a = some t) (hc : c ∈ s.accepted) : c ∈ t.accepted := by
  rcases accepted_step h with heq | ⟨x, ms, now, k, -, hacc⟩
  · rw [heq]
    exact hc
  · rw [hacc.accepted]
    exact List.mem_append_left _ hc

/-- A refused transfer of a serial run was refused by validation. -/
theorem refused_step (hone : OneCall s) (hq : QueueInv s.queueView) (hok : Serial s a)
    (h : step s a = some t) {x : UrmaTransfer} {rc : Int}
    (hret : t.transfer c = some (x, .returned rc)) (hnacc : c ∉ t.accepted) :
    s.transfer c = some (x, .returned rc) ∨ rc ≠ -EBUSY := by
  have hnacc' : c ∉ s.accepted := fun hc => hnacc (mem_accepted_step h hc)
  cases step_callStep h with
  | start kind hcall _ hcalls hnext =>
      by_cases e : c = s.nextCall
      · right
        subst e
        have hkind : ∃ ms, kind.kind = .transfer x ms := by
          rw [transfer_update hcalls, update_self] at hret
          rcases kind with ⟨kind, pc⟩
          cases kind <;> cases hret
          exact ⟨_, rfl⟩
        obtain ⟨ms, hkind⟩ := hkind
        rw [hkind] at hcall
        have hidle := (hok _ hcall).2
        cases a with
        | transferSync x' ms' now =>
            cases hcall
            have hstep : t = transferSync s x ms now := by
              unfold step at h
              split at h
              · cases h
              · exact (Option.some.inj h).symm
            rcases transferSync_cases s x ms now with ⟨k, hacc⟩ | ⟨rc', heq, hwhy⟩
            · rw [hstep, hacc.accepted] at hnacc
              exact absurd (List.mem_append_right _ (List.mem_singleton_self _)) hnacc
            · rw [hstep, heq] at hret
              have hrc : rc' = rc := by
                simpa [Sys.transfer, Sys.newCall, Call.transfer] using hret
              subst hrc
              rcases hwhy with herr | ⟨-, hfull⟩
              · rintro rfl
                exact absurd (validateXferLocked_error_mem herr) (by decide)
              · -- the queue is empty between calls
                have hempty := (hone.drained hq hidle).2
                have hdepth : 1 ≤ s.mgr.queueDepth := hq.core.depth_pos
                omega
        | _ => cases hcall
      · left
        rw [transfer_update hcalls, update_of_ne e] at hret
        exact hret
  | advance c' kind pc pc' _ hcont hc' hbusy hwait hcalls hnext =>
      by_cases e : c = c'
      · -- a call that waits has its request accepted
        subst e
        rw [transfer_update hcalls, update_self] at hret
        have hkind : ∃ ms, kind = .transfer x ms := by
          cases kind <;> cases hret
          exact ⟨_, rfl⟩
        obtain ⟨ms, rfl⟩ := hkind
        obtain ⟨ts, rfl⟩ := hwait x ms rfl
        have hw : s.transfer c = some (x, .waiting ts) := by
          simp [Sys.transfer, hc', Call.transfer]
        exact absurd (hq.subs.waiting c x ts hw).2 hnacc'
      · left
        rw [transfer_update hcalls, update_of_ne e] at hret
        exact hret
  | keep _ _ hcalls hnext =>
      left
      rw [transfer_congr (congrFun hcalls c)] at hret
      exact hret

theorem NoBusy.step (h : NoBusy s) (hone : OneCall s) (hq : QueueInv s.queueView)
    (hok : Serial s a) (hstep : step s a = some t) : NoBusy t := by
  refine ⟨?_, ?_, ?_⟩
  · intro c rc hw
    rcases finishing_rc hstep hw with hold | hne
    · exact h.worker c rc hold
    · exact hne
  · intro c hc
    rcases status_step hq hstep hc with ⟨hold, hstatus⟩ | ⟨rc, hw, hstatus⟩
    · rw [hstatus]
      exact h.status c hold
    · rw [hstatus]
      exact h.worker c rc hw
  · intro c x rc hret hnacc
    rcases refused_step hone hq hok hstep hret hnacc with hold | hne
    · exact h.refused c x rc hold fun hc => hnacc (mem_accepted_step hstep hc)
    · exact hne

theorem noBusy_initial (hinit : Initial s) : NoBusy s := by
  obtain ⟨b, m, config, queueOk, mutexRc, provider, threadRc, -, -, rfl⟩ := hinit
  refine ⟨?_, ?_, ?_⟩
  · rintro c rc ⟨⟩
  · rintro c ⟨⟩
  · rintro c x rc ⟨⟩

/-! ### The result -/

/-- The step accepts transfer `x` as call `c`, validated on slot `k` with peer
`p` in it. -/
def Submits (c : CallId) (x : UrmaTransfer) (k : Slot) (p : Peer) (s : Sys) (a : Action)
    (t : Sys) : Prop :=
  (∃ timeoutMs now, a = .transferSync x timeoutMs now) ∧ c = s.nextCall ∧
    validateXferLocked s.mgr s.backend x = .ok k ∧ s.mgr.peers k = p ∧
    t.accepted = s.accepted ++ [c]

/-- The step takes request `c` out of the queue. -/
def Dequeues (c : CallId) (s : Sys) (a : Action) (t : Sys) : Prop :=
  (∃ uninit, a = .workerDequeue uninit) ∧ t.dequeued = s.dequeued ++ [c]

/-- Request `c` still asks for `x`, validates again on slot `k`, finds `p` in it,
and goes on to its execution. -/
def Revalidates (c : CallId) (x : UrmaTransfer) (k : Slot) (p : Peer) (s : Sys) (_ : Action)
    (t : Sys) : Prop :=
  (s.reqs c).xfer = x ∧ validateXferLocked s.mgr s.backend (s.reqs c).xfer = .ok k ∧
    s.mgr.peers k = p ∧ t.worker = .executing c k p.conn

/-- Every request the worker takes out of the queue was submitted before, and
validates as it did then. -/
def AllRevalidated (s₀ : Sys) (as : List Action) : Prop :=
  ∀ pre c, OccursAt step s₀ as pre (Dequeues c) → ∃ pre' x k p, pre'.length < pre.length ∧
    OccursAt step s₀ as pre' (Submits c x k p) ∧ OccursAt step s₀ as pre (Revalidates c x k p)

/-- What the control server can rely on. -/
structure WorkerSafe (s₀ : Sys) (as : List Action) (s : Sys) : Prop where
  revalidates : AllRevalidated s₀ as
  load_le : s.mgr.pending + s.mgr.inflight ≤ 1
  not_busy : ∀ c x rc, s.transfer c = some (x, .returned rc) → rc ≠ -EBUSY
  /-- The peer of a request that is not done is still in its slot. -/
  connected : ∀ c ∈ s.accepted, c ∉ s.finished → ∃ pre x k p,
    OccursAt step s₀ as pre (Submits c x k p) ∧ s.mgr.peers k = p ∧ p.active = true ∧
    p.peerId = x.peerId

/-- The invariant of serial runs. -/
structure SerialInv (s : Sys) : Prop where
  queue : QueueInv s.queueView
  one : OneCall s
  noBusy : NoBusy s

theorem SerialInv.step (h : SerialInv s) (hok : Serial s a) (hstep : step s a = some t) :
    SerialInv t :=
  ⟨(step_queueStep h.queue hstep).preserves h.queue, h.one.step hok hstep,
    h.noBusy.step h.one h.queue hok hstep⟩

theorem serialInv_initial (hinit : Initial s) : SerialInv s :=
  ⟨queueInv_initial hinit, oneCall_initial hinit, noBusy_initial hinit⟩

theorem serial_inv (hinit : Initial s₀) (hok : RunOk step Serial s₀ as)
    (hrun : run step s₀ as = some s) : SerialInv s :=
  run_invariant (serialInv_initial hinit) (fun _ _ _ hs hok hstep => hs.step hok hstep) hok hrun

/-- Every request that is not done was submitted, and is held as it was then. -/
def AllHeld (s₀ : Sys) (as : List Action) (s : Sys) : Prop :=
  ∀ c ∈ s.accepted, c ∉ s.finished → ∃ pre x k p,
    OccursAt step s₀ as pre (Submits c x k p) ∧ Held s c x k p

theorem allHeld_step (h : AllHeld s₀ as s) (hinv : SerialInv s) (hrun : run step s₀ as = some s)
    (hok : Serial s a) (hstep : step s a = some t) : AllHeld s₀ (as ++ [a]) t := by
  intro c hacc hnf
  have hold : c ∈ s.accepted → ∃ pre x k p,
      OccursAt step s₀ (as ++ [a]) pre (Submits c x k p) ∧ Held t c x k p := by
    intro hacc'
    have hnf' : c ∉ s.finished := fun hfin =>
      hnf ((step_queueStep hinv.queue hstep).finished_mono hfin)
    obtain ⟨pre, x, k, p, hocc, hheld⟩ := h c hacc' hnf'
    exact ⟨pre, x, k, p, hocc.snoc a, hheld.step hinv.one hinv.queue hok hstep hacc hnf⟩
  rcases accepted_step hstep with heq | ⟨x, timeoutMs, now, k, rfl, hnew⟩
  · rw [heq] at hacc
    exact hold hacc
  · have hacc' := hacc
    rw [hnew.accepted] at hacc'
    rcases List.mem_append.mp hacc' with hacc' | hacc'
    · exact hold hacc'
    · obtain rfl := List.mem_singleton.mp hacc'
      exact ⟨as, x, k, s.mgr.peers k, OccursAt.last hrun hstep
        ⟨⟨timeoutMs, now, rfl⟩, rfl, hnew.valid, rfl, hnew.accepted⟩, hnew.held⟩

theorem serial_allHeld (hinit : Initial s₀) (hok : RunOk step Serial s₀ as)
    (hrun : run step s₀ as = some s) : AllHeld s₀ as s := by
  refine run_history (P := fun as s => AllHeld s₀ as s) ?_ ?_ hok hrun
  · obtain ⟨b, m, config, queueOk, mutexRc, provider, threadRc, -, -, rfl⟩ := hinit
    rintro c ⟨⟩
  · intro as s a t hrun' hok' ih hserial hstep
    exact allHeld_step ih (serial_inv hinit hok' hrun') hrun' hserial hstep

/-- The request that is taken out of the queue was at its front. -/
theorem QueueStep.front_of_dequeued {v w : QueueView} (h : QueueStep v w)
    (hdeq : w.core.dequeued = v.core.dequeued ++ [c]) : v.core.queue.front = some c := by
  cases h with
  | dequeue c' addr hfront hidle =>
      have hc : [c'] = [c] := List.append_cancel_left hdeq
      cases hc
      exact hfront
  | _ => exact absurd hdeq (by simp [QueueCore.accept, QueueCore.complete])

/-- A request that is held validates again when it is taken out of the queue. -/
theorem Held.revalidates {x : UrmaTransfer} {k : Slot} {p : Peer} (h : Held s c x k p)
    (hq : QueueInv s.queueView) (hfront : s.mgr.queue.front = some c)
    (hdeq : Dequeues c s a t) (hstep : Urma.step s a = some t) : Revalidates c x k p s a t := by
  obtain ⟨⟨uninit, rfl⟩, hdeq⟩ := hdeq
  obtain ⟨hacc, hnd⟩ := hq.core.front_pending (c := c) hfront
  obtain ⟨ts, hts⟩ := h.args
  have hx : (s.reqs c).xfer = x := (hq.subs.args c x _ hts hacc).2 hnd
  have hvalid : validateXferLocked s.mgr s.backend (s.reqs c).xfer = .ok k := by
    rw [hx]
    exact h.valid
  refine ⟨hx, hvalid, h.slot, ?_⟩
  cases step_cases hstep with
  | other ha heq hgeo => cases ha
  | dequeue uninit htop hres =>
      cases hres with
      | idle hempty hbytes hto hreqs hfin =>
          rcases hempty with h₀ | h₀
          · exact absurd h₀ (hq.core.count_ne_zero (c := c) hfront)
          · cases hfront.symm.trans h₀
      | valid c' k' hd hto hfin =>
          obtain rfl : c' = c := Option.some.inj (hd.front.symm.trans hfront)
          have hk : k' = k := by
            have := validateXferLocked_ok_iff.mpr hd.valid
            rw [hvalid] at this
            exact (Except.ok.inj this).symm
          subst hk
          rw [hto, h.slot]
      | invalid c' rc hfront' hrc hbytes hpeers hstatus hfin hwild hto =>
          obtain rfl : c' = c := Option.some.inj (hfront'.symm.trans hfront)
          cases hvalid.symm.trans hrc

theorem serial_revalidated (hinit : Initial s₀) (hok : RunOk step Serial s₀ as)
    (hrun : run step s₀ as = some s) : AllRevalidated s₀ as := by
  refine run_history (P := fun as _ => AllRevalidated s₀ as) ?_ ?_ hok hrun
  · rintro pre c ⟨a, post, u, v, heq, -⟩
    simp at heq
  · intro as s a t hrun' hok' ih _ hstep pre c hocc
    rcases hocc.of_snoc hrun' hstep with hold | ⟨rfl, hdeq⟩
    · obtain ⟨pre', x, k, p, hlt, hsub, hre⟩ := ih pre c hold
      exact ⟨pre', x, k, p, hlt, hsub.snoc a, hre.snoc a⟩
    · -- the request at the front is held as it was submitted
      have hq := (serial_inv hinit hok' hrun').queue
      have hfront : s.mgr.queue.front = some c :=
        (step_queueStep hq hstep).front_of_dequeued hdeq.2
      obtain ⟨hacc, hnd⟩ := hq.core.front_pending (c := c) hfront
      obtain ⟨pre', x, k, p, hsub, hheld⟩ := serial_allHeld hinit hok' hrun' c hacc
        fun hfin => hnd (hq.core.finished_dequeued hfin)
      exact ⟨pre', x, k, p, hsub.length_lt, hsub.snoc a,
        OccursAt.last hrun' hstep (hheld.revalidates hq hfront hdeq hstep)⟩

/-- **The worker is safe under the control server**: in every run in which the
API calls come one after the other, whatever the worker and the NBD thread do in
between. -/
theorem serial_workerSafe (hinit : Initial s₀) (hok : RunOk step Serial s₀ as)
    (hrun : run step s₀ as = some s) : WorkerSafe s₀ as s := by
  have hinv := serial_inv hinit hok hrun
  refine ⟨serial_revalidated hinit hok hrun, hinv.one.load_le hinv.queue, ?_, ?_⟩
  · intro c x rc hret
    by_cases hacc : c ∈ s.accepted
    · have hfin : c ∈ s.finished := hinv.queue.subs.returned_finished hret hacc
      rw [(hinv.queue.subs.done c hfin).2 x rc hret]
      exact hinv.noBusy.status c hfin
    · exact hinv.noBusy.refused c x rc hret hacc
  · intro c hacc hnf
    obtain ⟨pre, x, k, p, hsub, hheld⟩ := serial_allHeld hinit hok hrun c hacc hnf
    obtain ⟨hactive, hid⟩ := findPeerLocked_some (validateXferLocked_ok_iff.mp hheld.valid).found
    rw [hheld.slot] at hactive hid
    exact ⟨pre, x, k, p, hsub, hheld.slot, hactive, hid⟩

/-- A transfer is submitted, times out once and is taken out of the queue, while
the NBD thread writes. -/
def Small.serial : List Action :=
  Small.connect ++
    [.transferSync (Small.xfer 65536) 0 Small.now, .timedwait 1 ETIMEDOUT Small.now,
      .backendWrite 0 [1, 2, 3] 3, .workerDequeue .fault]

theorem workerSafe_serial : ∃ s, run step Small.start Small.serial = some s ∧
    s.worker = .executing 1 0 0 ∧ RunOk step Serial Small.start Small.serial ∧
    WorkerSafe Small.start Small.serial s := by
  obtain ⟨s, hrun, hs⟩ := exists_of_run_any (δ := step) Small.start Small.serial
    (fun s => s.worker = .executing 1 0 0) (by decide +kernel)
  have hok : RunOk step Serial Small.start Small.serial := by decide +kernel
  exact ⟨s, hrun, of_decide_eq_true hs, hok, serial_workerSafe Small.start_initial hok hrun⟩

end Urma

end DirectStorage
