/-
DirectStorage/UrmaCalls.lean

The API calls of the daemon as a whole: which steps start a call, which go on
with one, and what the other steps leave alone.

`CallStep` says what a step does to the table of calls, whatever the kind of
call: a new call is entered, a call in progress goes on or returns, or nothing
happens.  `step_quiet` says that the worker, a waiting submitter and the NBD
thread do not touch the peer table and the enable flag.
-/
import DirectStorage.UrmaFrame

namespace DirectStorage

namespace Urma

open Function

variable {s t : Sys} {a : Action}

/-! ### Labels -/

/-- The API call that the step starts. -/
def Action.call : Action → Option CallKind
  | .transferSync x timeoutMs _ => some (.transfer x timeoutMs)
  | .peerConnect info _ => some (.peerConnect info)
  | .peerDisconnect peerId => some (.peerDisconnect peerId)
  | .enable => some .enable
  | .disable => some .disable
  | .fillStatus => some .fillStatus
  | .mockWritePeer peerId remoteAddr _ len => some (.mockWritePeer peerId remoteAddr len)
  | .mgrDestroy => some .mgrDestroy
  | _ => none

/-- The call in progress that the step goes on with. -/
def Action.continues : Action → Option CallId
  | .timedwait c _ _ | .peerConnectLocked c | .peerDisconnectRelease c => some c
  | _ => none

/-- A step of the worker, of a waiting submitter or of the NBD thread. -/
def Action.quiet : Action → Bool
  | .timedwait _ _ _ | .workerDequeue _ | .workerExecute _ | .workerPoll _ | .workerComplete
  | .workerLog | .backendWrite _ _ _ | .backendZero _ _ => true
  | _ => false

/-- The call has not returned. -/
def CallPc.busy : CallPc → Bool
  | .returned _ => false
  | _ => true

/-- Call `c` was made and has not returned. -/
def Sys.busy (s : Sys) (c : CallId) : Bool := (s.calls c).any fun k => k.pc.busy

/-! ### What a step does to the calls -/

/-- The table of calls after a step. -/
inductive CallStep (s : Sys) (a : Action) (t : Sys) : Prop
  | start (k : Call) (ha : a.call = some k.kind) (hcont : a.continues = none)
      (hcalls : t.calls = update s.calls s.nextCall (some k))
      (hnext : t.nextCall = s.nextCall + 1)
  | advance (c : CallId) (kind : CallKind) (pc pc' : CallPc) (ha : a.call = none)
      (hcont : a.continues = some c) (hc : s.calls c = some ⟨kind, pc⟩) (hbusy : pc.busy = true)
      (hwait : ∀ x timeoutMs, kind = .transfer x timeoutMs → ∃ ts, pc = .waiting ts)
      (hcalls : t.calls = update s.calls c (some ⟨kind, pc'⟩)) (hnext : t.nextCall = s.nextCall)
  | keep (ha : a.call = none) (hcont : a.continues = none) (hcalls : t.calls = s.calls)
      (hnext : t.nextCall = s.nextCall)

theorem callStep_transferSync (s : Sys) (x : UrmaTransfer) (timeoutMs : UInt32)
    (now : ClockTime) :
    CallStep s (.transferSync x timeoutMs now) (transferSync s x timeoutMs now) := by
  unfold transferSync
  split
  · exact .start _ rfl rfl rfl rfl
  · split <;> exact .start _ rfl rfl rfl rfl

theorem callStep_timedwait {c : CallId} {rc : Int} {now : ClockTime}
    (h : timedwait s c rc now = some t) : CallStep s (.timedwait c rc now) t := by
  unfold timedwait at h
  split at h
  next x timeoutMs ts hc =>
    have hloop : ∀ ts', CallStep s (.timedwait c rc now)
        (waitLoop s c (.transfer x timeoutMs) ts') := by
      intro ts'
      unfold waitLoop
      split <;> exact .advance c _ _ _ rfl rfl hc rfl (fun _ _ _ => ⟨ts, rfl⟩) rfl rfl
    split_ifs at h <;> obtain rfl := Option.some.inj h
    · exact hloop _
    · exact .advance c _ _ _ rfl rfl hc rfl (fun _ _ _ => ⟨ts, rfl⟩) rfl rfl
    · exact hloop _
  next => cases h

theorem callStep_peerConnect (s : Sys) (info : PeerConnectInfo) (env : ConnectEnv) :
    CallStep s (.peerConnect info env) (peerConnect s info env) := by
  unfold peerConnect
  repeat' split
  all_goals exact .start _ rfl rfl rfl rfl

theorem callStep_peerConnectLocked {c : CallId} (h : peerConnectLocked s c = some t) :
    CallStep s (.peerConnectLocked c) t := by
  unfold peerConnectLocked at h
  split at h
  next info p hc =>
    -- every way out of the locked section returns
    have hundo : ∀ rc, CallStep s (.peerConnectLocked c)
        ((s.freeHbm p.mockHbm).setCall c (.peerConnect info) (.returned rc)) := by
      intro rc
      refine .advance c _ _ (.returned rc) rfl rfl hc rfl ?_ ?_ (nextCall_freeHbm _ _)
      · rintro x timeoutMs ⟨⟩
      show update (s.freeHbm p.mockHbm).calls c _ = _
      rw [calls_freeHbm]
    repeat' split at h
    all_goals obtain rfl := Option.some.inj h
    · exact hundo _
    · exact hundo _
    · exact hundo _
    · exact .advance c _ _ _ rfl rfl hc rfl (by rintro x timeoutMs ⟨⟩) rfl rfl
  next => cases h

theorem callStep_peerDisconnect (s : Sys) (peerId : UInt64) :
    CallStep s (.peerDisconnect peerId) (peerDisconnect s peerId) := by
  unfold peerDisconnect
  repeat' split
  all_goals exact .start _ rfl rfl rfl rfl

theorem callStep_peerDisconnectRelease {c : CallId} (h : peerDisconnectRelease s c = some t) :
    CallStep s (.peerDisconnectRelease c) t := by
  unfold peerDisconnectRelease at h
  split at h
  next peerId old hc =>
    obtain rfl := Option.some.inj h
    refine .advance c _ _ (.returned 0) rfl rfl hc rfl ?_ ?_ (nextCall_freeHbm _ _)
    · rintro x timeoutMs ⟨⟩
    show update (s.freeHbm old.mockHbm).calls c _ = _
    rw [calls_freeHbm]
  next => cases h

theorem callStep_mockWritePeer (s : Sys) (peerId remoteAddr : UInt64) (data : List UInt8)
    (len : UInt32) : CallStep s (.mockWritePeer peerId remoteAddr data len)
      (mockWritePeer s peerId remoteAddr data len) := by
  unfold mockWritePeer
  split <;> exact .start _ rfl rfl rfl rfl

/-- **What a step does to the calls.** -/
theorem step_callStep (h : step s a = some t) : CallStep s a t := by
  by_cases hw : a.byWorker = true
  · have hkept := worker_kept h hw
    cases a <;> first | exact .keep rfl rfl hkept.calls hkept.nextCall | cases hw
  · unfold step at h
    split at h
    · cases h
    cases a with
    | transferSync x timeoutMs now =>
        obtain rfl := Option.some.inj h
        exact callStep_transferSync s x timeoutMs now
    | timedwait c rc now => exact callStep_timedwait h
    | peerConnect info env =>
        obtain rfl := Option.some.inj h
        exact callStep_peerConnect s info env
    | peerConnectLocked c => exact callStep_peerConnectLocked h
    | peerDisconnect peerId =>
        obtain rfl := Option.some.inj h
        exact callStep_peerDisconnect s peerId
    | peerDisconnectRelease c => exact callStep_peerDisconnectRelease h
    | mockWritePeer peerId remoteAddr data len =>
        obtain rfl := Option.some.inj h
        exact callStep_mockWritePeer s peerId remoteAddr data len
    | enable =>
        obtain rfl := Option.some.inj h
        exact .start _ rfl rfl rfl rfl
    | disable =>
        obtain rfl := Option.some.inj h
        exact .start _ rfl rfl rfl rfl
    | fillStatus =>
        obtain rfl := Option.some.inj h
        exact .start _ rfl rfl rfl rfl
    | mgrDestroy =>
        obtain rfl := Option.some.inj h
        exact .start _ rfl rfl rfl rfl
    | backendWrite offset data len =>
        obtain rfl := Option.some.inj h
        exact .keep rfl rfl rfl rfl
    | backendZero offset len =>
        obtain rfl := Option.some.inj h
        exact .keep rfl rfl rfl rfl
    | _ => exact absurd rfl hw

/-- A call that the step does not go on with stays as it is. -/
theorem CallStep.calls_eq (h : CallStep s a t) {c : CallId} (hc : c ≠ s.nextCall)
    (hcont : a.continues ≠ some c) : t.calls c = s.calls c := by
  cases h with
  | start k ha _ hcalls hnext => rw [hcalls, update_of_ne hc]
  | advance c' kind pc pc' ha hcont' hc' hbusy hwait hcalls hnext =>
      have hne : c ≠ c' := by
        rintro rfl
        exact hcont hcont'
      rw [hcalls, update_of_ne hne]
  | keep ha _ hcalls hnext => rw [hcalls]

/-- A call in progress was in progress before, or has just been started. -/
theorem CallStep.busy_before (h : CallStep s a t) {c : CallId} (hc : t.busy c = true) :
    s.busy c = true ∨ a.call.isSome = true ∧ c = s.nextCall := by
  cases h with
  | start k ha _ hcalls hnext =>
      by_cases e : c = s.nextCall
      · exact .inr ⟨by rw [ha]; rfl, e⟩
      · left
        rw [Sys.busy, hcalls, update_of_ne e] at hc
        exact hc
  | advance c' kind pc pc' ha hcont hc' hbusy hwait hcalls hnext =>
      left
      by_cases e : c = c'
      · subst e
        rw [Sys.busy, hc']
        exact hbusy
      · rw [Sys.busy, hcalls, update_of_ne e] at hc
        exact hc
  | keep ha _ hcalls hnext =>
      left
      rw [Sys.busy, hcalls] at hc
      exact hc

/-! ### Which steps accept a request -/

/-- What an accepted `ramdisk_urma_transfer_sync` found: the slot `k` and room in
the queue. -/
structure Accepts (s t : Sys) (x : UrmaTransfer) (k : Slot) : Prop where
  valid : validateXferLocked s.mgr s.backend x = .ok k
  room : s.mgr.pending < s.mgr.queueDepth
  accepted : t.accepted = s.accepted ++ [s.nextCall]
  waits : ∃ ts, t.transfer s.nextCall = some (x, .waiting ts)
  reqs : t.reqs s.nextCall = Request.ofXfer x
  peers : t.mgr.peers = s.mgr.peers
  enabled : t.mgr.enabled = s.mgr.enabled
  backend : t.backend = s.backend

/-- What a refused `ramdisk_urma_transfer_sync` returns. -/
theorem transferSync_cases (s : Sys) (x : UrmaTransfer) (timeoutMs : UInt32) (now : ClockTime) :
    (∃ k, Accepts s (transferSync s x timeoutMs now) x k) ∨
    ∃ rc, transferSync s x timeoutMs now = s.newCall (.transfer x timeoutMs) (.returned rc) ∧
      (validateXferLocked s.mgr s.backend x = .error rc ∨
        rc = -EBUSY ∧ s.mgr.queueDepth ≤ s.mgr.pending) := by
  unfold transferSync
  rcases e : validateXferLocked s.mgr s.backend x with rc | k
  · exact .inr ⟨rc, rfl, .inl rfl⟩
  · dsimp only
    split_ifs with hfull
    · exact .inr ⟨-EBUSY, rfl, .inr ⟨rfl, hfull⟩⟩
    · refine .inl ⟨k, e, Nat.lt_of_not_le hfull, rfl, ?_, ?_, rfl, rfl, rfl⟩
      · refine ⟨makeAbsTimeout now (effectiveTimeout timeoutMs), ?_⟩
        simp [Sys.transfer, Sys.newCall, Call.transfer]
      · exact update_self _ _ _

/-- `ramdisk_urma_transfer_sync` gets past validation and the test for a full
queue. -/
def admits (s : Sys) (x : UrmaTransfer) : Bool :=
  (validateXferLocked s.mgr s.backend x).isOk && decide (s.mgr.pending < s.mgr.queueDepth)

theorem Accepts.admits {x : UrmaTransfer} {k : Slot} (h : Accepts s t x k) : admits s x = true := by
  simp [Urma.admits, h.valid, h.room, Except.isOk, Except.toBool]

/-- **A transfer that is not admitted** leaves the queue as it was. -/
theorem transferSync_accepted_iff (s : Sys) (x : UrmaTransfer) (timeoutMs : UInt32)
    (now : ClockTime) :
    (transferSync s x timeoutMs now).accepted = s.accepted ↔ admits s x = false := by
  rcases transferSync_cases s x timeoutMs now with ⟨k, hacc⟩ | ⟨rc, heq, hwhy⟩
  · refine iff_of_false ?_ ?_
    · rw [hacc.accepted]
      simp
    · rw [hacc.admits]
      exact Bool.noConfusion
  · refine iff_of_true (by rw [heq]; rfl) ?_
    rcases hwhy with herr | ⟨-, hfull⟩
    · simp [admits, herr, Except.isOk, Except.toBool]
    · simp [admits, hfull]

/-- **Only `ramdisk_urma_transfer_sync` accepts a request.** -/
theorem accepted_step (h : step s a = some t) : t.accepted = s.accepted ∨
    ∃ x timeoutMs now k, a = .transferSync x timeoutMs now ∧ Accepts s t x k := by
  rcases (step_kept h).accepted with ⟨x, timeoutMs, now, rfl⟩ | hkept
  · unfold step at h
    split at h
    · cases h
    obtain rfl := Option.some.inj h
    rcases transferSync_cases s x timeoutMs now with ⟨k, hacc⟩ | ⟨rc, heq, -⟩
    · exact .inr ⟨x, timeoutMs, now, k, rfl, hacc⟩
    · left
      rw [heq]
      rfl
  · exact .inl hkept

/-! ### What the quiet steps leave alone -/

/-- **The worker, a waiting submitter and the NBD thread** touch neither the
peer table nor the flags. -/
theorem step_quiet (h : step s a = some t) (ha : a.quiet = true) :
    t.mgr.peers = s.mgr.peers ∧ t.mgr.enabled = s.mgr.enabled ∧
      t.mgr.useMock = s.mgr.useMock ∧ t.mgr.stopping = s.mgr.stopping := by
  by_cases hw : a.byWorker = true
  · have hkept := worker_kept h hw
    exact ⟨hkept.peers, hkept.enabled, hkept.useMock, hkept.stopping⟩
  unfold step at h
  split at h
  · cases h
  cases a with
  | timedwait c rc now =>
      simp only [timedwait, waitLoop] at h
      repeat' split at h
      all_goals first | cases h; exact ⟨rfl, rfl, rfl, rfl⟩ | cases h
  | backendWrite offset data len =>
      obtain rfl := Option.some.inj h
      exact ⟨rfl, rfl, rfl, rfl⟩
  | backendZero offset len =>
      obtain rfl := Option.some.inj h
      exact ⟨rfl, rfl, rfl, rfl⟩
  | _ => first | exact absurd rfl hw | cases ha

end Urma

end DirectStorage
