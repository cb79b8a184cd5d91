/-
DirectStorage/UrmaProvider.lean

The daemon in real mode, with the URMA provider behind it.

`Real` extends the daemon by the provider's view of the work requests that
`execute_real_xfer` posted: which bytes it has moved, whether the request has
completed and with which status, and whether its completion record has been
delivered.  The provider moves the bytes of a posted request in pieces of any
size and order, completes it at any time or never, and delivers each completion
at most once, one per `urma_poll_jfc`; a poll may also be empty or fail.

`real_poll_completion` is here iteration by iteration (`Real.poll`); in the
daemon's own model it is one step that returns some code.  `step_project` says
that a step of the extended system is one of the daemon's, or leaves it alone,
so everything shown about the daemon holds here.

What the provider reads from the remote segment for the `i`-th work request is
`remote i`, fixed for a run and otherwise arbitrary.
-/
import DirectStorage.UrmaFrame
import DirectStorage.InFlight

namespace DirectStorage

namespace Urma

open Function

/-! ### Polling -/

/-- `cr.status`. -/
inductive CrStatus
  /-- `URMA_CR_SUCCESS`. -/
  | success
  | error (code : Nat)
  deriving DecidableEq

/-- What `urma_poll_jfc(jfc, 1, &cr)` comes back with: a negative count, no
completion, or one completion record. -/
inductive JfcPoll
  | failed
  | empty
  | record (userCtx : UInt64) (status : CrStatus)

/-- One iteration of the loop in `real_poll_completion`: the code it returns, or
`none` to go on. -/
def realPollOnce (requestId : UInt64) : JfcPoll → Option Int
  | .failed => some (- EIO)
  | .empty => none
  | .record userCtx status =>
      if userCtx ≠ requestId then none
      else if status ≠ .success then some (- EIO)
      else some 0

/-- The bound on the iterations of `real_poll_completion`. -/
abbrev maxPolls : Nat := 30000

/-! ### State and labels -/

/-- The daemon and the provider. -/
structure Real where
  sys : Sys
  /-- The remote bytes the `i`-th posted work request reads. -/
  remote : Nat → ByteMem
  /-- The bytes moved so far, by work request and position. -/
  moved : Nat → Nat → Bool
  completion : Nat → Option CrStatus
  delivered : Nat → Bool
  /-- Iterations of the current `real_poll_completion` so far. -/
  loops : Nat

def Real.start (s : Sys) (remote : Nat → ByteMem) : Real :=
  ⟨s, remote, fun _ _ => false, fun _ => none, fun _ => false, 0⟩

/-- The start states: an initialised daemon that has posted nothing. -/
def RealInitial (r : Real) : Prop := ∃ s remote, Initial s ∧ r = Real.start s remote

/-- The outcome of one `urma_poll_jfc`: it fails, finds nothing, or delivers the
completion of the `i`-th work request. -/
inductive PollOut
  | failed
  | empty
  | deliver (i : Nat)

inductive RealAction
  /-- A step of the daemon, other than polling. -/
  | daemon (a : Action)
  /-- The NBD thread reads from the backend. -/
  | nbdRead (offset : UInt64) (len : UInt32)
  /-- The provider moves `n` bytes from position `lo` on of work request `i`. -/
  | move (i lo n : Nat)
  /-- The provider completes work request `i`. -/
  | complete (i : Nat) (status : CrStatus)
  /-- One iteration of `real_poll_completion`. -/
  | poll (out : PollOut)

/-! ### Steps -/

/-- The offset in the backend of the bytes that a work request writes there. -/
def WorkRequest.localOff (wr : WorkRequest) (b : Backend) : Nat := (wr.dst.addr - b.base).toNat

/-- The number of bytes of a work request. -/
def WorkRequest.size (wr : WorkRequest) : Nat := wr.dst.len.toNat

/-- The provider moves a piece.  A `READ` changes the backend, without any lock;
a `WRITE` changes the remote segment only. -/
def Real.move (r : Real) (i lo n : Nat) : Option Real :=
  match r.sys.worker, r.sys.posted[i]? with
  | .faulted _, _ => none
  | _, none => none
  | _, some wr =>
      let r' : Real := { r with moved := update r.moved i (movedPiece (r.moved i) lo n) }
      let b := r.sys.backend
      if r.completion i = none ∧ lo + n ≤ wr.size then
        match wr.opcode with
        | .write => some r'
        | .read =>
            if wr.localOff b + wr.size ≤ b.size.toNat then
              some { r' with sys := { r.sys with backend := { b with
                mem := b.mem.copy (wr.localOff b + lo) (r.remote i) lo n } } }
            else none
      else none

/-- The provider completes a work request, successfully only when all its bytes
have been moved. -/
def Real.complete (r : Real) (i : Nat) (status : CrStatus) : Option Real :=
  match r.sys.posted[i]? with
  | some wr =>
      if r.completion i = none ∧ (status = .success → ∀ j < wr.size, r.moved i j = true) then
        some { r with completion := update r.completion i (some status) }
      else none
  | none => none

/-- One `urma_poll_jfc`. -/
def Real.fetch (r : Real) : PollOut → Option (Real × JfcPoll)
  | .failed => some (r, .failed)
  | .empty => some (r, .empty)
  | .deliver i =>
      match r.sys.posted[i]?, r.completion i with
      | some wr, some status =>
          if r.delivered i then none
          else some ({ r with delivered := update r.delivered i true },
            .record wr.userCtx status)
      | _, _ => none

/-- `real_poll_completion` returns `rc`. -/
def Real.pollReturns (r : Real) (rc : Int) : Option Real :=
  (step r.sys (.workerPoll rc)).map fun s => { r with sys := s, loops := 0 }

/-- One iteration of the loop in `real_poll_completion`. -/
def Real.poll (r : Real) (out : PollOut) : Option Real :=
  match r.sys.worker with
  | .polling c =>
      match r.fetch out with
      | none => none
      | some (r', p) =>
          match realPollOnce (r.sys.reqs c).requestId p with
          | some rc => r'.pollReturns rc
          | none =>
              if r'.loops + 1 < maxPolls then some { r' with loops := r'.loops + 1 }
              else r'.pollReturns (-ETIMEDOUT)
  | _ => none

/-- One step of daemon or provider. -/
def Real.step (r : Real) : RealAction → Option Real
  | .daemon (.workerPoll _) => none
  | .daemon a => (Urma.step r.sys a).map fun s => { r with sys := s }
  | .nbdRead _ _ =>
      match r.sys.worker with
      | .faulted _ => none
      | _ => some r
  | .move i lo n => r.move i lo n
  | .complete i status => r.complete i status
  | .poll out => r.poll out

/-! ### Inversion -/

variable {r t : Real} {a : RealAction} {s u : Sys} {b : Action}

/-- What a step did. -/
inductive RealStep (r : Real) : RealAction → Real → Prop
  | daemon (b : Action) (s : Sys) (hpoll : ∀ rc, b ≠ .workerPoll rc)
      (h : step r.sys b = some s) : RealStep r (.daemon b) { r with sys := s }
  | nbdRead (offset : UInt64) (len : UInt32) : RealStep r (.nbdRead offset len) r
  | moveRead (i lo n : Nat) (wr : WorkRequest) (hrunning : ∀ c, r.sys.worker ≠ .faulted c)
      (hwr : r.sys.posted[i]? = some wr) (hop : wr.opcode = .read)
      (hopen : r.completion i = none) (hin : lo + n ≤ wr.size)
      (hlocal : wr.localOff r.sys.backend + wr.size ≤ r.sys.backend.size.toNat) :
      RealStep r (.move i lo n) { r with
        sys := { r.sys with backend := { r.sys.backend with
          mem := r.sys.backend.mem.copy (wr.localOff r.sys.backend + lo) (r.remote i) lo n } }
        moved := update r.moved i (movedPiece (r.moved i) lo n) }
  | moveWrite (i lo n : Nat) (wr : WorkRequest) (hwr : r.sys.posted[i]? = some wr)
      (hop : wr.opcode = .write) : RealStep r (.move i lo n)
        { r with moved := update r.moved i (movedPiece (r.moved i) lo n) }
  | complete (i : Nat) (status : CrStatus) (wr : WorkRequest) (hwr : r.sys.posted[i]? = some wr)
      (hopen : r.completion i = none)
      (hall : status = .success → ∀ j < wr.size, r.moved i j = true) :
      RealStep r (.complete i status)
        { r with completion := update r.completion i (some status) }
  /-- The poll goes on. -/
  | again (out : PollOut) (c : CallId) (r' : Real) (p : JfcPoll)
      (hw : r.sys.worker = .polling c) (hfetch : r.fetch out = some (r', p))
      (honce : realPollOnce (r.sys.reqs c).requestId p = none) :
      RealStep r (.poll out) { r' with loops := r'.loops + 1 }
  /-- The poll returns `rc`. -/
  | returns (out : PollOut) (c : CallId) (r' : Real) (p : JfcPoll) (rc : Int) (s : Sys)
      (hw : r.sys.worker = .polling c) (hfetch : r.fetch out = some (r', p))
      (honce : realPollOnce (r.sys.reqs c).requestId p = some rc ∨
        realPollOnce (r.sys.reqs c).requestId p = none ∧ rc = -ETIMEDOUT)
      (h : Urma.step r.sys (.workerPoll rc) = some s) :
      RealStep r (.poll out) { r' with sys := s, loops := 0 }

/-- Polling changes the delivery flags only. -/
theorem fetch_some {out : PollOut} {p : JfcPoll} (h : r.fetch out = some (t, p)) :
    t = { r with delivered := t.delivered } ∧ (∀ j, r.delivered j = true → t.delivered j = true) ∧
      ∀ userCtx status, p = .record userCtx status → ∃ i wr, r.sys.posted[i]? = some wr ∧
        wr.userCtx = userCtx ∧ r.completion i = some status ∧ r.delivered i = false := by
  cases out with
  | failed =>
      cases h
      exact ⟨rfl, fun _ hj => hj, by rintro userCtx status ⟨⟩⟩
  | empty =>
      cases h
      exact ⟨rfl, fun _ hj => hj, by rintro userCtx status ⟨⟩⟩
  | deliver i =>
      simp only [Real.fetch] at h
      split at h
      next wr status hwr hstatus =>
        split at h
        next => cases h
        next hfresh =>
          cases h
          refine ⟨rfl, ?_, ?_⟩
          · intro j hj
            by_cases e : j = i
            · subst e
              exact update_self _ _ _
            · show update r.delivered i true j = true
              rw [update_of_ne e]
              exact hj
          · rintro userCtx status' ⟨⟩
            exact ⟨i, wr, hwr, rfl, hstatus, by simpa using hfresh⟩
      next => cases h

theorem pollReturns_some {r' : Real} {rc : Int} (h : r'.pollReturns rc = some t) :
    ∃ s, Urma.step r'.sys (.workerPoll rc) = some s ∧ t = { r' with sys := s, loops := 0 } := by
  obtain ⟨s, hs, rfl⟩ := Option.map_eq_some_iff.mp h
  exact ⟨s, hs, rfl⟩

theorem move_realStep {i lo n : Nat} (h : r.move i lo n = some t) :
    RealStep r (.move i lo n) t := by
  unfold Real.move at h
  split at h
  next => cases h
  next => cases h
  next wr hwr hrunning =>
    dsimp only at h
    split at h
    next hok =>
      split at h
      next hop =>
        obtain rfl := Option.some.inj h
        exact .moveWrite i lo n wr hwr hop
      next hop =>
        split at h
        next hlocal =>
          obtain rfl := Option.some.inj h
          exact .moveRead i lo n wr hrunning hwr hop hok.1 hok.2 hlocal
        next => cases h
    next => cases h

theorem poll_realStep {out : PollOut} (h : r.poll out = some t) : RealStep r (.poll out) t := by
  unfold Real.poll at h
  split at h
  next c hw =>
    split at h
    next => cases h
    next r' p hfetch =>
      have hsys : r'.sys = r.sys := by rw [(fetch_some hfetch).1]
      split at h
      next rc honce =>
        obtain ⟨s, hs, rfl⟩ := pollReturns_some h
        exact .returns out c r' p rc s hw hfetch (.inl honce) (hsys ▸ hs)
      next honce =>
        split at h
        next =>
          obtain rfl := Option.some.inj h
          exact .again out c r' p hw hfetch honce
        next =>
          obtain ⟨s, hs, rfl⟩ := pollReturns_some h
          exact .returns out c r' p _ s hw hfetch (.inr ⟨honce, rfl⟩) (hsys ▸ hs)
  next => cases h

/-- **Inversion of the step function.** -/
theorem step_realStep (h : r.step a = some t) : RealStep r a t := by
  cases a with
  | daemon b =>
      by_cases hpoll : ∃ rc, b = .workerPoll rc
      · obtain ⟨rc, rfl⟩ := hpoll
        cases h
      · have hne : ∀ rc, b ≠ .workerPoll rc := fun rc e => hpoll ⟨rc, e⟩
        have hmap : (Urma.step r.sys b).map (fun s => { r with sys := s }) = some t := by
          cases b <;> first | exact h | cases h
        obtain ⟨s, hs, rfl⟩ := Option.map_eq_some_iff.mp hmap
        exact .daemon b s hne hs
  | nbdRead offset len =>
      simp only [Real.step] at h
      split at h
      next => cases h
      next =>
        obtain rfl := Option.some.inj h
        exact .nbdRead offset len
  | move i lo n => exact move_realStep h
  | complete i status =>
      simp only [Real.step, Real.complete] at h
      split at h
      next wr hwr =>
        split_ifs at h with hok
        obtain rfl := Option.some.inj h
        exact .complete i status wr hwr hok.1 hok.2
      next => cases h
  | poll out => exact poll_realStep h

/-! ### The daemon underneath -/

/-- A write of the NBD thread inside the backend. -/
theorem step_backendWrite (hw : ∀ c, s.worker ≠ .faulted c) (hlive : s.backend.Live) {off : Nat}
    {data : List UInt8} {len : UInt32} (hlen : data.length = len.toNat)
    (hin : off + data.length ≤ s.backend.size.toNat) :
    Urma.step s (.backendWrite (UInt64.ofNat off) data len) = some { s with
      backend := { s.backend with mem := s.backend.mem.store off data } } := by
  have hoff : (UInt64.ofNat off).toNat = off := by
    refine UInt64.toNat_ofNat_of_lt' ?_
    exact lt_of_le_of_lt (by omega) s.backend.size.toNat_lt
  have hwrite : (ramdiskBackendWrite s.backend (UInt64.ofNat off) false data len).2 =
      { s.backend with mem := s.backend.mem.store off data } := by
    rw [write_live hlive, hoff, if_pos (by omega), ← hlen, List.take_length]
  unfold Urma.step
  split
  next c hc => exact absurd hc (hw c)
  next =>
    dsimp only
    rw [hwrite]

/-- **Projection**: a step of daemon or provider is a step of the daemon, or
leaves the daemon alone.  A piece moved into the backend has the effect of a
write of the NBD thread. -/
theorem step_project (hlive : r.sys.backend.Live) (h : r.step a = some t) :
    t.sys = r.sys ∨ ∃ b, Urma.step r.sys b = some t.sys := by
  cases step_realStep h with
  | daemon b s hpoll hs => exact .inr ⟨b, hs⟩
  | nbdRead offset len => exact .inl rfl
  | moveRead i lo n wr hrunning hwr hop hopen hin hlocal =>
      right
      have hn : n < 2 ^ 32 := by
        have := wr.dst.len.toNat_lt
        unfold WorkRequest.size at hin
        omega
      have hlen : ((r.remote i).load lo n).length = (UInt32.ofNat n).toNat := by
        rw [ByteMem.length_load, UInt32.toNat_ofNat_of_lt' hn]
      have hfits : wr.localOff r.sys.backend + lo + ((r.remote i).load lo n).length ≤
          r.sys.backend.size.toNat := by
        rw [ByteMem.length_load]
        omega
      refine ⟨_, (step_backendWrite hrunning hlive hlen hfits).trans ?_⟩
      rw [ByteMem.copy_eq_store]
  | moveWrite i lo n wr hwr hop => exact .inl rfl
  | complete i status wr hwr hopen hall => exact .inl rfl
  | again out c r' p hw hfetch honce =>
      left
      rw [(fetch_some hfetch).1]
  | returns out c r' p rc s hw hfetch honce hs => exact .inr ⟨_, hs⟩

/-- In every run of daemon and provider, the daemon is in a reachable state. -/
theorem Real.reachable {r₀ : Real} {as : List RealAction} (hinit : RealInitial r₀)
    (hrun : run Real.step r₀ as = some r) : Reachable r.sys := by
  refine run_invariant (I := fun r => Reachable r.sys) ?_ ?_ (runOk_trivial r₀ as) hrun
  · obtain ⟨s, remote, hs, rfl⟩ := hinit
    exact ⟨s, [], hs, rfl⟩
  · intro r a t hr _ hstep
    rcases step_project hr.live hstep with heq | ⟨b, hb⟩
    · rw [heq]
      exact hr
    · obtain ⟨s₀, as, hs₀, hrun'⟩ := hr
      exact ⟨s₀, as ++ [b], hs₀, run_snoc_iff.mpr ⟨_, hrun', hb⟩⟩

/-! ### What a step of the daemon posts -/

/-- The ways `execute_mock_xfer` or `execute_real_xfer` up to the post can end. -/
inductive Executed (s u : Sys) (c : CallId) (k : Slot) (post : Bool) : Prop
  /-- In mock mode: the copy, or an error code. -/
  | mock (rc : Int) (mem : ByteMem) (hbm : CallId → HbmBuf) (hmock : s.mgr.useMock = true)
      (hrc : executeMockXfer s (s.reqs c) (s.mgr.peers k) = some (rc, mem, hbm))
      (hu : u = { s with
        backend := { s.backend with mem := mem }, hbm := hbm, worker := .finishing c rc })
  /-- In mock mode: a copy outside its buffers. -/
  | fault (hmock : s.mgr.useMock = true)
      (hrc : executeMockXfer s (s.reqs c) (s.mgr.peers k) = none)
      (hu : u = { s with worker := .faulted (some c) })
  /-- In real mode: nothing was posted. -/
  | refused (rc : Int) (hreal : s.mgr.useMock = false)
      (hno : ∀ wr, realWorkRequest s (s.reqs c) (s.mgr.peers k) = .ok wr → post = false)
      (hu : u = { s with worker := .finishing c rc })
  /-- In real mode: the work request was posted. -/
  | posted (wr : WorkRequest) (hreal : s.mgr.useMock = false) (hpost : post = true)
      (hwr : realWorkRequest s (s.reqs c) (s.mgr.peers k) = .ok wr)
      (hu : u = { s with worker := .polling c, posted := s.posted ++ [wr] })

/-- **Inversion of the execution step.** -/
theorem workerExecute_executed {post : Bool} (h : workerExecute s post = some u) :
    ∃ c k conn, s.worker = .executing c k conn ∧ Executed s u c k post := by
  unfold workerExecute at h
  split at h
  next c k conn hw =>
    refine ⟨c, k, conn, hw, ?_⟩
    split at h
    next hmock =>
      split at h
      next hrc =>
        obtain rfl := Option.some.inj h
        exact .fault hmock hrc rfl
      next rc mem hbm hrc =>
        obtain rfl := Option.some.inj h
        exact .mock rc mem hbm hmock hrc rfl
    next hreal =>
      have hreal' : s.mgr.useMock = false := by simpa using hreal
      split at h
      next rc hrc =>
        obtain rfl := Option.some.inj h
        refine .refused rc hreal' ?_ rfl
        intro wr hwr
        cases hrc.symm.trans hwr
      next wr hwr =>
        split at h
        next hpost =>
          obtain rfl := Option.some.inj h
          exact .refused _ hreal' (fun _ _ => by simpa using hpost) rfl
        next hpost =>
          obtain rfl := Option.some.inj h
          exact .posted wr hreal' (by simpa using hpost) hwr rfl
  next => cases h

theorem step_workerExecute {post : Bool} (h : Urma.step s (.workerExecute post) = some u) :
    workerExecute s post = some u := by
  unfold Urma.step at h
  split at h
  · cases h
  · exact h

end Urma

end DirectStorage
