/-
DirectStorage/HandOver.lean

The hand-over of transfer requests from their submitters to the worker, as a
protocol of its own.

`QueueView` is the part of the daemon that takes part in it (the ring, the
counters, the request objects, the transfer calls and what the worker has in
hand) and `QueueStep` its steps: accept, reject, wait again, leave, dequeue,
complete.

`QueueInv` is the inductive invariant.  Its heart is one equation,

    accepted = finished ++ inHand ++ q,

where `q` is the list the ring represents: requests leave the queue in the
order they were accepted, none is lost and none is handled twice.  The
remaining fields tie the submitters to it: a request is waited for by its
submitter as long as it is not finished, and only the request's own status
ends the wait.
-/
import DirectStorage.UrmaSystem
import Mathlib.Data.List.Nodup

namespace DirectStorage

namespace Urma

open Function

/-! ### The protocol -/

/-- What the worker has taken out of the queue and not completed. -/
def WorkerPc.inHand : WorkerPc → List CallId
  | .executing c _ _ => [c]
  | .polling c => [c]
  | .finishing c _ => [c]
  | .faulted (some c) => [c]
  | _ => []

/-- The argument and the program point of a transfer call. -/
def Call.transfer : Call → Option (UrmaTransfer × CallPc)
  | ⟨.transfer x _, pc⟩ => some (x, pc)
  | _ => none

/-- The argument and the program point of call `c`, if it is a transfer. -/
def Sys.transfer (s : Sys) (c : CallId) : Option (UrmaTransfer × CallPc) :=
  (s.calls c).bind Call.transfer

/-- Ring, counters and histories. -/
structure QueueCore where
  depth : Nat
  queue : Ring CallId
  inflight : Nat
  completed : Nat
  failed : Nat
  inHand : List CallId
  accepted : List CallId
  dequeued : List CallId
  finished : List CallId

/-- The part of the daemon that takes part in the hand-over: the queue, the
request objects and the program points of the submitters. -/
structure QueueView where
  core : QueueCore
  reqs : CallId → Request
  calls : CallId → Option (UrmaTransfer × CallPc)
  nextCall : CallId

def Sys.queueCore (s : Sys) : QueueCore where
  depth := s.mgr.queueDepth
  queue := s.mgr.queue
  inflight := s.mgr.inflight
  completed := s.mgr.completed
  failed := s.mgr.failed
  inHand := s.worker.inHand
  accepted := s.accepted
  dequeued := s.dequeued
  finished := s.finished

def Sys.queueView (s : Sys) : QueueView :=
  ⟨s.queueCore, s.reqs, s.transfer, s.nextCall⟩

/-- Request `c` enters the queue. -/
def QueueCore.accept (k : QueueCore) (c : CallId) : QueueCore :=
  { k with
    queue := k.queue.push c
    accepted := k.accepted ++ [c] }

/-- The worker takes `c` out of the queue. -/
def QueueCore.dequeue (k : QueueCore) (c : CallId) : QueueCore :=
  { k with
    queue := k.queue.pop
    inflight := k.inflight + 1
    inHand := [c]
    dequeued := k.dequeued ++ [c] }

/-- The worker completes `c` with result `rc`. -/
def QueueCore.complete (k : QueueCore) (c : CallId) (rc : Int) : QueueCore :=
  { k with
    inflight := k.inflight - 1
    completed := if rc = 0 then k.completed + 1 else k.completed
    failed := if rc = 0 then k.failed else k.failed + 1
    inHand := []
    finished := k.finished ++ [c] }

/-- The steps of the hand-over. -/
inductive QueueStep (v : QueueView) : QueueView → Prop
  /-- Something else happened; at most, a call of another kind was made. -/
  | other (n : CallId) (hn : v.nextCall ≤ n) : QueueStep v { v with nextCall := n }
  /-- A transfer is refused on entry. -/
  | reject (x : UrmaTransfer) (rc : Int) (hrc : rc ≠ 0) : QueueStep v { v with
      calls := update v.calls v.nextCall (some (x, .returned rc))
      nextCall := v.nextCall + 1 }
  /-- A transfer enters the queue and its submitter starts to wait. -/
  | accept (x : UrmaTransfer) (ts : Timespec) (hts : ts.Valid)
      (hroom : v.core.queue.count < v.core.depth) : QueueStep v
      { core := v.core.accept v.nextCall
        reqs := update v.reqs v.nextCall (Request.ofXfer x)
        calls := update v.calls v.nextCall (some (x, .waiting ts))
        nextCall := v.nextCall + 1 }
  /-- A submitter wakes up and waits again. -/
  | rewait (c : CallId) (x : UrmaTransfer) (ts ts' : Timespec)
      (hc : v.calls c = some (x, .waiting ts))
      (hts : ts.Valid → ts'.Valid) : QueueStep v { v with
      calls := update v.calls c (some (x, .waiting ts')) }
  /-- A submitter finds its request done and returns its status. -/
  | leave (c : CallId) (x : UrmaTransfer) (ts : Timespec)
      (hc : v.calls c = some (x, .waiting ts))
      (hdone : (v.reqs c).done = true) : QueueStep v { v with
      calls := update v.calls c (some (x, .returned (v.reqs c).status)) }
  /-- A submitter gives up because its deadline was rejected. -/
  | abandon (c : CallId) (x : UrmaTransfer) (ts : Timespec) (rc : Int)
      (hc : v.calls c = some (x, .waiting ts)) (hts : ¬ ts.Valid) : QueueStep v { v with
      calls := update v.calls c (some (x, .returned rc)) }
  /-- The worker takes the oldest request and may rewrite its remote address. -/
  | dequeue (c : CallId) (addr : UInt64) (hfront : v.core.queue.front = some c)
      (hidle : v.core.inHand = []) : QueueStep v { v with
      core := v.core.dequeue c
      reqs := update v.reqs c { v.reqs c with remoteHbmAddr := addr } }
  /-- The worker completes the request it has in hand. -/
  | complete (c : CallId) (rc : Int) (hhand : v.core.inHand = [c]) : QueueStep v
      { v with
        core := v.core.complete c rc
        reqs := update v.reqs c { v.reqs c with status := rc, done := true } }

/-! ### The queue itself -/

/-- Ring, counters and histories fit together. -/
structure CoreInv (k : QueueCore) : Prop where
  depth_pos : 1 ≤ k.depth
  depth_le : k.depth ≤ maxQueueDepth
  cap_eq : k.queue.cap = k.depth
  /-- Accepted requests are finished, in hand or in the ring, in this order. -/
  order : ∃ q, k.queue.Holds q ∧ k.accepted = k.finished ++ k.inHand ++ q
  dequeued_eq : k.dequeued = k.finished ++ k.inHand
  nodup : k.accepted.Nodup
  hand_le : k.inHand.length ≤ 1
  inflight_eq : k.inflight = k.inHand.length
  counters : k.completed + k.failed = k.finished.length

variable {k : QueueCore}

theorem CoreInv.finished_accepted (h : CoreInv k) {c : CallId}
    (hc : c ∈ k.finished) : c ∈ k.accepted := by
  obtain ⟨q, -, horder⟩ := h.order
  rw [horder]
  simp [hc]

theorem CoreInv.accept (h : CoreInv k) (hroom : k.queue.count < k.depth)
    {c : CallId} (hnew : c ∉ k.accepted) : CoreInv (k.accept c) := by
  obtain ⟨q, hq, horder⟩ := h.order
  constructor
  case depth_pos => exact h.depth_pos
  case depth_le => exact h.depth_le
  case cap_eq => exact (Ring.cap_push _ _).trans h.cap_eq
  case order =>
    refine ⟨q ++ [c], Ring.push_holds hq (by rw [h.cap_eq]; exact hroom) _, ?_⟩
    show k.accepted ++ [c] = k.finished ++ k.inHand ++ (q ++ [c])
    rw [horder, List.append_assoc _ q]
  case dequeued_eq => exact h.dequeued_eq
  case nodup =>
    show (k.accepted ++ [c]).Nodup
    rw [List.nodup_append]
    refine ⟨h.nodup, List.nodup_singleton _, ?_⟩
    rintro a ha b hb rfl
    exact hnew (List.mem_singleton.mp hb ▸ ha)
  case hand_le => exact h.hand_le
  case inflight_eq => exact h.inflight_eq
  case counters => exact h.counters

theorem CoreInv.dequeue (h : CoreInv k) {c : CallId}
    (hfront : k.queue.front = some c) (hidle : k.inHand = []) :
    CoreInv (k.dequeue c) := by
  obtain ⟨q, hq, horder⟩ := h.order
  -- the front of the ring is the head of the list it represents
  obtain ⟨q', rfl⟩ : ∃ q', q = c :: q' := by
    rw [hq.front_eq] at hfront
    cases q with
    | nil => cases hfront
    | cons a q' => exact ⟨q', by simpa using hfront⟩
  constructor
  case depth_pos => exact h.depth_pos
  case depth_le => exact h.depth_le
  case cap_eq => exact (Ring.cap_pop _).trans h.cap_eq
  case order =>
    refine ⟨q', Ring.pop_holds hq, ?_⟩
    show k.accepted = k.finished ++ [c] ++ q'
    rw [horder, hidle]
    simp
  case dequeued_eq =>
    show k.dequeued ++ [c] = k.finished ++ [c]
    rw [h.dequeued_eq, hidle, List.append_nil]
  case nodup => exact h.nodup
  case hand_le => exact le_refl 1
  case inflight_eq =>
    show k.inflight + 1 = 1
    rw [h.inflight_eq, hidle]
    rfl
  case counters => exact h.counters

theorem CoreInv.complete (h : CoreInv k) {c : CallId} (hhand : k.inHand = [c])
    (rc : Int) : CoreInv (k.complete c rc) := by
  obtain ⟨q, hq, horder⟩ := h.order
  constructor
  case depth_pos => exact h.depth_pos
  case depth_le => exact h.depth_le
  case cap_eq => exact h.cap_eq
  case order =>
    refine ⟨q, hq, ?_⟩
    show k.accepted = k.finished ++ [c] ++ [] ++ q
    rw [horder, hhand, List.append_nil]
  case dequeued_eq =>
    show k.dequeued = k.finished ++ [c] ++ []
    rw [h.dequeued_eq, hhand, List.append_nil]
  case nodup => exact h.nodup
  case hand_le => exact Nat.zero_le 1
  case inflight_eq =>
    show k.inflight - 1 = 0
    rw [h.inflight_eq, hhand]
    rfl
  case counters =>
    have hc := h.counters
    show (if rc = 0 then k.completed + 1 else k.completed) +
      (if rc = 0 then k.failed else k.failed + 1) = (k.finished ++ [c]).length
    rw [List.length_append, List.length_singleton]
    split <;> omega

/-! ### The submitters -/

/-- The submitters fit the histories. -/
structure SubmitInv (v : QueueView) : Prop where
  fresh : ∀ c, v.nextCall ≤ c → v.calls c = none
  called : ∀ c ∈ v.core.accepted, v.calls c ≠ none
  waiting : ∀ c x ts, v.calls c = some (x, .waiting ts) →
    ts.Valid ∧ c ∈ v.core.accepted
  /-- The request object holds the arguments of the call, except that a request
  out of the queue may have another remote address. -/
  args : ∀ c x pc, v.calls c = some (x, pc) → c ∈ v.core.accepted →
    (v.reqs c).xfer = { x with remoteHbmAddr := (v.reqs c).remoteHbmAddr } ∧
    (c ∉ v.core.dequeued → (v.reqs c).xfer = x)
  /-- An unfinished request is not done and its submitter still waits. -/
  pending : ∀ c ∈ v.core.accepted, c ∉ v.core.finished →
    (v.reqs c).done = false ∧ ∃ x ts, v.calls c = some (x, .waiting ts)
  /-- A transfer that was not accepted returned an error. -/
  refused : ∀ c x rc, v.calls c = some (x, .returned rc) → c ∉ v.core.accepted → rc ≠ 0
  /-- A finished request is done, and no submitter returned another status. -/
  done : ∀ c ∈ v.core.finished, (v.reqs c).done = true ∧
    ∀ x rc, v.calls c = some (x, .returned rc) → rc = (v.reqs c).status

/-- The inductive invariant of the hand-over. -/
structure QueueInv (v : QueueView) : Prop where
  core : CoreInv v.core
  subs : SubmitInv v

variable {v w : QueueView}

theorem SubmitInv.accepted_ne (h : SubmitInv v) {c : CallId}
    (hc : c ∈ v.core.accepted) : c ≠ v.nextCall := by
  rintro rfl
  exact h.called _ hc (h.fresh _ le_rfl)

/-- The new call of a refused transfer is not accepted, so only `refused` says
something about it. -/
theorem QueueInv.reject (h : QueueInv v) (x : UrmaTransfer) {rc : Int} (hrc : rc ≠ 0) :
    QueueInv { v with
      calls := update v.calls v.nextCall (some (x, .returned rc))
      nextCall := v.nextCall + 1 } := by
  have hacc : ∀ c ∈ v.core.accepted,
      update v.calls v.nextCall (some (x, .returned rc)) c = v.calls c :=
    fun c hc => update_of_ne (h.subs.accepted_ne hc) _ _
  refine ⟨h.core, ?_⟩
  constructor
  case fresh =>
    intro c hc
    have hlt : v.nextCall < c := hc
    exact (update_of_ne hlt.ne' _ _).trans (h.subs.fresh c hlt.le)
  case called =>
    intro c hc
    dsimp only
    rw [hacc c hc]
    exact h.subs.called c hc
  case waiting =>
    intro c x' ts hc
    by_cases e : c = v.nextCall
    · subst e
      dsimp only at hc
      rw [update_self] at hc
      cases hc
    · exact h.subs.waiting c x' ts ((update_of_ne e _ _).symm.trans hc)
  case args =>
    intro c x' pc hc hmem
    exact h.subs.args c x' pc ((hacc c hmem).symm.trans hc) hmem
  case pending =>
    intro c hc hnf
    dsimp only
    rw [hacc c hc]
    exact h.subs.pending c hc hnf
  case refused =>
    intro c x' rc' hc hnacc
    by_cases e : c = v.nextCall
    · subst e
      dsimp only at hc
      rw [update_self] at hc
      cases hc
      exact hrc
    · exact h.subs.refused c x' rc' ((update_of_ne e _ _).symm.trans hc) hnacc
  case done =>
    intro c hc
    dsimp only
    rw [hacc c (h.core.finished_accepted hc)]
    exact h.subs.done c hc

theorem QueueInv.accept (h : QueueInv v) (x : UrmaTransfer) {ts : Timespec}
    (hts : ts.Valid) (hroom : v.core.queue.count < v.core.depth) : QueueInv
      { core := v.core.accept v.nextCall
        reqs := update v.reqs v.nextCall (Request.ofXfer x)
        calls := update v.calls v.nextCall (some (x, .waiting ts))
        nextCall := v.nextCall + 1 } := by
  have hnew : v.nextCall ∉ v.core.accepted := fun hc => h.subs.accepted_ne hc rfl
  -- at every call accepted before, requests and calls are as they were
  have hreqs : ∀ c ∈ v.core.accepted,
      update v.reqs v.nextCall (Request.ofXfer x) c = v.reqs c :=
    fun c hc => update_of_ne (h.subs.accepted_ne hc) _ _
  have hcalls : ∀ c ∈ v.core.accepted,
      update v.calls v.nextCall (some (x, .waiting ts)) c = v.calls c :=
    fun c hc => update_of_ne (h.subs.accepted_ne hc) _ _
  refine ⟨h.core.accept hroom hnew, ?_⟩
  constructor
  case fresh =>
    intro c hc
    have hlt : v.nextCall < c := hc
    exact (update_of_ne hlt.ne' _ _).trans (h.subs.fresh c hlt.le)
  case called =>
    intro c hc
    rcases List.mem_append.mp hc with hold | hlast
    · dsimp only
      rw [hcalls c hold]
      exact h.subs.called c hold
    · dsimp only
      rw [List.mem_singleton.mp hlast, update_self]
      nofun
  case waiting =>
    intro c x' ts' hc
    by_cases e : c = v.nextCall
    · subst e
      dsimp only at hc
      rw [update_self] at hc
      cases hc
      exact ⟨hts, List.mem_append_right _ (List.mem_singleton_self _)⟩
    · obtain ⟨hv, hmem⟩ := h.subs.waiting c x' ts' ((update_of_ne e _ _).symm.trans hc)
      exact ⟨hv, List.mem_append_left _ hmem⟩
  case args =>
    intro c x' pc hc hmem
    rcases List.mem_append.mp hmem with hold | hlast
    · dsimp only
      rw [hreqs c hold]
      exact h.subs.args c x' pc ((hcalls c hold).symm.trans hc) hold
    · obtain rfl := List.mem_singleton.mp hlast
      dsimp only at hc ⊢
      rw [update_self] at hc ⊢
      cases hc
      exact ⟨rfl, fun _ => rfl⟩
  case pending =>
    intro c hc hnf
    rcases List.mem_append.mp hc with hold | hlast
    · dsimp only
      rw [hreqs c hold, hcalls c hold]
      exact h.subs.pending c hold hnf
    · dsimp only
      rw [List.mem_singleton.mp hlast, update_self, update_self]
      exact ⟨rfl, x, ts, rfl⟩
  case refused =>
    intro c x' rc hc hnacc
    have hne : c ≠ v.nextCall := by
      rintro rfl
      exact hnacc (List.mem_append_right _ (List.mem_singleton_self _))
    exact h.subs.refused c x' rc ((update_of_ne hne _ _).symm.trans hc)
      fun hmem => hnacc (List.mem_append_left _ hmem)
  case done =>
    intro c hc
    have hmem := h.core.finished_accepted hc
    dsimp only
    rw [hreqs c hmem, hcalls c hmem]
    exact h.subs.done c hc

/-- A submitter moves on from its wait: either it waits again, or its request
is done and it returns the request's status. -/
theorem QueueInv.wake (h : QueueInv v) {c₀ : CallId} {x : UrmaTransfer} {ts : Timespec}
    {pc : CallPc} (hc₀ : v.calls c₀ = some (x, .waiting ts))
    (hpc : (∃ ts', pc = .waiting ts' ∧ (ts.Valid → ts'.Valid)) ∨
      ((v.reqs c₀).done = true ∧ pc = .returned (v.reqs c₀).status)) :
    QueueInv { v with calls := update v.calls c₀ (some (x, pc)) } := by
  obtain ⟨hv, hacc⟩ := h.subs.waiting c₀ x ts hc₀
  refine ⟨h.core, ?_⟩
  constructor
  case fresh =>
    intro c hc
    have hne : c ≠ c₀ := by
      rintro rfl
      rw [h.subs.fresh c hc] at hc₀
      cases hc₀
    exact (update_of_ne hne _ _).trans (h.subs.fresh c hc)
  case called =>
    intro c hc
    by_cases e : c = c₀
    · subst e
      dsimp only
      rw [update_self]
      nofun
    · dsimp only
      rw [update_of_ne e]
      exact h.subs.called c hc
  case waiting =>
    intro c x' ts₁ hc
    by_cases e : c = c₀
    · subst e
      dsimp only at hc
      rw [update_self] at hc
      rcases hpc with ⟨ts', rfl, hts⟩ | ⟨-, rfl⟩
      · cases hc
        exact ⟨hts hv, hacc⟩
      · cases hc
    · exact h.subs.waiting c x' ts₁ ((update_of_ne e _ _).symm.trans hc)
  case args =>
    intro c x' pc' hc hmem
    by_cases e : c = c₀
    · subst e
      dsimp only at hc
      rw [update_self] at hc
      cases hc
      exact h.subs.args c x (.waiting ts) hc₀ hmem
    · exact h.subs.args c x' pc' ((update_of_ne e _ _).symm.trans hc) hmem
  case pending =>
    intro c hc hnf
    obtain ⟨hd, x₁, ts₁, hp⟩ := h.subs.pending c hc hnf
    refine ⟨hd, ?_⟩
    by_cases e : c = c₀
    · subst e
      dsimp only
      rw [update_self]
      rcases hpc with ⟨ts', rfl, -⟩ | ⟨hdone, -⟩
      · exact ⟨x, ts', rfl⟩
      · rw [hd] at hdone
        cases hdone
    · exact ⟨x₁, ts₁, (update_of_ne e _ _).trans hp⟩
  case refused =>
    intro c x' rc hc hnacc
    have hne : c ≠ c₀ := by
      rintro rfl
      exact hnacc hacc
    exact h.subs.refused c x' rc ((update_of_ne hne _ _).symm.trans hc) hnacc
  case done =>
    intro c hc
    obtain ⟨hd, hrc⟩ := h.subs.done c hc
    refine ⟨hd, ?_⟩
    intro x' rc hret
    by_cases e : c = c₀
    · subst e
      dsimp only at hret
      rw [update_self] at hret
      rcases hpc with ⟨ts', rfl, -⟩ | ⟨-, rfl⟩
      · cases hret
      · cases hret
        rfl
    · exact hrc x' rc ((update_of_ne e _ _).symm.trans hret)

theorem QueueInv.dequeue (h : QueueInv v) {c₀ : CallId} (addr : UInt64)
    (hfront : v.core.queue.front = some c₀) (hidle : v.core.inHand = []) :
    QueueInv { v with
      core := v.core.dequeue c₀
      reqs := update v.reqs c₀ { v.reqs c₀ with remoteHbmAddr := addr } } := by
  have hcore := h.core.dequeue hfront hidle
  -- the dequeued request is not among the finished ones
  have hnf : ∀ c ∈ v.core.finished, c ≠ c₀ := by
    rintro c hc rfl
    obtain ⟨q, -, horder⟩ := hcore.order
    have hnd : (v.core.finished ++ [c] ++ q).Nodup := horder ▸ h.core.nodup
    rw [List.append_assoc] at hnd
    exact (List.disjoint_of_nodup_append hnd) hc (by simp)
  refine ⟨hcore, ?_⟩
  constructor
  case fresh => exact h.subs.fresh
  case called => exact h.subs.called
  case waiting => exact h.subs.waiting
  case args =>
    intro c x pc hc hmem
    obtain ⟨hargs, hx⟩ := h.subs.args c x pc hc hmem
    by_cases e : c = c₀
    · subst e
      dsimp only
      rw [update_self]
      refine ⟨?_, ?_⟩
      · show ({ (v.reqs c).xfer with remoteHbmAddr := addr } : UrmaTransfer) = _
        rw [hargs]
      · intro hnd
        exact absurd (List.mem_append_right _ (List.mem_singleton_self _)) hnd
    · dsimp only
      rw [update_of_ne e]
      exact ⟨hargs, fun hnd => hx fun hdq => hnd (List.mem_append_left _ hdq)⟩
  case pending =>
    intro c hc hcf
    obtain ⟨hd, hp⟩ := h.subs.pending c hc hcf
    refine ⟨?_, hp⟩
    by_cases e : c = c₀
    · subst e
      dsimp only
      rw [update_self]
      exact hd
    · exact (congrArg Request.done (update_of_ne e _ _)).trans hd
  case refused => exact h.subs.refused
  case done =>
    intro c hc
    dsimp only
    rw [update_of_ne (hnf c hc)]
    exact h.subs.done c hc

theorem QueueInv.complete (h : QueueInv v) {c₀ : CallId} (hhand : v.core.inHand = [c₀])
    (rc : Int) : QueueInv { v with
      core := v.core.complete c₀ rc
      reqs := update v.reqs c₀ { v.reqs c₀ with status := rc, done := true } } := by
  obtain ⟨q, -, horder⟩ := h.core.order
  have hmem : c₀ ∈ v.core.accepted := by
    rw [horder, hhand]
    simp
  have hnf : c₀ ∉ v.core.finished := by
    intro hc
    have hnd : (v.core.finished ++ [c₀] ++ q).Nodup := hhand ▸ horder ▸ h.core.nodup
    rw [List.append_assoc] at hnd
    exact (List.disjoint_of_nodup_append hnd) hc (by simp)
  refine ⟨h.core.complete hhand rc, ?_⟩
  constructor
  case fresh => exact h.subs.fresh
  case called => exact h.subs.called
  case waiting => exact h.subs.waiting
  case args =>
    intro c x pc hc hacc
    by_cases e : c = c₀
    · subst e
      dsimp only
      rw [update_self]
      exact h.subs.args c x pc hc hacc
    · dsimp only
      rw [update_of_ne e]
      exact h.subs.args c x pc hc hacc
  case pending =>
    intro c hc hcf
    have hcf' : c ∉ v.core.finished ++ [c₀] := hcf
    rw [List.mem_append, List.mem_singleton, not_or] at hcf'
    dsimp only
    rw [update_of_ne hcf'.2]
    exact h.subs.pending c hc hcf'.1
  case refused => exact h.subs.refused
  case done =>
    intro c hc
    rcases List.mem_append.mp hc with hfin | hnew
    · have hne : c ≠ c₀ := by
        rintro rfl
        exact hnf hfin
      dsimp only
      rw [update_of_ne hne]
      exact h.subs.done c hfin
    · obtain rfl := List.mem_singleton.mp hnew
      dsimp only
      rw [update_self]
      refine ⟨rfl, ?_⟩
      -- its submitter was still waiting, so it has not returned anything
      intro x rc' hret
      obtain ⟨-, x₁, ts, hp⟩ := h.subs.pending c hmem hnf
      rw [hp] at hret
      cases hret

/-- **Every step of the hand-over keeps the invariant.** -/
theorem QueueStep.preserves (hstep : QueueStep v w) (h : QueueInv v) : QueueInv w := by
  cases hstep with
  | other n hn =>
      exact ⟨h.core, fun c hc => h.subs.fresh c (le_trans hn hc), h.subs.called,
        h.subs.waiting, h.subs.args, h.subs.pending, h.subs.refused, h.subs.done⟩
  | reject x rc hrc => exact h.reject x hrc
  | accept x ts hts hroom => exact h.accept x hts hroom
  | rewait c x ts ts' hc hts => exact h.wake hc (Or.inl ⟨ts', rfl, hts⟩)
  | leave c x ts hc hdone => exact h.wake hc (Or.inr ⟨hdone, rfl⟩)
  | abandon c x ts rc hc hts => exact absurd (h.subs.waiting c x ts hc).1 hts
  | dequeue c addr hfront hidle => exact h.dequeue addr hfront hidle
  | complete c rc hhand => exact h.complete hhand rc

/-- The request in hand was accepted. -/
theorem CoreInv.hand_accepted (h : CoreInv k) {c : CallId} (hc : k.inHand = [c]) :
    c ∈ k.accepted := by
  obtain ⟨q, -, horder⟩ := h.order
  rw [horder, hc]
  simp

/-- The request in hand is not finished. -/
theorem CoreInv.hand_not_finished (h : CoreInv k) {c : CallId} (hc : k.inHand = [c]) :
    c ∉ k.finished := by
  obtain ⟨q, -, horder⟩ := h.order
  have hnd : (k.finished ++ ([c] ++ q)).Nodup := by
    rw [← List.append_assoc, ← hc, ← horder]
    exact h.nodup
  intro hfin
  exact List.disjoint_of_nodup_append hnd hfin (by simp)

/-- The request at the front was accepted, and has not been taken out. -/
theorem CoreInv.front_pending (h : CoreInv k) {c : CallId} (hfront : k.queue.front = some c) :
    c ∈ k.accepted ∧ c ∉ k.dequeued := by
  obtain ⟨q, hq, horder⟩ := h.order
  rw [hq.front_eq] at hfront
  have hmem : c ∈ q := List.mem_of_mem_head? hfront
  have hnd : (k.dequeued ++ q).Nodup := by
    rw [h.dequeued_eq, ← horder]
    exact h.nodup
  refine ⟨?_, fun hdeq => List.disjoint_of_nodup_append hnd hdeq hmem⟩
  rw [horder]
  exact List.mem_append_right _ hmem

/-- A queue with a front is not empty. -/
theorem CoreInv.count_ne_zero (h : CoreInv k) {c : CallId} (hfront : k.queue.front = some c) :
    k.queue.count ≠ 0 := by
  obtain ⟨q, hq, -⟩ := h.order
  intro hzero
  have hnil : q = [] := List.eq_nil_of_length_eq_zero (hq.count_eq.symm.trans hzero)
  rw [hq.front_eq, hnil] at hfront
  cases hfront

theorem CoreInv.finished_dequeued (h : CoreInv k) {c : CallId} (hc : c ∈ k.finished) :
    c ∈ k.dequeued := by
  rw [h.dequeued_eq]
  exact List.mem_append_left _ hc

/-- As long as the worker holds on to what it has, nothing is finished and no
accepted request is written. -/
theorem QueueStep.same_hand (hstep : QueueStep v w) (h : QueueInv v)
    (hhand : w.core.inHand = v.core.inHand) :
    w.core.finished = v.core.finished ∧ ∀ c ∈ v.core.accepted, w.reqs c = v.reqs c := by
  cases hstep with
  | accept x ts hts hroom =>
      exact ⟨rfl, fun c hc => update_of_ne (h.subs.accepted_ne hc) _ _⟩
  | dequeue c addr hfront hidle => cases (hhand.trans hidle : [c] = [])
  | complete c rc hhand' => cases (hhand.trans hhand' : [] = [c])
  | _ => exact ⟨rfl, fun _ _ => rfl⟩

/-- A transfer call keeps its argument. -/
theorem QueueStep.arg_kept (hstep : QueueStep v w) (h : QueueInv v) {c : CallId}
    (hc : c ∈ v.core.accepted) {x : UrmaTransfer} {pc : CallPc}
    (hw : w.calls c = some (x, pc)) : ∃ pc', v.calls c = some (x, pc') := by
  -- the steps that write a call write a new one, or keep the argument
  have hwake : ∀ {c₀ x₀ ts₀ pc₀}, v.calls c₀ = some (x₀, .waiting ts₀) →
      update v.calls c₀ (some (x₀, pc₀)) c = some (x, pc) →
      ∃ pc', v.calls c = some (x, pc') := by
    intro c₀ x₀ ts₀ pc₀ h₀ hu
    by_cases e : c = c₀
    · subst e
      rw [update_self] at hu
      cases hu
      exact ⟨_, h₀⟩
    · exact ⟨pc, (update_of_ne e _ _).symm.trans hu⟩
  cases hstep with
  | other n hn => exact ⟨pc, hw⟩
  | reject x' rc hrc =>
      exact ⟨pc, (update_of_ne (h.subs.accepted_ne hc) _ _).symm.trans hw⟩
  | accept x' ts hts hroom =>
      exact ⟨pc, (update_of_ne (h.subs.accepted_ne hc) _ _).symm.trans hw⟩
  | rewait c₀ x₀ ts ts' hc₀ hts => exact hwake hc₀ hw
  | leave c₀ x₀ ts hc₀ hdone => exact hwake hc₀ hw
  | abandon c₀ x₀ ts rc hc₀ hts => exact hwake hc₀ hw
  | dequeue c₀ addr hfront hidle => exact ⟨pc, hw⟩
  | complete c₀ rc hhand => exact ⟨pc, hw⟩

/-- A submitter that returned had its request finished. -/
theorem SubmitInv.returned_finished (h : SubmitInv v) {c : CallId} {x : UrmaTransfer}
    {rc : Int} (hc : v.calls c = some (x, .returned rc)) (hacc : c ∈ v.core.accepted) :
    c ∈ v.core.finished := by
  by_contra hnf
  obtain ⟨-, x', ts, hw⟩ := h.pending c hacc hnf
  rw [hc] at hw
  cases hw

end Urma

end DirectStorage
