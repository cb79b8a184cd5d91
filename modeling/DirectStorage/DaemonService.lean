/-
DirectStorage/DaemonService.lean

What the daemon is for: a service that carries out one request at a time.

The control operations work on a `Store`: the map of the connected peers with the
ramdisk (`PeerState`), and the two counters.  Each of them is one step, and so is a
pass of the NBD loop; there are no slots, no queue, no worker and no calls in
progress here.  What the environment decides (the allocation or import of a connect,
and how the provider ends a transfer) is part of the event.

The mock provider copies between the ramdisk and the start of the peer's buffer: the
worker puts the segment's address in the place of the one that was asked for.  The
real one lets the network card do it, which changes nothing that the daemon's own
steps write, so that the service keeps its ramdisk as it is.

This is a statement of purpose, not a translation; that the threads of the daemon
refine it is shown in `DaemonRefines`.

Main result: `Service.truthful_run`, what a client can conclude from a status record.
-/
import DirectStorage.DaemonThreads

namespace DirectStorage

namespace Daemon

open Ctrl Urma

/-! ### The control operations -/

/-- What the environment decides in an operation: the result of connect's
allocation or import, and the result of a transfer that was put to the provider. -/
structure Outcome where
  acquire : Int
  provider : Int

/-- The outcomes of the two providers. -/
def Outcome.Possible (mock : Bool) (o : Outcome) : Prop :=
  match mock with
  | true => (o.acquire = 0 ∨ o.acquire = -ENOMEM) ∧ o.provider = 0
  | false => (o.acquire = 0 ∨ o.acquire = - EIO) ∧
      (o.provider = 0 ∨ o.provider = - EIO ∨ o.provider = -ETIMEDOUT)

instance (mock : Bool) (o : Outcome) : Decidable (o.Possible mock) :=
  match mock with
  | true => inferInstanceAs (Decidable (_ ∧ _))
  | false => inferInstanceAs (Decidable (_ ∧ _))

/-- What the control operations work on. -/
structure Store where
  mock : Bool
  queueDepth : Nat
  disk : PeerState
  completed : Nat
  failed : Nat

namespace Store

/-- A transfer has been carried out with this result. -/
def count (K : Store) (rc : Int) : Store :=
  if rc = 0 then { K with completed := K.completed + 1 } else { K with failed := K.failed + 1 }

/-- Connect, when its allocation or import has the given result. -/
def connect (K : Store) (info : PeerConnectInfo) (acquire : Int) : PeerState × Int :=
  if info.peerId = 0 ∨ info.segLen = 0 ∨ acquire = 0 then K.disk.connect info true
  else (K.disk, acquire)

/-- A transfer that is in order is carried out and counted. -/
def transfer (K : Store) (x : UrmaTransfer) (provider : Int) : Store × Int :=
  match K.disk.validate x with
  | .error rc => (K, rc)
  | .ok _ =>
      let disk := if K.mock then (K.disk.transfer x).1 else K.disk
      ({ K with disk := disk }.count provider, provider)

/-- What an operation does and returns. -/
def exec (K : Store) (o : Outcome) : Op → Store × Int
  | .fillStatus => (K, 0)
  | .enable => ({ K with disk := (K.disk.exec .enable).1 }, 0)
  | .disable => ({ K with disk := (K.disk.exec .disable).1 }, 0)
  | .peerConnect info =>
      ({ K with disk := (K.connect info o.acquire).1 }, (K.connect info o.acquire).2)
  | .peerDisconnect peerId =>
      ({ K with disk := (K.disk.disconnect peerId).1 }, (K.disk.disconnect peerId).2)
  | .transferSync x _ => K.transfer x o.provider

/-- The status record: nothing is ever pending or in flight. -/
def status (K : Store) : CtrlStatus where
  size := ramdiskBackendSize K.disk.backend
  blockSize := ramdiskBackendBlockSize K.disk.backend
  urmaEnabled := if K.disk.enabled then 1 else 0
  peerCount := UInt32.ofNat K.disk.peers.size
  queueDepth := UInt32.ofNat K.queueDepth
  inflight := 0
  pending := 0
  completed := UInt64.ofNat K.completed
  failed := UInt64.ofNat K.failed

/-- The bytes that follow the response to an operation. -/
def report (K : Store) : Op → List UInt8
  | .fillStatus => statusBytes K.status
  | _ => []

end Store

/-! ### The service -/

structure Service where
  store : Store
  nbd : NbdIo
  answers : List CtrlAnswer

inductive Event
  /-- A request that asks for no operation. -/
  | refused (hdr : Hdr)
  | served (hdr : Hdr) (op : Op) (o : Outcome)
  /-- A pass of the NBD loop. -/
  | nbd (env : Realloc)

namespace Service

def answer (S : Service) (a : CtrlAnswer) : Service := { S with answers := S.answers ++ [a] }

def step (S : Service) : Event → Option Service
  | .refused hdr => some (S.answer ⟨hdr, none, refusal hdr, []⟩)
  | .served hdr op o =>
      if o.Possible S.store.mock then
        let r := S.store.exec o op
        some ({ S with store := r.1 }.answer ⟨hdr, some op, r.2, S.store.report op⟩)
      else none
  | .nbd env =>
      let flow := serveOnce env (S.nbd.server S.store.disk.backend)
      some { S with
        store := { S.store with disk := { S.store.disk with backend := flow.state.backend } }
        nbd := nbdIo flow.state }

end Service

/-! ### What a status record says -/

/-- The answer to a transfer that was carried out. -/
def CtrlAnswer.transferred (a : CtrlAnswer) : Bool :=
  match a.op with
  | some (.transferSync _ _) => a.status == 0
  | _ => false

/-- The record of a status answer, after the given answers: nothing is pending or in
flight, no more peers than there are slots, and as many completed transfers as have
been answered with 0. -/
structure RecordAfter (before : List CtrlAnswer) (st : CtrlStatus) : Prop where
  quiet : st.inflight = 0 ∧ st.pending = 0
  peers : st.peerCount.toNat ≤ maxPeers
  completed : st.completed = UInt64.ofNat (before.countP CtrlAnswer.transferred)

/-- Every status answer carries such a record. -/
def Truthful (answers : List CtrlAnswer) : Prop :=
  ∀ pre a post, answers = pre ++ a :: post → a.op = some .fillStatus →
    ∃ st, a.data = statusBytes st ∧ RecordAfter pre st

theorem Truthful.shorter {as bs : List CtrlAnswer} (h : Truthful bs) (hpre : as <+: bs) :
    Truthful as := by
  obtain ⟨rest, rfl⟩ := hpre
  rintro pre a post rfl hop
  exact h pre a (post ++ rest) (by simp) hop

theorem Truthful.snoc {as : List CtrlAnswer} {a : CtrlAnswer} (h : Truthful as)
    (ha : a.op = some .fillStatus → ∃ st, a.data = statusBytes st ∧ RecordAfter as st) :
    Truthful (as ++ [a]) := by
  intro pre b post heq hop
  rcases List.eq_nil_or_concat post with rfl | ⟨post', c, rfl⟩
  · obtain ⟨rfl, hab⟩ := List.append_inj' heq rfl
    obtain rfl : a = b := by simpa using hab
    exact ha hop
  · have heq' : as ++ [a] = (pre ++ b :: post') ++ [c] := by simpa using heq
    obtain ⟨has, -⟩ := List.append_inj' heq' rfl
    exact h pre b post' has hop

/-- A transfer that is not in order is not answered with 0. -/
theorem validate_error_ne {A : PeerState} {x : UrmaTransfer} {rc : Int}
    (h : A.validate x = .error rc) : rc ≠ 0 := by
  unfold PeerState.validate at h
  split_ifs at h
  all_goals first | (cases h; decide) | skip
  split at h
  · cases h
    decide
  · split_ifs at h
    cases h
    decide

namespace Store

variable (K : Store) (o : Outcome)

theorem completed_count (rc : Int) :
    (K.count rc).completed = K.completed + if rc = 0 then 1 else 0 := by
  unfold count
  split_ifs <;> rfl

/-- The counter goes up with the transfers that are answered with 0. -/
theorem completed_exec (hdr : Hdr) (data : List UInt8) (op : Op) :
    (K.exec o op).1.completed = K.completed +
      if CtrlAnswer.transferred ⟨hdr, some op, (K.exec o op).2, data⟩ then 1 else 0 := by
  cases op with
  | transferSync x timeoutMs =>
      show (K.transfer x o.provider).1.completed =
        K.completed + if (K.transfer x o.provider).2 == 0 then 1 else 0
      unfold transfer
      rcases hv : K.disk.validate x with rc | e
      · simp [validate_error_ne hv]
      · simp only [completed_count, beq_iff_eq]
  | _ => rfl

theorem status_recordAfter {before : List CtrlAnswer}
    (h : K.completed = before.countP CtrlAnswer.transferred) : RecordAfter before K.status := by
  refine ⟨⟨rfl, rfl⟩, ?_, ?_⟩
  · have hle : K.disk.peers.size ≤ maxPeers := K.disk.peers.card_le
    show (UInt32.ofNat K.disk.peers.size).toNat ≤ maxPeers
    rw [UInt32.toNat_ofNat_of_lt' (hle.trans_lt (by decide))]
    exact hle
  · show UInt64.ofNat K.completed = _
    rw [h]

end Store

/-- The counter is that of the answers, and the answers are truthful. -/
structure Service.Honest (S : Service) : Prop where
  completed : S.store.completed = S.answers.countP CtrlAnswer.transferred
  truthful : Truthful S.answers

theorem Service.Honest.step {S T : Service} {e : Event} (h : S.Honest) (hstep : S.step e = some T) :
    T.Honest := by
  cases e with
  | refused hdr =>
      obtain rfl := Option.some.inj hstep
      refine ⟨?_, h.truthful.snoc ?_⟩
      · show S.store.completed = (S.answers ++ [_]).countP _
        rw [List.countP_append, h.completed]
        rfl
      · rintro ⟨⟩
  | served hdr op o =>
      simp only [Service.step] at hstep
      split_ifs at hstep
      obtain rfl := Option.some.inj hstep
      refine ⟨?_, h.truthful.snoc ?_⟩
      · show (S.store.exec o op).1.completed = (S.answers ++ [_]).countP _
        rw [List.countP_append, ← h.completed, List.countP_singleton]
        exact S.store.completed_exec o hdr (S.store.report op) op
      · intro hop
        obtain rfl := Option.some.inj hop
        exact ⟨S.store.status, rfl, S.store.status_recordAfter h.completed⟩
  | nbd env =>
      obtain rfl := Option.some.inj hstep
      exact ⟨h.completed, h.truthful⟩

/-- **What a status record says**, in every run of a service that starts with its
counter at 0. -/
theorem Service.truthful_run {S T : Service} {es : List Event} (hcompleted : S.store.completed = 0)
    (hanswers : S.answers = []) (hrun : run Service.step S es = some T) : Truthful T.answers := by
  have hstart : S.Honest := by
    refine ⟨by rw [hcompleted, hanswers]; rfl, ?_⟩
    rw [hanswers]
    intro pre a post heq
    simp at heq
  exact (run_invariant (I := Service.Honest) hstart (fun _ _ _ hS _ hstep => hS.step hstep)
    (runOk_trivial S es) hrun).truthful

end Daemon

end DirectStorage
