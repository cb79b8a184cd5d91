/-
DirectStorage/BackendLock.lean

The backend mutex, with `memcpy` and `memset` byte by byte
(`userspace-nbd/src/ramdisk_backend.c`, and `execute_mock_xfer` of
`ramdisk_urma.c`).

Everywhere else a backend call is one step.  Here the calls of any number of
threads interleave as they do in the source: the checks before the lock, the wait
for the mutex, every single byte of the copy (in whatever order `memcpy` takes
them), and the unlock are steps of their own.  The fields the checks read are set
once, when the backend is created.

Main result: `locked_linearizable`.  Every answer is the one the call gives when
the calls are carried out as a whole, one after the other in the order in which they
are answered, and between two calls the ramdisk and the mock HBM buffers have the
content they have there.  Here `Backend.call` is the call as a whole, and
`mockCopy` the copy of `execute_mock_xfer`.
-/
import DirectStorage.BackendStore
import DirectStorage.LockedSection
import DirectStorage.UrmaSystem

namespace DirectStorage

open Function

/-! ### Calls and their pieces -/

/-- What is done under the backend mutex: a call on the backend, or the copy of
`execute_mock_xfer` between the ramdisk and the mock HBM buffer `h`. -/
inductive LockedCall
  | nbd (c : BackendCall)
  | xfer (direction : UInt32) (h : Nat) (remoteOff localOffset : UInt64) (length : UInt32)

/-- The content of the ramdisk and of the HBM buffers. -/
abbrev SharedMem := ByteMem × (Nat → ByteMem)

namespace LockedCall

def len : LockedCall → Nat
  | nbd c => c.len.toNat
  | xfer _ _ _ _ length => length.toNat

/-- Byte `k` of the copy; the buffer of a read is the caller's own. -/
def copyByte (c : LockedCall) (k : Nat) : SharedMem × ByteMem → SharedMem × ByteMem
  | ((disk, hbm), buf) =>
      match c with
      | nbd (.read offset _) => ((disk, hbm), update buf k (disk (offset.toNat + k)))
      | nbd (.write offset data _) => ((update disk (offset.toNat + k) (data k), hbm), buf)
      | nbd (.zero offset _) => ((update disk (offset.toNat + k) 0, hbm), buf)
      | xfer direction h remoteOff localOffset _ =>
          if direction = ramdiskToHbm then
            ((disk, update hbm h
              (update (hbm h) (remoteOff.toNat + k) (disk (localOffset.toNat + k)))), buf)
          else ((update disk (localOffset.toNat + k) (hbm h (remoteOff.toNat + k)), hbm), buf)

/-- The sections under the mutex. -/
def sections : Sections SharedMem ByteMem LockedCall where
  enter _ := ByteMem.zero
  pieces := len
  piece := copyByte

/-- The codes of the checks before the first byte is touched: the range test of the
backend's calls, then `ramdisk_backend_lock`. -/
def check (b : Backend) : LockedCall → Int
  | nbd c =>
      let rc := ramdiskBackendValidateRange b c.offset c.len.toUInt64
      if rc ≠ 0 then rc else ramdiskBackendLock b
  | xfer _ _ _ _ _ => ramdiskBackendLock b

/-- `execute_mock_xfer` has its range checked by its caller. -/
def inRange (b : Backend) : LockedCall → Bool
  | nbd _ => true
  | xfer _ _ _ localOffset length => decide (localOffset.toNat + length.toNat ≤ b.size.toNat)

/-- What a call that is carried out leaves in its buffer. -/
def result (c : LockedCall) (buf : ByteMem) : List UInt8 :=
  match c with
  | nbd (.read _ len) => buf.load 0 len.toNat
  | _ => []

end LockedCall

/-! ### Threads -/

/-- A call with its answer. -/
structure LockedAnswer (τ : Type*) where
  thread : τ
  call : LockedCall
  code : Int
  data : List UInt8

/-- The threads at work on a backend; the answers are newest first, and the content
of the ramdisk is that of the lock state. -/
structure LockedBackend (τ : Type*) where
  backend : Backend
  lock : LockState SharedMem ByteMem LockedCall τ
  answers : List (LockedAnswer τ)

inductive LockedLabel (τ : Type*)
  /-- A call up to its return with an error, or up to the end of the lock. -/
  | call (t : τ) (c : LockedCall)
  | byte (t : τ) (k : Nat)
  | unlock (t : τ)

namespace LockedBackend

variable {τ : Type*} [DecidableEq τ]

def start (b : Backend) (hbm : Nat → ByteMem) : LockedBackend τ :=
  ⟨b, Sections.free (b.mem, hbm), []⟩

/-- The thread is between lock and unlock. -/
def busy (s : LockedBackend τ) (t : τ) : Bool := s.lock.holder.any fun h => h.thread = t

def step (s : LockedBackend τ) : LockedLabel τ → Option (LockedBackend τ)
  | .call t c =>
      if s.busy t || !c.inRange s.backend then none
      else if c.check s.backend ≠ 0 then
        some { s with answers := ⟨t, c, c.check s.backend, []⟩ :: s.answers }
      else
        (LockedCall.sections.step s.lock (.lock t c)).map fun l => { s with lock := l }
  | .byte t k => (LockedCall.sections.step s.lock (.piece t k)).map fun l => { s with lock := l }
  | .unlock t =>
      match s.lock.holder with
      | none => none
      | some h =>
          (LockedCall.sections.step s.lock (.unlock t)).map fun l =>
            { s with lock := l, answers := ⟨t, h.op, 0, h.op.result h.data⟩ :: s.answers }

end LockedBackend

/-! ### The calls as a whole -/

/-- The copy of `execute_mock_xfer` as a whole. -/
def mockCopy (disk : ByteMem) (hbm : Nat → ByteMem) (direction : UInt32) (h : Nat)
    (remoteOff localOffset : UInt64) (length : UInt32) : ByteMem × (Nat → ByteMem) :=
  if direction = ramdiskToHbm then
    (disk, update hbm h ((hbm h).copy remoteOff.toNat disk localOffset.toNat length.toNat))
  else (disk.copy localOffset.toNat (hbm h) remoteOff.toNat length.toNat, hbm)

/-- The backend and the mock HBM buffers. -/
structure SharedState where
  backend : Backend
  hbm : Nat → ByteMem

def SharedState.mem (s : SharedState) : SharedMem := (s.backend.mem, s.hbm)

def SharedState.withMem (s : SharedState) (m : SharedMem) : SharedState :=
  ⟨{ s.backend with mem := m.1 }, m.2⟩

/-- What a call returns, puts into its buffer, and leaves behind. -/
structure LockedOutcome where
  code : Int
  data : List UInt8
  after : SharedState

/-- A call as a whole. -/
def LockedCall.atomic (s : SharedState) : LockedCall → LockedOutcome
  | .nbd c => ⟨(s.backend.call c).code, (s.backend.call c).data, (s.backend.call c).backend, s.hbm⟩
  | .xfer direction h remoteOff localOffset length =>
      ⟨0, [], s.withMem (mockCopy s.backend.mem s.hbm direction h remoteOff localOffset length)⟩

/-- The backend and the HBM buffers after these calls, newest first. -/
def sharedAfter (s : SharedState) : List LockedCall → SharedState
  | [] => s
  | c :: older => (c.atomic (sharedAfter s older)).after

/-- Every answer is the one the call gives after the calls answered before it. -/
def AnsweredInOrder {τ : Type*} (s : SharedState) (answers : List (LockedAnswer τ)) : Prop :=
  ∀ newer a older, answers = newer ++ a :: older →
    a.code = (a.call.atomic (sharedAfter s (older.map LockedAnswer.call))).code ∧
    a.data = (a.call.atomic (sharedAfter s (older.map LockedAnswer.call))).data

/-! ### The pieces make up the whole -/

/-- A copy of one byte more. -/
theorem ByteMem.copy_succ (dst src : ByteMem) (dOff sOff n : Nat) :
    dst.copy dOff src sOff (n + 1) =
      update (dst.copy dOff src sOff n) (dOff + n) (src (sOff + n)) := by
  funext i
  by_cases hi : i = dOff + n
  · subst hi
    rw [update_self]
    exact copy_inside _ _ _ _ (Nat.lt_succ_self n)
  · rw [update_of_ne hi]
    unfold copy
    by_cases hin : dOff ≤ i ∧ i < dOff + n
    · rw [if_pos hin, if_pos ⟨hin.1, by omega⟩]
    · rw [if_neg hin, if_neg (by omega)]

theorem ByteMem.copy_zero (dst src : ByteMem) (dOff sOff : Nat) :
    dst.copy dOff src sOff 0 = dst := by
  funext i
  exact copy_outside _ _ _ _ (by omega)

namespace LockedCall

/-- The first `n` bytes of a call. -/
def upTo (n : Nat) (m : SharedMem) : LockedCall → SharedMem × ByteMem
  | nbd (.read offset _) => (m, ByteMem.zero.copy 0 m.1 offset.toNat n)
  | nbd (.write offset data _) => ((m.1.copy offset.toNat data 0 n, m.2), ByteMem.zero)
  | nbd (.zero offset _) => ((m.1.copy offset.toNat ByteMem.zero 0 n, m.2), ByteMem.zero)
  | xfer direction h remoteOff localOffset _ =>
      if direction = ramdiskToHbm then
        ((m.1, update m.2 h ((m.2 h).copy remoteOff.toNat m.1 localOffset.toNat n)), ByteMem.zero)
      else ((m.1.copy localOffset.toNat (m.2 h) remoteOff.toNat n, m.2), ByteMem.zero)

theorem upTo_zero (c : LockedCall) (m : SharedMem) : c.upTo 0 m = (m, ByteMem.zero) := by
  cases c with
  | nbd c => cases c <;> simp only [upTo, ByteMem.copy_zero]
  | xfer direction h remoteOff localOffset length =>
      simp only [upTo, ByteMem.copy_zero, update_eq_self, ite_self]

/-- The next byte of a call. -/
theorem upTo_succ (c : LockedCall) (n : Nat) (m : SharedMem) :
    c.upTo (n + 1) m = c.copyByte n (c.upTo n m) := by
  cases c with
  | nbd c =>
      cases c with
      | read offset len => simp only [upTo, copyByte, ByteMem.copy_succ, Nat.zero_add]
      | write offset data len => simp only [upTo, copyByte, ByteMem.copy_succ, Nat.zero_add]
      | zero offset len =>
          simp only [upTo, copyByte, ByteMem.copy_succ]
          rfl
  | xfer direction h remoteOff localOffset length =>
      by_cases hdir : direction = ramdiskToHbm
      · simp only [upTo, copyByte, if_pos hdir, ByteMem.copy_succ, update_self, update_idem]
      · simp only [upTo, copyByte, if_neg hdir, ByteMem.copy_succ]

/-- The bytes in their order make up the call. -/
theorem whole_eq (c : LockedCall) (m : SharedMem) : sections.whole c m = c.upTo c.len m := by
  show (List.range c.len).foldl (fun x k => c.copyByte k x) (m, ByteMem.zero) = _
  induction c.len with
  | zero => exact (upTo_zero c m).symm
  | succ n ih => rw [List.range_succ, List.foldl_append, ih, upTo_succ]; rfl

/-- Two bytes of one copy do not get in each other's way. -/
theorem sections_commute : sections.Commute := by
  rintro c j k ⟨⟨disk, hbm⟩, buf⟩
  by_cases e : j = k
  · rw [e]
  have hne : ∀ off : Nat, off + j ≠ off + k := fun off h => e (Nat.add_left_cancel h)
  simp only [sections]
  cases c with
  | nbd c =>
      cases c with
      | read offset len => simp only [copyByte, update_comm e]
      | write offset data len => simp only [copyByte, update_comm (hne offset.toNat)]
      | zero offset len => simp only [copyByte, update_comm (hne offset.toNat)]
  | xfer direction h remoteOff localOffset length =>
      by_cases hdir : direction = ramdiskToHbm
      · simp only [copyByte, if_pos hdir, update_self, update_idem,
          update_comm (hne remoteOff.toNat)]
      · simp only [copyByte, if_neg hdir, update_comm (hne localOffset.toNat)]

theorem check_nbd {b : Backend} (hb : b.Live) (c : BackendCall) : (nbd c).check b =
    if c.offset.toNat + c.len.toNat ≤ b.size.toNat then 0 else -ERANGE := by
  simp only [check, validateRange_live hb, lock_live hb, UInt32.toNat_toUInt64]
  split_ifs <;> simp_all

/-- **A call that passes its checks, as a whole**, is its bytes. -/
theorem atomic_of_check {s : SharedState} (hb : s.backend.Live) {c : LockedCall}
    (hc : c.check s.backend = 0) : c.atomic s = ⟨0, c.result (sections.whole c s.mem).2,
      s.withMem (sections.whole c s.mem).1⟩ := by
  rw [whole_eq]
  cases c with
  | xfer direction h remoteOff localOffset length =>
      simp only [atomic, mockCopy, upTo, len, result, SharedState.mem]
      split_ifs <;> rfl
  | nbd c =>
      have hfits : c.offset.toNat + c.len.toNat ≤ s.backend.size.toNat := by
        by_contra hout
        rw [check_nbd hb, if_neg hout] at hc
        cases hc
      simp only [atomic, call_live hb, if_pos hfits]
      cases c with
      | read offset len =>
          simp only [BackendCall.apply_read, BackendCall.fetch, upTo, result, LockedCall.len,
            BackendCall.len]
          refine congrArg (fun d => LockedOutcome.mk 0 d s) ?_
          exact (List.map_congr_left fun i hi =>
            ByteMem.copy_inside _ _ _ _ (List.mem_range.mp hi)).symm
      | write offset data len =>
          simp only [BackendCall.apply_write, BackendCall.fetch, upTo, result, LockedCall.len,
            BackendCall.len, ByteMem.copy_eq_store]
          rfl
      | zero offset len =>
          simp only [BackendCall.apply_zero, BackendCall.fetch, upTo, result, LockedCall.len,
            BackendCall.len]
          rfl

/-- A call that does not pass its checks changes nothing. -/
theorem atomic_of_refused {s : SharedState} (hb : s.backend.Live) {c : LockedCall}
    (hc : c.check s.backend ≠ 0) : c.atomic s = ⟨c.check s.backend, [], s⟩ := by
  cases c with
  | xfer direction h remoteOff localOffset length => exact absurd (lock_live hb) hc
  | nbd c =>
      rw [check_nbd hb] at hc ⊢
      have hout : ¬ c.offset.toNat + c.len.toNat ≤ s.backend.size.toNat := by
        intro hin
        exact hc (if_pos hin)
      simp only [atomic, call_live hb, if_neg hout]

/-- The checks do not look at the content. -/
theorem check_withMem (s : SharedState) (m : SharedMem) (c : LockedCall) :
    c.check (s.withMem m).backend = c.check s.backend := by
  cases c <;> rfl

end LockedCall

/-! ### Every interleaving -/

section Linearizable

variable {τ : Type*} {s₀ : SharedState}

open LockedCall

/-- One more answer. -/
theorem AnsweredInOrder.cons {answers : List (LockedAnswer τ)} {a : LockedAnswer τ}
    (h : AnsweredInOrder s₀ answers)
    (hcode : a.code = (a.call.atomic (sharedAfter s₀ (answers.map LockedAnswer.call))).code)
    (hdata : a.data = (a.call.atomic (sharedAfter s₀ (answers.map LockedAnswer.call))).data) :
    AnsweredInOrder s₀ (a :: answers) := by
  rintro (- | ⟨a', newer⟩) x older heq
  · obtain ⟨rfl, rfl⟩ := List.cons.inj heq
    exact ⟨hcode, hdata⟩
  · exact h newer x older (List.cons.inj heq).2

/-- The finished sections and the answers tell the same story, and the section in
progress has passed its checks. -/
structure LockedInv (s₀ : SharedState) (s : LockedBackend τ) : Prop where
  backend_eq : s.backend = s₀.backend
  lock : sections.LockInv s₀.mem s.lock
  answered : AnsweredInOrder s₀ s.answers
  /-- The calls answered so far leave what the finished sections leave. -/
  content : sharedAfter s₀ (s.answers.map LockedAnswer.call) =
    s₀.withMem (sections.replay s₀.mem s.lock.log)
  checked : ∀ i, s.lock.holder = some i → i.op.check s₀.backend = 0

variable [DecidableEq τ] {s t : LockedBackend τ}

theorem LockedInv.step (hb : s₀.backend.Live) (h : LockedInv s₀ s) {l : LockedLabel τ}
    (hstep : s.step l = some t) : LockedInv s₀ t := by
  have hlive : (s₀.withMem (sections.replay s₀.mem s.lock.log)).backend.Live := hb.withMem _
  unfold LockedBackend.step at hstep
  cases l with
  | call u c =>
      dsimp only at hstep
      rw [h.backend_eq] at hstep
      split_ifs at hstep with hbusy hrefused
      · -- refused before the mutex: the call as a whole does the same
        obtain rfl := Option.some.inj hstep
        have hatomic : c.atomic (sharedAfter s₀ (s.answers.map LockedAnswer.call)) =
            ⟨c.check s₀.backend, [], s₀.withMem (sections.replay s₀.mem s.lock.log)⟩ := by
          rw [h.content, atomic_of_refused hlive (by rwa [check_withMem]), check_withMem]
        refine ⟨rfl, h.lock, h.answered.cons ?_ ?_, ?_, h.checked⟩
        · rw [hatomic]
        · rw [hatomic]
        · exact congrArg LockedOutcome.after hatomic
      · obtain ⟨lock', hlock, rfl⟩ := Option.map_eq_some_iff.mp hstep
        have hinv := h.lock.step sections_commute hlock
        obtain ⟨-, rfl⟩ := Sections.step_lock hlock
        refine ⟨rfl, hinv, h.answered, h.content, ?_⟩
        rintro i ⟨⟩
        exact not_not.mp hrefused
  | byte u k =>
      obtain ⟨lock', hlock, rfl⟩ := Option.map_eq_some_iff.mp hstep
      have hinv := h.lock.step sections_commute hlock
      obtain ⟨i, hholder, -, rfl⟩ := Sections.step_piece hlock
      refine ⟨h.backend_eq, hinv, h.answered, h.content, ?_⟩
      rintro i' ⟨⟩
      exact h.checked i hholder
  | unlock u =>
      dsimp only at hstep
      split at hstep
      next => cases hstep
      next i hholder =>
        obtain ⟨lock', hlock, rfl⟩ := Option.map_eq_some_iff.mp hstep
        have hinv := h.lock.step sections_commute hlock
        obtain ⟨i', hholder', -, rfl⟩ := Sections.step_unlock hlock
        obtain rfl : i = i' := Option.some.inj (hholder.symm.trans hholder')
        -- the section that ends is the call as a whole
        have hatomic : i.op.atomic (sharedAfter s₀ (s.answers.map LockedAnswer.call)) =
            ⟨0, i.op.result (sections.whole i.op (sections.replay s₀.mem s.lock.log)).2,
              s₀.withMem (sections.whole i.op (sections.replay s₀.mem s.lock.log)).1⟩ := by
          rw [h.content, atomic_of_check hlive (by rw [check_withMem]; exact h.checked i hholder)]
          rfl
        have hdata : i.data = (sections.whole i.op (sections.replay s₀.mem s.lock.log)).2 :=
          hinv.recorded s.lock.log ⟨i.thread, i.op, i.data⟩ [] rfl
        refine ⟨h.backend_eq, hinv, h.answered.cons ?_ ?_, ?_, by rintro i' ⟨⟩⟩
        · rw [hatomic]
        · rw [hatomic, ← hdata]
        · rw [Sections.replay_snoc]
          exact congrArg LockedOutcome.after hatomic

/-- **The backend is linearizable**: for every interleaving of the bytes of any number
of calls, each call is answered as if the calls were carried out as a whole in the
order of their answers, and while no call is inside, the ramdisk and the HBM buffers
have the content those calls leave. -/
theorem locked_linearizable {b : Backend} (hb : b.Live) (hbm : Nat → ByteMem)
    {ls : List (LockedLabel τ)} (hrun : run LockedBackend.step (.start b hbm) ls = some s) :
    AnsweredInOrder ⟨b, hbm⟩ s.answers ∧ (s.lock.holder = none → s.lock.mem =
      (sharedAfter ⟨b, hbm⟩ (s.answers.map LockedAnswer.call)).mem) := by
  have hstart : LockedInv ⟨b, hbm⟩ (LockedBackend.start b hbm : LockedBackend τ) := by
    refine ⟨rfl, Sections.lockInv_free _ _, ?_, rfl, by rintro i ⟨⟩⟩
    intro newer a older heq
    simp [LockedBackend.start] at heq
  have hinv : LockedInv ⟨b, hbm⟩ s := run_invariant hstart
    (fun _ _ _ hu _ hstep => hu.step hb hstep) (runOk_trivial _ ls) hrun
  refine ⟨hinv.answered, fun hfree => ?_⟩
  have hmem := hinv.lock.holding
  unfold Sections.Holding at hmem
  rw [hfree] at hmem
  rw [hinv.content]
  exact hmem

/-- Thread `true` writes two bytes, last byte first, while thread `false` has a read
refused; then thread `false` reads. -/
theorem locked_linearizable_small :
    let b : Backend := ⟨4096, 8, 512, true, ByteMem.zero⟩
    let reached := run LockedBackend.step (.start b fun _ => ByteMem.zero)
      [.call true (.nbd (.write 2 (fun _ => 7) 2)), .byte true 1,
        .call false (.nbd (.read 7 2)), .byte true 0, .unlock true,
        .call false (.nbd (.read 3 2)), .byte false 0, .byte false 1, .unlock false]
    reached.map (fun s => s.answers.map LockedAnswer.data) = some [[7, 0], [], []] ∧
      ∀ s, reached = some s → AnsweredInOrder ⟨b, fun _ => ByteMem.zero⟩ s.answers := by
  refine ⟨by decide, fun s hs => ?_⟩
  exact (locked_linearizable ⟨rfl, by decide, by decide, by decide⟩ _ hs).1

end Linearizable

/-! ### The worker's copy -/

/-- A transfer that reaches the mutex copies what `mockCopy` does. -/
theorem Urma.executeMockXfer_eq_mockCopy {s : Urma.Sys} (hb : s.backend.Live) {req : Urma.Request}
    {peer : Urma.Peer} {h : Urma.CallId} (hpeer : peer.mockHbm = some h) {rc : Int}
    {mem : ByteMem} {hbm : Urma.CallId → Urma.HbmBuf}
    (hx : Urma.executeMockXfer s req peer = some (rc, mem, hbm)) :
    rc = 0 ∧ (mem, fun i => (hbm i).mem) = mockCopy s.backend.mem (fun i => (s.hbm i).mem)
      req.direction h (req.remoteHbmAddr - peer.segVa) req.localOffset req.length := by
  simp only [Urma.executeMockXfer, hpeer, lock_live hb, ne_eq, not_true_eq_false, if_false] at hx
  unfold mockCopy
  split_ifs at hx ⊢ with hin hdir
  · obtain ⟨rfl, rfl, rfl⟩ := Prod.mk.inj (Option.some.inj hx) |>.imp_right Prod.mk.inj
    refine ⟨rfl, congrArg (Prod.mk _) ?_⟩
    funext i
    by_cases hi : i = h
    · subst hi
      simp only [update_self]
    · simp only [update_of_ne hi]
  · obtain ⟨rfl, rfl, rfl⟩ := Prod.mk.inj (Option.some.inj hx) |>.imp_right Prod.mk.inj
    exact ⟨rfl, rfl⟩

end DirectStorage
