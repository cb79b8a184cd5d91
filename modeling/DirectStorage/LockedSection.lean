/-
DirectStorage/LockedSection.lean

Sections under a mutex, carried out piece by piece.

A thread locks the mutex, works on the shared memory in small pieces, and unlocks.
Only the holder touches the memory, but the pieces of its section are steps of
their own, in any order, and other threads run in between.  `Sections` says what
the pieces of each section do to the shared memory `μ` and to the thread's own data
`β`, and `Sections.step` is the system of any number of threads with such sections.

When the pieces of a section commute, the sections are atomic (`LockInv.step`): the
memory between two sections is what the finished sections leave when they are
carried out as a whole, one after the other in the order of the mutex, and each of
them ends with the data that it ends with there.
-/
import DirectStorage.Lts
import Mathlib.Data.List.Perm.Basic
import Mathlib.Data.List.Range
import Mathlib.Data.List.Nodup

namespace DirectStorage

variable {μ β ι τ : Type*}

/-! ### Sections -/

/-- What the sections `ι` do, piece by piece, to the shared memory and to the data
of the thread. -/
structure Sections (μ β ι : Type*) where
  /-- The data of the thread on entry. -/
  enter : ι → β
  /-- The number of pieces. -/
  pieces : ι → Nat
  piece : ι → Nat → μ × β → μ × β

namespace Sections

/-- Some pieces of a section, one after the other. -/
def partly (S : Sections μ β ι) (i : ι) (ks : List Nat) (m : μ) : μ × β :=
  ks.foldl (fun x k => S.piece i k x) (m, S.enter i)

/-- A section as a whole. -/
def whole (S : Sections μ β ι) (i : ι) (m : μ) : μ × β := S.partly i (List.range (S.pieces i)) m

/-- The pieces of a section may be done in any order. -/
def Commute (S : Sections μ β ι) : Prop :=
  ∀ i j k x, S.piece i j (S.piece i k x) = S.piece i k (S.piece i j x)

/-- All the pieces, in whatever order, make up the whole section. -/
theorem partly_eq_whole {S : Sections μ β ι} (hS : S.Commute) {i : ι} {ks : List Nat}
    (hnodup : ks.Nodup) (hlt : ∀ k ∈ ks, k < S.pieces i) (hall : ks.length = S.pieces i) (m : μ) :
    S.partly i ks m = S.whole i m := by
  have hsub : ks ⊆ List.range (S.pieces i) := fun k hk => List.mem_range.mpr (hlt k hk)
  have hperm : ks.Perm (List.range (S.pieces i)) :=
    (List.subperm_of_subset hnodup hsub).perm_of_length_le (by rw [List.length_range, hall])
  exact hperm.foldl_eq' (fun j _ k _ x => (hS i k j x)) _

end Sections

/-! ### Threads -/

/-- The thread that holds the mutex, its section, the pieces it has done and its
data. -/
structure Inside (β ι τ : Type*) where
  thread : τ
  op : ι
  done : List Nat
  data : β

/-- A finished section with the data it ended with. -/
structure Finished (β ι τ : Type*) where
  thread : τ
  op : ι
  data : β

/-- The shared memory, the holder of the mutex, and the finished sections in the
order of the mutex. -/
structure LockState (μ β ι τ : Type*) where
  mem : μ
  holder : Option (Inside β ι τ)
  log : List (Finished β ι τ)

inductive LockLabel (ι τ : Type*)
  | lock (t : τ) (i : ι)
  | piece (t : τ) (k : Nat)
  | unlock (t : τ)

namespace Sections

/-- Nobody holds the mutex and nothing has happened. -/
def free (m : μ) : LockState μ β ι τ := ⟨m, none, []⟩

/-- One step of one thread: `pthread_mutex_lock` waits until the mutex is free, and
the holder unlocks once its section is done. -/
def step [DecidableEq τ] (S : Sections μ β ι) (s : LockState μ β ι τ) :
    LockLabel ι τ → Option (LockState μ β ι τ)
  | .lock t i =>
      match s.holder with
      | some _ => none
      | none => some { s with holder := some ⟨t, i, [], S.enter i⟩ }
  | .piece t k =>
      match s.holder with
      | none => none
      | some h =>
          if h.thread = t ∧ k < S.pieces h.op ∧ k ∉ h.done then
            let (m, d) := S.piece h.op k (s.mem, h.data)
            some { s with
              mem := m
              holder := some { h with done := h.done ++ [k], data := d } }
          else none
  | .unlock t =>
      match s.holder with
      | none => none
      | some h =>
          if h.thread = t ∧ h.done.length = S.pieces h.op then
            some ⟨s.mem, none, s.log ++ [⟨h.thread, h.op, h.data⟩]⟩
          else none

section Step

variable [DecidableEq τ] {S : Sections μ β ι} {s s' : LockState μ β ι τ} {t : τ}

theorem step_lock {i : ι} (h : S.step s (.lock t i) = some s') :
    s.holder = none ∧ s' = { s with holder := some ⟨t, i, [], S.enter i⟩ } := by
  simp only [step] at h
  split at h
  · cases h
  next hfree => exact ⟨hfree, (Option.some.inj h).symm⟩

theorem step_piece {k : Nat} (h : S.step s (.piece t k) = some s') :
    ∃ i, s.holder = some i ∧ (k < S.pieces i.op ∧ k ∉ i.done) ∧
      s' = { s with
        mem := (S.piece i.op k (s.mem, i.data)).1
        holder := some { i with
          done := i.done ++ [k], data := (S.piece i.op k (s.mem, i.data)).2 } } := by
  simp only [step] at h
  split at h
  · cases h
  next i hholder =>
    split_ifs at h with hk
    exact ⟨i, hholder, hk.2, (Option.some.inj h).symm⟩

theorem step_unlock (h : S.step s (.unlock t) = some s') :
    ∃ i, s.holder = some i ∧ i.done.length = S.pieces i.op ∧
      s' = ⟨s.mem, none, s.log ++ [⟨i.thread, i.op, i.data⟩]⟩ := by
  simp only [step] at h
  split at h
  · cases h
  next i hholder =>
    split_ifs at h with hall
    exact ⟨i, hholder, hall.2, (Option.some.inj h).symm⟩

end Step

/-! ### The sections are atomic -/

/-- The memory after these sections, one after the other. -/
def replay (S : Sections μ β ι) (m : μ) (log : List (Finished β ι τ)) : μ :=
  log.foldl (fun m e => (S.whole e.op m).1) m

/-- Every finished section ended with the data it ends with when the sections are
carried out one after the other. -/
def Recorded (S : Sections μ β ι) (m : μ) (log : List (Finished β ι τ)) : Prop :=
  ∀ pre e post, log = pre ++ e :: post → e.data = (S.whole e.op (S.replay m pre)).2

/-- What the memory and the holder's data are made of. -/
def Holding (S : Sections μ β ι) (m : μ) (s : LockState μ β ι τ) : Prop :=
  match s.holder with
  | none => s.mem = S.replay m s.log
  | some h => (s.mem, h.data) = S.partly h.op h.done (S.replay m s.log) ∧
      h.done.Nodup ∧ ∀ k ∈ h.done, k < S.pieces h.op

structure LockInv (S : Sections μ β ι) (m : μ) (s : LockState μ β ι τ) : Prop where
  recorded : S.Recorded m s.log
  holding : S.Holding m s

variable {S : Sections μ β ι} {m : μ} {s s' : LockState μ β ι τ}

theorem replay_snoc (S : Sections μ β ι) (m : μ) (log : List (Finished β ι τ))
    (e : Finished β ι τ) :
    S.replay m (log ++ [e]) = (S.whole e.op (S.replay m log)).1 := by
  simp [replay]

theorem Recorded.snoc {log : List (Finished β ι τ)} (h : S.Recorded m log) {e : Finished β ι τ}
    (he : e.data = (S.whole e.op (S.replay m log)).2) : S.Recorded m (log ++ [e]) := by
  intro pre e' post heq
  rcases List.eq_nil_or_concat post with rfl | ⟨post', c, rfl⟩
  · obtain ⟨rfl, hlast⟩ := List.append_inj' heq rfl
    obtain rfl : e = e' := by simpa using hlast
    exact he
  · have heq' : log ++ [e] = (pre ++ e' :: post') ++ [c] := by simpa using heq
    obtain ⟨hlog, -⟩ := List.append_inj' heq' rfl
    exact h pre e' post' hlog

theorem lockInv_free (S : Sections μ β ι) (m : μ) :
    S.LockInv m (free m : LockState μ β ι τ) := by
  refine ⟨?_, rfl⟩
  intro pre e post heq
  simp [free] at heq

/-- **Sections under a mutex are atomic**: every step of every interleaving of their
pieces keeps it so. -/
theorem LockInv.step [DecidableEq τ] (hS : S.Commute) (h : S.LockInv m s) {l : LockLabel ι τ}
    (hstep : S.step s l = some s') : S.LockInv m s' := by
  have hhold := h.holding
  unfold Holding at hhold
  cases l with
  | lock t i =>
      obtain ⟨hfree, rfl⟩ := step_lock hstep
      rw [hfree] at hhold
      refine ⟨h.recorded, ?_, List.nodup_nil, by simp⟩
      show (s.mem, S.enter i) = S.partly i [] (S.replay m s.log)
      rw [hhold]
      rfl
  | piece t k =>
      obtain ⟨i, hholder, ⟨hk, hnew⟩, rfl⟩ := step_piece hstep
      rw [hholder] at hhold
      obtain ⟨hpair, hnodup, hlt⟩ := hhold
      refine ⟨h.recorded, ?_, ?_, ?_⟩
      · -- one more piece on top of those done
        show S.piece i.op k (s.mem, i.data) = S.partly i.op (i.done ++ [k]) (S.replay m s.log)
        rw [hpair, partly, partly, List.foldl_append]
        rfl
      · refine List.Nodup.append hnodup (List.nodup_singleton k) ?_
        simpa using hnew
      · intro j hj
        rcases List.mem_append.mp hj with hj | hj
        · exact hlt j hj
        · rw [List.mem_singleton.mp hj]
          exact hk
  | unlock t =>
      obtain ⟨i, hholder, hall, rfl⟩ := step_unlock hstep
      rw [hholder] at hhold
      obtain ⟨hpair, hnodup, hlt⟩ := hhold
      -- all the pieces are done, so this was the whole section
      rw [partly_eq_whole hS hnodup hlt hall] at hpair
      refine ⟨h.recorded.snoc (congrArg Prod.snd hpair), ?_⟩
      show s.mem = S.replay m (s.log ++ [⟨i.thread, i.op, i.data⟩])
      rw [replay_snoc]
      exact congrArg Prod.fst hpair

end Sections

end DirectStorage
