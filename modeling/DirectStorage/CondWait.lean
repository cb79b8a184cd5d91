/-
DirectStorage/CondWait.lean

Condition variables over a labelled transition system.

A thread that finds its condition false calls `pthread_cond_wait` and sleeps
until somebody signals it.  A system in which such a thread merely looks again
later leaves the sleeping out; `CondWait.step` puts it back.  Every waiter is
awake or asleep.  A step that belongs to a sleeping waiter is not enabled, a
signal wakes the waiter, and a wake-up that nobody asked for, a spurious one or
that of a deadline, may come at any time and has a label of its own.

`Signalled` is the discipline such a program has to keep: a waiter goes to sleep
only while its condition is false, and a step that makes the condition true
signals it.  Then no wake-up is lost (`Signalled.unready`).

The sleeping restricts the schedule and nothing else: `run_sys` takes a run with
sleeping waiters to a run of the system itself, and `run_of_sys` goes back, by
waking everybody up before each step.
-/
import DirectStorage.Lts
import Mathlib.Logic.Function.Basic

namespace DirectStorage

open Function

variable {σ α ω : Type*}

/-! ### Waiters -/

/-- Who waits for what in a system with states `σ` and labels `α`. -/
structure CondWait (σ α ω : Type*) where
  /-- The waiter that has to be awake for the step. -/
  taker : α → Option ω
  /-- The condition the waiter waits for. -/
  ready : ω → σ → Bool
  /-- After the step the waiter is asleep. -/
  sleeps : σ → α → σ → ω → Bool
  /-- The step signals what the waiter waits on. -/
  signals : σ → α → ω → Bool

/-- A state of the system and the waiters that are asleep in it. -/
structure WaitState (σ ω : Type*) where
  sys : σ
  asleep : ω → Bool

/-- A step of the system, or a wake-up that nobody asked for. -/
inductive WaitLabel (α ω : Type*)
  | act (a : α)
  | wakeup (w : ω)

namespace CondWait

/-- All waiters are awake. -/
def allAwake (s : σ) : WaitState σ ω := ⟨s, fun _ => false⟩

variable [DecidableEq ω]

/-- One step with sleeping waiters. -/
def step (W : CondWait σ α ω) (δ : σ → α → Option σ) (s : WaitState σ ω) :
    WaitLabel α ω → Option (WaitState σ ω)
  | .act a =>
      if (W.taker a).any s.asleep then none
      else (δ s.sys a).map fun t =>
        ⟨t, fun w => W.sleeps s.sys a t w || (s.asleep w && !W.signals s.sys a w)⟩
  | .wakeup w => some { s with asleep := update s.asleep w false }

/-- The steps of the system in a run with wake-ups. -/
def acts (ls : List (WaitLabel α ω)) : List α :=
  ls.filterMap fun
    | .act a => some a
    | .wakeup _ => none

variable {W : CondWait σ α ω} {δ : σ → α → Option σ} {s t : WaitState σ ω} {a : α}

theorem step_act_iff : W.step δ s (.act a) = some t ↔
    (∀ w, W.taker a = some w → s.asleep w = false) ∧ δ s.sys a = some t.sys ∧
      t.asleep = fun w => W.sleeps s.sys a t.sys w || (s.asleep w && !W.signals s.sys a w) := by
  have htaker : ¬ (W.taker a).any s.asleep = true ↔
      ∀ w, W.taker a = some w → s.asleep w = false := by
    cases W.taker a <;> simp
  rw [← htaker]
  unfold step
  constructor
  · intro h
    dsimp only at h
    split_ifs at h with hany
    obtain ⟨u, hu, rfl⟩ := Option.map_eq_some_iff.mp h
    exact ⟨hany, hu, rfl⟩
  · rintro ⟨hany, hu, hz⟩
    dsimp only
    rw [if_neg hany, hu, Option.map_some, ← hz]

/-- A step of the system that no sleeping waiter has to take is enabled. -/
theorem step_act_of {u : σ} (hawake : ∀ w, W.taker a = some w → s.asleep w = false)
    (hu : δ s.sys a = some u) : ∃ asleep, W.step δ s (.act a) = some ⟨u, asleep⟩ :=
  ⟨fun w => W.sleeps s.sys a u w || (s.asleep w && !W.signals s.sys a w),
    step_act_iff.mpr ⟨hawake, hu, rfl⟩⟩

/-! ### Sleeping only restricts the schedule -/

/-- **A run with sleeping waiters is a run of the system.** -/
theorem run_sys {ls : List (WaitLabel α ω)} (hrun : run (W.step δ) s ls = some t) :
    run δ s.sys (acts ls) = some t.sys := by
  induction ls generalizing s with
  | nil =>
      obtain rfl := Option.some.inj hrun
      rfl
  | cons l ls ih =>
      obtain ⟨u, hu, hrest⟩ := run_cons_iff.mp hrun
      cases l with
      | act a => exact run_cons_iff.mpr ⟨u.sys, (step_act_iff.mp hu).2.1, ih hrest⟩
      | wakeup w =>
          obtain rfl := Option.some.inj hu
          exact ih (s := ⟨s.sys, update s.asleep w false⟩) hrest

/-- **A run of the system is a run with sleeping waiters**, whoever sleeps at its
start: each step is preceded by a wake-up of the waiter that takes it. -/
theorem run_of_sys {as : List α} {u v : σ} (hrun : run δ u as = some v) (asleep : ω → Bool) :
    ∃ ls asleep', acts ls = as ∧ run (W.step δ) ⟨u, asleep⟩ ls = some ⟨v, asleep'⟩ := by
  induction as generalizing u asleep with
  | nil =>
      obtain rfl := Option.some.inj hrun
      exact ⟨[], asleep, rfl, rfl⟩
  | cons a as ih =>
      obtain ⟨u', hu', hrest⟩ := run_cons_iff.mp hrun
      -- the waiter that takes the step, if there is one, is woken up first
      obtain ⟨pre, woken, hacts, hpre, hawake⟩ : ∃ (pre : List (WaitLabel α ω)) (woken : ω → Bool),
          acts pre = [] ∧ run (W.step δ) ⟨u, asleep⟩ pre = some ⟨u, woken⟩ ∧
          ∀ w, W.taker a = some w → woken w = false := by
        cases htaker : W.taker a with
        | none => exact ⟨[], asleep, rfl, rfl, by rintro w ⟨⟩⟩
        | some w =>
            refine ⟨[.wakeup w], update asleep w false, rfl, rfl, ?_⟩
            rintro w' hw'
            obtain rfl := Option.some.inj hw'
            exact update_self _ _ _
      obtain ⟨after, hstep⟩ := step_act_of (s := ⟨u, woken⟩) hawake hu'
      obtain ⟨ls, asleep', rfl, hrun'⟩ := ih hrest after
      refine ⟨pre ++ .act a :: ls, asleep', ?_, ?_⟩
      · rw [acts, List.filterMap_append]
        exact congrArg (· ++ a :: acts ls) hacts
      · rw [run_append hpre]
        exact run_cons_iff.mpr ⟨_, hstep, hrun'⟩

/-! ### The discipline of signals -/

/-- A waiter sleeps only while its condition is false, and who makes the condition
true signals it; `I` is an invariant of the system that the argument may use. -/
structure Signalled (W : CondWait σ α ω) (δ : σ → α → Option σ) (I : σ → Prop) : Prop where
  keeps : ∀ s a t, I s → δ s a = some t → I t
  sleeps_unready : ∀ s a t w, I s → δ s a = some t → W.sleeps s a t w = true →
    W.ready w t = false
  signalled : ∀ s a t w, I s → δ s a = some t → W.ready w s = false → W.ready w t = true →
    W.signals s a w = true

/-- The waiters that are asleep have something to wait for. -/
def Unready (W : CondWait σ α ω) (s : WaitState σ ω) : Prop :=
  ∀ w, s.asleep w = true → W.ready w s.sys = false

variable {I : σ → Prop}

theorem Signalled.step_unready (h : Signalled W δ I) (hI : I s.sys) (hs : W.Unready s)
    {l : WaitLabel α ω} (hstep : W.step δ s l = some t) : I t.sys ∧ W.Unready t := by
  cases l with
  | wakeup w =>
      obtain rfl := Option.some.inj hstep
      refine ⟨hI, ?_⟩
      intro w' hw'
      by_cases e : w' = w
      · subst e
        simp at hw'
      · exact hs w' ((update_of_ne e _ _).symm.trans hw')
  | act a =>
      obtain ⟨-, hsys, hasleep⟩ := step_act_iff.mp hstep
      refine ⟨h.keeps _ _ _ hI hsys, ?_⟩
      intro w hw
      rw [hasleep] at hw
      cases hsleep : W.sleeps s.sys a t.sys w with
      | true => exact h.sleeps_unready _ _ _ w hI hsys hsleep
      | false =>
          -- it slept before and was not signalled, so its condition is still false
          simp only [hsleep, Bool.false_or, Bool.and_eq_true, Bool.not_eq_true'] at hw
          obtain ⟨hold, hnosignal⟩ := hw
          cases hready : W.ready w t.sys with
          | false => rfl
          | true =>
              have := h.signalled _ _ _ w hI hsys (hs w hold) hready
              rw [hnosignal] at this
              cases this

/-- **No wake-up is lost**: along every run, a waiter whose condition holds is
awake. -/
theorem Signalled.unready (h : Signalled W δ I) (hI : I s.sys) (hs : W.Unready s)
    {ls : List (WaitLabel α ω)} (hrun : run (W.step δ) s ls = some t) : W.Unready t :=
  (run_invariant (I := fun s => I s.sys ∧ W.Unready s) ⟨hI, hs⟩
    (fun _ _ _ hu _ hstep => h.step_unready hu.1 hu.2 hstep) (runOk_trivial s ls) hrun).2

end CondWait

end DirectStorage
