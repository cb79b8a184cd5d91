/-
DirectStorage/Loop.lean

Loops of the form `for (;;) { ... }` whose body may leave them.

The body is a function to `Flow`: `next` for the end of the body and
`continue`, `out` for `break`, `return` and a jump behind the loop.  `runLoop`
runs it to the end; it asks for a size that every pass which goes on makes
smaller, so that it is total.  `passes` runs it a fixed number of times.

Main results: the equations `runLoop_next` and `runLoop_out`, that a number of
passes is a prefix of the whole loop (`runLoop_passes_next`,
`runLoop_passes_out`), and the invariant rule `runLoop_invariant`.
-/
import Mathlib.Tactic.Common

namespace DirectStorage

/-- How a pass through a loop ends. -/
inductive Flow (σ : Type*) where
  | next (s : σ)
  | out (s : σ)

variable {σ : Type*}

def Flow.state : Flow σ → σ
  | next s => s
  | out s => s

/-- Run the loop to its end. -/
def runLoop (body : σ → Flow σ) (size : σ → Nat)
    (hlt : ∀ {s t}, body s = .next t → size t < size s) (s : σ) : σ :=
  match _h : body s with
  | .next t => runLoop body size hlt t
  | .out t => t
termination_by size s
decreasing_by exact hlt _h

/-- At most `n` passes. -/
def passes (body : σ → Flow σ) : Nat → σ → Flow σ
  | 0, s => .next s
  | n + 1, s =>
      match body s with
      | .next t => passes body n t
      | .out t => .out t

variable {body : σ → Flow σ} {size : σ → Nat}
  {hlt : ∀ {s t}, body s = .next t → size t < size s} {s t : σ}

theorem runLoop_next (h : body s = .next t) :
    runLoop body size hlt s = runLoop body size hlt t := by
  rw [runLoop]
  split <;> simp_all

theorem runLoop_out (h : body s = .out t) : runLoop body size hlt s = t := by
  rw [runLoop]
  split <;> simp_all

theorem runLoop_passes_next {n : Nat} (h : passes body n s = .next t) :
    runLoop body size hlt s = runLoop body size hlt t := by
  induction n generalizing s with
  | zero =>
      obtain rfl := Flow.next.inj h
      rfl
  | succ n ih =>
      rcases e : body s with u | u
      · rw [runLoop_next e]
        apply ih
        simpa [passes, e] using h
      · simp [passes, e] at h

theorem runLoop_passes_out {n : Nat} (h : passes body n s = .out t) :
    runLoop body size hlt s = t := by
  induction n generalizing s with
  | zero => cases h
  | succ n ih =>
      rcases e : body s with u | u
      · rw [runLoop_next e]
        apply ih
        simpa [passes, e] using h
      · rw [runLoop_out e]
        simpa [passes, e] using h

/-! ### Invariants -/

/-- The last of several passes. -/
theorem passes_succ_next {n : Nat} (h : passes body (n + 1) s = .next t) :
    ∃ u, passes body n s = .next u ∧ body u = .next t := by
  induction n generalizing s with
  | zero =>
      rcases e : body s with u | u
      · refine ⟨s, rfl, ?_⟩
        simpa [passes, e] using h
      · simp [passes, e] at h
  | succ n ih =>
      rw [passes] at h
      rcases e : body s with u | u
      · rw [e] at h
        obtain ⟨v, hv, hlast⟩ := ih h
        refine ⟨v, ?_, hlast⟩
        simpa [passes, e] using hv
      · rw [e] at h
        cases h

/-- The loop has a last pass. -/
theorem exists_last_pass (hlt : ∀ {s t}, body s = .next t → size t < size s) (s : σ) :
    ∃ n t, passes body n s = .next t ∧ body t = .out (runLoop body size hlt s) := by
  rcases e : body s with u | u
  · obtain ⟨n, t, hn, ht⟩ := exists_last_pass hlt u
    refine ⟨n + 1, t, ?_, ?_⟩
    · simpa [passes, e] using hn
    · rw [ht, runLoop_next e]
  · refine ⟨0, s, rfl, ?_⟩
    rw [e, runLoop_out e]
termination_by size s
decreasing_by exact hlt e

/-- **Invariant rule for loops**: what holds at the start, and is kept by every
pass the loop makes, holds at the end. -/
theorem runLoop_invariant {I : σ → Prop} (h₀ : I s)
    (hpass : ∀ n t, passes body n s = .next t → I t → I (body t).state) :
    I (runLoop body size hlt s) := by
  have hall : ∀ n t, passes body n s = .next t → I t := by
    intro n
    induction n with
    | zero =>
        intro t h
        obtain rfl := Flow.next.inj h
        exact h₀
    | succ n ih =>
        intro t h
        obtain ⟨u, hu, hlast⟩ := passes_succ_next h
        have hstate := hpass n u hu (ih u hu)
        rwa [hlast] at hstate
  obtain ⟨n, t, hn, ht⟩ := exists_last_pass hlt s
  have hstate := hpass n t hn (hall n t hn)
  rwa [ht] at hstate

end DirectStorage
