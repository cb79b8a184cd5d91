/-
DirectStorage/Xarray.lean

Sparse arrays indexed by numbers, after the kernel's `xarray`.

A value is the list of its entries in the order of their indices, each index
at most once; the order is part of the type.  The operations are those of the
kernel's interface: `store` puts an entry at an index, `erase` removes it, and
`find i` returns the first entry at or behind `i`.

Main results: what `store` at a free index and `erase` at a used one do to
the entries, up to order, and what `find` returns.
-/
import Mathlib.Tactic.Common
import Mathlib.Data.List.Pairwise

namespace DirectStorage

/-- A sparse array. -/
structure Xarray (α : Type*) where
  entries : List (Nat × α)
  sorted : entries.Pairwise fun e e' => e.1 < e'.1

namespace Xarray

variable {α : Type*} {k : Nat} {a : α}

/-- Put an entry into a list that is ordered by index. -/
def insertAt (k : Nat) (a : α) : List (Nat × α) → List (Nat × α)
  | [] => [(k, a)]
  | e :: es =>
      if k < e.1 then (k, a) :: e :: es
      else if k = e.1 then (k, a) :: es
      else e :: insertAt k a es

theorem mem_insertAt {l : List (Nat × α)} {e : Nat × α} (h : e ∈ insertAt k a l) :
    e = (k, a) ∨ e ∈ l := by
  induction l with
  | nil => simpa [insertAt] using h
  | cons e' es ih =>
      simp only [insertAt] at h
      split_ifs at h
      · simpa using h
      · rcases List.mem_cons.mp h with h | h
        · exact .inl h
        · exact .inr (List.mem_cons_of_mem _ h)
      · rcases List.mem_cons.mp h with rfl | h
        · exact .inr List.mem_cons_self
        · rcases ih h with h | h
          · exact .inl h
          · exact .inr (List.mem_cons_of_mem _ h)

theorem sorted_insertAt {l : List (Nat × α)} (h : l.Pairwise fun e e' => e.1 < e'.1) :
    (insertAt k a l).Pairwise fun e e' => e.1 < e'.1 := by
  induction l with
  | nil => simp [insertAt]
  | cons e es ih =>
      obtain ⟨hhead, htail⟩ := List.pairwise_cons.mp h
      simp only [insertAt]
      split_ifs with hlt heq
      · apply List.pairwise_cons.mpr
        refine ⟨?_, h⟩
        intro e' he'
        rcases List.mem_cons.mp he' with rfl | he'
        · exact hlt
        · exact Nat.lt_trans hlt (hhead e' he')
      · apply List.pairwise_cons.mpr
        refine ⟨?_, htail⟩
        intro e' he'
        exact heq ▸ hhead e' he'
      · apply List.pairwise_cons.mpr
        refine ⟨?_, ih htail⟩
        intro e' he'
        rcases mem_insertAt he' with rfl | he'
        · show e.1 < k
          omega
        · exact hhead e' he'

/-- The array without entries. -/
def empty : Xarray α := ⟨[], .nil⟩

/-- `xa_store`. -/
def store (x : Xarray α) (k : Nat) (a : α) : Xarray α :=
  ⟨insertAt k a x.entries, sorted_insertAt x.sorted⟩

/-- `xa_erase`. -/
def erase (x : Xarray α) (k : Nat) : Xarray α :=
  ⟨x.entries.filter fun e => e.1 ≠ k, x.sorted.filter _⟩

/-- `xa_find`: the first entry at or behind index `i`. -/
def find (x : Xarray α) (i : Nat) : Option (Nat × α) := x.entries.find? fun e => i ≤ e.1

/-- The stored values, in the order of their indices. -/
def values (x : Xarray α) : List α := x.entries.map Prod.snd

/-! ### Storing and erasing -/

theorem insertAt_perm {l : List (Nat × α)} (hfree : ∀ e ∈ l, e.1 ≠ k) :
    (insertAt k a l).Perm ((k, a) :: l) := by
  induction l with
  | nil => exact .refl _
  | cons e es ih =>
      simp only [insertAt]
      split_ifs with hlt heq
      · exact .refl _
      · exact absurd heq.symm (hfree e List.mem_cons_self)
      · exact ((ih fun e' he' => hfree e' (List.mem_cons_of_mem e he')).cons e).trans
          (.swap _ _ _)

theorem mem_store (x : Xarray α) (hfree : ∀ e ∈ x.entries, e.1 ≠ k) {e : Nat × α} :
    e ∈ (x.store k a).entries ↔ e = (k, a) ∨ e ∈ x.entries := by
  rw [store, (insertAt_perm hfree).mem_iff, List.mem_cons]

theorem length_store (x : Xarray α) (hfree : ∀ e ∈ x.entries, e.1 ≠ k) :
    (x.store k a).entries.length = x.entries.length + 1 := by
  rw [store, (insertAt_perm hfree).length_eq, List.length_cons]

/-- What was stored at a free index can be erased again. -/
theorem erase_store (x : Xarray α) (hfree : ∀ e ∈ x.entries, e.1 ≠ k) :
    ((x.store k a).erase k).values.Perm x.values := by
  have hperm := (insertAt_perm (a := a) hfree).filter fun e => e.1 ≠ k
  have hsame : x.entries.filter (fun e => e.1 ≠ k) = x.entries :=
    List.filter_eq_self.mpr fun e he => by simpa using hfree e he
  rw [List.filter_cons_of_neg (by simp), hsame] at hperm
  exact hperm.map Prod.snd

/-- Erasing an entry takes out its value and nothing else. -/
theorem values_erase (x : Xarray α) (h : (k, a) ∈ x.entries) :
    x.values.Perm (a :: (x.erase k).values) := by
  have hperm : x.entries.Perm ((k, a) :: (x.erase k).entries) := by
    show x.entries.Perm ((k, a) :: x.entries.filter fun e => e.1 ≠ k)
    -- the indices are strictly increasing, so no other entry is at `k`
    have hsorted := x.sorted
    generalize x.entries = l at h hsorted
    induction l with
    | nil => cases h
    | cons e es ih =>
        obtain ⟨hhead, htail⟩ := List.pairwise_cons.mp hsorted
        rcases List.mem_cons.mp h with rfl | hmem
        · have hsame : es.filter (fun e => e.1 ≠ k) = es :=
            List.filter_eq_self.mpr fun e he => by simpa using Nat.ne_of_gt (hhead e he)
          rw [List.filter_cons_of_neg (by simp), hsame]
        · have hne : e.1 ≠ k := Nat.ne_of_lt (hhead _ hmem)
          rw [List.filter_cons_of_pos (by simpa using hne)]
          exact ((ih hmem htail).cons e).trans (.swap _ _ _)
  exact hperm.map Prod.snd

theorem length_erase (x : Xarray α) (h : (k, a) ∈ x.entries) :
    x.entries.length = (x.erase k).entries.length + 1 := by
  simpa [values] using (x.values_erase h).length_eq

theorem mem_erase (x : Xarray α) {e : Nat × α} :
    e ∈ (x.erase k).entries ↔ e ∈ x.entries ∧ e.1 ≠ k := by
  simp [erase]

/-! ### Finding -/

/-- **`find` returns the first entry at or behind the index.** -/
theorem find_some {x : Xarray α} {i : Nat} (h : x.find i = some (k, a)) :
    (k, a) ∈ x.entries ∧ ∀ e ∈ x.entries, i ≤ e.1 → k ≤ e.1 := by
  refine ⟨List.mem_of_find?_eq_some h, ?_⟩
  have hsorted := x.sorted
  unfold find at h
  generalize x.entries = l at h hsorted
  induction l with
  | nil => simp at h
  | cons e es ih =>
      obtain ⟨hhead, htail⟩ := List.pairwise_cons.mp hsorted
      intro e' he' hi
      by_cases hle : i ≤ e.1
      · rw [List.find?_cons_of_pos (by simpa using hle), Option.some.injEq] at h
        subst h
        rcases List.mem_cons.mp he' with rfl | he'
        · exact Nat.le_refl _
        · exact Nat.le_of_lt (hhead e' he')
      · rw [List.find?_cons_of_neg (by simpa using hle)] at h
        rcases List.mem_cons.mp he' with rfl | he'
        · exact absurd hi hle
        · exact ih h htail e' he' hi

theorem find_none {x : Xarray α} {i : Nat} (h : x.find i = none) :
    ∀ e ∈ x.entries, e.1 < i := by
  intro e he
  have := List.find?_eq_none.mp h e he
  simpa using this

end Xarray

end DirectStorage
