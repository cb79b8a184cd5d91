/-
DirectStorage/RingQueue.lean

Ring buffers over an arbitrary element type, and the FIFO queue they
represent.

The representation is the usual one of C code: a fixed array of optional
cells, a read index `head`, a write index `tail` and an element count, with
both indices advanced modulo the capacity.  `push` and `pop` are unchecked,
as such code is: the caller compares `count` with the capacity (or with zero)
first.

`Holds r q` is the abstraction relation.  It is stated as *one* equation per
cell, `slots[(head + i) % cap] = q[i]`, where both sides are optional: the
first `q.length` cells from `head` on hold the queue, and every other cell is
vacant because `q[i]?` is `none` there.  `push_holds` and `pop_holds` then say
that the ring refines the list queue.
-/
import Mathlib.Tactic.Common
import Mathlib.Data.Nat.ModEq

namespace DirectStorage

/-- A ring buffer: the array of cells, the read and write indices and the
number of occupied cells. -/
structure Ring (α : Type*) where
  slots : List (Option α)
  head : Nat
  tail : Nat
  count : Nat

namespace Ring

variable {α : Type*}

/-- The number of cells. -/
def cap (r : Ring α) : Nat := r.slots.length

/-- The ring with `n` vacant cells. -/
def empty (n : Nat) : Ring α := ⟨List.replicate n none, 0, 0, 0⟩

/-- Store `a` at `tail` and advance `tail`. -/
def push (r : Ring α) (a : α) : Ring α where
  slots := r.slots.set r.tail (some a)
  head := r.head
  tail := (r.tail + 1) % r.cap
  count := r.count + 1

/-- The cell at `head`; `none` also when the index is out of bounds. -/
def front (r : Ring α) : Option α := r.slots.getD r.head none

/-- Clear the cell at `head` and advance `head`. -/
def pop (r : Ring α) : Ring α where
  slots := r.slots.set r.head none
  head := (r.head + 1) % r.cap
  tail := r.tail
  count := r.count - 1

@[simp] theorem cap_empty (n : Nat) : (empty n : Ring α).cap = n := by
  simp [empty, cap]

@[simp] theorem cap_push (r : Ring α) (a : α) : (r.push a).cap = r.cap := by
  simp [push, cap]

@[simp] theorem cap_pop (r : Ring α) : r.pop.cap = r.cap := by
  simp [pop, cap]

/-! ### The abstraction relation -/

/-- `Holds r q`: the ring `r` represents the queue `q`, oldest element
first. -/
structure Holds (r : Ring α) (q : List α) : Prop where
  count_eq : r.count = q.length
  count_le : r.count ≤ r.cap
  head_lt : r.head < r.cap
  tail_eq : r.tail = (r.head + r.count) % r.cap
  cell : ∀ i, i < r.cap → r.slots[(r.head + i) % r.cap]? = some q[i]?

variable {r : Ring α} {q : List α}

/-- Distinct offsets below the capacity name distinct cells. -/
theorem index_inj {c h i j : Nat} (hi : i < c) (hj : j < c)
    (e : (h + i) % c = (h + j) % c) : i = j := by
  have hmod : i % c = j % c := Nat.ModEq.add_left_cancel' h e
  rwa [Nat.mod_eq_of_lt hi, Nat.mod_eq_of_lt hj] at hmod

/-- Every cell index is some offset from the head. -/
theorem exists_offset {c h j : Nat} (hj : j < c) (hh : h < c) :
    ∃ i, i < c ∧ (h + i) % c = j := by
  rcases Nat.lt_or_ge j h with hlt | hge
  · refine ⟨c - h + j, by omega, ?_⟩
    have : h + (c - h + j) = j + c := by omega
    rw [this, Nat.add_mod_right, Nat.mod_eq_of_lt hj]
  · refine ⟨j - h, by omega, ?_⟩
    have : h + (j - h) = j := by omega
    rw [this, Nat.mod_eq_of_lt hj]

theorem empty_holds {n : Nat} (hn : 0 < n) : (empty n : Ring α).Holds [] where
  count_eq := rfl
  count_le := by simp [empty]
  head_lt := by simpa [empty, cap] using hn
  tail_eq := by simp [empty]
  cell := by
    intro i hi
    rw [cap_empty] at hi ⊢
    simp [empty, hn, Nat.mod_lt]

/-- The cells from `head` on hold the queue, in order. -/
theorem Holds.occupied (h : r.Holds q) {i : Nat} (hi : i < q.length) :
    r.slots[(r.head + i) % r.cap]? = some (some q[i]) := by
  have hle := h.count_le
  have hc := h.count_eq
  rw [h.cell i (by omega), List.getElem?_eq_getElem hi]

/-- Every cell that is not one of the occupied ones is vacant. -/
theorem Holds.vacant (h : r.Holds q) {j : Nat} (hj : j < r.cap)
    (hne : ∀ i, i < q.length → (r.head + i) % r.cap ≠ j) :
    r.slots[j]? = some none := by
  obtain ⟨i, hi, rfl⟩ := exists_offset hj h.head_lt
  rw [h.cell i hi]
  have hge : q.length ≤ i := by
    by_contra hlt
    exact hne i (by omega) rfl
  rw [List.getElem?_eq_none hge]

/-- `front` is the oldest element. -/
theorem Holds.front_eq (h : r.Holds q) : r.front = q.head? := by
  have hh := h.head_lt
  have hcell := h.cell 0 (by omega)
  rw [Nat.add_zero, Nat.mod_eq_of_lt hh] at hcell
  rw [front, List.getD_eq_getElem?_getD, hcell, List.head?_eq_getElem?]
  rfl

/-! ### The operations refine the list queue -/

/-- **Enqueue**: below capacity, `push` appends to the represented queue. -/
theorem push_holds (h : r.Holds q) (hlt : r.count < r.cap) (a : α) :
    (r.push a).Holds (q ++ [a]) where
  count_eq := by simp [push, h.count_eq]
  count_le := by rw [cap_push]; exact hlt
  head_lt := by rw [cap_push]; exact h.head_lt
  tail_eq := by
    rw [cap_push]
    show (r.tail + 1) % r.cap = (r.head + (r.count + 1)) % r.cap
    rw [h.tail_eq, Nat.mod_add_mod, Nat.add_assoc]
  cell := by
    intro i hi
    rw [cap_push] at hi ⊢
    show (r.slots.set r.tail (some a))[(r.head + i) % r.cap]? = _
    have hidx : (r.head + i) % r.cap < r.slots.length :=
      Nat.mod_lt _ (by omega)
    have hq := h.count_eq
    by_cases hic : i = r.count
    · -- the freshly written cell
      subst hic
      rw [h.tail_eq, List.getElem?_set_self hidx, hq]
      simp
    · -- every other cell keeps its content, and `q ++ [a]` agrees with `q` there
      have hne : r.tail ≠ (r.head + i) % r.cap := by
        rw [h.tail_eq]
        intro e
        exact hic (index_inj hlt hi e).symm
      rw [List.getElem?_set_ne hne, h.cell i hi]
      rcases Nat.lt_or_ge i q.length with hlt' | hge
      · rw [List.getElem?_append_left hlt']
      · rw [List.getElem?_eq_none hge, List.getElem?_eq_none]
        simp only [List.length_append, List.length_cons, List.length_nil]
        omega

/-- **Dequeue**: on a nonempty ring, `pop` drops the oldest element. -/
theorem pop_holds {a : α} (h : r.Holds (a :: q)) : r.pop.Holds q where
  count_eq := by simp [pop, h.count_eq]
  count_le := by
    have := h.count_le
    rw [cap_pop]
    show r.count - 1 ≤ r.cap
    omega
  head_lt := by
    have := h.head_lt
    rw [cap_pop]
    exact Nat.mod_lt _ (by omega)
  tail_eq := by
    have hc : r.count = q.length + 1 := by simp [h.count_eq]
    rw [cap_pop]
    show r.tail = ((r.head + 1) % r.cap + (r.count - 1)) % r.cap
    rw [h.tail_eq, Nat.mod_add_mod, hc]
    congr 1
    omega
  cell := by
    intro i hi
    rw [cap_pop] at hi ⊢
    have hh := h.head_lt
    have hidx : ((r.head + 1) % r.cap + i) % r.cap = (r.head + (i + 1)) % r.cap := by
      rw [Nat.mod_add_mod]; congr 1; omega
    show (r.slots.set r.head none)[((r.head + 1) % r.cap + i) % r.cap]? = _
    rw [hidx]
    have hle : q.length + 1 ≤ r.cap := by
      have := h.count_le
      rw [h.count_eq] at this
      simpa using this
    by_cases hlast : i + 1 = r.cap
    · -- wrapped all the way round to the cell just cleared
      rw [hlast, Nat.add_mod_right, Nat.mod_eq_of_lt hh,
        List.getElem?_set_self hh, List.getElem?_eq_none (by omega)]
    · have hne : r.head ≠ (r.head + (i + 1)) % r.cap := by
        intro e
        have e' : (r.head + 0) % r.cap = (r.head + (i + 1)) % r.cap := by
          rw [Nat.add_zero, Nat.mod_eq_of_lt hh]; exact e
        have := index_inj (by omega) (by omega) e'
        omega
      rw [List.getElem?_set_ne hne, h.cell (i + 1) (by omega)]
      simp

end Ring

end DirectStorage
