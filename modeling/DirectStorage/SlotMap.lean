/-
DirectStorage/SlotMap.lean

Slot tables as finite maps.

A table is a function from a finite type of slots to optional entries, each a
key with a value; a free slot holds `none`.  `Slots f m` says that the table `f`
holds exactly the entries of the finite map `m`, no key twice.  Which slot an
entry is in does not appear in `m`.

The operations on tables used in practice are writing one slot.  Each of them
has its counterpart on the map: filling a free slot with a new key is an
insertion (`Slots.insert`), clearing a slot is an erasure (`Slots.erase`), and
changing the value in a slot replaces the value of its key (`Slots.replace`).
The number of slots in use is the size of the map (`Slots.card`).
-/
import Mathlib.Data.Finmap
import Mathlib.Data.Fintype.Card

namespace DirectStorage

open Function

variable {ι κ ν : Type*} [DecidableEq κ] {f : ι → Option (κ × ν)} {m : Finmap fun _ : κ => ν}

/-- The table `f` holds exactly the entries of `m`, each in one slot. -/
structure Slots (f : ι → Option (κ × ν)) (m : Finmap fun _ : κ => ν) : Prop where
  lookup_iff : ∀ x v, m.lookup x = some v ↔ ∃ i, f i = some (x, v)
  once : ∀ i j x v w, f i = some (x, v) → f j = some (x, w) → i = j

namespace Slots

theorem empty : Slots (fun _ : ι => (none : Option (κ × ν))) ∅ := by
  refine ⟨?_, ?_⟩
  · intro x v
    rw [Finmap.lookup_empty]
    constructor
    · rintro ⟨⟩
    · rintro ⟨i, ⟨⟩⟩
  · rintro i j x v w ⟨⟩

theorem lookup (h : Slots f m) {i : ι} {x : κ} {v : ν} (hi : f i = some (x, v)) :
    m.lookup x = some v :=
  (h.lookup_iff x v).mpr ⟨i, hi⟩

theorem mem_iff (h : Slots f m) {x : κ} : x ∈ m ↔ ∃ i v, f i = some (x, v) := by
  rw [Finmap.mem_iff]
  constructor
  · rintro ⟨v, hv⟩
    obtain ⟨i, hi⟩ := (h.lookup_iff x v).mp hv
    exact ⟨i, v, hi⟩
  · rintro ⟨i, v, hi⟩
    exact ⟨v, h.lookup hi⟩

end Slots

/-! ### Writing a slot -/

section Writing

variable [DecidableEq ι]

namespace Slots

/-- A new key in a free slot. -/
theorem insert (h : Slots f m) {i : ι} {x : κ} (v : ν) (hfree : f i = none) (hnew : x ∉ m) :
    Slots (update f i (some (x, v))) (m.insert x v) := by
  -- no slot of the old table holds the new key
  have habsent : ∀ j w, f j ≠ some (x, w) := fun j w hj => hnew (h.mem_iff.mpr ⟨j, w, hj⟩)
  refine ⟨?_, ?_⟩
  · intro y w
    by_cases hy : y = x
    · subst hy
      rw [Finmap.lookup_insert]
      constructor
      · rintro ⟨⟩
        exact ⟨i, update_self _ _ _⟩
      · rintro ⟨j, hj⟩
        by_cases hji : j = i
        · subst hji
          rw [update_self] at hj
          cases hj
          rfl
        · rw [update_of_ne hji] at hj
          exact absurd hj (habsent j w)
    · rw [Finmap.lookup_insert_of_ne _ hy, h.lookup_iff]
      constructor
      · rintro ⟨j, hj⟩
        have hji : j ≠ i := by
          rintro rfl
          rw [hfree] at hj
          cases hj
        exact ⟨j, by rw [update_of_ne hji]; exact hj⟩
      · rintro ⟨j, hj⟩
        by_cases hji : j = i
        · subst hji
          rw [update_self] at hj
          cases hj
          exact absurd rfl hy
        · rw [update_of_ne hji] at hj
          exact ⟨j, hj⟩
  · intro j j' y w w' hj hj'
    by_cases hji : j = i <;> by_cases hji' : j' = i
    · rw [hji, hji']
    · subst hji
      rw [update_self] at hj
      rw [update_of_ne hji'] at hj'
      cases hj
      exact absurd hj' (habsent j' w')
    · subst hji'
      rw [update_self] at hj'
      rw [update_of_ne hji] at hj
      cases hj'
      exact absurd hj (habsent j w)
    · rw [update_of_ne hji] at hj
      rw [update_of_ne hji'] at hj'
      exact h.once j j' y w w' hj hj'

/-- Clearing a slot. -/
theorem erase (h : Slots f m) {i : ι} {x : κ} {v : ν} (hi : f i = some (x, v)) :
    Slots (update f i none) (m.erase x) := by
  refine ⟨?_, ?_⟩
  · intro y w
    by_cases hy : y = x
    · subst hy
      rw [Finmap.lookup_erase]
      constructor
      · rintro ⟨⟩
      · rintro ⟨j, hj⟩
        by_cases hji : j = i
        · subst hji
          rw [update_self] at hj
          cases hj
        · rw [update_of_ne hji] at hj
          exact absurd (h.once j i y w v hj hi) hji
    · rw [Finmap.lookup_erase_ne hy, h.lookup_iff]
      constructor
      · rintro ⟨j, hj⟩
        have hji : j ≠ i := by
          rintro rfl
          rw [hi] at hj
          cases hj
          exact hy rfl
        exact ⟨j, by rw [update_of_ne hji]; exact hj⟩
      · rintro ⟨j, hj⟩
        by_cases hji : j = i
        · subst hji
          rw [update_self] at hj
          cases hj
        · rw [update_of_ne hji] at hj
          exact ⟨j, hj⟩
  · intro j j' y w w' hj hj'
    have hold : ∀ k u, update f i none k = some (y, u) → f k = some (y, u) := by
      intro k u hk
      by_cases hki : k = i
      · subst hki
        rw [update_self] at hk
        cases hk
      · rw [update_of_ne hki] at hk
        exact hk
    exact h.once j j' y w w' (hold j w hj) (hold j' w' hj')

/-- Changing the value in a slot. -/
theorem replace (h : Slots f m) {i : ι} {x : κ} {v : ν} (v' : ν) (hi : f i = some (x, v)) :
    Slots (update f i (some (x, v'))) (m.insert x v') := by
  have hins := (h.erase hi).insert v' (update_self i none f) Finmap.notMem_erase_self
  rw [update_idem] at hins
  have heq : (m.erase x).insert x v' = m.insert x v' := by
    refine Finmap.ext_lookup ?_
    intro y
    by_cases hy : y = x
    · subst hy
      rw [Finmap.lookup_insert, Finmap.lookup_insert]
    · rw [Finmap.lookup_insert_of_ne _ hy, Finmap.lookup_insert_of_ne _ hy,
        Finmap.lookup_erase_ne hy]
  rwa [heq] at hins

end Slots

end Writing

/-! ### Size -/

/-- The slots in use. -/
def usedSlots {κ ν : Type*} [Fintype ι] (f : ι → Option (κ × ν)) : Finset ι :=
  Finset.univ.filter fun i => (f i).isSome = true

namespace Slots

variable [Fintype ι]

/-- **The size of the map is the number of slots in use.** -/
theorem card (h : Slots f m) : m.keys.card = (usedSlots f).card := by
  have hused : ∀ i, i ∈ usedSlots f ↔ ∃ x v, f i = some (x, v) := by
    intro i
    rw [usedSlots, Finset.mem_filter, Option.isSome_iff_exists]
    simp
  -- each key has its slot, and each slot in use its key
  refine Finset.card_bij (fun x hx => (h.mem_iff.mp (Finmap.mem_keys.mp hx)).choose) ?_ ?_ ?_
  · intro x hx
    obtain ⟨v, hv⟩ := (h.mem_iff.mp (Finmap.mem_keys.mp hx)).choose_spec
    exact (hused _).mpr ⟨x, v, hv⟩
  · intro x hx y hy heq
    obtain ⟨v, hv⟩ := (h.mem_iff.mp (Finmap.mem_keys.mp hx)).choose_spec
    obtain ⟨w, hw⟩ := (h.mem_iff.mp (Finmap.mem_keys.mp hy)).choose_spec
    rw [heq, hw] at hv
    cases hv
    rfl
  · intro i hi
    obtain ⟨x, v, hxv⟩ := (hused i).mp hi
    have hx : x ∈ m := h.mem_iff.mpr ⟨i, v, hxv⟩
    refine ⟨x, Finmap.mem_keys.mpr hx, ?_⟩
    obtain ⟨w, hw⟩ := (h.mem_iff.mp hx).choose_spec
    exact h.once _ i x w v hw hxv

/-- There is a free slot exactly when the map is not full. -/
theorem card_lt_iff (h : Slots f m) : m.keys.card < Fintype.card ι ↔ ∃ i, f i = none := by
  rw [h.card, Finset.card_lt_iff_ne_univ, Ne, Finset.eq_univ_iff_forall, not_forall]
  refine exists_congr ?_
  intro i
  simp [usedSlots]

end Slots

end DirectStorage
