/-
DirectStorage/InFlight.lean

A memory with stores in flight.

A store in flight is carried out piece by piece, in any order, by someone who
takes no lock.  `Overlay base m flying` says that the memory `m` is `base` with
the pieces moved so far laid over it, and that the stores in flight do not
overlap.  Whoever keeps away from the ranges in flight then sees `base`.

The rules say how the three change together: an ordinary store outside the
ranges in flight (`Overlay.store`), a store that takes off (`Overlay.takeOff`),
a piece (`Overlay.move`), and a store that lands with all its pieces moved
(`Overlay.land`) or is given up with none (`Overlay.drop`).
-/
import DirectStorage.ByteMem

namespace DirectStorage

open Function

/-- The positions moved after a piece of `n` bytes from `lo` on. -/
def movedPiece (moved : Nat → Bool) (lo n : Nat) : Nat → Bool := fun j =>
  (decide (lo ≤ j) && decide (j < lo + n)) || moved j

/-- A store in flight: `size` bytes of `src`, to be stored from `off` on, and the
positions already stored. -/
structure Flight where
  off : Nat
  size : Nat
  src : ByteMem
  moved : Nat → Bool

/-- The store covers address `i`. -/
def Flight.Covers (p : Flight) (i : Nat) : Prop := p.off ≤ i ∧ i < p.off + p.size

variable {ι : Type*} {base m : ByteMem} {flying : ι → Option Flight} {k : ι} {p : Flight}

/-- `m` is `base` under the pieces moved so far, and no two stores in flight
overlap. -/
structure Overlay (base m : ByteMem) (flying : ι → Option Flight) : Prop where
  /-- Where nothing has been moved, the base is seen. -/
  under : ∀ i, (∀ k p, flying k = some p → p.Covers i → p.moved (i - p.off) = false) → m i = base i
  /-- What has been moved is seen. -/
  covered : ∀ k p i, flying k = some p → p.Covers i → p.moved (i - p.off) = true →
    m i = p.src (i - p.off)
  apart : ∀ k k' p p' i, flying k = some p → flying k' = some p' → p.Covers i → p'.Covers i → k = k'

namespace Overlay

theorem refl (m : ByteMem) : Overlay m m fun _ : ι => none :=
  ⟨fun _ _ => rfl, by rintro k p i ⟨⟩, by rintro k k' p p' i ⟨⟩⟩

/-- Away from the ranges in flight, the base is seen. -/
theorem clear (h : Overlay base m flying) {i : Nat}
    (hi : ∀ k p, flying k = some p → ¬ p.Covers i) : m i = base i :=
  h.under i fun k p hk hc => absurd hc (hi k p hk)

/-- With nothing in flight, the memory is the base. -/
theorem landed (h : Overlay base m flying) (hnone : ∀ k, flying k = none) : m = base := by
  funext i
  refine h.clear ?_
  intro k p hk
  rw [hnone k] at hk
  cases hk

/-- A store that keeps away from the ranges in flight. -/
theorem store (h : Overlay base m flying) (off : Nat) (data : List UInt8)
    (hout : ∀ k p i, flying k = some p → p.Covers i → i < off ∨ off + data.length ≤ i) :
    Overlay (base.store off data) (m.store off data) flying := by
  refine ⟨?_, ?_, h.apart⟩
  · intro i hi
    by_cases hin : off ≤ i ∧ i < off + data.length
    · obtain ⟨j, rfl⟩ := Nat.exists_eq_add_of_le hin.1
      have hj : j < data.length := by omega
      rw [ByteMem.store_inside _ _ hj, ByteMem.store_inside _ _ hj]
    · have hout' : i < off ∨ off + data.length ≤ i := by omega
      rw [ByteMem.store_outside _ hout', ByteMem.store_outside _ hout']
      exact h.under i hi
  · intro k p i hk hc hmoved
    rw [ByteMem.store_outside _ (hout k p i hk hc)]
    exact h.covered k p i hk hc hmoved

variable [DecidableEq ι]

/-- A new store takes off, apart from the others. -/
theorem takeOff (h : Overlay base m flying) (hk : flying k = none)
    (hmoved : ∀ j, p.moved j = false)
    (hapart : ∀ k' p' i, flying k' = some p' → p'.Covers i → ¬ p.Covers i) :
    Overlay base m (update flying k (some p)) := by
  -- an address the new store covers is covered by no other one
  have hother : ∀ k' p', update flying k (some p) k' = some p' →
      (k' = k ∧ p' = p) ∨ (k' ≠ k ∧ flying k' = some p') := by
    intro k' p' hk'
    by_cases e : k' = k
    · subst e
      rw [update_self] at hk'
      exact .inl ⟨rfl, (Option.some.inj hk').symm⟩
    · rw [update_of_ne e] at hk'
      exact .inr ⟨e, hk'⟩
  refine ⟨?_, ?_, ?_⟩
  · intro i hi
    refine h.under i ?_
    intro k' p' hk' hc
    have hne : k' ≠ k := by
      rintro rfl
      cases hk.symm.trans hk'
    exact hi k' p' (by rw [update_of_ne hne]; exact hk') hc
  · intro k' p' i hk' hc hm
    rcases hother k' p' hk' with ⟨-, rfl⟩ | ⟨-, hold⟩
    · cases (hmoved _).symm.trans hm
    · exact h.covered k' p' i hold hc hm
  · intro k₁ k₂ p₁ p₂ i hk₁ hk₂ hc₁ hc₂
    rcases hother k₁ p₁ hk₁ with ⟨rfl, rfl⟩ | ⟨-, h₁⟩ <;>
      rcases hother k₂ p₂ hk₂ with ⟨rfl, rfl⟩ | ⟨-, h₂⟩
    · rfl
    · exact absurd hc₁ (hapart k₂ p₂ i h₂ hc₂)
    · exact absurd hc₂ (hapart k₁ p₁ i h₁ hc₁)
    · exact h.apart k₁ k₂ p₁ p₂ i h₁ h₂ hc₁ hc₂

/-- One piece of a store in flight. -/
theorem move (h : Overlay base m flying) (hk : flying k = some p) {lo n : Nat}
    (hin : lo + n ≤ p.size) : Overlay base (m.copy (p.off + lo) p.src lo n)
      (update flying k (some { p with moved := movedPiece p.moved lo n })) := by
  -- the piece lies inside the range of this store
  have hcover : ∀ i, p.off + lo ≤ i → i < p.off + lo + n → p.Covers i := by
    intro i h₁ h₂
    exact ⟨by omega, by omega⟩
  refine ⟨?_, ?_, ?_⟩
  · intro i hi
    have hout : i < p.off + lo ∨ p.off + lo + n ≤ i := by
      by_contra hin'
      have hc := hcover i (by omega) (by omega)
      have hm := hi k _ (update_self _ _ _) hc
      have hpos : (decide (lo ≤ i - p.off) && decide (i - p.off < lo + n)) = true := by
        simp only [Bool.and_eq_true, decide_eq_true_eq]
        omega
      simp only [movedPiece, hpos, Bool.true_or] at hm
      cases hm
    rw [ByteMem.copy_outside _ _ _ _ hout]
    refine h.under i ?_
    intro k' p' hk' hc
    by_cases e : k' = k
    · subst e
      cases hk.symm.trans hk'
      have hm := hi k' _ (update_self _ _ _) hc
      exact (Bool.or_eq_false_iff.mp hm).2
    · exact hi k' p' (by rw [update_of_ne e]; exact hk') hc
  · intro k' p' i hk' hc hm
    by_cases e : k' = k
    · subst e
      rw [update_self] at hk'
      cases hk'
      have hc' : p.Covers i := hc
      by_cases hpos : lo ≤ i - p.off ∧ i - p.off < lo + n
      · obtain ⟨j, hj⟩ : ∃ j, i = p.off + lo + j := ⟨i - p.off - lo, by
          have := hc'.1
          omega⟩
        subst hj
        have hj' : j < n := by omega
        have hpos' : p.off + lo + j - p.off = lo + j := by omega
        show _ = p.src (p.off + lo + j - p.off)
        rw [ByteMem.copy_inside _ _ _ _ hj', hpos']
      · have hout : i < p.off + lo ∨ p.off + lo + n ≤ i := by
          have := hc'.1
          omega
        rw [ByteMem.copy_outside _ _ _ _ hout]
        refine h.covered k' p i hk hc' ?_
        rcases Bool.or_eq_true_iff.mp hm with hm | hm
        · simp only [Bool.and_eq_true, decide_eq_true_eq] at hm
          exact absurd hm hpos
        · exact hm
    · rw [update_of_ne e] at hk'
      -- the piece is not in the range of another store
      have hout : i < p.off + lo ∨ p.off + lo + n ≤ i := by
        by_contra hin'
        exact e (h.apart k' k p' p i hk' hk hc (hcover i (by omega) (by omega)))
      rw [ByteMem.copy_outside _ _ _ _ hout]
      exact h.covered k' p' i hk' hc hm
  · have hold : ∀ k' p', update flying k (some { p with moved := movedPiece p.moved lo n }) k' =
        some p' → ∃ q, flying k' = some q ∧ ∀ i, p'.Covers i → q.Covers i := by
      intro k' p' hk'
      by_cases e : k' = k
      · subst e
        rw [update_self] at hk'
        cases hk'
        exact ⟨p, hk, fun _ hc => hc⟩
      · rw [update_of_ne e] at hk'
        exact ⟨p', hk', fun _ hc => hc⟩
    intro k₁ k₂ p₁ p₂ i hk₁ hk₂ hc₁ hc₂
    obtain ⟨q₁, h₁, hq₁⟩ := hold k₁ p₁ hk₁
    obtain ⟨q₂, h₂, hq₂⟩ := hold k₂ p₂ hk₂
    exact h.apart k₁ k₂ q₁ q₂ i h₁ h₂ (hq₁ i hc₁) (hq₂ i hc₂)

/-- What is in flight after one store has ended was in flight before. -/
theorem flying_of_end {k' : ι} {p' : Flight} (h : update flying k none k' = some p') :
    k' ≠ k ∧ flying k' = some p' := by
  by_cases e : k' = k
  · subst e
    rw [update_self] at h
    cases h
  · rw [update_of_ne e] at h
    exact ⟨e, h⟩

/-- A store ends: what is left to say is which base is seen without it. -/
theorem ended {base' : ByteMem} (h : Overlay base m flying)
    (hbase : ∀ i, (∀ k' p', update flying k none k' = some p' → p'.Covers i →
      p'.moved (i - p'.off) = false) → m i = base' i) :
    Overlay base' m (update flying k none) := by
  refine ⟨hbase, ?_, ?_⟩
  · intro k' p' i hk'
    exact h.covered k' p' i (flying_of_end hk').2
  · intro k₁ k₂ p₁ p₂ i hk₁ hk₂
    exact h.apart k₁ k₂ p₁ p₂ i (flying_of_end hk₁).2 (flying_of_end hk₂).2

/-- A store lands when all its pieces have been moved. -/
theorem land (h : Overlay base m flying) (hk : flying k = some p)
    (hall : ∀ j < p.size, p.moved j = true) :
    Overlay (base.store p.off (p.src.load 0 p.size)) m (update flying k none) := by
  refine h.ended ?_
  intro i hi
  by_cases hc : p.Covers i
  · obtain ⟨j, rfl⟩ := Nat.exists_eq_add_of_le hc.1
    have hj : j < p.size := by
      have := hc.2
      omega
    rw [ByteMem.store_inside _ _ (by rwa [ByteMem.length_load]), ByteMem.getD_load _ _ hj,
      Nat.zero_add]
    have hover := h.covered k p _ hk hc
    rw [Nat.add_sub_cancel_left] at hover
    exact hover (hall j hj)
  · have hout : i < p.off ∨ p.off + (p.src.load 0 p.size).length ≤ i := by
      rw [ByteMem.length_load]
      by_contra hin
      exact hc ⟨by omega, by omega⟩
    rw [ByteMem.store_outside _ hout]
    refine h.under i ?_
    intro k' p' hk' hc'
    by_cases e : k' = k
    · subst e
      cases hk.symm.trans hk'
      exact absurd hc' hc
    · exact hi k' p' (by rw [update_of_ne e]; exact hk') hc'

/-- A store is given up before any of its pieces has been moved. -/
theorem drop (h : Overlay base m flying) (hk : flying k = some p)
    (hnone : ∀ j < p.size, p.moved j = false) : Overlay base m (update flying k none) := by
  refine h.ended ?_
  intro i hi
  refine h.under i ?_
  intro k' p' hk' hc'
  by_cases e : k' = k
  · subst e
    cases hk.symm.trans hk'
    obtain ⟨hlo, hhi⟩ := hc'
    exact hnone _ (by omega)
  · exact hi k' p' (by rw [update_of_ne e]; exact hk') hc'

end Overlay

end DirectStorage
