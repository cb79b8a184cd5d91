/-
DirectStorage/WordRange.lean

Range tests on 64-bit words.

C code that must not overflow tests a range against a size without adding:

    off > size || len > size - off

Each comparison alone means little, because the subtraction wraps; together
they are one inequality over the integers (`rangeTest_iff`).  Read with `off`
and `len` exchanged it also covers the other order of the two tests.

`modTest_iff` is the alignment test `n % m == 0`.
-/
import Mathlib.Tactic.Common

namespace DirectStorage

/-- **The two comparisons of a range with a size are one inequality over the
integers.** -/
theorem rangeTest_iff (off len size : UInt64) :
    (off > size ∨ len > size - off) ↔ ¬ off.toNat + len.toNat ≤ size.toNat := by
  rw [gt_iff_lt, gt_iff_lt, UInt64.lt_iff_toNat_lt, UInt64.lt_iff_toNat_lt]
  by_cases hle : size.toNat < off.toNat
  · exact iff_of_true (.inl hle) (by omega)
  · rw [UInt64.toNat_sub_of_le _ _ (UInt64.le_iff_toNat_le.mpr (Nat.not_lt.mp hle))]
    omega

/-- An unsigned remainder is 0 exactly when the divisor divides. -/
theorem modTest_iff (n m : UInt64) : n % m = 0 ↔ m.toNat ∣ n.toNat := by
  rw [Nat.dvd_iff_mod_eq_zero, ← UInt64.toNat_mod, ← UInt64.toNat_inj]
  rfl

end DirectStorage
