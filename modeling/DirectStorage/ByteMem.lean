/-
DirectStorage/ByteMem.lean

Byte memories.

A memory is a total function from offsets to bytes; the object it stands for
(a malloc'ed block, a device) has a length of its own, kept by whoever owns
it, and nothing is ever said about offsets at or beyond that length.  The
operations are those of C code on such a block: `load` and `store` move a
list of bytes out of and into a range, `fill` is `memset` and `copy` is
`memcpy` between two blocks.

Everything is stated pointwise, so that "and no other byte changed" is the
`else` branch of one equation.

`MappedAt` relates a block to an address space in which it has a base address.
Where several blocks are in play and code computes with pointers into them, a
`Heap` has one memory for each block and a `Ptr` is a block and an offset.
-/
import Mathlib.Tactic.Common
import Mathlib.Data.List.GetD

namespace DirectStorage

/-- A byte memory. -/
abbrev ByteMem := Nat → UInt8

namespace ByteMem

/-- The all-zero memory. -/
def zero : ByteMem := fun _ => 0

/-- The `len` bytes from `off` on. -/
def load (m : ByteMem) (off len : Nat) : List UInt8 :=
  (List.range len).map fun i => m (off + i)

/-- Overwrite the bytes from `off` on by `data`. -/
def store (m : ByteMem) (off : Nat) (data : List UInt8) : ByteMem := fun i =>
  if off ≤ i ∧ i < off + data.length then data.getD (i - off) 0 else m i

/-- Set `len` bytes from `off` on to `v`. -/
def fill (m : ByteMem) (off len : Nat) (v : UInt8) : ByteMem := fun i =>
  if off ≤ i ∧ i < off + len then v else m i

/-- Copy `len` bytes of `src` from `sOff` on over the bytes of `dst` from
`dOff` on. -/
def copy (dst : ByteMem) (dOff : Nat) (src : ByteMem) (sOff len : Nat) :
    ByteMem := fun i =>
  if dOff ≤ i ∧ i < dOff + len then src (sOff + (i - dOff)) else dst i

variable {m : ByteMem} {off len i : Nat} {d : List UInt8}

/-! ### Loads -/

@[simp] theorem length_load (m : ByteMem) (off len : Nat) :
    (m.load off len).length = len := by
  simp [load]

theorem getD_load (m : ByteMem) (off : Nat) {len i : Nat} (hi : i < len) :
    (m.load off len).getD i 0 = m (off + i) := by
  simp [load, hi]

@[simp] theorem load_zero (m : ByteMem) (off : Nat) : m.load off 0 = [] := rfl

theorem load_add (m : ByteMem) (off a b : Nat) :
    m.load off (a + b) = m.load off a ++ m.load (off + a) b := by
  simp [load, List.range_add, Nat.add_assoc, Function.comp_def]

/-! ### Stores -/

theorem store_inside (m : ByteMem) (off : Nat) (hi : i < d.length) :
    m.store off d (off + i) = d.getD i 0 := by
  simp [store, hi]

theorem store_outside (m : ByteMem) (h : i < off ∨ off + d.length ≤ i) :
    m.store off d i = m i := by
  rw [store, if_neg (by omega)]

@[simp] theorem store_nil (m : ByteMem) (off : Nat) : m.store off [] = m := by
  funext i
  exact store_outside m (by simp; omega)

/-- Reading back what was just stored. -/
theorem load_store_self (m : ByteMem) (off : Nat) (d : List UInt8) :
    (m.store off d).load off d.length = d := by
  refine List.ext_getElem (by simp) fun i h₁ h₂ => ?_
  simp only [load, List.getElem_map, List.getElem_range]
  rw [store_inside m off h₂, List.getD_eq_getElem _ _ h₂]

/-- Two adjacent stores are one store. -/
theorem store_append (m : ByteMem) (off : Nat) (a b : List UInt8) :
    m.store off (a ++ b) = (m.store off a).store (off + a.length) b := by
  funext i
  by_cases hb : off + a.length ≤ i ∧ i < off + a.length + b.length
  · obtain ⟨j, rfl⟩ := Nat.exists_eq_add_of_le hb.1
    have hj : j < b.length := by omega
    rw [store_inside _ _ hj, Nat.add_assoc,
      store_inside m off (by rw [List.length_append]; omega)]
    rw [List.getD_append_right _ _ _ _ (by omega)]
    simp
  · rw [store_outside (m.store off a) (d := b) (by omega)]
    by_cases ha : off ≤ i ∧ i < off + a.length
    · obtain ⟨j, rfl⟩ := Nat.exists_eq_add_of_le ha.1
      have hj : j < a.length := by omega
      rw [store_inside m off hj,
        store_inside m off (by rw [List.length_append]; omega),
        List.getD_append _ _ _ _ hj]
    · rw [store_outside m (d := a) (by omega),
        store_outside m (by rw [List.length_append]; omega)]

/-- A store writes back what is already there without effect. -/
theorem store_eq_self_iff (m : ByteMem) (off : Nat) (d : List UInt8) :
    m.store off d = m ↔ m.load off d.length = d := by
  constructor
  · intro h
    have := load_store_self m off d
    rwa [h] at this
  · intro h
    funext i
    by_cases hi : off ≤ i ∧ i < off + d.length
    · obtain ⟨j, rfl⟩ := Nat.exists_eq_add_of_le hi.1
      have hj : j < d.length := by omega
      rw [store_inside m off hj, ← getD_load m off hj, h]
    · exact store_outside m (by omega)

/-! ### Copies -/

theorem copy_inside (dst src : ByteMem) (dOff sOff : Nat) (hi : i < len) :
    dst.copy dOff src sOff len (dOff + i) = src (sOff + i) := by
  simp [copy, hi]

theorem copy_outside (dst src : ByteMem) (dOff sOff : Nat)
    (h : i < dOff ∨ dOff + len ≤ i) : dst.copy dOff src sOff len i = dst i := by
  rw [copy, if_neg (by omega)]

/-- A copy stores what it loads. -/
theorem copy_eq_store (dst src : ByteMem) (dOff sOff len : Nat) :
    dst.copy dOff src sOff len = dst.store dOff (src.load sOff len) := by
  funext i
  by_cases hi : dOff ≤ i ∧ i < dOff + len
  · obtain ⟨j, rfl⟩ := Nat.exists_eq_add_of_le hi.1
    have hj : j < len := by omega
    rw [copy_inside _ _ _ _ hj, store_inside _ _ (by rwa [length_load]), getD_load _ _ hj]
  · have hout : i < dOff ∨ dOff + len ≤ i := by omega
    rw [copy_outside _ _ _ _ hout, store_outside _ (by rwa [length_load])]

/-- `memset` stores copies of one byte. -/
theorem fill_eq_store (m : ByteMem) (off len : Nat) (v : UInt8) :
    m.fill off len v = m.store off (List.replicate len v) := by
  funext i
  simp only [fill, store, List.length_replicate]
  split_ifs with hi
  · rw [List.getD_eq_getElem _ _ (by rw [List.length_replicate]; omega), List.getElem_replicate]
  · rfl

/-- A load sees the bytes of its range only. -/
theorem load_congr {m' : ByteMem} (h : ∀ i, off ≤ i → i < off + len → m i = m' i) :
    m.load off len = m'.load off len := by
  refine List.map_congr_left ?_
  intro j hj
  have hj' := List.mem_range.mp hj
  exact h _ (Nat.le_add_right _ _) (by omega)

/-! ### Memories seen through an address map -/

/-- The memory `view` is what one sees of `m` when address `q` of the view is
kept at `φ q`. -/
def SeenThrough (φ : Nat → Nat) (m view : ByteMem) : Prop := ∀ q, m (φ q) = view q

/-- The map takes the `len` addresses from `off` on to those from `base` on. -/
def Contiguous (φ : Nat → Nat) (off base len : Nat) : Prop := ∀ j < len, φ (off + j) = base + j

variable {φ : Nat → Nat} {view : ByteMem} {base : Nat}

/-- Storing a contiguous range through an injective map stores it in the
view. -/
theorem SeenThrough.store (h : SeenThrough φ m view) (hφ : Function.Injective φ)
    (hc : Contiguous φ off base d.length) :
    SeenThrough φ (m.store base d) (view.store off d) := by
  intro q
  by_cases hq : off ≤ q ∧ q < off + d.length
  · obtain ⟨j, rfl⟩ := Nat.exists_eq_add_of_le hq.1
    have hj : j < d.length := by omega
    rw [hc j hj, store_inside _ _ hj, store_inside _ _ hj]
  · -- an address outside the range is not kept inside `[base, base + d.length)`
    have hout : φ q < base ∨ base + d.length ≤ φ q := by
      by_contra hin
      have hj : φ q - base < d.length := by omega
      have heq : φ (off + (φ q - base)) = φ q := by
        rw [hc _ hj]
        omega
      have := hφ heq
      omega
    rw [store_outside _ hout, store_outside _ (by omega)]
    exact h q

/-- Loading a contiguous range loads it from the view. -/
theorem SeenThrough.load (h : SeenThrough φ m view) (hc : Contiguous φ off base len) :
    m.load base len = view.load off len := by
  refine List.map_congr_left ?_
  intro j hj
  rw [← hc j (List.mem_range.mp hj)]
  exact h _

/-! ### A block inside an address space -/

/-- The `len` bytes of the block `m` stand at address `base` of `space`. -/
def MappedAt (space : ByteMem) (base len : Nat) (m : ByteMem) : Prop :=
  ∀ i < len, space (base + i) = m i

/-- A copy between two address spaces is the copy between the blocks. -/
theorem MappedAt.copy {dst src m m' : ByteMem} {base base' n n' dOff sOff len : Nat}
    (hd : MappedAt dst base n m) (hs : MappedAt src base' n' m') (hsrc : sOff + len ≤ n') :
    MappedAt (dst.copy (base + dOff) src (base' + sOff) len) base n
      (m.copy dOff m' sOff len) := by
  intro i hi
  by_cases hin : dOff ≤ i ∧ i < dOff + len
  · obtain ⟨j, rfl⟩ := Nat.exists_eq_add_of_le hin.1
    have hj : j < len := by omega
    rw [← Nat.add_assoc, copy_inside _ _ _ _ hj, copy_inside _ _ _ _ hj, Nat.add_assoc]
    exact hs _ (by omega)
  · rw [copy_outside _ _ _ _ (by omega), copy_outside _ _ _ _ (by omega)]
    exact hd i hi

end ByteMem

/-! ### Several blocks -/

/-- A block of memory; block 0 is where `NULL` points. -/
abbrev BlockId := Nat

/-- The contents of all blocks. -/
abbrev Heap := BlockId → ByteMem

/-- A pointer into a block. -/
structure Ptr where
  block : BlockId
  off : Nat
  deriving DecidableEq

/-- The `NULL` pointer. -/
def Ptr.null : Ptr := ⟨0, 0⟩

/-- `p + n`. -/
def Ptr.add (p : Ptr) (n : Nat) : Ptr := ⟨p.block, p.off + n⟩

namespace Heap

/-- `memcpy(dst, src, len)`. -/
def memcpy (h : Heap) (dst src : Ptr) (len : Nat) : Heap :=
  Function.update h dst.block ((h dst.block).copy dst.off (h src.block) src.off len)

/-- `memset(dst, v, len)`. -/
def memset (h : Heap) (dst : Ptr) (v : UInt8) (len : Nat) : Heap :=
  Function.update h dst.block ((h dst.block).fill dst.off len v)

theorem memcpy_self (h : Heap) (dst src : Ptr) (len : Nat) :
    h.memcpy dst src len dst.block = (h dst.block).copy dst.off (h src.block) src.off len :=
  Function.update_self _ _ _

theorem memcpy_of_ne (h : Heap) (dst src : Ptr) (len : Nat) {b : BlockId} (hb : b ≠ dst.block) :
    h.memcpy dst src len b = h b :=
  Function.update_of_ne hb _ _

end Heap

end DirectStorage
