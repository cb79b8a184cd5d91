/-
DirectStorage/Backend.lean

The ramdisk backend (`userspace-nbd/src/ramdisk_backend.c`): a zeroed block of
`size` bytes that the NBD server and the URMA worker both read and write, each
operation under the backend mutex.

C return codes are kept as integers, negative `errno` on failure.  A pointer
that the code compares with `NULL` is kept as its address (`base`) or as the
Boolean `bufNull`.  The outcomes of `pthread_mutex_init` and `memalign` are
arguments of `ramdiskBackendCreate`.

Main results: `validateRange_live` (the two unsigned comparisons are the
integer inequality `offset + len ≤ size`) and the one-equation descriptions
`read_live`, `write_live` and `zero_live` of the three operations on a live
backend.
-/
import DirectStorage.ByteMem
import DirectStorage.WordRange
import Mathlib.Tactic.Common

namespace DirectStorage

/-! ### errno values of Linux -/

@[simp] abbrev ENOENT : Int := 2
@[simp] abbrev EINTR : Int := 4
@[simp] abbrev EIO : Int := 5
@[simp] abbrev ENOMEM : Int := 12
@[simp] abbrev EFAULT : Int := 14
@[simp] abbrev EBUSY : Int := 16
@[simp] abbrev EEXIST : Int := 17
@[simp] abbrev ENODEV : Int := 19
@[simp] abbrev EINVAL : Int := 22
@[simp] abbrev ENOSPC : Int := 28
@[simp] abbrev EPIPE : Int := 32
@[simp] abbrev ERANGE : Int := 34
@[simp] abbrev ENAMETOOLONG : Int := 36
@[simp] abbrev EPROTO : Int := 71
@[simp] abbrev EOVERFLOW : Int := 75
@[simp] abbrev EOPNOTSUPP : Int := 95
@[simp] abbrev ESHUTDOWN : Int := 108
@[simp] abbrev ETIMEDOUT : Int := 110

/-! ### The backend object -/

/-- `struct ramdisk_backend`.  `base` is the address of the block (0 for
`NULL`), `mem` its content. -/
structure Backend where
  base : UInt64
  size : UInt64
  blockSize : UInt32
  initialized : Bool
  mem : ByteMem

/-- The backend after `memset(backend, 0, sizeof(*backend))`. -/
def Backend.cleared : Backend := ⟨0, 0, 0, false, ByteMem.zero⟩

/-- `RAMDISK_MAX_BLOCK_SIZE`. -/
def ramdiskMaxBlockSize : UInt32 := 1024 * 1024

def isPowerOfTwo (value : UInt32) : Bool :=
  value != 0 && (value &&& (value - 1)) == 0

def validateBlockSize (blockSize : UInt32) : Int :=
  if !isPowerOfTwo blockSize then -EINVAL
  else if blockSize < 512 || blockSize > ramdiskMaxBlockSize then -EINVAL
  else 0

/-- `ramdisk_backend_create`; `mutexRc` is the result of `pthread_mutex_init`
and `block` the address `memalign` returned (0 for `NULL`). -/
def ramdiskBackendCreate (size : UInt64) (blockSize : UInt32) (mutexRc : Int)
    (block : UInt64) : Int × Backend :=
  if size = 0 then (-EINVAL, Backend.cleared)
  else if validateBlockSize blockSize ≠ 0 then
    (validateBlockSize blockSize, Backend.cleared)
  else if mutexRc ≠ 0 then (-mutexRc, Backend.cleared)
  else if block = 0 then (-ENOMEM, Backend.cleared)
  else (0, ⟨block, size, blockSize, true, ByteMem.zero⟩)

/-- `ramdisk_backend_validate_range`. -/
def ramdiskBackendValidateRange (b : Backend) (offset len : UInt64) : Int :=
  if !b.initialized || b.base == 0 then -EINVAL
  else if offset > b.size then -ERANGE
  else if len > b.size - offset then -ERANGE
  else 0

/-- `ramdisk_backend_lock`; locking an initialised mutex succeeds. -/
def ramdiskBackendLock (b : Backend) : Int :=
  if !b.initialized then -EINVAL else 0

/-- `ramdisk_backend_read`: the return code and the bytes copied to `buf`. -/
def ramdiskBackendRead (b : Backend) (offset : UInt64) (bufNull : Bool)
    (len : UInt32) : Int × List UInt8 :=
  if bufNull then (-EINVAL, [])
  else
    let rc := ramdiskBackendValidateRange b offset len.toUInt64
    if rc ≠ 0 then (rc, [])
    else
      let rc := ramdiskBackendLock b
      if rc ≠ 0 then (rc, [])
      else (0, b.mem.load offset.toNat len.toNat)

/-- `ramdisk_backend_write`; `data` is the content of `buf`, of which the first
`len` bytes are copied. -/
def ramdiskBackendWrite (b : Backend) (offset : UInt64) (bufNull : Bool)
    (data : List UInt8) (len : UInt32) : Int × Backend :=
  if bufNull then (-EINVAL, b)
  else
    let rc := ramdiskBackendValidateRange b offset len.toUInt64
    if rc ≠ 0 then (rc, b)
    else
      let rc := ramdiskBackendLock b
      if rc ≠ 0 then (rc, b)
      else (0, { b with mem := b.mem.store offset.toNat (data.take len.toNat) })

/-- `ramdisk_backend_zero`. -/
def ramdiskBackendZero (b : Backend) (offset : UInt64) (len : UInt32) :
    Int × Backend :=
  let rc := ramdiskBackendValidateRange b offset len.toUInt64
  if rc ≠ 0 then (rc, b)
  else
    let rc := ramdiskBackendLock b
    if rc ≠ 0 then (rc, b)
    else (0, { b with mem := b.mem.fill offset.toNat len.toNat 0 })

/-- `ramdisk_backend_size`. -/
def ramdiskBackendSize (b : Backend) : UInt64 :=
  if !b.initialized then 0 else b.size

/-- `ramdisk_backend_block_size`. -/
def ramdiskBackendBlockSize (b : Backend) : UInt32 :=
  if !b.initialized then 0 else b.blockSize

/-! ### Live backends -/

/-- What `ramdisk_backend_create` establishes and the operations keep. -/
structure Backend.Live (b : Backend) : Prop where
  initialized : b.initialized = true
  base_ne : b.base ≠ 0
  size_ne : b.size ≠ 0
  block : validateBlockSize b.blockSize = 0

/-- A successful create returns a live, all-zero backend of the given size. -/
theorem create_live {size block : UInt64} {blockSize : UInt32} {mutexRc : Int}
    {b : Backend} (h : ramdiskBackendCreate size blockSize mutexRc block = (0, b)) :
    b.Live ∧ b.size = size ∧ b.blockSize = blockSize ∧ b.mem = ByteMem.zero := by
  unfold ramdiskBackendCreate at h
  split_ifs at h with h₁ h₂ h₃ h₄
  · simp at h
  · exact absurd (Prod.mk.inj h).1 h₂
  · have hrc : -mutexRc = 0 := (Prod.mk.inj h).1
    exact absurd (by omega) h₃
  · simp at h
  · obtain rfl := (Prod.mk.inj h).2
    exact ⟨⟨rfl, h₄, h₁, not_not.mp h₂⟩, rfl, rfl, rfl⟩

section LiveOperations

variable {b : Backend} (hb : b.Live)
include hb

/-- **The range check is exact**: the two unsigned comparisons decide
`offset + len ≤ size` over the integers. -/
theorem validateRange_live (offset len : UInt64) :
    ramdiskBackendValidateRange b offset len =
      if offset.toNat + len.toNat ≤ b.size.toNat then 0 else -ERANGE := by
  have hbase : (b.base == 0) = false := by simpa using hb.base_ne
  unfold ramdiskBackendValidateRange
  rw [hb.initialized, hbase]
  simp only [Bool.not_true, Bool.or_self, Bool.false_eq_true, if_false]
  have htest := rangeTest_iff offset len b.size
  by_cases hin : offset.toNat + len.toNat ≤ b.size.toNat
  · obtain ⟨hoff, hlen⟩ := not_or.mp fun h => htest.mp h hin
    rw [if_neg hoff, if_neg hlen, if_pos hin]
  · rw [if_neg hin]
    split_ifs with hoff hlen
    · rfl
    · rfl
    · exact absurd (htest.mpr hin) (not_or.mpr ⟨hoff, hlen⟩)

theorem lock_live : ramdiskBackendLock b = 0 := by
  simp [ramdiskBackendLock, hb.initialized]

/-- `ramdisk_backend_read` on a live backend and a non-`NULL` buffer. -/
theorem read_live (offset : UInt64) (len : UInt32) :
    ramdiskBackendRead b offset false len =
      if offset.toNat + len.toNat ≤ b.size.toNat
      then (0, b.mem.load offset.toNat len.toNat) else (-ERANGE, []) := by
  unfold ramdiskBackendRead
  simp only [Bool.false_eq_true, if_false, validateRange_live hb, lock_live hb,
    UInt32.toNat_toUInt64]
  split_ifs <;> simp_all

/-- `ramdisk_backend_write` on a live backend and a non-`NULL` buffer. -/
theorem write_live (offset : UInt64) (data : List UInt8) (len : UInt32) :
    ramdiskBackendWrite b offset false data len =
      if offset.toNat + len.toNat ≤ b.size.toNat
      then (0, { b with mem := b.mem.store offset.toNat (data.take len.toNat) })
      else (-ERANGE, b) := by
  unfold ramdiskBackendWrite
  simp only [Bool.false_eq_true, if_false, validateRange_live hb, lock_live hb,
    UInt32.toNat_toUInt64]
  split_ifs <;> simp_all

/-- `ramdisk_backend_zero` on a live backend. -/
theorem zero_live (offset : UInt64) (len : UInt32) :
    ramdiskBackendZero b offset len =
      if offset.toNat + len.toNat ≤ b.size.toNat
      then (0, { b with mem := b.mem.fill offset.toNat len.toNat 0 })
      else (-ERANGE, b) := by
  unfold ramdiskBackendZero
  simp only [validateRange_live hb, lock_live hb, UInt32.toNat_toUInt64]
  split_ifs <;> simp_all

/-- Liveness does not look at the content. -/
theorem Backend.Live.withMem (m : ByteMem) : ({ b with mem := m } : Backend).Live :=
  ⟨hb.initialized, hb.base_ne, hb.size_ne, hb.block⟩

end LiveOperations

end DirectStorage
