/-
DirectStorage/Blkdev.lean

The block-layer side of the two kernel ramdisk drivers
(`kernel/rdma_blkdev.c` and `kernel-urma/urma_blkdev.c`): `queue_rq` and the
capacity given to `set_capacity`.

The two `queue_rq` functions have the same body, so there is one definition,
`queueRq`, and each driver's function is that definition.  A request carries
the content of its segments: what is written, or what the pages held before a
read.  `blk_rq_bytes` is an unsigned 32-bit number, which is why a request
has fewer than `2 ^ 32` bytes.

The end of the range is computed modulo `2 ^ 64`, so a range that wraps around
passes the check.  Its copies then leave the ramdisk, and the kernel faults before
the request is ended (`RqResult.faulted`).

Main results: `queueRq_write` and `queueRq_read`, which describe an accepted
request by one store or one load.
-/
import DirectStorage.Backend
import Mathlib.Algebra.Group.Nat.Defs

namespace DirectStorage

namespace Blkdev

/-! ### Requests -/

/-- `rq_data_dir`. -/
inductive Dir
  | read
  | write
  deriving DecidableEq

/-- The `blk_status_t` values the drivers use. -/
inductive BlkStatus
  | ok
  | ioerr
  deriving DecidableEq

/-- A `struct request` as `queue_rq` sees it. -/
structure Rq where
  dir : Dir
  /-- `blk_rq_pos`, in sectors of 512 bytes. -/
  pos : UInt64
  /-- The contents of the segments. -/
  bvecs : List (List UInt8)
  bytes_lt : bvecs.flatten.length < 2 ^ 32

/-- The bytes of a request. -/
def Rq.bytes (rq : Rq) : Nat := rq.bvecs.flatten.length

/-- `blk_rq_bytes`. -/
def blkRqBytes (rq : Rq) : UInt32 := UInt32.ofNat rq.bytes

theorem toNat_blkRqBytes (rq : Rq) : (blkRqBytes rq).toNat = rq.bytes :=
  UInt32.toNat_ofNat_of_lt' rq.bytes_lt

/-- What `queue_rq` leaves behind: its return value, the ramdisk, the segments,
the ramdisk ranges (offset and length) it copied and the statuses it ended the
request with. -/
structure RqResult where
  status : BlkStatus
  mem : ByteMem
  bvecs : List (List UInt8)
  copied : List (Nat × Nat)
  /-- A copy leaves the ramdisk: the kernel faults there, the request is not ended and
  `queue_rq` does not return. -/
  faulted : Bool
  ended : List BlkStatus

/-! ### `queue_rq` -/

/-- The `rq_for_each_segment` loop; `base` is the offset of `base_addr`. -/
def rqForEachSegment (dir : Dir) (mem : ByteMem) (base : Nat) :
    List (List UInt8) → ByteMem × List (List UInt8) × List (Nat × Nat)
  | [] => (mem, [], [])
  | bvec :: rest =>
      match dir with
      | .write =>
          let (mem', bvecs, copied) :=
            rqForEachSegment dir (mem.store base bvec) (base + bvec.length) rest
          (mem', bvec :: bvecs, (base, bvec.length) :: copied)
      | .read =>
          let (mem', bvecs, copied) :=
            rqForEachSegment dir mem (base + bvec.length) rest
          (mem', mem.load base bvec.length :: bvecs, (base, bvec.length) :: copied)

/-- Some of the ranges, unless it is empty, ends beyond the ramdisk. -/
def leavesRamdisk (ramdiskSize : UInt64) (ranges : List (Nat × Nat)) : Bool :=
  ranges.any fun r => r.2 != 0 && decide (ramdiskSize.toNat < r.1 + r.2)

/-- The common body of `urma_blkdev_queue_rq` and `rdma_blkdev_queue_rq`. -/
def queueRq (logicalBlockSize : UInt32) (ramdiskSize : UInt64) (mem : ByteMem) (rq : Rq) :
    RqResult :=
  let sector := rq.pos
  let base := sector * logicalBlockSize.toUInt64
  if base + (blkRqBytes rq).toUInt64 > ramdiskSize then
    ⟨.ioerr, mem, rq.bvecs, [], false, [.ioerr]⟩
  else
    let (mem', bvecs, copied) := rqForEachSegment rq.dir mem base.toNat rq.bvecs
    let faulted := leavesRamdisk ramdiskSize copied
    ⟨.ok, mem', bvecs, copied, faulted, if faulted then [] else [.ok]⟩

def urmaBlkdevQueueRq := queueRq

def rdmaBlkdevQueueRq := queueRq

/-- The two drivers. -/
inductive Driver
  | urma
  | rdma

def Driver.queueRq : Driver → UInt32 → UInt64 → ByteMem → Rq → RqResult
  | .urma => urmaBlkdevQueueRq
  | .rdma => rdmaBlkdevQueueRq

theorem Driver.queueRq_eq (d : Driver) : d.queueRq = Blkdev.queueRq := by
  cases d <;> rfl

/-! ### Geometry -/

/-- The capacity, in sectors, that `urma_blkdev_alloc_disk` and
`rdma_blkdev_alloc_disk` pass to `set_capacity`. -/
def diskCapacity (logicalBlockSize : UInt32) (ramdiskSize : UInt64) : UInt64 :=
  ramdiskSize / logicalBlockSize.toUInt64

/-! ### The loop -/

/-- A write stores all segments, one after the other. -/
theorem rqForEachSegment_write (mem : ByteMem) (base : Nat) (bvecs : List (List UInt8)) :
    (rqForEachSegment .write mem base bvecs).1 = mem.store base bvecs.flatten ∧
      (rqForEachSegment .write mem base bvecs).2.1 = bvecs := by
  induction bvecs generalizing mem base with
  | nil => exact ⟨(ByteMem.store_nil mem base).symm, rfl⟩
  | cons bvec rest ih =>
      obtain ⟨hmem, hbvecs⟩ := ih (mem.store base bvec) (base + bvec.length)
      refine ⟨?_, ?_⟩
      · rw [List.flatten_cons, ByteMem.store_append]
        exact hmem
      · exact congrArg (bvec :: ·) hbvecs

/-- A read loads all segments and leaves the ramdisk alone. -/
theorem rqForEachSegment_read (mem : ByteMem) (base : Nat) (bvecs : List (List UInt8)) :
    (rqForEachSegment .read mem base bvecs).1 = mem ∧
      (rqForEachSegment .read mem base bvecs).2.1.flatten =
        mem.load base bvecs.flatten.length := by
  induction bvecs generalizing base with
  | nil => exact ⟨rfl, rfl⟩
  | cons bvec rest ih =>
      obtain ⟨hmem, hbvecs⟩ := ih (base + bvec.length)
      refine ⟨hmem, ?_⟩
      rw [List.flatten_cons, List.length_append, ByteMem.load_add]
      exact congrArg (mem.load base bvec.length ++ ·) hbvecs

/-- The copied ranges are adjacent and start at `base`: together they are the
range of the whole request. -/
theorem rqForEachSegment_copied (dir : Dir) (mem : ByteMem) (base : Nat)
    (bvecs : List (List UInt8)) (b : Nat) :
    (∃ r ∈ (rqForEachSegment dir mem base bvecs).2.2, r.1 ≤ b ∧ b < r.1 + r.2) ↔
      base ≤ b ∧ b < base + bvecs.flatten.length := by
  induction bvecs generalizing mem base with
  | nil =>
      constructor
      · rintro ⟨r, hr, -⟩
        cases hr
      · rintro ⟨h₁, h₂⟩
        exact absurd h₂ (Nat.not_lt.mpr h₁)
  | cons bvec rest ih =>
      -- in both directions the rest starts where this segment ends
      have hsplit : ∀ mem', (∃ r ∈ (base, bvec.length) ::
          (rqForEachSegment dir mem' (base + bvec.length) rest).2.2, r.1 ≤ b ∧ b < r.1 + r.2) ↔
          base ≤ b ∧ b < base + (bvec :: rest).flatten.length := by
        intro mem'
        have hrest := ih mem' (base + bvec.length)
        simp only [List.mem_cons, exists_eq_or_imp, List.flatten_cons, List.length_append, hrest]
        omega
      cases dir with
      | write => exact hsplit _
      | read => exact hsplit _

/-- The copies leave the ramdisk exactly if there is something to copy beyond its
end. -/
theorem leavesRamdisk_iff (dir : Dir) (mem : ByteMem) (base : Nat) (bvecs : List (List UInt8))
    (size : UInt64) :
    leavesRamdisk size (rqForEachSegment dir mem base bvecs).2.2 = true ↔
      bvecs.flatten.length ≠ 0 ∧ size.toNat < base + bvecs.flatten.length := by
  have hcopied := rqForEachSegment_copied dir mem base bvecs
  simp only [leavesRamdisk, List.any_eq_true, Bool.and_eq_true, bne_iff_ne, decide_eq_true_eq]
  constructor
  · rintro ⟨r, hr, hne, hlt⟩
    -- the last byte of the range is one of the request
    obtain ⟨-, hlast⟩ := (hcopied (r.1 + r.2 - 1)).mp ⟨r, hr, by omega, by omega⟩
    obtain ⟨hfirst, -⟩ := (hcopied r.1).mp ⟨r, hr, Nat.le_refl _, by omega⟩
    omega
  · rintro ⟨hne, hlt⟩
    obtain ⟨r, hr, hle, hlt'⟩ := (hcopied (base + bvecs.flatten.length - 1)).mpr (by omega)
    exact ⟨r, hr, by omega, by omega⟩

/-! ### Accepted requests -/

section Accepted

variable {lbs : UInt32} {size : UInt64} {rq : Rq}

/-- The range check, when neither the product nor the sum wraps. -/
theorem queueRq_accepts (h : rq.pos.toNat * lbs.toNat + rq.bytes ≤ size.toNat) :
    (rq.pos * lbs.toUInt64).toNat = rq.pos.toNat * lbs.toNat ∧
      ¬ rq.pos * lbs.toUInt64 + (blkRqBytes rq).toUInt64 > size := by
  have hsize := size.toNat_lt
  have hmul : (rq.pos * lbs.toUInt64).toNat = rq.pos.toNat * lbs.toNat := by
    rw [UInt64.toNat_mul, UInt32.toNat_toUInt64, Nat.mod_eq_of_lt (by omega)]
  refine ⟨hmul, ?_⟩
  rw [gt_iff_lt, UInt64.lt_iff_toNat_lt, UInt64.toNat_add, hmul, UInt32.toNat_toUInt64,
    toNat_blkRqBytes, Nat.mod_eq_of_lt (by omega)]
  omega

/-- An accepted write is one store. -/
theorem queueRq_write (mem : ByteMem) (hdir : rq.dir = .write)
    (h : rq.pos.toNat * lbs.toNat + rq.bytes ≤ size.toNat) :
    (queueRq lbs size mem rq).status = .ok ∧
      (queueRq lbs size mem rq).mem =
        mem.store (rq.pos.toNat * lbs.toNat) rq.bvecs.flatten := by
  obtain ⟨hbase, hfits⟩ := queueRq_accepts h
  unfold queueRq
  dsimp only
  rw [if_neg hfits, hdir, hbase]
  exact ⟨rfl, (rqForEachSegment_write _ _ _).1⟩

/-- An accepted read is one load. -/
theorem queueRq_read (mem : ByteMem) (hdir : rq.dir = .read)
    (h : rq.pos.toNat * lbs.toNat + rq.bytes ≤ size.toNat) :
    (queueRq lbs size mem rq).status = .ok ∧ (queueRq lbs size mem rq).mem = mem ∧
      (queueRq lbs size mem rq).bvecs.flatten =
        mem.load (rq.pos.toNat * lbs.toNat) rq.bytes := by
  obtain ⟨hbase, hfits⟩ := queueRq_accepts h
  unfold queueRq
  dsimp only
  rw [if_neg hfits, hdir, hbase]
  exact ⟨rfl, rqForEachSegment_read _ _ _⟩

end Accepted

end Blkdev

end DirectStorage
