/-
DirectStorage/BlkdevBounds.lean

The range check of `queue_rq`, and how a request ends.

A request inside the capacity that was given to `set_capacity` starts inside the
ramdisk, whatever the block size, so the 64-bit sum of the range check does not
wrap; a request that passes the check copies the bytes of its range, each once
and in segment order.

A block request has to be ended exactly once.  The driver ends it with
`blk_mq_end_request`, and blk-mq ends it itself when `queue_rq` returns a status
other than `BLK_STS_OK` or a resource-busy one.  On the out-of-range exit both
`queue_rq` functions call `blk_mq_end_request` and return `BLK_STS_IOERR`, so a
request that fails the range check is ended twice.  A request that passes it because
the end of its range wraps around is not ended at all: its copies leave the ramdisk.

Main results: `inCapacity_copies`; `endedOnce_iff`, and a request inside the
announced capacity that is ended twice (`endedTwice_inCapacity`).
-/
import DirectStorage.BlkdevMap
import DirectStorage.BlkdevStore

namespace DirectStorage

namespace Blkdev

variable {lbs : UInt32} {size : UInt64} {rq : Rq}

/-! ### The range check -/

/-- The range check of `queue_rq` lets the request pass: the end of its range,
computed modulo `2 ^ 64`, is not beyond the ramdisk. -/
def PassesCheck (lbs : UInt32) (size : UInt64) (rq : Rq) : Prop :=
  (rq.pos.toNat * lbs.toNat + rq.bytes) % 2 ^ 64 ≤ size.toNat

instance : Decidable (PassesCheck lbs size rq) := inferInstanceAs (Decidable (_ ≤ _))

theorem queueRq_check_iff :
    rq.pos * lbs.toUInt64 + (blkRqBytes rq).toUInt64 > size ↔ ¬ PassesCheck lbs size rq := by
  unfold PassesCheck
  rw [gt_iff_lt, UInt64.lt_iff_toNat_lt, UInt64.toNat_add, UInt64.toNat_mul,
    UInt32.toNat_toUInt64, UInt32.toNat_toUInt64, toNat_blkRqBytes, Nat.not_le, Nat.mod_add_mod]

/-- The range that `queue_rq` copies, from the product modulo `2 ^ 64` on, lies inside
the ramdisk. -/
def RangeInside (lbs : UInt32) (size : UInt64) (rq : Rq) : Prop :=
  rq.pos.toNat * lbs.toNat % 2 ^ 64 + rq.bytes ≤ size.toNat

instance : Decidable (RangeInside lbs size rq) := inferInstanceAs (Decidable (_ ≤ _))

/-- A range inside the ramdisk does not wrap around. -/
theorem RangeInside.passesCheck (h : RangeInside lbs size rq) : PassesCheck lbs size rq := by
  have hsize := size.toNat_lt
  unfold RangeInside at h
  rw [PassesCheck, ← Nat.mod_add_mod, Nat.mod_eq_of_lt (by omega)]
  exact h

theorem queueRq_refused (mem : ByteMem) (h : ¬ PassesCheck lbs size rq) :
    queueRq lbs size mem rq = ⟨.ioerr, mem, rq.bvecs, [], false, [.ioerr]⟩ :=
  if_pos (queueRq_check_iff.mpr h)

/-- What a request that passes the check is ended with, and what `queue_rq` returns for
it: it faults if the range wraps around. -/
theorem queueRq_passed (mem : ByteMem) (h : PassesCheck lbs size rq) :
    (queueRq lbs size mem rq).status = .ok ∧
      ((queueRq lbs size mem rq).faulted = true ↔ ¬ RangeInside lbs size rq) ∧
      (queueRq lbs size mem rq).ended =
        if (queueRq lbs size mem rq).faulted then [] else [.ok] := by
  have hcheck : ¬ rq.pos * lbs.toUInt64 + (blkRqBytes rq).toUInt64 > size := by
    rw [queueRq_check_iff]
    exact not_not.mpr h
  have hbase : (rq.pos * lbs.toUInt64).toNat = rq.pos.toNat * lbs.toNat % 2 ^ 64 := by
    rw [UInt64.toNat_mul, UInt32.toNat_toUInt64]
  have heq : queueRq lbs size mem rq =
      let r := rqForEachSegment rq.dir mem (rq.pos * lbs.toUInt64).toNat rq.bvecs
      ⟨.ok, r.1, r.2.1, r.2.2, leavesRamdisk size r.2.2,
        if leavesRamdisk size r.2.2 then [] else [.ok]⟩ :=
    if_neg hcheck
  rw [heq]
  refine ⟨rfl, ?_, rfl⟩
  dsimp only
  rw [leavesRamdisk_iff, hbase, RangeInside, Nat.not_le]
  refine ⟨And.right, fun hout => ⟨?_, hout⟩⟩
  -- an empty range that passes the check lies inside
  intro hzero
  have hbytes : rq.bytes = 0 := hzero
  rw [PassesCheck, hbytes, Nat.add_zero] at h
  rw [hbytes] at hout
  omega

/-! ### Requests inside the capacity -/

/-- The block layer may issue the request: it starts and ends, counted in
sectors of 512 bytes, inside the capacity given to `set_capacity`. -/
def InCapacity (lbs : UInt32) (size : UInt64) (rq : Rq) : Prop :=
  rq.pos.toNat + rq.bytes / 512 ≤ (diskCapacity lbs size).toNat

/-- The bytes of a list of ranges, in the order in which they are gone through. -/
def bytesOf (ranges : List (Nat × Nat)) : List Nat := ranges.flatMap fun r => List.range' r.1 r.2

/-- Neither the product nor the sum of the range check wraps: the start is at
most the size of the ramdisk, and a request has fewer than `2 ^ 32` bytes. -/
theorem InCapacity.no_wrap (hsize : size.toNat ≤ 2 ^ 63) (h : InCapacity lbs size rq) :
    rq.pos.toNat * lbs.toNat ≤ size.toNat ∧
      (rq.pos * lbs.toUInt64).toNat = rq.pos.toNat * lbs.toNat ∧
      (rq.pos * lbs.toUInt64 + (blkRqBytes rq).toUInt64).toNat =
        rq.pos.toNat * lbs.toNat + rq.bytes := by
  have hbytes : rq.bytes < 2 ^ 32 := rq.bytes_lt
  have hpos : rq.pos.toNat ≤ size.toNat / lbs.toNat := by
    rw [← toNat_diskCapacity]
    exact (Nat.le_add_right _ _).trans h
  have hstart : rq.pos.toNat * lbs.toNat ≤ size.toNat :=
    (Nat.mul_le_mul_right _ hpos).trans (Nat.div_mul_le_self _ _)
  have hmul : (rq.pos * lbs.toUInt64).toNat = rq.pos.toNat * lbs.toNat := by
    rw [UInt64.toNat_mul, UInt32.toNat_toUInt64, Nat.mod_eq_of_lt (by omega)]
  refine ⟨hstart, hmul, ?_⟩
  rw [UInt64.toNat_add, hmul, UInt32.toNat_toUInt64, toNat_blkRqBytes,
    Nat.mod_eq_of_lt (by omega)]

/-- The loop goes through the bytes from `base` on once and in order, one range
for each segment. -/
theorem rqForEachSegment_order (dir : Dir) (mem : ByteMem) (base : Nat)
    (bvecs : List (List UInt8)) :
    bytesOf (rqForEachSegment dir mem base bvecs).2.2 = List.range' base bvecs.flatten.length ∧
      (rqForEachSegment dir mem base bvecs).2.2.map Prod.snd = bvecs.map List.length := by
  induction bvecs generalizing mem base with
  | nil => exact ⟨rfl, rfl⟩
  | cons bvec rest ih =>
      -- the two directions differ only in the memory the rest starts from
      have hcons : ∀ mem', bytesOf ((base, bvec.length) ::
            (rqForEachSegment dir mem' (base + bvec.length) rest).2.2) =
              List.range' base (bvec :: rest).flatten.length ∧
          ((base, bvec.length) ::
            (rqForEachSegment dir mem' (base + bvec.length) rest).2.2).map Prod.snd =
              (bvec :: rest).map List.length := by
        intro mem'
        obtain ⟨hbytes, hlens⟩ := ih mem' (base + bvec.length)
        refine ⟨?_, ?_⟩
        · show List.range' base bvec.length ++ bytesOf _ = _
          rw [hbytes, List.flatten_cons, List.length_append, List.range'_append_1]
        · rw [List.map_cons, List.map_cons, hlens]
      cases dir with
      | write => exact hcons _
      | read => exact hcons _

/-- A read fills each segment from its own range. -/
theorem rqForEachSegment_segments (mem : ByteMem) (base : Nat) (bvecs : List (List UInt8)) :
    (rqForEachSegment .read mem base bvecs).2.1 =
      (rqForEachSegment .read mem base bvecs).2.2.map fun r => mem.load r.1 r.2 := by
  induction bvecs generalizing base with
  | nil => rfl
  | cons bvec rest ih =>
      show mem.load base bvec.length :: _ = mem.load base bvec.length :: _
      rw [ih (base + bvec.length)]

/-- What an accepted request does to the ramdisk and to its segments. -/
structure CopiesExactly (lbs : UInt32) (size : UInt64) (mem : ByteMem) (rq : Rq)
    (res : RqResult) : Prop where
  status : res.status = .ok
  faulted : res.faulted = false
  inside : rq.pos.toNat * lbs.toNat + rq.bytes ≤ size.toNat
  /-- Each byte of the range once, in order. -/
  order : bytesOf res.copied = List.range' (rq.pos.toNat * lbs.toNat) rq.bytes
  /-- One range for each segment, in segment order. -/
  segments : res.copied.map Prod.snd = rq.bvecs.map List.length
  write : rq.dir = .write →
    res.mem = mem.store (rq.pos.toNat * lbs.toNat) rq.bvecs.flatten ∧ res.bvecs = rq.bvecs
  read : rq.dir = .read →
    res.mem = mem ∧ res.bvecs = res.copied.map fun r => mem.load r.1 r.2
  frame : ∀ b, b < rq.pos.toNat * lbs.toNat ∨ rq.pos.toNat * lbs.toNat + rq.bytes ≤ b →
    res.mem b = mem b

theorem queueRq_copiesExactly (mem : ByteMem)
    (hbase : (rq.pos * lbs.toUInt64).toNat = rq.pos.toNat * lbs.toNat)
    (hin : rq.pos.toNat * lbs.toNat + rq.bytes ≤ size.toNat) :
    CopiesExactly lbs size mem rq (queueRq lbs size mem rq) := by
  have hfits := (queueRq_accepts hin).2
  have hstays : leavesRamdisk size
      (rqForEachSegment rq.dir mem (rq.pos.toNat * lbs.toNat) rq.bvecs).2.2 = false := by
    rw [← Bool.not_eq_true, leavesRamdisk_iff]
    exact fun hout => absurd hout.2 (Nat.not_lt.mpr hin)
  have heq : queueRq lbs size mem rq =
      let r := rqForEachSegment rq.dir mem (rq.pos.toNat * lbs.toNat) rq.bvecs
      ⟨.ok, r.1, r.2.1, r.2.2, false, [.ok]⟩ := by
    unfold queueRq
    dsimp only
    rw [if_neg hfits, hbase, hstays]
    rfl
  obtain ⟨horder, hlens⟩ :=
    rqForEachSegment_order rq.dir mem (rq.pos.toNat * lbs.toNat) rq.bvecs
  rw [heq]
  refine ⟨rfl, rfl, hin, horder, hlens, ?_, ?_, ?_⟩
  · intro hdir
    rw [hdir]
    exact rqForEachSegment_write _ _ _
  · intro hdir
    rw [hdir]
    exact ⟨(rqForEachSegment_read _ _ _).1, rqForEachSegment_segments _ _ _⟩
  · intro b hb
    show (rqForEachSegment rq.dir mem _ rq.bvecs).1 b = mem b
    cases hdir : rq.dir with
    | write =>
        rw [(rqForEachSegment_write _ _ _).1]
        exact ByteMem.store_outside _ hb
    | read => rw [(rqForEachSegment_read _ _ _).1]

/-- **A request inside the capacity copies its own bytes and no others**: its
range check does not wrap, and if the check passes, the segments are copied one
after the other to or from the bytes `[pos * lbs, pos * lbs + bytes)`, which are
inside the ramdisk. -/
theorem inCapacity_copies (d : Driver) (lbs : UInt32) (size : UInt64) (mem : ByteMem) (rq : Rq)
    (hsize : size.toNat ≤ 2 ^ 63) (hin : InCapacity lbs size rq) :
    (rq.pos * lbs.toUInt64).toNat = rq.pos.toNat * lbs.toNat ∧
      (rq.pos * lbs.toUInt64 + (blkRqBytes rq).toUInt64).toNat =
        rq.pos.toNat * lbs.toNat + rq.bytes ∧
      (¬ rq.pos * lbs.toUInt64 + (blkRqBytes rq).toUInt64 > size →
        CopiesExactly lbs size mem rq (d.queueRq lbs size mem rq)) := by
  obtain ⟨-, hmul, hsum⟩ := hin.no_wrap hsize
  refine ⟨hmul, hsum, ?_⟩
  intro hpass
  rw [gt_iff_lt, UInt64.lt_iff_toNat_lt, hsum, Nat.not_lt] at hpass
  rw [d.queueRq_eq]
  exact queueRq_copiesExactly mem hmul hpass

/-- A WRITE of two segments, of `m` and `n` bytes, at sector `pos`. -/
def writeRq (pos : UInt64) (m n : Nat) (h : m + n < 2 ^ 32) : Rq where
  dir := .write
  pos := pos
  bvecs := [List.replicate m 1, List.replicate n 2]
  bytes_lt := by simpa using h

theorem bytes_writeRq (pos : UInt64) {m n : Nat} (h : m + n < 2 ^ 32) :
    (writeRq pos m n h).bytes = m + n := by
  simp [Rq.bytes, writeRq]

/-- Two segments at sector 8; with blocks of 4096 bytes they go to the bytes from 32768
on. -/
theorem inCapacity_copies_writeRq :
    InCapacity 4096 1048576 (writeRq 8 512 1024 (by decide)) ∧
      ∀ d : Driver, CopiesExactly 4096 1048576 ByteMem.zero (writeRq 8 512 1024 (by decide))
        (d.queueRq 4096 1048576 ByteMem.zero (writeRq 8 512 1024 (by decide))) := by
  have hin : InCapacity 4096 1048576 (writeRq 8 512 1024 (by decide)) := by
    rw [InCapacity, bytes_writeRq]
    decide
  have hpass : PassesCheck 4096 1048576 (writeRq 8 512 1024 (by decide)) := by
    rw [PassesCheck, bytes_writeRq]
    decide
  refine ⟨hin, ?_⟩
  intro d
  exact (inCapacity_copies d 4096 1048576 ByteMem.zero (writeRq 8 512 1024 (by decide))
    (by decide) hin).2.2 fun hfails => queueRq_check_iff.mp hfails hpass

/-! ### How often a request is ended -/

/-- How often blk-mq ends a request itself, by the status `queue_rq` returns.
The drivers return none of the resource-busy statuses. -/
def blkMqEnds : BlkStatus → Nat
  | .ok => 0
  | .ioerr => 1

/-- How often a request is ended in total; a `queue_rq` that faults returns nothing to
blk-mq. -/
def RqResult.totalEnds (res : RqResult) : Nat :=
  res.ended.length + if res.faulted then 0 else blkMqEnds res.status

/-- Once if the range is inside the ramdisk, twice if it fails the check, and never if
it passes by wrapping around. -/
theorem totalEnds_queueRq (mem : ByteMem) :
    (queueRq lbs size mem rq).totalEnds =
      if RangeInside lbs size rq then 1 else if PassesCheck lbs size rq then 0 else 2 := by
  unfold RqResult.totalEnds
  by_cases hpass : PassesCheck lbs size rq
  · obtain ⟨hstatus, hfault, hended⟩ := queueRq_passed mem hpass
    rw [hended, hstatus]
    by_cases hin : RangeInside lbs size rq
    · have hno : (queueRq lbs size mem rq).faulted = false := by
        rw [← Bool.not_eq_true, hfault]
        exact not_not.mpr hin
      rw [hno, if_pos hin]
      rfl
    · rw [hfault.mpr hin, if_neg hin, if_pos hpass]
      rfl
  · have hout : ¬ RangeInside lbs size rq := fun hin => hpass hin.passesCheck
    rw [queueRq_refused mem hpass, if_neg hout, if_neg hpass]
    rfl

/-- **A request is ended exactly once if and only if the range that `queue_rq` computes
for it lies inside the ramdisk**, in both drivers. -/
theorem endedOnce_iff (d : Driver) (lbs : UInt32) (size : UInt64) (mem : ByteMem) (rq : Rq) :
    (d.queueRq lbs size mem rq).totalEnds = 1 ↔ RangeInside lbs size rq := by
  rw [d.queueRq_eq, totalEnds_queueRq]
  split_ifs with hin hpass
  · exact iff_of_true rfl hin
  · exact iff_of_false (by decide) hin
  · exact iff_of_false (by decide) hin

/-- A READ of one sector that is ended twice, although the block layer may issue
it: with blocks of 256 bytes a ramdisk of 1 MiB is announced with 4096 sectors,
and sector 4095 is beyond its end for `queue_rq`. -/
theorem endedTwice_inCapacity :
    (readRq 4095 512 (by decide)).pos.toNat + 1 ≤ (diskCapacity 256 1048576).toNat ∧
      (urmaBlkdevQueueRq 256 1048576 ByteMem.zero (readRq 4095 512 (by decide))).totalEnds = 2 ∧
      (rdmaBlkdevQueueRq 256 1048576 ByteMem.zero (readRq 4095 512 (by decide))).totalEnds = 2 := by
  have hfails : ¬ PassesCheck 256 1048576 (readRq 4095 512 (by decide)) := by
    unfold PassesCheck
    rw [bytes_readRq]
    decide
  have hout : ¬ RangeInside 256 1048576 (readRq 4095 512 (by decide)) := fun hin =>
    hfails hin.passesCheck
  have htwice := (totalEnds_queueRq ByteMem.zero).trans ((if_neg hout).trans (if_neg hfails))
  exact ⟨by decide, htwice, htwice⟩

end Blkdev

end DirectStorage
