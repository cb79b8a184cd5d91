/-
DirectStorage/BlkdevMap.lean

The two data paths of the kernel URMA driver.

The direct path maps a range of logical blocks to ramdisk bytes with
`urma_blkdev_map_io`; the block layer reaches the same blocks through
`queue_rq`.  For a range that `urma_blkdev_map_io` accepts, `mapIo_ok` says
what it computes, and `sameBytes_iff` says when `queue_rq` copies the same
bytes: for the first block, or when a block is one sector.

The product in `queue_rq` is taken modulo `2 ^ 64`, and it could meet the
right offset by wrapping around.  It never does (`mul_sub_one_not_multiple`):
`k` and `k - 1` are not both even, so a power of two that divides
`lba * k * (k - 1)` divides a smaller product.
-/
import DirectStorage.Blkdev
import Mathlib.Data.Nat.ModEq
import Mathlib.Data.Nat.Prime.Basic
import Mathlib.Tactic.Ring

namespace DirectStorage

namespace Blkdev

/-! ### `urma_blkdev_map_io` -/

/-- `U64_MAX`, and `SIZE_MAX` on a 64-bit kernel. -/
def u64Max : UInt64 := 0xFFFFFFFFFFFFFFFF

/-- The results of `urma_blkdev_map_io`. -/
structure IoMapping where
  byteOffset : UInt64
  len : UInt64
  localUbva : UInt64
  deriving DecidableEq

/-- `urma_blkdev_map_io`, for pointers that are not `NULL`. -/
def urmaBlkdevMapIo (logicalBlockSize : UInt32) (ramdiskSize ubvaAddr lba : UInt64)
    (blockCount : UInt32) : Except Int IoMapping :=
  if logicalBlockSize = 0 ∨ blockCount = 0 then .error (-EINVAL)
  else if lba > u64Max / logicalBlockSize.toUInt64 then .error (-EOVERFLOW)
  else if blockCount.toUInt64 > u64Max / logicalBlockSize.toUInt64 then .error (-EOVERFLOW)
  else
    let offset := lba * logicalBlockSize.toUInt64
    let bytes := blockCount.toUInt64 * logicalBlockSize.toUInt64
    if offset > ramdiskSize ∨ bytes > ramdiskSize - offset then .error (-ERANGE)
    else if bytes > u64Max then .error (-EOVERFLOW)
    else if ubvaAddr > u64Max - offset then .error (-EOVERFLOW)
    else .ok ⟨offset, bytes, ubvaAddr + offset⟩

variable {lbs blockCount : UInt32} {size ubva lba : UInt64} {io : IoMapping}

/-- A product that the division test admits does not wrap. -/
theorem toNat_mul_of_le_div {a b : UInt64} (h : ¬ a > u64Max / b) :
    (a * b).toNat = a.toNat * b.toNat := by
  rw [gt_iff_lt, UInt64.lt_iff_toNat_lt, UInt64.toNat_div, Nat.not_lt] at h
  have hmul : a.toNat * b.toNat ≤ u64Max.toNat :=
    (Nat.mul_le_mul_right _ h).trans (Nat.div_mul_le_self _ _)
  rw [UInt64.toNat_mul]
  refine Nat.mod_eq_of_lt ?_
  exact lt_of_le_of_lt hmul (by decide)

/-- **What `urma_blkdev_map_io` computes**: the offset and the length of the
blocks, over the integers, inside the ramdisk. -/
theorem mapIo_ok (h : urmaBlkdevMapIo lbs size ubva lba blockCount = .ok io) :
    0 < lbs.toNat ∧ 0 < blockCount.toNat ∧ io.byteOffset.toNat = lba.toNat * lbs.toNat ∧
      io.len.toNat = blockCount.toNat * lbs.toNat ∧
      lba.toNat * lbs.toNat + blockCount.toNat * lbs.toNat ≤ size.toNat := by
  unfold urmaBlkdevMapIo at h
  split_ifs at h with h₁ h₂ h₃
  dsimp only at h
  split_ifs at h with h₄
  obtain rfl := Except.ok.inj h
  have hoff := toNat_mul_of_le_div h₂
  have hlen := toNat_mul_of_le_div h₃
  rw [UInt32.toNat_toUInt64] at hoff hlen
  rw [UInt32.toNat_toUInt64] at hlen
  rw [not_or] at h₁
  rw [rangeTest_iff, not_not, hoff, hlen] at h₄
  have hlbs : 0 < lbs.toNat := Nat.pos_of_ne_zero fun h0 => h₁.1 (UInt32.toNat.inj h0)
  have hpos : 0 < blockCount.toNat := Nat.pos_of_ne_zero fun h0 => h₁.2 (UInt32.toNat.inj h0)
  exact ⟨hlbs, hpos, hoff, hlen, h₄⟩

/-! ### The block layer's request for the same blocks -/

/-- The block-layer request covers the blocks `lba .. lba + blockCount`. -/
structure Covers (lbs : UInt32) (lba : UInt64) (blockCount : UInt32) (rq : Rq) : Prop where
  start : rq.pos.toNat = lba.toNat * lbs.toNat / 512
  length : rq.bytes = blockCount.toNat * lbs.toNat

/-- The bytes of the ramdisk that `queue_rq` copied are those of the mapping. -/
def SameRange (res : RqResult) (io : IoMapping) : Prop :=
  ∀ b, (∃ r ∈ res.copied, r.1 ≤ b ∧ b < r.1 + r.2) ↔
    io.byteOffset.toNat ≤ b ∧ b < io.byteOffset.toNat + io.len.toNat

/-- Two nonempty ranges of equal length are equal only if they start at the
same byte. -/
theorem range_start_eq {x y n : Nat} (hn : 0 < n)
    (h : ∀ b, (x ≤ b ∧ b < x + n) ↔ (y ≤ b ∧ b < y + n)) : x = y := by
  have h₁ := (h x).mp ⟨le_refl x, by omega⟩
  have h₂ := (h y).mpr ⟨le_refl y, by omega⟩
  omega

/-- `queue_rq` copies the range of the mapping if and only if it accepts the
request and computes the same start. -/
theorem sameRange_iff {rq : Rq} (hbytes : rq.bytes = io.len.toNat) (hpos : 0 < io.len.toNat)
    (hfits : io.byteOffset.toNat + io.len.toNat ≤ size.toNat) (mem : ByteMem) :
    SameRange (urmaBlkdevQueueRq lbs size mem rq) io ↔
      (rq.pos * lbs.toUInt64).toNat = io.byteOffset.toNat := by
  have hsize := size.toNat_lt
  have hsum : (rq.pos * lbs.toUInt64).toNat = io.byteOffset.toNat →
      ¬ rq.pos * lbs.toUInt64 + (blkRqBytes rq).toUInt64 > size := by
    intro hbase
    rw [gt_iff_lt, UInt64.lt_iff_toNat_lt, UInt64.toNat_add, hbase, UInt32.toNat_toUInt64,
      toNat_blkRqBytes, hbytes, Nat.mod_eq_of_lt (by omega)]
    omega
  show SameRange (queueRq lbs size mem rq) io ↔ _
  unfold queueRq SameRange
  dsimp only
  by_cases hcheck : rq.pos * lbs.toUInt64 + (blkRqBytes rq).toUInt64 > size
  · -- a refused request copies nothing
    rw [if_pos hcheck]
    constructor
    · intro h
      obtain ⟨r, hr, -⟩ := (h io.byteOffset.toNat).mpr ⟨le_refl _, by omega⟩
      cases hr
    · exact fun hbase => absurd hcheck (hsum hbase)
  · have hcopied := rqForEachSegment_copied rq.dir mem (rq.pos * lbs.toUInt64).toNat rq.bvecs
    have hlen : rq.bvecs.flatten.length = io.len.toNat := hbytes
    rw [if_neg hcheck]
    constructor
    · intro h
      refine range_start_eq hpos ?_
      intro b
      rw [← h b, hcopied b, hlen]
    · intro hbase b
      rw [hcopied b, hlen, hbase]

/-! ### The product does not wrap onto the right offset -/

/-- `m * (k - 1)` is no positive multiple of a power of two that `m * k` stays
below. -/
theorem mul_sub_one_not_multiple {m k e : Nat} (hk : 2 ≤ k) (hm : 0 < m)
    (hlt : m * k < 2 ^ e) : ¬ 2 ^ e ∣ m * k * (k - 1) := by
  intro hdvd
  rcases Nat.even_or_odd k with heven | hodd
  · -- `k - 1` is odd
    have hcop : Nat.Coprime (2 ^ e) (k - 1) := by
      refine Nat.Coprime.pow_left e ?_
      rw [Nat.coprime_two_left]
      exact Nat.Even.sub_odd (by omega) heven odd_one
    have := Nat.le_of_dvd (Nat.mul_pos hm (by omega)) (hcop.dvd_of_dvd_mul_right hdvd)
    omega
  · have hcop : Nat.Coprime (2 ^ e) k := by
      refine Nat.Coprime.pow_left e ?_
      rwa [Nat.coprime_two_left]
    have hdvd' : 2 ^ e ∣ m * (k - 1) * k := by
      rwa [Nat.mul_right_comm] at hdvd
    have hle := Nat.le_of_dvd (Nat.mul_pos hm (by omega)) (hcop.dvd_of_dvd_mul_right hdvd')
    have : m * (k - 1) ≤ m * k := Nat.mul_le_mul_left m (by omega)
    omega

/-- The start `queue_rq` computes for block `lba` is the right one only for
block 0 or for blocks of one sector. -/
theorem start_eq_iff {rq : Rq} {k : Nat} (hk : lbs.toNat = 512 * k) (hk0 : 0 < k)
    (hstart : rq.pos.toNat = lba.toNat * lbs.toNat / 512)
    (hfits : lba.toNat * lbs.toNat < 2 ^ 64) :
    (rq.pos * lbs.toUInt64).toNat = lba.toNat * lbs.toNat ↔ lba.toNat = 0 ∨ k = 1 := by
  have hpos : rq.pos.toNat = lba.toNat * k := by
    rw [hstart, hk, Nat.mul_left_comm]
    exact Nat.mul_div_cancel_left _ (by decide)
  rw [UInt64.toNat_mul, UInt32.toNat_toUInt64, hpos]
  constructor
  · intro h
    by_contra hnot
    rw [not_or] at hnot
    -- the difference of the two offsets would be a multiple of `2 ^ 64`
    have hmod : lba.toNat * lbs.toNat ≡ lba.toNat * k * lbs.toNat [MOD 2 ^ 64] := by
      show _ % _ = _ % _
      rw [h, Nat.mod_eq_of_lt hfits]
    have hle : lba.toNat * lbs.toNat ≤ lba.toNat * k * lbs.toNat :=
      Nat.mul_le_mul_right _ (Nat.le_mul_of_pos_right _ hk0)
    have hdvd := (Nat.modEq_iff_dvd' hle).mp hmod
    have hdiff : lba.toNat * k * lbs.toNat - lba.toNat * lbs.toNat =
        512 * (lba.toNat * k * (k - 1)) := by
      rw [hk]
      obtain ⟨j, rfl⟩ : ∃ j, k = j + 1 := ⟨k - 1, by omega⟩
      rw [Nat.add_sub_cancel]
      refine Nat.sub_eq_of_eq_add ?_
      ring
    rw [hdiff, show (2 : Nat) ^ 64 = 512 * 2 ^ 55 from rfl] at hdvd
    have hdvd' := Nat.dvd_of_mul_dvd_mul_left (by decide) hdvd
    refine mul_sub_one_not_multiple (by omega) (by omega) ?_ hdvd'
    rw [hk, Nat.mul_left_comm] at hfits
    omega
  · rintro (h | rfl)
    · rw [h]
      simp
    · rw [Nat.mul_one, Nat.mod_eq_of_lt hfits]

/-- **When the two paths address the same bytes**: for an accepted range of
blocks, `queue_rq` copies exactly the bytes `urma_blkdev_map_io` computed if
and only if the range starts at block 0 or a logical block is one sector. -/
theorem sameRange_mapIo_iff {rq : Rq} (mem : ByteMem) (hlbs : 512 ∣ lbs.toNat)
    (hmap : urmaBlkdevMapIo lbs size ubva lba blockCount = .ok io)
    (hrq : Covers lbs lba blockCount rq) :
    SameRange (urmaBlkdevQueueRq lbs size mem rq) io ↔ lba = 0 ∨ lbs = 512 := by
  obtain ⟨k, hk⟩ := hlbs
  obtain ⟨hpos, hcount, hoff, hlen, hfits⟩ := mapIo_ok hmap
  have hsize := size.toNat_lt
  have hk0 : 0 < k := by omega
  have hlen0 : 0 < io.len.toNat := by
    rw [hlen, hk]
    exact Nat.mul_pos hcount (by omega)
  rw [sameRange_iff (hrq.length.trans hlen.symm) hlen0 (by omega) mem, hoff,
    start_eq_iff hk hk0 hrq.start (by omega)]
  refine or_congr ?_ ?_
  · exact ⟨fun h => UInt64.toNat.inj h, fun h => by rw [h]; rfl⟩
  · refine ⟨fun h => UInt32.toNat.inj ?_, fun h => ?_⟩
    · rw [hk, h]
      rfl
    · rw [h] at hk
      have : (512 : UInt32).toNat = 512 := rfl
      omega

/-- A READ of `n` bytes at sector `pos`. -/
def readRq (pos : UInt64) (n : Nat) (h : n < 2 ^ 32) : Rq where
  dir := .read
  pos := pos
  bvecs := [List.replicate n 0]
  bytes_lt := by simpa using h

theorem bytes_readRq (pos : UInt64) {n : Nat} (h : n < 2 ^ 32) : (readRq pos n h).bytes = n := by
  simp [Rq.bytes, readRq]

/-- Two blocks of one sector each, from block 3 on. -/
theorem sameRange_512 :
    urmaBlkdevMapIo 512 1048576 0 3 2 = .ok ⟨1536, 1024, 1536⟩ ∧
      SameRange (urmaBlkdevQueueRq 512 1048576 ByteMem.zero (readRq 3 1024 (by decide)))
        ⟨1536, 1024, 1536⟩ := by
  have hmap : urmaBlkdevMapIo 512 1048576 0 3 2 = .ok ⟨1536, 1024, 1536⟩ := by decide
  refine ⟨hmap, (sameRange_mapIo_iff ByteMem.zero (by decide) hmap ⟨rfl, ?_⟩).mpr (Or.inr rfl)⟩
  exact bytes_readRq 3 (by decide)

/-- Block 1 of 4096 bytes: the direct path uses the bytes from 4096 on, the
block layer those from 32768 on. -/
theorem not_sameRange_4096 :
    urmaBlkdevMapIo 4096 1048576 0 1 1 = .ok ⟨4096, 4096, 4096⟩ ∧
      Covers 4096 1 1 (readRq 8 4096 (by decide)) ∧
      ¬ SameRange (urmaBlkdevQueueRq 4096 1048576 ByteMem.zero (readRq 8 4096 (by decide)))
        ⟨4096, 4096, 4096⟩ := by
  refine ⟨by decide, ⟨rfl, bytes_readRq 8 (by decide)⟩, ?_⟩
  intro h
  have hstart := (sameRange_iff (bytes_readRq 8 (by decide) : _ = (4096 : UInt64).toNat)
    (by decide) (by decide) ByteMem.zero).mp h
  exact absurd hstart (by decide)

end Blkdev

end DirectStorage
