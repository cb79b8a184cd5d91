/-
DirectStorage/PrototypeMap.lean

Logical blocks to bytes, in the prototype and in the kernel driver.

`checked_io_range` of the prototype and `urma_blkdev_map_io` of the driver
guard the same two products against overflow, in their own words.  For a block
size that is not zero, the guards are exact (`checkedIoRange_eq`): over the
integers the function answers `-EINVAL` for no blocks, `-EOVERFLOW` when the
byte offset does not fit, `-ERANGE` when the range leaves the disk, and the
range otherwise.  The driver's function is the prototype's and one more test,
for the bus address (`urmaBlkdevMapIo_eq`); with a base address that leaves
room for the whole disk that test never fails, because an accepted range is
not empty.

Main result: `lbaMapping_exact`.
-/
import DirectStorage.Prototype

namespace DirectStorage

namespace Prototype

open Blkdev (u64Max urmaBlkdevMapIo IoMapping toNat_mul_of_le_div)

variable {disk : RdmaRamdisk} {lba : UInt64} {blockCount : UInt32}

/-! ### The guards -/

/-- The division test asks whether the product fits. -/
theorem gt_div_iff {a b : UInt64} (hb : b ≠ 0) :
    a > u64Max / b ↔ 2 ^ 64 ≤ a.toNat * b.toNat := by
  have hpos : 0 < b.toNat := Nat.pos_of_ne_zero fun h0 => hb (UInt64.toNat.inj h0)
  have hmax : u64Max.toNat = 2 ^ 64 - 1 := rfl
  rw [gt_iff_lt, UInt64.lt_iff_toNat_lt, UInt64.toNat_div, Nat.div_lt_iff_lt_mul hpos, hmax]
  omega

theorem toUInt64_ne_zero {n : UInt32} (h : n ≠ 0) : n.toUInt64 ≠ 0 := by
  intro h0
  apply h
  apply UInt32.toNat.inj
  rw [← UInt32.toNat_toUInt64, h0]
  rfl

/-- A number of blocks always fits. -/
theorem blockCount_fits (hlbs : disk.logicalBlockSize ≠ 0) (blockCount : UInt32) :
    ¬ blockCount.toUInt64 > u64Max / disk.logicalBlockSize.toUInt64 := by
  rw [gt_div_iff (toUInt64_ne_zero hlbs), UInt32.toNat_toUInt64, UInt32.toNat_toUInt64,
    Nat.not_le]
  show _ < 2 ^ 32 * 2 ^ 32
  exact Nat.mul_lt_mul'' blockCount.toNat_lt disk.logicalBlockSize.toNat_lt

/-- **`checked_io_range` over the integers.** -/
theorem checkedIoRange_eq (hlbs : disk.logicalBlockSize ≠ 0) (lba : UInt64)
    (blockCount : UInt32) :
    checkedIoRange disk lba blockCount =
      if blockCount = 0 then .error (-EINVAL)
      else if 2 ^ 64 ≤ lba.toNat * disk.logicalBlockSize.toNat then .error (-EOVERFLOW)
      else if (lba.toNat + blockCount.toNat) * disk.logicalBlockSize.toNat ≤ disk.sizeBytes.toNat
        then .ok (lba * disk.logicalBlockSize.toUInt64,
          blockCount.toUInt64 * disk.logicalBlockSize.toUInt64)
      else .error (-ERANGE) := by
  have hlba := gt_div_iff (a := lba) (toUInt64_ne_zero hlbs)
  have hcount := blockCount_fits hlbs blockCount
  have hbytes := toNat_mul_of_le_div hcount
  rw [UInt32.toNat_toUInt64] at hlba
  rw [UInt32.toNat_toUInt64, UInt32.toNat_toUInt64] at hbytes
  unfold checkedIoRange
  by_cases hzero : blockCount = 0
  · rw [if_pos hzero, if_pos hzero]
  by_cases hbig : 2 ^ 64 ≤ lba.toNat * disk.logicalBlockSize.toNat
  · rw [if_neg hzero, if_neg hzero, if_pos (hlba.mpr hbig), if_pos hbig]
  have hoff := toNat_mul_of_le_div (fun h => hbig (hlba.mp h))
  rw [UInt32.toNat_toUInt64] at hoff
  have hrange := rangeTest_iff (lba * disk.logicalBlockSize.toUInt64)
    (blockCount.toUInt64 * disk.logicalBlockSize.toUInt64) disk.sizeBytes
  rw [hoff, hbytes, ← Nat.add_mul] at hrange
  have hmax : ¬ blockCount.toUInt64 * disk.logicalBlockSize.toUInt64 > u64Max := by
    rw [gt_iff_lt, UInt64.lt_iff_toNat_lt]
    have := (blockCount.toUInt64 * disk.logicalBlockSize.toUInt64).toNat_lt
    show ¬ 2 ^ 64 - 1 < _
    omega
  rw [if_neg hzero, if_neg hzero, if_neg (fun h => hbig (hlba.mp h)), if_neg hbig]
  simp only [hcount, hmax, if_false, hrange, ite_not]

/-- The driver's function is the prototype's, and a test of the bus address. -/
theorem urmaBlkdevMapIo_eq (hlbs : disk.logicalBlockSize ≠ 0) (ubva lba : UInt64)
    (blockCount : UInt32) :
    urmaBlkdevMapIo disk.logicalBlockSize disk.sizeBytes ubva lba blockCount =
      match checkedIoRange disk lba blockCount with
      | .error rc => .error rc
      | .ok (offset, bytes) =>
          if ubva > u64Max - offset then .error (-EOVERFLOW)
          else .ok ⟨offset, bytes, ubva + offset⟩ := by
  unfold urmaBlkdevMapIo checkedIoRange
  simp only [hlbs, false_or]
  split_ifs with h₁ h₂ h₃ h₄ h₅ h₆
  · rfl
  · rfl
  · rfl
  · rfl
  · rfl
  · exact (if_pos h₆).symm
  · exact (if_neg h₆).symm

/-! ### The mappings -/

/-- The code a function returns. -/
def returnCode {α : Type} : Except Int α → Int
  | .ok _ => 0
  | .error rc => rc

/-- The blocks `lba .. lba + blockCount` are on the disk. -/
structure OnDisk (disk : RdmaRamdisk) (lba : UInt64) (blockCount : UInt32) : Prop where
  count_pos : 0 < blockCount.toNat
  fits : (lba.toNat + blockCount.toNat) * disk.logicalBlockSize.toNat ≤ disk.sizeBytes.toNat

/-- The first byte of the blocks, and their number of bytes. -/
def blockOffset (disk : RdmaRamdisk) (lba : UInt64) : Nat :=
  lba.toNat * disk.logicalBlockSize.toNat

def blockBytes (disk : RdmaRamdisk) (blockCount : UInt32) : Nat :=
  blockCount.toNat * disk.logicalBlockSize.toNat

theorem OnDisk.inside (h : OnDisk disk lba blockCount) :
    blockOffset disk lba + blockBytes disk blockCount ≤ disk.sizeBytes.toNat := by
  unfold blockOffset blockBytes
  rw [← Nat.add_mul]
  exact h.fits

theorem OnDisk.bytes_pos (h : OnDisk disk lba blockCount) (hlbs : disk.logicalBlockSize ≠ 0) :
    0 < blockBytes disk blockCount :=
  Nat.mul_pos h.count_pos (Nat.pos_of_ne_zero fun h0 => hlbs (UInt32.toNat.inj h0))

/-- The range of an accepted request. -/
theorem checkedIoRange_of_onDisk (hlbs : disk.logicalBlockSize ≠ 0)
    (h : OnDisk disk lba blockCount) :
    ∃ offset bytes, checkedIoRange disk lba blockCount = .ok (offset, bytes) ∧
      offset.toNat = blockOffset disk lba ∧ bytes.toNat = blockBytes disk blockCount := by
  have hsize := disk.sizeBytes.toNat_lt
  have hinside := h.inside
  have hlba : ¬ 2 ^ 64 ≤ lba.toNat * disk.logicalBlockSize.toNat := by
    have hle : lba.toNat * disk.logicalBlockSize.toNat ≤ disk.sizeBytes.toNat :=
      (Nat.le_add_right _ _).trans hinside
    omega
  have hzero : blockCount ≠ 0 := by
    rintro rfl
    exact absurd h.count_pos (Nat.lt_irrefl 0)
  refine ⟨lba * disk.logicalBlockSize.toUInt64,
    blockCount.toUInt64 * disk.logicalBlockSize.toUInt64, ?_, ?_, ?_⟩
  · rw [checkedIoRange_eq hlbs, if_neg hzero, if_neg hlba, if_pos h.fits]
  · rw [toNat_mul_of_le_div, UInt32.toNat_toUInt64]
    · rfl
    · rw [gt_div_iff (toUInt64_ne_zero hlbs), UInt32.toNat_toUInt64]
      exact hlba
  · rw [toNat_mul_of_le_div (blockCount_fits hlbs blockCount), UInt32.toNat_toUInt64,
      UInt32.toNat_toUInt64]
    rfl

/-- A request that is not on the disk is refused with a code. -/
theorem checkedIoRange_of_not_onDisk (hlbs : disk.logicalBlockSize ≠ 0)
    (h : ¬ OnDisk disk lba blockCount) :
    ∃ rc, checkedIoRange disk lba blockCount = .error rc ∧ rc ≠ 0 := by
  rw [checkedIoRange_eq hlbs]
  split_ifs with hzero hlba hfits
  · exact ⟨_, rfl, by decide⟩
  · exact ⟨_, rfl, by decide⟩
  · refine absurd ⟨?_, hfits⟩ h
    exact Nat.pos_of_ne_zero fun h0 => hzero (UInt32.toNat.inj h0)
  · exact ⟨_, rfl, by decide⟩

theorem returnCode_checkedIoRange (hlbs : disk.logicalBlockSize ≠ 0) :
    returnCode (checkedIoRange disk lba blockCount) = 0 ↔ OnDisk disk lba blockCount := by
  by_cases h : OnDisk disk lba blockCount
  · obtain ⟨offset, bytes, hok, -⟩ := checkedIoRange_of_onDisk hlbs h
    rw [hok]
    exact iff_of_true rfl h
  · obtain ⟨rc, herr, hne⟩ := checkedIoRange_of_not_onDisk hlbs h
    rw [herr]
    exact iff_of_false hne h

/-- The driver's answer, from the prototype's: with room for the disk behind the
base address, the bus address is never refused. -/
theorem urmaBlkdevMapIo_of_room (hlbs : disk.logicalBlockSize ≠ 0) {ubva : UInt64}
    (hroom : ubva.toNat + disk.sizeBytes.toNat ≤ 2 ^ 64) (lba : UInt64) (blockCount : UInt32) :
    urmaBlkdevMapIo disk.logicalBlockSize disk.sizeBytes ubva lba blockCount =
      (checkedIoRange disk lba blockCount).map fun r => ⟨r.1, r.2, ubva + r.1⟩ := by
  rw [urmaBlkdevMapIo_eq hlbs]
  by_cases h : OnDisk disk lba blockCount
  · obtain ⟨offset, bytes, hok, hoff, -⟩ := checkedIoRange_of_onDisk hlbs h
    have hpos := h.bytes_pos hlbs
    have hinside := h.inside
    have hbus : ¬ ubva > u64Max - offset := by
      rw [gt_iff_lt, UInt64.lt_iff_toNat_lt, UInt64.toNat_sub_of_le _ _
        (UInt64.le_iff_toNat_le.mpr (Nat.le_of_lt_succ offset.toNat_lt)), hoff]
      show ¬ 2 ^ 64 - 1 - _ < _
      omega
    rw [hok]
    exact if_neg hbus
  · obtain ⟨rc, herr, -⟩ := checkedIoRange_of_not_onDisk hlbs h
    rw [herr]
    rfl

/-- A bus address computed from a base with room for the disk. -/
theorem busAddr (hlbs : disk.logicalBlockSize ≠ 0) {base offset : UInt64}
    (hroom : base.toNat + disk.sizeBytes.toNat ≤ 2 ^ 64) (h : OnDisk disk lba blockCount)
    (hoff : offset.toNat = blockOffset disk lba) :
    (base + offset).toNat = base.toNat + blockOffset disk lba := by
  have hpos := h.bytes_pos hlbs
  have hinside := h.inside
  rw [UInt64.toNat_add, hoff, Nat.mod_eq_of_lt]
  omega

/-! ### The result -/

/-- The mapping of the blocks `lba .. lba + blockCount` in the prototype, where
the disk is registered at `disk.mr.iova`, and in the driver, where it is at
`ubva`. -/
structure LbaMapping (disk : RdmaRamdisk) (ubva lba : UInt64) (blockCount : UInt32) : Prop where
  code_eq : returnCode (checkedIoRange disk lba blockCount) =
    returnCode (urmaBlkdevMapIo disk.logicalBlockSize disk.sizeBytes ubva lba blockCount)
  ok_iff : returnCode (checkedIoRange disk lba blockCount) = 0 ↔ OnDisk disk lba blockCount
  /-- `checked_io_range` computes the offset and the length, and
  `rdma_ramdisk_map_lba` a bus address inside the registered region. -/
  prototype : ∀ offset bytes, checkedIoRange disk lba blockCount = .ok (offset, bytes) →
    offset.toNat = blockOffset disk lba ∧ bytes.toNat = blockBytes disk blockCount ∧
      ∃ m, rdmaRamdiskMapLba disk lba blockCount = .ok m ∧ m.byteOffset = offset ∧
        m.length = bytes ∧ m.sge.addr.toNat = disk.mr.iova.toNat + offset.toNat ∧
        m.sge.addr.toNat + bytes.toNat ≤ disk.mr.iova.toNat + disk.sizeBytes.toNat
  /-- So does `urma_blkdev_map_io`. -/
  driver : ∀ io, urmaBlkdevMapIo disk.logicalBlockSize disk.sizeBytes ubva lba blockCount =
      .ok io → io.byteOffset.toNat = blockOffset disk lba ∧
        io.len.toNat = blockBytes disk blockCount ∧
        io.localUbva.toNat = ubva.toNat + io.byteOffset.toNat ∧
        io.localUbva.toNat + io.len.toNat ≤ ubva.toNat + disk.sizeBytes.toNat
  /-- Blocks that are apart are kept apart. -/
  disjoint : ∀ (lba' : UInt64) (blockCount' : UInt32),
    lba.toNat + blockCount.toNat ≤ lba'.toNat ∨ lba'.toNat + blockCount'.toNat ≤ lba.toNat →
    blockOffset disk lba + blockBytes disk blockCount ≤ blockOffset disk lba' ∨
      blockOffset disk lba' + blockBytes disk blockCount' ≤ blockOffset disk lba

/-- **The two mappings are exact and agree**, for every size of the disk, block
size that is not 0, base addresses with room for the disk, block and number of
blocks. -/
theorem lbaMapping_exact (disk : RdmaRamdisk) (ubva lba : UInt64) (blockCount : UInt32)
    (hlbs : disk.logicalBlockSize ≠ 0)
    (hiova : disk.mr.iova.toNat + disk.sizeBytes.toNat ≤ 2 ^ 64)
    (hubva : ubva.toNat + disk.sizeBytes.toNat ≤ 2 ^ 64) :
    LbaMapping disk ubva lba blockCount := by
  have hdriver := urmaBlkdevMapIo_of_room hlbs hubva lba blockCount
  refine ⟨?_, returnCode_checkedIoRange hlbs, ?_, ?_, ?_⟩
  · rw [hdriver]
    cases checkedIoRange disk lba blockCount <;> rfl
  · intro offset bytes hok
    have hon : OnDisk disk lba blockCount :=
      (returnCode_checkedIoRange hlbs).mp (by rw [hok]; rfl)
    obtain ⟨offset', bytes', hok', hoff, hbytes⟩ := checkedIoRange_of_onDisk hlbs hon
    obtain ⟨rfl, rfl⟩ := Prod.mk.inj (Except.ok.inj (hok.symm.trans hok'))
    have hbus := busAddr hlbs hiova hon hoff
    have hinside := hon.inside
    refine ⟨hoff, hbytes, _, by rw [rdmaRamdiskMapLba, hok], rfl, rfl, ?_, ?_⟩
    · rw [hoff]
      exact hbus
    · show (disk.mr.iova + offset).toNat + bytes.toNat ≤ _
      rw [hbus, hbytes]
      omega
  · intro io hio
    have hon : OnDisk disk lba blockCount := by
      refine (returnCode_checkedIoRange hlbs).mp ?_
      rcases e : checkedIoRange disk lba blockCount with rc | r
      · rw [hdriver, e] at hio
        cases hio
      · rfl
    obtain ⟨offset, bytes, hok, hoff, hbytes⟩ := checkedIoRange_of_onDisk hlbs hon
    rw [hdriver, hok] at hio
    obtain rfl := Except.ok.inj hio
    have hbus := busAddr hlbs hubva hon hoff
    have hinside := hon.inside
    refine ⟨hoff, hbytes, ?_, ?_⟩
    · rw [hoff]
      exact hbus
    · show (ubva + offset).toNat + bytes.toNat ≤ _
      rw [hbus, hbytes]
      omega
  · intro lba' blockCount' hapart
    unfold blockOffset blockBytes
    rw [← Nat.add_mul, ← Nat.add_mul]
    exact hapart.imp (Nat.mul_le_mul_right _) (Nat.mul_le_mul_right _)

/-- A disk of 1 MiB with blocks of 512 bytes, as in the prototype's own tests:
two blocks from block 4 on. -/
theorem lbaMapping_test :
    checkedIoRange ⟨1048576, 512, ⟨1, 0⟩, ⟨⟨1, 0⟩, 1048576, mockIovaBase, mockLkey⟩⟩ 4 2 =
        .ok (2048, 1024) ∧
      LbaMapping ⟨1048576, 512, ⟨1, 0⟩, ⟨⟨1, 0⟩, 1048576, mockIovaBase, mockLkey⟩⟩ 4096 4 2 :=
  ⟨by decide, lbaMapping_exact _ 4096 4 2 (by decide) (by decide) (by decide)⟩

end Prototype

end DirectStorage
