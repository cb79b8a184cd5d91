/-
DirectStorage/PrototypeFill.lean

`rdma_ramdisk_fill` and `rdma_ramdisk_verify` of the prototype
(`src/src/rdma_ramdisk.c`).

Both go through `rdma_ramdisk_map_lba`; the first sets the bytes of the range,
the second compares them one by one.  A history of fills is read from its newest
call on.  What a block must hold is a function of the history and the codes its
calls returned alone (`lastFill`): the value of the newest successful fill that
covers it, or nothing if there is none, and then the block still has the zeros
of `rdma_ramdisk_create`.

Main result: `fillVerify_exact`.
-/
import DirectStorage.PrototypeIo

namespace DirectStorage

namespace Prototype

variable {disk : RdmaRamdisk} {heap : Heap} {lba : UInt64} {blockCount : UInt32} {value : UInt8}

/-! ### The functions -/

/-- `rdma_ramdisk_fill`: the code and the memory afterwards. -/
def rdmaRamdiskFill (disk : RdmaRamdisk) (heap : Heap) (lba : UInt64) (blockCount : UInt32)
    (value : UInt8) : Int × Heap :=
  match rdmaRamdiskMapLba disk lba blockCount with
  | .error rc => (rc, heap)
  | .ok mapping => (0, heap.memset mapping.hostAddr value mapping.length.toNat)

/-- The loop of `rdma_ramdisk_verify`: the bytes from `ptr` on. -/
def verifyLoop (mem : ByteMem) (value : UInt8) (ptr : Nat) : Nat → Int
  | 0 => 0
  | n + 1 => if mem ptr ≠ value then - EIO else verifyLoop mem value (ptr + 1) n

/-- `rdma_ramdisk_verify`. -/
def rdmaRamdiskVerify (disk : RdmaRamdisk) (heap : Heap) (lba : UInt64) (blockCount : UInt32)
    (value : UInt8) : Int :=
  match rdmaRamdiskMapLba disk lba blockCount with
  | .error rc => rc
  | .ok mapping =>
      verifyLoop (heap mapping.hostAddr.block) value mapping.hostAddr.off mapping.length.toNat

/-! ### Histories of fills -/

/-- A call of `rdma_ramdisk_fill`. -/
structure FillCall where
  lba : UInt64
  blockCount : UInt32
  value : UInt8

/-- The call is to fill block `b`. -/
def FillCall.Covers (c : FillCall) (b : Nat) : Prop :=
  c.lba.toNat ≤ b ∧ b < c.lba.toNat + c.blockCount.toNat

instance (c : FillCall) (b : Nat) : Decidable (c.Covers b) := inferInstanceAs (Decidable (_ ∧ _))

def FillCall.run (c : FillCall) (disk : RdmaRamdisk) (heap : Heap) : Int × Heap :=
  rdmaRamdiskFill disk heap c.lba c.blockCount c.value

/-- The memory after a history of fills, newest first. -/
def afterFills (disk : RdmaRamdisk) (heap : Heap) : List FillCall → Heap
  | [] => heap
  | c :: older => (c.run disk (afterFills disk heap older)).2

/-- The fills of a history with the codes they returned, newest first. -/
def fillLog (disk : RdmaRamdisk) (heap : Heap) : List FillCall → List (FillCall × Int)
  | [] => []
  | c :: older => (c, (c.run disk (afterFills disk heap older)).1) :: fillLog disk heap older

/-- The value block `b` was last filled with by a successful call, if any. -/
def lastFill : List (FillCall × Int) → Nat → Option UInt8
  | [], _ => none
  | (c, code) :: older, b => if code = 0 ∧ c.Covers b then some c.value else lastFill older b

/-- What the next calls on the disk do, after the fills `fills`. -/
structure FillVerify (disk : RdmaRamdisk) (heap : Heap) (fills : List FillCall) : Prop where
  /-- `rdma_ramdisk_verify` compares with the last fill of every block. -/
  verify_ok : ∀ lba blockCount v, OnDisk disk lba blockCount →
    (rdmaRamdiskVerify disk (afterFills disk heap fills) lba blockCount v = 0 ↔
      ∀ b, lba.toNat ≤ b → b < lba.toNat + blockCount.toNat →
        lastFill (fillLog disk heap fills) b = some v ∨
          lastFill (fillLog disk heap fills) b = none ∧ v = 0)
  verify_eio : ∀ lba blockCount v, OnDisk disk lba blockCount →
    rdmaRamdiskVerify disk (afterFills disk heap fills) lba blockCount v ≠ 0 →
    rdmaRamdiskVerify disk (afterFills disk heap fills) lba blockCount v = - EIO
  fill_ok : ∀ c : FillCall,
    (c.run disk (afterFills disk heap fills)).1 = 0 ↔ OnDisk disk c.lba c.blockCount
  /-- A fill that is out of range or empty changes nothing. -/
  fill_refused : ∀ c : FillCall, ¬ OnDisk disk c.lba c.blockCount →
    (c.run disk (afterFills disk heap fills)).2 = afterFills disk heap fills

/-! ### One call -/

/-- The range of the blocks in the disk's memory. -/
theorem mapLba_of_onDisk (hlbs : disk.logicalBlockSize ≠ 0) (h : OnDisk disk lba blockCount) :
    ∃ m, rdmaRamdiskMapLba disk lba blockCount = .ok m ∧
      m.hostAddr = disk.base.add (blockOffset disk lba) ∧
      m.length.toNat = blockBytes disk blockCount := by
  obtain ⟨offset, bytes, hok, hoff, hbytes⟩ := checkedIoRange_of_onDisk hlbs h
  refine ⟨_, by rw [rdmaRamdiskMapLba, hok], ?_, hbytes⟩
  show disk.base.add offset.toNat = _
  rw [hoff]

theorem mapLba_of_not_onDisk (hlbs : disk.logicalBlockSize ≠ 0)
    (h : ¬ OnDisk disk lba blockCount) :
    ∃ rc, rdmaRamdiskMapLba disk lba blockCount = .error rc ∧ rc ≠ 0 := by
  obtain ⟨rc, herr, hne⟩ := checkedIoRange_of_not_onDisk hlbs h
  exact ⟨rc, by rw [rdmaRamdiskMapLba, herr], hne⟩

theorem fill_of_onDisk (hlbs : disk.logicalBlockSize ≠ 0) (h : OnDisk disk lba blockCount) :
    rdmaRamdiskFill disk heap lba blockCount value =
      (0, heap.memset (disk.base.add (blockOffset disk lba)) value
        (blockBytes disk blockCount)) := by
  obtain ⟨m, hmap, haddr, hlen⟩ := mapLba_of_onDisk hlbs h
  rw [rdmaRamdiskFill, hmap]
  dsimp only
  rw [haddr, hlen]

theorem fill_of_not_onDisk (heap : Heap) (value : UInt8)
    (hlbs : disk.logicalBlockSize ≠ 0) (h : ¬ OnDisk disk lba blockCount) :
    ∃ rc, rdmaRamdiskFill disk heap lba blockCount value = (rc, heap) ∧ rc ≠ 0 := by
  obtain ⟨rc, hmap, hne⟩ := mapLba_of_not_onDisk hlbs h
  exact ⟨rc, by rw [rdmaRamdiskFill, hmap], hne⟩

/-- The loop answers 0 when all bytes agree, and `-EIO` otherwise. -/
theorem verifyLoop_eq (mem : ByteMem) (value : UInt8) (ptr n : Nat) :
    verifyLoop mem value ptr n = if ∀ i < n, mem (ptr + i) = value then 0 else - EIO := by
  induction n generalizing ptr with
  | zero => exact (if_pos fun i hi => absurd hi (Nat.not_lt_zero i)).symm
  | succ n ih =>
      -- the first byte, and the rest one further on
      have hsplit : (∀ i < n + 1, mem (ptr + i) = value) ↔
          mem ptr = value ∧ ∀ i < n, mem (ptr + 1 + i) = value := by
        constructor
        · intro h
          refine ⟨h 0 (Nat.succ_pos n), ?_⟩
          intro i hi
          rw [Nat.add_assoc, Nat.add_comm 1 i]
          exact h (i + 1) (Nat.succ_lt_succ hi)
        · rintro ⟨h0, hrest⟩ i hi
          cases i with
          | zero => exact h0
          | succ i =>
              rw [Nat.add_comm i 1, ← Nat.add_assoc]
              exact hrest i (Nat.lt_of_succ_lt_succ hi)
      by_cases hfirst : mem ptr = value
      · rw [verifyLoop, if_neg (not_not.mpr hfirst), ih]
        simp only [hsplit, hfirst, true_and]
      · rw [verifyLoop, if_pos hfirst, if_neg]
        rw [hsplit]
        exact fun h => hfirst h.1

/-! ### Blocks -/

/-- The disk's memory holds one value in each block, `none` standing for 0. -/
def Holds (disk : RdmaRamdisk) (heap : Heap) (view : Nat → Option UInt8) : Prop :=
  ∀ b, (b + 1) * disk.logicalBlockSize.toNat ≤ disk.sizeBytes.toNat →
    ∀ j < disk.logicalBlockSize.toNat,
      heap disk.base.block (disk.base.off + (b * disk.logicalBlockSize.toNat + j)) =
        (view b).getD 0

/-- A byte of a block is inside a range of blocks exactly when the block is. -/
theorem byte_in_range (lba n b : Nat) {l j : Nat} (hj : j < l) :
    (lba * l ≤ b * l + j ∧ b * l + j < lba * l + n * l) ↔ lba ≤ b ∧ b < lba + n := by
  have hpos : 0 < l := by omega
  have hdiv : (b * l + j) / l = b := by
    rw [Nat.mul_comm, Nat.mul_add_div hpos, Nat.div_eq_of_lt hj, Nat.add_zero]
  rw [← Nat.add_mul, ← Nat.le_div_iff_mul_le hpos, ← Nat.div_lt_iff_lt_mul hpos, hdiv]

/-- **One fill** lays its value over the blocks it covers, or changes nothing. -/
theorem Holds.fill (hlbs : disk.logicalBlockSize ≠ 0) {log : List (FillCall × Int)}
    (h : Holds disk heap (lastFill log)) (c : FillCall) :
    Holds disk (c.run disk heap).2 (lastFill ((c, (c.run disk heap).1) :: log)) := by
  unfold FillCall.run
  by_cases hon : OnDisk disk c.lba c.blockCount
  · rw [fill_of_onDisk hlbs hon]
    intro b hb j hj
    have hcover := byte_in_range c.lba.toNat c.blockCount.toNat b hj
    show (heap.memset _ _ _) disk.base.block _ = _
    rw [Heap.memset, Ptr.add, Function.update_self]
    by_cases hc : c.Covers b
    · rw [lastFill, if_pos ⟨rfl, hc⟩]
      refine if_pos ?_
      have := hcover.mpr hc
      show disk.base.off + c.lba.toNat * _ ≤ _ ∧ _ < disk.base.off + c.lba.toNat * _ +
        c.blockCount.toNat * _
      omega
    · rw [lastFill, if_neg fun hboth => hc hboth.2, ← h b hb j hj]
      refine if_neg ?_
      intro hin
      apply hc
      apply hcover.mp
      have hin' : disk.base.off + c.lba.toNat * disk.logicalBlockSize.toNat ≤
            disk.base.off + (b * disk.logicalBlockSize.toNat + j) ∧
          disk.base.off + (b * disk.logicalBlockSize.toNat + j) <
            disk.base.off + c.lba.toNat * disk.logicalBlockSize.toNat +
              c.blockCount.toNat * disk.logicalBlockSize.toNat := hin
      omega
  · obtain ⟨rc, heq, hne⟩ := fill_of_not_onDisk heap c.value hlbs hon
    rw [heq]
    intro b hb j hj
    rw [lastFill, if_neg fun hboth => hne hboth.1]
    exact h b hb j hj

/-- **Every history of fills** leaves in each block the value of its last one. -/
theorem Holds.afterFills (hlbs : disk.logicalBlockSize ≠ 0)
    (h : Holds disk heap fun _ => none) (fills : List FillCall) :
    Holds disk (afterFills disk heap fills) (lastFill (fillLog disk heap fills)) := by
  induction fills with
  | nil => exact h
  | cons c older ih => exact ih.fill hlbs c

/-- `rdma_ramdisk_verify` on blocks that are on the disk. -/
theorem verify_of_onDisk (hlbs : disk.logicalBlockSize ≠ 0) (h : OnDisk disk lba blockCount)
    {view : Nat → Option UInt8} (hview : Holds disk heap view) (v : UInt8) :
    rdmaRamdiskVerify disk heap lba blockCount v =
      if ∀ b, lba.toNat ≤ b → b < lba.toNat + blockCount.toNat → (view b).getD 0 = v then 0
      else - EIO := by
  have hpos : 0 < disk.logicalBlockSize.toNat :=
    Nat.pos_of_ne_zero fun h0 => hlbs (UInt32.toNat.inj h0)
  obtain ⟨m, hmap, haddr, hlen⟩ := mapLba_of_onDisk hlbs h
  -- a block of the range is on the disk
  have hfits : ∀ b, b < lba.toNat + blockCount.toNat →
      (b + 1) * disk.logicalBlockSize.toNat ≤ disk.sizeBytes.toNat := fun b hb =>
    (Nat.mul_le_mul_right _ hb).trans h.fits
  have hiff : (∀ i < blockBytes disk blockCount,
      heap disk.base.block (disk.base.off + blockOffset disk lba + i) = v) ↔
      ∀ b, lba.toNat ≤ b → b < lba.toNat + blockCount.toNat → (view b).getD 0 = v := by
    constructor
    · intro hall b hlo hhi
      have hbyte := (byte_in_range _ _ b hpos).mpr ⟨hlo, hhi⟩
      have hstart : blockOffset disk lba ≤ b * disk.logicalBlockSize.toNat + 0 := hbyte.1
      have hget := hall (b * disk.logicalBlockSize.toNat + 0 - blockOffset disk lba)
        (by unfold blockBytes blockOffset; omega)
      rw [Nat.add_assoc, Nat.add_sub_cancel' hstart, hview b (hfits b hhi) 0 hpos] at hget
      exact hget
    · intro hall i hi
      -- byte `i` of the range is in block `lba + i / lbs`
      have hb : i / disk.logicalBlockSize.toNat < blockCount.toNat :=
        (Nat.div_lt_iff_lt_mul hpos).mpr hi
      have hbyte := hview (lba.toNat + i / disk.logicalBlockSize.toNat) (hfits _ (by omega))
        (i % disk.logicalBlockSize.toNat) (Nat.mod_lt i hpos)
      rw [hall _ (Nat.le_add_right _ _) (by omega), Nat.add_mul, Nat.add_assoc,
        Nat.div_add_mod'] at hbyte
      rw [Nat.add_assoc]
      exact hbyte
  rw [rdmaRamdiskVerify, hmap]
  dsimp only
  rw [haddr, hlen, verifyLoop_eq]
  exact if_congr hiff rfl rfl

/-! ### The result -/

/-- A new disk has blocks of some length, and zeros in them. -/
theorem create_holds {Ctx : Type} {ops : TransportOps Ctx} {cfg : RamdiskConfig} {ctx ctx' : Ctx}
    {heap heap' : Heap} {calloced : Bool} {memalign : Except Int BlockId}
    (h : rdmaRamdiskCreate ops cfg ctx heap calloced memalign = .ok (disk, ctx', heap')) :
    disk.logicalBlockSize ≠ 0 ∧ Holds disk heap' fun _ => none := by
  unfold rdmaRamdiskCreate at h
  split at h
  · cases h
  rename_i hcfg
  split at h
  · cases h
  cases memalign with
  | error rc => cases h
  | ok block =>
      dsimp only at h
      split at h
      · cases h
      · obtain ⟨rfl, -, rfl⟩ : _ = disk ∧ _ = ctx' ∧ _ = heap' := by
          simpa only [Except.ok.injEq, Prod.mk.injEq] using h
        refine ⟨fun h0 => hcfg (.inr (.inl h0)), ?_⟩
        intro b hb j hj
        show (heap.memset ⟨block, 0⟩ 0 _) block (0 + _) = 0
        rw [Heap.memset, Function.update_self]
        refine if_pos ⟨Nat.zero_le _, ?_⟩
        have hin : b * cfg.logicalBlockSize.toNat + j < (b + 1) * cfg.logicalBlockSize.toNat := by
          rw [Nat.succ_mul]
          exact Nat.add_lt_add_left hj _
        exact Nat.add_lt_add_left (lt_of_lt_of_le hin hb) 0

/-- **Fill and verify agree over histories**, for every disk that
`rdma_ramdisk_create` returns, with any transport, and every sequence of fills. -/
theorem fillVerify_exact {Ctx : Type} (ops : TransportOps Ctx) (cfg : RamdiskConfig)
    (ctx ctx' : Ctx) (heap heap' : Heap) (calloced : Bool) (memalign : Except Int BlockId)
    (disk : RdmaRamdisk)
    (hcreate : rdmaRamdiskCreate ops cfg ctx heap calloced memalign = .ok (disk, ctx', heap'))
    (fills : List FillCall) : FillVerify disk heap' fills := by
  obtain ⟨hlbs, hzero⟩ := create_holds hcreate
  have hview := hzero.afterFills hlbs fills
  -- a block with no fill counts as one filled with 0
  have hlast : ∀ b v, (lastFill (fillLog disk heap' fills) b).getD 0 = v ↔
      lastFill (fillLog disk heap' fills) b = some v ∨
        lastFill (fillLog disk heap' fills) b = none ∧ v = 0 := by
    intro b v
    cases lastFill (fillLog disk heap' fills) b with
    | none => simp [eq_comm]
    | some w => simp
  refine ⟨?_, ?_, ?_, ?_⟩
  · intro lba blockCount v hon
    rw [verify_of_onDisk hlbs hon hview]
    simp only [hlast]
    split_ifs with hall
    · exact iff_of_true rfl hall
    · exact iff_of_false (by decide) hall
  · intro lba blockCount v hon hne
    rw [verify_of_onDisk hlbs hon hview] at hne ⊢
    split_ifs at hne ⊢ with hall
    · exact absurd rfl hne
    · rfl
  · intro c
    unfold FillCall.run
    by_cases hon : OnDisk disk c.lba c.blockCount
    · rw [fill_of_onDisk hlbs hon]
      exact iff_of_true rfl hon
    · obtain ⟨rc, heq, hne⟩ := fill_of_not_onDisk _ c.value hlbs hon
      rw [heq]
      exact iff_of_false hne hon
  · intro c hon
    obtain ⟨rc, heq, -⟩ := fill_of_not_onDisk _ c.value hlbs hon
    unfold FillCall.run
    rw [heq]

/-- Two blocks filled and compared, as in the prototype's own tests; a fill
beyond the end of the disk before it is refused. -/
theorem fillVerify_test :
    rdmaRamdiskVerify (createdDisk ⟨1048576, 512⟩ 1)
      (afterFills (createdDisk ⟨1048576, 512⟩ 1)
        (Heap.memset (fun _ _ => 7) ⟨1, 0⟩ 0 1048576) [⟨8, 2, 0xA5⟩, ⟨2047, 2, 1⟩])
      8 2 0xA5 = 0 := by
  have hcfg : RamdiskConfig.Valid ⟨1048576, 512⟩ :=
    ⟨by decide, by decide, by decide, by decide⟩
  have hexact := fillVerify_exact mockRdmaOps ⟨1048576, 512⟩ (mockRdmaContextInit ⟨2, 0⟩ 4096) _
    (fun _ _ => 7) _ true (.ok 1) _ (create_eq hcfg (by decide) _)
    [⟨8, 2, 0xA5⟩, ⟨2047, 2, 1⟩]
  refine (hexact.verify_ok 8 2 0xA5 ⟨by decide, by decide⟩).mpr ?_
  intro b hlo hhi
  refine .inl ?_
  have hcode := (fillVerify_exact mockRdmaOps ⟨1048576, 512⟩ (mockRdmaContextInit ⟨2, 0⟩ 4096) _
    (fun _ _ => 7) _ true (.ok 1) _ (create_eq hcfg (by decide) _)
    [⟨2047, 2, 1⟩]).fill_ok ⟨8, 2, 0xA5⟩ |>.mpr ⟨by decide, by decide⟩
  exact if_pos ⟨hcode, hlo, hhi⟩

end Prototype

end DirectStorage
