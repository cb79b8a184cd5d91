/-
DirectStorage/BlkdevInit.lean

Loading the two kernel drivers: `urma_blkdev_init` and `rdma_blkdev_init`, with
`alloc_ramdisk` and `alloc_disk`, the ladder of labels that undoes a failed
load, and the exit functions.

What the kernel answers to each call is in an `InitOutcome`.  The module
parameters `device_size_mb` and `logical_block_size` are used as they come: the
first is shifted, the second divides, and the quotient is announced as a number
of 512-byte sectors.  The setup of the transport may fail without consequence,
so all that is kept of it is whether it leaves something to clean up.

Main results: `blkdevInit_endsWell` and `blkdevExit_not_live`, a failed load and
an unload leave nothing behind; `sizedRight_iff`, which parameters give a device
of the size they ask for.
-/
import DirectStorage.BlkdevBounds
import DirectStorage.Ledger

namespace DirectStorage

namespace Blkdev

/-! ### What loading meets and what it leaves -/

/-- What a driver acquires while it is loaded. -/
inductive InitKind
  | major
  | dev
  /-- The direct-IO queue, of the URMA driver only. -/
  | ioQueue
  | ramdisk
  | transport
  | tagSet
  | disk
  deriving DecidableEq

/-- What the kernel answers during a load; codes are 0 for success. -/
structure InitOutcome where
  /-- A major number, or a negative code. -/
  registerBlkdev : Int
  kzalloc : Bool
  allocWorkqueue : Bool
  /-- `vmalloc_user` finds memory of this size. -/
  vmallocUser : UInt64 → Bool
  /-- `vmalloc_user(0)` is `NULL`. -/
  vmallocUser_zero : vmallocUser 0 = false
  /-- The transport's setup leaves something to clean up. -/
  transport : Bool
  allocTagSet : Int
  allocDisk : Int
  addDisk : Int

/-- The device as far as its size goes; `capacity` is in sectors of 512 bytes. -/
structure Device where
  ramdiskSize : UInt64
  capacity : UInt64

/-- How a function of the load ends: with a code, in a divide error, or with a
value; and what is held then. -/
inductive InitResult (α : Type)
  | failed (rc : Int) (held : Holdings InitKind)
  | divideError (held : Holdings InitKind)
  | ready (value : α) (held : Holdings InitKind)

/-! ### Loading -/

/-- `urma_blkdev_alloc_ramdisk` and `rdma_blkdev_alloc_ramdisk`: the size, once
there is memory. -/
def allocRamdisk (deviceSizeMb : UInt64) (k : InitOutcome) : Except Int UInt64 :=
  let ramdiskSize := deviceSizeMb <<< 20
  if k.vmallocUser ramdiskSize then .ok ramdiskSize else .error (-ENOMEM)

/-- `urma_blkdev_alloc_disk` and `rdma_blkdev_alloc_disk`: the capacity given to
`set_capacity`. -/
def allocDisk (logicalBlockSize : UInt32) (ramdiskSize : UInt64) (k : InitOutcome)
    (s : Holdings InitKind) : InitResult UInt64 :=
  if k.allocTagSet ≠ 0 then .failed k.allocTagSet s
  else
    let s := s.acquire .tagSet
    if k.allocDisk ≠ 0 then .failed k.allocDisk (s.release .tagSet)
    else
      let s := s.acquire .disk
      -- `ramdisk_size / logical_block_size`
      if logicalBlockSize = 0 then .divideError s
      else
        let capacity := diskCapacity logicalBlockSize ramdiskSize
        if k.addDisk ≠ 0 then .failed k.addDisk ((s.release .disk).release .tagSet)
        else .ready capacity s

/-- `urma_blkdev_find_device` and the two `setup` functions. -/
def setupTransport (k : InitOutcome) (s : Holdings InitKind) : Holdings InitKind :=
  if k.transport then s.acquire .transport else s

/-- The label `err_unregister`. -/
def errUnregister (s : Holdings InitKind) : Holdings InitKind := s.release .major

/-- The label `err_free_dev`, which falls through to the one before. -/
def errFreeDev (s : Holdings InitKind) : Holdings InitKind := errUnregister (s.release .dev)

/-- The label `err_cleanup_queue`. -/
def errCleanupQueue (s : Holdings InitKind) : Holdings InitKind := errFreeDev (s.release .ioQueue)

/-- From `alloc_ramdisk` on.  `undo` is the ladder for what was acquired before;
the label above it, `err_cleanup_urma` or `err_cleanup_rdma`, gives back the
transport and the ramdisk. -/
def loadDevice (undo : Holdings InitKind → Holdings InitKind) (deviceSizeMb : UInt64)
    (logicalBlockSize : UInt32) (k : InitOutcome) (s : Holdings InitKind) : InitResult Device :=
  match allocRamdisk deviceSizeMb k with
  | .error rc => .failed rc (undo s)
  | .ok ramdiskSize =>
      let s := setupTransport k (s.acquire .ramdisk)
      match allocDisk logicalBlockSize ramdiskSize k s with
      | .failed rc s => .failed rc (undo ((s.release .transport).release .ramdisk))
      | .divideError s => .divideError s
      | .ready capacity s => .ready ⟨ramdiskSize, capacity⟩ s

/-- `urma_blkdev_init`. -/
def urmaBlkdevInit (deviceSizeMb : UInt64) (logicalBlockSize : UInt32) (k : InitOutcome) :
    InitResult Device :=
  if k.registerBlkdev < 0 then .failed k.registerBlkdev Holdings.start
  else
    let s := Holdings.start.acquire .major
    if !k.kzalloc then .failed (-ENOMEM) (errUnregister s)
    else
      let s := s.acquire .dev
      -- `urma_blkdev_init_io_queue`
      if !k.allocWorkqueue then .failed (-ENOMEM) (errFreeDev s)
      else
        let s := s.acquire .ioQueue
        loadDevice errCleanupQueue deviceSizeMb logicalBlockSize k s

/-- `rdma_blkdev_init`. -/
def rdmaBlkdevInit (deviceSizeMb : UInt64) (logicalBlockSize : UInt32) (k : InitOutcome) :
    InitResult Device :=
  if k.registerBlkdev < 0 then .failed k.registerBlkdev Holdings.start
  else
    let s := Holdings.start.acquire .major
    if !k.kzalloc then .failed (-ENOMEM) (errUnregister s)
    else
      let s := s.acquire .dev
      loadDevice errFreeDev deviceSizeMb logicalBlockSize k s

/-- `urma_blkdev_free_disk` and `rdma_blkdev_free_disk`. -/
def freeDisk (s : Holdings InitKind) : Holdings InitKind := (s.release .disk).release .tagSet

/-- `urma_blkdev_exit`, with the device there. -/
def urmaBlkdevExit (s : Holdings InitKind) : Holdings InitKind :=
  let s := freeDisk (s.release .ioQueue)
  let s := (s.release .transport).release .ramdisk
  (s.release .dev).release .major

/-- `rdma_blkdev_exit`, with the device there. -/
def rdmaBlkdevExit (s : Holdings InitKind) : Holdings InitKind :=
  let s := freeDisk s
  let s := (s.release .transport).release .ramdisk
  (s.release .dev).release .major

def Driver.init : Driver → UInt64 → UInt32 → InitOutcome → InitResult Device
  | .urma => urmaBlkdevInit
  | .rdma => rdmaBlkdevInit

def Driver.exit : Driver → Holdings InitKind → Holdings InitKind
  | .urma => urmaBlkdevExit
  | .rdma => rdmaBlkdevExit

/-! ### Nothing is left behind -/

/-- What the load of a driver has acquired when it comes to the ramdisk, newest
first. -/
def Driver.beforeRamdisk : Driver → List InitKind
  | .urma => [.ioQueue, .dev, .major]
  | .rdma => [.dev, .major]

/-- What the setup of the transport has left. -/
def leftByTransport (k : InitOutcome) : List InitKind := if k.transport then [.transport] else []

/-- How a load that holds `ks` before the ramdisk ends: after a failure nothing
is held, and the device is what the parameters make of it. -/
def EndsWell (ks : List InitKind) (mb : UInt64) (lbs : UInt32) (k : InitOutcome) :
    InitResult Device → Prop
  | .failed _ s => s.Holds []
  | .divideError _ => lbs = 0 ∧ k.vmallocUser (mb <<< 20) = true
  | .ready dev s => lbs ≠ 0 ∧ k.vmallocUser (mb <<< 20) = true ∧
      dev = ⟨mb <<< 20, diskCapacity lbs (mb <<< 20)⟩ ∧
      s.Holds (.disk :: .tagSet :: (leftByTransport k ++ .ramdisk :: ks))

section Load

variable {mb : UInt64} {lbs : UInt32} {k : InitOutcome}
  {s : Holdings InitKind} {ks : List InitKind}

/-- `alloc_disk` undoes what it has done, or adds the tag set and the disk. -/
theorem allocDisk_cases (lbs : UInt32) (size : UInt64) (k : InitOutcome)
    (hs : s.Holds ks) (htag : InitKind.tagSet ∉ ks)
    (hdisk : InitKind.disk ∉ ks) :
    (∃ rc s', allocDisk lbs size k s = .failed rc s' ∧ s'.Holds ks) ∨
      (∃ s', allocDisk lbs size k s = .divideError s' ∧ lbs = 0) ∨
      (∃ s', allocDisk lbs size k s = .ready (diskCapacity lbs size) s' ∧ lbs ≠ 0 ∧
        s'.Holds (.disk :: .tagSet :: ks)) := by
  have hs₁ := hs.acquire htag
  have hs₂ := hs₁.acquire (k := .disk) (by simp [hdisk])
  unfold allocDisk
  by_cases h₁ : k.allocTagSet ≠ 0
  · exact .inl ⟨_, _, if_pos h₁, hs⟩
  rw [if_neg h₁]
  by_cases h₂ : k.allocDisk ≠ 0
  · exact .inl ⟨_, _, if_pos h₂, hs₁.release⟩
  rw [if_neg h₂]
  by_cases h₃ : lbs = 0
  · exact .inr (.inl ⟨_, if_pos h₃, h₃⟩)
  rw [if_neg h₃]
  by_cases h₄ : k.addDisk ≠ 0
  · exact .inl ⟨_, _, if_pos h₄, hs₂.release.release⟩
  · exact .inr (.inr ⟨_, if_neg h₄, h₃, hs₂⟩)

theorem setupTransport_holds (hs : s.Holds ks) (htr : InitKind.transport ∉ ks) :
    (setupTransport k s).Holds (leftByTransport k ++ ks) := by
  unfold setupTransport leftByTransport
  split
  · exact hs.acquire htr
  · exact hs

/-- The clean-up of the transport finds what its setup has left. -/
theorem cleanupTransport_holds (htr : InitKind.transport ∉ ks)
    (hs : s.Holds (leftByTransport k ++ ks)) : (s.release .transport).Holds ks := by
  unfold leftByTransport at hs
  split at hs
  · exact hs.release
  · rw [hs.release_of_not_mem htr]
    exact hs

/-- From `alloc_ramdisk` on, for a ladder that gives back what was there. -/
theorem loadDevice_endsWell {undo : Holdings InitKind → Holdings InitKind} (hs : s.Holds ks)
    (hundo : ∀ t : Holdings InitKind, t.Holds ks → (undo t).Holds [])
    (hnew : ∀ x ∈ ks, x ∈ [InitKind.ioQueue, .dev, .major]) :
    EndsWell ks mb lbs k (loadDevice undo mb lbs k s) := by
  have hfresh : ∀ x, x ∉ [InitKind.ioQueue, .dev, .major] → x ∉ ks := fun x hx hmem =>
    hx (hnew x hmem)
  have hram := hs.acquire (hfresh .ramdisk (by decide))
  have htr : InitKind.transport ∉ InitKind.ramdisk :: ks := by
    simp [hfresh .transport (by decide)]
  have hset := setupTransport_holds (k := k) hram htr
  have hout : ∀ x, x ∉ [InitKind.transport, .ramdisk] → x ∉ ks →
      x ∉ leftByTransport k ++ InitKind.ramdisk :: ks := by
    intro x hx hks hmem
    rcases List.mem_append.mp hmem with hmem | hmem
    · unfold leftByTransport at hmem
      split at hmem
      · simp_all
      · cases hmem
    · simp_all
  unfold loadDevice allocRamdisk
  by_cases hmem : k.vmallocUser (mb <<< 20) = true
  · simp only [hmem, if_true]
    rcases allocDisk_cases lbs (mb <<< 20) k hset
        (hout _ (by decide) (hfresh _ (by decide))) (hout _ (by decide) (hfresh _ (by decide)))
      with ⟨rc, s', heq, hs'⟩ | ⟨s', heq, hzero⟩ | ⟨s', heq, hne, hs'⟩
    · rw [heq]
      exact hundo _ (cleanupTransport_holds htr hs').release
    · rw [heq]
      exact ⟨hzero, hmem⟩
    · rw [heq]
      exact ⟨hne, hmem, rfl, hs'⟩
  · simp only [hmem]
    exact hundo s hs

end Load

variable (d : Driver) (mb : UInt64) (lbs : UInt32) (k : InitOutcome)

/-- **A failed load leaves nothing behind**, whatever call fails; and a load
that succeeds holds everything once. -/
theorem blkdevInit_endsWell : EndsWell d.beforeRamdisk mb lbs k (d.init mb lbs k) := by
  have hmajor := (Holdings.holds_start (κ := InitKind)).acquire (k := .major) (by simp)
  have hdev := hmajor.acquire (k := .dev) (by simp)
  have hqueue := hdev.acquire (k := .ioQueue) (by simp)
  have hundo : ∀ t : Holdings InitKind, t.Holds [.dev, .major] → (errFreeDev t).Holds [] :=
    fun t ht => ht.release.release
  cases d with
  | urma =>
      show EndsWell _ _ _ _ (urmaBlkdevInit mb lbs k)
      unfold urmaBlkdevInit
      split
      · exact Holdings.holds_start
      split
      · exact hmajor.release
      split
      · exact hundo _ hdev
      · exact loadDevice_endsWell hqueue (fun t ht => hundo _ ht.release)
          (by simp [Driver.beforeRamdisk])
  | rdma =>
      show EndsWell _ _ _ _ (rdmaBlkdevInit mb lbs k)
      unfold rdmaBlkdevInit
      split
      · exact Holdings.holds_start
      split
      · exact hmajor.release
      · exact loadDevice_endsWell hdev hundo (by simp [Driver.beforeRamdisk])

/-- **Unloading leaves nothing behind.** -/
theorem blkdevExit_not_live {dev : Device} {s : Holdings InitKind}
    (h : d.init mb lbs k = .ready dev s) (x : InitKind × Nat) :
    ¬ Live (d.exit s).ledger.log x := by
  refine Holdings.Holds.not_live ?_ x
  have hend := blkdevInit_endsWell d mb lbs k
  rw [h] at hend
  obtain ⟨-, -, -, hs⟩ := hend
  have htr : ∀ ks : List InitKind, InitKind.transport ∉ ks → ∀ t : Holdings InitKind,
      t.Holds (leftByTransport k ++ .ramdisk :: ks) →
        ((t.release .transport).release .ramdisk).Holds ks := fun ks hks t ht =>
    (cleanupTransport_holds (by simp [hks]) ht).release
  cases d with
  | urma =>
      -- the queue goes first
      have hqueue : s.Holds (.ioQueue :: .disk :: .tagSet ::
          (leftByTransport k ++ [.ramdisk, .dev, .major])) := by
        refine hs.perm ?_
        unfold leftByTransport Driver.beforeRamdisk
        split <;> decide
      exact (htr [.dev, .major] (by simp) _ hqueue.release.release.release).release.release
  | rdma => exact (htr [.dev, .major] (by simp) _ hs.release.release).release.release

/-! ### The size of the device -/

/-- What the parameters ask for: the load fails, or the device has as many bytes
as `device_size_mb` says and is announced with no more sectors than it has. -/
def SizedRight (mb : UInt64) : InitResult Device → Prop
  | .failed _ _ => True
  | .divideError _ => False
  | .ready dev _ => dev.ramdiskSize.toNat = mb.toNat * 2 ^ 20 ∧
      dev.capacity.toNat ≤ dev.ramdiskSize.toNat / 512

/-- The shift keeps the low 44 bits of `device_size_mb`. -/
theorem toNat_shiftLeft_mb (mb : UInt64) :
    (mb <<< 20).toNat = mb.toNat % 2 ^ 44 * 2 ^ 20 := by
  rw [UInt64.toNat_shiftLeft, Nat.shiftLeft_eq]
  show mb.toNat * 2 ^ 20 % 2 ^ 64 = _
  omega

/-- Blocks shorter than a sector are announced as sectors that are not there. -/
theorem capacity_le_iff {m lbs : Nat} (hm : 0 < m) (hlbs : 0 < lbs) :
    m * 2 ^ 20 / lbs ≤ m * 2 ^ 20 / 512 ↔ 512 ≤ lbs := by
  constructor
  · intro h
    by_contra hlt
    have hmany : m * 2052 ≤ m * 2 ^ 20 / lbs := by
      rw [Nat.le_div_iff_mul_le hlbs, Nat.mul_assoc]
      exact Nat.mul_le_mul_left m (by omega)
    omega
  · intro h
    exact Nat.div_le_div_left h (by decide)

/-- Everything there is to acquire can be had. -/
def plenty : InitOutcome where
  registerBlkdev := 250
  kzalloc := true
  allocWorkqueue := true
  vmallocUser := fun size => size != 0
  vmallocUser_zero := rfl
  transport := true
  allocTagSet := 0
  allocDisk := 0
  addDisk := 0

theorem vmallocUser_plenty (size : UInt64) : plenty.vmallocUser size = (size != 0) := rfl

/-- With everything at hand, a load comes to the division. -/
theorem loadDevice_plenty (undo : Holdings InitKind → Holdings InitKind)
    (s : Holdings InitKind) (hmem : (mb <<< 20 : UInt64) ≠ 0) :
    (lbs = 0 → ∃ s', loadDevice undo mb lbs plenty s = .divideError s') ∧
      (lbs ≠ 0 → ∃ s', loadDevice undo mb lbs plenty s =
        .ready ⟨mb <<< 20, diskCapacity lbs (mb <<< 20)⟩ s') := by
  have hram : allocRamdisk mb plenty = .ok (mb <<< 20) := by
    unfold allocRamdisk
    dsimp only
    rw [vmallocUser_plenty, if_pos (bne_iff_ne.mpr hmem)]
  unfold loadDevice
  rw [hram]
  refine ⟨?_, ?_⟩
  · rintro rfl
    exact ⟨_, rfl⟩
  · intro hlbs
    have hdisk : ∀ s', allocDisk lbs (mb <<< 20) plenty s' =
        .ready (diskCapacity lbs (mb <<< 20)) ((s'.acquire .tagSet).acquire .disk) := by
      intro s'
      unfold allocDisk
      rw [if_neg (by decide), if_neg (by decide), if_neg hlbs, if_neg (by decide)]
    dsimp only
    rw [hdisk]
    exact ⟨_, rfl⟩

theorem init_plenty (hmem : (mb <<< 20 : UInt64) ≠ 0) :
    (lbs = 0 → ∃ s, d.init mb lbs plenty = .divideError s) ∧
      (lbs ≠ 0 → ∃ s, d.init mb lbs plenty =
        .ready ⟨mb <<< 20, diskCapacity lbs (mb <<< 20)⟩ s) := by
  cases d with
  | urma =>
      have heq : Driver.urma.init mb lbs plenty = loadDevice errCleanupQueue mb lbs plenty
          (((Holdings.start.acquire .major).acquire .dev).acquire .ioQueue) := by
        show urmaBlkdevInit mb lbs plenty = _
        unfold urmaBlkdevInit
        rw [if_neg (by decide), if_neg (by decide), if_neg (by decide)]
      rw [heq]
      exact loadDevice_plenty mb lbs errCleanupQueue _ hmem
  | rdma =>
      have heq : Driver.rdma.init mb lbs plenty = loadDevice errFreeDev mb lbs plenty
          ((Holdings.start.acquire .major).acquire .dev) := by
        show rdmaBlkdevInit mb lbs plenty = _
        unfold rdmaBlkdevInit
        rw [if_neg (by decide), if_neg (by decide)]
      rw [heq]
      exact loadDevice_plenty mb lbs errFreeDev _ hmem

/-- **When a driver comes up with the size it was asked for**: exactly if the
number of bytes fits into 64 bits and a logical block has at least 512 bytes, or
if the shift leaves no bytes at all, since `vmalloc_user` then refuses. -/
theorem sizedRight_iff (d : Driver) (mb : UInt64) (lbs : UInt32) :
    (∀ k : InitOutcome, SizedRight mb (d.init mb lbs k)) ↔
      (mb.toNat * 2 ^ 20 < 2 ^ 64 ∧ 512 ≤ lbs.toNat) ∨ mb.toNat % 2 ^ 44 = 0 := by
  have hsize := toNat_shiftLeft_mb mb
  constructor
  · intro h
    by_cases hzero : mb.toNat % 2 ^ 44 = 0
    · exact .inr hzero
    refine .inl ?_
    have hmem : (mb <<< 20 : UInt64) ≠ 0 := by
      intro h0
      rw [h0, UInt64.toNat_zero] at hsize
      omega
    have hright := h plenty
    obtain ⟨hdivide, hready⟩ := init_plenty d mb lbs hmem
    by_cases hlbs : lbs = 0
    · obtain ⟨s, heq⟩ := hdivide hlbs
      rw [heq] at hright
      exact hright.elim
    · have hpos : 0 < lbs.toNat := Nat.pos_of_ne_zero fun h0 => hlbs (UInt32.toNat.inj h0)
      obtain ⟨s, heq⟩ := hready hlbs
      rw [heq] at hright
      obtain ⟨hbytes, hcap⟩ := hright
      dsimp only at hbytes hcap
      rw [toNat_diskCapacity, hsize, capacity_le_iff (by omega) hpos] at hcap
      exact ⟨by rw [← hbytes]; exact UInt64.toNat_lt _, hcap⟩
  · intro h k
    have hend := blkdevInit_endsWell d mb lbs k
    cases hres : d.init mb lbs k with
    | failed rc s => trivial
    | divideError s =>
        rw [hres] at hend
        obtain ⟨hlbs, hmem⟩ := hend
        rcases h with ⟨-, hle⟩ | hzero
        · rw [hlbs] at hle
          exact absurd hle (by decide)
        · rw [hzero, Nat.zero_mul] at hsize
          rw [show (mb <<< 20 : UInt64) = 0 from UInt64.toNat.inj hsize, k.vmallocUser_zero] at hmem
          cases hmem
    | ready dev s =>
        rw [hres] at hend
        obtain ⟨hlbs, hmem, rfl, -⟩ := hend
        rcases h with ⟨hfit, hle⟩ | hzero
        · refine ⟨hsize.trans (by omega), ?_⟩
          dsimp only
          rw [toNat_diskCapacity]
          exact Nat.div_le_div_left hle (by decide)
        · rw [hzero, Nat.zero_mul] at hsize
          rw [show (mb <<< 20 : UInt64) = 0 from UInt64.toNat.inj hsize, k.vmallocUser_zero] at hmem
          cases hmem

/-- The three ways to go wrong: blocks of no bytes divide by zero, blocks of 256
bytes announce a ramdisk of 1 MiB with twice its sectors, and `2 ^ 44 + 1` MiB
become one. -/
theorem not_sizedRight_plenty : ¬ SizedRight 1 (d.init 1 0 plenty) ∧
    ¬ SizedRight 1 (d.init 1 256 plenty) ∧
    ¬ SizedRight 0x100000000001 (d.init 0x100000000001 512 plenty) := by
  refine ⟨?_, ?_, ?_⟩
  · obtain ⟨s, heq⟩ := (init_plenty d 1 0 (by decide)).1 rfl
    rw [heq]
    exact id
  · obtain ⟨s, heq⟩ := (init_plenty d 1 256 (by decide)).2 (by decide)
    rw [heq]
    rintro ⟨-, hcap⟩
    exact absurd hcap (by decide)
  · obtain ⟨s, heq⟩ := (init_plenty d 0x100000000001 512 (by decide)).2 (by decide)
    rw [heq]
    rintro ⟨hbytes, -⟩
    exact absurd hbytes (by decide)

theorem not_sizedRight :
    (¬ SizedRight 1 (Driver.urma.init 1 0 plenty) ∧
      ¬ SizedRight 1 (Driver.urma.init 1 256 plenty) ∧
      ¬ SizedRight 0x100000000001 (Driver.urma.init 0x100000000001 512 plenty)) ∧
    ¬ SizedRight 1 (Driver.rdma.init 1 0 plenty) ∧
      ¬ SizedRight 1 (Driver.rdma.init 1 256 plenty) ∧
      ¬ SizedRight 0x100000000001 (Driver.rdma.init 0x100000000001 512 plenty) :=
  ⟨not_sizedRight_plenty .urma, not_sizedRight_plenty .rdma⟩

end Blkdev

end DirectStorage
