/-
DirectStorage/BlkdevStore.lean

When the kernel ramdisk is a store of sectors.

The block layer counts in sectors of 512 bytes; `queue_rq` multiplies the
start sector by the logical block size all the same.  A request for the
logical blocks `i .. i + n` therefore lands at byte `k * i * lbs`, where
`k = lbs / 512`, and its later blocks follow without gaps: the same block is
kept in different places depending on where its request started.

If every request has at most one block, or if `k = 1`, block `i` is always
kept at `place`, an injective map, and the ramdisk is a store of sectors seen
through that map.  Otherwise a write of two blocks and a read of the second
one disagree.  `storeOfSectors_iff` puts both together.
-/
import DirectStorage.Blkdev
import Mathlib.Data.Nat.ModEq

namespace DirectStorage

namespace Blkdev

variable {d : Driver} {lbs : UInt32} {size : UInt64}

/-! ### The property -/

/-- A READ or WRITE the block layer may issue: start and length are multiples
of the logical block size, and it ends inside the capacity. -/
structure ValidRq (lbs : UInt32) (size : UInt64) (rq : Rq) : Prop where
  start : lbs.toNat ∣ 512 * rq.pos.toNat
  length : lbs.toNat ∣ rq.bytes
  inside : 512 * rq.pos.toNat + rq.bytes ≤ 512 * (diskCapacity lbs size).toNat

/-- The ramdisk after a history of requests, newest first. -/
def memAfter (d : Driver) (lbs : UInt32) (size : UInt64) : List Rq → ByteMem
  | [] => ByteMem.zero
  | rq :: older => (d.queueRq lbs size (memAfter d lbs size older) rq).mem

/-- The byte of the last WRITE in a history (newest first) that covers byte `q`
of the device, or 0. -/
def lastWritten : List Rq → Nat → UInt8
  | [], _ => 0
  | rq :: older, q =>
      if rq.dir = .write ∧ 512 * rq.pos.toNat ≤ q ∧ q < 512 * rq.pos.toNat + rq.bytes then
        rq.bvecs.flatten.getD (q - 512 * rq.pos.toNat) 0
      else lastWritten older q

/-- After every history of valid requests, a READ returns for each byte the
data of the last WRITE that covered it. -/
def StoreOfSectors (d : Driver) (lbs : UInt32) (size : UInt64) : Prop :=
  ∀ (history : List Rq) (rd : Rq), (∀ rq ∈ history, ValidRq lbs size rq) →
    ValidRq lbs size rd → rd.dir = .read →
    (d.queueRq lbs size (memAfter d lbs size history) rd).status = .ok ∧
    (d.queueRq lbs size (memAfter d lbs size history) rd).bvecs.flatten =
      ByteMem.load (lastWritten history) (512 * rd.pos.toNat) rd.bytes

theorem lastWritten_write {rq : Rq} (h : rq.dir = .write) (older : List Rq) :
    lastWritten (rq :: older) =
      ByteMem.store (lastWritten older) (512 * rq.pos.toNat) rq.bvecs.flatten := by
  funext q
  simp only [lastWritten, h, true_and, ByteMem.store, Rq.bytes]

theorem lastWritten_read {rq : Rq} (h : rq.dir = .read) (older : List Rq) :
    lastWritten (rq :: older) = lastWritten older := by
  funext q
  simp [lastWritten, h]

/-! ### Where requests land -/

theorem toNat_diskCapacity (lbs : UInt32) (size : UInt64) :
    (diskCapacity lbs size).toNat = size.toNat / lbs.toNat := by
  rw [diskCapacity, UInt64.toNat_div, UInt32.toNat_toUInt64]

/-- A valid request in units of logical blocks: it starts at block `i` and has
`n` blocks. -/
theorem ValidRq.blocks {k : Nat} {rq : Rq} (h : ValidRq lbs size rq)
    (hk : lbs.toNat = 512 * k) : ∃ i n, rq.pos.toNat = k * i ∧ rq.bytes = lbs.toNat * n ∧
      k * (i + n) ≤ size.toNat / lbs.toNat := by
  obtain ⟨i, hi⟩ := h.start
  obtain ⟨n, hn⟩ := h.length
  have hinside := h.inside
  rw [toNat_diskCapacity, hi, hn, hk, Nat.mul_assoc, Nat.mul_assoc] at hinside
  refine ⟨i, n, ?_, hn, ?_⟩
  · rw [hk, Nat.mul_assoc] at hi
    exact Nat.eq_of_mul_eq_mul_left (by decide) hi
  · rw [hk, Nat.mul_add]
    exact Nat.le_of_mul_le_mul_left (by rw [Nat.mul_add]; exact hinside) (by decide : 0 < 512)

/-- A valid request is never refused. -/
theorem ValidRq.fits {k : Nat} {rq : Rq} (h : ValidRq lbs size rq) (hk : lbs.toNat = 512 * k)
    (hpos : 0 < k) : rq.pos.toNat * lbs.toNat + rq.bytes ≤ size.toNat := by
  obtain ⟨i, n, hi, hn, hle⟩ := h.blocks hk
  have hmul : k * (i + n) * lbs.toNat ≤ size.toNat :=
    (Nat.mul_le_mul_right _ hle).trans (Nat.div_mul_le_self _ _)
  have hn' : n ≤ k * n := Nat.le_mul_of_pos_left n hpos
  calc rq.pos.toNat * lbs.toNat + rq.bytes
      = k * i * lbs.toNat + n * lbs.toNat := by rw [hi, hn, Nat.mul_comm lbs.toNat n]
    _ = (k * i + n) * lbs.toNat := (Nat.add_mul _ _ _).symm
    _ ≤ k * (i + n) * lbs.toNat := by
        refine Nat.mul_le_mul_right _ ?_
        rw [Nat.mul_add]
        exact Nat.add_le_add_left hn' _
    _ ≤ size.toNat := hmul

/-- Where a byte of the device is kept when its request starts in its own
block. -/
def place (k lbs q : Nat) : Nat := k * (q / lbs) * lbs + q % lbs

theorem place_injective {k l : Nat} (hk : 0 < k) (hl : 0 < l) :
    Function.Injective (place k l) := by
  intro q q' h
  unfold place at h
  -- quotient and remainder can be read off
  have hmod : q % l = q' % l := by
    have := congrArg (· % l) h
    simpa [Nat.mul_add_mod_self_right] using this
  have hdiv : k * (q / l) = k * (q' / l) := by
    rw [hmod] at h
    exact Nat.eq_of_mul_eq_mul_right hl (Nat.add_right_cancel h)
  have hquot : q / l = q' / l := Nat.eq_of_mul_eq_mul_left hk hdiv
  rw [← Nat.div_add_mod q l, ← Nat.div_add_mod q' l, hquot, hmod]

/-- A request of one block, and any request when a block is a sector, is kept
where `place` says. -/
theorem ValidRq.contiguous {k : Nat} {rq : Rq} (h : ValidRq lbs size rq)
    (hk : lbs.toNat = 512 * k) (hpos : 0 < k) (hshort : k = 1 ∨ rq.bytes ≤ lbs.toNat) :
    ByteMem.Contiguous (place k lbs.toNat) (512 * rq.pos.toNat) (rq.pos.toNat * lbs.toNat)
      rq.bytes := by
  obtain ⟨i, n, hi, hn, -⟩ := h.blocks hk
  have hstart : 512 * rq.pos.toNat = lbs.toNat * i := by rw [hi, hk, Nat.mul_assoc]
  intro j hj
  unfold place
  rcases hshort with rfl | hle
  · rw [Nat.one_mul, Nat.div_add_mod', hstart, hi, Nat.one_mul, Nat.mul_comm i]
  · have hj' : j < lbs.toNat := by omega
    rw [hstart, Nat.mul_add_div (by omega), Nat.div_eq_of_lt hj', Nat.add_zero,
      Nat.mul_add_mod, Nat.mod_eq_of_lt hj', hi]

/-! ### Short requests -/

/-- No valid request has more than one block. -/
def SingleBlock (lbs : UInt32) (size : UInt64) : Prop :=
  ∀ rq, ValidRq lbs size rq → rq.bytes ≤ lbs.toNat

/-- With fewer than two blocks on the disk there is no longer request. -/
theorem singleBlock_of_small {k : Nat} (hk : lbs.toNat = 512 * k)
    (h : size.toNat / lbs.toNat < 2 * k) : SingleBlock lbs size := by
  intro rq hrq
  obtain ⟨i, n, -, hn, hle⟩ := hrq.blocks hk
  have hlt : i + n < 2 := by
    refine Nat.lt_of_mul_lt_mul_left (a := k) ?_
    rw [Nat.mul_comm k 2]
    exact lt_of_le_of_lt hle h
  rw [hn]
  exact (Nat.mul_le_mul_left _ (by omega : n ≤ 1)).trans (Nat.mul_one _).le

/-- With blocks of `2 ^ 31` bytes two of them do not fit in a request. -/
theorem singleBlock_of_huge (h : 2 ^ 32 ≤ 2 * lbs.toNat) : SingleBlock lbs size := by
  intro rq hrq
  obtain ⟨n, hn⟩ := hrq.length
  have hlt : lbs.toNat * n < lbs.toNat * 2 := by
    have := rq.bytes_lt
    rw [← hn, Nat.mul_comm lbs.toNat 2]
    exact lt_of_lt_of_le this h
  have : n < 2 := Nat.lt_of_mul_lt_mul_left hlt
  rw [hn]
  exact (Nat.mul_le_mul_left _ (by omega : n ≤ 1)).trans (Nat.mul_one _).le

/-- **The sufficient condition**: if blocks are sectors or requests are short,
the ramdisk is the store of sectors, seen through `place`. -/
theorem memAfter_seenThrough {k : Nat} (hk : lbs.toNat = 512 * k) (hpos : 0 < k)
    (hshort : k = 1 ∨ SingleBlock lbs size) (history : List Rq)
    (hvalid : ∀ rq ∈ history, ValidRq lbs size rq) :
    ByteMem.SeenThrough (place k lbs.toNat) (memAfter d lbs size history)
      (lastWritten history) := by
  induction history with
  | nil => exact fun _ => rfl
  | cons rq older ih =>
      have hseen := ih fun r hr => hvalid r (List.mem_cons_of_mem _ hr)
      have hrq := hvalid rq List.mem_cons_self
      have hc := hrq.contiguous hk hpos (hshort.imp_right fun h => h rq hrq)
      rw [memAfter, Driver.queueRq_eq]
      cases hdir : rq.dir with
      | write =>
          rw [(queueRq_write _ hdir (hrq.fits hk hpos)).2, lastWritten_write hdir]
          exact hseen.store (place_injective hpos (by omega)) hc
      | read =>
          rw [(queueRq_read _ hdir (hrq.fits hk hpos)).2.1, lastWritten_read hdir]
          exact hseen

theorem storeOfSectors_of_short {k : Nat} (hk : lbs.toNat = 512 * k) (hpos : 0 < k)
    (hshort : k = 1 ∨ SingleBlock lbs size) : StoreOfSectors d lbs size := by
  intro history rd hvalid hrd hdir
  have hseen := memAfter_seenThrough (d := d) hk hpos hshort history hvalid
  have hc := hrd.contiguous hk hpos (hshort.imp_right fun h => h rd hrd)
  obtain ⟨hstatus, -, hdata⟩ := queueRq_read (memAfter d lbs size history) hdir
    (hrd.fits hk hpos)
  rw [Driver.queueRq_eq]
  refine ⟨hstatus, hdata.trans ?_⟩
  exact hseen.load hc

/-! ### Longer requests -/

/-- A WRITE of the first two logical blocks. -/
def writeTwo (lbs : UInt32) (h : 2 * lbs.toNat < 2 ^ 32) : Rq where
  dir := .write
  pos := 0
  bvecs := [List.replicate (2 * lbs.toNat) 1]
  bytes_lt := by simpa using h

/-- A READ of the second logical block. -/
def readSecond (lbs : UInt32) : Rq where
  dir := .read
  pos := lbs.toUInt64 / 512
  bvecs := [List.replicate lbs.toNat 0]
  bytes_lt := by simpa using lbs.toNat_lt

theorem toNat_readSecond {k : Nat} (hk : lbs.toNat = 512 * k) :
    (readSecond lbs).pos.toNat = k := by
  show (lbs.toUInt64 / 512).toNat = k
  rw [UInt64.toNat_div, UInt32.toNat_toUInt64, hk]
  exact Nat.mul_div_cancel_left k (by decide)

/-- **The necessary condition**: with blocks longer than a sector and room for
two of them, a write of two blocks and a read of the second disagree. -/
theorem not_storeOfSectors {k : Nat} (hk : lbs.toNat = 512 * k) (htwo : 2 ≤ k)
    (hroom : 2 * k ≤ size.toNat / lbs.toNat) (hlen : 2 * lbs.toNat < 2 ^ 32) :
    ¬ StoreOfSectors d lbs size := by
  intro h
  have hcap := toNat_diskCapacity lbs size
  have hwbytes : (writeTwo lbs hlen).bytes = 2 * lbs.toNat := by simp [Rq.bytes, writeTwo]
  have hrbytes : (readSecond lbs).bytes = lbs.toNat := by simp [Rq.bytes, readSecond]
  have hwpos : (writeTwo lbs hlen).pos.toNat = 0 := rfl
  have hrpos := toNat_readSecond hk
  have hw : ValidRq lbs size (writeTwo lbs hlen) := by
    refine ⟨Nat.dvd_zero _, ?_, ?_⟩
    · rw [hwbytes]
      exact Nat.dvd_mul_left _ _
    · rw [hwbytes, hcap]
      show 512 * 0 + 2 * lbs.toNat ≤ _
      omega
  have hr : ValidRq lbs size (readSecond lbs) := by
    refine ⟨?_, ?_, ?_⟩
    · rw [hrpos, hk]
    · rw [hrbytes]
    · rw [hrbytes, hcap, hrpos]
      omega
  -- the read looks at byte `k * lbs`, beyond what the write touched
  have hdata := (h [writeTwo lbs hlen] (readSecond lbs) (by simpa using hw) hr rfl).2
  rw [memAfter, Driver.queueRq_eq, (queueRq_write _ rfl (hw.fits hk (by omega))).2,
    (queueRq_read _ rfl (hr.fits hk (by omega))).2.2, hrpos, hrbytes] at hdata
  have hbyte := congrArg (fun l : List UInt8 => l.getD 0 0) hdata
  have hlbs : 0 < lbs.toNat := by omega
  rw [ByteMem.getD_load _ _ hlbs, ByteMem.getD_load _ _ hlbs, lastWritten_write rfl, hwpos,
    Nat.zero_mul, Nat.mul_zero] at hbyte
  have hzero : (memAfter d lbs size []).store 0 (writeTwo lbs hlen).bvecs.flatten
      (k * lbs.toNat + 0) = 0 := by
    have hlength : (writeTwo lbs hlen).bvecs.flatten.length = 2 * lbs.toNat := hwbytes
    have := Nat.mul_le_mul_right lbs.toNat htwo
    exact ByteMem.store_outside _ (Or.inr (by omega))
  have hone : ByteMem.store (lastWritten []) 0 (writeTwo lbs hlen).bvecs.flatten
      (0 + (512 * k + 0)) = 1 := by
    have hlength : (writeTwo lbs hlen).bvecs.flatten.length = 2 * lbs.toNat := hwbytes
    rw [ByteMem.store_inside _ _ (by omega)]
    simp only [writeTwo, List.flatten_cons, List.flatten_nil, List.append_nil]
    rw [List.getD_eq_getElem _ _ (by rw [List.length_replicate]; omega), List.getElem_replicate]
  have hwrong : (0 : UInt8) = 1 := by
    rw [← hzero, ← hone, Nat.zero_add]
    exact hbyte
  cases hwrong

/-- **When the kernel ramdisk is a store of sectors**: exactly if a logical
block is one sector, or the disk has fewer than two logical blocks, or two
blocks are too long for one request. -/
theorem storeOfSectors_iff (d : Driver) (lbs : UInt32) (size : UInt64)
    (hpow : ∃ e, lbs.toNat = 2 ^ e) (hmin : 512 ≤ lbs.toNat) :
    StoreOfSectors d lbs size ↔
      lbs.toNat = 512 ∨ (diskCapacity lbs size).toNat < 2 * (lbs.toNat / 512) ∨
        2 ^ 32 ≤ 2 * lbs.toNat := by
  obtain ⟨k, hk⟩ : ∃ k, lbs.toNat = 512 * k := by
    obtain ⟨e, he⟩ := hpow
    have hdvd : 2 ^ 9 ∣ 2 ^ e :=
      Nat.pow_dvd_pow 2 ((Nat.pow_le_pow_iff_right (by decide)).mp (he ▸ hmin : 2 ^ 9 ≤ 2 ^ e))
    rw [he]
    exact hdvd
  have hk' : lbs.toNat / 512 = k := by
    rw [hk]
    exact Nat.mul_div_cancel_left k (by decide)
  rw [toNat_diskCapacity, hk']
  constructor
  · intro h
    by_contra hnot
    rw [not_or, not_or] at hnot
    obtain ⟨h₁, h₂, h₃⟩ := hnot
    exact not_storeOfSectors hk (by omega) (by omega) (by omega) h
  · rintro (h | h | h)
    · exact storeOfSectors_of_short hk (by omega) (Or.inl (by omega))
    · exact storeOfSectors_of_short hk (by omega) (Or.inr (singleBlock_of_small hk h))
    · exact storeOfSectors_of_short hk (by omega) (Or.inr (singleBlock_of_huge h))

/-- With the default block size both drivers are stores of sectors. -/
theorem storeOfSectors_default :
    StoreOfSectors .urma 512 1048576 ∧ StoreOfSectors .rdma 512 1048576 :=
  ⟨(storeOfSectors_iff .urma 512 1048576 ⟨9, rfl⟩ (by decide)).mpr (Or.inl rfl),
    (storeOfSectors_iff .rdma 512 1048576 ⟨9, rfl⟩ (by decide)).mpr (Or.inl rfl)⟩

/-- With blocks of 4096 bytes on a ramdisk of one megabyte neither is. -/
theorem not_storeOfSectors_4096 :
    ¬ StoreOfSectors .urma 4096 1048576 ∧ ¬ StoreOfSectors .rdma 4096 1048576 :=
  ⟨not_storeOfSectors (k := 8) rfl (by decide) (by decide) (by decide),
    not_storeOfSectors (k := 8) rfl (by decide) (by decide) (by decide)⟩

end Blkdev

end DirectStorage
