/-
DirectStorage/BackendStore.lean

The userspace backend as a byte store.

A history of `ramdisk_backend_read`, `ramdisk_backend_write` and
`ramdisk_backend_zero` calls is read from its newest call on.  What a position
must hold is a function of the history and the codes its calls returned alone
(`lastByte`): the byte of the newest successful call that covers it, or the
zero of the fresh backend.  The content of the backend is that function
(`mem_backendAfter`), for ranges that overlap in any way.

Main result: `create_byteStore`.
-/
import DirectStorage.Backend

namespace DirectStorage

/-! ### Calls and histories -/

/-- A call on the backend with a buffer that is not `NULL`; of the buffer of a
write, the first `len` bytes of `buf` are looked at. -/
inductive BackendCall
  | read (offset : UInt64) (len : UInt32)
  | write (offset : UInt64) (buf : ByteMem) (len : UInt32)
  | zero (offset : UInt64) (len : UInt32)

namespace BackendCall

def offset : BackendCall → UInt64
  | read offset _ | write offset _ _ | zero offset _ => offset

def len : BackendCall → UInt32
  | read _ len | write _ _ len | zero _ len => len

/-- The byte that the call is to leave at `pos`, if it covers `pos`. -/
def put (c : BackendCall) (pos : Nat) : Option UInt8 :=
  if c.offset.toNat ≤ pos ∧ pos < c.offset.toNat + c.len.toNat then
    match c with
    | read _ _ => none
    | write offset buf _ => some (buf (pos - offset.toNat))
    | zero _ _ => some 0
  else none

end BackendCall

/-- What a call returns, puts into its buffer, and leaves behind. -/
structure BackendAnswer where
  code : Int
  data : List UInt8
  backend : Backend

/-- Carry out a call. -/
def Backend.call (b : Backend) : BackendCall → BackendAnswer
  | .read offset len =>
      let (code, data) := ramdiskBackendRead b offset false len
      ⟨code, data, b⟩
  | .write offset buf len =>
      let (code, b') := ramdiskBackendWrite b offset false (buf.load 0 len.toNat) len
      ⟨code, [], b'⟩
  | .zero offset len =>
      let (code, b') := ramdiskBackendZero b offset len
      ⟨code, [], b'⟩

/-- The backend after a history of calls, newest first. -/
def backendAfter (b₀ : Backend) : List BackendCall → Backend
  | [] => b₀
  | c :: older => ((backendAfter b₀ older).call c).backend

/-- The calls of a history with the codes they returned, newest first. -/
def codesOf (b₀ : Backend) : List BackendCall → List (BackendCall × Int)
  | [] => []
  | c :: older => (c, ((backendAfter b₀ older).call c).code) :: codesOf b₀ older

/-- The byte of the last successful write or zero that covers `pos`, or 0. -/
def lastByte : List (BackendCall × Int) → Nat → UInt8
  | [], _ => 0
  | (c, code) :: older, pos =>
      if code = 0 then (c.put pos).getD (lastByte older pos) else lastByte older pos

/-! ### The property -/

/-- What the next call `c` on a store of `size` bytes does, after the calls
`log` have left `b`. -/
structure ByteStoreStep (size : UInt64) (log : List (BackendCall × Int)) (b : Backend)
    (c : BackendCall) : Prop where
  succeeds_iff : (b.call c).code = 0 ↔ c.offset.toNat + c.len.toNat ≤ size.toNat
  refused : (b.call c).code ≠ 0 →
    (b.call c).code = -ERANGE ∧ (b.call c).data = [] ∧ (b.call c).backend = b
  reads : ∀ offset len, c = .read offset len → (b.call c).code = 0 →
    (b.call c).data = ByteMem.load (lastByte log) offset.toNat len.toNat

/-! ### One call -/

/-- The content a call leaves behind when it succeeds. -/
def BackendCall.apply (c : BackendCall) (m : ByteMem) : ByteMem := fun pos =>
  (c.put pos).getD (m pos)

theorem BackendCall.apply_read (offset : UInt64) (len : UInt32) (m : ByteMem) :
    (read offset len).apply m = m := by
  funext pos
  unfold BackendCall.apply put
  split_ifs <;> rfl

theorem BackendCall.apply_write (offset : UInt64) (buf : ByteMem) (len : UInt32) (m : ByteMem) :
    (write offset buf len).apply m = m.store offset.toNat (buf.load 0 len.toNat) := by
  funext pos
  rw [← ByteMem.copy_eq_store]
  show Option.getD (if offset.toNat ≤ pos ∧ pos < offset.toNat + len.toNat
    then some (buf (pos - offset.toNat)) else none) (m pos) = _
  unfold ByteMem.copy
  split_ifs
  · rw [Nat.zero_add]
    rfl
  · rfl

theorem BackendCall.apply_zero (offset : UInt64) (len : UInt32) (m : ByteMem) :
    (zero offset len).apply m = m.fill offset.toNat len.toNat 0 := by
  funext pos
  show Option.getD (if offset.toNat ≤ pos ∧ pos < offset.toNat + len.toNat
    then some 0 else none) (m pos) = _
  unfold ByteMem.fill
  split_ifs <;> rfl

/-- What the call puts into its buffer when it succeeds. -/
def BackendCall.fetch : BackendCall → ByteMem → List UInt8
  | .read offset len, m => m.load offset.toNat len.toNat
  | .write _ _ _, _ | .zero _ _, _ => []

/-- **A call in one equation**: it is carried out as a whole when its range is
inside the backend over the integers, and refused otherwise. -/
theorem call_live {b : Backend} (hb : b.Live) (c : BackendCall) :
    b.call c = if c.offset.toNat + c.len.toNat ≤ b.size.toNat
      then ⟨0, c.fetch b.mem, { b with mem := c.apply b.mem }⟩ else ⟨-ERANGE, [], b⟩ := by
  cases c with
  | read offset len =>
      simp only [Backend.call, read_live hb, BackendCall.apply_read]
      show _ = if offset.toNat + len.toNat ≤ b.size.toNat then _ else _
      split_ifs <;> rfl
  | write offset buf len =>
      have htake : (buf.load 0 len.toNat).take len.toNat = buf.load 0 len.toNat :=
        List.take_of_length_le (by simp)
      simp only [Backend.call, write_live hb, BackendCall.apply_write, htake]
      show _ = if offset.toNat + len.toNat ≤ b.size.toNat then _ else _
      split_ifs <;> rfl
  | zero offset len =>
      simp only [Backend.call, zero_live hb, BackendCall.apply_zero]
      show _ = if offset.toNat + len.toNat ≤ b.size.toNat then _ else _
      split_ifs <;> rfl

/-! ### Histories -/

/-- What every history keeps. -/
structure StoreInv (size : UInt64) (log : List (BackendCall × Int)) (b : Backend) : Prop where
  live : b.Live
  size_eq : b.size = size
  mem_eq : b.mem = lastByte log

variable {size : UInt64} {log : List (BackendCall × Int)} {b : Backend}

/-- **One call keeps the content**: a successful one lays its bytes over it, a
refused one leaves it. -/
theorem StoreInv.call (h : StoreInv size log b) (c : BackendCall) :
    StoreInv size ((c, (b.call c).code) :: log) (b.call c).backend := by
  rw [call_live h.live c]
  split_ifs
  · refine ⟨h.live.withMem _, h.size_eq, ?_⟩
    show c.apply b.mem = lastByte ((c, 0) :: log)
    rw [h.mem_eq]
    funext pos
    exact (if_pos rfl).symm
  · refine ⟨h.live, h.size_eq, ?_⟩
    rw [h.mem_eq]
    funext pos
    exact (if_neg (by simp)).symm

/-- **Every history keeps the content.** -/
theorem StoreInv.after (h : StoreInv size [] b) (history : List BackendCall) :
    StoreInv size (codesOf b history) (backendAfter b history) := by
  induction history with
  | nil => exact h
  | cons c older ih => exact ih.call c

/-- The next call, from what the history has kept. -/
theorem StoreInv.byteStoreStep (h : StoreInv size log b) (c : BackendCall) :
    ByteStoreStep size log b c := by
  have hcall := call_live h.live c
  rw [h.size_eq] at hcall
  by_cases hfits : c.offset.toNat + c.len.toNat ≤ size.toNat
  · rw [if_pos hfits] at hcall
    refine ⟨?_, ?_, ?_⟩
    · rw [hcall]
      exact iff_of_true rfl hfits
    · rw [hcall]
      exact fun hne => absurd rfl hne
    · rintro offset len rfl -
      rw [hcall, ← h.mem_eq]
      rfl
  · rw [if_neg hfits] at hcall
    refine ⟨?_, ?_, ?_⟩
    · rw [hcall]
      exact iff_of_false (by simp) hfits
    · rw [hcall]
      exact fun _ => ⟨rfl, rfl, rfl⟩
    · intro offset len _ hcode
      rw [hcall] at hcode
      cases hcode

/-- **The backend is a zero-initialised byte store**, for every size but 0,
every valid block size and every history of calls: the next call succeeds
exactly when its range is inside the store over the integers, it changes
nothing when it fails, and a read returns for every position the byte of the
last successful write or zero that covers it, or 0. -/
theorem create_byteStore (size block : UInt64) (blockSize : UInt32) (hsize : size ≠ 0)
    (hvalid : validateBlockSize blockSize = 0) (hblock : block ≠ 0) :
    ∃ b, ramdiskBackendCreate size blockSize 0 block = (0, b) ∧
      ∀ history c, ByteStoreStep size (codesOf b history) (backendAfter b history) c := by
  have hcreate : ramdiskBackendCreate size blockSize 0 block =
      (0, ⟨block, size, blockSize, true, ByteMem.zero⟩) := by
    simp [ramdiskBackendCreate, hsize, hvalid, hblock]
  refine ⟨_, hcreate, ?_⟩
  intro history c
  obtain ⟨hlive, hsize', -, hzero⟩ := create_live hcreate
  have hstart : StoreInv size [] _ := ⟨hlive, hsize', hzero⟩
  exact (hstart.after history).byteStoreStep c

/-- Three bytes written from position 2 on and the middle one zeroed, in a
backend whose size is no multiple of its block size. -/
theorem create_byteStore_small :
    ∃ b, ramdiskBackendCreate 1000 512 0 4096 = (0, b) ∧
      (ramdiskBackendRead (backendAfter b [.zero 3 1, .write 998 (fun _ => 9) 3,
        .write 2 (fun i => UInt8.ofNat (i + 1)) 3]) 1 false 5).2 = [0, 1, 0, 3, 0] := by
  obtain ⟨b, hcreate, hstore⟩ :=
    create_byteStore 1000 4096 512 (by decide) (by decide) (by decide)
  refine ⟨b, hcreate, ?_⟩
  obtain rfl : _ = b := congrArg Prod.snd hcreate
  have hstep := hstore [.zero 3 1, .write 998 (fun _ => 9) 3,
    .write 2 (fun i => UInt8.ofNat (i + 1)) 3] (.read 1 5)
  exact hstep.reads 1 5 rfl (hstep.succeeds_iff.mpr (by decide))

end DirectStorage
