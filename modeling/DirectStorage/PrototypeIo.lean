/-
DirectStorage/PrototypeIo.lean

The prototype's target IO from end to end.

A request passes four range checks on its way: the block mapping, the length
the initiator gave, the registered region of the transport and the remote
memory.  The third can only repeat the first, because the session's disk is
what was registered; the others together are one condition over the integers
(`Admitted`).  An admitted request copies one range, from the disk to the
remote memory for a READ and back for a WRITE.

`Ready` is what opening a session establishes and every request keeps.

Main result: `openTarget_ioExact`.
-/
import DirectStorage.PrototypeMap

namespace DirectStorage

namespace Prototype

/-! ### The statement -/

/-- A disk on a mock context of its own, and a session on it that is connected:
the block `posix_memalign` returned is `block`. -/
def openTarget (cfg : RamdiskConfig) (remote : Ptr) (remoteLength : UInt64) (heap : Heap)
    (block : BlockId) (endpoint : List UInt8) :
    Except Int (TargetSession MockRdmaContext × Heap) :=
  match rdmaRamdiskCreate mockRdmaOps cfg (mockRdmaContextInit remote remoteLength) heap true
      (.ok block) with
  | .error rc => .error rc
  | .ok (disk, ctx, heap) =>
      let (rc, session) :=
        targetSessionConnect (targetSessionInit disk mockRdmaOps ctx) (some endpoint)
      if rc = 0 then .ok (session, heap) else .error rc

/-- The session and the memory after a sequence of requests. -/
def afterIos (session : TargetSession MockRdmaContext) (heap : Heap) (reqs : List IoRequest) :
    TargetSession MockRdmaContext × Heap :=
  reqs.foldl (fun st req => (targetSessionSubmitIo st.1 st.2 req).2) (session, heap)

/-- The requests that are carried out, over the integers. -/
structure Admitted (cfg : RamdiskConfig) (remoteLength : UInt64) (req : IoRequest) : Prop where
  count_pos : 0 < req.blockCount.toNat
  on_disk : (req.lba.toNat + req.blockCount.toNat) * cfg.logicalBlockSize.toNat ≤
    cfg.sizeBytes.toNat
  length_le : req.blockCount.toNat * cfg.logicalBlockSize.toNat ≤ req.remoteLength.toNat
  remote_le : req.remoteAddr.toNat + req.blockCount.toNat * cfg.logicalBlockSize.toNat ≤
    remoteLength.toNat
  direction : req.direction = targetIoRead ∨ req.direction = targetIoWrite

/-- The memory after an admitted request: the disk is in `block`, the remote
memory starts at `remote`. -/
def transferred (cfg : RamdiskConfig) (remote : Ptr) (block : BlockId) (heap : Heap)
    (req : IoRequest) : Heap :=
  let disk : Ptr := ⟨block, req.lba.toNat * cfg.logicalBlockSize.toNat⟩
  let far : Ptr := remote.add req.remoteAddr.toNat
  let bytes := req.blockCount.toNat * cfg.logicalBlockSize.toNat
  if req.direction = targetIoRead then heap.memcpy far disk bytes else heap.memcpy disk far bytes

/-- What `target_session_submit_io` does with `req`. -/
structure IoExact (cfg : RamdiskConfig) (remote : Ptr) (remoteLength : UInt64) (block : BlockId)
    (session : TargetSession MockRdmaContext) (heap : Heap) (req : IoRequest) : Prop where
  ok_iff : (targetSessionSubmitIo session heap req).1 = 0 ↔ Admitted cfg remoteLength req
  /-- A READ copies the range of the disk to the remote range, and changes no
  other byte of the remote memory, of the disk or of any other block. -/
  read : (targetSessionSubmitIo session heap req).1 = 0 → req.direction = targetIoRead →
    (targetSessionSubmitIo session heap req).2.2 remote.block =
        (heap remote.block).copy (remote.off + req.remoteAddr.toNat) (heap block)
          (req.lba.toNat * cfg.logicalBlockSize.toNat)
          (req.blockCount.toNat * cfg.logicalBlockSize.toNat) ∧
      (targetSessionSubmitIo session heap req).2.2 block = heap block ∧
      ∀ b ≠ remote.block, (targetSessionSubmitIo session heap req).2.2 b = heap b
  /-- A WRITE copies the remote range to the range of the disk. -/
  write : (targetSessionSubmitIo session heap req).1 = 0 → req.direction = targetIoWrite →
    (targetSessionSubmitIo session heap req).2.2 block =
        (heap block).copy (req.lba.toNat * cfg.logicalBlockSize.toNat) (heap remote.block)
          (remote.off + req.remoteAddr.toNat)
          (req.blockCount.toNat * cfg.logicalBlockSize.toNat) ∧
      (targetSessionSubmitIo session heap req).2.2 remote.block = heap remote.block ∧
      ∀ b ≠ block, (targetSessionSubmitIo session heap req).2.2 b = heap b
  /-- `submit_count` is an `unsigned int`. -/
  counted : (targetSessionSubmitIo session heap req).1 = 0 →
    (targetSessionSubmitIo session heap req).2.1.ctx.submitCount = session.ctx.submitCount + 1
  failed : (targetSessionSubmitIo session heap req).1 ≠ 0 →
    (targetSessionSubmitIo session heap req).2 = (session, heap)

/-! ### An open session -/

/-- The disk that is created for `cfg` in `block`. -/
def createdDisk (cfg : RamdiskConfig) (block : BlockId) : RdmaRamdisk :=
  ⟨cfg.sizeBytes, cfg.logicalBlockSize, ⟨block, 0⟩,
    ⟨⟨block, 0⟩, cfg.sizeBytes, mockIovaBase, mockLkey⟩⟩

/-- The configurations the prototype is meant for: the disk fits behind the
mock's base address. -/
structure RamdiskConfig.Valid (cfg : RamdiskConfig) : Prop where
  size_ne : cfg.sizeBytes ≠ 0
  block_ne : cfg.logicalBlockSize ≠ 0
  multiple : cfg.logicalBlockSize.toNat ∣ cfg.sizeBytes.toNat
  room : cfg.sizeBytes.toNat + 2 ^ 32 ≤ 2 ^ 64

/-- What opening the session establishes and every request keeps. -/
structure Ready (cfg : RamdiskConfig) (remote : Ptr) (remoteLength : UInt64) (block : BlockId)
    (session : TargetSession MockRdmaContext) : Prop where
  disk_eq : session.disk = createdDisk cfg block
  ops_eq : session.ops = mockRdmaOps
  connected : session.connected = true
  linked : session.ctx.connected = true
  remoteMemory : session.ctx.remoteMemory = remote
  remoteLength : session.ctx.remoteLength = remoteLength
  registeredAddr : session.ctx.registeredAddr = ⟨block, 0⟩
  registeredLength : session.ctx.registeredLength = cfg.sizeBytes
  registeredIova : session.ctx.registeredIova = mockIovaBase
  registeredLkey : session.ctx.registeredLkey = mockLkey

variable {cfg : RamdiskConfig} {remote : Ptr} {remoteLength : UInt64} {block : BlockId}
variable {session : TargetSession MockRdmaContext} {heap : Heap} {req : IoRequest}

/-- The session as it is opened. -/
def openedSession (cfg : RamdiskConfig) (remote : Ptr) (remoteLength : UInt64)
    (block : BlockId) : TargetSession MockRdmaContext where
  disk := createdDisk cfg block
  ops := mockRdmaOps
  ctx := { mockRdmaContextInit remote remoteLength with
    connected := true
    connectCount := 1
    registeredAddr := ⟨block, 0⟩
    registeredLength := cfg.sizeBytes
    registeredIova := mockIovaBase
    registeredLkey := mockLkey }
  connected := true

theorem openedSession_ready : Ready cfg remote remoteLength block
    (openedSession cfg remote remoteLength block) :=
  ⟨rfl, rfl, rfl, rfl, rfl, rfl, rfl, rfl, rfl, rfl⟩

/-- The mock's context once the disk is registered. -/
def registeredCtx (cfg : RamdiskConfig) (remote : Ptr) (remoteLength : UInt64)
    (block : BlockId) : MockRdmaContext :=
  { (openedSession cfg remote remoteLength block).ctx with connected := false, connectCount := 0 }

/-- **A disk can be created for every valid configuration.** -/
theorem create_eq (hcfg : cfg.Valid) (hblock : block ≠ 0) (heap : Heap) :
    rdmaRamdiskCreate mockRdmaOps cfg (mockRdmaContextInit remote remoteLength) heap true
      (.ok block) = .ok (createdDisk cfg block, registeredCtx cfg remote remoteLength block,
        heap.memset ⟨block, 0⟩ 0 cfg.sizeBytes.toNat) := by
  have hmod : cfg.sizeBytes % cfg.logicalBlockSize.toUInt64 = 0 := by
    apply UInt64.toNat.inj
    rw [UInt64.toNat_mod, UInt32.toNat_toUInt64]
    exact Nat.mod_eq_zero_of_dvd hcfg.multiple
  have hmax : ¬ cfg.sizeBytes > Blkdev.u64Max := by
    rw [gt_iff_lt, UInt64.lt_iff_toNat_lt]
    have := cfg.sizeBytes.toNat_lt
    show ¬ 2 ^ 64 - 1 < _
    omega
  have hnull : (⟨block, 0⟩ : Ptr) ≠ Ptr.null := by
    intro h
    exact hblock (congrArg Ptr.block h)
  have hregister : mockRegisterMr (mockRdmaContextInit remote remoteLength) ⟨block, 0⟩
      cfg.sizeBytes = .ok ((createdDisk cfg block).mr,
        registeredCtx cfg remote remoteLength block) := by
    rw [mockRegisterMr, if_neg (by simp [hnull, hcfg.size_ne])]
    rfl
  rw [rdmaRamdiskCreate, if_neg (by simp [hcfg.size_ne, hcfg.block_ne, hmod, hmax])]
  simp only [Bool.not_true, Bool.false_eq_true, if_false, mockRdmaOps, hregister]
  rfl

/-- **A session can be opened for every valid configuration.** -/
theorem openTarget_eq (hcfg : cfg.Valid) (hblock : block ≠ 0) (heap : Heap) {endpoint : List UInt8}
    (hendpoint : endpoint ≠ []) :
    openTarget cfg remote remoteLength heap block endpoint =
      .ok (openedSession cfg remote remoteLength block,
        heap.memset ⟨block, 0⟩ 0 cfg.sizeBytes.toNat) := by
  obtain ⟨c, cs, rfl⟩ := List.exists_cons_of_ne_nil hendpoint
  rw [openTarget, create_eq hcfg hblock]
  rfl

/-! ### One request -/

/-- The local side of a transfer, with a registration at the mock's base address: it
is the range test, unless the bus address wraps. -/
theorem localSgeToPtr_registered {ctx : MockRdmaContext} (hkey : ctx.registeredLkey = mockLkey)
    (hiova : ctx.registeredIova = mockIovaBase) {offset : UInt64} (length : UInt64)
    (hroom : offset.toNat + 2 ^ 32 < 2 ^ 64) :
    localSgeToPtr ctx ⟨mockIovaBase + offset, mockLkey, length⟩ =
      if offset.toNat + length.toNat ≤ ctx.registeredLength.toNat
      then .ok (ctx.registeredAddr.add offset.toNat) else .error (-ERANGE) := by
  have hbase : mockIovaBase.toNat = 2 ^ 32 := rfl
  have haddr : (mockIovaBase + offset).toNat = 2 ^ 32 + offset.toNat := by
    rw [UInt64.toNat_add, hbase, Nat.mod_eq_of_lt]
    omega
  have hge : mockIovaBase.toNat ≤ (mockIovaBase + offset).toNat := by
    rw [haddr, hbase]
    exact Nat.le_add_right _ _
  have hsub : mockIovaBase + offset - mockIovaBase = offset := by
    apply UInt64.toNat.inj
    rw [UInt64.toNat_sub_of_le _ _ (UInt64.le_iff_toNat_le.mpr hge), haddr, hbase,
      Nat.add_sub_cancel_left]
  unfold localSgeToPtr
  rw [hkey, hiova, hsub, if_neg]
  · simp only [rangeTest_iff, ite_not]
  · rw [not_or, UInt64.lt_iff_toNat_lt]
    exact ⟨fun hne => hne rfl, Nat.not_lt.mpr hge⟩

/-- The local side of a transfer inside the disk. -/
theorem localSgeToPtr_ready (hcfg : cfg.Valid) (h : Ready cfg remote remoteLength block session)
    {offset length : UInt64} (hpos : 0 < length.toNat)
    (hin : offset.toNat + length.toNat ≤ cfg.sizeBytes.toNat) :
    localSgeToPtr session.ctx ⟨mockIovaBase + offset, mockLkey, length⟩ =
      .ok ⟨block, offset.toNat⟩ := by
  -- the bus address does not wrap: that is what the room is for
  have hroom := hcfg.room
  rw [localSgeToPtr_registered h.registeredLkey h.registeredIova length (by omega),
    h.registeredLength, h.registeredAddr, if_pos hin]
  simp [Ptr.add]

/-- The remote side of a transfer. -/
theorem remoteRegionToPtr_ready (h : Ready cfg remote remoteLength block session)
    (region : RemoteRegion) :
    remoteRegionToPtr session.ctx region =
      if region.addr.toNat + region.length.toNat ≤ remoteLength.toNat
      then .ok (remote.add region.addr.toNat) else .error (-ERANGE) := by
  unfold remoteRegionToPtr
  rw [h.remoteLength, h.remoteMemory]
  simp only [rangeTest_iff, ite_not]

/-- The context after a transfer. -/
def MockRdmaContext.submitted (ctx : MockRdmaContext) (direction : UInt32) : MockRdmaContext :=
  { ctx with submitCount := ctx.submitCount + 1, lastDirection := direction }

/-- A transfer that leaves the remote memory is refused. -/
theorem mockSubmit_refused (hcfg : cfg.Valid) (h : Ready cfg remote remoteLength block session)
    (heap : Heap) (direction rkey : UInt32) {offset length addr : UInt64}
    (hpos : 0 < length.toNat) (hin : offset.toNat + length.toNat ≤ cfg.sizeBytes.toNat)
    (hremote : ¬ addr.toNat + length.toNat ≤ remoteLength.toNat) :
    mockSubmit session.ctx heap direction ⟨mockIovaBase + offset, mockLkey, length⟩
      ⟨addr, rkey, length⟩ = (-ERANGE, session.ctx, heap) := by
  rw [mockSubmit, if_neg (by simp [h.linked]), localSgeToPtr_ready hcfg h hpos hin,
    remoteRegionToPtr_ready h, if_neg hremote]

/-- **A transfer between the disk and the remote memory.** -/
theorem mockSubmit_done (hcfg : cfg.Valid) (h : Ready cfg remote remoteLength block session)
    (heap : Heap) (rkey : UInt32) {offset length addr : UInt64}
    (hpos : 0 < length.toNat) (hin : offset.toNat + length.toNat ≤ cfg.sizeBytes.toNat)
    (hremote : addr.toNat + length.toNat ≤ remoteLength.toNat) :
    mockSubmit session.ctx heap transferWriteToRemote ⟨mockIovaBase + offset, mockLkey, length⟩
        ⟨addr, rkey, length⟩ =
      (0, session.ctx.submitted transferWriteToRemote,
        heap.memcpy (remote.add addr.toNat) ⟨block, offset.toNat⟩ length.toNat) ∧
    mockSubmit session.ctx heap transferReadFromRemote ⟨mockIovaBase + offset, mockLkey, length⟩
        ⟨addr, rkey, length⟩ =
      (0, session.ctx.submitted transferReadFromRemote,
        heap.memcpy ⟨block, offset.toNat⟩ (remote.add addr.toNat) length.toNat) := by
  constructor <;>
    rw [mockSubmit, if_neg (by simp [h.linked]), localSgeToPtr_ready hcfg h hpos hin,
      remoteRegionToPtr_ready h, if_pos hremote]
  · rfl
  · rfl

/-- The direction of the transfer for a valid request. -/
def rdmaDirection (req : IoRequest) : UInt32 :=
  if req.direction = targetIoRead then transferWriteToRemote else transferReadFromRemote

/-- The session after an admitted request. -/
def countedSession (session : TargetSession MockRdmaContext) (req : IoRequest) :
    TargetSession MockRdmaContext :=
  { session with ctx := session.ctx.submitted (rdmaDirection req) }

/-- The blocks of a request that the disk has, mapped. -/
theorem mapLba_ready (hcfg : cfg.Valid) (h : Ready cfg remote remoteLength block session)
    (hon : OnDisk (createdDisk cfg block) req.lba req.blockCount) :
    ∃ mapping offset length, rdmaRamdiskMapLba session.disk req.lba req.blockCount = .ok mapping ∧
      mapping.length = length ∧ mapping.sge = ⟨mockIovaBase + offset, mockLkey, length⟩ ∧
      offset.toNat = req.lba.toNat * cfg.logicalBlockSize.toNat ∧
      length.toNat = req.blockCount.toNat * cfg.logicalBlockSize.toNat := by
  obtain ⟨offset, length, hok, hoff, hlen⟩ := checkedIoRange_of_onDisk hcfg.block_ne hon
  rw [h.disk_eq]
  exact ⟨_, offset, length, by rw [rdmaRamdiskMapLba, hok], rfl, rfl, hoff, hlen⟩

/-- **An admitted request is one copy.** -/
theorem submitIo_admitted (hcfg : cfg.Valid) (h : Ready cfg remote remoteLength block session)
    (heap : Heap) (hreq : Admitted cfg remoteLength req) :
    targetSessionSubmitIo session heap req =
      (0, countedSession session req, transferred cfg remote block heap req) := by
  have hon : OnDisk (createdDisk cfg block) req.lba req.blockCount :=
    ⟨hreq.count_pos, hreq.on_disk⟩
  obtain ⟨mapping, offset, length, hmap, hlength, hsge, hoff, hlen⟩ := mapLba_ready hcfg h hon
  have hpos : 0 < length.toNat := by
    rw [hlen]
    exact hon.bytes_pos hcfg.block_ne
  have hin : offset.toNat + length.toNat ≤ cfg.sizeBytes.toNat := by
    rw [hoff, hlen]
    exact hon.inside
  have hshort : ¬ req.remoteLength < length := by
    rw [UInt64.lt_iff_toNat_lt, hlen]
    exact Nat.not_lt.mpr hreq.length_le
  have hremote : req.remoteAddr.toNat + length.toNat ≤ remoteLength.toNat := by
    rw [hlen]
    exact hreq.remote_le
  obtain ⟨hread, hwrite⟩ := mockSubmit_done hcfg h heap req.rkey hpos hin hremote
  unfold targetSessionSubmitIo transferred countedSession rdmaDirection
  rw [h.connected, hmap, h.ops_eq]
  simp only [Bool.not_true, Bool.false_eq_true, if_false, hshort, hsge, hlength, mockRdmaOps]
  rcases hreq.direction with hdir | hdir
  · rw [if_pos hdir, if_pos hdir, if_pos hdir, hread, hoff, hlen]
  · have hne : req.direction ≠ targetIoRead := by
      rw [hdir]
      decide
    rw [if_neg hne, if_pos hdir, if_neg hne, if_neg hne, hwrite, hoff, hlen]

/-- **Any other request is refused, and changes nothing.** -/
theorem submitIo_refused (hcfg : cfg.Valid) (h : Ready cfg remote remoteLength block session)
    (heap : Heap) (hreq : ¬ Admitted cfg remoteLength req) :
    ∃ rc, rc ≠ 0 ∧ targetSessionSubmitIo session heap req = (rc, session, heap) := by
  obtain ⟨disk, ops, ctx, connected⟩ := session
  obtain rfl : ops = mockRdmaOps := h.ops_eq
  obtain rfl : connected = true := h.connected
  by_cases hon : OnDisk (createdDisk cfg block) req.lba req.blockCount
  · obtain ⟨mapping, offset, length, hmap, hlength, hsge, hoff, hlen⟩ := mapLba_ready hcfg h hon
    have hpos : 0 < length.toNat := by
      rw [hlen]
      exact hon.bytes_pos hcfg.block_ne
    have hin : offset.toNat + length.toNat ≤ cfg.sizeBytes.toNat := by
      rw [hoff, hlen]
      exact hon.inside
    unfold targetSessionSubmitIo
    rw [hmap]
    simp only [Bool.not_true, Bool.false_eq_true, if_false, hsge, hlength]
    by_cases hshort : req.remoteLength < length
    · exact ⟨_, by decide, if_pos hshort⟩
    by_cases hremote : req.remoteAddr.toNat + length.toNat ≤ remoteLength.toNat
    · -- what is left to fail is the direction
      have hdir : ¬ (req.direction = targetIoRead ∨ req.direction = targetIoWrite) := by
        intro hdir
        refine hreq ⟨hon.count_pos, hon.fits, ?_, ?_, hdir⟩
        · rw [UInt64.lt_iff_toNat_lt, hlen] at hshort
          exact Nat.not_lt.mp hshort
        · rwa [hlen] at hremote
      rw [not_or] at hdir
      rw [if_neg hshort, if_neg hdir.1, if_neg hdir.2]
      exact ⟨_, by decide, rfl⟩
    · have hrefused := fun direction => mockSubmit_refused hcfg h heap direction
        req.rkey hpos hin hremote
      simp only [mockRdmaOps, if_neg hshort, hrefused]
      split_ifs
      · exact ⟨-ERANGE, by decide, rfl⟩
      · exact ⟨-ERANGE, by decide, rfl⟩
      · exact ⟨-EINVAL, by decide, rfl⟩
  · have hblock : (createdDisk cfg block).logicalBlockSize ≠ 0 := hcfg.block_ne
    obtain ⟨rc, herr, hne⟩ := checkedIoRange_of_not_onDisk hblock hon
    refine ⟨rc, hne, ?_⟩
    obtain rfl : disk = createdDisk cfg block := h.disk_eq
    rw [targetSessionSubmitIo, rdmaRamdiskMapLba, herr]
    rfl

/-- **One request does what it says.** -/
theorem Ready.ioExact (hcfg : cfg.Valid) (hown : block ≠ remote.block)
    (h : Ready cfg remote remoteLength block session) (heap : Heap) (req : IoRequest) :
    IoExact cfg remote remoteLength block session heap req := by
  by_cases hreq : Admitted cfg remoteLength req
  · have hdone := submitIo_admitted hcfg h heap hreq
    refine ⟨?_, ?_, ?_, ?_, ?_⟩ <;> rw [hdone]
    · exact iff_of_true rfl hreq
    · intro _ hdir
      show transferred cfg remote block heap req _ = _ ∧ _
      rw [transferred, if_pos hdir]
      have hother := fun b hb => heap.memcpy_of_ne (remote.add req.remoteAddr.toNat)
        ⟨block, req.lba.toNat * cfg.logicalBlockSize.toNat⟩
        (req.blockCount.toNat * cfg.logicalBlockSize.toNat) (b := b) hb
      exact ⟨heap.memcpy_self _ _ _, hother block hown, hother⟩
    · intro _ hdir
      have hne : req.direction ≠ targetIoRead := by
        rw [hdir]
        decide
      show transferred cfg remote block heap req _ = _ ∧ _
      rw [transferred, if_neg hne]
      have hother := fun b hb => heap.memcpy_of_ne
        ⟨block, req.lba.toNat * cfg.logicalBlockSize.toNat⟩ (remote.add req.remoteAddr.toNat)
        (req.blockCount.toNat * cfg.logicalBlockSize.toNat) (b := b) hb
      exact ⟨heap.memcpy_self ⟨block, _⟩ _ _, hother remote.block hown.symm, hother⟩
    · exact fun _ => rfl
    · exact fun hne => absurd rfl hne
  · obtain ⟨rc, hne, hrefused⟩ := submitIo_refused hcfg h heap hreq
    refine ⟨?_, ?_, ?_, ?_, ?_⟩ <;> rw [hrefused]
    · exact iff_of_false hne hreq
    · exact fun h0 => absurd h0 hne
    · exact fun h0 => absurd h0 hne
    · exact fun h0 => absurd h0 hne
    · exact fun _ => rfl

/-! ### Sequences of requests -/

/-- **One request keeps the session open.** -/
theorem Ready.submitIo (hcfg : cfg.Valid) (h : Ready cfg remote remoteLength block session)
    (heap : Heap) (req : IoRequest) :
    Ready cfg remote remoteLength block (targetSessionSubmitIo session heap req).2.1 := by
  by_cases hreq : Admitted cfg remoteLength req
  · rw [submitIo_admitted hcfg h heap hreq]
    exact ⟨h.disk_eq, h.ops_eq, h.connected, h.linked, h.remoteMemory, h.remoteLength,
      h.registeredAddr, h.registeredLength, h.registeredIova, h.registeredLkey⟩
  · obtain ⟨rc, -, hrefused⟩ := submitIo_refused hcfg h heap hreq
    rw [hrefused]
    exact h

/-- **Every sequence of requests keeps the session open.** -/
theorem Ready.afterIos (hcfg : cfg.Valid) (h : Ready cfg remote remoteLength block session)
    (heap : Heap) (reqs : List IoRequest) :
    Ready cfg remote remoteLength block (afterIos session heap reqs).1 := by
  induction reqs generalizing session heap with
  | nil => exact h
  | cons req rest ih => exact ih (h.submitIo hcfg heap req) _

/-- **Target IO from end to end**, for every valid configuration, remote memory
apart from the disk's block, and sequence of requests on the connected session:
the next request is carried out exactly when it is admitted, it is one copy
then, and it changes nothing otherwise. -/
theorem openTarget_ioExact (cfg : RamdiskConfig) (remote : Ptr) (remoteLength : UInt64)
    (heap : Heap) (block : BlockId) (endpoint : List UInt8) (hcfg : cfg.Valid) (hblock : block ≠ 0)
    (hown : block ≠ remote.block) (hendpoint : endpoint ≠ []) :
    ∃ session heap', openTarget cfg remote remoteLength heap block endpoint =
        .ok (session, heap') ∧
      ∀ reqs req, IoExact cfg remote remoteLength block (afterIos session heap' reqs).1
        (afterIos session heap' reqs).2 req := by
  refine ⟨_, _, openTarget_eq hcfg hblock heap hendpoint, ?_⟩
  intro reqs req
  exact Ready.ioExact hcfg hown (openedSession_ready.afterIos hcfg _ reqs) _ req

/-- A WRITE of four blocks on a disk of 1 MiB, as in the prototype's own tests:
block 16 gets what the remote memory has at 512. -/
theorem openTarget_ioExact_write :
    ∃ session heap', openTarget ⟨1048576, 512⟩ ⟨2, 0⟩ 4096 (fun _ _ => 0x3C) 1 [99] =
        .ok (session, heap') ∧
      (targetSessionSubmitIo session heap' ⟨targetIoWrite, 16, 4, 512, 0xCAFE, 2048⟩).1 = 0 ∧
      (targetSessionSubmitIo session heap' ⟨targetIoWrite, 16, 4, 512, 0xCAFE, 2048⟩).2.2 1 8192 =
        heap' 2 512 := by
  have hcfg : RamdiskConfig.Valid ⟨1048576, 512⟩ :=
    ⟨by decide, by decide, by decide, by decide⟩
  obtain ⟨session, heap', hopen, hio⟩ := openTarget_ioExact ⟨1048576, 512⟩ ⟨2, 0⟩ 4096
    (fun _ _ => 0x3C) 1 [99] hcfg (by decide) (by decide) (by decide)
  have hexact := hio [] ⟨targetIoWrite, 16, 4, 512, 0xCAFE, 2048⟩
  have hok := hexact.ok_iff.mpr ⟨by decide, by decide, by decide, by decide, .inr rfl⟩
  refine ⟨session, heap', hopen, hok, ?_⟩
  have hdisk := congrFun (hexact.write hok rfl).1 8192
  exact hdisk.trans (ByteMem.copy_inside (i := 0) _ _ _ _ (by decide))

end Prototype

end DirectStorage
