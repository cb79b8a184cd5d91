/-
DirectStorage/Prototype.lean

The userspace prototype (`src/src/rdma_ramdisk.c`, `src/src/mock_rdma.c` and
`src/src/target_session.c`): a ramdisk whose block is registered with an RDMA
transport, the mock transport, and the target session that turns a block
request into one transfer.

The transport is a table of functions over a context (`TransportOps`), as in
the source; `mockRdmaOps` is the only one there is.  Pointers are a block and
an offset, the contents of the blocks are passed along as a `Heap`, and
`size_t` has 64 bits.  The outcomes of `calloc` and `posix_memalign` are
arguments.  Pointers that the callers here never pass as `NULL` are not
compared with it.  `disconnect` and `deregister_mr` are in `PrototypeShared`.
-/
import DirectStorage.BlkdevMap

namespace DirectStorage

namespace Prototype

open Blkdev (u64Max)

/-! ### The transport interface (`rdma_transport.h`) -/

/-- `enum rdma_transfer_direction`. -/
def transferWriteToRemote : UInt32 := 1
def transferReadFromRemote : UInt32 := 2

/-- `struct rdma_registered_mr`, without the transport's own pointer. -/
structure RegisteredMr where
  addr : Ptr
  length : UInt64
  iova : UInt64
  lkey : UInt32
  deriving DecidableEq

/-- `struct rdma_remote_region`. -/
structure RemoteRegion where
  addr : UInt64
  rkey : UInt32
  length : UInt64

/-- `struct rdma_local_sge`. -/
structure LocalSge where
  addr : UInt64
  lkey : UInt32
  length : UInt64
  deriving DecidableEq

/-- `struct rdma_transport_ops`, for a transport with contexts in `Ctx`. -/
structure TransportOps (Ctx : Type) where
  connect : Ctx → Option (List UInt8) → Int × Ctx
  registerMr : Ctx → Ptr → UInt64 → Except Int (RegisteredMr × Ctx)
  submit : Ctx → Heap → UInt32 → LocalSge → RemoteRegion → Int × Ctx × Heap

/-! ### The ramdisk (`rdma_ramdisk.c`) -/

/-- `struct rdma_ramdisk_config`. -/
structure RamdiskConfig where
  sizeBytes : UInt64
  logicalBlockSize : UInt32

/-- `struct rdma_ramdisk`; the transport and its context are passed along. -/
structure RdmaRamdisk where
  sizeBytes : UInt64
  logicalBlockSize : UInt32
  base : Ptr
  mr : RegisteredMr
  deriving DecidableEq

/-- `struct rdma_ramdisk_mapping`. -/
structure Mapping where
  byteOffset : UInt64
  length : UInt64
  hostAddr : Ptr
  sge : LocalSge
  deriving DecidableEq

/-- `checked_io_range`: the code, or the byte offset and the length. -/
def checkedIoRange (disk : RdmaRamdisk) (lba : UInt64) (blockCount : UInt32) :
    Except Int (UInt64 × UInt64) :=
  if blockCount = 0 then .error (-EINVAL)
  else if lba > u64Max / disk.logicalBlockSize.toUInt64 then .error (-EOVERFLOW)
  else
    let offset := lba * disk.logicalBlockSize.toUInt64
    if blockCount.toUInt64 > u64Max / disk.logicalBlockSize.toUInt64 then .error (-EOVERFLOW)
    else
      let bytes := blockCount.toUInt64 * disk.logicalBlockSize.toUInt64
      if offset > disk.sizeBytes ∨ bytes > disk.sizeBytes - offset then .error (-ERANGE)
      else if bytes > u64Max then .error (-EOVERFLOW)
      else .ok (offset, bytes)

/-- `rdma_ramdisk_create`: `errno`, or the disk with what it leaves behind.
`calloced` is the outcome of `calloc`, `memalign` that of `posix_memalign`. -/
def rdmaRamdiskCreate {Ctx : Type} (ops : TransportOps Ctx) (cfg : RamdiskConfig) (ctx : Ctx)
    (heap : Heap) (calloced : Bool) (memalign : Except Int BlockId) :
    Except Int (RdmaRamdisk × Ctx × Heap) :=
  if cfg.sizeBytes = 0 ∨ cfg.logicalBlockSize = 0 ∨
      cfg.sizeBytes % cfg.logicalBlockSize.toUInt64 ≠ 0 ∨ cfg.sizeBytes > u64Max then
    .error EINVAL
  else if !calloced then .error ENOMEM
  else
    match memalign with
    | .error rc => .error rc
    | .ok block =>
        let base : Ptr := ⟨block, 0⟩
        let heap := heap.memset base 0 cfg.sizeBytes.toNat
        match ops.registerMr ctx base cfg.sizeBytes with
        | .error rc => .error (-rc)
        | .ok (mr, ctx) => .ok (⟨cfg.sizeBytes, cfg.logicalBlockSize, base, mr⟩, ctx, heap)

/-- `rdma_ramdisk_map_lba`. -/
def rdmaRamdiskMapLba (disk : RdmaRamdisk) (lba : UInt64) (blockCount : UInt32) :
    Except Int Mapping :=
  match checkedIoRange disk lba blockCount with
  | .error rc => .error rc
  | .ok (byteOffset, length) =>
      .ok { byteOffset := byteOffset
            length := length
            hostAddr := disk.base.add byteOffset.toNat
            sge := ⟨disk.mr.iova + byteOffset, disk.mr.lkey, length⟩ }

/-! ### The mock transport (`mock_rdma.c`) -/

/-- `MOCK_IOVA_BASE`. -/
def mockIovaBase : UInt64 := 0x100000000

/-- `MOCK_LKEY`. -/
def mockLkey : UInt32 := 0x51A70001

/-- `struct mock_rdma_context`. -/
structure MockRdmaContext where
  remoteMemory : Ptr
  remoteLength : UInt64
  connected : Bool
  connectCount : UInt32
  submitCount : UInt32
  lastDirection : UInt32
  registeredAddr : Ptr
  registeredLength : UInt64
  registeredIova : UInt64
  registeredLkey : UInt32

/-- `mock_rdma_context_init`. -/
def mockRdmaContextInit (remoteMemory : Ptr) (remoteLength : UInt64) : MockRdmaContext where
  remoteMemory := remoteMemory
  remoteLength := remoteLength
  connected := false
  connectCount := 0
  submitCount := 0
  lastDirection := 0
  registeredAddr := Ptr.null
  registeredLength := 0
  registeredIova := 0
  registeredLkey := 0

/-- `mock_connect`; the endpoint is the text before its `'\0'`, or `NULL`. -/
def mockConnect (ctx : MockRdmaContext) : Option (List UInt8) → Int × MockRdmaContext
  | none | some [] => (-EINVAL, ctx)
  | some (_ :: _) => (0, { ctx with connected := true, connectCount := ctx.connectCount + 1 })

/-- `mock_register_mr`. -/
def mockRegisterMr (ctx : MockRdmaContext) (addr : Ptr) (length : UInt64) :
    Except Int (RegisteredMr × MockRdmaContext) :=
  if addr = Ptr.null ∨ length = 0 then .error (-EINVAL)
  else
    .ok (⟨addr, length, mockIovaBase, mockLkey⟩,
      { ctx with
        registeredAddr := addr
        registeredLength := length
        registeredIova := mockIovaBase
        registeredLkey := mockLkey })

/-- `local_sge_to_ptr`. -/
def localSgeToPtr (ctx : MockRdmaContext) (sge : LocalSge) : Except Int Ptr :=
  if sge.lkey ≠ ctx.registeredLkey ∨ sge.addr < ctx.registeredIova then .error (-EINVAL)
  else
    let offset := sge.addr - ctx.registeredIova
    if offset > ctx.registeredLength ∨ sge.length > ctx.registeredLength - offset then
      .error (-ERANGE)
    else .ok (ctx.registeredAddr.add offset.toNat)

/-- `remote_region_to_ptr`. -/
def remoteRegionToPtr (ctx : MockRdmaContext) (remote : RemoteRegion) : Except Int Ptr :=
  if remote.addr > ctx.remoteLength ∨ remote.length > ctx.remoteLength - remote.addr then
    .error (-ERANGE)
  else .ok (ctx.remoteMemory.add remote.addr.toNat)

/-- `mock_submit`. -/
def mockSubmit (ctx : MockRdmaContext) (heap : Heap) (direction : UInt32) (sge : LocalSge)
    (remote : RemoteRegion) : Int × MockRdmaContext × Heap :=
  if !ctx.connected ∨ sge.length ≠ remote.length then (-EINVAL, ctx, heap)
  else
    match localSgeToPtr ctx sge with
    | .error rc => (rc, ctx, heap)
    | .ok localPtr =>
        match remoteRegionToPtr ctx remote with
        | .error rc => (rc, ctx, heap)
        | .ok remotePtr =>
            let counted : MockRdmaContext :=
              { ctx with submitCount := ctx.submitCount + 1, lastDirection := direction }
            if direction = transferWriteToRemote then
              (0, counted, heap.memcpy remotePtr localPtr sge.length.toNat)
            else if direction = transferReadFromRemote then
              (0, counted, heap.memcpy localPtr remotePtr sge.length.toNat)
            else (-EINVAL, ctx, heap)

/-- `mock_rdma_ops`. -/
def mockRdmaOps : TransportOps MockRdmaContext where
  connect := mockConnect
  registerMr := mockRegisterMr
  submit := mockSubmit

/-! ### The target session (`target_session.c`) -/

/-- `enum target_io_direction`. -/
def targetIoRead : UInt32 := 1
def targetIoWrite : UInt32 := 2

/-- `struct target_io_request`. -/
structure IoRequest where
  direction : UInt32
  lba : UInt64
  blockCount : UInt32
  remoteAddr : UInt64
  rkey : UInt32
  remoteLength : UInt64

/-- `struct target_session`, with the context its `transport_ctx` points to. -/
structure TargetSession (Ctx : Type) where
  disk : RdmaRamdisk
  ops : TransportOps Ctx
  ctx : Ctx
  connected : Bool

variable {Ctx : Type}

/-- `target_session_init`. -/
def targetSessionInit (disk : RdmaRamdisk) (ops : TransportOps Ctx) (ctx : Ctx) :
    TargetSession Ctx :=
  ⟨disk, ops, ctx, false⟩

/-- `target_session_connect`; `endpoint` is `info->endpoint`. -/
def targetSessionConnect (session : TargetSession Ctx) (endpoint : Option (List UInt8)) :
    Int × TargetSession Ctx :=
  match endpoint with
  | none => (-EINVAL, session)
  | some text =>
      let (rc, ctx) := session.ops.connect session.ctx (some text)
      (rc, { session with ctx := ctx, connected := session.connected || rc = 0 })

/-- `target_session_submit_io`. -/
def targetSessionSubmitIo (session : TargetSession Ctx) (heap : Heap) (req : IoRequest) :
    Int × TargetSession Ctx × Heap :=
  if !session.connected then (-EINVAL, session, heap)
  else
    match rdmaRamdiskMapLba session.disk req.lba req.blockCount with
    | .error rc => (rc, session, heap)
    | .ok mapping =>
        if req.remoteLength < mapping.length then (-ERANGE, session, heap)
        else
          let remote : RemoteRegion := ⟨req.remoteAddr, req.rkey, mapping.length⟩
          if req.direction = targetIoRead then
            let (rc, ctx, heap) :=
              session.ops.submit session.ctx heap transferWriteToRemote mapping.sge remote
            (rc, { session with ctx := ctx }, heap)
          else if req.direction = targetIoWrite then
            let (rc, ctx, heap) :=
              session.ops.submit session.ctx heap transferReadFromRemote mapping.sge remote
            (rc, { session with ctx := ctx }, heap)
          else (-EINVAL, session, heap)

end Prototype

end DirectStorage
