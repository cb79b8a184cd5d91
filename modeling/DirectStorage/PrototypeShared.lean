/-
DirectStorage/PrototypeShared.lean

Several disks and sessions of the prototype on one mock context.

`PrototypeIo` is about one disk and one session that stay as they are.  Here disks
are created and destroyed, sessions are initialised, connected, disconnected and
used, in any order, all with the same `mock_rdma_context`.  Two things in that
context are shared by everybody.  There is one registration, and every disk gets
the same address and the same key for it, so that registering a disk takes the
place of the one before, and deregistering any disk leaves none.  And there is one
`connected`, which a session clears for the others when it disconnects.

So a request is carried out on the disk that is registered, whichever disk its
session is for: its own exactly if that was created last and none was destroyed
since.  It never leaves that disk and the remote memory, and the disk is never one
that has been freed.

The caller has to use a session for IO only while its disk lives; such a request
is not a step here.  `owner` is not in the source: it names the disk that was
created last, if none was destroyed since.

Main result: `shared_submit`.
-/
import DirectStorage.Lts
import DirectStorage.PrototypeFill

namespace DirectStorage

namespace Prototype

/-! ### The source -/

/-- `mock_disconnect`. -/
def mockDisconnect (ctx : MockRdmaContext) : MockRdmaContext := { ctx with connected := false }

/-- `mock_deregister_mr`; the record it clears is part of a disk that is freed next. -/
def mockDeregisterMr (ctx : MockRdmaContext) : MockRdmaContext :=
  { ctx with
    registeredAddr := Ptr.null
    registeredLength := 0
    registeredIova := 0
    registeredLkey := 0 }

/-- `target_session_disconnect`. -/
def targetSessionDisconnect {Ctx : Type} (disconnect : Ctx → Ctx) (session : TargetSession Ctx) :
    TargetSession Ctx :=
  if !session.connected then session
  else { session with ctx := disconnect session.ctx, connected := false }

/-! ### A shared context -/

/-- A mock context with everything that uses it. -/
structure Bench where
  ctx : MockRdmaContext
  heap : Heap
  /-- The disks in the order of their creation, and whether they are alive. -/
  disks : List (RdmaRamdisk × Bool)
  /-- The sessions: their disk, and `connected`. -/
  sessions : List (Nat × Bool)
  owner : Option Nat

/-- Nothing has been created. -/
def Bench.init (remote : Ptr) (remoteLength : UInt64) (heap : Heap) : Bench :=
  ⟨mockRdmaContextInit remote remoteLength, heap, [], [], none⟩

/-- The calls, with the outcomes of `calloc` and `posix_memalign`. -/
inductive BenchOp
  | create (cfg : RamdiskConfig) (calloced : Bool) (memalign : Except Int BlockId)
  | destroy (d : Nat)
  | fill (d : Nat) (lba : UInt64) (blockCount : UInt32) (value : UInt8)
  | initSession (d : Nat)
  | connect (s : Nat) (endpoint : Option (List UInt8))
  | disconnect (s : Nat)
  | submit (s : Nat) (req : IoRequest)

namespace Bench

/-- A disk that has not been destroyed. -/
def live (b : Bench) (d : Nat) : Option RdmaRamdisk :=
  b.disks[d]?.bind fun e => if e.2 then some e.1 else none

/-- Session `s` on its disk, dead or alive. -/
def session (b : Bench) (s : Nat) : Option (TargetSession MockRdmaContext) :=
  b.sessions[s]?.bind fun e => b.disks[e.1]?.map fun disk => ⟨disk.1, mockRdmaOps, b.ctx, e.2⟩

/-- Session `s` on its disk, which has to be alive. -/
def target (b : Bench) (s : Nat) : Option (TargetSession MockRdmaContext) :=
  b.sessions[s]?.bind fun e => (b.live e.1).map fun disk => ⟨disk, mockRdmaOps, b.ctx, e.2⟩

/-- What a call leaves of the session, the context and the memory. -/
def put (b : Bench) (s : Nat) (t : TargetSession MockRdmaContext) (heap : Heap) : Bench :=
  { b with
    ctx := t.ctx
    heap := heap
    sessions := b.sessions.modify s fun e => (e.1, t.connected) }

/-- One call.  A disk that cannot be created leaves everything as it was;
`rdma_ramdisk_destroy` deregisters the disk and frees its block. -/
def step (b : Bench) : BenchOp → Option Bench
  | .create cfg calloced memalign =>
      match rdmaRamdiskCreate mockRdmaOps cfg b.ctx b.heap calloced memalign with
      | .error _ => some b
      | .ok (disk, ctx, heap) =>
          some { b with
            ctx := ctx
            heap := heap
            disks := b.disks ++ [(disk, true)]
            owner := some b.disks.length }
  | .destroy d =>
      (b.live d).map fun disk =>
        { b with
          ctx := mockDeregisterMr b.ctx
          disks := b.disks.set d (disk, false)
          owner := none }
  | .fill d lba blockCount value =>
      (b.live d).map fun disk =>
        { b with heap := (rdmaRamdiskFill disk b.heap lba blockCount value).2 }
  | .initSession d => (b.live d).map fun _ => { b with sessions := b.sessions ++ [(d, false)] }
  | .connect s endpoint =>
      (b.session s).map fun t => b.put s (targetSessionConnect t endpoint).2 b.heap
  | .disconnect s =>
      (b.session s).map fun t => b.put s (targetSessionDisconnect mockDisconnect t) b.heap
  | .submit s req =>
      (b.target s).map fun t =>
        let r := targetSessionSubmitIo t b.heap req
        b.put s r.2.1 r.2.2

/-- `posix_memalign` gives out a block that nobody has, and not more than there is
address space for. -/
def Allocates (remote : Ptr) (b : Bench) : BenchOp → Prop
  | .create cfg _ (.ok block) => block ≠ 0 ∧ block ≠ remote.block ∧
      (∀ d disk, b.live d = some disk → disk.base.block ≠ block) ∧
      cfg.sizeBytes.toNat + 2 ^ 32 ≤ 2 ^ 64
  | _ => True

end Bench

/-! ### What every call keeps -/

/-- The context's registration is that of `disk`. -/
structure Registered (ctx : MockRdmaContext) (disk : RdmaRamdisk) : Prop where
  addr : ctx.registeredAddr = disk.base
  length : ctx.registeredLength = disk.sizeBytes
  iova : ctx.registeredIova = mockIovaBase
  lkey : ctx.registeredLkey = mockLkey

/-- Remote memory and registration are the same in two contexts. -/
structure SameWiring (ctx ctx' : MockRdmaContext) : Prop where
  remoteMemory : ctx'.remoteMemory = ctx.remoteMemory
  remoteLength : ctx'.remoteLength = ctx.remoteLength
  addr : ctx'.registeredAddr = ctx.registeredAddr
  length : ctx'.registeredLength = ctx.registeredLength
  iova : ctx'.registeredIova = ctx.registeredIova
  lkey : ctx'.registeredLkey = ctx.registeredLkey

theorem SameWiring.refl (ctx : MockRdmaContext) : SameWiring ctx ctx :=
  ⟨rfl, rfl, rfl, rfl, rfl, rfl⟩

/-- The invariant: whoever is registered is alive, and lives apart from the others. -/
structure Bench.Inv (remote : Ptr) (remoteLength : UInt64) (b : Bench) : Prop where
  remoteMemory : b.ctx.remoteMemory = remote
  remoteLength : b.ctx.remoteLength = remoteLength
  created : ∀ d disk, b.live d = some disk →
    ∃ cfg block, cfg.Valid ∧ block ≠ remote.block ∧ disk = createdDisk cfg block
  apart : ∀ d d' disk disk', b.live d = some disk → b.live d' = some disk' → d ≠ d' →
    disk.base.block ≠ disk'.base.block
  unregistered : b.owner = none → b.ctx.registeredLkey = 0
  registered : ∀ o, b.owner = some o → ∃ disk, b.live o = some disk ∧ Registered b.ctx disk

variable {remote : Ptr} {remoteLength : UInt64} {b b' : Bench} {ctx ctx' : MockRdmaContext}
  {t : TargetSession MockRdmaContext} {disk : RdmaRamdisk} {cfg : RamdiskConfig} {heap : Heap}
  {block : BlockId} {req : IoRequest} {d s : Nat}

theorem SameWiring.registered (h : SameWiring ctx ctx') (hreg : Registered ctx disk) :
    Registered ctx' disk :=
  ⟨h.addr.trans hreg.addr, h.length.trans hreg.length, h.iova.trans hreg.iova,
    h.lkey.trans hreg.lkey⟩

/-- A call that touches neither the disks nor the registration. -/
theorem Bench.Inv.congr (h : b.Inv remote remoteLength) (hdisks : b'.disks = b.disks)
    (howner : b'.owner = b.owner) (hctx : SameWiring b.ctx b'.ctx) :
    b'.Inv remote remoteLength := by
  have hlive : b'.live = b.live := by
    funext d
    rw [Bench.live, hdisks, Bench.live]
  refine ⟨hctx.remoteMemory.trans h.remoteMemory, hctx.remoteLength.trans h.remoteLength, ?_, ?_,
    ?_, ?_⟩
  · rw [hlive]
    exact h.created
  · rw [hlive]
    exact h.apart
  · intro hnone
    exact hctx.lkey.trans (h.unregistered (howner ▸ hnone))
  · intro o ho
    obtain ⟨disk, hdisk, hreg⟩ := h.registered o (howner ▸ ho)
    exact ⟨disk, hlive ▸ hdisk, hctx.registered hreg⟩

theorem connect_wiring (t : TargetSession MockRdmaContext) (hops : t.ops = mockRdmaOps)
    (endpoint : Option (List UInt8)) :
    SameWiring t.ctx (targetSessionConnect t endpoint).2.ctx := by
  obtain ⟨disk, ops, ctx, connected⟩ := t
  obtain rfl : ops = mockRdmaOps := hops
  rcases endpoint with - | - | ⟨c, text⟩
  · exact .refl ctx
  · exact .refl ctx
  · exact ⟨rfl, rfl, rfl, rfl, rfl, rfl⟩

theorem disconnect_wiring (t : TargetSession MockRdmaContext) :
    SameWiring t.ctx (targetSessionDisconnect mockDisconnect t).ctx := by
  unfold targetSessionDisconnect
  split_ifs
  · exact .refl t.ctx
  · exact ⟨rfl, rfl, rfl, rfl, rfl, rfl⟩

theorem mockSubmit_wiring (ctx : MockRdmaContext) (heap : Heap) (direction : UInt32)
    (sge : LocalSge) (region : RemoteRegion) :
    SameWiring ctx (mockSubmit ctx heap direction sge region).2.1 := by
  unfold mockSubmit
  by_cases hlink : !ctx.connected ∨ sge.length ≠ region.length
  · rw [if_pos hlink]
    exact .refl ctx
  rw [if_neg hlink]
  rcases localSgeToPtr ctx sge with rc | p
  · exact .refl ctx
  rcases remoteRegionToPtr ctx region with rc | q
  · exact .refl ctx
  dsimp only
  split_ifs
  · exact ⟨rfl, rfl, rfl, rfl, rfl, rfl⟩
  · exact ⟨rfl, rfl, rfl, rfl, rfl, rfl⟩
  · exact .refl ctx

/-! ### The session's own checks -/

/-- A request that the session hands to the transport. -/
structure Passes (cfg : RamdiskConfig) (block : BlockId) (t : TargetSession MockRdmaContext)
    (req : IoRequest) : Prop where
  connected : t.connected = true
  on_disk : OnDisk (createdDisk cfg block) req.lba req.blockCount
  length_le : req.blockCount.toNat * cfg.logicalBlockSize.toNat ≤ req.remoteLength.toNat
  direction : req.direction = targetIoRead ∨ req.direction = targetIoWrite

theorem submitIo_passes (hcfg : cfg.Valid) (hdisk : t.disk = createdDisk cfg block)
    (hops : t.ops = mockRdmaOps) (heap : Heap) (h : Passes cfg block t req) :
    ∃ offset length : UInt64, offset.toNat = req.lba.toNat * cfg.logicalBlockSize.toNat ∧
      length.toNat = req.blockCount.toNat * cfg.logicalBlockSize.toNat ∧
      ∀ r, mockSubmit t.ctx heap (rdmaDirection req) ⟨mockIovaBase + offset, mockLkey, length⟩
          ⟨req.remoteAddr, req.rkey, length⟩ = r →
        targetSessionSubmitIo t heap req = (r.1, { t with ctx := r.2.1 }, r.2.2) := by
  obtain ⟨offset, length, hok, hoff, hlen⟩ := checkedIoRange_of_onDisk hcfg.block_ne h.on_disk
  have hlen : length.toNat = req.blockCount.toNat * cfg.logicalBlockSize.toNat := hlen
  refine ⟨offset, length, hoff, hlen, ?_⟩
  rintro r rfl
  have hshort : ¬ req.remoteLength < length := by
    rw [UInt64.lt_iff_toNat_lt, hlen]
    exact Nat.not_lt.mpr h.length_le
  have hmap : rdmaRamdiskMapLba t.disk req.lba req.blockCount =
      .ok ⟨offset, length, (createdDisk cfg block).base.add offset.toNat,
        ⟨mockIovaBase + offset, mockLkey, length⟩⟩ := by
    rw [hdisk, rdmaRamdiskMapLba, hok]
    rfl
  unfold targetSessionSubmitIo rdmaDirection
  rw [h.connected, hmap, hops]
  simp only [Bool.not_true, Bool.false_eq_true, if_false, hshort, mockRdmaOps]
  rcases h.direction with hdir | hdir
  · rw [if_pos hdir, if_pos hdir]
  · have hne : req.direction ≠ targetIoRead := by
      rw [hdir]
      decide
    rw [if_neg hne, if_neg hne, if_pos hdir]

theorem submitIo_stopped (hcfg : cfg.Valid) (hdisk : t.disk = createdDisk cfg block)
    (heap : Heap) (h : ¬ Passes cfg block t req) :
    ∃ rc, rc ≠ 0 ∧ targetSessionSubmitIo t heap req = (rc, t, heap) := by
  unfold targetSessionSubmitIo
  by_cases hconn : t.connected = true
  swap
  · exact ⟨-EINVAL, by decide, if_pos (by simpa using hconn)⟩
  rw [if_neg (by simpa using hconn)]
  by_cases hon : OnDisk (createdDisk cfg block) req.lba req.blockCount
  · obtain ⟨offset, length, hok, -, hlen⟩ := checkedIoRange_of_onDisk hcfg.block_ne hon
    have hlen : length.toNat = req.blockCount.toNat * cfg.logicalBlockSize.toNat := hlen
    rw [hdisk, rdmaRamdiskMapLba, hok]
    dsimp only
    by_cases hshort : req.remoteLength < length
    · exact ⟨-ERANGE, by decide, if_pos hshort⟩
    · -- what is left to fail is the direction
      have hle : req.blockCount.toNat * cfg.logicalBlockSize.toNat ≤ req.remoteLength.toNat := by
        rw [UInt64.lt_iff_toNat_lt, hlen] at hshort
        exact Nat.not_lt.mp hshort
      have hdir := not_or.mp fun hdir => h ⟨hconn, hon, hle, hdir⟩
      rw [if_neg hshort, if_neg hdir.1, if_neg hdir.2]
      exact ⟨-EINVAL, by decide, rfl⟩
  · obtain ⟨rc, herr, hne⟩ := checkedIoRange_of_not_onDisk
      (show (createdDisk cfg block).logicalBlockSize ≠ 0 from hcfg.block_ne) hon
    rw [hdisk, rdmaRamdiskMapLba, herr]
    exact ⟨rc, hne, rfl⟩

theorem submit_wiring (hcfg : cfg.Valid) (hdisk : t.disk = createdDisk cfg block)
    (hops : t.ops = mockRdmaOps) (heap : Heap) (req : IoRequest) :
    SameWiring t.ctx (targetSessionSubmitIo t heap req).2.1.ctx := by
  by_cases hpass : Passes cfg block t req
  · obtain ⟨offset, length, -, -, hsubmit⟩ := submitIo_passes hcfg hdisk hops heap hpass
    rw [hsubmit _ rfl]
    exact mockSubmit_wiring t.ctx heap _ _ _
  · obtain ⟨rc, -, heq⟩ := submitIo_stopped hcfg hdisk heap hpass
    rw [heq]
    exact .refl t.ctx

/-- **A disk that is created** is what its configuration says, in the block that was
allocated, and it is what is registered from now on. -/
theorem create_ok {calloced : Bool} {memalign : Except Int BlockId} {heap' : Heap}
    (h : rdmaRamdiskCreate mockRdmaOps cfg ctx heap calloced memalign = .ok (disk, ctx', heap')) :
    ∃ block, memalign = .ok block ∧ disk = createdDisk cfg block ∧
      ctx'.remoteMemory = ctx.remoteMemory ∧ ctx'.remoteLength = ctx.remoteLength ∧
      Registered ctx' disk ∧ cfg.sizeBytes ≠ 0 ∧ cfg.logicalBlockSize ≠ 0 ∧
      cfg.logicalBlockSize.toNat ∣ cfg.sizeBytes.toNat := by
  unfold rdmaRamdiskCreate at h
  split_ifs at h with hcfg hcalloc
  rw [not_or, not_or, not_or, not_not] at hcfg
  rcases memalign with rc | block
  · cases h
  have hdvd : cfg.logicalBlockSize.toNat ∣ cfg.sizeBytes.toNat := by
    have hmod := congrArg UInt64.toNat hcfg.2.2.1
    rw [UInt64.toNat_mod, UInt32.toNat_toUInt64] at hmod
    exact Nat.dvd_of_mod_eq_zero hmod
  dsimp only at h
  rcases hreg : mockRdmaOps.registerMr ctx ⟨block, 0⟩ cfg.sizeBytes with rc | ⟨mr, ctx₁⟩
  · rw [hreg] at h
    cases h
  rw [hreg] at h
  obtain ⟨rfl, rfl, rfl⟩ : _ ∧ _ ∧ _ := by simpa using h
  have hreg : mockRegisterMr ctx ⟨block, 0⟩ cfg.sizeBytes = .ok (mr, ctx₁) := hreg
  unfold mockRegisterMr at hreg
  split_ifs at hreg
  obtain ⟨rfl, rfl⟩ : _ ∧ _ := by simpa using hreg
  exact ⟨block, rfl, rfl, rfl, rfl, ⟨rfl, rfl, rfl, rfl⟩, hcfg.1, hcfg.2.1, hdvd⟩

/-! ### Every call keeps the invariant -/

theorem Bench.inv_init (remote : Ptr) (remoteLength : UInt64) (heap : Heap) :
    (Bench.init remote remoteLength heap).Inv remote remoteLength := by
  refine ⟨rfl, rfl, ?_, ?_, fun _ => rfl, ?_⟩
  · intro d disk h
    cases h
  · intro d d' disk disk' h
    cases h
  · intro o h
    cases h

theorem Bench.live_append (b : Bench) (disk : RdmaRamdisk) (ctx : MockRdmaContext) (heap : Heap)
    (owner : Option Nat) (d : Nat) :
    Bench.live { b with
        ctx := ctx
        heap := heap
        disks := b.disks ++ [(disk, true)]
        owner := owner } d =
      if d = b.disks.length then some disk else b.live d := by
  unfold Bench.live
  rcases Nat.lt_trichotomy d b.disks.length with hlt | rfl | hgt
  · rw [if_neg hlt.ne]
    show ((b.disks ++ [(disk, true)])[d]?).bind _ = _
    rw [List.getElem?_append_left hlt]
  · rw [if_pos rfl]
    show ((b.disks ++ [(disk, true)])[b.disks.length]?).bind _ = _
    rw [List.getElem?_concat_length]
    rfl
  · rw [if_neg hgt.ne']
    show ((b.disks ++ [(disk, true)])[d]?).bind _ = _
    have hle : (b.disks ++ [(disk, true)]).length ≤ d := by
      rw [List.length_append]
      exact hgt
    rw [List.getElem?_eq_none hle, List.getElem?_eq_none hgt.le]

theorem Bench.live_set (b : Bench) (disk : RdmaRamdisk) (ctx : MockRdmaContext) (d d' : Nat) :
    Bench.live { b with ctx := ctx, disks := b.disks.set d (disk, false), owner := none } d' =
      if d' = d then none else b.live d' := by
  unfold Bench.live
  show ((b.disks.set d (disk, false))[d']?).bind _ = _
  by_cases hd : d' = d
  · subst hd
    rw [if_pos rfl, List.getElem?_set_self']
    rcases b.disks[d']? with - | e
    · rfl
    · rfl
  · rw [if_neg hd, List.getElem?_set_ne (Ne.symm hd)]

/-- A new disk takes the registration. -/
theorem Bench.Inv.create (h : b.Inv remote remoteLength) {calloced : Bool}
    {memalign : Except Int BlockId} {heap' : Heap}
    (hok : b.Allocates remote (.create cfg calloced memalign))
    (hcreate : rdmaRamdiskCreate mockRdmaOps cfg b.ctx b.heap calloced memalign =
      .ok (disk, ctx', heap')) :
    Bench.Inv remote remoteLength { b with
      ctx := ctx'
      heap := heap'
      disks := b.disks ++ [(disk, true)]
      owner := some b.disks.length } := by
  obtain ⟨block, rfl, rfl, hmem, hlen, hreg, hsize, hblock, hdvd⟩ := create_ok hcreate
  obtain ⟨-, hremote, hfresh, hroom⟩ := hok
  refine ⟨hmem.trans h.remoteMemory, hlen.trans h.remoteLength, ?_, ?_, ?_, ?_⟩
  · intro d disk hd
    rw [Bench.live_append] at hd
    split_ifs at hd
    · obtain rfl := Option.some.inj hd
      exact ⟨cfg, block, ⟨hsize, hblock, hdvd, hroom⟩, hremote, rfl⟩
    · exact h.created d disk hd
  · intro d d' disk disk' hd hd' hne
    rw [Bench.live_append] at hd hd'
    split_ifs at hd hd' with h₁ h₂ h₂
    · exact absurd (h₁.trans h₂.symm) hne
    · obtain rfl := Option.some.inj hd
      exact (hfresh d' disk' hd').symm
    · obtain rfl := Option.some.inj hd'
      exact hfresh d disk hd
    · exact h.apart d d' disk disk' hd hd' hne
  · intro hnone
    cases hnone
  · rintro o ⟨⟩
    exact ⟨_, by rw [Bench.live_append, if_pos rfl], hreg⟩

/-- Whichever disk is destroyed, nothing is registered then. -/
theorem Bench.Inv.destroy (h : b.Inv remote remoteLength) (d : Nat) (disk : RdmaRamdisk) :
    Bench.Inv remote remoteLength { b with
      ctx := mockDeregisterMr b.ctx
      disks := b.disks.set d (disk, false)
      owner := none } := by
  refine ⟨h.remoteMemory, h.remoteLength, ?_, ?_, fun _ => rfl, ?_⟩
  · intro d₁ disk₁ hd
    rw [Bench.live_set] at hd
    split_ifs at hd
    exact h.created d₁ disk₁ hd
  · intro d₁ d₂ disk₁ disk₂ hd₁ hd₂ hne
    rw [Bench.live_set] at hd₁ hd₂
    split_ifs at hd₁ hd₂
    exact h.apart d₁ d₂ disk₁ disk₂ hd₁ hd₂ hne
  · intro o ho
    cases ho

/-- The session of a request, on a disk that was created. -/
theorem Bench.Inv.target (h : b.Inv remote remoteLength) (ht : b.target s = some t) :
    t.ops = mockRdmaOps ∧ t.ctx = b.ctx ∧
      ∃ d cfg block, b.sessions[s]? = some (d, t.connected) ∧ b.live d = some t.disk ∧
        cfg.Valid ∧ block ≠ remote.block ∧ t.disk = createdDisk cfg block := by
  obtain ⟨⟨d, connected⟩, hs, hdisk⟩ := Option.bind_eq_some_iff.mp ht
  obtain ⟨disk, hlive, rfl⟩ := Option.map_eq_some_iff.mp hdisk
  obtain ⟨cfg, block, hcfg, hblock, hcreated⟩ := h.created d disk hlive
  exact ⟨rfl, rfl, d, cfg, block, hs, hlive, hcfg, hblock, hcreated⟩

theorem Bench.session_ctx (ht : b.session s = some t) : t.ops = mockRdmaOps ∧ t.ctx = b.ctx := by
  obtain ⟨⟨d, connected⟩, -, hdisk⟩ := Option.bind_eq_some_iff.mp ht
  obtain ⟨disk, -, rfl⟩ := Option.map_eq_some_iff.mp hdisk
  exact ⟨rfl, rfl⟩

/-- **One call keeps the invariant.** -/
theorem Bench.Inv.step (h : b.Inv remote remoteLength) {op : BenchOp}
    (hok : b.Allocates remote op) (hstep : b.step op = some b') : b'.Inv remote remoteLength := by
  cases op with
  | create cfg calloced memalign =>
      simp only [Bench.step] at hstep
      split at hstep
      · obtain rfl := Option.some.inj hstep
        exact h
      next disk ctx heap hcreate =>
        obtain rfl := Option.some.inj hstep
        exact h.create hok hcreate
  | destroy d =>
      obtain ⟨disk, -, rfl⟩ := Option.map_eq_some_iff.mp hstep
      exact h.destroy d disk
  | fill d lba blockCount value =>
      obtain ⟨disk, -, rfl⟩ := Option.map_eq_some_iff.mp hstep
      exact h.congr rfl rfl (.refl _)
  | initSession d =>
      obtain ⟨disk, -, rfl⟩ := Option.map_eq_some_iff.mp hstep
      exact h.congr rfl rfl (.refl _)
  | connect s endpoint =>
      obtain ⟨t, ht, rfl⟩ := Option.map_eq_some_iff.mp hstep
      obtain ⟨hops, hctx⟩ := Bench.session_ctx ht
      exact h.congr rfl rfl (hctx ▸ connect_wiring t hops endpoint)
  | disconnect s =>
      obtain ⟨t, ht, rfl⟩ := Option.map_eq_some_iff.mp hstep
      obtain ⟨-, hctx⟩ := Bench.session_ctx ht
      exact h.congr rfl rfl (hctx ▸ disconnect_wiring t)
  | submit s req =>
      obtain ⟨t, ht, rfl⟩ := Option.map_eq_some_iff.mp hstep
      obtain ⟨hops, hctx, d, cfg, block, -, -, hcfg, -, hdisk⟩ := h.target ht
      exact h.congr rfl rfl (hctx ▸ submit_wiring hcfg hdisk hops b.heap req)

/-! ### One request on a shared context -/

/-- The registered disk as the only disk of a session: what `PrototypeIo` knows of such
a session's context holds of the shared one. -/
theorem Registered.ready (hreg : Registered ctx (createdDisk cfg block))
    (hlinked : ctx.connected = true) (hmem : ctx.remoteMemory = remote)
    (hlen : ctx.remoteLength = remoteLength) :
    Ready cfg remote remoteLength block ⟨createdDisk cfg block, mockRdmaOps, ctx, true⟩ :=
  ⟨rfl, rfl, rfl, hlinked, hmem, hlen, hreg.addr, hreg.length, hreg.iova, hreg.lkey⟩

theorem mockSubmit_unlinked (hlinked : ctx.connected = false) (heap : Heap) (direction : UInt32)
    (sge : LocalSge) (region : RemoteRegion) :
    mockSubmit ctx heap direction sge region = (-EINVAL, ctx, heap) := by
  rw [mockSubmit, if_pos (.inl (by rw [hlinked]; rfl))]

/-- The local side of the transfer is refused. -/
theorem mockSubmit_local {rc : Int} {length : UInt64} (hlinked : ctx.connected = true)
    (heap : Heap) (direction : UInt32) {sge : LocalSge} (addr : UInt64) (rkey : UInt32)
    (hlength : sge.length = length) (h : localSgeToPtr ctx sge = .error rc) :
    mockSubmit ctx heap direction sge ⟨addr, rkey, length⟩ = (rc, ctx, heap) := by
  rw [mockSubmit, if_neg (by simp [hlinked, hlength]), h]

theorem localSgeToPtr_unregistered (hkey : ctx.registeredLkey = 0) (addr length : UInt64) :
    localSgeToPtr ctx ⟨addr, mockLkey, length⟩ = .error (-EINVAL) := by
  have hne : mockLkey ≠ 0 := by decide
  rw [localSgeToPtr, if_pos (.inl (hkey ▸ hne))]

/-- Blocks that the session's disk has and the registered disk has not. -/
theorem localSgeToPtr_outside (hreg : Registered ctx disk) {offset length : UInt64}
    (hroom : offset.toNat + 2 ^ 32 < 2 ^ 64)
    (hout : ¬ offset.toNat + length.toNat ≤ disk.sizeBytes.toNat) :
    localSgeToPtr ctx ⟨mockIovaBase + offset, mockLkey, length⟩ = .error (-ERANGE) := by
  rw [localSgeToPtr_registered hreg.lkey hreg.iova length hroom, hreg.length, if_neg hout]

/-- What `target_session_submit_io` does with `req` on a session `t` for a disk of
configuration `cfg`. -/
structure SharedIo (remote : Ptr) (remoteLength : UInt64) (b : Bench)
    (t : TargetSession MockRdmaContext) (cfg : RamdiskConfig) (req : IoRequest) : Prop where
  /-- It is carried out if it is admitted, session and context are connected, and the
  registered disk has the blocks. -/
  ok_iff : (targetSessionSubmitIo t b.heap req).1 = 0 ↔
    t.connected = true ∧ b.ctx.connected = true ∧ Admitted cfg remoteLength req ∧
      ∃ o disk, b.owner = some o ∧ b.live o = some disk ∧
        (req.lba.toNat + req.blockCount.toNat) * cfg.logicalBlockSize.toNat ≤ disk.sizeBytes.toNat
  /-- The blocks are those of the registered disk. -/
  done : (targetSessionSubmitIo t b.heap req).1 = 0 → ∀ o disk, b.owner = some o →
    b.live o = some disk → (targetSessionSubmitIo t b.heap req).2.2 =
      transferred cfg remote disk.base.block b.heap req
  /-- The other disks keep their contents. -/
  others : ∀ d disk, b.live d = some disk → b.owner ≠ some d →
    (targetSessionSubmitIo t b.heap req).2.2 disk.base.block = b.heap disk.base.block
  refused : (targetSessionSubmitIo t b.heap req).1 ≠ 0 →
    (targetSessionSubmitIo t b.heap req).2 = (t, b.heap)

/-- A request that is refused. -/
theorem SharedIo.of_refused {rc : Int} (hrc : rc ≠ 0)
    (heq : targetSessionSubmitIo t b.heap req = (rc, t, b.heap))
    (hnot : ¬ (t.connected = true ∧ b.ctx.connected = true ∧ Admitted cfg remoteLength req ∧
      ∃ o disk, b.owner = some o ∧ b.live o = some disk ∧
        (req.lba.toNat + req.blockCount.toNat) * cfg.logicalBlockSize.toNat ≤
          disk.sizeBytes.toNat)) :
    SharedIo remote remoteLength b t cfg req := by
  constructor <;> rw [heq]
  · exact iff_of_false hrc hnot
  · exact fun h => absurd h hrc
  · exact fun _ _ _ _ => rfl
  · exact fun _ => rfl

/-- A copy changes one block. -/
theorem transferred_of_ne (heap : Heap) (req : IoRequest) {b : BlockId} (hremote : b ≠ remote.block)
    (hblock : b ≠ block) : transferred cfg remote block heap req b = heap b := by
  unfold transferred
  split_ifs
  · exact heap.memcpy_of_ne _ _ _ hremote
  · exact heap.memcpy_of_ne _ _ _ hblock

/-- A transfer that the mock carries out, as a copy between the remote memory and the
block of the registered disk. -/
theorem mockSubmit_transferred {cfg' : RamdiskConfig} {offset length : UInt64} (hcfg' : cfg'.Valid)
    (hready : Ready cfg' remote remoteLength block t) (heap : Heap)
    (hdir : req.direction = targetIoRead ∨ req.direction = targetIoWrite)
    (hoff : offset.toNat = req.lba.toNat * cfg.logicalBlockSize.toNat)
    (hlen : length.toNat = req.blockCount.toNat * cfg.logicalBlockSize.toNat)
    (hpos : 0 < length.toNat) (hfits : offset.toNat + length.toNat ≤ cfg'.sizeBytes.toNat)
    (hremote : req.remoteAddr.toNat + length.toNat ≤ remoteLength.toNat) :
    mockSubmit t.ctx heap (rdmaDirection req) ⟨mockIovaBase + offset, mockLkey, length⟩
        ⟨req.remoteAddr, req.rkey, length⟩ =
      (0, t.ctx.submitted (rdmaDirection req), transferred cfg remote block heap req) := by
  obtain ⟨hread, hwrite⟩ := mockSubmit_done hcfg' hready heap req.rkey hpos hfits hremote
  unfold transferred rdmaDirection
  rcases hdir with hdir | hdir
  · rw [if_pos hdir, if_pos hdir, hread, hoff, hlen]
  · have hne : req.direction ≠ targetIoRead := by
      rw [hdir]
      decide
    rw [if_neg hne, if_neg hne, hwrite, hoff, hlen]

/-- A request that the session hands on, with a registered disk. -/
theorem sharedIo_registered {o : Nat} {cfg' : RamdiskConfig} {block' : BlockId}
    (h : b.Inv remote remoteLength) (hctx : t.ctx = b.ctx) (hcfg : cfg.Valid)
    (hdisk : t.disk = createdDisk cfg block) (hops : t.ops = mockRdmaOps)
    (hpass : Passes cfg block t req) (hlinked : b.ctx.connected = true) (ho : b.owner = some o)
    (hlive : b.live o = some (createdDisk cfg' block')) (hcfg' : cfg'.Valid)
    (hreg : Registered b.ctx (createdDisk cfg' block')) :
    SharedIo remote remoteLength b t cfg req := by
  obtain ⟨offset, length, hoff, hlen, hsubmit⟩ := submitIo_passes hcfg hdisk hops b.heap hpass
  have hon := hpass.on_disk
  have hbytes : offset.toNat + length.toNat =
      (req.lba.toNat + req.blockCount.toNat) * cfg.logicalBlockSize.toNat := by
    rw [hoff, hlen, Nat.add_mul]
  have hpos : 0 < length.toNat := by
    rw [hlen]
    exact hon.bytes_pos hcfg.block_ne
  have hinside : offset.toNat + length.toNat ≤ cfg.sizeBytes.toNat := hbytes ▸ hon.fits
  have hroom := hcfg.room
  have hready := hreg.ready hlinked h.remoteMemory h.remoteLength
  by_cases hfits : offset.toNat + length.toNat ≤ cfg'.sizeBytes.toNat
  swap
  · have hlocal := localSgeToPtr_outside hreg (by omega : offset.toNat + 2 ^ 32 < 2 ^ 64) hfits
    have hsub := mockSubmit_local hlinked b.heap (rdmaDirection req) req.remoteAddr req.rkey rfl
      hlocal
    refine SharedIo.of_refused (by decide : -ERANGE ≠ 0) ?_ ?_
    · exact hsubmit _ (hctx ▸ hsub)
    · rintro ⟨-, -, -, o', disk', ho', hlive', hle⟩
      obtain rfl := Option.some.inj (ho.symm.trans ho')
      obtain rfl := Option.some.inj (hlive.symm.trans hlive')
      exact hfits (hbytes ▸ hle)
  by_cases hremote : req.remoteAddr.toNat + length.toNat ≤ remoteLength.toNat
  swap
  · have hsub := mockSubmit_refused hcfg' hready b.heap (rdmaDirection req) req.rkey hpos hfits
      hremote
    refine SharedIo.of_refused (by decide : -ERANGE ≠ 0) ?_ ?_
    · exact hsubmit _ (hctx ▸ hsub)
    · rintro ⟨-, -, hadm, -⟩
      exact hremote (hlen ▸ hadm.remote_le)
  -- the request is carried out, in the block of the registered disk
  have hsub := mockSubmit_transferred hcfg' hready b.heap hpass.direction hoff hlen hpos hfits
    hremote
  have hresult := hsubmit _ (hctx ▸ hsub)
  have hadm : Admitted cfg remoteLength req :=
    ⟨hon.count_pos, hon.fits, hpass.length_le, hlen ▸ hremote, hpass.direction⟩
  constructor <;> rw [hresult]
  · exact iff_of_true rfl ⟨hpass.connected, hlinked, hadm, o, _, ho, hlive, hbytes ▸ hfits⟩
  · intro _ o' disk' ho' hlive'
    obtain rfl := Option.some.inj (ho.symm.trans ho')
    obtain rfl := Option.some.inj (hlive.symm.trans hlive')
    rfl
  · intro d disk' hd hne
    obtain ⟨cfg₁, block₁, -, hblock₁, rfl⟩ := h.created d disk' hd
    have hapart := h.apart d o _ _ hd hlive fun heq => hne (heq ▸ ho)
    exact transferred_of_ne b.heap req hblock₁ hapart
  · exact fun hne => absurd rfl hne

/-- One request on a session whose disk lives. -/
theorem Bench.Inv.sharedIo (h : b.Inv remote remoteLength) (hctx : t.ctx = b.ctx)
    (hcfg : cfg.Valid) (hdisk : t.disk = createdDisk cfg block) (hops : t.ops = mockRdmaOps)
    (req : IoRequest) : SharedIo remote remoteLength b t cfg req := by
  by_cases hpass : Passes cfg block t req
  swap
  · obtain ⟨rc, hrc, heq⟩ := submitIo_stopped hcfg hdisk b.heap hpass
    refine SharedIo.of_refused hrc heq ?_
    rintro ⟨hconn, -, hadm, -⟩
    exact hpass ⟨hconn, ⟨hadm.count_pos, hadm.on_disk⟩, hadm.length_le, hadm.direction⟩
  obtain ⟨offset, length, -, -, hsubmit⟩ := submitIo_passes hcfg hdisk hops b.heap hpass
  rcases hlinked : b.ctx.connected with - | -
  · have hsub := mockSubmit_unlinked (hctx ▸ hlinked : t.ctx.connected = false) b.heap
      (rdmaDirection req) ⟨mockIovaBase + offset, mockLkey, length⟩
      ⟨req.remoteAddr, req.rkey, length⟩
    refine SharedIo.of_refused (by decide : -EINVAL ≠ 0) (hsubmit _ hsub) ?_
    rintro ⟨-, hlink, -⟩
    rw [hlinked] at hlink
    cases hlink
  rcases ho : b.owner with - | o
  · have hlocal := localSgeToPtr_unregistered (hctx ▸ h.unregistered ho : t.ctx.registeredLkey = 0)
      (mockIovaBase + offset) length
    have hsub := mockSubmit_local (hctx ▸ hlinked : t.ctx.connected = true) b.heap
      (rdmaDirection req) req.remoteAddr req.rkey rfl hlocal
    refine SharedIo.of_refused (by decide : -EINVAL ≠ 0) (hsubmit _ hsub) ?_
    rintro ⟨-, -, -, o, disk, ho', -⟩
    rw [ho] at ho'
    cases ho'
  · obtain ⟨disk, hlive, hreg⟩ := h.registered o ho
    obtain ⟨cfg', block', hcfg', -, rfl⟩ := h.created o disk hlive
    exact sharedIo_registered h hctx hcfg hdisk hops hpass hlinked ho hlive hcfg' hreg

/-- **Requests on a shared context.**  After any sequence of calls, a request on a
session whose disk lives is carried out on the disk that was created last, if none was
destroyed since, whichever disk the session is for; the other disks keep their
contents, and a request that is refused changes nothing. -/
theorem shared_submit (remote : Ptr) (remoteLength : UInt64) (heap : Heap) (ops : List BenchOp)
    (b : Bench) (hok : RunOk Bench.step (Bench.Allocates remote)
      (Bench.init remote remoteLength heap) ops)
    (hrun : run Bench.step (Bench.init remote remoteLength heap) ops = some b) (s : Nat)
    (t : TargetSession MockRdmaContext) (ht : b.target s = some t) (req : IoRequest) :
    ∃ d cfg block, b.sessions[s]? = some (d, t.connected) ∧ b.live d = some t.disk ∧
      t.disk = createdDisk cfg block ∧ SharedIo remote remoteLength b t cfg req := by
  have hinv : b.Inv remote remoteLength :=
    run_invariant (Bench.inv_init remote remoteLength heap)
      (fun b op b' h hop hstep => Bench.Inv.step h hop hstep) hok hrun
  obtain ⟨hops, hctx, d, cfg, block, hs, hlive, hcfg, -, hdisk⟩ := hinv.target ht
  exact ⟨d, cfg, block, hs, hlive, hdisk, hinv.sharedIo hctx hcfg hdisk hops req⟩

/-- Two disks, and a session for the first of them. -/
def twoDisks : List BenchOp :=
  [.create ⟨1024, 512⟩ true (.ok 1), .create ⟨1024, 512⟩ true (.ok 2), .initSession 0,
    .connect 0 (some [99])]

theorem twoDisks_allocates :
    RunOk Bench.step (Bench.Allocates ⟨3, 0⟩) (Bench.init ⟨3, 0⟩ 512 fun _ _ => 0x3C) twoDisks := by
  refine ⟨⟨by decide, by decide, ?_, by decide⟩, ?_⟩
  · intro d disk h
    cases h
  rintro b₁ ⟨⟩
  refine ⟨⟨by decide, by decide, ?_, by decide⟩, ?_⟩
  · rintro (- | d) disk ⟨⟩
    decide
  rintro b₂ ⟨⟩
  refine ⟨trivial, ?_⟩
  rintro b₃ ⟨⟩
  exact ⟨trivial, fun _ _ => trivial⟩

/-- A WRITE on a session for the first disk goes to the second. -/
theorem shared_submit_second :
    ∃ b t, run Bench.step (Bench.init ⟨3, 0⟩ 512 fun _ _ => 0x3C) twoDisks = some b ∧
      b.target 0 = some t ∧ t.disk.base.block = 1 ∧
      (targetSessionSubmitIo t b.heap ⟨targetIoWrite, 0, 1, 0, 0xCAFE, 512⟩).1 = 0 ∧
      (targetSessionSubmitIo t b.heap ⟨targetIoWrite, 0, 1, 0, 0xCAFE, 512⟩).2.2 1 = b.heap 1 ∧
      (targetSessionSubmitIo t b.heap ⟨targetIoWrite, 0, 1, 0, 0xCAFE, 512⟩).2.2 2 0 =
        b.heap 3 0 := by
  refine ⟨_, _, rfl, rfl, rfl, ?_⟩
  obtain ⟨d, cfg, block, hs, hlive, hdisk, hio⟩ := shared_submit ⟨3, 0⟩ 512 (fun _ _ => 0x3C)
    twoDisks _ twoDisks_allocates rfl 0 _ rfl ⟨targetIoWrite, 0, 1, 0, 0xCAFE, 512⟩
  obtain rfl : (⟨1024, 512⟩ : RamdiskConfig) = cfg :=
    congrArg (fun disk => RamdiskConfig.mk disk.sizeBytes disk.logicalBlockSize) hdisk
  have hok := hio.ok_iff.mpr
    ⟨rfl, rfl, ⟨by decide, by decide, by decide, by decide, .inr rfl⟩, 1, _, rfl, rfl, by decide⟩
  refine ⟨hok, hio.others 0 _ rfl (by decide), ?_⟩
  have hheap := congrFun (congrFun (hio.done hok 1 _ rfl rfl) 2) 0
  exact hheap.trans rfl

end Prototype

end DirectStorage
