/-
DirectStorage/BlkdevTransport.lean

The transports of the two kernel drivers, from their set-up to their clean-up:
`urma_blkdev_find_device`, `urma_blkdev_setup_urma` and
`urma_blkdev_cleanup_urma`, and `rdma_blkdev_setup_rdma` and
`rdma_blkdev_cleanup_rdma`.

`BlkdevInit` keeps of all this one bit.  Here every call that acquires or
releases something is in the ledger, with what it was created from: a token from
the device, a segment from the device and the token, a protection domain from the
device, a memory region from the domain, a mapping from the device.  A load that
fails later and an unload both run the clean-up once, and nothing touches the
fields in between, so set-up and clean-up together are the transport's life.

The URMA driver gives back everything, children first (`urmaTransport_lifecycle`).

The RDMA driver does not.  Without `ib_dev_name` it counts the devices with
`ib_device_get_by_netdev`, which does not count but takes a reference to a device
and returns it; the pointer, cut down to an `int`, is the number of rounds of a
loop, after one more reference has been taken and dropped.  And the clean-up takes
the bus address 0 for no mapping.  `rdmaTransport_tidy_iff` says when nothing is
left.
-/
import DirectStorage.Blkdev
import DirectStorage.Ledger

namespace DirectStorage

namespace Blkdev

/-- What the drivers acquire from their transports; `device` is a reference. -/
inductive TransportKind
  | device
  | token
  | seg
  | pd
  | mr
  | mapping
  deriving DecidableEq

/-- A pointer to something acquired. -/
abbrev Handle := TransportKind × Nat

/-- Release what a pointer points to, if it is not `NULL`. -/
def drop (L : Ledger TransportKind) : Option Handle → Ledger TransportKind
  | none => L
  | some h => L.release h

section Drop

variable {L : Ledger TransportKind} {chain : List Handle} {o : Option Handle} {x : Handle}

theorem drop_owns (h : Owns L [] (o.toList ++ chain)) : Owns (drop L o) [] chain := by
  cases o with
  | none => exact h
  | some p => exact h.releaseChain

theorem live_drop : Live (drop L o).log x ↔ Live L.log x ∧ o ≠ some x := by
  cases o with
  | none => simp [drop]
  | some p =>
      refine live_release.trans (and_congr_right fun _ => not_congr ?_)
      exact eq_comm.trans (Option.some_inj).symm

end Drop

/-! ### The URMA driver -/

/-- What the kernel and `ubcore` answer. -/
structure UrmaAnswers where
  /-- With `ub_dev_name`, whether there is a device of that name. -/
  byName : Option Bool
  /-- For each network device, whether it belongs to a URMA device. -/
  netdevs : List Bool
  /-- The id of a new token. -/
  allocTokenId : Option UInt32
  /-- The UBVA of a new segment. -/
  registerSeg : Option UInt64
  /-- `virt_to_phys(dev->ramdisk_addr)`. -/
  physAddr : UInt64

/-- The device's fields for its transport. -/
structure UrmaTransport where
  ledger : Ledger TransportKind
  ubDev : Option Handle
  tokenId : Option Handle
  seg : Option Handle
  ubvaAddr : UInt64
  tokenIdVal : UInt32

/-- The loop over the network devices. -/
def findDeviceLoop (L : Ledger TransportKind) : List Bool → Option Handle × Ledger TransportKind
  | [] => (none, L)
  | found :: rest =>
      if found then (some (.device, L.next), L.acquire .device []) else findDeviceLoop L rest

/-- `urma_blkdev_find_device`. -/
def urmaBlkdevFindDevice (k : UrmaAnswers) (L : Ledger TransportKind) :
    Option Handle × Ledger TransportKind :=
  match k.byName with
  | some found => if found then (some (.device, L.next), L.acquire .device []) else (none, L)
  | none => findDeviceLoop L k.netdevs

/-- `urma_blkdev_setup_urma`. -/
def urmaBlkdevSetupUrma (k : UrmaAnswers) (t : UrmaTransport) : Int × UrmaTransport :=
  match t.ubDev with
  | none => (0, { t with ubvaAddr := k.physAddr, tokenIdVal := 0 })
  | some dev =>
      match k.allocTokenId with
      | none => (-ENOMEM, { t with tokenId := none })
      | some id =>
          let token : Handle := (.token, t.ledger.next)
          let t := { t with
            ledger := t.ledger.acquire .token [dev]
            tokenId := some token
            tokenIdVal := id }
          match k.registerSeg with
          | none =>
              (-EINVAL, { t with ledger := t.ledger.release token, tokenId := none, seg := none })
          | some va =>
              (0, { t with
                ledger := t.ledger.acquire .seg [dev, token]
                seg := some (.seg, t.ledger.next)
                ubvaAddr := va })

/-- The part of `urma_blkdev_init` that sets the transport up, on a device that
`kzalloc` has cleared. -/
def urmaTransportInit (k : UrmaAnswers) : Int × UrmaTransport :=
  let found := urmaBlkdevFindDevice k Ledger.empty
  urmaBlkdevSetupUrma k
    { ledger := found.2
      ubDev := found.1
      tokenId := none
      seg := none
      ubvaAddr := 0
      tokenIdVal := 0 }

/-- `urma_blkdev_cleanup_urma`. -/
def urmaBlkdevCleanupUrma (t : UrmaTransport) : UrmaTransport :=
  { t with
    ledger := drop (drop (drop t.ledger t.seg) t.tokenId) t.ubDev
    seg := none
    tokenId := none
    ubDev := none }

/-- The driver finds a device. -/
def UrmaAnswers.found (k : UrmaAnswers) : Bool :=
  match k.byName with
  | some found => found
  | none => k.netdevs.any id

theorem findDeviceLoop_eq (L : Ledger TransportKind) (netdevs : List Bool) :
    findDeviceLoop L netdevs =
      if netdevs.any id then (some (.device, L.next), L.acquire .device []) else (none, L) := by
  induction netdevs with
  | nil => rfl
  | cons found rest ih =>
      cases found with
      | true => rfl
      | false => exact ih

theorem findDevice_eq (k : UrmaAnswers) (L : Ledger TransportKind) :
    urmaBlkdevFindDevice k L =
      if k.found then (some (.device, L.next), L.acquire .device []) else (none, L) := by
  unfold urmaBlkdevFindDevice UrmaAnswers.found
  cases k.byName with
  | none => exact findDeviceLoop_eq L k.netdevs
  | some found => rfl

/-- What the set-up of the URMA transport has come to. -/
structure UrmaTransport.Proper (k : UrmaAnswers) (rc : Int) (t : UrmaTransport) : Prop where
  /-- There is a segment exactly if all three steps went well, and then there is
  the device and the token it was made from, and its address. -/
  seg_iff : t.seg.isSome ↔ k.found = true ∧ k.allocTokenId.isSome ∧ k.registerSeg.isSome
  segment : t.seg.isSome → t.ubDev.isSome ∧ t.tokenId.isSome ∧ k.registerSeg = some t.ubvaAddr ∧
    k.allocTokenId = some t.tokenIdVal
  /-- The code is 0 exactly if there is a segment or no device. -/
  rc_iff : rc = 0 ↔ t.seg.isSome ∨ k.found = false
  /-- What is live is in the fields, in the order in which it can be released. -/
  owns : Owns t.ledger [] (t.seg.toList ++ (t.tokenId.toList ++ t.ubDev.toList))

theorem urmaTransportInit_proper (k : UrmaAnswers) :
    UrmaTransport.Proper k (urmaTransportInit k).1 (urmaTransportInit k).2 := by
  unfold urmaTransportInit
  rw [findDevice_eq]
  by_cases hfound : k.found = true
  · rw [if_pos hfound]
    have hdev : Owns (Ledger.empty.acquire TransportKind.device []) [] [(.device, 0)] :=
      Owns.empty.acquireChain TransportKind.device (by simp)
    rcases htoken : k.allocTokenId with - | id
    · simp only [urmaBlkdevSetupUrma, htoken]
      exact ⟨by simp [htoken], by simp, by simp [hfound, ENOMEM], hdev⟩
    · have hparent : ∀ q ∈ [((.device, 0) : Handle)], q ∈ [((.device, 0) : Handle)] :=
        fun _ hq => hq
      have htok := hdev.acquireChain .token hparent
      rcases hseg : k.registerSeg with - | va
      · simp only [urmaBlkdevSetupUrma, htoken, hseg]
        exact ⟨by simp [hseg], by simp, by simp [hfound, EINVAL], htok.releaseChain⟩
      · simp only [urmaBlkdevSetupUrma, htoken, hseg]
        have hparents : ∀ q ∈ [((.device, 0) : Handle), (.token, 1)],
            q ∈ [((.token, 1) : Handle), (.device, 0)] := by simp
        have hown := htok.acquireChain .seg hparents
        exact ⟨by simp [hfound, htoken, hseg], by simp [htoken, hseg], by simp, hown⟩
  · rw [if_neg hfound]
    simp only [urmaBlkdevSetupUrma]
    exact ⟨by simp [hfound], by simp, by simp [hfound], Owns.empty⟩

/-- **The URMA transport from its set-up to its clean-up**: whatever the kernel
answers, the set-up keeps everything that is live in its fields, and the clean-up
releases all of it, each once and before what it was created from. -/
theorem urmaTransport_lifecycle (k : UrmaAnswers) :
    UrmaTransport.Proper k (urmaTransportInit k).1 (urmaTransportInit k).2 ∧
      Owns (urmaBlkdevCleanupUrma (urmaTransportInit k).2).ledger [] [] := by
  have hproper := urmaTransportInit_proper k
  refine ⟨hproper, ?_⟩
  have hdev := drop_owns (drop_owns hproper.owns)
  rw [← List.append_nil (urmaTransportInit k).2.ubDev.toList] at hdev
  exact drop_owns hdev

/-! ### The RDMA driver -/

/-- What the kernel and the RDMA stack answer; codes are 0 for success. -/
structure RdmaAnswers where
  /-- With `ib_dev_name`, whether there is a device of that name. -/
  byName : Option Bool
  /-- What call number `n` of `ib_device_get_by_netdev` returns: a device, with a
  reference for the caller, or `NULL`, which is 0. -/
  byNetdev : Nat → UInt64
  kmalloc : Bool
  allocPd : Int
  /-- `lkey` and `rkey`. -/
  getDmaMr : Except Int (UInt32 × UInt32)
  /-- The bus address, or one for which `ib_dma_mapping_error` is true. -/
  dmaMapSingle : Except UInt64 UInt64
  physAddr : UInt64

/-- The device's fields for its transport.  The mapping is known to the driver by
`ramdiskIova` only. -/
structure RdmaTransport where
  ledger : Ledger TransportKind
  ibDev : Option Handle
  pd : Option Handle
  mr : Option Handle
  mapping : Option Handle
  lkey : UInt32
  rkey : UInt32
  ramdiskIova : UInt64

/-- Call number `n` of `ib_device_get_by_netdev`. -/
def getByNetdev (k : RdmaAnswers) (n : Nat) (L : Ledger TransportKind) :
    Option Handle × Ledger TransportKind :=
  if k.byNetdev n = 0 then (none, L) else (some (.device, L.next), L.acquire .device [])

/-- The loop with `rounds` rounds to go, whose next call is number `n`. -/
def netdevLoop (k : RdmaAnswers) : Nat → Nat → Ledger TransportKind →
    Option Handle × Ledger TransportKind
  | 0, _, L => (none, L)
  | rounds + 1, n, L =>
      if (getByNetdev k n L).1.isSome then getByNetdev k n L
      else netdevLoop k rounds (n + 1) (getByNetdev k n L).2

/-- `count`: a pointer in an `int`. -/
def RdmaAnswers.count (k : RdmaAnswers) : Int := (k.byNetdev 0).toUInt32.toInt32.toInt

/-- The first half of `rdma_blkdev_setup_rdma`: it returns, or goes on with a
device. -/
def rdmaFindDevice (k : RdmaAnswers) (t : RdmaTransport) :
    Except (Int × RdmaTransport) (Handle × RdmaTransport) :=
  match k.byName with
  | some found =>
      if found then
        let dev : Handle := (.device, t.ledger.next)
        .ok (dev, { t with ledger := t.ledger.acquire .device [], ibDev := some dev })
      else .error (-ENODEV, t)
  | none =>
      let L := (getByNetdev k 0 t.ledger).2
      if k.count ≤ 0 then
        .error (0, { t with
          ledger := L
          ibDev := none
          pd := none
          mr := none
          lkey := 0
          rkey := 0
          ramdiskIova := k.physAddr })
      else if !k.kmalloc then .error (-ENOMEM, { t with ledger := L })
      else
        let L := (getByNetdev k 1 L).2
        match netdevLoop k k.count.toNat 2 L with
        | (none, L) => .error (0, { t with ledger := L, ramdiskIova := k.physAddr })
        | (some dev, L) => .ok (dev, { t with ledger := L, ibDev := some dev })

/-- The label `err_put_dev`. -/
def errPutDev (dev : Handle) (t : RdmaTransport) : RdmaTransport :=
  { t with ledger := t.ledger.release dev, ibDev := none }

/-- The label `err_dealloc_pd`, which falls through to the one before. -/
def errDeallocPd (pd dev : Handle) (t : RdmaTransport) : RdmaTransport :=
  errPutDev dev { t with ledger := t.ledger.release pd, pd := none }

/-- The label `err_dereg_mr`. -/
def errDeregMr (mr pd dev : Handle) (t : RdmaTransport) : RdmaTransport :=
  errDeallocPd pd dev { t with ledger := t.ledger.release mr, mr := none }

/-- The second half of `rdma_blkdev_setup_rdma`. -/
def rdmaRegister (k : RdmaAnswers) (dev : Handle) (t : RdmaTransport) : Int × RdmaTransport :=
  if k.allocPd ≠ 0 then (k.allocPd, errPutDev dev { t with pd := none })
  else
    let pd : Handle := (.pd, t.ledger.next)
    let t := { t with ledger := t.ledger.acquire .pd [dev], pd := some pd }
    match k.getDmaMr with
    | .error rc => (rc, errDeallocPd pd dev { t with mr := none })
    | .ok (lkey, rkey) =>
        let mr : Handle := (.mr, t.ledger.next)
        let t := { t with
          ledger := t.ledger.acquire .mr [pd]
          mr := some mr
          lkey := lkey
          rkey := rkey }
        match k.dmaMapSingle with
        | .error iova => (- EIO, errDeregMr mr pd dev { t with ramdiskIova := iova })
        | .ok iova =>
            (0, { t with
              ledger := t.ledger.acquire .mapping [dev]
              mapping := some (.mapping, t.ledger.next)
              ramdiskIova := iova })

/-- `rdma_blkdev_setup_rdma`. -/
def rdmaBlkdevSetupRdma (k : RdmaAnswers) (t : RdmaTransport) : Int × RdmaTransport :=
  match rdmaFindDevice k t with
  | .error result => result
  | .ok (dev, t) => rdmaRegister k dev t

/-- The set-up, on a device that `kzalloc` has cleared. -/
def rdmaTransportInit (k : RdmaAnswers) : Int × RdmaTransport :=
  rdmaBlkdevSetupRdma k
    { ledger := Ledger.empty
      ibDev := none
      pd := none
      mr := none
      mapping := none
      lkey := 0
      rkey := 0
      ramdiskIova := 0 }

/-- `ib_dma_unmap_single`, as the clean-up calls it.  If there is no mapping, the
release is one of nothing. -/
def RdmaTransport.unmap (t : RdmaTransport) : Ledger TransportKind :=
  if t.ibDev.isSome ∧ t.ramdiskIova ≠ 0 then
    t.ledger.release (t.mapping.getD (.mapping, t.ledger.next))
  else t.ledger

/-- `rdma_blkdev_cleanup_rdma`. -/
def rdmaBlkdevCleanupRdma (t : RdmaTransport) : RdmaTransport :=
  { t with
    ledger := drop (drop (drop t.unmap t.mr) t.pd) t.ibDev
    ramdiskIova := if t.ibDev.isSome ∧ t.ramdiskIova ≠ 0 then 0 else t.ramdiskIova
    mr := none
    pd := none
    ibDev := none }

section Rdma

variable {k : RdmaAnswers} {L : Ledger TransportKind} {chain : List Handle} {t : RdmaTransport}

theorem getByNetdev_owns (h : Owns L [] chain) (n : Nat) :
    Owns (getByNetdev k n L).2 [] ((getByNetdev k n L).1.toList ++ chain) := by
  unfold getByNetdev
  split_ifs
  · exact h
  · exact h.acquireChain .device (by simp)

theorem netdevLoop_owns (h : Owns L [] chain) (rounds n : Nat) :
    Owns (netdevLoop k rounds n L).2 [] ((netdevLoop k rounds n L).1.toList ++ chain) := by
  induction rounds generalizing n L with
  | zero => exact h
  | succ rounds ih =>
      have hget := getByNetdev_owns (k := k) h n
      unfold netdevLoop
      split_ifs with hsome
      · exact hget
      · rw [Option.not_isSome_iff_eq_none.mp hsome] at hget
        exact ih hget (n + 1)

theorem isDevice_getByNetdev {n : Nat} {x : Handle} (h : x ∈ (getByNetdev k n L).1.toList) :
    x.1 = .device := by
  unfold getByNetdev at h
  split_ifs at h
  · cases h
  · rw [List.mem_singleton.mp h]

/-- No device, no rounds. -/
theorem byNetdev_ne_of_count (h : ¬ k.count ≤ 0) : k.byNetdev 0 ≠ 0 := by
  intro h0
  unfold RdmaAnswers.count at h
  rw [h0] at h
  exact h (by decide)

/-- Nothing of the set-up is in the fields. -/
structure RdmaTransport.Bare (t : RdmaTransport) : Prop where
  pd : t.pd = none
  mr : t.mr = none
  mapping : t.mapping = none

/-- How the search for a device ends, when `leaked` are the references that it
has taken and not kept. -/
inductive FoundDevice (leaked : List Handle) :
    Except (Int × RdmaTransport) (Handle × RdmaTransport) → Prop
  | nothing {rc : Int} {t : RdmaTransport} : t.Bare → t.ibDev = none → Owns t.ledger [] leaked →
      FoundDevice leaked (.error (rc, t))
  | found {dev : Handle} {t : RdmaTransport} : t.Bare → t.ibDev = some dev →
      Owns t.ledger [] (dev :: leaked) → FoundDevice leaked (.ok (dev, t))

/-- The references that are taken and not kept are the answers to the first two
calls of `ib_device_get_by_netdev`. -/
structure Leaks (k : RdmaAnswers) (leaked : List Handle) : Prop where
  nil_iff : leaked = [] ↔ k.byName.isSome ∨ k.byNetdev 0 = 0
  device : ∀ x ∈ leaked, x.1 = .device

theorem rdmaFindDevice_cases (hbare : t.Bare) (hdev : t.ibDev = none)
    (howns : Owns t.ledger [] []) :
    ∃ leaked, Leaks k leaked ∧ FoundDevice leaked (rdmaFindDevice k t) := by
  rcases hname : k.byName with - | found
  · -- the first call, for the number of devices
    have hfirst := getByNetdev_owns (k := k) howns 0
    rw [List.append_nil] at hfirst
    have hnil : (getByNetdev k 0 t.ledger).1.toList = [] ↔ k.byNetdev 0 = 0 := by
      unfold getByNetdev
      split_ifs with h0 <;> simp [h0]
    by_cases hcount : k.count ≤ 0
    · refine ⟨(getByNetdev k 0 t.ledger).1.toList, ⟨?_, ?_⟩, ?_⟩
      · rw [hnil, hname]
        simp
      · exact fun x => isDevice_getByNetdev
      · simp only [rdmaFindDevice, hname, if_pos hcount]
        exact .nothing ⟨rfl, rfl, hbare.mapping⟩ rfl hfirst
    have hne := byNetdev_ne_of_count hcount
    by_cases hmem : k.kmalloc = true
    · -- the second call, whose result nobody looks at, and the loop
      have hsecond := getByNetdev_owns (k := k) hfirst 1
      have hloop := netdevLoop_owns (k := k) hsecond k.count.toNat 2
      refine ⟨(getByNetdev k 1 (getByNetdev k 0 t.ledger).2).1.toList ++
        (getByNetdev k 0 t.ledger).1.toList, ⟨?_, ?_⟩, ?_⟩
      · rw [List.append_eq_nil_iff, hnil, hname]
        simp [hne]
      · intro x hx
        rcases List.mem_append.mp hx with hx | hx
        · exact isDevice_getByNetdev hx
        · exact isDevice_getByNetdev hx
      · simp only [rdmaFindDevice, hname, if_neg hcount, hmem]
        rcases hres : netdevLoop k k.count.toNat 2
          (getByNetdev k 1 (getByNetdev k 0 t.ledger).2).2 with ⟨- | dev, L⟩
        · rw [hres] at hloop
          exact .nothing ⟨hbare.pd, hbare.mr, hbare.mapping⟩ hdev hloop
        · rw [hres] at hloop
          exact .found ⟨hbare.pd, hbare.mr, hbare.mapping⟩ rfl hloop
    · refine ⟨(getByNetdev k 0 t.ledger).1.toList, ⟨?_, ?_⟩, ?_⟩
      · rw [hnil, hname]
        simp
      · exact fun x => isDevice_getByNetdev
      · simp only [rdmaFindDevice, hname, if_neg hcount, hmem]
        exact .nothing ⟨hbare.pd, hbare.mr, hbare.mapping⟩ hdev hfirst
  · refine ⟨[], ⟨by simp [hname], nofun⟩, ?_⟩
    cases found with
    | true =>
        simp only [rdmaFindDevice, hname]
        exact .found ⟨hbare.pd, hbare.mr, hbare.mapping⟩ rfl (howns.acquireChain .device (by simp))
    | false =>
        simp only [rdmaFindDevice, hname]
        exact .nothing hbare hdev howns

/-- What the set-up leaves in the fields: everything, or nothing. -/
inductive RdmaTransport.Kept (leaked : List Handle) (t : RdmaTransport) : Prop
  | nothing : t.Bare → t.ibDev = none → Owns t.ledger [] leaked → Kept leaked t
  | all {dev pd mr mapping : Handle} : t.ibDev = some dev → t.pd = some pd → t.mr = some mr →
      t.mapping = some mapping → Owns t.ledger [] (mapping :: mr :: pd :: dev :: leaked) →
      Kept leaked t

/-- The ladder undoes what the registration has done. -/
theorem rdmaRegister_kept {dev : Handle} {leaked : List Handle} (hbare : t.Bare)
    (hdev : t.ibDev = some dev) (howns : Owns t.ledger [] (dev :: leaked)) :
    (rdmaRegister k dev t).2.Kept leaked := by
  unfold rdmaRegister
  by_cases hpd : k.allocPd ≠ 0
  · rw [if_pos hpd]
    exact .nothing ⟨rfl, hbare.mr, hbare.mapping⟩ rfl howns.releaseChain
  rw [if_neg hpd]
  have hown₁ : Owns (t.ledger.acquire .pd [dev]) [] ((.pd, t.ledger.next) :: dev :: leaked) :=
    howns.acquireChain .pd (by simp)
  rcases hmr : k.getDmaMr with rc | ⟨lkey, rkey⟩
  · exact .nothing ⟨rfl, rfl, hbare.mapping⟩ rfl hown₁.releaseChain.releaseChain
  have hparent : ∀ q ∈ [((.pd, t.ledger.next) : Handle)],
      q ∈ ((.pd, t.ledger.next) : Handle) :: dev :: leaked := by simp
  have hown₂ := hown₁.acquireChain .mr hparent
  rcases hmap : k.dmaMapSingle with iova | iova
  · simp only
    exact .nothing ⟨rfl, rfl, hbare.mapping⟩ rfl hown₂.releaseChain.releaseChain.releaseChain
  · simp only
    exact .all hdev rfl rfl rfl (hown₂.acquireChain .mapping (by simp))

theorem rdmaTransportInit_kept (k : RdmaAnswers) :
    ∃ leaked, Leaks k leaked ∧ (rdmaTransportInit k).2.Kept leaked := by
  unfold rdmaTransportInit rdmaBlkdevSetupRdma
  obtain ⟨leaked, hleaks, hfound⟩ := rdmaFindDevice_cases (k := k)
    (t := ⟨Ledger.empty, none, none, none, none, 0, 0, 0⟩) ⟨rfl, rfl, rfl⟩ rfl Owns.empty
  refine ⟨leaked, hleaks, ?_⟩
  generalize rdmaFindDevice k _ = result at hfound
  cases hfound with
  | nothing hbare hdev howns => exact .nothing hbare hdev howns
  | found hbare hdev howns => exact rdmaRegister_kept hbare hdev howns

/-- The clean-up takes a mapping for none. -/
def RdmaTransport.MappedAtZero (t : RdmaTransport) : Prop :=
  t.mapping.isSome ∧ t.ramdiskIova = 0

/-- **The clean-up** releases what is in the fields, children first, if it knows of
the mapping. -/
theorem cleanup_owns {leaked : List Handle} (hkept : t.Kept leaked) (hzero : ¬ t.MappedAtZero) :
    Owns (rdmaBlkdevCleanupRdma t).ledger [] leaked := by
  cases hkept with
  | nothing hbare hdev howns =>
      show Owns (drop (drop (drop t.unmap t.mr) t.pd) t.ibDev) [] leaked
      rw [RdmaTransport.unmap, hbare.mr, hbare.pd, hdev, if_neg (by simp)]
      exact howns
  | all hdev hpd hmr hmapping howns =>
      have hiova : t.ramdiskIova ≠ 0 := fun h0 => hzero ⟨by rw [hmapping]; rfl, h0⟩
      show Owns (drop (drop (drop t.unmap t.mr) t.pd) t.ibDev) [] leaked
      rw [RdmaTransport.unmap, hmr, hpd, hdev, hmapping, if_pos ⟨rfl, hiova⟩]
      exact howns.releaseChain.releaseChain.releaseChain.releaseChain

/-- A mapping at the bus address 0 outlives the device. -/
theorem live_of_mappedAtZero {leaked : List Handle} (hkept : t.Kept leaked)
    (hzero : t.MappedAtZero) : ∃ x, Live (rdmaBlkdevCleanupRdma t).ledger.log x := by
  obtain ⟨hsome, hiova⟩ := hzero
  cases hkept with
  | nothing hbare =>
      rw [hbare.mapping] at hsome
      cases hsome
  | @all dev pd mr mapping hdev hpd hmr hmapping howns =>
      refine ⟨mapping, ?_⟩
      show Live (drop (drop (drop t.unmap t.mr) t.pd) t.ibDev).log mapping
      have hnodup : (mapping :: mr :: pd :: dev :: leaked).Nodup := howns.nodup
      simp only [List.nodup_cons, List.mem_cons, not_or] at hnodup
      rw [live_drop, live_drop, live_drop, RdmaTransport.unmap, if_neg (by simp [hiova]), hmr, hpd,
        hdev]
      refine ⟨⟨⟨(howns.live mapping).mpr List.mem_cons_self, ?_⟩, ?_⟩, ?_⟩
      · exact fun h => hnodup.1.1 (Option.some.inj h).symm
      · exact fun h => hnodup.1.2.1 (Option.some.inj h).symm
      · exact fun h => hnodup.1.2.2.1 (Option.some.inj h).symm

/-- What the set-up and the clean-up of the RDMA transport come to. -/
structure RdmaLifecycle (k : RdmaAnswers) : Prop where
  /-- When nothing is left. -/
  tidy_iff : (∀ x, ¬ Live (rdmaBlkdevCleanupRdma (rdmaTransportInit k).2).ledger.log x) ↔
    (k.byName.isSome ∨ k.byNetdev 0 = 0) ∧ ¬ (rdmaTransportInit k).2.MappedAtZero
  /-- If the mapping has another address than 0, what is left are references to
  devices, and the rest was released once and children first. -/
  ordered : ¬ (rdmaTransportInit k).2.MappedAtZero →
    Disciplined (rdmaBlkdevCleanupRdma (rdmaTransportInit k).2).ledger.log ∧
      ∀ x, Live (rdmaBlkdevCleanupRdma (rdmaTransportInit k).2).ledger.log x → x.1 = .device

/-- **When the RDMA driver gives everything back**: exactly if the device is named
or there is none, and the ramdisk is not mapped at the bus address 0.  So a load
without `ib_dev_name` on a machine with an RDMA device leaves a reference to it
for ever. -/
theorem rdmaTransport_tidy_iff (k : RdmaAnswers) : RdmaLifecycle k := by
  obtain ⟨leaked, hleaks, hkept⟩ := rdmaTransportInit_kept k
  by_cases hzero : (rdmaTransportInit k).2.MappedAtZero
  · refine ⟨?_, fun h => absurd hzero h⟩
    obtain ⟨x, hx⟩ := live_of_mappedAtZero hkept hzero
    exact ⟨fun h => absurd hx (h x), fun h => absurd hzero h.2⟩
  · have howns := cleanup_owns hkept hzero
    refine ⟨?_, fun _ => ⟨howns.disciplined, ?_⟩⟩
    · rw [← hleaks.nil_iff]
      constructor
      · intro h
        refine ⟨List.eq_nil_iff_forall_not_mem.mpr ?_, hzero⟩
        intro x hx
        exact h x ((howns.live x).mpr hx)
      · rintro ⟨hnil, -⟩ x hx
        rw [hnil] at howns
        exact List.not_mem_nil ((howns.live x).mp hx)
    · intro x hx
      exact hleaks.device x ((howns.live x).mp hx)

end Rdma

end Blkdev

end DirectStorage
