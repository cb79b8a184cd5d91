/-
DirectStorage/UrmaAgreement.lean

The mock provider and the real one do the same to the same request.

`execute_mock_xfer` copies between two buffers at offsets; `execute_real_xfer`
posts a work request with absolute addresses and leaves the copy to the URMA
library.  `WorkRequest.perform` is that copy, between the daemon's address space
and the peer's.  With the backend mapped at its base address and the peer's
segment at `seg_va`, performing the posted work request has exactly the effect
of the mock (`providers_agree`), for a mock and a real daemon that validate the
same request on the same backend and on peers with the same segment.

The worker hands on a request whose remote address it has replaced by `seg_va`,
so the result is stated for the request as it was validated and for the one
that is executed.
-/
import DirectStorage.UrmaAdmission

namespace DirectStorage

namespace Urma

open Function ByteMem

variable {s r t : Sys} {a : Action} {k k' : Slot} {req : Request} {wr : WorkRequest}

/-! ### A daemon in real mode -/

/-- In real mode the provider is initialised, and every peer is imported. -/
structure ImportInv (s : Sys) : Prop where
  provider : s.mgr.useMock = false →
    s.mgr.realInitialized = true ∧ s.mgr.localTseg.isSome = true
  peers : s.mgr.useMock = false → ∀ o p, s.held o = some p →
    p.importTseg.isSome = true ∧ p.tJetty.isSome = true

theorem mgrInit_provider {config : Option Config} {queueOk : Bool} {mutexRc threadRc : Int}
    {provider : Except Int Handle} {m : Mgr}
    (h : ramdiskUrmaMgrInit config queueOk mutexRc provider threadRc = .ok m)
    (hreal : m.useMock = false) : m.realInitialized = true ∧ m.localTseg.isSome = true := by
  unfold ramdiskUrmaMgrInit at h
  cases provider with
  | error rc =>
      split_ifs at h with h₁ h₂ h₃ hmock
      obtain rfl := Except.ok.inj h
      cases hreal.symm.trans hmock
  | ok tseg =>
      dsimp only at h
      split_ifs at h with h₁ h₂ h₃ hmock
      · obtain rfl := Except.ok.inj h
        cases hreal.symm.trans hmock
      · obtain rfl := Except.ok.inj h
        exact ⟨rfl, rfl⟩

theorem importInv_initial (h : Initial s) : ImportInv s := by
  have hpeers := peerInv_initial h
  obtain ⟨b, m, config, queueOk, mutexRc, provider, threadRc, -, hinit, rfl⟩ := h
  refine ⟨mgrInit_provider hinit, ?_⟩
  intro _ o p hp
  exact absurd (hpeers.named o p hp) (Nat.not_lt_zero _)

theorem ImportInv.step (h : ImportInv s) (hstep : step s a = some t) : ImportInv t := by
  obtain ⟨hprovider, htable⟩ := step_table hstep
  obtain ⟨hmock, hrest⟩ := Prod.mk.inj hprovider
  obtain ⟨hinit, htseg⟩ := Prod.mk.inj hrest
  constructor
  · rw [hmock, hinit, htseg]
    exact h.provider
  · rw [hmock]
    intro hreal o p hp
    rcases htable.held_before hp with ⟨o', hold⟩ | ⟨info, env, -, hnew⟩
    · exact h.peers hreal o' p hold
    · exact hnew.imported hreal

theorem Reachable.importInv (h : Reachable s) : ImportInv s := by
  obtain ⟨s₀, as, hinit, hrun⟩ := h
  exact run_invariant (importInv_initial hinit) (fun s a t hs _ hstep => hs.step hstep)
    (runOk_trivial s₀ as) hrun

/-! ### What a work request does -/

/-- The local element of a work request. -/
def WorkRequest.here (wr : WorkRequest) : Sge :=
  match wr.opcode with
  | .write => wr.src
  | .read => wr.dst

/-- The address spaces of the daemon and of the peer after the work request has
been performed: its source bytes are copied to its destination. -/
def WorkRequest.perform (wr : WorkRequest) (daemon peer : ByteMem) : ByteMem × ByteMem :=
  match wr.opcode with
  | .write => (daemon, peer.copy wr.dst.addr.toNat daemon wr.src.addr.toNat wr.size)
  | .read => (daemon.copy wr.dst.addr.toNat peer wr.src.addr.toNat wr.size, peer)

/-- The fields of the work request for `req` on the peer `p`. -/
structure WorkRequest.For (wr : WorkRequest) (s : Sys) (p : Peer) (req : Request) : Prop where
  opcode : wr.opcode = if req.direction = ramdiskToHbm then .write else .read
  src_len : wr.src.len = req.length
  dst_len : wr.dst.len = req.length
  here_addr : wr.here.addr.toNat = s.backend.base.toNat + req.localOffset.toNat
  here_tseg : some wr.here.tseg = s.mgr.localTseg
  remote_addr : wr.remote.addr = req.remoteHbmAddr
  remote_tseg : some wr.remote.tseg = p.importTseg
  tjetty : some wr.tjetty = p.tJetty
  userCtx : wr.userCtx = req.requestId

/-- What the two paths need of a request: the ranges are in order. -/
structure Executable (b : Backend) (p : Peer) (req : Request) : Prop where
  length_pos : 0 < req.length.toNat
  inside : req.localOffset.toNat + req.length.toNat ≤ b.size.toNat
  remote : InSegment p req.remoteHbmAddr req.length

theorem AdmissibleXfer.executable (h : AdmissibleXfer s req.xfer k) :
    Executable s.backend (s.mgr.peers k) req :=
  ⟨h.length_pos, h.inside, h.remote⟩

/-- Also with the address the worker puts in. -/
theorem Executable.atStart {b : Backend} {p : Peer} (h : Executable b p req) :
    Executable b p { req with remoteHbmAddr := p.segVa } := by
  obtain ⟨hge, hle⟩ := h.remote
  refine ⟨h.length_pos, h.inside, le_refl _, ?_⟩
  show p.segVa.toNat + req.length.toNat ≤ p.segVa.toNat + p.segLen.toNat
  omega

/-- **The real path** posts the work request for the request. -/
theorem realWorkRequest_for (hr : Reachable r) (hreal : r.mgr.useMock = false)
    (hk : (r.mgr.peers k).active = true) (h : Executable r.backend (r.mgr.peers k) req)
    (hbase : r.backend.base.toNat + r.backend.size.toNat ≤ 2 ^ 64) :
    ∃ wr, realWorkRequest r req (r.mgr.peers k) = .ok wr ∧ wr.For r (r.mgr.peers k) req := by
  obtain ⟨hinit, htseg⟩ := hr.importInv.provider hreal
  obtain ⟨himport, hjetty⟩ := hr.importInv.peers hreal (.slot k) _ (held_slot_active hk)
  obtain ⟨tseg, htseg⟩ := Option.isSome_iff_exists.mp htseg
  obtain ⟨seg, himport⟩ := Option.isSome_iff_exists.mp himport
  obtain ⟨jetty, hjetty⟩ := Option.isSome_iff_exists.mp hjetty
  -- the local address does not wrap
  have haddr : (r.backend.base + req.localOffset).toNat =
      r.backend.base.toNat + req.localOffset.toNat := by
    have hpos := h.length_pos
    have hin := h.inside
    rw [UInt64.toNat_add, Nat.mod_eq_of_lt (by omega)]
  obtain ⟨wr, hwr⟩ : ∃ wr, realWorkRequest r req (r.mgr.peers k) = .ok wr := by
    unfold realWorkRequest
    simp only [hinit, htseg, himport, hjetty]
    split_ifs
    · exact ⟨_, rfl⟩
    · exact ⟨_, rfl⟩
  have hremote := (realWorkRequest_addr hr.peerInv hr.tableInv hreal hwr).1
  refine ⟨wr, hwr, ?_⟩
  unfold realWorkRequest at hwr
  simp only [hinit, htseg, himport, hjetty] at hwr
  split_ifs at hwr with hdir
  · obtain rfl := Except.ok.inj hwr
    exact ⟨(if_pos hdir).symm, rfl, rfl, haddr, htseg.symm, hremote, himport.symm, hjetty.symm, rfl⟩
  · obtain rfl := Except.ok.inj hwr
    exact ⟨(if_neg hdir).symm, rfl, rfl, haddr, htseg.symm, hremote, himport.symm, hjetty.symm, rfl⟩

/-! ### What the mock does -/

/-- The offset of the remote range in the segment. -/
def segmentOff (p : Peer) (req : Request) : Nat := req.remoteHbmAddr.toNat - p.segVa.toNat

/-- **The mock path** copies between the backend and the peer's buffer. -/
theorem executeMockXfer_eq (hs : Reachable s) (hmock : s.mgr.useMock = true)
    (hk : (s.mgr.peers k).active = true) (h : Executable s.backend (s.mgr.peers k) req) :
    executeMockXfer s req (s.mgr.peers k) =
      let conn := (s.mgr.peers k).conn
      let off := segmentOff (s.mgr.peers k) req
      if req.direction = ramdiskToHbm then
        some (0, s.backend.mem, update s.hbm conn { s.hbm conn with
          mem := (s.hbm conn).mem.copy off s.backend.mem req.localOffset.toNat
            req.length.toNat })
      else
        some (0, s.backend.mem.copy req.localOffset.toNat (s.hbm conn).mem off
          req.length.toNat, s.hbm) := by
  obtain ⟨hbuf, hlive, hlen⟩ := hs.peerInv.mock_slot hmock hk
  obtain ⟨hge, hle⟩ := h.remote
  have hoff : (req.remoteHbmAddr - (s.mgr.peers k).segVa).toNat =
      segmentOff (s.mgr.peers k) req :=
    UInt64.toNat_sub_of_le _ _ (UInt64.le_iff_toNat_le.mpr hge)
  have hfits : segmentOff (s.mgr.peers k) req + req.length.toNat ≤
      (s.hbm (s.mgr.peers k).conn).len.toNat := by
    rw [hlen]
    unfold segmentOff
    omega
  unfold executeMockXfer
  simp only [hbuf]
  rw [if_neg (not_not.mpr (lock_live hs.live)), hoff, if_pos ⟨hlive, hfits, h.inside⟩]

/-! ### Agreement -/

/-- Performing `wr` between the two address spaces has the effect that leaves
the backend with content `mem` and the peer's buffer as in `hbm`, and neither
has any other effect. -/
structure SameEffect (s : Sys) (p : Peer) (wr : WorkRequest) (mem : ByteMem)
    (hbm : CallId → HbmBuf) (daemon peer : ByteMem) : Prop where
  backend : MappedAt (wr.perform daemon peer).1 s.backend.base.toNat s.backend.size.toNat mem
  segment : MappedAt (wr.perform daemon peer).2 p.segVa.toNat p.segLen.toNat (hbm p.conn).mem
  daemon_other : ∀ i, i < s.backend.base.toNat ∨
    s.backend.base.toNat + s.backend.size.toNat ≤ i → (wr.perform daemon peer).1 i = daemon i
  peer_other : ∀ i, i < p.segVa.toNat ∨ p.segVa.toNat + p.segLen.toNat ≤ i →
    (wr.perform daemon peer).2 i = peer i
  mem_other : ∀ i, s.backend.size.toNat ≤ i → mem i = s.backend.mem i
  hbm_other : ∀ h, h ≠ p.conn → hbm h = s.hbm h

/-- The two paths agree on `req`: the real daemon `r` posts a work request for
it, the mock daemon `s` returns 0, and with the backend and the segment mapped
at their addresses the work request has the effect of the mock. -/
def ProvidersAgree (s r : Sys) (k k' : Slot) (req : Request) : Prop :=
  ∃ wr mem hbm, realWorkRequest r req (r.mgr.peers k') = .ok wr ∧
    wr.For r (r.mgr.peers k') req ∧
    executeMockXfer s req (s.mgr.peers k) = some (0, mem, hbm) ∧
    ∀ daemon peer, MappedAt daemon s.backend.base.toNat s.backend.size.toNat s.backend.mem →
      MappedAt peer (s.mgr.peers k).segVa.toNat (s.mgr.peers k).segLen.toNat
        (s.hbm (s.mgr.peers k).conn).mem →
      SameEffect s (s.mgr.peers k) wr mem hbm daemon peer

variable {p p' : Peer}

/-- The remote range in the peer's address space starts at the segment's
address and the offset. -/
theorem Executable.addr_eq {b : Backend} (h : Executable b p req) :
    req.remoteHbmAddr.toNat = p.segVa.toNat + segmentOff p req := by
  have hge := h.remote.1
  unfold segmentOff
  omega

/-- A `WRITE` copies from the backend into the segment. -/
theorem WorkRequest.For.perform_write (h : wr.For r p' req) (hexec : Executable s.backend p req)
    (hbase : r.backend.base = s.backend.base) (hdir : req.direction = ramdiskToHbm)
    (daemon peer : ByteMem) :
    wr.perform daemon peer = (daemon, peer.copy (p.segVa.toNat + segmentOff p req) daemon
      (s.backend.base.toNat + req.localOffset.toNat) req.length.toNat) := by
  have hop : wr.opcode = .write := h.opcode.trans (if_pos hdir)
  have hperform : wr.perform daemon peer =
      (daemon, peer.copy wr.remote.addr.toNat daemon wr.here.addr.toNat wr.dst.len.toNat) := by
    unfold WorkRequest.perform WorkRequest.remote WorkRequest.here
    rw [hop]
    rfl
  rw [hperform, h.here_addr, hbase, h.remote_addr, hexec.addr_eq, h.dst_len]

/-- A `READ` copies from the segment into the backend. -/
theorem WorkRequest.For.perform_read (h : wr.For r p' req) (hexec : Executable s.backend p req)
    (hbase : r.backend.base = s.backend.base) (hdir : req.direction ≠ ramdiskToHbm)
    (daemon peer : ByteMem) :
    wr.perform daemon peer = (daemon.copy (s.backend.base.toNat + req.localOffset.toNat) peer
      (p.segVa.toNat + segmentOff p req) req.length.toNat, peer) := by
  have hop : wr.opcode = .read := h.opcode.trans (if_neg hdir)
  have hperform : wr.perform daemon peer =
      (daemon.copy wr.here.addr.toNat peer wr.remote.addr.toNat wr.dst.len.toNat, peer) := by
    unfold WorkRequest.perform WorkRequest.remote WorkRequest.here
    rw [hop]
    rfl
  rw [hperform, h.here_addr, hbase, h.remote_addr, hexec.addr_eq, h.dst_len]

/-- Two daemons in order, with the same backend and the same segment, agree on
every executable request. -/
theorem providersAgree_of_executable (hs : Reachable s) (hr : Reachable r)
    (hmock : s.mgr.useMock = true) (hreal : r.mgr.useMock = false)
    (hbackend : r.backend = s.backend)
    (hbase : s.backend.base.toNat + s.backend.size.toNat ≤ 2 ^ 64)
    (hk : (s.mgr.peers k).active = true) (hk' : (r.mgr.peers k').active = true)
    (hseg : (r.mgr.peers k').segVa = (s.mgr.peers k).segVa ∧
      (r.mgr.peers k').segLen = (s.mgr.peers k).segLen)
    (h : Executable s.backend (s.mgr.peers k) req) : ProvidersAgree s r k k' req := by
  have hexec : Executable r.backend (r.mgr.peers k') req := by
    refine ⟨h.length_pos, by rw [hbackend]; exact h.inside, ?_⟩
    unfold InSegment
    rw [hseg.1, hseg.2]
    exact h.remote
  obtain ⟨wr, hwr, hfor⟩ := realWorkRequest_for hr hreal hk' hexec (by rw [hbackend]; exact hbase)
  have hrun := executeMockXfer_eq hs hmock hk h
  have hinside := h.inside
  obtain ⟨hge, hle⟩ := h.remote
  have hoff : segmentOff (s.mgr.peers k) req + req.length.toNat ≤
      (s.mgr.peers k).segLen.toNat := by
    unfold segmentOff
    omega
  have hbase' : r.backend.base = s.backend.base := by rw [hbackend]
  by_cases hdir : req.direction = ramdiskToHbm
  · simp only [if_pos hdir] at hrun
    refine ⟨wr, _, _, hwr, hfor, hrun, ?_⟩
    intro daemon peer hdaemon hpeer
    have hperform := hfor.perform_write h hbase' hdir daemon peer
    constructor
    case backend => rw [hperform]; exact hdaemon
    case segment =>
      rw [hperform, update_self]
      exact hpeer.copy hdaemon hinside
    case daemon_other => intro i _; rw [hperform]
    case peer_other =>
      intro i hi
      rw [hperform]
      exact copy_outside _ _ _ _ (by omega)
    case mem_other => exact fun i _ => rfl
    case hbm_other => exact fun b hb => update_of_ne hb _ _
  · simp only [if_neg hdir] at hrun
    refine ⟨wr, _, _, hwr, hfor, hrun, ?_⟩
    intro daemon peer hdaemon hpeer
    have hperform := hfor.perform_read h hbase' hdir daemon peer
    constructor
    case backend =>
      rw [hperform]
      exact hdaemon.copy hpeer hoff
    case segment => rw [hperform]; exact hpeer
    case daemon_other =>
      intro i hi
      rw [hperform]
      exact copy_outside _ _ _ _ (by omega)
    case peer_other => intro i _; rw [hperform]
    case mem_other => exact fun i hi => copy_outside _ _ _ _ (by omega)
    case hbm_other => exact fun b _ => rfl

/-- **The providers agree.**  Let a mock and a real daemon have the same
backend, which ends at or below `2 ^ 64`, and let both validate the same
request, on peers with the same segment.  Then the work request that the real
one posts has exactly the effect of the mock's copy, for the request as it was
validated and as the worker executes it.  The segment's end is not assumed to
be at or below `2 ^ 64`: `perform` counts addresses on beyond it. -/
theorem providers_agree (hs : Reachable s) (hr : Reachable r)
    (hmock : s.mgr.useMock = true) (hreal : r.mgr.useMock = false)
    (hbackend : r.backend = s.backend)
    (hbase : s.backend.base.toNat + s.backend.size.toNat ≤ 2 ^ 64)
    (hvalid : validateXferLocked s.mgr s.backend req.xfer = .ok k)
    (hvalid' : validateXferLocked r.mgr r.backend req.xfer = .ok k')
    (hva : (r.mgr.peers k').segVa = (s.mgr.peers k).segVa)
    (hlen : (r.mgr.peers k').segLen = (s.mgr.peers k).segLen) :
    ProvidersAgree s r k k' req ∧
      ProvidersAgree s r k k' { req with remoteHbmAddr := (s.mgr.peers k).segVa } := by
  have hadm := (validXfer_iff hs.live hs.tableInv _).mp (validateXferLocked_ok_iff.mp hvalid)
  have hadm' := (validXfer_iff hr.live hr.tableInv _).mp (validateXferLocked_ok_iff.mp hvalid')
  have hexec := hadm.executable
  exact ⟨providersAgree_of_executable hs hr hmock hreal hbackend hbase hadm.active hadm'.active
      ⟨hva, hlen⟩ hexec,
    providersAgree_of_executable hs hr hmock hreal hbackend hbase hadm.active hadm'.active
      ⟨hva, hlen⟩ hexec.atStart⟩

/-- Peer 7 connects to the daemon in real mode, as call 0. -/
def Small.importPeer : List Action :=
  [.peerConnect (Small.peer 7) ⟨true, some 1, some 2⟩, .peerConnectLocked 0]

theorem providers_agree_small : ∃ s r, run step Small.start Small.connect = some s ∧
    run step Small.realStart.sys Small.importPeer = some r ∧
    ProvidersAgree s r 0 0 (Request.ofXfer (Small.xfer 65536)) := by
  obtain ⟨s, hs, hs'⟩ := exists_of_run_any (δ := step) Small.start Small.connect
    (fun s => s.mgr.useMock = true ∧
      validateXferLocked s.mgr s.backend (Request.ofXfer (Small.xfer 65536)).xfer = .ok 0 ∧
      (s.mgr.peers 0).segVa = 65536 ∧ (s.mgr.peers 0).segLen = 1024) (by decide +kernel)
  obtain ⟨r, hr, hr'⟩ := exists_of_run_any (δ := step) Small.realStart.sys Small.importPeer
    (fun r => r.mgr.useMock = false ∧
      validateXferLocked r.mgr r.backend (Request.ofXfer (Small.xfer 65536)).xfer = .ok 0 ∧
      (r.mgr.peers 0).segVa = 65536 ∧ (r.mgr.peers 0).segLen = 1024) (by decide +kernel)
  obtain ⟨hmock, hvalid, hva, hlen⟩ := of_decide_eq_true hs'
  obtain ⟨hreal, hvalid', hva', hlen'⟩ := of_decide_eq_true hr'
  have hinit : Initial Small.realStart.sys := by
    obtain ⟨u, remote, hu, he⟩ := Small.realStart_initial
    rw [he]
    exact hu
  have hsb : s.backend = Small.backend :=
    Option.some.inj ((congrArg (Option.map Sys.backend) hs).symm.trans rfl)
  have hrb : r.backend = Small.backend :=
    Option.some.inj ((congrArg (Option.map Sys.backend) hr).symm.trans rfl)
  refine ⟨s, r, hs, hr, (providers_agree ⟨_, _, Small.start_initial, hs⟩ ⟨_, _, hinit, hr⟩
    hmock hreal (hrb.trans hsb.symm) ?_ hvalid hvalid' (hva'.trans hva.symm)
    (hlen'.trans hlen.symm)).1⟩
  rw [hsb]
  decide

end Urma

end DirectStorage
