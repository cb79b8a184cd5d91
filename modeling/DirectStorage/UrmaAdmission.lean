/-
DirectStorage/UrmaAdmission.lean

Which transfers the URMA manager admits.

`validate_xfer_locked` and the mock's peer access compare unsigned differences,
in two different forms.  In every reachable state they decide the same law over
the integers: the remote range lies inside the segment of the one active peer
with the request's id (`reachable_admission`).

The law is relative to the segment, and nothing keeps a segment inside the
64-bit address space: `ramdisk_urma_peer_connect` accepts every `seg_va` with
every `seg_len` but 0.  If every connect call asks for a segment that ends at
or below `2 ^ 64`, no admitted range passes that end (`admitted_fits`); one
segment beyond it is enough for one that does (`admitted_wraps`).
-/
import DirectStorage.UrmaIsolation
import DirectStorage.UrmaCompletion
import DirectStorage.UrmaPeerTable

namespace DirectStorage

namespace Urma

open Function

variable {s t : Sys} {a : Action} {c : CallId} {k : Slot}

/-! ### Admission -/

/-- The remote range lies inside the peer's segment, over the integers. -/
def InSegment (p : Peer) (addr : UInt64) (len : UInt32) : Prop :=
  p.segVa.toNat ≤ addr.toNat ∧ addr.toNat + len.toNat ≤ p.segVa.toNat + p.segLen.toNat

/-- A transfer that should be admitted, on the peer in slot `k`; all sums and
divisibilities are over the integers. -/
structure AdmissibleXfer (s : Sys) (x : UrmaTransfer) (k : Slot) : Prop where
  enabled : s.mgr.enabled = true
  length_pos : 0 < x.length.toNat
  direction : x.direction = 1 ∨ x.direction = 2
  inside : x.localOffset.toNat + x.length.toNat ≤ s.backend.size.toNat
  localOffset_dvd : s.backend.blockSize.toNat ∣ x.localOffset.toNat
  remoteHbmAddr_dvd : s.backend.blockSize.toNat ∣ x.remoteHbmAddr.toNat
  length_dvd : s.backend.blockSize.toNat ∣ x.length.toNat
  active : (s.mgr.peers k).active = true
  peerId : (s.mgr.peers k).peerId = x.peerId
  remote : InSegment (s.mgr.peers k) x.remoteHbmAddr x.length

theorem validateAlignment_iff {b : Backend} (hb : b.Live) (x : UrmaTransfer) :
    validateAlignment b x = 0 ↔ b.blockSize.toNat ∣ x.localOffset.toNat ∧
      b.blockSize.toNat ∣ x.remoteHbmAddr.toNat ∧ b.blockSize.toNat ∣ x.length.toNat := by
  have hbs : ramdiskBackendBlockSize b = b.blockSize := by
    unfold ramdiskBackendBlockSize
    rw [hb.initialized]
    rfl
  have hlen : x.length % b.blockSize = 0 ↔ b.blockSize.toNat ∣ x.length.toNat := by
    rw [Nat.dvd_iff_mod_eq_zero, ← UInt32.toNat_mod, ← UInt32.toNat_inj]
    rfl
  have hword : ∀ n : UInt64, n % b.blockSize.toUInt64 = 0 ↔ b.blockSize.toNat ∣ n.toNat := by
    intro n
    rw [modTest_iff, UInt32.toNat_toUInt64]
  have hne : b.blockSize ≠ 0 := by
    intro e
    have hblock := hb.block
    rw [e] at hblock
    exact absurd hblock (by decide)
  unfold validateAlignment
  dsimp only
  rw [hbs, if_neg hne]
  by_cases hall : x.localOffset % b.blockSize.toUInt64 = 0 ∧
      x.remoteHbmAddr % b.blockSize.toUInt64 = 0 ∧ x.length % b.blockSize = 0
  · rw [if_neg (by tauto), ← hword, ← hword, ← hlen]
    exact ⟨fun _ => hall, fun _ => rfl⟩
  · rw [if_pos (by tauto), ← hword, ← hword, ← hlen]
    exact ⟨fun h => absurd h (by decide), fun h => absurd h hall⟩

/-- What validation establishes is what should be admitted. -/
theorem validXfer_iff (hb : s.backend.Live) (ht : TableInv s) (x : UrmaTransfer) :
    ValidXfer s.mgr s.backend x k ↔ AdmissibleXfer s x k := by
  have hlen : x.length ≠ 0 ↔ 0 < x.length.toNat := by
    rw [Nat.pos_iff_ne_zero, Ne, ← UInt32.toNat_inj]
    rfl
  have hrange : ramdiskBackendValidateRange s.backend x.localOffset x.length.toUInt64 = 0 ↔
      x.localOffset.toNat + x.length.toNat ≤ s.backend.size.toNat := by
    rw [validateRange_live hb, UInt32.toNat_toUInt64]
    split_ifs with hle
    · exact ⟨fun _ => hle, fun _ => rfl⟩
    · exact ⟨fun h => absurd h (by decide), fun h => absurd h hle⟩
  constructor
  · intro h
    obtain ⟨hoff, haddr, hdvd⟩ := (validateAlignment_iff hb x).mp h.aligned
    obtain ⟨hactive, hid⟩ := ht.find_iff.mp h.found
    exact ⟨h.enabled, hlen.mp h.length_ne, h.direction, hrange.mp h.range, hoff, haddr, hdvd,
      hactive, hid, h.remote_ge, h.remote_le⟩
  · intro h
    exact ⟨h.enabled, hlen.mpr h.length_pos, h.direction, hrange.mpr h.inside,
      (validateAlignment_iff hb x).mpr ⟨h.localOffset_dvd, h.remoteHbmAddr_dvd, h.length_dvd⟩,
      ht.find_iff.mpr ⟨h.active, h.peerId⟩, h.remote.1, h.remote.2⟩

/-! ### The mock's own peer access -/

/-- `ramdisk_urma_mock_read_peer`: the error code, or the bytes put into
`buf`. -/
def mockReadPeer (s : Sys) (peerId remoteAddr : UInt64) (len : UInt32) :
    Except Int (List UInt8) :=
  match mockPeerRange s.mgr peerId remoteAddr len with
  | .error rc => .error rc
  | .ok (h, off) => .ok ((s.hbm h).mem.load off.toNat len.toNat)

/-- The mock's form of the range test is the integer one too. -/
theorem mockRange_iff (p : Peer) (addr : UInt64) (len : UInt32) :
    ¬ (addr < p.segVa ∨ len.toUInt64 > p.segLen ∨
      addr - p.segVa > p.segLen - len.toUInt64) ↔ InSegment p addr len := by
  unfold InSegment
  -- here the length is tested first, and the offset against what it leaves
  rw [not_or, rangeTest_iff, not_not, UInt64.lt_iff_toNat_lt, Nat.not_lt,
    UInt32.toNat_toUInt64]
  refine and_congr_right ?_
  intro hge
  rw [UInt64.toNat_sub_of_le _ _ (UInt64.le_iff_toNat_le.mpr hge)]
  omega

/-- The range test on a connected peer of the mock. -/
theorem mockPeerRange_connected (ht : TableInv s) (hp : PeerInv s.peerView)
    (hmock : s.mgr.useMock = true) (hk : (s.mgr.peers k).active = true) (addr : UInt64)
    (len : UInt32) :
    (InSegment (s.mgr.peers k) addr len →
      mockPeerRange s.mgr (s.mgr.peers k).peerId addr len =
        .ok ((s.mgr.peers k).conn, addr - (s.mgr.peers k).segVa)) ∧
    (¬ InSegment (s.mgr.peers k) addr len →
      mockPeerRange s.mgr (s.mgr.peers k).peerId addr len = .error (-ERANGE)) := by
  have hfind : findPeerLocked s.mgr (s.mgr.peers k).peerId = some k :=
    ht.find_iff.mpr ⟨hk, rfl⟩
  have hbuf := (hp.mock_slot hmock hk).1
  unfold mockPeerRange
  simp only [hfind, hbuf]
  constructor
  · intro h
    rw [if_neg ((mockRange_iff _ _ _).mpr h)]
  · intro h
    rw [if_pos (not_not.mp fun e => h ((mockRange_iff _ _ _).mp e))]

/-- The call that `ramdisk_urma_mock_write_peer` was returns 0. -/
def Sys.Succeeded (s : Sys) (c : CallId) : Prop := (s.calls c).map Call.pc = some (.returned 0)

/-- **Exact admission.**  In every reachable state `validate_xfer_locked`
accepts a transfer with slot `k` exactly when it is admissible on the peer in
slot `k`, and the two functions that access a connected peer of the mock accept
a range exactly when it lies inside that peer's segment. -/
theorem reachable_admission (h : Reachable s) :
    (∀ x k, validateXferLocked s.mgr s.backend x = .ok k ↔ AdmissibleXfer s x k) ∧
    (∀ x, (∃ rc, validateXferLocked s.mgr s.backend x = .error rc) ↔
      ¬ ∃ k, AdmissibleXfer s x k) ∧
    (s.mgr.useMock = true → ∀ k, (s.mgr.peers k).active = true → ∀ addr len,
      ((∃ bytes, mockReadPeer s (s.mgr.peers k).peerId addr len = .ok bytes) ↔
        InSegment (s.mgr.peers k) addr len) ∧
      ∀ data, (mockWritePeer s (s.mgr.peers k).peerId addr data len).Succeeded s.nextCall ↔
        InSegment (s.mgr.peers k) addr len) := by
  have hok : ∀ x k, validateXferLocked s.mgr s.backend x = .ok k ↔ AdmissibleXfer s x k :=
    fun x k => validateXferLocked_ok_iff.trans (validXfer_iff h.live h.tableInv x)
  refine ⟨hok, ?_, ?_⟩
  · intro x
    constructor
    · rintro ⟨rc, hrc⟩ ⟨k, hk⟩
      cases hrc.symm.trans ((hok x k).mpr hk)
    · intro hno
      rcases e : validateXferLocked s.mgr s.backend x with rc | k
      · exact ⟨rc, rfl⟩
      · exact absurd ⟨k, (hok x k).mp e⟩ hno
  · intro hmock k hk addr len
    obtain ⟨hin, hout⟩ := mockPeerRange_connected h.tableInv h.peerInv hmock hk addr len
    by_cases hseg : InSegment (s.mgr.peers k) addr len
    · refine ⟨⟨fun _ => hseg, fun _ => ?_⟩, fun data => ⟨fun _ => hseg, fun _ => ?_⟩⟩
      · unfold mockReadPeer
        rw [hin hseg]
        exact ⟨_, rfl⟩
      · unfold mockWritePeer Sys.Succeeded
        rw [hin hseg]
        show (update s.calls s.nextCall _ s.nextCall).map Call.pc = _
        rw [update_self]
        rfl
    · refine ⟨⟨?_, fun e => absurd e hseg⟩, fun data => ⟨?_, fun e => absurd e hseg⟩⟩
      · unfold mockReadPeer
        rw [hout hseg]
        rintro ⟨bytes, hbytes⟩
        cases hbytes
      · unfold mockWritePeer Sys.Succeeded
        rw [hout hseg]
        intro hrc
        replace hrc : (update s.calls s.nextCall _ s.nextCall).map Call.pc = _ := hrc
        rw [update_self] at hrc
        cases Option.some.inj hrc

theorem reachable_admission_small : ∃ s, run step Small.start Small.connect = some s ∧
    AdmissibleXfer s (Small.xfer 65536) 0 ∧ InSegment (s.mgr.peers 0) 66560 0 := by
  obtain ⟨s, hrun, hs⟩ := exists_of_run_any (δ := step) Small.start Small.connect
    (fun s => validateXferLocked s.mgr s.backend (Small.xfer 65536) = .ok 0 ∧
      s.mgr.useMock = true ∧ (s.mgr.peers 0).active = true ∧
      (mockReadPeer s (s.mgr.peers 0).peerId 66560 0 = .ok [])) (by decide +kernel)
  obtain ⟨hvalid, hmock, hactive, hread⟩ := of_decide_eq_true hs
  obtain ⟨hok, -, hmocks⟩ := reachable_admission ⟨_, _, Small.start_initial, hrun⟩
  exact ⟨s, hrun, (hok _ _).mp hvalid, (hmocks hmock 0 hactive 66560 0).1.mp ⟨_, hread⟩⟩

/-! ### The end of the address space -/

/-- The step is not a connect call for a segment that passes `2 ^ 64`. -/
def SegmentFits (_ : Sys) (a : Action) : Prop :=
  ∀ info env, a = .peerConnect info env → info.segVa.toNat + info.segLen.toNat ≤ 2 ^ 64

/-- The range lies inside the 64-bit address space. -/
def Fits (addr : UInt64) (len : UInt32) : Prop := addr.toNat + len.toNat ≤ 2 ^ 64

/-- No remote range passes the end of the address space: not that of a transfer
which `ramdisk_urma_transfer_sync` accepts now, nor that of a request the worker
is about to execute, nor that of a posted work request. -/
structure RemoteFits (s : Sys) : Prop where
  admitted : ∀ x timeoutMs now,
    (transferSync s x timeoutMs now).accepted = s.accepted ++ [s.nextCall] →
      Fits x.remoteHbmAddr x.length
  handed : ∀ c k conn, s.worker = .executing c k conn →
    Fits (s.reqs c).remoteHbmAddr (s.reqs c).length
  posted : ∀ wr ∈ s.posted, Fits wr.remote.addr wr.remote.len

/-- An accepted transfer passed validation. -/
theorem transferSync_accepted {x : UrmaTransfer} {timeoutMs : UInt32} {now : ClockTime}
    (h : (transferSync s x timeoutMs now).accepted = s.accepted ++ [s.nextCall]) :
    ∃ k, ValidXfer s.mgr s.backend x k := by
  unfold transferSync at h
  split at h
  · exact absurd h (by simp [Sys.newCall])
  · next k hk => exact ⟨k, validateXferLocked_ok_iff.mp hk⟩

/-- The invariant of runs whose segments fit. -/
structure SegInv (s : Sys) : Prop where
  queue : QueueInv s.queueView
  peers : PeerInv s.peerView
  table : TableInv s
  segs : ∀ o p, s.held o = some p → p.segVa.toNat + p.segLen.toNat ≤ 2 ^ 64
  handed : ∀ c k conn, s.worker = .executing c k conn →
    Fits (s.reqs c).remoteHbmAddr (s.reqs c).length
  posted : ∀ wr ∈ s.posted, Fits wr.remote.addr wr.remote.len

theorem SegInv.slot (h : SegInv s) {x : UrmaTransfer} (hx : ValidXfer s.mgr s.backend x k) :
    (s.mgr.peers k).segVa.toNat + (s.mgr.peers k).segLen.toNat ≤ 2 ^ 64 :=
  h.segs (.slot k) _ (held_slot_active (findPeerLocked_some hx.found).1)

theorem SegInv.remoteFits (h : SegInv s) : RemoteFits s := by
  refine ⟨?_, h.handed, h.posted⟩
  intro x timeoutMs now hacc
  obtain ⟨k, hx⟩ := transferSync_accepted hacc
  exact hx.remote_le.trans (h.slot hx)

theorem segInv_initial (h : Initial s) : SegInv s := by
  have hpeers := peerInv_initial h
  refine ⟨queueInv_initial h, hpeers, tableInv_initial h, ?_, ?_, ?_⟩
  · -- at the start nobody holds a peer
    intro o p hp
    obtain ⟨b, m, config, queueOk, mutexRc, provider, threadRc, -, hinit, rfl⟩ := h
    have hconn := hpeers.named o p hp
    exact absurd hconn (Nat.not_lt_zero _)
  · obtain ⟨b, m, config, queueOk, mutexRc, provider, threadRc, -, -, rfl⟩ := h
    nofun
  · obtain ⟨b, m, config, queueOk, mutexRc, provider, threadRc, -, -, rfl⟩ := h
    nofun

/-- The worker rewrites the address of a validated request to the start of the
segment. -/
theorem SegInv.handed_dequeued (h : SegInv s) (hd : Dequeued s t c k) :
    Fits (t.reqs c).remoteHbmAddr (t.reqs c).length := by
  rw [hd.reqs, update_self]
  have hslot := h.slot hd.valid
  have hge : (s.mgr.peers k).segVa.toNat ≤ (s.reqs c).remoteHbmAddr.toNat := hd.valid.remote_ge
  have hle : (s.reqs c).remoteHbmAddr.toNat + (s.reqs c).length.toNat ≤
    (s.mgr.peers k).segVa.toNat + (s.mgr.peers k).segLen.toNat := hd.valid.remote_le
  show (s.mgr.peers k).segVa.toNat + (s.reqs c).length.toNat ≤ 2 ^ 64
  omega

/-- The work request goes to the address in the request, whatever peer is in
the slot by now. -/
theorem realWorkRequest_addr (hp : PeerInv s.peerView) (ht : TableInv s) {req : Request}
    {wr : WorkRequest} (hreal : s.mgr.useMock = false)
    (h : realWorkRequest s req (s.mgr.peers k) = .ok wr) :
    wr.remote.addr = req.remoteHbmAddr ∧ wr.remote.len = req.length := by
  obtain ⟨haddr, hlen⟩ := realWorkRequest_remote h
  have hactive : (s.mgr.peers k).active = true := by
    by_contra hfree
    -- an empty slot has no imported segment
    rw [ht.cleared k (by simpa using hfree)] at h
    unfold realWorkRequest at h
    split at h
    · next himport _ _ => cases himport
    · cases h
  have hbuilt := hp.built (.slot k) _ (held_slot_active hactive)
  have hmock : s.peerView.mock = false := hreal
  rw [hmock] at hbuilt
  have hva : (s.mgr.peers k).remoteSeg.va = (s.mgr.peers k).segVa := hbuilt.2
  refine ⟨?_, hlen⟩
  rw [haddr, hva, UInt64.add_comm, UInt64.sub_add_cancel]

theorem SegInv.posted_step (h : SegInv s) (hstep : step s a = some t) (wr : WorkRequest)
    (hwr : wr ∈ t.posted) : Fits wr.remote.addr wr.remote.len := by
  by_cases hexec : ∃ post, a = .workerExecute post
  · obtain ⟨post, rfl⟩ := hexec
    obtain ⟨c, k, conn, hw, hres⟩ := workerExecute_executed (step_workerExecute hstep)
    cases hres with
    | mock rc mem hbm hmock hrc hu =>
        rw [hu] at hwr
        exact h.posted wr hwr
    | fault hmock hrc hu =>
        rw [hu] at hwr
        exact h.posted wr hwr
    | refused rc hreal hno hu =>
        rw [hu] at hwr
        exact h.posted wr hwr
    | posted wr' hreal hpost hwr' hu =>
        rw [hu] at hwr
        rcases List.mem_append.mp hwr with hold | hnew
        · exact h.posted wr hold
        · obtain rfl := List.mem_singleton.mp hnew
          obtain ⟨haddr, hlen⟩ := realWorkRequest_addr h.peers h.table hreal hwr'
          rw [haddr, hlen]
          exact h.handed c k conn hw
  · rw [step_posted hstep fun post e => hexec ⟨post, e⟩] at hwr
    exact h.posted wr hwr

theorem SegInv.step (h : SegInv s) (hok : SegmentFits s a) (hstep : step s a = some t) :
    SegInv t := by
  refine ⟨(step_queueStep h.queue hstep).preserves h.queue,
    (step_peerStep h.peers hstep).preserves h.peers, h.table.step h.peers hstep, ?_, ?_,
    h.posted_step hstep⟩
  · intro o p hp
    rcases (step_table hstep).2.held_before hp with ⟨o', hold⟩ | ⟨info, env, ha, hnew⟩
    · exact h.segs o' p hold
    · rw [hnew.segVa, hnew.segLen]
      exact hok info env ha
  · intro c k conn hw
    rcases step_executing hstep hw with hbefore | ⟨uninit, -, hdeq, -⟩
    · -- nobody writes a request that the worker has in hand
      have hhand : t.worker.inHand = s.worker.inHand :=
        congrArg WorkerPc.inHand (hw.trans hbefore.symm)
      have hacc : c ∈ s.accepted :=
        h.queue.core.hand_accepted (congrArg WorkerPc.inHand hbefore)
      have hreq : t.reqs c = s.reqs c :=
        ((step_queueStep h.queue hstep).same_hand h.queue hhand).2 c hacc
      rw [hreq]
      exact h.handed c k conn hbefore
    · exact h.handed_dequeued hdeq

/-- **No remote address wraps, as long as no segment does**: along every run
whose connect calls ask for segments that end at or below `2 ^ 64`, no remote
range passes the end of the address space. -/
theorem admitted_fits {s₀ : Sys} {as : List Action} (hinit : Initial s₀)
    (hok : RunOk step SegmentFits s₀ as) (hrun : run step s₀ as = some s) : RemoteFits s := by
  have hinv : SegInv s := run_invariant (segInv_initial hinit)
    (fun s a t hs hsa hstep => hs.step hsa hstep) hok hrun
  exact hinv.remoteFits

theorem admitted_fits_small : ∃ s, run step Small.start Small.validated = some s ∧
    RemoteFits s ∧ s.worker = .executing 1 0 0 := by
  obtain ⟨s, hrun, hs⟩ := exists_of_run_any (δ := step) Small.start Small.validated
    (fun s => s.worker = .executing 1 0 0) (by decide +kernel)
  refine ⟨s, hrun, admitted_fits Small.start_initial ?_ hrun, of_decide_eq_true hs⟩
  refine runOk_of_forall ?_ _
  intro a ha s info env e
  subst e
  simp only [Small.validated, Small.connect, List.cons_append, List.nil_append, List.mem_cons,
    List.not_mem_nil, or_false, reduceCtorEq, Action.peerConnect.injEq] at ha
  rw [ha.1]
  decide

/-- Peer 7 connects with a segment of two blocks that starts in the last block
of the address space, and a transfer of two blocks to its start follows. -/
def Small.wrapping : List Action :=
  [.peerConnect { Small.peer 7 with segVa := 18446744073709551104 } ⟨true, none, none⟩,
    .peerConnectLocked 0,
    .transferSync ⟨7, 1, 0, 18446744073709551104, 1024, ramdiskToHbm⟩ 0 Small.now,
    .workerDequeue .fault]

/-- **One such segment is enough**: the transfer is accepted, and handed to the
copy, with a remote range that passes the end of the address space. -/
theorem admitted_wraps : ∃ s, run step Small.start Small.wrapping = some s ∧ Reachable s ∧
    s.accepted = [1] ∧ s.worker = .executing 1 0 0 ∧
    (s.reqs 1).remoteHbmAddr.toNat + (s.reqs 1).length.toNat = 2 ^ 64 + 512 ∧
    (step s (.workerExecute true)).isSome = true ∧ ¬ RemoteFits s := by
  obtain ⟨s, hrun, hs⟩ := exists_of_run_any (δ := step) Small.start Small.wrapping
    (fun s => s.accepted = [1] ∧ s.worker = .executing 1 0 0 ∧
      (s.reqs 1).remoteHbmAddr.toNat + (s.reqs 1).length.toNat = 2 ^ 64 + 512 ∧
      (step s (.workerExecute true)).isSome = true) (by decide +kernel)
  obtain ⟨hacc, hw, hwrap, hexec⟩ := of_decide_eq_true hs
  refine ⟨s, hrun, ⟨_, _, Small.start_initial, hrun⟩, hacc, hw, hwrap, hexec, ?_⟩
  intro h
  have hle : (s.reqs 1).remoteHbmAddr.toNat + (s.reqs 1).length.toNat ≤ 2 ^ 64 :=
    h.handed 1 0 0 hw
  omega

end Urma

end DirectStorage
