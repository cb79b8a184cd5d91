/-
DirectStorage/UrmaHostCalls.lean

The two models of the manager's calls are models of one manager.

`Host` follows the handles, and a call is one step; `Sys` interleaves calls, and
every section under the lock is a step.  Both have `ramdisk_urma_peer_connect`,
`ramdisk_urma_peer_disconnect` and `real_import_peer`, and they name handles
differently: `Host` by the ledger, `Sys` by the call or by what the URMA library
returned.  `Agrees` is equality up to these names.

Main result: `calls_agree`.  Whatever calls are made after a successful
`ramdisk_urma_mgr_init`, the two models return the same codes and stay in
agreement.
-/
import DirectStorage.UrmaOwnership
import DirectStorage.UrmaProgress

namespace DirectStorage

namespace Urma

open Function

/-! ### Agreement -/

/-- A peer without the names: only whether it has each handle. -/
def Peer.unnamed (p : Peer) : Peer :=
  { p with
    mockHbm := p.mockHbm.map fun _ => 0
    importTseg := p.importTseg.map fun _ => 0
    tJetty := p.tJetty.map fun _ => 0
    conn := 0 }

namespace Host

/-- The same manager, as far as these calls read and write it, in a daemon that is
alive. -/
structure Agrees (h : Host) (s : Sys) : Prop where
  initialized : h.initialized = true
  enabled : h.mgr.enabled = s.mgr.enabled
  useMock : h.mgr.useMock = s.mgr.useMock
  realInitialized : h.mgr.realInitialized = s.mgr.realInitialized
  peers : ∀ k, (h.mgr.peers k).unnamed = (s.mgr.peers k).unnamed
  alive : ∀ c, s.worker ≠ .faulted c

/-- The outcomes of a connect call, with the handles that the library returns when
it succeeds. -/
def ConnectOutcome.env (out : ConnectOutcome) (seg jetty : Handle) : ConnectEnv where
  calloc := out.calloc
  importSeg := if out.importSeg then some seg else none
  importJetty := if out.importJetty then some jetty else none

/-- The daemon's steps for a call that nothing interrupts; `names` are the handles
that the library returns to each call.  A connect that has taken its buffer or its
imports goes on to its locked section, a disconnect that has found its peer to the
release.  Initialisation and destruction are not among these calls. -/
def Api.actions (names : CallId → Handle × Handle) (s : Sys) : Api → List Action
  | .mgrInit _ _ _ | .mgrDestroy => []
  | .enable => [.enable]
  | .disable => [.disable]
  | .peerConnect info out =>
      let env := out.env (names s.nextCall).1 (names s.nextCall).2
      .peerConnect info env ::
        if (Urma.peerConnect s info env).busy s.nextCall then [.peerConnectLocked s.nextCall]
        else []
  | .peerDisconnect peerId =>
      .peerDisconnect peerId ::
        if (Urma.peerDisconnect s peerId).busy s.nextCall then
          [.peerDisconnectRelease s.nextCall]
        else []

/-- A call that nothing interrupts, in the daemon. -/
def alone (names : CallId → Handle × Handle) (s : Sys) (a : Api) : Option Sys :=
  run Urma.step s (a.actions names s)

/-- Call `c` returns `rc` between `s` and `t`, and no other call goes on. -/
structure Returns (s : Sys) (c : CallId) (rc : Int) (t : Sys) : Prop where
  result : t.resultOf c = some rc
  calls : ∃ k, t.calls = update s.calls c (some k)

/-- The host's call has given `after`, and the daemon's, started in `s`, has given
`t`: the codes are the same, and so are the managers. -/
structure AgreesAfter (after : Int × Host) (s : Sys) (t : Sys) : Prop extends
    Returns s s.nextCall after.1 t where
  nextCall : t.nextCall = s.nextCall + 1
  agrees : after.2.Agrees t

variable {h h' : Host} {s t : Sys} {m m' : Mgr} {p p' : Peer} {a : Api} {as : List Api}
  {info : PeerConnectInfo} {rc : Int} {c : CallId} {names : CallId → Handle × Handle}

/-! ### What does not depend on the names -/

theorem active_of_unnamed (hp : p.unnamed = p'.unnamed) : p.active = p'.active := by
  simpa only [Peer.unnamed] using congrArg Peer.active hp

theorem peerId_of_unnamed (hp : p.unnamed = p'.unnamed) : p.peerId = p'.peerId := by
  simpa only [Peer.unnamed] using congrArg Peer.peerId hp

theorem findPeerLocked_congr (hpeers : ∀ k, (m.peers k).unnamed = (m'.peers k).unnamed)
    (peerId : UInt64) : findPeerLocked m peerId = findPeerLocked m' peerId := by
  unfold findPeerLocked
  congr 1
  funext k
  rw [active_of_unnamed (hpeers k), peerId_of_unnamed (hpeers k)]

theorem findFreeSlot_congr (hpeers : ∀ k, (m.peers k).unnamed = (m'.peers k).unnamed) :
    findFreeSlot m = findFreeSlot m' := by
  unfold findFreeSlot
  congr 1
  funext k
  rw [active_of_unnamed (hpeers k)]

/-- The peers after a slot has been filled, or emptied, in both. -/
theorem unnamed_update {peers peers' : Slot → Peer} (hpeers : ∀ k, (peers k).unnamed =
    (peers' k).unnamed) (hp : p.unnamed = p'.unnamed) (j k : Slot) :
    (update peers j p k).unnamed = (update peers' j p' k).unnamed := by
  by_cases e : k = j
  · rw [e, update_self, update_self, hp]
  · rw [update_of_ne e, update_of_ne e, hpeers k]

/-- Steps outside the manager, and ledger entries, do not matter. -/
theorem Agrees.congr (hag : h.Agrees s) (hinit : h'.initialized = h.initialized)
    (hmgr : h'.mgr = h.mgr) (hsys : t.mgr = s.mgr) (hworker : t.worker = s.worker) :
    h'.Agrees t := by
  refine ⟨hinit.trans hag.initialized, ?_, ?_, ?_, ?_, ?_⟩
  · rw [hmgr, hsys, hag.enabled]
  · rw [hmgr, hsys, hag.useMock]
  · rw [hmgr, hsys, hag.realInitialized]
  · rw [hmgr, hsys]
    exact hag.peers
  · rw [hworker]
    exact hag.alive

theorem agrees_start (b : Backend) (hinit : h.initialized = true) :
    h.Agrees (Sys.start b h.mgr) :=
  ⟨hinit, rfl, rfl, rfl, fun _ => rfl, by rintro c ⟨⟩⟩

/-- A call that returns at once, and changes nothing. -/
theorem Agrees.newCall (hag : h.Agrees s) (kind : CallKind) (rc : Int) :
    AgreesAfter (rc, h) s (s.newCall kind (.returned rc)) :=
  ⟨⟨resultOf_newCall _ _ _, _, rfl⟩, rfl, hag.congr rfl rfl rfl rfl⟩

theorem not_busy_newCall (s : Sys) (kind : CallKind) (rc : Int) :
    (s.newCall kind (.returned rc)).busy s.nextCall = false := by
  simp [Sys.busy, Sys.newCall, CallPc.busy]

/-- The steps of the four calls, in a daemon that is alive. -/
structure CallSteps (s : Sys) : Prop where
  connect : ∀ info env, Urma.step s (.peerConnect info env) = some (Urma.peerConnect s info env)
  locked : ∀ c, Urma.step s (.peerConnectLocked c) = peerConnectLocked s c
  disconnect : ∀ peerId,
    Urma.step s (.peerDisconnect peerId) = some (Urma.peerDisconnect s peerId)
  release : ∀ c, Urma.step s (.peerDisconnectRelease c) = peerDisconnectRelease s c
  enable : Urma.step s .enable =
    some { s.newCall .enable (.returned 0) with mgr := { s.mgr with enabled := true } }
  disable : Urma.step s .disable =
    some { s.newCall .disable (.returned 0) with mgr := { s.mgr with enabled := false } }

theorem Agrees.steps (hag : h.Agrees s) : CallSteps s := by
  cases hw : s.worker with
  | faulted c => exact absurd hw (hag.alive c)
  | _ => constructor <;> simp [Urma.step, hw]

/-! ### Connect -/

/-- `real_import_peer` gives the same code, or the same peer. -/
theorem realImportPeer_agrees (hag : h.Agrees s) (out : ConnectOutcome) (seg jetty : Handle)
    (hp : p.unnamed = p'.unnamed) :
    (∃ rc h', h.realImportPeer p out = (.error rc, h') ∧
      Urma.realImportPeer s.mgr p' (out.env seg jetty) = .error rc ∧ h'.Agrees s) ∨
    ∃ q q' h', h.realImportPeer p out = (.ok q, h') ∧
      Urma.realImportPeer s.mgr p' (out.env seg jetty) = .ok q' ∧ q.unnamed = q'.unnamed ∧
      h'.Agrees s := by
  unfold Host.realImportPeer Urma.realImportPeer ConnectOutcome.env
  cases hreal : s.mgr.realInitialized with
  | false =>
      rw [hag.realInitialized, hreal]
      exact .inl ⟨_, _, rfl, rfl, hag⟩
  | true =>
      rw [hag.realInitialized, hreal]
      cases hseg : out.importSeg with
      | false => exact .inl ⟨_, _, rfl, rfl, hag.congr rfl rfl rfl rfl⟩
      | true =>
          cases hjetty : out.importJetty with
          | false => exact .inl ⟨_, _, rfl, rfl, hag.congr rfl rfl rfl rfl⟩
          | true =>
              refine .inr ⟨_, _, _, rfl, rfl, ?_, hag.congr rfl rfl rfl rfl⟩
              -- the segment's description is made of fields that have no names
              simp only [Peer.unnamed, Peer.mk.injEq] at hp
              obtain ⟨hact, hid, heid, hua, hva, hlen, htok, hjet, hbuf, hrem, -, -, -⟩ := hp
              simp only [Peer.unnamed, hact, hid, heid, hua, hva, hlen, htok, hjet, hbuf,
                Host.created, if_true, Option.map_some]

/-- The locked section of a connect call. -/
theorem connectLocked_agrees (hag : h.Agrees s) (hp : p.unnamed = p'.unnamed)
    (hcall : s.calls c = some ⟨.peerConnect info, .locking p'⟩) :
    ∃ t, Urma.step s (.peerConnectLocked c) = some t ∧
      Returns s c (h.connectLocked p).1 t ∧ t.nextCall = s.nextCall ∧
      (h.connectLocked p).2.Agrees t := by
  obtain ⟨hmgr, -, hinit⟩ := fields_dropPeer h p
  -- on an error both undo the connect
  have hundo : ∀ rc, ∃ t, some ((s.freeHbm p'.mockHbm).setCall c (.peerConnect info)
        (.returned rc)) = some t ∧ Returns s c rc t ∧ t.nextCall = s.nextCall ∧
      (h.dropPeer p).Agrees t := by
    intro rc
    refine ⟨_, rfl, ⟨resultOf_setCall _ _ _ _, ?_⟩, ?_, ?_⟩
    · exact ⟨⟨.peerConnect info, .returned rc⟩, by simp [Sys.setCall]⟩
    · simp [Sys.setCall]
    · exact hag.congr hinit hmgr (by simp [Sys.setCall]) (by simp [Sys.setCall])
  rw [hag.steps.locked c]
  unfold peerConnectLocked connectLocked
  rw [hcall, hag.enabled, findPeerLocked_congr hag.peers, findFreeSlot_congr hag.peers,
    peerId_of_unnamed hp]
  dsimp only
  by_cases hon : (!s.mgr.enabled) = true
  · rw [if_pos hon, if_pos hon]
    exact hundo _
  rw [if_neg hon, if_neg hon]
  cases hfind : findPeerLocked s.mgr p'.peerId with
  | some k => exact hundo _
  | none =>
      cases hfree : findFreeSlot s.mgr with
      | none => exact hundo _
      | some k =>
          refine ⟨_, rfl, ⟨?_, ⟨.peerConnect info, .returned 0⟩, rfl⟩, rfl, ?_⟩
          · exact resultOf_setCall s c (.peerConnect info) 0
          · exact ⟨hag.initialized, hag.enabled, hag.useMock, hag.realInitialized,
              unnamed_update hag.peers hp k, hag.alive⟩

/-- A connect whose peer is ready for the lock. -/
theorem alone_connect_locking {out : ConnectOutcome} {u : Sys} (hag : h.Agrees s)
    (hu : Urma.peerConnect s info (out.env (names s.nextCall).1 (names s.nextCall).2) = u)
    (hcalls : u.calls = update s.calls s.nextCall (some ⟨.peerConnect info, .locking p'⟩))
    (hnext : u.nextCall = s.nextCall + 1) (hag' : h'.Agrees u) (hp : p.unnamed = p'.unnamed) :
    ∃ t, alone names s (.peerConnect info out) = some t ∧
      AgreesAfter (h'.connectLocked p) s t := by
  have hcall : u.calls s.nextCall = some ⟨.peerConnect info, .locking p'⟩ := by
    rw [hcalls, update_self]
  have hbusy : u.busy s.nextCall = true := by
    rw [Sys.busy, hcall]
    rfl
  obtain ⟨t, ht, ⟨hres, k, hk⟩, hnext', hend⟩ := connectLocked_agrees hag' hp hcall
  refine ⟨t, ?_, ⟨hres, k, ?_⟩, hnext'.trans hnext, hend⟩
  · simp only [alone, Api.actions, run, hag.steps.connect, Option.bind_some, hu, hbusy, if_true, ht]
  · rw [hk, hcalls, update_idem]

/-- A connect that has returned before. -/
theorem alone_connect_returned {out : ConnectOutcome} (hag : h.Agrees s)
    (hu : Urma.peerConnect s info (out.env (names s.nextCall).1 (names s.nextCall).2) =
      s.newCall (.peerConnect info) (.returned rc)) (hag' : h'.Agrees s) :
    ∃ t, alone names s (.peerConnect info out) = some t ∧ AgreesAfter (rc, h') s t :=
  ⟨_, by simp [alone, Api.actions, run, hag.steps.connect, hu, not_busy_newCall],
    hag'.newCall (.peerConnect info) rc⟩

/-- **`ramdisk_urma_peer_connect`** does the same in both. -/
theorem peerConnect_agrees (names : CallId → Handle × Handle) (hag : h.Agrees s)
    (info : PeerConnectInfo) (out : ConnectOutcome) :
    ∃ t, alone names s (.peerConnect info out) = some t ∧
      AgreesAfter (h.peerConnect info out) s t := by
  unfold Host.peerConnect
  rw [hag.initialized, hag.useMock]
  dsimp only
  rw [if_neg (by decide)]
  by_cases hbad : info.peerId = 0 ∨ info.segLen = 0
  · rw [if_pos hbad]
    exact alone_connect_returned hag (if_pos hbad) hag
  rw [if_neg hbad]
  cases hmock : s.mgr.useMock with
  | true =>
      rw [if_pos rfl]
      cases hcalloc : out.calloc with
      | false =>
          refine alone_connect_returned hag ?_ hag
          simp [Urma.peerConnect, hbad, hmock, ConnectOutcome.env, hcalloc]
      | true =>
          exact alone_connect_locking (u := { s.newCall (.peerConnect info) (.locking
                { Peer.ofInfo info s.nextCall with mockHbm := some s.nextCall }) with
              hbm := update s.hbm s.nextCall ⟨true, info.segLen, ByteMem.zero⟩ }) hag
            (by simp [Urma.peerConnect, hbad, hmock, ConnectOutcome.env, hcalloc]) rfl rfl
            (hag.congr rfl rfl rfl rfl) rfl
  | false =>
      rw [if_neg (by decide)]
      have hnew : (Peer.ofInfo info h.ledger.next).unnamed =
          (Peer.ofInfo info s.nextCall).unnamed := rfl
      rcases realImportPeer_agrees hag out (names s.nextCall).1 (names s.nextCall).2 hnew with
        ⟨rc, g, hhost, hsys, hag'⟩ | ⟨q, q', g, hhost, hsys, hq, hag'⟩
      · rw [hhost]
        exact alone_connect_returned hag (by simp [Urma.peerConnect, hbad, hmock, hsys]) hag'
      · rw [hhost]
        exact alone_connect_locking (u := s.newCall (.peerConnect info) (.locking q')) hag
          (by simp [Urma.peerConnect, hbad, hmock, hsys]) rfl rfl (hag'.congr rfl rfl rfl rfl) hq

/-! ### The other calls -/

/-- **`ramdisk_urma_peer_disconnect`** does the same in both. -/
theorem peerDisconnect_agrees (names : CallId → Handle × Handle) (hag : h.Agrees s)
    (peerId : UInt64) :
    ∃ t, alone names s (.peerDisconnect peerId) = some t ∧
      AgreesAfter (h.peerDisconnect peerId) s t := by
  have hreturned : ∀ rc, Urma.peerDisconnect s peerId =
      s.newCall (.peerDisconnect peerId) (.returned rc) →
      ∃ t, alone names s (.peerDisconnect peerId) = some t ∧ AgreesAfter (rc, h) s t := by
    intro rc hu
    exact ⟨_, by simp [alone, Api.actions, run, hag.steps.disconnect, hu, not_busy_newCall],
      hag.newCall (.peerDisconnect peerId) rc⟩
  unfold Host.peerDisconnect
  rw [hag.initialized, findPeerLocked_congr hag.peers]
  by_cases hzero : peerId = 0
  · rw [if_pos (by simp [hzero])]
    exact hreturned _ (if_pos hzero)
  rw [if_neg (by simp [hzero])]
  cases hfind : findPeerLocked s.mgr peerId with
  | none => exact hreturned _ (by simp [Urma.peerDisconnect, hzero, hfind])
  | some k =>
      -- the slot is cleared, and then the handles are released
      let u : Sys := { s.newCall (.peerDisconnect peerId) (.releasing (s.mgr.peers k)) with
        mgr := { s.mgr with peers := update s.mgr.peers k Peer.cleared } }
      have hu : Urma.peerDisconnect s peerId = u := by
        simp [Urma.peerDisconnect, hzero, hfind, u]
      have hag' : (h.setPeer k Peer.cleared).Agrees u :=
        ⟨hag.initialized, hag.enabled, hag.useMock, hag.realInitialized,
          unnamed_update hag.peers rfl k, hag.alive⟩
      refine ⟨(u.freeHbm (s.mgr.peers k).mockHbm).setCall s.nextCall (.peerDisconnect peerId)
        (.returned 0), ?_, ⟨resultOf_setCall _ _ _ _, ?_⟩, ?_, ?_⟩
      · have hcall : u.calls s.nextCall =
            some ⟨.peerDisconnect peerId, .releasing (s.mgr.peers k)⟩ := update_self _ _ _
        have hbusy : u.busy s.nextCall = true := by
          rw [Sys.busy, hcall]
          rfl
        have hrelease : peerDisconnectRelease u s.nextCall =
            some ((u.freeHbm (s.mgr.peers k).mockHbm).setCall s.nextCall
              (.peerDisconnect peerId) (.returned 0)) := by
          rw [peerDisconnectRelease, hcall]
        simp only [alone, Api.actions, run, hag.steps.disconnect, Option.bind_some, hu, hbusy,
          if_true, hag'.steps.release, hrelease]
      · exact ⟨⟨.peerDisconnect peerId, .returned 0⟩, by simp [u, Sys.setCall, Sys.newCall]⟩
      · simp [u, Sys.setCall, Sys.newCall]
      · dsimp only
        rw [destroyPeer_eq]
        exact hag'.congr rfl rfl (by simp [Sys.setCall]) (by simp [Sys.setCall])

/-- `ramdisk_urma_enable` and `ramdisk_urma_disable` write the same flag. -/
theorem setEnabled_agrees (hag : h.Agrees s) (kind : CallKind) (enabled : Bool) :
    AgreesAfter (0, { h with mgr := { h.mgr with enabled := enabled } }) s
      { s.newCall kind (.returned 0) with mgr := { s.mgr with enabled := enabled } } :=
  ⟨⟨resultOf_newCall s kind 0, _, rfl⟩, rfl,
    hag.initialized, rfl, hag.useMock, hag.realInitialized, hag.peers, hag.alive⟩

/-! ### All calls -/

/-- **One call** does the same in both. -/
theorem call_agrees (names : CallId → Handle × Handle) (hag : h.Agrees s) (ha : a ≠ .mgrDestroy)
    (hcall : h.call a = some (rc, h')) :
    ∃ t, alone names s a = some t ∧ AgreesAfter (rc, h') s t := by
  cases a with
  | mgrInit backend cfg env => simp [call, hag.initialized] at hcall
  | mgrDestroy => exact absurd rfl ha
  | enable =>
      have heq : h.enable = (0, { h with mgr := { h.mgr with enabled := true } }) :=
        if_neg (by simp [hag.initialized])
      rw [← Option.some.inj hcall, heq]
      exact ⟨_, by simp [alone, Api.actions, run, hag.steps.enable],
        setEnabled_agrees hag .enable true⟩
  | disable =>
      have heq : h.disable = (0, { h with mgr := { h.mgr with enabled := false } }) :=
        if_neg (by simp [hag.initialized])
      rw [← Option.some.inj hcall, heq]
      exact ⟨_, by simp [alone, Api.actions, run, hag.steps.disable],
        setEnabled_agrees hag .disable false⟩
  | peerConnect info out =>
      rw [← Option.some.inj hcall]
      exact peerConnect_agrees names hag info out
  | peerDisconnect peerId =>
      rw [← Option.some.inj hcall]
      exact peerDisconnect_agrees names hag peerId

/-- The codes the host's calls return. -/
def codes : Host → List Api → List Int := outputs Host.step fun s a => (s.call a).map Prod.fst

/-- From states that agree, the same calls return the same codes. -/
theorem run_agrees (names : CallId → Handle × Handle) (hag : h.Agrees s)
    (has : .mgrDestroy ∉ as) (hrun : run Host.step h as = some h') :
    ∃ t, run (alone names) s as = some t ∧ h'.Agrees t ∧
      ∀ n ≤ s.nextCall, t.results n = s.results n ++ h.codes as := by
  induction as generalizing h s with
  | nil =>
      obtain rfl := Option.some.inj hrun
      exact ⟨s, rfl, hag, fun n _ => (List.append_nil _).symm⟩
  | cons a as ih =>
      obtain ⟨g, hstep, hrest⟩ := run_cons_iff.mp hrun
      obtain ⟨rc, hcall⟩ := step_call hstep
      have hne : a ≠ .mgrDestroy := fun e => has (e ▸ List.mem_cons_self)
      obtain ⟨u, hu, hafter⟩ := call_agrees names hag hne hcall
      obtain ⟨t, ht, hend, hres⟩ := ih hafter.agrees (fun hmem => has (List.mem_cons_of_mem _ hmem))
        hrest
      refine ⟨t, run_cons_iff.mpr ⟨u, hu, ht⟩, hend, ?_⟩
      intro n hn
      obtain ⟨k, hk⟩ := hafter.calls
      have hcodes : h.codes (a :: as) = rc :: g.codes as := by
        simp [codes, outputs, hstep, hcall]
      rw [hres n (hafter.nextCall ▸ Nat.le_succ_of_le hn), results_start hn hk hafter.nextCall,
        hafter.result, hcodes, List.append_assoc]
      rfl

/-- Calls that nothing interrupts are a run of the daemon. -/
theorem run_alone (hrun : run (alone names) s as = some t) : ∃ ls, run Urma.step s ls = some t := by
  induction as generalizing s with
  | nil => exact ⟨[], hrun⟩
  | cons a as ih =>
      obtain ⟨u, hu, hrest⟩ := run_cons_iff.mp hrun
      obtain ⟨ls, hls⟩ := ih hrest
      exact ⟨a.actions names s ++ ls, (run_append hu).trans hls⟩

/-- **The two models agree**: after a `ramdisk_urma_mgr_init` that succeeded, and
whatever handles the URMA library returns, the calls made on the host's manager can be
made on the daemon's, one after the other; they return the same codes, and the managers
are the same but for the names of the handles. -/
theorem calls_agree {backend : Backend} {cfg : Option HostConfig} {env : InitEnv}
    (names : CallId → Handle × Handle) (hlive : backend.Live)
    (hinit : Host.start.mgrInit backend cfg env = (0, h)) (has : .mgrDestroy ∉ as)
    (hrun : run Host.step h as = some h') :
    ∃ t, Reachable t ∧ run (alone names) (Sys.start backend h.mgr) as = some t ∧
      h'.Agrees t ∧ t.results 0 = h.codes as := by
  obtain ⟨hon, hstart⟩ := mgrInit_initial ⟨Owns.empty, rfl⟩ hlive hinit
  obtain ⟨t, ht, hag, hres⟩ := run_agrees names (agrees_start backend hon) has hrun
  obtain ⟨ls, hls⟩ := run_alone ht
  exact ⟨t, ⟨_, ls, hstart, hls⟩, ht, hag, hres 0 (Nat.zero_le _)⟩

/-- A duplicate peer and a failed import get their codes, and the others 0. -/
example :
    (Host.start.mgrInit Urma.Small.backend (some Small.realConfig) (Small.realEnv true)).2.codes
      (Small.realCalls.drop 2) = [0, -EEXIST, - EIO, 0, 0] := by
  decide +kernel

end Host

end Urma

end DirectStorage
