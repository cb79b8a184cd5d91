/-
DirectStorage/UrmaPeerTable.lean

The peer table along every run.

`step_table` says once what a step can do to the table and to the peers that
calls hold: nothing, start a connect call, install a peer, take one out.  Two
things follow by induction over runs.

* A peer that is held was built by a connect call (`TableStep.held_before`), so
  what connect establishes of a peer holds of every peer for good.
* No id is in the table twice, and a slot that is not in use is all zero
  (`TableInv`): a connect installs an id only after it has not found it, under
  the same lock.  So `find_peer_locked` finds the one peer with that id
  (`TableInv.find_iff`).
-/
import DirectStorage.UrmaProvider

namespace DirectStorage

namespace Urma

open Function

variable {s t : Sys} {a : Action} {c : CallId} {k : Slot} {p : Peer}

/-! ### What a step does to the table -/

/-- The fields of the manager that belong to the provider. -/
def Mgr.provider (m : Mgr) : Bool × Bool × Option Handle :=
  (m.useMock, m.realInitialized, m.localTseg)

/-- What a step can do to the table and to the peers that calls hold. -/
inductive TableStep (s : Sys) (a : Action) (t : Sys) : Prop
  /-- The table stays, and no call comes to hold a peer. -/
  | keep (hpeers : t.mgr.peers = s.mgr.peers)
      (hheld : ∀ c p, t.held (.call c) = some p → s.held (.call c) = some p)
  /-- A connect call starts. -/
  | build (info : PeerConnectInfo) (env : ConnectEnv) (ha : a = .peerConnect info env)
      (ht : t = peerConnect s info env)
  /-- A connect call installs its peer, whose id is not in the table. -/
  | install (c : CallId) (k : Slot) (p : Peer) (hc : s.held (.call c) = some p)
      (hnew : findPeerLocked s.mgr p.peerId = none)
      (hpeers : t.mgr.peers = update s.mgr.peers k p)
      (hheld : ∀ c p, t.held (.call c) = some p → s.held (.call c) = some p)
  /-- A disconnect call takes a peer out of the table. -/
  | vacate (k : Slot) (hactive : (s.mgr.peers k).active = true)
      (hpeers : t.mgr.peers = update s.mgr.peers k Peer.cleared)
      (hheld : ∀ c p, t.held (.call c) = some p →
        s.held (.call c) = some p ∨ p = s.mgr.peers k)

/-- A written call that holds no peer. -/
theorem held_of_setCall {j : Call} (hj : j.heldPeer = none)
    (hcalls : t.calls = update s.calls c (some j)) (c' : CallId) (p : Peer)
    (h : t.held (.call c') = some p) : s.held (.call c') = some p := by
  have hbind : (t.calls c').bind Call.heldPeer = some p := h
  rw [hcalls] at hbind
  by_cases e : c' = c
  · subst e
    rw [update_self] at hbind
    exact absurd (hj.symm.trans hbind) (by simp)
  · rw [update_of_ne e] at hbind
    exact hbind

theorem TableStep.of_call {j : Call} (hj : j.heldPeer = none)
    (hcalls : t.calls = update s.calls c (some j)) (hpeers : t.mgr.peers = s.mgr.peers) :
    TableStep s a t :=
  .keep hpeers (held_of_setCall hj hcalls)

theorem TableStep.of_unchanged (hcalls : t.calls = s.calls) (hpeers : t.mgr.peers = s.mgr.peers) :
    TableStep s a t := by
  refine .keep hpeers ?_
  intro c p h
  have hbind : (t.calls c).bind Call.heldPeer = some p := h
  rw [hcalls] at hbind
  exact hbind

theorem tableStep_transferSync (s : Sys) (x : UrmaTransfer) (timeoutMs : UInt32)
    (now : ClockTime) :
    (transferSync s x timeoutMs now).mgr.provider = s.mgr.provider ∧
      TableStep s (.transferSync x timeoutMs now) (transferSync s x timeoutMs now) := by
  unfold transferSync
  split
  · exact ⟨rfl, .of_call rfl rfl rfl⟩
  · split
    · exact ⟨rfl, .of_call rfl rfl rfl⟩
    · exact ⟨rfl, .of_call rfl rfl rfl⟩

theorem tableStep_timedwait {rc : Int} {now : ClockTime} (h : timedwait s c rc now = some t) :
    t.mgr.provider = s.mgr.provider ∧ TableStep s a t := by
  have hloop : ∀ kind ts, (waitLoop s c kind ts).mgr.provider = s.mgr.provider ∧
      TableStep s a (waitLoop s c kind ts) := by
    intro kind ts
    unfold waitLoop
    split
    · exact ⟨rfl, .of_call rfl rfl rfl⟩
    · exact ⟨rfl, .of_call rfl rfl rfl⟩
  unfold timedwait at h
  split at h
  · split_ifs at h
    · obtain rfl := Option.some.inj h
      exact hloop _ _
    · obtain rfl := Option.some.inj h
      exact ⟨rfl, .of_call rfl rfl rfl⟩
    · obtain rfl := Option.some.inj h
      exact hloop _ _
  · cases h

theorem peerConnect_mgr (s : Sys) (info : PeerConnectInfo) (env : ConnectEnv) :
    (peerConnect s info env).mgr = s.mgr := by
  unfold peerConnect
  split
  · rfl
  · split
    · split
      · rfl
      · rfl
    · split
      · rfl
      · rfl

theorem tableStep_peerConnectLocked (h : peerConnectLocked s c = some t) :
    t.mgr.provider = s.mgr.provider ∧ TableStep s a t := by
  -- a connect that fails gives its peer up
  have hundo : ∀ b kind rc, ((s.freeHbm b).setCall c kind (.returned rc)).mgr.provider =
      s.mgr.provider ∧ TableStep s a ((s.freeHbm b).setCall c kind (.returned rc)) := by
    intro b kind rc
    refine ⟨congrArg Mgr.provider (mgr_freeHbm s b),
      .of_call (c := c) (j := ⟨kind, .returned rc⟩) rfl ?_ (congrArg Mgr.peers (mgr_freeHbm s b))⟩
    exact congrArg (update · c _) (calls_freeHbm s b)
  unfold peerConnectLocked at h
  split at h
  · next info p hc =>
    have hheld : s.held (.call c) = some p := by
      simp [Sys.held, hc, Call.heldPeer]
    split at h
    · obtain rfl := Option.some.inj h
      exact hundo _ _ _
    · split at h
      · obtain rfl := Option.some.inj h
        exact hundo _ _ _
      · next hnew =>
        split at h
        · obtain rfl := Option.some.inj h
          exact hundo _ _ _
        · next k hk =>
          obtain rfl := Option.some.inj h
          exact ⟨rfl, .install c k p hheld hnew rfl
            (held_of_setCall (j := ⟨.peerConnect info, .returned 0⟩) rfl rfl)⟩
  · cases h

theorem tableStep_peerDisconnect (s : Sys) (peerId : UInt64) :
    (peerDisconnect s peerId).mgr.provider = s.mgr.provider ∧
      TableStep s (.peerDisconnect peerId) (peerDisconnect s peerId) := by
  unfold peerDisconnect
  split
  · exact ⟨rfl, .of_call rfl rfl rfl⟩
  · split
    · exact ⟨rfl, .of_call rfl rfl rfl⟩
    · next k hk =>
      refine ⟨rfl, .vacate k (findPeerLocked_some hk).1 rfl ?_⟩
      intro c p h
      have hbind : (update s.calls s.nextCall (some ⟨.peerDisconnect peerId,
        .releasing (s.mgr.peers k)⟩) c).bind Call.heldPeer = some p := h
      by_cases e : c = s.nextCall
      · subst e
        rw [update_self] at hbind
        exact .inr (Option.some.inj hbind).symm
      · rw [update_of_ne e] at hbind
        exact .inl hbind

theorem tableStep_peerDisconnectRelease (h : peerDisconnectRelease s c = some t) :
    t.mgr.provider = s.mgr.provider ∧ TableStep s a t := by
  unfold peerDisconnectRelease at h
  split at h
  · next peerId old hc =>
    obtain rfl := Option.some.inj h
    refine ⟨congrArg Mgr.provider (mgr_freeHbm s _), .of_call (c := c)
      (j := ⟨.peerDisconnect peerId, .returned 0⟩) rfl ?_ (congrArg Mgr.peers (mgr_freeHbm s _))⟩
    exact congrArg (update · c _) (calls_freeHbm s _)
  · cases h

theorem tableStep_mockWritePeer (s : Sys) (peerId remoteAddr : UInt64) (data : List UInt8)
    (len : UInt32) : (mockWritePeer s peerId remoteAddr data len).mgr.provider = s.mgr.provider ∧
      TableStep s (.mockWritePeer peerId remoteAddr data len)
        (mockWritePeer s peerId remoteAddr data len) := by
  unfold mockWritePeer
  split
  · exact ⟨rfl, .of_call rfl rfl rfl⟩
  · exact ⟨rfl, .of_call rfl rfl rfl⟩

theorem workerDequeue_provider {uninit : UninitRead} (h : workerDequeue s uninit = some t) :
    t.mgr.provider = s.mgr.provider := by
  simp only [workerDequeue] at h
  repeat' split at h
  all_goals first | cases h; rfl | cases h

theorem worker_provider (h : step s a = some t) (ha : a.byWorker = true) :
    t.mgr.provider = s.mgr.provider := by
  cases step_cases h with
  | other hb hw hgeo => cases hb.symm.trans ha
  | dequeue uninit htop hres =>
      unfold step at h
      split at h
      · cases h
      · exact workerDequeue_provider h
  | execute post hexec =>
      obtain ⟨c, k, conn, hw, hres⟩ := workerExecute_executed hexec
      cases hres with
      | mock rc mem hbm hmock hrc hu => rw [hu]
      | fault hmock hrc hu => rw [hu]
      | refused rc hreal hno hu => rw [hu]
      | posted wr hreal hpost hwr hu => rw [hu]
  | poll rc c hw ht => rw [ht]
  | complete c rc hw hres =>
      unfold step workerComplete at h
      rw [hw] at h
      obtain rfl := Option.some.inj h
      rfl
  | log c rc hw ht => rw [ht]

/-- **What a step does to the table**, and that no step changes the provider. -/
theorem step_table (h : step s a = some t) :
    t.mgr.provider = s.mgr.provider ∧ TableStep s a t := by
  cases ha : a.byWorker with
  | true =>
      have hkept := worker_kept h ha
      exact ⟨worker_provider h ha, .of_unchanged hkept.calls hkept.peers⟩
  | false =>
      unfold step at h
      split at h
      · cases h
      cases a with
      | transferSync x timeoutMs now =>
          obtain rfl := Option.some.inj h
          exact tableStep_transferSync s x timeoutMs now
      | timedwait c rc now => exact tableStep_timedwait h
      | peerConnect info env =>
          obtain rfl := Option.some.inj h
          exact ⟨congrArg Mgr.provider (peerConnect_mgr s info env), .build info env rfl rfl⟩
      | peerConnectLocked c => exact tableStep_peerConnectLocked h
      | peerDisconnect peerId =>
          obtain rfl := Option.some.inj h
          exact tableStep_peerDisconnect s peerId
      | peerDisconnectRelease c => exact tableStep_peerDisconnectRelease h
      | mockWritePeer peerId remoteAddr data len =>
          obtain rfl := Option.some.inj h
          exact tableStep_mockWritePeer s peerId remoteAddr data len
      | enable | disable | fillStatus | mgrDestroy =>
          obtain rfl := Option.some.inj h
          exact ⟨rfl, .of_call rfl rfl rfl⟩
      | backendWrite offset data len =>
          obtain rfl := Option.some.inj h
          exact ⟨rfl, .of_unchanged rfl rfl⟩
      | backendZero offset len =>
          obtain rfl := Option.some.inj h
          exact ⟨rfl, .of_unchanged rfl rfl⟩
      | _ => cases ha

/-! ### Where peers come from -/

/-- `p` is the peer a connect call with argument `info` has just built. -/
structure Connected (m : Mgr) (info : PeerConnectInfo) (p : Peer) : Prop where
  segVa : p.segVa = info.segVa
  segLen : p.segLen = info.segLen
  imported : m.useMock = false → p.importTseg.isSome = true ∧ p.tJetty.isSome = true

theorem realImportPeer_connected {info : PeerConnectInfo} {env : ConnectEnv} {m : Mgr}
    (h : realImportPeer m (Peer.ofInfo info c) env = .ok p) : Connected m info p := by
  unfold realImportPeer at h
  split at h
  · cases h
  · split at h
    · cases h
    · cases h
    · obtain rfl := Except.ok.inj h
      exact ⟨rfl, rfl, fun _ => ⟨rfl, rfl⟩⟩

/-- A connect call that starts holds the peer it has built, or nothing. -/
theorem peerConnect_held {info : PeerConnectInfo} {env : ConnectEnv}
    (h : (peerConnect s info env).held (.call c) = some p) :
    s.held (.call c) = some p ∨ Connected s.mgr info p := by
  -- whatever the new call is, the other calls hold what they held
  have hnew : ∀ (u : Sys) (j : Call), u.calls = update s.calls s.nextCall (some j) →
      u.held (.call c) = some p → s.held (.call c) = some p ∨ j.heldPeer = some p := by
    intro u j hcalls hu
    have hbind : (u.calls c).bind Call.heldPeer = some p := hu
    rw [hcalls] at hbind
    by_cases e : c = s.nextCall
    · rw [e, update_self] at hbind
      exact .inr hbind
    · rw [update_of_ne e] at hbind
      exact .inl hbind
  unfold peerConnect at h
  split at h
  · exact (hnew _ _ rfl h).imp_right fun e => by cases e
  · split at h
    · next hmock =>
      split at h
      · exact (hnew _ _ rfl h).imp_right fun e => by cases e
      · refine (hnew _ _ rfl h).imp_right fun e => ?_
        obtain rfl := Option.some.inj e
        exact ⟨rfl, rfl, fun hreal => by cases hreal.symm.trans hmock⟩
    · split at h
      · exact (hnew _ _ rfl h).imp_right fun e => by cases e
      · next q hq =>
        refine (hnew _ _ rfl h).imp_right fun e => ?_
        obtain rfl := Option.some.inj e
        exact realImportPeer_connected hq

/-- A table that a step did not write holds what it held. -/
theorem held_slot_of_peers (hpeers : t.mgr.peers k = s.mgr.peers k)
    (h : t.held (.slot k) = some p) : s.held (.slot k) = some p := by
  obtain ⟨hactive, rfl⟩ := held_slot_some h
  rw [hpeers] at hactive ⊢
  exact held_slot_active hactive

/-- **A peer is held after a step only if it was held before, or a connect call
has just built it.** -/
theorem TableStep.held_before (hstep : TableStep s a t) {o : Owner}
    (h : t.held o = some p) : (∃ o', s.held o' = some p) ∨
      ∃ info env, a = .peerConnect info env ∧ Connected s.mgr info p := by
  cases o with
  | slot k =>
      left
      cases hstep with
      | keep hpeers hheld => exact ⟨_, held_slot_of_peers (congrFun hpeers k) h⟩
      | build info env ha ht =>
          have hpeers : t.mgr.peers = s.mgr.peers := by rw [ht, peerConnect_mgr]
          exact ⟨_, held_slot_of_peers (congrFun hpeers k) h⟩
      | install c k' q hc hnew hpeers hheld =>
          by_cases e : k = k'
          · obtain ⟨-, rfl⟩ := held_slot_some h
            refine ⟨.call c, ?_⟩
            rw [hpeers, e, update_self]
            exact hc
          · exact ⟨_, held_slot_of_peers (by rw [hpeers, update_of_ne e]) h⟩
      | vacate k' hactive hpeers hheld =>
          by_cases e : k = k'
          · obtain ⟨ha, -⟩ := held_slot_some h
            rw [hpeers, e, update_self] at ha
            cases ha
          · exact ⟨_, held_slot_of_peers (by rw [hpeers, update_of_ne e]) h⟩
  | call c =>
      cases hstep with
      | keep hpeers hheld => exact .inl ⟨_, hheld c p h⟩
      | build info env ha ht =>
          rw [ht] at h
          rcases peerConnect_held h with hold | hnew
          · exact .inl ⟨_, hold⟩
          · exact .inr ⟨info, env, ha, hnew⟩
      | install c' k' q hc hnew hpeers hheld => exact .inl ⟨_, hheld c p h⟩
      | vacate k' hactive hpeers hheld =>
          rcases hheld c p h with hold | rfl
          · exact .inl ⟨_, hold⟩
          · exact .inl ⟨.slot k', held_slot_active hactive⟩

/-! ### The table -/

theorem findPeerLocked_none {m : Mgr} {peerId : UInt64} (h : findPeerLocked m peerId = none)
    (hk : (m.peers k).active = true) : (m.peers k).peerId ≠ peerId := by
  have hnone := List.find?_eq_none.mp h k (List.mem_finRange k)
  simpa [hk] using hnone

/-- No id is in the table twice, and a slot that is not in use is all zero. -/
structure TableInv (s : Sys) : Prop where
  unique : ∀ k k', (s.mgr.peers k).active = true → (s.mgr.peers k').active = true →
    (s.mgr.peers k).peerId = (s.mgr.peers k').peerId → k = k'
  cleared : ∀ k, (s.mgr.peers k).active = false → s.mgr.peers k = Peer.cleared

theorem tableInv_initial (h : Initial s) : TableInv s := by
  obtain ⟨b, m, config, queueOk, mutexRc, provider, threadRc, -, hinit, rfl⟩ := h
  have hpeers : m.peers = fun _ => Peer.cleared := by rw [(mgrInit_ok hinit).2]; rfl
  constructor
  · intro k k' hk
    have hk' : (m.peers k).active = true := hk
    rw [hpeers] at hk'
    cases hk'
  · intro k _
    exact congrFun hpeers k

theorem TableInv.congr (h : TableInv s) (hpeers : t.mgr.peers = s.mgr.peers) : TableInv t := by
  constructor
  · intro k k'
    rw [hpeers]
    exact h.unique k k'
  · intro k
    rw [hpeers]
    exact h.cleared k

/-- A peer with a new id is put into the table. -/
theorem TableInv.install (h : TableInv s) (hactive : p.active = true)
    (hnew : findPeerLocked s.mgr p.peerId = none)
    (hpeers : t.mgr.peers = update s.mgr.peers k p) : TableInv t := by
  constructor
  case unique =>
    intro k₁ k₂
    rw [hpeers]
    by_cases e₁ : k₁ = k
    · by_cases e₂ : k₂ = k
      · exact fun _ _ _ => e₁.trans e₂.symm
      · rw [e₁, update_self, update_of_ne e₂]
        exact fun _ ha hid => absurd hid.symm (findPeerLocked_none hnew ha)
    · by_cases e₂ : k₂ = k
      · rw [e₂, update_self, update_of_ne e₁]
        exact fun ha _ hid => absurd hid (findPeerLocked_none hnew ha)
      · rw [update_of_ne e₁, update_of_ne e₂]
        exact h.unique k₁ k₂
  case cleared =>
    intro k₁
    rw [hpeers]
    by_cases e : k₁ = k
    · rw [e, update_self, hactive]
      nofun
    · rw [update_of_ne e]
      exact h.cleared k₁

theorem TableInv.vacate (h : TableInv s)
    (hpeers : t.mgr.peers = update s.mgr.peers k Peer.cleared) : TableInv t := by
  have hslot : ∀ k', (t.mgr.peers k').active = true → t.mgr.peers k' = s.mgr.peers k' := by
    intro k' hk'
    rw [hpeers] at hk' ⊢
    by_cases e : k' = k
    · rw [e, update_self] at hk'
      cases hk'
    · exact update_of_ne e _ _
  constructor
  case unique =>
    intro k₁ k₂ h₁ h₂ hid
    have e₁ := hslot k₁ h₁
    have e₂ := hslot k₂ h₂
    rw [e₁] at h₁ hid
    rw [e₂] at h₂ hid
    exact h.unique k₁ k₂ h₁ h₂ hid
  case cleared =>
    intro k'
    rw [hpeers]
    by_cases e : k' = k
    · rw [e, update_self]
      exact fun _ => rfl
    · rw [update_of_ne e]
      exact h.cleared k'

theorem TableInv.step (h : TableInv s) (hp : PeerInv s.peerView) (hstep : step s a = some t) :
    TableInv t := by
  cases (step_table hstep).2 with
  | keep hpeers hheld => exact h.congr hpeers
  | build info env ha ht => exact h.congr (by rw [ht, peerConnect_mgr])
  | install c k p hc hnew hpeers hheld => exact h.install (hp.active (.call c) p hc) hnew hpeers
  | vacate k hactive hpeers hheld => exact h.vacate hpeers

/-- **The table of every reachable state.** -/
theorem Reachable.tableInv (h : Reachable s) : TableInv s := by
  obtain ⟨s₀, as, hinit, hrun⟩ := h
  have hinv : PeerInv s.peerView ∧ TableInv s :=
    run_invariant (I := fun s => PeerInv s.peerView ∧ TableInv s)
      ⟨peerInv_initial hinit, tableInv_initial hinit⟩
      (fun s a t hs _ hstep => ⟨(step_peerStep hs.1 hstep).preserves hs.1, hs.2.step hs.1 hstep⟩)
      (runOk_trivial s₀ as) hrun
  exact hinv.2

/-- The lookup finds the one active peer with that id. -/
theorem TableInv.find_iff (h : TableInv s) {peerId : UInt64} :
    findPeerLocked s.mgr peerId = some k ↔
      (s.mgr.peers k).active = true ∧ (s.mgr.peers k).peerId = peerId := by
  refine ⟨findPeerLocked_some, ?_⟩
  rintro ⟨hactive, hid⟩
  rcases hfind : findPeerLocked s.mgr peerId with - | k'
  · exact absurd hid (findPeerLocked_none hfind hactive)
  · obtain ⟨hactive', hid'⟩ := findPeerLocked_some hfind
    rw [h.unique k' k hactive' hactive (hid'.trans hid.symm)]

end Urma

end DirectStorage
