/-
DirectStorage/UrmaOwnership.lean

Who owns the handles of the manager.

Between two calls an initialised manager owns the handles in its fields: those
of its peers, which may be released in any order, and the chain from the
registered segment down to `urma_init`, each created from later ones (`Ready`).
A manager that is not initialised owns nothing.  `HostInv.step` says that every
call keeps this, whatever fails on the way.

Main result: `resources_owned`, over every run of calls.
-/
import DirectStorage.UrmaResources
import DirectStorage.Lts

namespace DirectStorage

namespace Urma

open Function

namespace Host

variable {s t : Host} {kind : Kind} {leaves chain ps : List (Kind × Handle)} {env : InitEnv}

/-! ### References -/

/-- The handles of a peer, in the order in which `real_destroy_peer` and the free
of its buffer release them. -/
def peerHandles (p : Peer) : List (Kind × Handle) :=
  ref .importJetty p.tJetty ++ (ref .importSeg p.importTseg ++ ref .hbm p.mockHbm)

/-- The handles of all peers. -/
def peerRefs (peers : Slot → Peer) : List (Kind × Handle) :=
  (List.finRange maxPeers).flatMap fun k => peerHandles (peers k)

/-- The provider's handles, from `urma_init` upwards: `real_init_provider`
acquires them in this order. -/
def initRefs (s : Host) : List (Kind × Handle) := ref .init s.urma

def ctxRefs (s : Host) : List (Kind × Handle) := ref .context s.urmaCtx ++ s.initRefs

def jfceRefs (s : Host) : List (Kind × Handle) := ref .jfce s.jfce ++ s.ctxRefs

def jfcRefs (s : Host) : List (Kind × Handle) := ref .jfc s.jfc ++ s.jfceRefs

def jfrRefs (s : Host) : List (Kind × Handle) := ref .jfr s.jfr ++ s.jfcRefs

def jettyRefs (s : Host) : List (Kind × Handle) := ref .jetty s.jetty ++ s.jfrRefs

/-- All handles of the provider, in the order in which it releases them. -/
def providerRefs (s : Host) : List (Kind × Handle) :=
  ref .segment s.mgr.localTseg ++ s.jettyRefs

theorem mem_ref {k k' : Kind} {o : Option Handle} {h : Handle} :
    (k', h) ∈ ref k o ↔ k' = k ∧ o = some h := by
  unfold ref
  cases o with
  | none => simp
  | some x =>
      simp only [Option.toList_some, List.map_cons, List.map_nil, List.mem_singleton,
        Prod.mk.injEq, Option.some.injEq, eq_comm]

/-! ### Create and release -/

section Frame

variable (s kind) (h : Option Handle)

@[simp] theorem mgr_release : (s.release kind h).mgr = s.mgr := by
  cases h <;> rfl

@[simp] theorem initialized_release : (s.release kind h).initialized = s.initialized := by
  cases h <;> rfl

@[simp] theorem workerStarted_release :
    (s.release kind h).workerStarted = s.workerStarted := by
  cases h <;> rfl

@[simp] theorem urma_release : (s.release kind h).urma = s.urma := by
  cases h <;> rfl

@[simp] theorem urmaCtx_release : (s.release kind h).urmaCtx = s.urmaCtx := by
  cases h <;> rfl

@[simp] theorem jfce_release : (s.release kind h).jfce = s.jfce := by
  cases h <;> rfl

@[simp] theorem jfc_release : (s.release kind h).jfc = s.jfc := by
  cases h <;> rfl

@[simp] theorem jfr_release : (s.release kind h).jfr = s.jfr := by
  cases h <;> rfl

@[simp] theorem jetty_release : (s.release kind h).jetty = s.jetty := by
  cases h <;> rfl

/-- Only the ledger notices a release. -/
theorem release_eq : s.release kind h = { s with ledger := (s.release kind h).ledger } := by
  cases h <;> rfl

end Frame

theorem release_leaf {h : Option Handle} (ho : Owns s.ledger (ref kind h ++ leaves) chain) :
    Owns (s.release kind h).ledger leaves chain := by
  cases h with
  | none => exact ho
  | some h => exact ho.releaseLeaf

theorem release_chain {h : Option Handle} (ho : Owns s.ledger [] (ref kind h ++ chain)) :
    Owns (s.release kind h).ledger [] chain := by
  cases h with
  | none => exact ho
  | some h => exact ho.releaseChain

theorem create_leaf (ho : Owns s.ledger leaves chain) (kind : Kind) (ok : Bool)
    (hps : ∀ q ∈ ps, q ∈ chain) :
    Owns (s.create kind ps ok).ledger (ref kind (s.created ok) ++ leaves) chain := by
  cases ok with
  | false => exact ho
  | true => exact ho.acquireLeaf kind hps

theorem create_chain (ho : Owns s.ledger leaves chain) (kind : Kind) (ok : Bool)
    (hps : ∀ q ∈ ps, q ∈ chain) :
    Owns (s.create kind ps ok).ledger leaves (ref kind (s.created ok) ++ chain) := by
  cases ok with
  | false => exact ho
  | true => exact ho.acquireChain kind hps

/-! ### `real_init_provider` -/

/-- What `real_init_provider` leaves behind: on success all of the provider's
handles in the manager's fields, on failure nothing. -/
structure ProviderDone (s : Host) (res : Int × Host) : Prop where
  mgr : ∃ r l, res.2.mgr = { s.mgr with realInitialized := r, localTseg := l }
  initialized : res.2.initialized = s.initialized
  worker : res.2.workerStarted = s.workerStarted
  ok : res.1 = 0 → Owns res.2.ledger [] res.2.providerRefs ∧ res.2.mgr.realInitialized = true
  segment : res.1 = 0 → ∃ seg, res.2.mgr.localTseg = some seg
  failed : res.1 ≠ 0 → Owns res.2.ledger [] [] ∧ res.2.urma = none ∧
    res.2.mgr.realInitialized = s.mgr.realInitialized

/-- The manager's own fields may have changed in between, as far as they are the
provider's. -/
theorem ProviderDone.of_eq {res : Int × Host} (h : ProviderDone t res)
    (hmgr : ∃ l, t.mgr = { s.mgr with localTseg := l }) (hinit : t.initialized = s.initialized)
    (hworker : t.workerStarted = s.workerStarted) : ProviderDone s res := by
  obtain ⟨l, hmgr⟩ := hmgr
  obtain ⟨r, l', hres⟩ := h.mgr
  refine ⟨⟨r, l', ?_⟩, h.initialized.trans hinit, h.worker.trans hworker, h.ok, h.segment, ?_⟩
  · rw [hres, hmgr]
  · intro hrc
    obtain ⟨howns, hurma, hreal⟩ := h.failed hrc
    refine ⟨howns, hurma, hreal.trans ?_⟩
    rw [hmgr]

theorem urmaUninit_done {rc : Int} (hrc : rc ≠ 0) (ho : Owns s.ledger [] s.initRefs) :
    ProviderDone s (rc, s.urmaUninit) := by
  refine ⟨⟨s.mgr.realInitialized, s.mgr.localTseg, mgr_release s _ _⟩, initialized_release s _ _,
    workerStarted_release s _ _, fun h => absurd h hrc, fun h => absurd h hrc,
    fun _ => ⟨?_, rfl, ?_⟩⟩
  · have hlast : Owns s.ledger [] (ref .init s.urma ++ []) := (List.append_nil _).symm ▸ ho
    exact release_chain hlast
  · exact congrArg Mgr.realInitialized (mgr_release s _ _)

/-- A label gives up one handle and falls through to the next one. -/
theorem ProviderDone.falls (kind : Kind) (h : Option Handle) {res : Int × Host}
    (hdone : ProviderDone t res) (ht : t.mgr = (s.release kind h).mgr)
    (hinit : t.initialized = (s.release kind h).initialized)
    (hworker : t.workerStarted = (s.release kind h).workerStarted) : ProviderDone s res := by
  refine hdone.of_eq ⟨s.mgr.localTseg, ?_⟩ ?_ ?_
  · exact ht.trans (mgr_release s kind h)
  · exact hinit.trans (initialized_release s kind h)
  · exact hworker.trans (workerStarted_release s kind h)

theorem failCtx_done (ho : Owns s.ledger [] s.ctxRefs) : ProviderDone s s.failCtx := by
  refine ProviderDone.falls .context s.urmaCtx
    (urmaUninit_done (by decide) ?_) rfl rfl rfl
  show Owns (s.release .context s.urmaCtx).ledger [] (ref .init (s.release _ _).urma)
  rw [urma_release]
  exact release_chain ho

theorem failJfce_done (ho : Owns s.ledger [] s.jfceRefs) : ProviderDone s s.failJfce := by
  refine ProviderDone.falls .jfce s.jfce (failCtx_done ?_) rfl rfl rfl
  have hrest := release_chain ho
  rw [release_eq] at hrest ⊢
  exact hrest

theorem failJfc_done (ho : Owns s.ledger [] s.jfcRefs) : ProviderDone s s.failJfc := by
  refine ProviderDone.falls .jfc s.jfc (failJfce_done ?_) rfl rfl rfl
  have hrest := release_chain ho
  rw [release_eq] at hrest ⊢
  exact hrest

theorem failJfr_done (ho : Owns s.ledger [] s.jfrRefs) : ProviderDone s s.failJfr := by
  refine ProviderDone.falls .jfr s.jfr (failJfc_done ?_) rfl rfl rfl
  have hrest := release_chain ho
  rw [release_eq] at hrest ⊢
  exact hrest

theorem failJetty_done (ho : Owns s.ledger [] s.jettyRefs) : ProviderDone s s.failJetty := by
  refine ProviderDone.falls .jetty s.jetty (failJfr_done ?_) rfl rfl rfl
  have hrest := release_chain ho
  rw [release_eq] at hrest ⊢
  exact hrest

theorem registerSeg_done (ho : Owns s.ledger [] s.jettyRefs) :
    ProviderDone s (s.registerSeg env) := by
  unfold registerSeg
  cases hok : env.segment with
  | false =>
      have hfail := failJetty_done (s := { s with mgr := { s.mgr with localTseg := none } }) ho
      exact hfail.of_eq ⟨none, rfl⟩ rfl rfl
  | true =>
      refine ⟨⟨true, _, rfl⟩, rfl, rfl, fun _ => ⟨?_, rfl⟩, fun _ => ⟨_, rfl⟩,
        fun h => absurd rfl h⟩
      refine create_chain ho .segment true ?_
      intro q hq
      simp only [jettyRefs, jfrRefs, jfcRefs, jfceRefs, ctxRefs, List.mem_append]
      tauto

theorem createJetty_done (ho : Owns s.ledger [] s.jfrRefs) :
    ProviderDone s (s.createJetty env) := by
  unfold createJetty
  cases hok : env.jetty with
  | false =>
      exact (failJfr_done (s := { s with jetty := none }) ho).of_eq ⟨_, rfl⟩ rfl rfl
  | true =>
      refine ProviderDone.of_eq (registerSeg_done ?_) ⟨_, rfl⟩ rfl rfl
      refine create_chain ho .jetty true ?_
      intro q hq
      simp only [jfrRefs, jfcRefs, jfceRefs, ctxRefs, List.mem_append] at hq ⊢
      tauto

theorem createJfr_done (ho : Owns s.ledger [] s.jfcRefs) : ProviderDone s (s.createJfr env) := by
  unfold createJfr
  cases hok : env.jfr with
  | false =>
      exact (failJfc_done (s := { s with jfr := none }) ho).of_eq ⟨_, rfl⟩ rfl rfl
  | true =>
      refine ProviderDone.of_eq (createJetty_done ?_) ⟨_, rfl⟩ rfl rfl
      refine create_chain ho .jfr true ?_
      intro q hq
      simp only [jfcRefs, jfceRefs, ctxRefs, List.mem_append] at hq ⊢
      tauto

theorem createJfc_done (ho : Owns s.ledger [] s.jfceRefs) : ProviderDone s (s.createJfc env) := by
  unfold createJfc
  cases hok : env.jfc with
  | false =>
      exact (failJfce_done (s := { s with jfc := none }) ho).of_eq ⟨_, rfl⟩ rfl rfl
  | true =>
      refine ProviderDone.of_eq (createJfr_done ?_) ⟨_, rfl⟩ rfl rfl
      refine create_chain ho .jfc true ?_
      intro q hq
      simp only [jfceRefs, ctxRefs, List.mem_append] at hq ⊢
      tauto

theorem createJfce_done (ho : Owns s.ledger [] s.ctxRefs) : ProviderDone s (s.createJfce env) := by
  unfold createJfce
  cases hok : env.jfce with
  | false =>
      exact (failCtx_done (s := { s with jfce := none }) ho).of_eq ⟨_, rfl⟩ rfl rfl
  | true =>
      refine ProviderDone.of_eq (createJfc_done ?_) ⟨_, rfl⟩ rfl rfl
      refine create_chain ho .jfce true ?_
      intro q hq
      exact List.mem_append_left _ hq

theorem createContext_done (ho : Owns s.ledger [] s.initRefs) :
    ProviderDone s (s.createContext env) := by
  unfold createContext
  cases hok : env.context with
  | false =>
      exact (urmaUninit_done (s := { s with urmaCtx := none }) (by decide) ho).of_eq ⟨_, rfl⟩
        rfl rfl
  | true =>
      refine ProviderDone.of_eq (createJfce_done ?_) ⟨_, rfl⟩ rfl rfl
      exact create_chain ho .context true fun q hq => hq

/-- An error code of the part before the context is not 0. -/
theorem selectDevice_error {rc : Int} (h : s.selectDevice env = .error rc) : rc ≠ 0 := by
  unfold selectDevice at h
  dsimp only at h
  repeat' split at h
  all_goals first
    | (cases h; done)
    | (obtain rfl := Except.error.inj h; decide)
    | (obtain rfl := Except.error.inj h; omega)

/-- **`real_init_provider`** acquires all of the provider's handles or none. -/
theorem realInitProvider_done (env : InitEnv) (ho : Owns s.ledger [] []) (hurma : s.urma = none) :
    ProviderDone s (s.realInitProvider env) := by
  unfold realInitProvider
  split
  · have hne : (- EIO : Int) ≠ 0 := by decide
    exact ⟨⟨_, _, rfl⟩, rfl, rfl, fun h => absurd h hne, fun h => absurd h hne,
      fun _ => ⟨ho, hurma, rfl⟩⟩
  · have hinit : Owns (s.create .init [] true).ledger [] (ref .init (s.created true)) := by
      rw [← List.append_nil (ref .init _)]
      exact create_chain ho .init true (by rintro q ⟨⟩)
    dsimp only
    split
    next rc hrc => exact (urmaUninit_done (selectDevice_error hrc) hinit).of_eq ⟨_, rfl⟩ rfl rfl
    next => exact (createContext_done hinit).of_eq ⟨_, rfl⟩ rfl rfl

/-! ### The peer table -/

/-- The handles of all peers are those of slot `k` and those of the others. -/
theorem peerRefs_perm (peers : Slot → Peer) (k : Slot) :
    (peerRefs peers).Perm (peerHandles (peers k) ++
      ((List.finRange maxPeers).erase k).flatMap fun k => peerHandles (peers k)) := by
  have hperm : (List.finRange maxPeers).Perm (k :: (List.finRange maxPeers).erase k) :=
    List.perm_cons_erase (List.mem_finRange k)
  exact hperm.flatMap_right _

/-- Putting `p` into an empty slot, or emptying the slot of `p`. -/
theorem peerRefs_update {peers : Slot → Peer} {k : Slot} (p : Peer)
    (hempty : peerHandles (peers k) = []) :
    (peerRefs (update peers k p)).Perm (peerHandles p ++ peerRefs peers) := by
  have hrest : ((List.finRange maxPeers).erase k).flatMap
        (fun k' => peerHandles (update peers k p k')) =
      ((List.finRange maxPeers).erase k).flatMap fun k' => peerHandles (peers k') := by
    refine List.flatMap_congr ?_
    intro k' hk'
    have hne : k' ≠ k := by
      rintro rfl
      exact ((List.nodup_finRange maxPeers).mem_erase_iff.mp hk').1 rfl
    rw [update_of_ne hne]
  have hnew := peerRefs_perm (update peers k p) k
  have hold := peerRefs_perm peers k
  rw [update_self, hrest] at hnew
  rw [hempty, List.nil_append] at hold
  exact hnew.trans (hold.symm.append_left _)

/-- `real_destroy_peer` and the free of the buffer release what the peer has. -/
theorem destroyPeer_owns {p : Peer} (ho : Owns s.ledger (peerHandles p ++ leaves) chain) :
    Owns ((s.realDestroyPeer p).1.release .hbm p.mockHbm).ledger leaves chain := by
  rw [peerHandles, List.append_assoc, List.append_assoc] at ho
  exact release_leaf (release_leaf (release_leaf ho))

/-- The undo of a connect does so in another order. -/
theorem dropPeer_owns {p : Peer} (ho : Owns s.ledger (peerHandles p ++ leaves) chain) :
    Owns (s.dropPeer p).ledger leaves chain := by
  have hperm : (peerHandles p ++ leaves).Perm
      (ref .hbm p.mockHbm ++
        (ref .importJetty p.tJetty ++ (ref .importSeg p.importTseg ++ leaves))) := by
    rw [peerHandles, ← List.append_assoc, ← List.append_assoc, ← List.append_assoc]
    refine List.Perm.append_right leaves ?_
    rw [List.append_assoc _ _ (ref .importSeg p.importTseg)]
    exact List.perm_append_comm
  exact release_leaf (release_leaf (release_leaf (ho.perm hperm)))

/-! ### Between two calls -/

/-- What the provider holds: all of its handles once it is set up. -/
def heldRefs (s : Host) : List (Kind × Handle) :=
  if s.mgr.realInitialized then s.providerRefs else []

/-- An initialised manager owns the handles in its fields. -/
structure Ready (s : Host) : Prop where
  owns : Owns s.ledger (peerRefs s.mgr.peers) s.heldRefs
  inactive : ∀ k, (s.mgr.peers k).active = false → peerHandles (s.mgr.peers k) = []
  provider : s.mgr.realInitialized = false → s.urma = none

/-- Any other manager owns nothing. -/
structure Empty (s : Host) : Prop where
  owns : Owns s.ledger [] []
  urma : s.urma = none

structure HostInv (s : Host) : Prop where
  ready : s.initialized = true → s.Ready
  empty : s.initialized = false → s.Empty

theorem HostInv.of_ready (h : s.Ready) (hinit : s.initialized = true) : HostInv s :=
  ⟨fun _ => h, fun h' => absurd (hinit.symm.trans h') (by decide)⟩

theorem HostInv.of_empty (h : s.Empty) (hinit : s.initialized = false) : HostInv s :=
  ⟨fun h' => absurd (hinit.symm.trans h') (by decide), fun _ => h⟩

/-! ### Destruction -/

theorem peerHandles_eq_nil {p : Peer} (h : peerHandles p = []) :
    p.tJetty = none ∧ p.importTseg = none ∧ p.mockHbm = none := by
  simp only [peerHandles, ref, List.append_eq_nil_iff, List.map_eq_nil_iff,
    Option.toList_eq_nil_iff] at h
  exact h

theorem withoutImports {p : Peer} (hjetty : p.tJetty = none) (hseg : p.importTseg = none) :
    { p with tJetty := none, importTseg := none } = p := by
  cases p
  cases hjetty
  cases hseg
  rfl

/-- A step that touches the peers and the ledger only. -/
def PeersOnly (s t : Host) : Prop :=
  t = { s with ledger := t.ledger, mgr := { s.mgr with peers := t.mgr.peers } }

theorem PeersOnly.trans {u : Host} (h : PeersOnly s t) (h' : PeersOnly t u) : PeersOnly s u := by
  unfold PeersOnly at h h' ⊢
  rw [h', h]

/-- One slot of the loop in `ramdisk_urma_mgr_destroy`. -/
theorem destroySlot_spec {k : Slot}
    (ho : Owns s.ledger (peerHandles (s.mgr.peers k) ++ leaves) chain)
    (hin : (s.mgr.peers k).active = false → peerHandles (s.mgr.peers k) = []) :
    Owns (s.destroySlot k).ledger leaves chain ∧
      peerHandles ((s.destroySlot k).mgr.peers k) = [] ∧
      (∀ k' ≠ k, (s.destroySlot k).mgr.peers k' = s.mgr.peers k') ∧
      PeersOnly s (s.destroySlot k) := by
  unfold destroySlot
  cases hactive : (s.mgr.peers k).active with
  | false =>
      rw [hin hactive, List.nil_append] at ho
      exact ⟨ho, hin hactive, fun _ _ => rfl, rfl⟩
  | true =>
      simp only [if_true]
      refine ⟨destroyPeer_owns ho, ?_, ?_, ?_⟩
      · simp only [setPeer, update_self]
        rfl
      · intro k' hne
        simp only [setPeer, update_of_ne hne, mgr_release, realDestroyPeer]
      · unfold PeersOnly
        simp only [setPeer, realDestroyPeer]
        rw [release_eq, release_eq (s.release _ _), release_eq s]

/-- The loop in `ramdisk_urma_mgr_destroy`. -/
theorem destroySlots_spec (slots : List Slot) (hnodup : slots.Nodup)
    (ho : Owns s.ledger (slots.flatMap fun k => peerHandles (s.mgr.peers k)) chain)
    (hin : ∀ k, (s.mgr.peers k).active = false → peerHandles (s.mgr.peers k) = []) :
    Owns (slots.foldl destroySlot s).ledger [] chain ∧
      (∀ k ∈ slots, peerHandles ((slots.foldl destroySlot s).mgr.peers k) = []) ∧
      (∀ k ∉ slots, (slots.foldl destroySlot s).mgr.peers k = s.mgr.peers k) ∧
      PeersOnly s (slots.foldl destroySlot s) := by
  induction slots generalizing s with
  | nil => exact ⟨ho, by rintro k ⟨⟩, fun _ _ => rfl, rfl⟩
  | cons k slots ih =>
      obtain ⟨hk, hnodup⟩ := List.nodup_cons.mp hnodup
      rw [List.flatMap_cons] at ho
      obtain ⟨ho', hempty, hothers, honly⟩ := destroySlot_spec ho (hin k)
      have hrest : (slots.flatMap fun k' => peerHandles (s.mgr.peers k')) =
          slots.flatMap fun k' => peerHandles ((s.destroySlot k).mgr.peers k') := by
        refine List.flatMap_congr ?_
        intro k' hk'
        rw [hothers k' (fun e => hk (e ▸ hk'))]
      rw [hrest] at ho'
      have hin' : ∀ k', ((s.destroySlot k).mgr.peers k').active = false →
          peerHandles ((s.destroySlot k).mgr.peers k') = [] := by
        intro k' hk'
        by_cases e : k' = k
        · rw [e]
          exact hempty
        · rw [hothers k' e] at hk' ⊢
          exact hin k' hk'
      obtain ⟨ho'', hin'', hothers', honly'⟩ := ih hnodup ho' hin'
      refine ⟨ho'', ?_, ?_, honly.trans honly'⟩
      · intro k' hk'
        rcases List.mem_cons.mp hk' with rfl | hk'
        · rw [List.foldl_cons, hothers' k' hk]
          exact hempty
        · exact hin'' k' hk'
      · intro k' hk'
        rw [List.mem_cons, not_or] at hk'
        rw [List.foldl_cons, hothers' k' hk'.2, hothers k' hk'.1]

/-- After that loop, the one in `real_destroy_provider` finds nothing. -/
theorem realDestroySlots_eq (slots : List Slot)
    (hempty : ∀ k, peerHandles (s.mgr.peers k) = []) : slots.foldl realDestroySlot s = s := by
  induction slots with
  | nil => rfl
  | cons k slots ih =>
      have hone : s.realDestroySlot k = s := by
        obtain ⟨hjetty, hseg, -⟩ := peerHandles_eq_nil (hempty k)
        simp only [realDestroySlot, realDestroyPeer, withoutImports hjetty hseg, hjetty, hseg,
          release, setPeer, update_eq_self]
      rw [List.foldl_cons, hone]
      exact ih

/-- The provider releases its handles from the segment down to `urma_init`. -/
theorem realDestroyProvider_spec (ho : Owns s.ledger [] s.heldRefs)
    (hurma : s.mgr.realInitialized = false → s.urma = none)
    (hempty : ∀ k, peerHandles (s.mgr.peers k) = []) :
    s.realDestroyProvider.Empty := by
  unfold realDestroyProvider
  unfold heldRefs at ho
  cases hreal : s.mgr.realInitialized with
  | false =>
      rw [hreal] at ho
      exact ⟨ho, hurma hreal⟩
  | true =>
      rw [hreal, if_pos rfl] at ho
      simp only [Bool.not_true, Bool.false_eq_true, if_false, realDestroySlots_eq _ hempty,
        urmaUninit, mgr_release, jetty_release, jfr_release, jfc_release, jfce_release,
        urmaCtx_release, urma_release]
      refine ⟨?_, rfl⟩
      have hctx := release_chain (release_chain (release_chain (release_chain
        (release_chain (release_chain ho)))))
      refine release_chain ?_
      rw [List.append_nil]
      exact hctx

theorem PeersOnly.fields (h : PeersOnly s t) : t.heldRefs = s.heldRefs ∧ t.urma = s.urma ∧
    t.mgr.realInitialized = s.mgr.realInitialized := by
  unfold PeersOnly at h
  rw [h]
  exact ⟨rfl, rfl, rfl⟩

theorem stopWorker_ready (h : s.Ready) : s.stopWorker.Ready := by
  unfold stopWorker
  split
  · exact ⟨h.owns, h.inactive, h.provider⟩
  · exact h

/-- **`ramdisk_urma_mgr_destroy`** leaves nothing behind. -/
theorem mgrDestroy_empty (h : HostInv s) :
    s.mgrDestroy.Empty ∧ s.mgrDestroy.initialized = false := by
  unfold mgrDestroy
  cases hinit : s.initialized with
  | false => exact ⟨h.empty hinit, hinit⟩
  | true =>
      refine ⟨?_, rfl⟩
      have hready := stopWorker_ready (h.ready hinit)
      obtain ⟨ho, hempty, -, honly⟩ :=
        destroySlots_spec _ (List.nodup_finRange maxPeers) hready.owns hready.inactive
      obtain ⟨hheld, hurma, hreal⟩ := honly.fields
      rw [← hheld] at ho
      have hprovider := hready.provider
      rw [← hreal, ← hurma] at hprovider
      obtain ⟨ho', hurma'⟩ :=
        realDestroyProvider_spec ho hprovider fun k => hempty k (List.mem_finRange k)
      exact ⟨ho', hurma'⟩

/-! ### Initialisation -/

theorem cleared_empty (h : s.Empty) : s.cleared.Empty := ⟨h.owns, h.urma⟩

/-- A manager without peers is ready when the provider is. -/
theorem ready_of_noPeers (hpeers : s.mgr.peers = fun _ => Peer.cleared)
    (ho : Owns s.ledger [] s.heldRefs) (hurma : s.mgr.realInitialized = false → s.urma = none) :
    s.Ready := by
  refine ⟨?_, ?_, hurma⟩
  · have hnone : peerRefs s.mgr.peers = [] := by
      rw [hpeers]
      exact List.flatMap_eq_nil_iff.mpr fun _ _ => rfl
    rw [hnone]
    exact ho
  · intro k _
    rw [hpeers]
    rfl

/-- `pthread_create` succeeds, or everything is released. -/
theorem startWorker_inv (h : s.Ready) (hinit : s.initialized = true) :
    HostInv (s.startWorker env).2 ∧
      ((s.startWorker env).1 ≠ 0 → (s.startWorker env).2.initialized = false) := by
  unfold startWorker
  split
  · obtain ⟨hempty, hoff⟩ := mgrDestroy_empty (HostInv.of_ready h hinit)
    exact ⟨HostInv.of_empty hempty hoff, fun _ => hoff⟩
  · exact ⟨HostInv.of_ready ⟨h.owns, h.inactive, h.provider⟩ hinit, fun hrc => absurd rfl hrc⟩

/-- **`ramdisk_urma_mgr_init`** leaves a manager that is ready, or nothing. -/
theorem mgrInit_inv (backend : Backend) (cfg : Option HostConfig) (env : InitEnv) (h : s.Empty)
    (hoff : s.initialized = false) : HostInv (s.mgrInit backend cfg env).2 ∧
      ((s.mgrInit backend cfg env).1 ≠ 0 →
        (s.mgrInit backend cfg env).2.initialized = false) := by
  unfold mgrInit
  split
  · exact ⟨HostInv.of_empty h hoff, fun _ => hoff⟩
  split
  · exact ⟨HostInv.of_empty (cleared_empty h) rfl, fun _ => rfl⟩
  split
  · exact ⟨HostInv.of_empty (cleared_empty h) rfl, fun _ => rfl⟩
  split
  · exact ⟨HostInv.of_empty (cleared_empty h) rfl, fun _ => rfl⟩
  dsimp only
  split
  · -- mock mode has no provider
    refine startWorker_inv (ready_of_noPeers rfl h.owns fun _ => h.urma) rfl
  · have hdone := realInitProvider_done (s := s.filled cfg) env h.owns h.urma
    obtain ⟨r, l, hmgr⟩ := hdone.mgr
    split
    next t heq =>
      rw [heq] at hdone hmgr
      obtain ⟨ho, hreal⟩ := hdone.ok rfl
      refine startWorker_inv (ready_of_noPeers ?_ ?_ ?_) hdone.initialized
      · exact congrArg Mgr.peers hmgr
      · unfold heldRefs
        rw [show t.mgr.realInitialized = true from hreal, if_pos rfl]
        exact ho
      · intro hno
        exact absurd (hreal.symm.trans hno) (by decide)
    next rc t hne heq =>
      rw [heq] at hdone hmgr
      obtain ⟨ho, hurma, hreal⟩ := hdone.failed hne
      have hready : t.Ready := by
        refine ready_of_noPeers (congrArg Mgr.peers hmgr) ?_ fun _ => hurma
        unfold heldRefs
        rw [show t.mgr.realInitialized = false from hreal]
        exact ho
      obtain ⟨hempty, hoff'⟩ := mgrDestroy_empty (HostInv.of_ready hready hdone.initialized)
      exact ⟨HostInv.of_empty hempty hoff', fun _ => hoff'⟩

/-- What a successful `ramdisk_urma_mgr_init` leaves is an initialised manager the
daemon's model starts from. -/
theorem mgrInit_initial {backend : Backend} {cfg : Option HostConfig} (h : s.Empty)
    (hlive : backend.Live) (hres : s.mgrInit backend cfg env = (0, t)) :
    t.initialized = true ∧ Initial (Sys.start backend t.mgr) := by
  -- a worker that could not be started is an error
  have hstart : ∀ u : Host, u.startWorker env = (0, t) →
      t.initialized = u.initialized ∧ t.mgr = u.mgr := by
    intro u hu
    unfold startWorker at hu
    split_ifs at hu with hrc
    · have := congrArg Prod.fst hu
      simp only at this
      omega
    · exact ⟨(congrArg (fun r => r.2.initialized) hu).symm, (congrArg (fun r => r.2.mgr) hu).symm⟩
  unfold mgrInit at hres
  rw [hlive.initialized] at hres
  simp only [Bool.not_true, Bool.false_eq_true, if_false] at hres
  split_ifs at hres with hdepth hqueue hmutex hmock
  · cases hres
  · cases hres
  · have := congrArg Prod.fst hres
    simp only at this
    omega
  · obtain ⟨hinit, hmgr⟩ := hstart _ hres
    refine ⟨hinit, backend, t.mgr, cfg.map HostConfig.config, true, 0, .error 0, 0, hlive, ?_, rfl⟩
    have hmock' : (Mgr.fresh (cfg.map HostConfig.config)).useMock = true := hmock
    unfold ramdiskUrmaMgrInit
    rw [if_neg hdepth, if_neg (by decide), if_neg (by decide), if_pos hmock', hmgr]
    rfl
  · have hdone := realInitProvider_done (s := s.filled cfg) env h.owns h.urma
    split at hres
    next u heq =>
      rw [heq] at hdone
      obtain ⟨r, l, hmgr⟩ := hdone.mgr
      obtain ⟨seg, hseg⟩ := hdone.segment rfl
      have hreal := (hdone.ok rfl).2
      obtain ⟨hinit, hmgr'⟩ := hstart _ hres
      refine ⟨hinit.trans hdone.initialized, backend, t.mgr, cfg.map HostConfig.config, true, 0,
        .ok seg, 0, hlive, ?_, rfl⟩
      have hmock' : ¬ (Mgr.fresh (cfg.map HostConfig.config)).useMock = true := hmock
      have ht : t.mgr = { Mgr.fresh (cfg.map HostConfig.config) with
          realInitialized := true, localTseg := some seg } := by
        dsimp only at hmgr hseg hreal
        rw [hmgr', ← hreal, ← hseg, hmgr]
        rfl
      unfold ramdiskUrmaMgrInit
      rw [if_neg hdepth, if_neg (by decide), if_neg (by decide), if_neg hmock', ht]
      rfl
    next rc u hne heq =>
      exact absurd (congrArg Prod.fst hres) hne

/-! ### Peers come and go -/

/-- Only the ledger notices `real_destroy_peer` and the free of the buffer. -/
theorem destroyPeer_eq (s : Host) (p : Peer) :
    (s.realDestroyPeer p).1.release .hbm p.mockHbm =
      { s with ledger := ((s.realDestroyPeer p).1.release .hbm p.mockHbm).ledger } := by
  unfold realDestroyPeer
  rw [release_eq, release_eq (s.release _ _), release_eq s]

theorem heldRefs_dropPeer (s : Host) (p : Peer) : (s.dropPeer p).heldRefs = s.heldRefs := by
  unfold dropPeer realDestroyPeer
  rw [release_eq, release_eq (s.release _ _), release_eq s]
  rfl

theorem fields_dropPeer (s : Host) (p : Peer) : (s.dropPeer p).mgr = s.mgr ∧
    (s.dropPeer p).urma = s.urma ∧ (s.dropPeer p).initialized = s.initialized := by
  unfold dropPeer realDestroyPeer
  rw [release_eq, release_eq (s.release _ _), release_eq s]
  exact ⟨rfl, rfl, rfl⟩

/-- What is known in the locked section of a connect: the manager's handles and
those of the new peer. -/
structure Connecting (s : Host) (p : Peer) : Prop where
  owns : Owns s.ledger (peerHandles p ++ peerRefs s.mgr.peers) s.heldRefs
  active : p.active = true
  inactive : ∀ k, (s.mgr.peers k).active = false → peerHandles (s.mgr.peers k) = []
  provider : s.mgr.realInitialized = false → s.urma = none
  initialized : s.initialized = true

theorem Connecting.drop {p : Peer} (h : Connecting s p) : HostInv (s.dropPeer p) := by
  obtain ⟨hmgr, hurma, hinit⟩ := fields_dropPeer s p
  refine HostInv.of_ready ⟨?_, ?_, ?_⟩ (hinit.trans h.initialized)
  · rw [hmgr, heldRefs_dropPeer]
    exact dropPeer_owns h.owns
  · rw [hmgr]
    exact h.inactive
  · rw [hmgr, hurma]
    exact h.provider

/-- The new peer is put into a free slot, or dropped. -/
theorem Connecting.locked {p : Peer} (h : Connecting s p) : HostInv (s.connectLocked p).2 := by
  unfold connectLocked
  split
  · exact h.drop
  split
  · exact h.drop
  split
  · exact h.drop
  next k hfree =>
    refine HostInv.of_ready ⟨?_, ?_, h.provider⟩ h.initialized
    · have hempty := h.inactive k (findFreeSlot_some hfree)
      exact h.owns.perm (peerRefs_update p hempty).symm
    · intro k' hk'
      by_cases e : k' = k
      · subst e
        simp only [setPeer, update_self] at hk'
        cases h.active.symm.trans hk'
      · simp only [setPeer, update_of_ne e] at hk' ⊢
        exact h.inactive k' hk'

/-- `real_import_peer` acquires both imports or none. -/
theorem realImportPeer_spec {p : Peer} (out : ConnectOutcome) (h : s.Ready)
    (hinit : s.initialized = true) (hactive : p.active = true) (hnone : peerHandles p = []) :
    (∀ p' t, s.realImportPeer p out = (.ok p', t) → Connecting t p') ∧
      ∀ rc t, s.realImportPeer p out = (.error rc, t) → HostInv t := by
  obtain ⟨-, -, hbuf⟩ := peerHandles_eq_nil hnone
  unfold realImportPeer
  cases hreal : s.mgr.realInitialized with
  | false =>
      refine ⟨by rintro p' t ⟨⟩, ?_⟩
      rintro rc t ⟨⟩
      exact HostInv.of_ready h hinit
  | true =>
      have hheld : s.heldRefs = s.providerRefs := by
        unfold heldRefs
        rw [hreal, if_pos rfl]
      have hctx : ∀ q ∈ ref .context s.urmaCtx, q ∈ s.heldRefs := by
        intro q hq
        rw [hheld]
        simp only [providerRefs, jettyRefs, jfrRefs, jfcRefs, jfceRefs, ctxRefs, List.mem_append]
        tauto
      cases hseg : out.importSeg with
      | false =>
          refine ⟨by rintro p' t ⟨⟩, ?_⟩
          rintro rc t ⟨⟩
          exact HostInv.of_ready h hinit
      | true =>
          have hone := create_leaf h.owns .importSeg true hctx
          cases hjetty : out.importJetty with
          | false =>
              refine ⟨by rintro p' t ⟨⟩, ?_⟩
              rintro rc t ⟨⟩
              exact HostInv.of_ready ⟨release_leaf hone, h.inactive, h.provider⟩ hinit
          | true =>
              refine ⟨?_, by rintro rc t ⟨⟩⟩
              rintro p' t ⟨⟩
              have htwo := create_leaf (s := s.create .importSeg (ref .context s.urmaCtx) true)
                hone .importJetty true hctx
              refine ⟨?_, hactive, h.inactive, h.provider, hinit⟩
              simp only [peerHandles, hbuf]
              exact htwo

/-- **`ramdisk_urma_peer_connect`** keeps the invariant. -/
theorem peerConnect_inv (info : PeerConnectInfo) (out : ConnectOutcome) (h : HostInv s) :
    HostInv (s.peerConnect info out).2 := by
  unfold peerConnect
  cases hinit : s.initialized with
  | false => exact h
  | true =>
      have hready := h.ready hinit
      dsimp only
      rw [if_neg (by decide)]
      split
      · exact h
      split
      · split
        · exact h
        · refine Connecting.locked ⟨?_, rfl, hready.inactive, hready.provider, hinit⟩
          exact create_leaf hready.owns .hbm true (by rintro q ⟨⟩)
      · obtain ⟨hok, herr⟩ := realImportPeer_spec out hready hinit
          (p := Peer.ofInfo info s.ledger.next) rfl rfl
        split
        next rc t heq => exact herr rc t heq
        next p t heq => exact (hok p t heq).locked

/-- **`ramdisk_urma_peer_disconnect`** keeps the invariant. -/
theorem peerDisconnect_inv (peerId : UInt64) (h : HostInv s) :
    HostInv (s.peerDisconnect peerId).2 := by
  unfold peerDisconnect
  split
  · exact h
  next hcond =>
    have hinit : s.initialized = true := by
      cases hinit : s.initialized with
      | true => rfl
      | false => simp [hinit] at hcond
    have hready := h.ready hinit
    split
    · exact h
    next k hfind =>
      have hempty : peerHandles (update s.mgr.peers k Peer.cleared k) = [] := by
        rw [update_self]
        rfl
      have hperm := peerRefs_update (s.mgr.peers k) hempty
      rw [update_idem, update_eq_self] at hperm
      have ho := destroyPeer_owns (s := s.setPeer k Peer.cleared) (hready.owns.perm hperm)
      dsimp only
      rw [destroyPeer_eq]
      refine HostInv.of_ready ⟨ho, ?_, hready.provider⟩ hinit
      intro k' hk'
      by_cases e : k' = k
      · subst e
        exact hempty
      · simp only [setPeer, update_of_ne e] at hk' ⊢
        exact hready.inactive k' hk'

/-- The flag has nothing to do with handles. -/
theorem HostInv.setEnabled (h : HostInv s) (enabled : Bool) :
    HostInv { s with mgr := { s.mgr with enabled := enabled } } := by
  refine ⟨?_, ?_⟩
  · intro hinit
    obtain ⟨ho, hin, hprov⟩ := h.ready hinit
    exact ⟨ho, hin, hprov⟩
  · intro hinit
    obtain ⟨ho, hurma⟩ := h.empty hinit
    exact ⟨ho, hurma⟩

/-! ### Runs -/

/-- **One call**: the invariant is kept, and a call that ends the manager's life
leaves it not initialised. -/
theorem HostInv.call {a : Api} {rc : Int} (h : HostInv s) (hcall : s.call a = some (rc, t)) :
    HostInv t ∧ (a = .mgrDestroy → t.initialized = false) ∧
      ((∃ backend cfg out, a = .mgrInit backend cfg out) → rc ≠ 0 → t.initialized = false) := by
  cases a with
  | mgrInit backend cfg out =>
      simp only [Host.call] at hcall
      split_ifs at hcall with hinit
      have hoff : s.initialized = false := by simpa using hinit
      have hres := Option.some.inj hcall
      have hboth := mgrInit_inv backend cfg out (h.empty hoff) hoff
      rw [hres] at hboth
      exact ⟨hboth.1, by rintro ⟨⟩, fun _ => hboth.2⟩
  | mgrDestroy =>
      cases hcall
      obtain ⟨hempty, hoff⟩ := mgrDestroy_empty h
      exact ⟨HostInv.of_empty hempty hoff, fun _ => hoff, by rintro ⟨_, _, _, ⟨⟩⟩⟩
  | enable =>
      refine ⟨?_, by rintro ⟨⟩, by rintro ⟨_, _, _, ⟨⟩⟩⟩
      simp only [Host.call, Host.enable] at hcall
      split at hcall
      next =>
        cases hcall
        exact h
      next =>
        cases hcall
        exact h.setEnabled true
  | disable =>
      refine ⟨?_, by rintro ⟨⟩, by rintro ⟨_, _, _, ⟨⟩⟩⟩
      simp only [Host.call, Host.disable] at hcall
      split at hcall
      next =>
        cases hcall
        exact h
      next =>
        cases hcall
        exact h.setEnabled false
  | peerConnect info out =>
      refine ⟨?_, by rintro ⟨⟩, by rintro ⟨_, _, _, ⟨⟩⟩⟩
      have hres := Option.some.inj hcall
      have hinv := peerConnect_inv info out h
      rw [hres] at hinv
      exact hinv
  | peerDisconnect peerId =>
      refine ⟨?_, by rintro ⟨⟩, by rintro ⟨_, _, _, ⟨⟩⟩⟩
      have hres := Option.some.inj hcall
      have hinv := peerDisconnect_inv peerId h
      rw [hres] at hinv
      exact hinv

theorem step_call {a : Api} (h : s.step a = some t) : ∃ rc, s.call a = some (rc, t) := by
  obtain ⟨⟨rc, t'⟩, hcall, rfl⟩ := Option.map_eq_some_iff.mp h
  exact ⟨rc, hcall⟩

theorem start_inv : HostInv Host.start :=
  HostInv.of_empty ⟨Owns.empty, rfl⟩ rfl

theorem run_inv {as : List Api} (hrun : run Host.step Host.start as = some s) : HostInv s := by
  refine run_invariant (I := HostInv) start_inv ?_ (runOk_trivial Host.start as) hrun
  intro s a t hs _ hstep
  obtain ⟨rc, hcall⟩ := step_call hstep
  exact (hs.call hcall).1

/-! ### The result -/

/-- The manager's peer in slot `k`, of an initialised manager. -/
def ActivePeer (s : Host) (p : Peer) : Prop :=
  s.initialized = true ∧ ∃ k, s.mgr.peers k = p ∧ p.active = true

/-- The live imports and buffers are exactly those of the active peers, every
handle was released at most once and after everything created from it, and a
manager that is not initialised has left nothing. -/
structure OwnedExactly (s : Host) : Prop where
  segments : ∀ h, Live s.ledger.log (.importSeg, h) ↔
    ∃ p, s.ActivePeer p ∧ p.importTseg = some h
  jetties : ∀ h, Live s.ledger.log (.importJetty, h) ↔ ∃ p, s.ActivePeer p ∧ p.tJetty = some h
  buffers : ∀ h, Live s.ledger.log (.hbm, h) ↔ ∃ p, s.ActivePeer p ∧ p.mockHbm = some h
  disciplined : Disciplined s.ledger.log
  once : ∀ h, s.ledger.log.count (.release h) ≤ 1
  nothing : s.initialized = false → ∀ h, ¬ Live s.ledger.log h

theorem mem_peerRefs {peers : Slot → Peer} {q : Kind × Handle} :
    q ∈ peerRefs peers ↔ ∃ k, q ∈ peerHandles (peers k) := by
  simp only [peerRefs, List.mem_flatMap, List.mem_finRange, true_and]

/-- Of the handles that are live, those of a peer's kinds are the peers'. -/
theorem HostInv.live_iff (h : HostInv s) {kind : Kind} (field : Peer → Option Handle)
    (hkind : ∀ p x, (kind, x) ∈ peerHandles p ↔ field p = some x)
    (hprov : ∀ x, (kind, x) ∉ s.providerRefs) (x : Handle) :
    Live s.ledger.log (kind, x) ↔ ∃ p, s.ActivePeer p ∧ field p = some x := by
  cases hinit : s.initialized with
  | false =>
      rw [(h.empty hinit).owns.live]
      constructor
      · rintro ⟨⟩
      · rintro ⟨p, ⟨hon, -⟩, -⟩
        cases hinit.symm.trans hon
  | true =>
      have hready := h.ready hinit
      rw [hready.owns.live, List.mem_append]
      constructor
      · rintro (hmem | hmem)
        · obtain ⟨k, hk⟩ := mem_peerRefs.mp hmem
          refine ⟨s.mgr.peers k, ⟨hinit, k, rfl, ?_⟩, (hkind _ x).mp hk⟩
          by_contra hoff
          rw [hready.inactive k (by simpa using hoff)] at hk
          cases hk
        · unfold heldRefs at hmem
          split_ifs at hmem
          · exact absurd hmem (hprov x)
          · cases hmem
      · rintro ⟨p, ⟨-, k, rfl, -⟩, hfield⟩
        exact .inl (mem_peerRefs.mpr ⟨k, (hkind _ x).mpr hfield⟩)

theorem HostInv.disciplined (h : HostInv s) : Disciplined s.ledger.log := by
  cases hinit : s.initialized with
  | false => exact (h.empty hinit).owns.disciplined
  | true => exact (h.ready hinit).owns.disciplined

theorem HostInv.ownedExactly (h : HostInv s) : OwnedExactly s := by
  have hprov : ∀ k ∈ [Kind.importSeg, .importJetty, .hbm], ∀ x, (k, x) ∉ s.providerRefs := by
    intro k hk x hmem
    simp only [providerRefs, jettyRefs, jfrRefs, jfcRefs, jfceRefs, ctxRefs, initRefs,
      List.mem_append, mem_ref] at hmem
    rcases hmem with ⟨rfl, -⟩ | ⟨rfl, -⟩ | ⟨rfl, -⟩ | ⟨rfl, -⟩ | ⟨rfl, -⟩ | ⟨rfl, -⟩ | ⟨rfl, -⟩ <;>
      simp at hk
  refine ⟨?_, ?_, ?_, h.disciplined, h.disciplined.count_release_le, ?_⟩
  · refine h.live_iff Peer.importTseg ?_ (hprov .importSeg (by simp))
    intro p x
    simp [peerHandles, mem_ref]
  · refine h.live_iff Peer.tJetty ?_ (hprov .importJetty (by simp))
    intro p x
    simp [peerHandles, mem_ref]
  · refine h.live_iff Peer.mockHbm ?_ (hprov .hbm (by simp))
    intro p x
    simp [peerHandles, mem_ref]
  · intro hoff x hlive
    cases ((h.empty hoff).owns.live x).mp hlive

/-- The call ends the life of a manager: `ramdisk_urma_mgr_destroy`, or a
`ramdisk_urma_mgr_init` that fails. -/
def Ends (a : Api) (rc : Int) : Prop :=
  a = .mgrDestroy ∨ (∃ backend cfg out, a = .mgrInit backend cfg out) ∧ rc ≠ 0

/-- **Ownership over whole runs**: between any two calls of any run, the live
imports and buffers are those of the active peers and the log of all handles is
disciplined; and a call that ends the manager's life leaves no handle. -/
theorem resources_owned {as : List Api} (hrun : run Host.step Host.start as = some s) :
    OwnedExactly s ∧ ∀ a rc t, s.call a = some (rc, t) → Ends a rc →
      ∀ h, ¬ Live t.ledger.log h := by
  have hinv := run_inv hrun
  refine ⟨hinv.ownedExactly, ?_⟩
  intro a rc t hcall hends
  obtain ⟨hinv', hdestroy, hfail⟩ := hinv.call hcall
  refine hinv'.ownedExactly.nothing ?_
  rcases hends with hd | ⟨hinit, hrc⟩
  · exact hdestroy hd
  · exact hfail hinit hrc

/-! ### A small run in real mode -/

namespace Small

/-- The configuration: real mode, enabled, EID zero. -/
def realConfig : HostConfig := ⟨⟨true, false, 4⟩, some (List.replicate 32 48), 0⟩

/-- Everything succeeds, except `urma_create_jfr` if `jfr` is false. -/
def realEnv (jfr : Bool) : InitEnv :=
  ⟨true, 0, true, true, true, some [⟨List.replicate 16 0, 0⟩], true, true, true, jfr, true, true, 0⟩

/-- A failed initialisation and a successful one; peer 7 connects, a second time
without success, peer 8 fails to import its jetty, peer 9 connects and peer 7
leaves. -/
def realCalls : List Api :=
  [.mgrInit Urma.Small.backend (some realConfig) (realEnv false),
    .mgrInit Urma.Small.backend (some realConfig) (realEnv true),
    .peerConnect (Urma.Small.peer 7) ⟨true, true, true⟩,
    .peerConnect (Urma.Small.peer 7) ⟨true, true, true⟩,
    .peerConnect (Urma.Small.peer 8) ⟨true, true, false⟩,
    .peerConnect (Urma.Small.peer 9) ⟨true, true, true⟩, .peerDisconnect 7]

end Small

theorem resources_owned_small : ∃ s, run Host.step Host.start Small.realCalls = some s ∧
    s.initialized = true ∧ s.mgr.realInitialized = true ∧ (s.mgr.peers 1).peerId = 9 ∧
    (OwnedExactly s ∧ ∀ a rc t, s.call a = some (rc, t) → Ends a rc →
      ∀ h, ¬ Live t.ledger.log h) := by
  obtain ⟨s, hrun, hs⟩ := exists_of_run_any (δ := Host.step) Host.start Small.realCalls
    (fun s => s.initialized = true ∧ s.mgr.realInitialized = true ∧ (s.mgr.peers 1).peerId = 9)
    (by decide +kernel)
  obtain ⟨hinit, hreal, hpeer⟩ := of_decide_eq_true hs
  exact ⟨s, hrun, hinit, hreal, hpeer, resources_owned hrun⟩

end Host

end Urma

end DirectStorage
