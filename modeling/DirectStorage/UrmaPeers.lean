/-
DirectStorage/UrmaPeers.lean

Who holds which peer.

A peer and its mock HBM buffer are built by a connect call, installed in a
slot of the table, taken out again by a disconnect call and finally released.
At every moment at most one party holds it: the connect call, the slot or the
disconnect call.  `PeerView` is the table of holders together with the
buffers, `PeerStep` the five things a step can do to it, and `PeerInv` the
invariant: holders are exclusive, and what is held is well built, in
particular its buffer is allocated and as long as the segment.

`step_peerStep` says that the daemon refines this, and says which slot a step
vacates; that is what the isolation and transfer results look at.
-/
import DirectStorage.UrmaSystem
import DirectStorage.Ownership

namespace DirectStorage

namespace Urma

open Function

/-! ### Holders -/

/-- Who can hold a peer. -/
inductive Owner
  | slot (k : Slot)
  | call (c : CallId)
  deriving DecidableEq

/-- The peer a call has in a local variable. -/
def Call.heldPeer : Call → Option Peer
  | ⟨_, .locking p⟩ => some p
  | ⟨_, .releasing p⟩ => some p
  | _ => none

def Sys.held (s : Sys) : Owner → Option Peer
  | .slot k => if (s.mgr.peers k).active then some (s.mgr.peers k) else none
  | .call c => (s.calls c).bind Call.heldPeer

/-- Holders and buffers. -/
structure PeerView where
  mock : Bool
  held : Owner → Option Peer
  hbm : CallId → HbmBuf
  nextCall : CallId

def Sys.peerView (s : Sys) : PeerView := ⟨s.mgr.useMock, s.held, s.hbm, s.nextCall⟩

/-- Two buffers of the same length, both allocated or both not. -/
def SameShape (b b' : HbmBuf) : Prop := b'.live = b.live ∧ b'.len = b.len

/-- The buffers after `free(p.mock_hbm)`. -/
def freed (hbm : CallId → HbmBuf) : Option CallId → CallId → HbmBuf
  | none => hbm
  | some h => update hbm h { hbm h with live := false }

/-- A peer as connect builds it: in mock mode with an allocated buffer of the
segment's length, else with the imported segment at the segment's address. -/
def Peer.Built (mock : Bool) (hbm : CallId → HbmBuf) (p : Peer) : Prop :=
  match mock with
  | true => p.mockHbm = some p.conn ∧ (hbm p.conn).live = true ∧
      (hbm p.conn).len = p.segLen
  | false => p.mockHbm = none ∧ p.remoteSeg.va = p.segVa

/-- What a step can do to holders and buffers.  The index is the slot the step
vacates, if any. -/
inductive PeerStep (v : PeerView) : Option Slot → PeerView → Prop
  /-- At most the content of buffers changes. -/
  | keep (hbm : CallId → HbmBuf) (n : CallId) (hshape : ∀ h, SameShape (v.hbm h) (hbm h))
      (hn : v.nextCall ≤ n) : PeerStep v none { v with hbm := hbm, nextCall := n }
  /-- A connect call builds a peer. -/
  | build (p : Peer) (hbm : CallId → HbmBuf) (hactive : p.active = true)
      (hconn : p.conn = v.nextCall) (hbuilt : p.Built v.mock hbm)
      (hother : ∀ h, h ≠ v.nextCall → hbm h = v.hbm h) : PeerStep v none { v with
      held := update v.held (.call v.nextCall) (some p)
      hbm := hbm
      nextCall := v.nextCall + 1 }
  /-- The connect call puts its peer into a free slot. -/
  | install (c : CallId) (k : Slot) (p : Peer) (hc : v.held (.call c) = some p)
      (hk : v.held (.slot k) = none) : PeerStep v none { v with
      held := update (update v.held (.call c) none) (.slot k) (some p) }
  /-- A call releases its peer. -/
  | discard (c : CallId) (p : Peer) (hc : v.held (.call c) = some p) : PeerStep v none
      { v with
        held := update v.held (.call c) none
        hbm := freed v.hbm p.mockHbm }
  /-- A disconnect call takes the peer out of its slot. -/
  | vacate (k : Slot) (p : Peer) (hk : v.held (.slot k) = some p) : PeerStep v (some k)
      { v with
        held := update (update v.held (.slot k) none) (.call v.nextCall) (some p)
        nextCall := v.nextCall + 1 }

/-! ### The invariant -/

structure PeerInv (v : PeerView) : Prop where
  fresh : ∀ c, v.nextCall ≤ c → v.held (.call c) = none
  active : ∀ o p, v.held o = some p → p.active = true
  named : ∀ o p, v.held o = some p → p.conn < v.nextCall
  built : ∀ o p, v.held o = some p → p.Built v.mock v.hbm
  exclusive : Exclusive Peer.conn v.held

variable {v w : PeerView} {o : Option Slot}

/-- Whether a peer is well built depends on its own buffer's shape only. -/
theorem Peer.Built.congr {mock : Bool} {hbm hbm' : CallId → HbmBuf} {p : Peer}
    (h : p.Built mock hbm) (hshape : SameShape (hbm p.conn) (hbm' p.conn)) :
    p.Built mock hbm' := by
  cases mock with
  | true => exact ⟨h.1, hshape.1.trans h.2.1, hshape.2.trans h.2.2⟩
  | false => exact h

theorem sameShape_refl (b : HbmBuf) : SameShape b b := ⟨rfl, rfl⟩

/-- Writing the content of one buffer changes no shape. -/
theorem sameShape_update (hbm : CallId → HbmBuf) (b : CallId) (m : ByteMem) (h : CallId) :
    SameShape (hbm h) (update hbm b { hbm b with mem := m } h) := by
  by_cases e : h = b
  · subst e
    rw [update_self]
    exact ⟨rfl, rfl⟩
  · rw [update_of_ne e]
    exact sameShape_refl _

section UpdateOwner

variable (held : Owner → Option Peer) (e : Option Peer)

theorem update_call_slot (c : CallId) (k : Slot) :
    update held (.call c) e (.slot k) = held (.slot k) :=
  update_of_ne (fun h => Owner.noConfusion h) _ _

theorem update_slot_call (k : Slot) (c : CallId) :
    update held (.slot k) e (.call c) = held (.call c) :=
  update_of_ne (fun h => Owner.noConfusion h) _ _

theorem update_call_call {c c' : CallId} (h : c' ≠ c) :
    update held (.call c) e (.call c') = held (.call c') :=
  update_of_ne (fun h' => h (Owner.call.inj h')) _ _

theorem update_slot_slot {k k' : Slot} (h : k' ≠ k) :
    update held (.slot k) e (.slot k') = held (.slot k') :=
  update_of_ne (fun h' => h (Owner.slot.inj h')) _ _

end UpdateOwner

/-- A call that dropped its peer, like one that holds nothing, holds nothing. -/
theorem drop_call_none {held : Owner → Option Peer} {c c' : CallId}
    (h : held (.call c') = none) : update held (.call c) none (.call c') = none := by
  by_cases e : c' = c
  · rw [e]
    exact update_self _ _ _
  · exact (update_call_call held none e).trans h

/-- What is held after a move was held before. -/
theorem held_move {held : Owner → Option Peer} {o₁ o₂ o₃ : Owner} {p q : Peer}
    (h₁ : held o₁ = some p) (h : update (update held o₁ none) o₂ (some p) o₃ = some q) :
    ∃ o', held o' = some q := by
  rcases held_update_some h with ⟨-, e⟩ | ⟨-, e⟩
  · exact ⟨o₁, h₁.trans e⟩
  · rcases held_update_some e with ⟨-, e'⟩ | ⟨-, e'⟩
    · cases e'
    · exact ⟨o₃, e'⟩

theorem PeerInv.build (h : PeerInv v) {p : Peer} {hbm : CallId → HbmBuf}
    (hactive : p.active = true) (hconn : p.conn = v.nextCall) (hbuilt : p.Built v.mock hbm)
    (hother : ∀ h, h ≠ v.nextCall → hbm h = v.hbm h) : PeerInv { v with
      held := update v.held (.call v.nextCall) (some p)
      hbm := hbm
      nextCall := v.nextCall + 1 } := by
  -- connections built earlier have smaller numbers
  have hlt : ∀ o q, v.held o = some q → q.conn < v.nextCall := h.named
  constructor
  case fresh =>
    intro c hc
    have hc' : v.nextCall < c := hc
    exact (update_call_call _ _ hc'.ne').trans (h.fresh c hc'.le)
  case active =>
    intro o q hq
    rcases held_update_some hq with ⟨-, e⟩ | ⟨-, e⟩
    · exact Option.some.inj e ▸ hactive
    · exact h.active o q e
  case named =>
    intro o q hq
    rcases held_update_some hq with ⟨-, e⟩ | ⟨-, e⟩
    · obtain rfl := Option.some.inj e
      exact hconn.trans_lt (Nat.lt_succ_self _)
    · exact (hlt o q e).trans (Nat.lt_succ_self _)
  case built =>
    intro o q hq
    rcases held_update_some hq with ⟨-, e⟩ | ⟨-, e⟩
    · exact Option.some.inj e ▸ hbuilt
    · refine (h.built o q e).congr ?_
      dsimp only
      rw [hother _ (hlt o q e).ne]
      exact sameShape_refl _
  case exclusive =>
    refine h.exclusive.grant ?_
    intro o q hq
    rw [hconn]
    exact (hlt o q hq).ne

/-- The freed buffer belonged to the call alone, so the others keep theirs. -/
theorem PeerInv.discard (h : PeerInv v) {c : CallId} {p : Peer}
    (hc : v.held (.call c) = some p) : PeerInv { v with
      held := update v.held (.call c) none
      hbm := freed v.hbm p.mockHbm } := by
  have hheld : ∀ o q, update v.held (.call c) none o = some q → v.held o = some q := by
    intro o q hq
    rcases held_update_some hq with ⟨-, e⟩ | ⟨-, e⟩
    · cases e
    · exact e
  constructor
  case fresh =>
    exact fun c' hc' => drop_call_none (h.fresh c' hc')
  case active => exact fun o q hq => h.active o q (hheld o q hq)
  case named => exact fun o q hq => h.named o q (hheld o q hq)
  case built =>
    intro o q hq
    refine (h.built o q (hheld o q hq)).congr ?_
    have hne : q.conn ≠ p.conn := h.exclusive.drop_unheld hc o q hq
    have hp := h.built _ p hc
    rcases e : p.mockHbm with - | b
    · exact sameShape_refl _
    · -- in mock mode the buffer of `p` is the one named by its connection
      have hb : b = p.conn := by
        cases hm : v.mock with
        | true =>
            rw [hm] at hp
            exact Option.some.inj (e.symm.trans hp.1)
        | false =>
            rw [hm] at hp
            cases e.symm.trans hp.1
      show SameShape _ (update v.hbm b _ q.conn)
      rw [update_of_ne (hb ▸ hne)]
      exact sameShape_refl _
  case exclusive => exact h.exclusive.drop _

/-- **Every step on holders and buffers keeps the invariant.** -/
theorem PeerStep.preserves (hstep : PeerStep v o w) (h : PeerInv v) : PeerInv w := by
  cases hstep with
  | keep hbm n hshape hn =>
      refine ⟨fun c hc => h.fresh c (le_trans hn hc), h.active, ?_, ?_, h.exclusive⟩
      · exact fun o p hp => lt_of_lt_of_le (h.named o p hp) hn
      · exact fun o p hp => (h.built o p hp).congr (hshape _)
  | build p hbm hactive hconn hbuilt hother => exact h.build hactive hconn hbuilt hother
  | install c k p hc hk =>
      refine ⟨?_, ?_, ?_, ?_, h.exclusive.move hc _⟩
      · intro c' hc'
        dsimp only
        rw [update_slot_call]
        exact drop_call_none (h.fresh c' hc')
      · intro o q hq
        obtain ⟨o', hq'⟩ := held_move hc hq
        exact h.active o' q hq'
      · intro o q hq
        obtain ⟨o', hq'⟩ := held_move hc hq
        exact h.named o' q hq'
      · intro o q hq
        obtain ⟨o', hq'⟩ := held_move hc hq
        exact h.built o' q hq'
  | discard c p hc => exact h.discard hc
  | vacate k p hk =>
      refine ⟨?_, ?_, ?_, ?_, h.exclusive.move hk _⟩
      · intro c hc
        have hc' : v.nextCall < c := hc
        dsimp only
        rw [update_call_call _ _ hc'.ne', update_slot_call]
        exact h.fresh c hc'.le
      · intro o q hq
        obtain ⟨o', hq'⟩ := held_move hk hq
        exact h.active o' q hq'
      · intro o q hq
        obtain ⟨o', hq'⟩ := held_move hk hq
        exact (h.named o' q hq').trans (Nat.lt_succ_self _)
      · intro o q hq
        obtain ⟨o', hq'⟩ := held_move hk hq
        exact h.built o' q hq'

/-- A slot that is held stays held by the same peer unless the step vacates
it. -/
theorem PeerStep.slot_kept (hstep : PeerStep v o w) {k : Slot} {p : Peer}
    (hk : v.held (.slot k) = some p) (ho : o ≠ some k) : w.held (.slot k) = some p := by
  cases hstep with
  | keep hbm n hshape hn => exact hk
  | build q hbm hactive hconn hbuilt hother =>
      dsimp only
      rw [update_call_slot]
      exact hk
  | install c k' q hc hk' =>
      have hne : k ≠ k' := by
        rintro rfl
        rw [hk] at hk'
        cases hk'
      dsimp only
      rw [update_slot_slot _ _ hne, update_call_slot]
      exact hk
  | discard c q hc =>
      dsimp only
      rw [update_call_slot]
      exact hk
  | vacate k' q hk' =>
      have hne : k ≠ k' := fun e => ho (congrArg some e.symm)
      dsimp only
      rw [update_call_slot, update_slot_slot _ _ hne]
      exact hk

/-! ### The daemon refines it -/

variable {s t : Sys}

/-- The slot that a step of the daemon empties. -/
def vacates (s : Sys) : Action → Option Slot
  | .peerDisconnect peerId => if peerId = 0 then none else findPeerLocked s.mgr peerId
  | _ => none

theorem held_slot_active {k : Slot} (h : (s.mgr.peers k).active = true) :
    s.held (.slot k) = some (s.mgr.peers k) := if_pos h

theorem held_slot_free {k : Slot} (h : (s.mgr.peers k).active = false) :
    s.held (.slot k) = none := by
  simp [Sys.held, h]

theorem held_slot_some {k : Slot} {p : Peer} (h : s.held (.slot k) = some p) :
    (s.mgr.peers k).active = true ∧ s.mgr.peers k = p := by
  unfold Sys.held at h
  dsimp only at h
  split_ifs at h with hactive
  exact ⟨hactive, Option.some.inj h⟩

/-- A written call replaces what that call holds. -/
theorem held_setCall {c : CallId} {k : Call} (hcalls : t.calls = update s.calls c (some k))
    (hpeers : t.mgr.peers = s.mgr.peers) : t.held = update s.held (.call c) k.heldPeer := by
  funext o
  cases o with
  | slot k' =>
      rw [update_call_slot]
      simp only [Sys.held, hpeers]
  | call c' =>
      by_cases e : c' = c
      · subst e
        rw [update_self]
        simp [Sys.held, hcalls]
      · rw [update_call_call _ _ e]
        simp [Sys.held, hcalls, update_of_ne e]

/-- A written slot and a written call replace what these two hold. -/
theorem held_setSlot_setCall {k : Slot} {p : Peer} {c : CallId} {j : Call}
    (hcalls : t.calls = update s.calls c (some j))
    (hpeers : t.mgr.peers = update s.mgr.peers k p) :
    t.held = update (update s.held (.slot k) (if p.active then some p else none)) (.call c)
      j.heldPeer := by
  funext o
  cases o with
  | slot k' =>
      rw [update_call_slot]
      by_cases e : k' = k
      · subst e
        rw [update_self]
        simp [Sys.held, hpeers]
      · rw [update_slot_slot _ _ e]
        simp [Sys.held, hpeers, update_of_ne e]
  | call c' =>
      by_cases e : c' = c
      · subst e
        rw [update_self]
        simp [Sys.held, hcalls]
      · rw [update_call_call _ _ e, update_slot_call]
        simp [Sys.held, hcalls, update_of_ne e]

/-- A step to `w` is a step to every daemon state that looks like `w`. -/
theorem PeerStep.of_view (hstep : PeerStep s.peerView o w)
    (hmock : t.mgr.useMock = w.mock) (hheld : t.held = w.held) (hhbm : t.hbm = w.hbm)
    (hn : t.nextCall = w.nextCall) : PeerStep s.peerView o t.peerView := by
  have hview : t.peerView = w := by
    cases w
    simp only [Sys.peerView, hmock, hheld, hhbm, hn]
  rw [hview]
  exact hstep

/-- A step that leaves the table and the shape of the buffers alone, and writes
at most a call that neither held nor holds a peer. -/
theorem PeerStep.of_quiet (hmock : t.mgr.useMock = s.mgr.useMock) (hheld : t.held = s.held)
    (hshape : ∀ h, SameShape (s.hbm h) (t.hbm h)) (hn : s.nextCall ≤ t.nextCall) :
    PeerStep s.peerView none t.peerView :=
  (PeerStep.keep (v := s.peerView) t.hbm t.nextCall hshape hn).of_view hmock hheld rfl rfl

theorem PeerStep.of_call {c : CallId} {k : Call} (hk : k.heldPeer = none)
    (hc : s.held (.call c) = none) (hcalls : t.calls = update s.calls c (some k))
    (hpeers : t.mgr.peers = s.mgr.peers) (hmock : t.mgr.useMock = s.mgr.useMock)
    (hshape : ∀ h, SameShape (s.hbm h) (t.hbm h)) (hn : s.nextCall ≤ t.nextCall) :
    PeerStep s.peerView none t.peerView := by
  refine .of_quiet hmock ?_ hshape hn
  rw [held_setCall hcalls hpeers, hk, ← hc, update_eq_self]

/-- A step that touches neither calls, table nor buffers. -/
theorem PeerStep.of_unchanged (hcalls : t.calls = s.calls) (hmgr : t.mgr.peers = s.mgr.peers)
    (hmock : t.mgr.useMock = s.mgr.useMock) (hhbm : t.hbm = s.hbm)
    (hn : t.nextCall = s.nextCall) : PeerStep s.peerView none t.peerView := by
  refine .of_quiet hmock ?_ ?_ hn.ge
  · funext o
    cases o with
    | slot k => simp only [Sys.held, hmgr]
    | call c => simp only [Sys.held, hcalls]
  · intro h
    rw [hhbm]
    exact sameShape_refl _

theorem hbm_freeHbm (s : Sys) (h : Option CallId) : (s.freeHbm h).hbm = freed s.hbm h := by
  cases h <;> rfl

/-- A new call that holds no peer. -/
theorem peerStep_newCall (hfresh : s.held (.call s.nextCall) = none) (kind : CallKind)
    (pc : CallPc) (hk : Call.heldPeer ⟨kind, pc⟩ = none)
    (hcalls : t.calls = (s.newCall kind pc).calls) (hn : t.nextCall = s.nextCall + 1)
    (hpeers : t.mgr.peers = s.mgr.peers) (hmock : t.mgr.useMock = s.mgr.useMock)
    (hshape : ∀ h, SameShape (s.hbm h) (t.hbm h)) : PeerStep s.peerView none t.peerView :=
  .of_call hk hfresh hcalls hpeers hmock hshape (hn.symm ▸ Nat.le_succ _)

/-- A call gives up the peer it holds and returns. -/
theorem peerStep_discard {c : CallId} {p : Peer} (hc : s.held (.call c) = some p)
    (kind : CallKind) (rc : Int) : PeerStep s.peerView none
      ((s.freeHbm p.mockHbm).setCall c kind (.returned rc)).peerView := by
  refine (PeerStep.discard (v := s.peerView) c p hc).of_view ?_ ?_ ?_ ?_
  · exact congrArg Mgr.useMock (mgr_freeHbm s _)
  · exact held_setCall (k := ⟨kind, .returned rc⟩)
      (congrArg (update · c _) (calls_freeHbm s _)) (congrArg Mgr.peers (mgr_freeHbm s _))
  · exact hbm_freeHbm s _
  · exact nextCall_freeHbm s _

theorem peerStep_transferSync (hfresh : s.held (.call s.nextCall) = none)
    (x : UrmaTransfer) (timeoutMs : UInt32) (now : ClockTime) :
    PeerStep s.peerView none (transferSync s x timeoutMs now).peerView := by
  unfold transferSync
  split
  · exact peerStep_newCall hfresh _ _ rfl rfl rfl rfl rfl fun _ => sameShape_refl _
  · split
    · exact peerStep_newCall hfresh _ _ rfl rfl rfl rfl rfl fun _ => sameShape_refl _
    · refine peerStep_newCall hfresh (.transfer x timeoutMs) (.waiting _)
        rfl rfl rfl rfl rfl fun _ => sameShape_refl _

theorem peerStep_timedwait {c : CallId} {rc : Int} {now : ClockTime}
    (h : timedwait s c rc now = some t) : PeerStep s.peerView none t.peerView := by
  unfold timedwait at h
  split at h
  · next x timeoutMs ts hc =>
    have hheld : s.held (.call c) = none := by simp [Sys.held, hc, Call.heldPeer]
    have hset : ∀ pc, Call.heldPeer ⟨.transfer x timeoutMs, pc⟩ = none →
        PeerStep s.peerView none (s.setCall c (.transfer x timeoutMs) pc).peerView :=
      fun pc hpc => .of_call hpc hheld rfl rfl rfl (fun _ => sameShape_refl _) le_rfl
    have hloop : ∀ ts', PeerStep s.peerView none
        (waitLoop s c (.transfer x timeoutMs) ts').peerView := by
      intro ts'
      unfold waitLoop
      split
      · exact hset _ rfl
      · exact hset _ rfl
    split_ifs at h
    · obtain rfl := Option.some.inj h
      exact hloop _
    · obtain rfl := Option.some.inj h
      exact hset _ rfl
    · obtain rfl := Option.some.inj h
      exact hloop _
  · cases h

theorem peerStep_peerConnect (hfresh : s.held (.call s.nextCall) = none)
    (info : PeerConnectInfo) (env : ConnectEnv) :
    PeerStep s.peerView none (peerConnect s info env).peerView := by
  unfold peerConnect
  split
  · exact peerStep_newCall hfresh _ _ rfl rfl rfl rfl rfl fun _ => sameShape_refl _
  · split
    · next hmock =>
      split
      · exact peerStep_newCall hfresh _ _ rfl rfl rfl rfl rfl fun _ => sameShape_refl _
      · -- the buffer gets the number of the call
        have hbuild := PeerStep.build (v := s.peerView)
          { Peer.ofInfo info s.nextCall with mockHbm := some s.nextCall }
          (update s.hbm s.nextCall ⟨true, info.segLen, ByteMem.zero⟩) rfl rfl ?_ ?_
        · exact hbuild.of_view rfl (held_setCall (k := ⟨.peerConnect info, .locking _⟩) rfl rfl)
            rfl rfl
        · show Peer.Built s.mgr.useMock _ _
          rw [hmock]
          refine ⟨rfl, ?_, ?_⟩
          · show (update s.hbm s.nextCall _ s.nextCall).live = true
            rw [update_self]
          · show (update s.hbm s.nextCall _ s.nextCall).len = info.segLen
            rw [update_self]
        · exact fun h hne => update_of_ne hne _ _
    · next hmock =>
      split
      · exact peerStep_newCall hfresh _ _ rfl rfl rfl rfl rfl fun _ => sameShape_refl _
      · next p hp =>
        -- the import only fills in the segment and the handles
        obtain ⟨hactive, hconn, hnull, hva⟩ : p.active = true ∧ p.conn = s.nextCall ∧
            p.mockHbm = none ∧ p.remoteSeg.va = p.segVa := by
          unfold realImportPeer at hp
          split_ifs at hp
          split at hp
          · cases hp
          · cases hp
          · obtain rfl := Except.ok.inj hp
            exact ⟨rfl, rfl, rfl, rfl⟩
        have hbuild := PeerStep.build (v := s.peerView) p s.hbm hactive hconn ?_
          (fun _ _ => rfl)
        · exact hbuild.of_view rfl (held_setCall (k := ⟨.peerConnect info, .locking p⟩) rfl rfl)
            rfl rfl
        · show Peer.Built s.mgr.useMock _ _
          rw [Bool.not_eq_true] at hmock
          rw [hmock]
          exact ⟨hnull, hva⟩

theorem peerStep_peerConnectLocked {c : CallId}
    (hactive : ∀ p, s.held (.call c) = some p → p.active = true)
    (h : peerConnectLocked s c = some t) : PeerStep s.peerView none t.peerView := by
  unfold peerConnectLocked at h
  split at h
  · next info p hc =>
    have hheld : s.held (.call c) = some p := by simp [Sys.held, hc, Call.heldPeer]
    split at h
    · obtain rfl := Option.some.inj h
      exact peerStep_discard hheld _ _
    · split at h
      · obtain rfl := Option.some.inj h
        exact peerStep_discard hheld _ _
      · split at h
        · obtain rfl := Option.some.inj h
          exact peerStep_discard hheld _ _
        · next k hk =>
          obtain rfl := Option.some.inj h
          refine (PeerStep.install (v := s.peerView) c k p hheld
            (held_slot_free (findFreeSlot_some hk))).of_view rfl ?_ rfl rfl
          refine (held_setSlot_setCall (p := p) (j := ⟨.peerConnect info, .returned 0⟩)
            rfl rfl).trans ?_
          rw [if_pos (hactive p hheld)]
          exact update_comm (fun e => Owner.noConfusion e) _ _ _
  · cases h

theorem peerStep_peerDisconnect (hfresh : s.held (.call s.nextCall) = none)
    (peerId : UInt64) :
    PeerStep s.peerView (vacates s (.peerDisconnect peerId))
      (peerDisconnect s peerId).peerView := by
  unfold peerDisconnect vacates
  dsimp only
  split
  · exact peerStep_newCall hfresh _ _ rfl rfl rfl rfl rfl fun _ => sameShape_refl _
  · split
    · next hnone =>
      rw [hnone]
      exact peerStep_newCall hfresh _ _ rfl rfl rfl rfl rfl fun _ => sameShape_refl _
    · next k hk =>
      rw [hk]
      have hactive := (findPeerLocked_some hk).1
      refine (PeerStep.vacate (v := s.peerView) k _ (held_slot_active hactive)).of_view
        rfl ?_ rfl rfl
      exact held_setSlot_setCall (p := Peer.cleared)
        (j := ⟨.peerDisconnect peerId, .releasing (s.mgr.peers k)⟩) rfl rfl

theorem peerStep_peerDisconnectRelease {c : CallId}
    (h : peerDisconnectRelease s c = some t) : PeerStep s.peerView none t.peerView := by
  unfold peerDisconnectRelease at h
  split at h
  · next peerId old hc =>
    have hheld : s.held (.call c) = some old := by simp [Sys.held, hc, Call.heldPeer]
    obtain rfl := Option.some.inj h
    exact peerStep_discard hheld _ _
  · cases h

theorem peerStep_mockWritePeer (hfresh : s.held (.call s.nextCall) = none)
    (peerId remoteAddr : UInt64) (data : List UInt8) (len : UInt32) :
    PeerStep s.peerView none (mockWritePeer s peerId remoteAddr data len).peerView := by
  unfold mockWritePeer
  split
  · exact peerStep_newCall hfresh _ _ rfl rfl rfl rfl rfl fun _ => sameShape_refl _
  · next h off _ =>
    refine peerStep_newCall hfresh (.mockWritePeer peerId remoteAddr len) (.returned 0)
      rfl rfl rfl rfl rfl ?_
    exact sameShape_update _ _ _

theorem peerStep_workerDequeue {uninit : UninitRead}
    (h : workerDequeue s uninit = some t) : PeerStep s.peerView none t.peerView := by
  unfold workerDequeue at h
  split at h
  · split_ifs at h
    · obtain rfl := Option.some.inj h
      exact .of_unchanged rfl rfl rfl rfl rfl
    · obtain rfl := Option.some.inj h
      exact .of_unchanged rfl rfl rfl rfl rfl
    · split at h
      · obtain rfl := Option.some.inj h
        exact .of_unchanged rfl rfl rfl rfl rfl
      · dsimp only at h
        split at h
        · obtain rfl := Option.some.inj h
          exact .of_unchanged rfl rfl rfl rfl rfl
        · cases uninit with
          | fault =>
              obtain rfl := Option.some.inj h
              exact .of_unchanged rfl rfl rfl rfl rfl
          | value v =>
              obtain rfl := Option.some.inj h
              exact .of_unchanged rfl rfl rfl rfl rfl
  · cases h

/-- The mock copy writes bytes, it does not resize or free. -/
theorem executeMockXfer_shape {req : Request} {peer : Peer} {rc : Int} {mem : ByteMem}
    {hbm : CallId → HbmBuf} (h : executeMockXfer s req peer = some (rc, mem, hbm)) (b : CallId) :
    SameShape (s.hbm b) (hbm b) := by
  unfold executeMockXfer at h
  dsimp only at h
  split at h
  · cases h
    exact sameShape_refl _
  · split_ifs at h
    · cases h
      exact sameShape_refl _
    · cases h
      exact sameShape_update _ _ _ _
    · cases h
      exact sameShape_refl _

theorem peerStep_workerExecute {post : Bool} (h : workerExecute s post = some t) :
    PeerStep s.peerView none t.peerView := by
  unfold workerExecute at h
  split at h
  · split at h
    · split at h
      · obtain rfl := Option.some.inj h
        exact .of_unchanged rfl rfl rfl rfl rfl
      · next hexec =>
        obtain rfl := Option.some.inj h
        exact .of_quiet rfl rfl (executeMockXfer_shape hexec) le_rfl
    · split at h
      · obtain rfl := Option.some.inj h
        exact .of_unchanged rfl rfl rfl rfl rfl
      · split at h
        · obtain rfl := Option.some.inj h
          exact .of_unchanged rfl rfl rfl rfl rfl
        · obtain rfl := Option.some.inj h
          exact .of_unchanged rfl rfl rfl rfl rfl
  · cases h

theorem peerStep_workerPoll {rc : Int} (h : workerPoll s rc = some t) :
    PeerStep s.peerView none t.peerView := by
  unfold workerPoll at h
  split at h
  · split_ifs at h
    obtain rfl := Option.some.inj h
    exact .of_unchanged rfl rfl rfl rfl rfl
  · cases h

theorem peerStep_workerComplete (h : workerComplete s = some t) :
    PeerStep s.peerView none t.peerView := by
  unfold workerComplete at h
  split at h
  · obtain rfl := Option.some.inj h
    exact .of_unchanged rfl rfl rfl rfl rfl
  · cases h

theorem peerStep_workerLog (h : workerLog s = some t) :
    PeerStep s.peerView none t.peerView := by
  unfold workerLog at h
  split at h
  · obtain rfl := Option.some.inj h
    exact .of_unchanged rfl rfl rfl rfl rfl
  · cases h

/-- **Every step of the daemon is a step on holders and buffers**, and it
vacates the slot that `vacates` says. -/
theorem step_peerStep {a : Action} (hinv : PeerInv s.peerView) (h : step s a = some t) :
    PeerStep s.peerView (vacates s a) t.peerView := by
  have hfresh : s.held (.call s.nextCall) = none := hinv.fresh _ le_rfl
  unfold step at h
  split at h
  · cases h
  cases a with
  | transferSync x timeoutMs now =>
      obtain rfl := Option.some.inj h
      exact peerStep_transferSync hfresh x timeoutMs now
  | timedwait c rc now => exact peerStep_timedwait h
  | peerConnect info env =>
      obtain rfl := Option.some.inj h
      exact peerStep_peerConnect hfresh info env
  | peerConnectLocked c => exact peerStep_peerConnectLocked (hinv.active (.call c)) h
  | peerDisconnect peerId =>
      obtain rfl := Option.some.inj h
      exact peerStep_peerDisconnect hfresh peerId
  | peerDisconnectRelease c => exact peerStep_peerDisconnectRelease h
  | enable =>
      obtain rfl := Option.some.inj h
      exact peerStep_newCall hfresh .enable (.returned 0) rfl rfl rfl rfl rfl
        fun _ => sameShape_refl _
  | disable =>
      obtain rfl := Option.some.inj h
      exact peerStep_newCall hfresh .disable (.returned 0) rfl rfl rfl rfl rfl
        fun _ => sameShape_refl _
  | fillStatus =>
      obtain rfl := Option.some.inj h
      exact peerStep_newCall hfresh _ _ rfl rfl rfl rfl rfl fun _ => sameShape_refl _
  | mockWritePeer peerId remoteAddr data len =>
      obtain rfl := Option.some.inj h
      exact peerStep_mockWritePeer hfresh peerId remoteAddr data len
  | mgrDestroy =>
      obtain rfl := Option.some.inj h
      exact peerStep_newCall hfresh .mgrDestroy .joining rfl rfl rfl rfl rfl
        fun _ => sameShape_refl _
  | workerDequeue uninit => exact peerStep_workerDequeue h
  | workerExecute post => exact peerStep_workerExecute h
  | workerPoll rc => exact peerStep_workerPoll h
  | workerComplete => exact peerStep_workerComplete h
  | workerLog => exact peerStep_workerLog h
  | backendWrite offset data len =>
      obtain rfl := Option.some.inj h
      exact .of_unchanged rfl rfl rfl rfl rfl
  | backendZero offset len =>
      obtain rfl := Option.some.inj h
      exact .of_unchanged rfl rfl rfl rfl rfl

/-! ### Whole runs -/

theorem peerInv_initial (h : Initial s) : PeerInv s.peerView := by
  obtain ⟨b, m, config, queueOk, mutexRc, provider, threadRc, -, hinit, rfl⟩ := h
  obtain ⟨-, hm⟩ := mgrInit_ok hinit
  -- at the start nobody holds a peer
  have hheld : ∀ o, (Sys.start b m).held o = none := by
    intro o
    cases o with
    | slot k =>
        refine held_slot_free ?_
        show (m.peers k).active = false
        rw [hm]
        rfl
    | call c => rfl
  have hnone : ∀ o p, (Sys.start b m).peerView.held o ≠ some p := by
    intro o p h
    cases (hheld o).symm.trans h
  constructor
  case fresh => exact fun c _ => hheld (.call c)
  case active => exact fun o p h => absurd h (hnone o p)
  case named => exact fun o p h => absurd h (hnone o p)
  case built => exact fun o p h => absurd h (hnone o p)
  case exclusive => exact fun o o' p p' h => absurd h (hnone o p)

/-- **In every reachable state, holders are exclusive and peers well built.** -/
theorem Reachable.peerInv (h : Reachable s) : PeerInv s.peerView := by
  obtain ⟨s₀, as, hinit, hrun⟩ := h
  exact run_invariant (I := fun s => PeerInv s.peerView) (peerInv_initial hinit)
    (fun s a t hs _ hstep => (step_peerStep hs hstep).preserves hs)
    (runOk_trivial s₀ as) hrun

/-- In mock mode a connected peer has an allocated buffer of its segment's
length, named by its connection. -/
theorem PeerInv.mock_slot (h : PeerInv s.peerView) (hmock : s.mgr.useMock = true) {k : Slot}
    (hk : (s.mgr.peers k).active = true) :
    (s.mgr.peers k).mockHbm = some (s.mgr.peers k).conn ∧
      (s.hbm (s.mgr.peers k).conn).live = true ∧
      (s.hbm (s.mgr.peers k).conn).len = (s.mgr.peers k).segLen := by
  have hbuilt := h.built (.slot k) _ (held_slot_active hk)
  have hm : s.peerView.mock = true := hmock
  rw [hm] at hbuilt
  exact hbuilt

/-- In mock mode two connected peers never share a buffer. -/
theorem PeerInv.buffer_alone (h : PeerInv s.peerView) (hmock : s.mgr.useMock = true)
    {k k' : Slot} (hk : (s.mgr.peers k).active = true) (hk' : (s.mgr.peers k').active = true)
    (hb : (s.mgr.peers k).mockHbm = (s.mgr.peers k').mockHbm) : k = k' := by
  rw [(h.mock_slot hmock hk).1, (h.mock_slot hmock hk').1] at hb
  exact Owner.slot.inj (h.exclusive (.slot k) (.slot k') _ _ (held_slot_active hk)
    (held_slot_active hk') (Option.some.inj hb))

end Urma

end DirectStorage
