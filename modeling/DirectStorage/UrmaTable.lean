/-
DirectStorage/UrmaTable.lean

The 32-slot peer table represents a bounded map.

`Represents s A` relates the daemon in mock mode to the abstract `PeerState`: the
active slots hold exactly the entries of the map, each with the content of its
buffer.  This file has the one-step facts: lookup, free-slot search, validation
and the peer count are those of the map, and installing, clearing or copying
into one slot is inserting, erasing or changing one entry.

What the calls do as a whole is in `UrmaProgress` and `UrmaRefines`.
-/
import DirectStorage.PeerMap
import DirectStorage.SlotMap
import DirectStorage.UrmaSerial
import DirectStorage.UrmaTransfer

namespace DirectStorage

namespace Urma

open Function

variable {s t : Sys} {A : PeerState} {k : Slot}

/-! ### The relation -/

/-- The entry of a connected peer, with the content of its buffer. -/
def Peer.entry (p : Peer) (hbm : CallId → HbmBuf) : PeerEntry :=
  ⟨p.eid, p.uasid, p.segVa, p.segLen, p.segTokenId, p.jettyId,
    (p.mockHbm.map fun b => (hbm b).mem).getD ByteMem.zero⟩

/-- A slot's id and entry, if it is in use. -/
def Peer.keyed (p : Peer) (hbm : CallId → HbmBuf) : Option (UInt64 × PeerEntry) :=
  if p.active then some (p.peerId, p.entry hbm) else none

def Sys.slots (s : Sys) : Slot → Option (UInt64 × PeerEntry) :=
  fun k => (s.mgr.peers k).keyed s.hbm

/-- The daemon represents the abstract state. -/
structure Represents (s : Sys) (A : PeerState) : Prop where
  enabled : s.mgr.enabled = A.enabled
  backend : s.backend = A.backend
  slots : Slots s.slots A.peers.entries

theorem keyed_active {p : Peer} (hbm : CallId → HbmBuf) (h : p.active = true) :
    p.keyed hbm = some (p.peerId, p.entry hbm) :=
  if_pos h

theorem keyed_inactive {p : Peer} (hbm : CallId → HbmBuf) (h : p.active = false) :
    p.keyed hbm = none := by
  rw [Peer.keyed, h]
  rfl

theorem keyed_some {p : Peer} {hbm : CallId → HbmBuf} {x : UInt64} {e : PeerEntry}
    (h : p.keyed hbm = some (x, e)) : p.active = true ∧ p.peerId = x ∧ p.entry hbm = e := by
  unfold Peer.keyed at h
  split at h
  next hactive =>
    cases h
    exact ⟨hactive, rfl, rfl⟩
  next => cases h

/-! ### Lookup, search and count -/

theorem Represents.lookup (h : Represents s A) (hk : (s.mgr.peers k).active = true) :
    A.peers.entries.lookup (s.mgr.peers k).peerId = some ((s.mgr.peers k).entry s.hbm) :=
  h.slots.lookup (keyed_active s.hbm hk)

/-- An id is in the map exactly when `find_peer_locked` finds it. -/
theorem Represents.mem_iff (h : Represents s A) (peerId : UInt64) :
    peerId ∈ A.peers.entries ↔ ∃ k, findPeerLocked s.mgr peerId = some k := by
  constructor
  · intro hmem
    obtain ⟨k, e, hk⟩ := h.slots.mem_iff.mp hmem
    obtain ⟨hactive, hid, -⟩ := keyed_some hk
    rcases hfind : findPeerLocked s.mgr peerId with - | k'
    · have hnone := List.find?_eq_none.mp hfind k (List.mem_finRange k)
      simp [hactive, hid] at hnone
    · exact ⟨k', rfl⟩
  · rintro ⟨k, hk⟩
    obtain ⟨hactive, hid⟩ := findPeerLocked_some hk
    exact h.slots.mem_iff.mpr ⟨k, _, hid ▸ keyed_active s.hbm hactive⟩

theorem Represents.find_none (h : Represents s A) {peerId : UInt64}
    (hfind : findPeerLocked s.mgr peerId = none) : peerId ∉ A.peers.entries := by
  intro hmem
  obtain ⟨k, hk⟩ := (h.mem_iff peerId).mp hmem
  cases hfind.symm.trans hk

/-- There is room in the map exactly when there is a free slot. -/
theorem Represents.size_lt_iff (h : Represents s A) :
    A.peers.size < maxPeers ↔ ∃ k, findFreeSlot s.mgr = some k := by
  have hcard := h.slots.card_lt_iff
  rw [Fintype.card_fin] at hcard
  show A.peers.entries.keys.card < maxPeers ↔ _
  rw [hcard]
  constructor
  · rintro ⟨k, hk⟩
    rcases hfind : findFreeSlot s.mgr with - | k'
    · have hnone := List.find?_eq_none.mp hfind k (List.mem_finRange k)
      have hactive : (s.mgr.peers k).active = true := by simpa using hnone
      rw [Sys.slots, keyed_active s.hbm hactive] at hk
      cases hk
    · exact ⟨k', rfl⟩
  · rintro ⟨k, hk⟩
    exact ⟨k, keyed_inactive s.hbm (findFreeSlot_some hk)⟩

theorem foldl_count {α : Type*} (p : α → Bool) (l : List α) (n : UInt32) :
    l.foldl (fun n a => if p a then n + 1 else n) n = n + UInt32.ofNat (l.countP p) := by
  induction l generalizing n with
  | nil => simp
  | cons a l ih =>
      rw [List.foldl_cons, ih]
      by_cases ha : p a = true
      · rw [if_pos ha, List.countP_cons_of_pos ha, UInt32.ofNat_add, UInt32.add_assoc,
          UInt32.add_comm 1]
        rfl
      · rw [if_neg ha, List.countP_cons_of_neg ha]

/-- **`peer_count` is the size of the map**, when the status record starts with
0 there, as the control server's does. -/
theorem Represents.peerCount (h : Represents s A) {status : CtrlStatus}
    (hzero : status.peerCount = 0) :
    (ramdiskUrmaFillStatus s.mgr status).peerCount.toNat = A.peers.size := by
  have hused : (usedSlots s.slots).card =
      (List.finRange maxPeers).countP fun k => (s.mgr.peers k).active := by
    have hfilter : usedSlots s.slots =
        ((List.finRange maxPeers).filter fun k => (s.mgr.peers k).active).toFinset := by
      ext k
      simp [usedSlots, Sys.slots, Peer.keyed]
    rw [hfilter, List.countP_eq_length_filter,
      List.toFinset_card_of_nodup ((List.nodup_finRange maxPeers).filter _)]
  have hsize : A.peers.size =
      (List.finRange maxPeers).countP fun k => (s.mgr.peers k).active :=
    h.slots.card.trans hused
  have hlt : A.peers.size < 2 ^ 32 := A.peers.card_le.trans_lt (by decide)
  show (List.foldl _ status.peerCount _).toNat = _
  rw [foldl_count (fun k => (s.mgr.peers k).active), ← hsize, hzero, UInt32.zero_add,
    UInt32.toNat_ofNat_of_lt' hlt]

/-! ### Validation -/

/-- **Validation is that of the map.** -/
theorem Represents.validate (h : Represents s A) (x : UrmaTransfer) :
    A.validate x = (validateXferLocked s.mgr s.backend x).map
      fun k => (s.mgr.peers k).entry s.hbm := by
  unfold PeerState.validate validateXferLocked
  rw [← h.enabled, ← h.backend]
  have hflag : (s.mgr.enabled = false) ↔ ((!s.mgr.enabled) = true) := by simp
  simp only [hflag]
  split_ifs with h₁ h₂ h₃ h₄ h₅
  · rfl
  · rfl
  · rfl
  · rfl
  · rfl
  rcases hfind : findPeerLocked s.mgr x.peerId with - | k
  · rw [Finmap.lookup_eq_none.mpr (h.find_none hfind)]
    rfl
  · obtain ⟨hactive, hid⟩ := findPeerLocked_some hfind
    have hlookup := h.lookup hactive
    rw [hid] at hlookup
    rw [hlookup]
    dsimp only
    -- the unsigned tests are the integer ones
    by_cases hge : x.remoteHbmAddr < (s.mgr.peers k).segVa
    · rw [if_pos hge, if_neg]
      · rfl
      · rintro ⟨hle, -⟩
        have hle' : (s.mgr.peers k).segVa.toNat ≤ x.remoteHbmAddr.toNat := hle
        rw [UInt64.lt_iff_toNat_lt] at hge
        omega
    · have hle : (s.mgr.peers k).segVa.toNat ≤ x.remoteHbmAddr.toNat := by
        rw [UInt64.lt_iff_toNat_lt] at hge
        omega
      rw [if_neg hge]
      by_cases hrange : x.remoteHbmAddr - (s.mgr.peers k).segVa > (s.mgr.peers k).segLen ∨
          x.length.toUInt64 > (s.mgr.peers k).segLen - (x.remoteHbmAddr - (s.mgr.peers k).segVa)
      · rw [if_pos hrange, if_neg]
        · rfl
        · rintro ⟨-, hfits⟩
          exact (remoteRange_iff hge).mpr hfits hrange
      · rw [if_neg hrange, if_pos]
        · rfl
        · exact ⟨hle, (remoteRange_iff hge).mp hrange⟩

/-! ### Changing one slot -/

/-- What the table represents depends on the flag, the ramdisk, the slots and the
content of the connected peers' buffers. -/
theorem Represents.congr (h : Represents s A) (henabled : t.mgr.enabled = s.mgr.enabled)
    (hbackend : t.backend = s.backend) (hpeers : t.mgr.peers = s.mgr.peers)
    (hbm : ∀ k, (s.mgr.peers k).active = true →
      (s.mgr.peers k).entry t.hbm = (s.mgr.peers k).entry s.hbm) : Represents t A := by
  refine ⟨henabled.trans h.enabled, hbackend.trans h.backend, ?_⟩
  have hslots : t.slots = s.slots := by
    funext k
    show (t.mgr.peers k).keyed t.hbm = (s.mgr.peers k).keyed s.hbm
    rw [hpeers]
    cases hk : (s.mgr.peers k).active with
    | false => rw [keyed_inactive _ hk, keyed_inactive _ hk]
    | true => rw [keyed_active _ hk, keyed_active _ hk, hbm k hk]
  rw [hslots]
  exact h.slots

/-- The slots after one was written. -/
theorem slots_update {p : Peer} (hpeers : t.mgr.peers = update s.mgr.peers k p)
    (hbm : t.hbm = s.hbm) : t.slots = update s.slots k (p.keyed s.hbm) := by
  funext j
  show (t.mgr.peers j).keyed t.hbm = _
  rw [hpeers, hbm]
  by_cases hj : j = k
  · subst hj
    rw [update_self, update_self]
  · rw [update_of_ne hj, update_of_ne hj]
    rfl

/-- In mock mode the buffers of the connected peers are those named by their
connections. -/
theorem entry_congr {hbm : CallId → HbmBuf} (hp : PeerInv s.peerView)
    (hmock : s.mgr.useMock = true) (hk : (s.mgr.peers k).active = true)
    (h : (hbm (s.mgr.peers k).conn).mem = (s.hbm (s.mgr.peers k).conn).mem) :
    (s.mgr.peers k).entry hbm = (s.mgr.peers k).entry s.hbm := by
  obtain ⟨hbuf, -, -⟩ := hp.mock_slot hmock hk
  simp only [Peer.entry, hbuf, Option.map_some, Option.getD_some, h]

/-- `free` changes no content. -/
theorem entry_freeHbm (p : Peer) (s : Sys) (h : Option CallId) :
    p.entry (s.freeHbm h).hbm = p.entry s.hbm := by
  cases h with
  | none => rfl
  | some b =>
      have hmem : ∀ b', ((s.freeHbm (some b)).hbm b').mem = (s.hbm b').mem := by
        intro b'
        show (update s.hbm b _ b').mem = _
        by_cases e : b' = b
        · subst e
          rw [update_self]
        · rw [update_of_ne e]
      simp only [Peer.entry, hmem]

/-- Releasing a buffer changes nothing of what is represented. -/
theorem Represents.freeHbm (h : Represents s A) (b : Option CallId) (c : CallId) (kind : CallKind)
    (pc : CallPc) : Represents ((s.freeHbm b).setCall c kind pc) A := by
  refine h.congr ?_ (backend_freeHbm s b) ?_ ?_
  · show (s.freeHbm b).mgr.enabled = _
    rw [mgr_freeHbm]
  · show (s.freeHbm b).mgr.peers = _
    rw [mgr_freeHbm]
  · exact fun k _ => entry_freeHbm _ s b

/-- A new entry in a free slot. -/
theorem Represents.install (h : Represents s A) {p : Peer} {e : PeerEntry}
    (hfree : (s.mgr.peers k).active = false) (hp : p.keyed s.hbm = some (p.peerId, e))
    (hvalid : p.peerId ≠ 0 ∧ e.segLen ≠ 0) (hnew : p.peerId ∉ A.peers.entries)
    (hroom : A.peers.size < maxPeers) (hpeers : t.mgr.peers = update s.mgr.peers k p)
    (henabled : t.mgr.enabled = s.mgr.enabled) (hbackend : t.backend = s.backend)
    (hbm : t.hbm = s.hbm) :
    Represents t { A with peers := A.peers.insert p.peerId e hvalid (.inr hroom) } := by
  refine ⟨henabled.trans h.enabled, hbackend.trans h.backend, ?_⟩
  rw [slots_update hpeers hbm, hp]
  exact h.slots.insert e (keyed_inactive s.hbm hfree) hnew

/-- The entry of a cleared slot is gone. -/
theorem Represents.clear (h : Represents s A) (hk : (s.mgr.peers k).active = true)
    (hpeers : t.mgr.peers = update s.mgr.peers k Peer.cleared)
    (henabled : t.mgr.enabled = s.mgr.enabled) (hbackend : t.backend = s.backend)
    (hbm : t.hbm = s.hbm) :
    Represents t { A with peers := A.peers.erase (s.mgr.peers k).peerId } := by
  refine ⟨henabled.trans h.enabled, hbackend.trans h.backend, ?_⟩
  rw [slots_update hpeers hbm]
  exact h.slots.erase (keyed_active s.hbm hk)

/-! ### The copy -/

theorem Copied.eq_copy {m m' src : ByteMem} {off sOff len : Nat}
    (h : Copied m m' off src sOff len) : m' = m.copy off src sOff len := by
  funext i
  by_cases hi : off ≤ i ∧ i < off + len
  · have hinside := h.inside (i - off) (by omega)
    rw [Nat.add_sub_cancel' hi.1] at hinside
    rw [hinside, ByteMem.copy, if_pos hi]
  · rw [h.outside i (by omega), ByteMem.copy, if_neg hi]

/-- The effect of a copy on what is represented, when the transfer asked for the
start of the segment. -/
theorem Represents.copied (h : Represents s A) {x y : UrmaTransfer} {b : CallId}
    (hp : PeerInv s.peerView) (hmock : s.mgr.useMock = true)
    (hvalid : A.validate x = .ok ((s.mgr.peers k).entry s.hbm))
    (hy : y = { x with remoteHbmAddr := (s.mgr.peers k).segVa })
    (heffect : CopyEffect s t y k b) (hpeers : t.mgr.peers = s.mgr.peers)
    (henabled : t.mgr.enabled = s.mgr.enabled) (hgeo : SameGeometry s.backend t.backend) :
    Represents t (A.transfer x).1 ∧ (A.transfer x).2 = 0 := by
  subst hy
  have hbuf : (s.mgr.peers k).mockHbm = some b := heffect.buffer
  have hid : (s.mgr.peers k).peerId = x.peerId := heffect.peer
  have hconn : (s.mgr.peers k).conn = b :=
    Option.some.inj ((hp.mock_slot hmock heffect.active).1.symm.trans hbuf)
  have hhbm : ((s.mgr.peers k).entry s.hbm).hbm = (s.hbm b).mem := by
    simp only [Peer.entry, hbuf, Option.map_some, Option.getD_some]
  unfold PeerState.transfer
  rw [hvalid]
  dsimp only
  by_cases hdir : x.direction = ramdiskToHbm
  · -- the ramdisk is unchanged, and so is every buffer but this peer's
    obtain ⟨hbackend, hcopy⟩ := heffect.toHbm hdir
    rw [Nat.sub_self] at hcopy
    rw [if_pos hdir]
    refine ⟨⟨henabled.trans h.enabled, hbackend.trans h.backend, ?_⟩, rfl⟩
    have hlookup := h.lookup heffect.active
    rw [hid] at hlookup
    show Slots t.slots (PeerMap.setHbm _ _ _).entries
    rw [PeerMap.entries_setHbm _ hlookup, hhbm, ← h.backend]
    have hslots : t.slots = update s.slots k (some (x.peerId,
        { (s.mgr.peers k).entry s.hbm with
          hbm := (s.hbm b).mem.copy 0 s.backend.mem x.localOffset.toNat x.length.toNat })) := by
      funext j
      show (t.mgr.peers j).keyed t.hbm = _
      rw [hpeers]
      by_cases hj : j = k
      · subst hj
        rw [update_self, keyed_active _ heffect.active, hid, ← hcopy.eq_copy]
        simp only [Peer.entry, hbuf, Option.map_some, Option.getD_some]
      · rw [update_of_ne hj]
        cases hactive : (s.mgr.peers j).active with
        | false => exact (keyed_inactive _ hactive).trans (keyed_inactive _ hactive).symm
        | true =>
            have hne : (s.mgr.peers j).conn ≠ b := by
              intro e
              refine hj (heffect.alone j hactive ?_)
              rw [(hp.mock_slot hmock hactive).1, e]
            have hentry := entry_congr hp hmock hactive
              (congrArg HbmBuf.mem (heffect.others (s.mgr.peers j).conn hne))
            show (s.mgr.peers j).keyed t.hbm = (s.mgr.peers j).keyed s.hbm
            rw [keyed_active _ hactive, keyed_active _ hactive, hentry]
    rw [hslots]
    exact h.slots.replace _ (hid ▸ keyed_active s.hbm heffect.active)
  · -- no buffer changes
    have hdir' : x.direction = hbmToRamdisk := heffect.direction.resolve_left hdir
    obtain ⟨hsame, hcopy⟩ := heffect.toRamdisk hdir'
    rw [Nat.sub_self] at hcopy
    rw [if_neg hdir]
    refine ⟨⟨henabled.trans h.enabled, ?_, ?_⟩, rfl⟩
    · rw [hgeo, hcopy.eq_copy, hhbm, h.backend]
    · have hbm : t.hbm = s.hbm := by
        funext b'
        by_cases e : b' = b
        · rw [e]
          exact hsame
        · exact heffect.others b' e
      have hslots : t.slots = s.slots := by
        funext j
        show (t.mgr.peers j).keyed t.hbm = (s.mgr.peers j).keyed s.hbm
        rw [hpeers, hbm]
      rw [hslots]
      exact h.slots

end Urma

end DirectStorage
