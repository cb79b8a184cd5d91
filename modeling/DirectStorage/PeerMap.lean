/-
DirectStorage/PeerMap.lean

What the peer table is for: a bounded finite map from peer ids to connections.

`PeerMap` carries its bounds, so a map with more than 32 entries, with the id 0
or with an empty segment cannot be built.  `PeerState` adds the enable flag and
the ramdisk, and `PeerState.exec` says what each API call does and returns in
these terms.  Slots do not occur here: what a call returns depends on the map.

This is a statement of purpose, not a translation; that the manager refines it
is shown in `UrmaRefines`.
-/
import DirectStorage.UrmaMgr
import Mathlib.Data.Finmap

namespace DirectStorage

namespace Urma

/-- The data of a connection and the content of its HBM. -/
structure PeerEntry where
  eid : Vector UInt8 16
  uasid : UInt32
  segVa : UInt64
  segLen : UInt64
  segTokenId : UInt32
  jettyId : UInt32
  hbm : ByteMem

/-- The entry a connect call asks for: its data, with all-zero HBM. -/
def PeerEntry.ofInfo (info : PeerConnectInfo) : PeerEntry :=
  ⟨info.eid, info.uasid, info.segVa, info.segLen, info.segTokenId, info.jettyId, ByteMem.zero⟩

/-! ### The map -/

/-- A map from non-zero ids to connections with a non-empty segment, of at most
32 entries. -/
structure PeerMap where
  entries : Finmap fun _ : UInt64 => PeerEntry
  card_le : entries.keys.card ≤ maxPeers
  wellFormed : ∀ peerId e, entries.lookup peerId = some e → peerId ≠ 0 ∧ e.segLen ≠ 0

namespace PeerMap

@[ext] theorem ext {m m' : PeerMap} (h : m.entries = m'.entries) : m = m' := by
  cases m
  cases m'
  cases h
  rfl

def empty : PeerMap where
  entries := ∅
  card_le := by simp
  wellFormed := by
    intro peerId e h
    rw [Finmap.lookup_empty] at h
    cases h

/-- The number of connected peers. -/
def size (m : PeerMap) : Nat := m.entries.keys.card

/-- Add an entry, or replace the one of its id. -/
def insert (m : PeerMap) (peerId : UInt64) (e : PeerEntry) (hvalid : peerId ≠ 0 ∧ e.segLen ≠ 0)
    (hroom : peerId ∈ m.entries ∨ m.size < maxPeers) : PeerMap where
  entries := m.entries.insert peerId e
  card_le := by
    have hkeys : (m.entries.insert peerId e).keys = Insert.insert peerId m.entries.keys := by
      ext x
      rw [Finmap.mem_keys, Finmap.mem_insert, Finset.mem_insert, Finmap.mem_keys]
    rw [hkeys]
    rcases hroom with hmem | hlt
    · rw [Finset.insert_eq_of_mem (Finmap.mem_keys.mpr hmem)]
      exact m.card_le
    · exact (Finset.card_insert_le _ _).trans hlt
  wellFormed := by
    intro x e' h
    by_cases hx : x = peerId
    · subst hx
      rw [Finmap.lookup_insert] at h
      cases h
      exact hvalid
    · rw [Finmap.lookup_insert_of_ne _ hx] at h
      exact m.wellFormed x e' h

/-- Remove the entry of an id. -/
def erase (m : PeerMap) (peerId : UInt64) : PeerMap where
  entries := m.entries.erase peerId
  card_le := by
    rw [Finmap.keys_erase]
    exact (Finset.card_le_card (Finset.erase_subset _ _)).trans m.card_le
  wellFormed := by
    intro x e h
    by_cases hx : x = peerId
    · subst hx
      rw [Finmap.lookup_erase] at h
      cases h
    · rw [Finmap.lookup_erase_ne hx] at h
      exact m.wellFormed x e h

/-- Replace the HBM content of an entry. -/
def setHbm (m : PeerMap) (peerId : UInt64) (hbm : ByteMem) : PeerMap :=
  match h : m.entries.lookup peerId with
  | none => m
  | some e => m.insert peerId { e with hbm := hbm } (m.wellFormed peerId e h)
      (.inl (Finmap.mem_of_lookup_eq_some h))

theorem entries_setHbm {m : PeerMap} {peerId : UInt64} {e : PeerEntry} (hbm : ByteMem)
    (h : m.entries.lookup peerId = some e) :
    (m.setHbm peerId hbm).entries = m.entries.insert peerId { e with hbm := hbm } := by
  unfold setHbm
  split
  · next hnone => cases hnone.symm.trans h
  · next e' he' =>
      cases he'.symm.trans h
      rfl

end PeerMap

/-! ### The calls -/

/-- The map, with the enable flag and the ramdisk. -/
structure PeerState where
  enabled : Bool
  peers : PeerMap
  backend : Backend

/-- The calls, with the outcome of connect's allocation. -/
inductive PeerCmd
  | connect (info : PeerConnectInfo) (calloc : Bool)
  | disconnect (peerId : UInt64)
  | enable
  | disable
  | transfer (x : UrmaTransfer)

namespace PeerState

/-- Connect adds the entry if everything is in order; the first failing
condition decides the code. -/
def connect (A : PeerState) (info : PeerConnectInfo) (calloc : Bool) : PeerState × Int :=
  if hbad : info.peerId = 0 ∨ info.segLen = 0 then (A, -EINVAL)
  else if calloc = false then (A, -ENOMEM)
  else if A.enabled = false then (A, -EOPNOTSUPP)
  else if info.peerId ∈ A.peers.entries then (A, -EEXIST)
  else if hroom : A.peers.size < maxPeers then
    let peers := A.peers.insert info.peerId (PeerEntry.ofInfo info) (not_or.mp hbad) (.inr hroom)
    ({ A with peers := peers }, 0)
  else (A, -ENOSPC)

/-- Disconnect removes the entry of the id. -/
def disconnect (A : PeerState) (peerId : UInt64) : PeerState × Int :=
  if peerId = 0 then (A, -EINVAL)
  else if peerId ∈ A.peers.entries then ({ A with peers := A.peers.erase peerId }, 0)
  else (A, -ENOENT)

/-- The entry a transfer is for, if the transfer is in order. -/
def validate (A : PeerState) (x : UrmaTransfer) : Except Int PeerEntry :=
  if A.enabled = false then .error (-EOPNOTSUPP)
  else if x.length = 0 then .error (-EINVAL)
  else if x.direction ≠ ramdiskToHbm ∧ x.direction ≠ hbmToRamdisk then .error (-EINVAL)
  else if ramdiskBackendValidateRange A.backend x.localOffset x.length.toUInt64 ≠ 0 then
    .error (-ERANGE)
  else if validateAlignment A.backend x ≠ 0 then .error (-EINVAL)
  else
    match A.peers.entries.lookup x.peerId with
    | none => .error (-ENODEV)
    | some e =>
        if e.segVa.toNat ≤ x.remoteHbmAddr.toNat ∧
            x.remoteHbmAddr.toNat + x.length.toNat ≤ e.segVa.toNat + e.segLen.toNat then .ok e
        else .error (-ERANGE)

/-- A transfer copies between the ramdisk and the start of the segment: the
worker replaces the remote address by the segment's. -/
def transfer (A : PeerState) (x : UrmaTransfer) : PeerState × Int :=
  match A.validate x with
  | .error rc => (A, rc)
  | .ok e =>
      let off := x.localOffset.toNat
      let len := x.length.toNat
      if x.direction = ramdiskToHbm then
        ({ A with peers := A.peers.setHbm x.peerId (e.hbm.copy 0 A.backend.mem off len) }, 0)
      else
        let mem := A.backend.mem.copy off e.hbm 0 len
        ({ A with backend := { A.backend with mem := mem } }, 0)

/-- What a call does and returns. -/
def exec (A : PeerState) : PeerCmd → PeerState × Int
  | .connect info calloc => A.connect info calloc
  | .disconnect peerId => A.disconnect peerId
  | .enable => ({ A with enabled := true }, 0)
  | .disable => ({ A with enabled := false }, 0)
  | .transfer x => A.transfer x

/-- The state after a sequence of calls. -/
def after (A : PeerState) (cs : List PeerCmd) : PeerState :=
  cs.foldl (fun A c => (A.exec c).1) A

/-- What a sequence of calls returns. -/
def results : PeerState → List PeerCmd → List Int
  | _, [] => []
  | A, c :: cs => (A.exec c).2 :: results (A.exec c).1 cs

variable (A : PeerState) (cs : List PeerCmd) (c : PeerCmd)

theorem after_snoc : A.after (cs ++ [c]) = ((A.after cs).exec c).1 := by
  simp [after, List.foldl_append]

theorem results_snoc : A.results (cs ++ [c]) = A.results cs ++ [((A.after cs).exec c).2] := by
  induction cs generalizing A with
  | nil => rfl
  | cons d cs ih =>
      show _ :: results _ (cs ++ [c]) = _
      rw [ih]
      rfl

end PeerState

end Urma

end DirectStorage
