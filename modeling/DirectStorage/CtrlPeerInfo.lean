/-
DirectStorage/CtrlPeerInfo.lean

Connecting a peer from the bytes another process hands over:
`ramdisk_ctrl_parse_peer_connect` (`userspace-nbd/src/ramdisk_ctrl_client.c`).

The function is given two buffers with their lengths, takes the first one for a
`struct RsJettyKeyInfo` and the second one for a `urma_seg_t`, and sends what it
finds there as a peer-connect request.  The URMA headers are not part of the
repository: a `UrmaLayout` is any layout of the two structures in which the
fields that are read lie inside, with the widths they have in the headers, on a
little-endian host.  A pointer is a memory and goes on behind the stated length,
or it is `NULL`; each read from it is recorded.

The lengths are compared with 0 only.  Main result: `peerInfoContract_iff`.
-/
import DirectStorage.CtrlTransparent

namespace DirectStorage

namespace Ctrl

variable {σ : Type*}

/-! ### The source -/

/-- Where the fields are that `ramdisk_ctrl_parse_peer_connect` reads: `ubva.eid.raw`,
`ubva.va`, `len` and `token_id` of a `urma_seg_t`, and `id` of the
`urma_jetty_id_t` at the start of a `struct RsJettyKeyInfo`. -/
structure UrmaLayout where
  segSize : Nat
  eidOff : Nat
  vaOff : Nat
  lenOff : Nat
  tokenIdOff : Nat
  jettyKeySize : Nat
  jettyIdSize : Nat
  idOff : Nat
  eid_le : eidOff + 16 ≤ segSize
  va_le : vaOff + 8 ≤ segSize
  len_le : lenOff + 8 ≤ segSize
  tokenId_le : tokenIdOff + 4 ≤ segSize
  id_le : idOff + 4 ≤ jettyIdSize
  jettyId_le : jettyIdSize ≤ jettyKeySize

/-- The two buffers of the call. -/
inductive InfoArg
  | jettyInfo
  | segInfo
  deriving DecidableEq, Repr

/-- A read of `size` bytes from one of the buffers. -/
structure InfoRead where
  arg : InfoArg
  off : Nat
  size : Nat
  deriving DecidableEq, Repr

namespace UrmaLayout

variable (L : UrmaLayout)

def eid : InfoRead := ⟨.segInfo, L.eidOff, 16⟩
def va : InfoRead := ⟨.segInfo, L.vaOff, 8⟩
def len : InfoRead := ⟨.segInfo, L.lenOff, 8⟩
def tokenId : InfoRead := ⟨.segInfo, L.tokenIdOff, 4⟩
def jettyId : InfoRead := ⟨.jettyInfo, L.idOff, 4⟩

/-- The size of the structure a buffer is taken for. -/
def structSize : InfoArg → Nat
  | .jettyInfo => L.jettyKeySize
  | .segInfo => L.segSize

end UrmaLayout

/-- The buffers of a call: pointers, and the lengths that are stated. -/
structure PeerInfoArgs where
  jettyInfo : Option ByteMem
  jettyInfoLen : UInt32
  segInfo : Option ByteMem
  segInfoLen : UInt32

namespace PeerInfoArgs

def pointer (a : PeerInfoArgs) : InfoArg → Option ByteMem
  | .jettyInfo => a.jettyInfo
  | .segInfo => a.segInfo

def stated (a : PeerInfoArgs) : InfoArg → UInt32
  | .jettyInfo => a.jettyInfoLen
  | .segInfo => a.segInfoLen

end PeerInfoArgs

/-- The bytes a read finds. -/
def InfoRead.load (jettyInfo segInfo : ByteMem) (r : InfoRead) : List UInt8 :=
  match r.arg with
  | .jettyInfo => jettyInfo.load r.off r.size
  | .segInfo => segInfo.load r.off r.size

/-- `peer`, as it is filled in; `uasid` stays 0. -/
def fillPeer (L : UrmaLayout) (peerId : UInt64) (jettyInfo segInfo : ByteMem) :
    PeerConnectInfo where
  peerId := peerId
  eid := Vector.ofFn fun i => (L.eid.load jettyInfo segInfo).getD i 0
  uasid := 0
  segVa := UInt64.ofNat (ofLe (L.va.load jettyInfo segInfo))
  segLen := UInt64.ofNat (ofLe (L.len.load jettyInfo segInfo))
  segTokenId := UInt32.ofNat (ofLe (L.tokenId.load jettyInfo segInfo))
  jettyId := UInt32.ofNat (ofLe (L.jettyId.load jettyInfo segInfo))

/-- `ramdisk_ctrl_parse_peer_connect` up to the call of `ramdisk_ctrl_transact`:
the error or the structure to be sent, and the reads in their order. -/
def parsePeerInfo (L : UrmaLayout) (peerId : UInt64) (a : PeerInfoArgs) :
    Except Int PeerConnectInfo × List InfoRead :=
  match a.jettyInfo, a.segInfo with
  | some jettyInfo, some segInfo =>
      if a.jettyInfoLen = 0 ∨ a.segInfoLen = 0 then (.error (-EINVAL), [])
      else (.ok (fillPeer L peerId jettyInfo segInfo), [L.eid, L.va, L.len, L.tokenId, L.jettyId])
  | _, _ => (.error (-EINVAL), [])

def ramdiskCtrlParsePeerConnect (L : UrmaLayout) (M : Manager σ) (conn : Conn) (mgr : σ)
    (peerId : UInt64) (a : PeerInfoArgs) : Int × σ :=
  match (parsePeerInfo L peerId a).1 with
  | .error rc => (rc, mgr)
  | .ok peer =>
      let r := ramdiskCtrlTransact M conn mgr peerConnect (some (storeConnect peer 0))
        connectSize none 1
      (r.rc, r.mgr)

/-- What `ramdisk_ctrl_transact` has written to the connection when it closes it. -/
def Conn.sent (conn : Conn) (opcode : UInt16) (payload : List UInt8) (payloadLen : UInt32)
    (requestId : UInt64) : List UInt8 :=
  match conn.connectSock with
  | .error _ => []
  | .ok () =>
      (sendRequest ⟨[], conn.clientWrite⟩ (reqHdr opcode payloadLen requestId) payload).2.out

/-- What `ramdisk_ctrl_parse_peer_connect` sends. -/
def peerInfoSent (L : UrmaLayout) (conn : Conn) (peerId : UInt64) (a : PeerInfoArgs) :
    List UInt8 :=
  match (parsePeerInfo L peerId a).1 with
  | .error _ => []
  | .ok peer => conn.sent peerConnect (storeConnect peer 0) connectSize 1

/-! ### What is sent -/

/-- The peer-connect request for a peer. -/
def connectRequest (peer : PeerConnectInfo) : List UInt8 :=
  (reqHdr peerConnect connectSize 1).bytes ++ storeConnect peer 0

theorem length_payload (peer : PeerConnectInfo) : (storeConnect peer 0).length =
    (reqHdr peerConnect connectSize 1).payloadLen.toNat := length_storeConnect peer 0

theorem sent_begins (conn : Conn) (peer : PeerConnectInfo) :
    conn.sent peerConnect (storeConnect peer 0) connectSize 1 <+: connectRequest peer := by
  unfold Conn.sent
  cases conn.connectSock with
  | error rc => exact List.nil_prefix
  | ok _ =>
      obtain ⟨sent, hsent, hout, -⟩ := sendRequest_prefix ⟨[], conn.clientWrite⟩
        (length_payload peer)
      dsimp only
      rw [hout]
      exact hsent

theorem sent_reliable {conn : Conn} (h : conn.Reliable) (peer : PeerConnectInfo) :
    conn.sent peerConnect (storeConnect peer 0) connectSize 1 = connectRequest peer := by
  have hcalm : Sink.Calm ⟨[], conn.clientWrite⟩ := h.clientWrite
  obtain ⟨rc, snk, -, hout, hsend⟩ := sendRequest_calm hcalm (length_payload peer)
  unfold Conn.sent
  rw [h.connectSock]
  dsimp only
  rw [hsend]
  exact hout.trans (List.nil_append _)

/-! ### What the buffers hold -/

/-- A buffer is missing, or is stated to be empty. -/
def PeerInfoArgs.Empty (a : PeerInfoArgs) : Prop :=
  ∃ arg, a.pointer arg = none ∨ a.stated arg = 0

/-- Both buffers are as long as the structures they are to hold. -/
def PeerInfoArgs.Whole (L : UrmaLayout) (a : PeerInfoArgs) : Prop :=
  ∀ arg, a.pointer arg ≠ none ∧ L.structSize arg ≤ (a.stated arg).toNat

/-- The peer that is encoded in the bytes of the two buffers. -/
structure Encoded (L : UrmaLayout) (peerId : UInt64) (jetty seg : List UInt8)
    (peer : PeerConnectInfo) : Prop where
  peerId : peer.peerId = peerId
  eid : peer.eid.toList = field seg L.eidOff 16
  uasid : peer.uasid = 0
  segVa : peer.segVa.toNat = ofLe (field seg L.vaOff 8)
  segLen : peer.segLen.toNat = ofLe (field seg L.lenOff 8)
  segTokenId : peer.segTokenId.toNat = ofLe (field seg L.tokenIdOff 4)
  jettyId : peer.jettyId.toNat = ofLe (field jetty L.idOff 4)

/-- What the function is to do: it stays inside the buffers, refuses buffers that
are too short without sending anything, and sends what the others hold, so that
the server calls the manager with it. -/
structure PeerInfoContract (L : UrmaLayout) (peerId : UInt64) (a : PeerInfoArgs) : Prop where
  bounded : ∀ r ∈ (parsePeerInfo L peerId a).2, r.off + r.size ≤ (a.stated r.arg).toNat
  rejected : ¬ a.Whole L → ∀ (σ : Type) (M : Manager σ) (conn : Conn) (mgr : σ),
    ramdiskCtrlParsePeerConnect L M conn mgr peerId a = (-EINVAL, mgr)
  silent : ¬ a.Whole L → ∀ conn, peerInfoSent L conn peerId a = []
  carried : a.Whole L → ∀ jettyInfo segInfo, a.jettyInfo = some jettyInfo →
    a.segInfo = some segInfo → ∃ peer,
      Encoded L peerId (jettyInfo.load 0 a.jettyInfoLen.toNat)
        (segInfo.load 0 a.segInfoLen.toNat) peer ∧
      ∀ conn, peerInfoSent L conn peerId a <+: connectRequest peer ∧
        (conn.Reliable → peerInfoSent L conn peerId a = connectRequest peer ∧
          ∀ (σ : Type) (M : CManager σ) (mgr : σ),
            ramdiskCtrlParsePeerConnect L M.toManager conn mgr peerId a =
              M.call mgr (.peerConnect peer))

/-- A field of the stated bytes is what a read finds in memory. -/
theorem field_load (m : ByteMem) {off n len : Nat} (h : off + n ≤ len) :
    field (m.load 0 len) off n = m.load off n := by
  obtain ⟨rest, rfl⟩ := Nat.exists_eq_add_of_le h
  rw [ByteMem.load_add, field_append_of_le (ByteMem.length_load _ _ _).ge, ByteMem.load_add,
    field_append_right (ByteMem.length_load _ _ _).le, ByteMem.length_load, Nat.sub_self,
    field_self (ByteMem.length_load _ _ _), Nat.zero_add]

theorem toList_ofFn_getD {bs : List UInt8} (h : bs.length = 16) :
    (Vector.ofFn fun i : Fin 16 => bs.getD i 0).toList = bs := by
  refine List.ext_getElem (by rw [Vector.length_toList, h]) ?_
  intro i h₁ h₂
  simp [h₂]

theorem encoded_fillPeer {L : UrmaLayout} (peerId : UInt64) (jettyInfo segInfo : ByteMem)
    {jettyLen segLen : Nat} (hjetty : L.jettyKeySize ≤ jettyLen) (hseg : L.segSize ≤ segLen) :
    Encoded L peerId (jettyInfo.load 0 jettyLen) (segInfo.load 0 segLen)
      (fillPeer L peerId jettyInfo segInfo) where
  peerId := rfl
  eid := by
    rw [field_load _ (L.eid_le.trans hseg)]
    exact toList_ofFn_getD (ByteMem.length_load _ _ _)
  uasid := rfl
  segVa := by
    rw [field_load _ (L.va_le.trans hseg)]
    exact toNat_ofNat_ofLe64 (ByteMem.length_load _ _ _)
  segLen := by
    rw [field_load _ (L.len_le.trans hseg)]
    exact toNat_ofNat_ofLe64 (ByteMem.length_load _ _ _)
  segTokenId := by
    rw [field_load _ (L.tokenId_le.trans hseg)]
    exact toNat_ofNat_ofLe (ByteMem.length_load _ _ _)
  jettyId := by
    rw [field_load _ (L.id_le.trans (L.jettyId_le.trans hjetty))]
    exact toNat_ofNat_ofLe (ByteMem.length_load _ _ _)

/-! ### The contract -/

section Contract

variable {L : UrmaLayout} {peerId : UInt64} {a : PeerInfoArgs}

theorem parsePeerInfo_of_empty (h : a.Empty) :
    parsePeerInfo L peerId a = (.error (-EINVAL), []) := by
  obtain ⟨jettyInfo, jettyInfoLen, segInfo, segInfoLen⟩ := a
  obtain ⟨arg, harg⟩ := h
  unfold parsePeerInfo
  cases jettyInfo with
  | none => rfl
  | some jettyInfo =>
      cases segInfo with
      | none => rfl
      | some segInfo =>
          refine if_pos ?_
          cases arg with
          | jettyInfo => exact harg.elim nofun .inl
          | segInfo => exact harg.elim nofun .inr

theorem parsePeerInfo_of_not_empty (L : UrmaLayout) (peerId : UInt64) (h : ¬ a.Empty) :
    ∃ jettyInfo segInfo, a.jettyInfo = some jettyInfo ∧ a.segInfo = some segInfo ∧
      parsePeerInfo L peerId a = (.ok (fillPeer L peerId jettyInfo segInfo),
        [L.eid, L.va, L.len, L.tokenId, L.jettyId]) := by
  obtain ⟨jettyInfo, jettyInfoLen, segInfo, segInfoLen⟩ := a
  cases jettyInfo with
  | none => exact absurd ⟨.jettyInfo, .inl rfl⟩ h
  | some jettyInfo =>
      cases segInfo with
      | none => exact absurd ⟨.segInfo, .inl rfl⟩ h
      | some segInfo =>
          refine ⟨jettyInfo, segInfo, rfl, rfl, if_neg ?_⟩
          rintro (hlen | hlen)
          · exact h ⟨.jettyInfo, .inr hlen⟩
          · exact h ⟨.segInfo, .inr hlen⟩

/-- The structures are not empty. -/
theorem PeerInfoArgs.Whole.not_empty (h : a.Whole L) : ¬ a.Empty := by
  rintro ⟨arg, hnone | hzero⟩
  · exact (h arg).1 hnone
  · have hsize := (h arg).2
    have heid := L.eid_le
    have hid := L.id_le
    have hkey := L.jettyId_le
    rw [hzero] at hsize
    cases arg with
    | jettyInfo =>
        have : L.jettyKeySize ≤ 0 := hsize
        omega
    | segInfo =>
        have : L.segSize ≤ 0 := hsize
        omega

theorem peerInfoContract_of_empty (h : a.Empty) : PeerInfoContract L peerId a where
  bounded := by
    rw [parsePeerInfo_of_empty h]
    exact fun r hr => nomatch hr
  rejected := by
    intro _ σ M conn mgr
    rw [ramdiskCtrlParsePeerConnect, parsePeerInfo_of_empty h]
  silent := by
    intro _ conn
    rw [peerInfoSent, parsePeerInfo_of_empty h]
  carried := fun hwhole => absurd h hwhole.not_empty

theorem peerInfoContract_of_whole (h : a.Whole L) : PeerInfoContract L peerId a := by
  obtain ⟨jettyInfo, segInfo, hjetty, hseg, hparse⟩ :=
    parsePeerInfo_of_not_empty L peerId h.not_empty
  have hkey : L.jettyKeySize ≤ a.jettyInfoLen.toNat := (h .jettyInfo).2
  have hsize : L.segSize ≤ a.segInfoLen.toNat := (h .segInfo).2
  refine ⟨?_, fun hnot => absurd h hnot, fun hnot => absurd h hnot, ?_⟩
  · rw [hparse]
    -- the fields lie inside the structures, and those inside the buffers
    have hseg' : ∀ off n, off + n ≤ L.segSize → off + n ≤ (a.stated .segInfo).toNat :=
      fun off n hle => hle.trans hsize
    simp only [List.forall_mem_cons]
    refine ⟨hseg' _ _ L.eid_le, hseg' _ _ L.va_le, hseg' _ _ L.len_le, hseg' _ _ L.tokenId_le,
      L.id_le.trans (L.jettyId_le.trans hkey), fun r hr => nomatch hr⟩
  · intro _ jettyInfo' segInfo' hjetty' hseg'
    obtain rfl := Option.some.inj (hjetty.symm.trans hjetty')
    obtain rfl := Option.some.inj (hseg.symm.trans hseg')
    refine ⟨_, encoded_fillPeer peerId jettyInfo segInfo hkey hsize, ?_⟩
    intro conn
    have hsent : peerInfoSent L conn peerId a = conn.sent peerConnect
        (storeConnect (fillPeer L peerId jettyInfo segInfo) 0) connectSize 1 := by
      rw [peerInfoSent, hparse]
    rw [hsent]
    refine ⟨sent_begins conn _, ?_⟩
    intro hconn
    refine ⟨sent_reliable hconn _, ?_⟩
    intro σ M mgr
    rw [ramdiskCtrlParsePeerConnect, hparse]
    dsimp only
    rw [transact_of_op M hconn (some (storeConnect _ 0)) (length_storeConnect _ 0) (by decide)
      (op_peerConnect 1 _ 0) (by simp)]

/-- A connection that moves every byte at once. -/
def Conn.plain : Conn where
  pathNull := false
  socketErr := none
  connectErr := none
  clientWrite := []
  serverRead := []
  serverWrite := []
  clientRead := []
  junk := fun _ => ByteMem.zero

theorem Conn.plain_reliable : Conn.plain.Reliable := by
  have hquiet : Quiet isEintr [] := fun e he => nomatch he
  exact ⟨rfl, rfl, rfl, hquiet, hquiet, hquiet, hquiet⟩

theorem connectRequest_ne_nil (peer : PeerConnectInfo) : connectRequest peer ≠ [] := by
  intro h
  have hlen := congrArg List.length h
  rw [connectRequest, List.length_append, length_hdr_bytes] at hlen
  exact absurd hlen (by simp)

/-- **When the contract is kept**: exactly if a buffer is missing or empty, or both
hold their structures.  A buffer of one byte up to one byte less than the
structure is read behind its end and sent. -/
theorem peerInfoContract_iff (L : UrmaLayout) (peerId : UInt64) (a : PeerInfoArgs) :
    PeerInfoContract L peerId a ↔ a.Empty ∨ a.Whole L := by
  constructor
  · intro h
    by_contra hnot
    obtain ⟨hempty, hwhole⟩ := not_or.mp hnot
    obtain ⟨jettyInfo, segInfo, -, -, hparse⟩ :=
      parsePeerInfo_of_not_empty L peerId hempty
    have hsent := h.silent hwhole Conn.plain
    rw [peerInfoSent, hparse] at hsent
    dsimp only at hsent
    rw [sent_reliable Conn.plain_reliable] at hsent
    exact connectRequest_ne_nil _ hsent
  · rintro (h | h)
    · exact peerInfoContract_of_empty h
    · exact peerInfoContract_of_whole h

end Contract

/-- A layout with the EID first and the token last. -/
def UrmaLayout.packed : UrmaLayout where
  segSize := 48
  eidOff := 0
  vaOff := 24
  lenOff := 32
  tokenIdOff := 44
  jettyKeySize := 28
  jettyIdSize := 24
  idOff := 20
  eid_le := by decide
  va_le := by decide
  len_le := by decide
  tokenId_le := by decide
  id_le := by decide
  jettyId_le := by decide

/-- A `seg_info` of one byte: 16 bytes are read for the EID alone. -/
theorem not_peerInfoContract :
    ¬ PeerInfoContract .packed 7 ⟨some ByteMem.zero, 28, some ByteMem.zero, 1⟩ := by
  intro h
  have hle : 0 + 16 ≤ 1 := h.bounded UrmaLayout.packed.eid List.mem_cons_self
  exact absurd hle (by decide)

end Ctrl

end DirectStorage
