/-
DirectStorage/NbdProtocol.lean

The NBD protocol as its two sides see it: requests and replies as values,
their bytes on the wire in network order, and what a request means for the
content of the device.

Nothing here is taken from the server.  A request value carries the proof
that it is well formed: the right magic, an eight-byte handle, and a payload
of `len` bytes exactly when it is a WRITE.  The link to the server is
`loadRequest_ntoh`: loading the header in host order and converting each
number gives the header that is on the wire.

Main results: the request format (`nbdFormat`, `nbdCodec`), and
`loadRequest_ntoh`.
-/
import DirectStorage.Nbd
import DirectStorage.Framing
import Mathlib.Data.Nat.Bitwise

namespace DirectStorage

/-! ### Numbers on the wire -/

theorem toBe_ofNat32 {bs : List UInt8} (h : bs.length = 4) :
    toBe 4 (UInt32.ofNat (ofBe bs)).toNat = bs := by
  rw [ofBe, toNat_ofNat_ofLe (by simpa using h), ← ofBe]
  conv_lhs => rw [← h]
  exact toBe_ofBe bs

theorem toBe_ofNat64 {bs : List UInt8} (h : bs.length = 8) :
    toBe 8 (UInt64.ofNat (ofBe bs)).toNat = bs := by
  rw [ofBe, toNat_ofNat_ofLe64 (by simpa using h), ← ofBe]
  conv_lhs => rw [← h]
  exact toBe_ofBe bs

theorem ofBe_toBe32 (v : UInt32) : UInt32.ofNat (ofBe (toBe 4 v.toNat)) = v := by
  have hlt : v.toNat < 256 ^ 4 := v.toNat_lt
  rw [ofBe_toBe, Nat.mod_eq_of_lt hlt, UInt32.ofNat_toNat]

theorem ofBe_toBe64 (v : UInt64) : UInt64.ofNat (ofBe (toBe 8 v.toNat)) = v := by
  have hlt : v.toNat < 256 ^ 8 := v.toNat_lt
  rw [ofBe_toBe, Nat.mod_eq_of_lt hlt, UInt64.ofNat_toNat]

/-- **`ntohll_u64` reverses eight bytes**: a field loaded in host order and
converted by halves is its big-endian value. -/
theorem ntohllU64_load {bs : List UInt8} (h : bs.length = 8) :
    ntohllU64 (UInt64.ofNat (ofLe bs)) = UInt64.ofNat (ofBe bs) := by
  obtain ⟨as, cs, rfl, ha, hc⟩ : ∃ as cs, bs = as ++ cs ∧ as.length = 4 ∧ cs.length = 4 :=
    ⟨bs.take 4, bs.drop 4, (List.take_append_drop 4 bs).symm, by simp [h], by simp [h]⟩
  have hlt : ofLe as < 2 ^ 32 := by simpa [ha] using ofLe_lt as
  have hltc : ofLe cs < 2 ^ 32 := by simpa [hc] using ofLe_lt cs
  have hval : (UInt64.ofNat (ofLe (as ++ cs))).toNat = ofLe as + 2 ^ 32 * ofLe cs := by
    rw [toNat_ofNat_ofLe64 h, ofLe_append, ha]
    rfl
  -- the two halves of the loaded number are the halves of the string
  have hhigh : (UInt64.ofNat (ofLe (as ++ cs)) >>> 32).toUInt32 = UInt32.ofNat (ofLe cs) := by
    apply UInt32.toNat.inj
    rw [UInt64.toNat_toUInt32, UInt64.toNat_shiftRight, hval, toNat_ofNat_ofLe hc]
    simp [Nat.shiftRight_eq_div_pow]
    omega
  have hlow : (UInt64.ofNat (ofLe (as ++ cs)) &&& 0xffffffff).toUInt32 =
      UInt32.ofNat (ofLe as) := by
    apply UInt32.toNat.inj
    rw [UInt64.toNat_toUInt32, UInt64.toNat_and, hval, toNat_ofNat_ofLe ha]
    show ((ofLe as + 2 ^ 32 * ofLe cs) &&& (2 ^ 32 - 1)) % 2 ^ 32 = ofLe as
    rw [Nat.and_two_pow_sub_one_eq_mod]
    omega
  have hltc' : ofBe cs < 2 ^ 32 := by simpa [hc] using ofBe_lt cs
  have hlta' : ofBe as < 2 ^ 32 := by simpa [ha] using ofBe_lt as
  simp only [ntohllU64]
  rw [hhigh, hlow, ntohl_load hc, ntohl_load ha]
  apply UInt64.toNat.inj
  rw [UInt64.toNat_or, UInt64.toNat_shiftLeft, UInt32.toNat_toUInt64, UInt32.toNat_toUInt64,
    UInt32.toNat_ofNat_of_lt' hlta', UInt32.toNat_ofNat_of_lt' hltc']
  have hshift : ofBe as <<< ((32 : UInt64).toNat % 64) % 2 ^ 64 = ofBe as <<< 32 := by
    show ofBe as <<< 32 % 2 ^ 64 = ofBe as <<< 32
    rw [Nat.shiftLeft_eq]
    omega
  rw [hshift, ← Nat.shiftLeft_add_eq_or_of_lt hltc', ofBe_append, hc, Nat.shiftLeft_eq]
  have hfit : ofBe as * 2 ^ 32 + ofBe cs < 2 ^ 64 := by omega
  exact (UInt64.toNat_ofNat_of_lt' hfit).symm

/-! ### Headers on the wire -/

/-- The header at the head of a string, its numbers in network order. -/
def wireRequest (bs : List UInt8) : NbdHeader where
  magic := UInt32.ofNat (ofBe (field bs 0 4))
  type := UInt32.ofNat (ofBe (field bs 4 4))
  handle := field bs 8 8
  from_ := UInt64.ofNat (ofBe (field bs 16 8))
  len := UInt32.ofNat (ofBe (field bs 24 4))

/-- The bytes of a header on the wire. -/
def NbdHeader.bytes (h : NbdHeader) : List UInt8 :=
  toBe 4 h.magic.toNat ++ (toBe 4 h.type.toNat ++ (h.handle ++
    (toBe 8 h.from_.toNat ++ toBe 4 h.len.toNat)))

/-- **The server reads the header that is on the wire.** -/
theorem loadRequest_ntoh {bs : List UInt8} (h : nbdRequestSize ≤ bs.length) :
    (loadRequest bs).ntoh = wireRequest bs := by
  have hlen : ∀ {off w}, off + w ≤ nbdRequestSize → (field bs off w).length = w :=
    fun hle => length_field (hle.trans h)
  simp only [loadRequest, NbdHeader.ntoh, wireRequest]
  rw [ntohl_load (hlen (by decide)), ntohl_load (hlen (by decide)),
    ntohllU64_load (hlen (by decide)), ntohl_load (hlen (by decide))]

theorem length_bytes {h : NbdHeader} (hh : h.handle.length = 8) :
    h.bytes.length = nbdRequestSize := by
  simp [NbdHeader.bytes, hh]

theorem wireRequest_bytes {h : NbdHeader} (hh : h.handle.length = 8) (rest : List UInt8) :
    wireRequest (h.bytes ++ rest) = h := by
  simp [wireRequest, NbdHeader.bytes, field_append_left, field_append_right, hh, ofBe_toBe32,
    ofBe_toBe64]

theorem bytes_wireRequest {bs : List UInt8} (h : nbdRequestSize ≤ bs.length) :
    (wireRequest bs).bytes = bs.take nbdRequestSize := by
  have hlen : ∀ {off w}, off + w ≤ nbdRequestSize → (field bs off w).length = w :=
    fun hle => length_field (hle.trans h)
  simp only [wireRequest, NbdHeader.bytes]
  rw [toBe_ofNat32 (hlen (by decide)), toBe_ofNat32 (hlen (by decide)),
    toBe_ofNat64 (hlen (by decide)), toBe_ofNat32 (hlen (by decide))]
  have hcut := take_append_field bs
  rw [show nbdRequestSize = 24 + 4 from rfl, ← hcut, ← hcut 16 8, ← hcut 8 8, ← hcut 4 4,
    ← hcut 0 4]
  simp

/-! ### Requests -/

/-- How many bytes follow the header. -/
def NbdHeader.payloadLen (h : NbdHeader) : Nat :=
  if h.type = nbdCmdWrite then h.len.toNat else 0

/-- **The request format.** -/
def nbdFormat : HeaderFormat UInt8 NbdHeader where
  size := nbdRequestSize
  size_pos := by decide
  load := wireRequest
  bytes := NbdHeader.bytes
  ok h := h.magic = nbdRequestMagic ∧ h.handle.length = 8
  payloadLen := NbdHeader.payloadLen
  decidableOk _ := inferInstance
  length_bytes h := length_bytes h.2
  load_bytes h := wireRequest_bytes h.2
  bytes_load := bytes_wireRequest

/-- A complete request. -/
abbrev NbdReq := nbdFormat.Frame

def nbdCodec : Codec UInt8 NbdReq := nbdFormat.codec

theorem NbdReq.magic_eq (r : NbdReq) : r.hdr.magic = nbdRequestMagic := r.ok.1

theorem NbdReq.handle_length (r : NbdReq) : r.hdr.handle.length = 8 := r.ok.2

theorem NbdReq.length_payload (r : NbdReq) : r.payload.length = r.hdr.payloadLen :=
  r.payload_length

/-! ### What a request means -/

/-- The range of the request lies inside the device, over the integers. -/
def NbdHeader.InRange (h : NbdHeader) (b : Backend) : Prop :=
  h.from_.toNat + h.len.toNat ≤ b.size.toNat

instance (h : NbdHeader) (b : Backend) : Decidable (h.InRange b) :=
  inferInstanceAs (Decidable (_ ≤ _))

/-- The device after a request: a WRITE in range stores its payload, a TRIM in
range clears its bytes, and nothing else changes the content. -/
def NbdReq.apply (b : Backend) (r : NbdReq) : Backend :=
  if r.hdr.type = nbdCmdWrite ∧ r.hdr.InRange b then
    { b with mem := b.mem.store r.hdr.from_.toNat r.payload }
  else if r.hdr.type = nbdCmdTrim ∧ r.hdr.InRange b then
    { b with mem := b.mem.fill r.hdr.from_.toNat r.hdr.len.toNat 0 }
  else b

/-- The device after a sequence of requests. -/
def applyAll (b : Backend) (rs : List NbdReq) : Backend := rs.foldl NbdReq.apply b

theorem apply_live {b : Backend} (hb : b.Live) (r : NbdReq) : (r.apply b).Live := by
  unfold NbdReq.apply
  split_ifs
  · exact hb.withMem _
  · exact hb.withMem _
  · exact hb

end DirectStorage
