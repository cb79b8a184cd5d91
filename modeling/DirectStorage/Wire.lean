/-
DirectStorage/Wire.lean

Fixed-width unsigned integers as byte strings, in both byte orders.

`toBe w v` and `toLe w v` are the `w` bytes of `v` (taken modulo `256 ^ w`),
most and least significant byte first; `ofBe` and `ofLe` read a byte string
of any length back.  The lemmas are the two round trips and the fact that one
order is the reverse of the other, which is all that is needed to relate a
host-order load followed by a byte swap to a network-order field.
-/
import Mathlib.Tactic.Common
import Mathlib.Tactic.Ring

namespace DirectStorage

/-- Least significant byte first. -/
def toLe : Nat → Nat → List UInt8
  | 0, _ => []
  | w + 1, v => UInt8.ofNat v :: toLe w (v / 256)

/-- Read a byte string, least significant byte first. -/
def ofLe : List UInt8 → Nat
  | [] => 0
  | b :: bs => b.toNat + 256 * ofLe bs

/-- Most significant byte first. -/
def toBe (w v : Nat) : List UInt8 := (toLe w v).reverse

/-- Read a byte string, most significant byte first. -/
def ofBe (bs : List UInt8) : Nat := ofLe bs.reverse

@[simp] theorem length_toLe (w v : Nat) : (toLe w v).length = w := by
  induction w generalizing v with
  | zero => rfl
  | succ w ih => simp [toLe, ih]

@[simp] theorem length_toBe (w v : Nat) : (toBe w v).length = w := by
  simp [toBe]

/-! ### Round trips -/

theorem ofLe_lt (bs : List UInt8) : ofLe bs < 256 ^ bs.length := by
  induction bs with
  | nil => simp [ofLe]
  | cons b bs ih =>
      have hb : b.toNat < 256 := b.toNat_lt
      simp only [ofLe, List.length_cons, pow_succ]
      omega

theorem ofBe_lt (bs : List UInt8) : ofBe bs < 256 ^ bs.length := by
  simpa [ofBe] using ofLe_lt bs.reverse

/-- Reading back an encoded number gives it modulo the width. -/
theorem ofLe_toLe (w v : Nat) : ofLe (toLe w v) = v % 256 ^ w := by
  induction w generalizing v with
  | zero => simp [toLe, ofLe, Nat.mod_one]
  | succ w ih =>
      simp only [toLe, ofLe, ih]
      have hb : (UInt8.ofNat v).toNat = v % 256 := by simp
      rw [hb, pow_succ, Nat.mul_comm (256 ^ w) 256, Nat.mod_mul]

theorem ofBe_toBe (w v : Nat) : ofBe (toBe w v) = v % 256 ^ w := by
  simp [ofBe, toBe, ofLe_toLe]

/-- Encoding what was read gives the same bytes back. -/
theorem toLe_ofLe (bs : List UInt8) : toLe bs.length (ofLe bs) = bs := by
  induction bs with
  | nil => rfl
  | cons b bs ih =>
      have hb : b.toNat < 256 := b.toNat_lt
      simp only [List.length_cons, toLe, ofLe]
      have hdiv : (b.toNat + 256 * ofLe bs) / 256 = ofLe bs := by omega
      have hmod : UInt8.ofNat (b.toNat + 256 * ofLe bs) = b := by
        apply UInt8.toNat.inj
        simp
      rw [hdiv, hmod, ih]

theorem toBe_ofBe (bs : List UInt8) : toBe bs.length (ofBe bs) = bs := by
  have := toLe_ofLe bs.reverse
  rw [List.length_reverse] at this
  rw [toBe, ofBe, this, List.reverse_reverse]

/-! ### Splitting a number at a byte boundary -/

theorem ofLe_append (as bs : List UInt8) :
    ofLe (as ++ bs) = ofLe as + 256 ^ as.length * ofLe bs := by
  induction as with
  | nil => simp [ofLe]
  | cons a as ih =>
      simp only [List.cons_append, ofLe, ih, List.length_cons, pow_succ]
      ring

theorem ofBe_append (as bs : List UInt8) :
    ofBe (as ++ bs) = ofBe as * 256 ^ bs.length + ofBe bs := by
  simp only [ofBe, List.reverse_append, ofLe_append, List.length_reverse]
  ring

/-! ### Fields of a byte string -/

/-- The `w` bytes from `off` on. -/
def field (bs : List UInt8) (off w : Nat) : List UInt8 := (bs.drop off).take w

theorem length_field {bs : List UInt8} {off w : Nat} (h : off + w ≤ bs.length) :
    (field bs off w).length = w := by
  rw [field, List.length_take, List.length_drop]
  omega

/-- The field at the start of a string. -/
theorem field_append_left {as bs : List UInt8} {w : Nat} (h : as.length = w) :
    field (as ++ bs) 0 w = as := by
  subst h
  simp [field]

/-- A string that is one field. -/
theorem field_self {bs : List UInt8} {w : Nat} (h : bs.length = w) : field bs 0 w = bs := by
  subst h
  simp [field]

/-- A field that lies behind the first part of a string. -/
theorem field_append_right {as bs : List UInt8} {off w : Nat} (h : as.length ≤ off) :
    field (as ++ bs) off w = field bs (off - as.length) w := by
  rw [field, List.drop_append, List.drop_of_length_le h, List.nil_append, field]

/-- A field that lies inside the first part of a string. -/
theorem field_append_of_le {as bs : List UInt8} {off w : Nat} (h : off + w ≤ as.length) :
    field (as ++ bs) off w = field as off w := by
  rw [field, field, List.drop_append_of_le_length (by omega), List.take_append_of_le_length]
  rw [List.length_drop]
  omega

/-- A string cut at a field is the string. -/
theorem take_append_field (bs : List UInt8) (off w : Nat) :
    bs.take off ++ field bs off w = bs.take (off + w) := by
  rw [field, List.take_add]

/-! ### Machine integers -/

theorem toNat_ofNat_ofLe16 {bs : List UInt8} (h : bs.length = 2) :
    (UInt16.ofNat (ofLe bs)).toNat = ofLe bs := by
  have hlt := ofLe_lt bs
  rw [h] at hlt
  exact UInt16.toNat_ofNat_of_lt' hlt

theorem toNat_ofNat_ofLe {bs : List UInt8} (h : bs.length = 4) :
    (UInt32.ofNat (ofLe bs)).toNat = ofLe bs := by
  have hlt := ofLe_lt bs
  rw [h] at hlt
  exact UInt32.toNat_ofNat_of_lt' hlt

theorem toNat_ofNat_ofLe64 {bs : List UInt8} (h : bs.length = 8) :
    (UInt64.ofNat (ofLe bs)).toNat = ofLe bs := by
  have hlt := ofLe_lt bs
  rw [h] at hlt
  exact UInt64.toNat_ofNat_of_lt' hlt

/-- A string of the right length is read back from its number. -/
theorem toLe_ofLe_of_length {bs : List UInt8} {w : Nat} (h : bs.length = w) :
    toLe w (ofLe bs) = bs := by
  rw [← h, toLe_ofLe]

/-- A number that fits is read back from its string. -/
theorem ofLe_toLe_of_lt {w v : Nat} (h : v < 256 ^ w) : ofLe (toLe w v) = v := by
  rw [ofLe_toLe, Nat.mod_eq_of_lt h]

theorem ofNat_ofLe_toLe16 (v : UInt16) : UInt16.ofNat (ofLe (toLe 2 v.toNat)) = v := by
  rw [ofLe_toLe_of_lt v.toNat_lt, UInt16.ofNat_toNat]

theorem ofNat_ofLe_toLe32 (v : UInt32) : UInt32.ofNat (ofLe (toLe 4 v.toNat)) = v := by
  rw [ofLe_toLe_of_lt v.toNat_lt, UInt32.ofNat_toNat]

theorem ofNat_ofLe_toLe64 (v : UInt64) : UInt64.ofNat (ofLe (toLe 8 v.toNat)) = v := by
  rw [ofLe_toLe_of_lt v.toNat_lt, UInt64.ofNat_toNat]

/-! ### Byte order of a little-endian host -/

/-- `ntohl` on a little-endian host (where `htonl` is the same function): the
four bytes of the number, read in the other order. -/
def ntohl (v : UInt32) : UInt32 := UInt32.ofNat (ofBe (toLe 4 v.toNat))

/-- A field loaded in host order and converted is the big-endian value. -/
theorem ntohl_load {bs : List UInt8} (h : bs.length = 4) :
    ntohl (UInt32.ofNat (ofLe bs)) = UInt32.ofNat (ofBe bs) := by
  rw [ntohl, toNat_ofNat_ofLe h, ← h, toLe_ofLe]

/-- A converted number stored in host order has the big-endian bytes. -/
theorem toLe_ntohl (v : UInt32) : toLe 4 (ntohl v).toNat = toBe 4 v.toNat := by
  have hlen : (toLe 4 v.toNat).reverse.length = 4 := by simp
  have hround := toLe_ofLe (toLe 4 v.toNat).reverse
  rw [hlen] at hround
  rw [ntohl, ofBe, toNat_ofNat_ofLe hlen, hround, toBe]

end DirectStorage
