/-
DirectStorage/CText.lean

Text as C programs read and print it: bytes in ASCII, without the final
`'\0'`.

The first part is about hexadecimal digits: the value of a digit of either case,
the digits of a text, two digits put together to a byte, and a byte printed as
two digits.  `digits_flatMap_hexByte` and `pairUp_flatMap_nibbles` are the two
halves of the round trip.

The second part is `strtoull` as the C standard describes it: white space, a
sign, the longest run of digits, saturation when the number does not fit, and
negation modulo `2 ^ 64` after a minus sign.  The characters that count as white
space are an argument.  `readNumber_eq_some_iff` says which texts have a number
in front, without the order in which the function looks, and `Literal.strtoull`
that with base 0 the integer literals of C are read for what they say.
-/
import Mathlib.Data.List.TakeWhile
import Mathlib.Data.Nat.Digits.Defs

namespace DirectStorage

namespace CText

/-- The bytes of a string literal. -/
def ascii (s : String) : List UInt8 := s.toList.map fun c => UInt8.ofNat c.toNat

/-! ### Hexadecimal digits -/

/-- The value of a digit of either case. -/
def digitValue (c : UInt8) : Option Nat :=
  if 48 ≤ c.toNat ∧ c.toNat ≤ 57 then some (c.toNat - 48)
  else if 97 ≤ c.toNat ∧ c.toNat ≤ 102 then some (c.toNat - 87)
  else if 65 ≤ c.toNat ∧ c.toNat ≤ 70 then some (c.toNat - 55)
  else none

example : (ascii "09afAF:-gG ").map digitValue =
    [some 0, some 9, some 10, some 15, some 10, some 15, none, none, none, none, none] := by decide

theorem digitValue_cases {c : UInt8} {v : Nat} (h : digitValue c = some v) :
    v < 16 ∧ ((48 ≤ c.toNat ∧ c.toNat ≤ 57) ∨ (97 ≤ c.toNat ∧ c.toNat ≤ 102) ∨
      (65 ≤ c.toNat ∧ c.toNat ≤ 70)) := by
  unfold digitValue at h
  split_ifs at h with h₁ h₂ h₃
  · exact ⟨by have := Option.some.inj h; omega, .inl h₁⟩
  · exact ⟨by have := Option.some.inj h; omega, .inr (.inl h₂)⟩
  · exact ⟨by have := Option.some.inj h; omega, .inr (.inr h₃)⟩

/-- The sixteen digits, in lower case. -/
def lowerDigits : List UInt8 :=
  [48, 49, 50, 51, 52, 53, 54, 55, 56, 57, 97, 98, 99, 100, 101, 102]

example : lowerDigits = ascii "0123456789abcdef" := by decide

/-- The values of the digits of a text, in order; all else is left out. -/
def digits (text : List UInt8) : List Nat := text.filterMap digitValue

/-- Two digits to a byte, the high half first. -/
def pairUp : List Nat → List UInt8
  | high :: low :: rest => UInt8.ofNat (16 * high + low) :: pairUp rest
  | _ => []

/-- The values of the two digits of a byte. -/
def nibbles (b : UInt8) : List Nat := [b.toNat / 16, b.toNat % 16]

/-- A byte as two digits in lower case. -/
def hexByte (b : UInt8) : List UInt8 := (nibbles b).map fun v => lowerDigits.getD v 0

@[simp] theorem digits_nil : digits [] = [] := rfl

@[simp] theorem digits_append (s t : List UInt8) : digits (s ++ t) = digits s ++ digits t :=
  List.filterMap_append

theorem digits_cons_of_none {c : UInt8} (h : digitValue c = none) (text : List UInt8) :
    digits (c :: text) = digits text :=
  List.filterMap_cons_none h

theorem digits_cons_of_some {c : UInt8} {v : Nat} (h : digitValue c = some v)
    (text : List UInt8) : digits (c :: text) = v :: digits text :=
  List.filterMap_cons_some h

theorem digitValue_lowerDigits (v : Fin 16) :
    digitValue (lowerDigits.getD v.val 0) = some v.val := by
  revert v
  decide

theorem digits_hexByte (b : UInt8) : digits (hexByte b) = nibbles b := by
  have hhigh : b.toNat / 16 < 16 := Nat.div_lt_of_lt_mul b.toNat_lt
  have hlow : b.toNat % 16 < 16 := Nat.mod_lt _ (by decide)
  show digits [lowerDigits.getD _ 0, lowerDigits.getD _ 0] = _
  rw [digits_cons_of_some (digitValue_lowerDigits ⟨_, hhigh⟩),
    digits_cons_of_some (digitValue_lowerDigits ⟨_, hlow⟩), digits_nil]
  rfl

theorem digits_flatMap_hexByte (bytes : List UInt8) :
    digits (bytes.flatMap hexByte) = bytes.flatMap nibbles := by
  induction bytes with
  | nil => rfl
  | cons b rest ih => rw [List.flatMap_cons, digits_append, digits_hexByte, ih, List.flatMap_cons]

theorem pairUp_flatMap_nibbles (bytes : List UInt8) : pairUp (bytes.flatMap nibbles) = bytes := by
  induction bytes with
  | nil => rfl
  | cons b rest ih =>
      show UInt8.ofNat (16 * (b.toNat / 16) + b.toNat % 16) :: pairUp (rest.flatMap nibbles) = _
      rw [ih, Nat.div_add_mod, UInt8.ofNat_toNat]

theorem length_flatMap_nibbles (bytes : List UInt8) :
    (bytes.flatMap nibbles).length = 2 * bytes.length := by
  induction bytes with
  | nil => rfl
  | cons b rest ih =>
      rw [List.flatMap_cons, List.length_append, ih, List.length_cons]
      show 2 + _ = _
      omega

theorem length_pairUp (ds : List Nat) : (pairUp ds).length = ds.length / 2 := by
  induction ds using pairUp.induct with
  | case1 high low rest ih =>
      rw [pairUp, List.length_cons, ih, List.length_cons, List.length_cons]
      omega
  | case2 ds h =>
      rcases ds with - | ⟨a, - | ⟨b, rest⟩⟩
      · rfl
      · simp [pairUp]
      · exact absurd rfl (h a b rest)

/-- Byte `k` is made of the digits `2 * k` and `2 * k + 1`. -/
theorem getD_pairUp (ds : List Nat) {k : Nat} (hk : 2 * k + 1 < ds.length) :
    (pairUp ds).getD k 0 = UInt8.ofNat (16 * ds.getD (2 * k) 0 + ds.getD (2 * k + 1) 0) := by
  induction ds using pairUp.induct generalizing k with
  | case1 high low rest ih =>
      cases k with
      | zero => rfl
      | succ k =>
          have hk' : 2 * k + 1 < rest.length := by
            simp only [List.length_cons] at hk
            omega
          show (pairUp rest).getD k 0 = _
          rw [ih hk']
          rfl
  | case2 ds h =>
      rcases ds with - | ⟨a, - | ⟨b, rest⟩⟩
      · exact absurd hk (Nat.not_lt_zero _)
      · simp at hk
      · exact absurd rfl (h a b rest)

/-- The last digit, if it has no partner. -/
def leftover : List Nat → Option Nat
  | [] => none
  | [d] => some d
  | _ :: _ :: rest => leftover rest

theorem leftover_eq_none_iff (ds : List Nat) : leftover ds = none ↔ ds.length % 2 = 0 := by
  induction ds using leftover.induct with
  | case1 => simp [leftover]
  | case2 d => simp [leftover]
  | case3 a b rest ih =>
      rw [leftover, ih, List.length_cons, List.length_cons]
      omega

/-- One more digit, when all digits have a partner. -/
theorem pairUp_concat_of_none {ds : List Nat} (h : leftover ds = none) (v : Nat) :
    pairUp (ds ++ [v]) = pairUp ds ∧ leftover (ds ++ [v]) = some v := by
  induction ds using leftover.induct with
  | case1 => exact ⟨rfl, rfl⟩
  | case2 d => cases h
  | case3 a b rest ih =>
      obtain ⟨hpair, hleft⟩ := ih h
      exact ⟨congrArg (_ :: ·) hpair, hleft⟩

/-- One more digit, as the partner of the last one. -/
theorem pairUp_concat_of_some {ds : List Nat} {d : Nat} (h : leftover ds = some d) (v : Nat) :
    pairUp (ds ++ [v]) = pairUp ds ++ [UInt8.ofNat (16 * d + v)] ∧
      leftover (ds ++ [v]) = none := by
  induction ds using leftover.induct with
  | case1 => cases h
  | case2 d' =>
      obtain rfl : d' = d := Option.some.inj h
      exact ⟨rfl, rfl⟩
  | case3 a b rest ih =>
      obtain ⟨hpair, hleft⟩ := ih h
      exact ⟨congrArg (_ :: ·) hpair, hleft⟩

theorem leftover_mem {ds : List Nat} {d : Nat} (h : leftover ds = some d) : d ∈ ds := by
  induction ds using leftover.induct with
  | case1 => cases h
  | case2 d' =>
      obtain rfl : d' = d := Option.some.inj h
      exact List.mem_cons_self
  | case3 a b rest ih =>
      exact List.mem_cons_of_mem a (List.mem_cons_of_mem b (ih h))

/-! ### Numbers -/

/-- The digits of a base up to 16. -/
def isDigit (base : Nat) (c : UInt8) : Bool := (digitValue c).any (· < base)

theorem toNat_of_isDigit {base : Nat} {c : UInt8} (h : isDigit base c = true) :
    48 ≤ c.toNat := by
  obtain ⟨v, hv, -⟩ := (Option.any_eq_true _ _).mp h
  rcases (digitValue_cases hv).2 with hc | hc | hc <;> omega

/-- The number a run of digits stands for, taken up digit by digit. -/
def number (base : Nat) (run : List UInt8) : Nat :=
  (digits run).foldl (fun n v => base * n + v) 0

theorem number_eq_ofDigits (base : Nat) (run : List UInt8) :
    number base run = Nat.ofDigits base (digits run).reverse := by
  rw [Nat.ofDigits_eq_foldr, List.foldr_reverse]
  simp only [number, Nat.cast_id, Nat.add_comm]

example : number 10 (ascii "4096") = 4096 := by decide

/-- A sign in front of a number: whether it is a minus, and what follows. -/
def readSign : List UInt8 → Bool × List UInt8
  | [] => (false, [])
  | c :: rest =>
      if c = 45 then (true, rest) else (false, if c = 43 then rest else c :: rest)

/-- `0x` in front of a digit. -/
def startsHex (text : List UInt8) : Bool :=
  text[0]? = some 48 ∧ (text[1]? = some 120 ∨ text[1]? = some 88) ∧
    (text[2]?).any (isDigit 16)

/-- The base of a number and its digits: base 0 leaves the choice to the text. -/
def readBase (base : Nat) (text : List UInt8) : Nat × List UInt8 :=
  if (base = 0 ∨ base = 16) ∧ startsHex text then (16, text.drop 2)
  else if base = 0 then (if text[0]? = some 48 then 8 else 10, text)
  else (base, text)

/-- The number in front of a text, if there is one: its sign, its amount, and
the text behind it. -/
def readNumber (isspace : UInt8 → Bool) (base : Nat) (text : List UInt8) :
    Option (Bool × Nat × List UInt8) :=
  let (negative, unsigned) := readSign (text.dropWhile isspace)
  let (base, body) := readBase base unsigned
  let run := body.takeWhile (isDigit base)
  if run = [] then none
  else some (negative, number base run, body.dropWhile (isDigit base))

/-- What is returned for a number: the greatest value if the amount does not
fit, and the negative of the amount after a minus sign. -/
def toUnsigned (negative : Bool) (n : Nat) : Nat :=
  if 2 ^ 64 ≤ n then 2 ^ 64 - 1
  else if negative then (2 ^ 64 - n) % 2 ^ 64
  else n

/-- `strtoull`: the value, and the text at `*endptr`. -/
def strtoull (isspace : UInt8 → Bool) (base : Nat) (text : List UInt8) : UInt64 × List UInt8 :=
  match readNumber isspace base text with
  | none => (0, text)
  | some (negative, n, rest) => (UInt64.ofNat (toUnsigned negative n), rest)

theorem toUnsigned_lt (negative : Bool) (n : Nat) : toUnsigned negative n < 2 ^ 64 := by
  unfold toUnsigned
  split_ifs
  · exact Nat.sub_lt (Nat.two_pow_pos 64) Nat.one_pos
  · exact Nat.mod_lt _ (Nat.two_pow_pos 64)
  · omega

theorem toUnsigned_of_le {n : Nat} (h : 2 ^ 64 ≤ n) (negative : Bool) :
    toUnsigned negative n = 2 ^ 64 - 1 := if_pos h

theorem toUnsigned_of_lt {n : Nat} (h : n < 2 ^ 64) : toUnsigned false n = n :=
  if_neg (Nat.not_le.mpr h)

/-- A negative number is 0 only if it is written so. -/
theorem toUnsigned_true_pos_iff {n : Nat} : 0 < toUnsigned true n ↔ 0 < n := by
  unfold toUnsigned
  split_ifs with h
  · omega
  · omega
  · contradiction

/-- The texts of a sign, and whether it is a minus. -/
inductive Sign : List UInt8 → Bool → Prop
  | unsigned : Sign [] false
  | plus : Sign [43] false
  | minus : Sign [45] true

/-- A text that begins with a number: white space, a sign and a run of digits
that no further digit follows. -/
structure Numeral (isspace : UInt8 → Bool) (base : Nat) (space sign run rest : List UInt8)
    (negative : Bool) : Prop where
  space : ∀ c ∈ space, isspace c = true
  sign : Sign sign negative
  run_ne : run ≠ []
  run : ∀ c ∈ run, isDigit base c = true
  rest : ∀ c ∈ rest.head?, isDigit base c = false

theorem readSign_spec (text : List UInt8) :
    ∃ sign, Sign sign (readSign text).1 ∧ text = sign ++ (readSign text).2 := by
  cases text with
  | nil => exact ⟨[], .unsigned, rfl⟩
  | cons c rest =>
      rw [readSign]
      split_ifs with hminus hplus
      · exact ⟨[45], .minus, by rw [hminus]; rfl⟩
      · exact ⟨[43], .plus, by rw [hplus]; rfl⟩
      · exact ⟨[], .unsigned, rfl⟩

theorem readSign_append {negative : Bool} {sign : List UInt8} (hsign : Sign sign negative)
    {c : UInt8} (hc : c ≠ 43 ∧ c ≠ 45) (rest : List UInt8) :
    readSign (sign ++ c :: rest) = (negative, c :: rest) := by
  cases hsign with
  | unsigned =>
      show (if c = 45 then _ else _) = _
      rw [if_neg hc.2, if_neg hc.1]
  | plus => rfl
  | minus => rfl

theorem dropWhile_of_head {p : UInt8 → Bool} {text : List UInt8}
    (h : ∀ c ∈ text.head?, p c = false) : text.dropWhile p = text := by
  cases text with
  | nil => rfl
  | cons c rest => exact List.dropWhile_cons_of_neg (by rw [h c rfl]; decide)

theorem takeWhile_of_head {p : UInt8 → Bool} {text : List UInt8}
    (h : ∀ c ∈ text.head?, p c = false) : text.takeWhile p = [] := by
  cases text with
  | nil => rfl
  | cons c rest => exact List.takeWhile_cons_of_neg (by rw [h c rfl]; decide)

theorem head_dropWhile {p : UInt8 → Bool} (text : List UInt8) :
    ∀ c ∈ (text.dropWhile p).head?, p c = false := by
  intro c hc
  have h := List.head?_dropWhile_not p text
  rw [Option.mem_def.mp hc] at h
  simpa using h

section Numerals

variable {isspace : UInt8 → Bool} {base : Nat}

/-- Signs and digits are not white space, digits are not signs. -/
structure Plain (isspace : UInt8 → Bool) (base : Nat) : Prop where
  minus : isspace 45 = false
  plus : isspace 43 = false
  digit : ∀ c, isDigit base c = true → isspace c = false ∧ c ≠ 43 ∧ c ≠ 45
  base_ne : ¬ (base = 0 ∨ base = 16)

theorem readBase_plain (hplain : Plain isspace base) (text : List UInt8) :
    readBase base text = (base, text) := by
  unfold readBase
  rw [if_neg fun h => hplain.base_ne h.1, if_neg fun h => hplain.base_ne (.inl h)]

theorem Numeral.readNumber (hplain : Plain isspace base) {space sign run rest : List UInt8}
    {negative : Bool} (h : Numeral isspace base space sign run rest negative) :
    readNumber isspace base (space ++ (sign ++ (run ++ rest))) =
      some (negative, number base run, rest) := by
  obtain ⟨c, run', rfl⟩ := List.exists_cons_of_ne_nil h.run_ne
  have hc := hplain.digit c (h.run c List.mem_cons_self)
  -- neither a sign nor a digit is skipped as white space
  have hhead : ∀ d ∈ (sign ++ (c :: run' ++ rest)).head?, isspace d = false := by
    intro d hd
    cases h.sign with
    | unsigned =>
        obtain rfl := Option.some.inj hd
        exact hc.1
    | plus =>
        obtain rfl := Option.some.inj hd
        exact hplain.plus
    | minus =>
        obtain rfl := Option.some.inj hd
        exact hplain.minus
  unfold CText.readNumber
  rw [List.dropWhile_append_of_pos h.space, dropWhile_of_head hhead, List.cons_append,
    readSign_append h.sign hc.2]
  dsimp only
  rw [readBase_plain hplain]
  dsimp only
  rw [← List.cons_append, List.takeWhile_append_of_pos h.run, takeWhile_of_head h.rest,
    List.append_nil, if_neg h.run_ne, List.dropWhile_append_of_pos h.run,
    dropWhile_of_head h.rest]

/-- **The texts with a number in front.** -/
theorem readNumber_eq_some_iff (hplain : Plain isspace base) {text rest : List UInt8}
    {negative : Bool} {n : Nat} :
    readNumber isspace base text = some (negative, n, rest) ↔
      ∃ space sign run, text = space ++ (sign ++ (run ++ rest)) ∧
        Numeral isspace base space sign run rest negative ∧ n = number base run := by
  constructor
  · intro h
    unfold readNumber at h
    dsimp only at h
    rw [readBase_plain hplain] at h
    dsimp only at h
    split_ifs at h with hrun
    simp only [Option.some.injEq, Prod.mk.injEq] at h
    obtain ⟨hneg, hn, hrest⟩ := h
    obtain ⟨sign, hsign, hbody⟩ := readSign_spec (text.dropWhile isspace)
    rw [hneg] at hsign
    refine ⟨text.takeWhile isspace, sign, _, ?_, ⟨?_, hsign, hrun, ?_, ?_⟩, hn.symm⟩
    · rw [← hrest, List.takeWhile_append_dropWhile, ← hbody, List.takeWhile_append_dropWhile]
    · exact fun c hc => List.mem_takeWhile_imp hc
    · exact fun c hc => List.mem_takeWhile_imp hc
    · rw [← hrest]
      exact head_dropWhile _
  · rintro ⟨space, sign, run, rfl, hnumeral, rfl⟩
    exact hnumeral.readNumber hplain

end Numerals

/-! ### Numbers as C writes them -/

/-- The integer literals of C, without suffixes, and their values. -/
inductive Literal : List UInt8 → Nat → Prop
  | decimal {c : UInt8} {run : List UInt8} : c ≠ 48 → (∀ d ∈ c :: run, isDigit 10 d = true) →
      Literal (c :: run) (number 10 (c :: run))
  | octal {run : List UInt8} : (∀ d ∈ run, isDigit 8 d = true) →
      Literal (48 :: run) (number 8 (48 :: run))
  | hex {x : UInt8} {run : List UInt8} : x = 120 ∨ x = 88 → run ≠ [] →
      (∀ d ∈ run, isDigit 16 d = true) → Literal (48 :: x :: run) (number 16 run)

/-- A text that begins with a decimal digit is read from its first character on. -/
theorem readNumber_digit {isspace : UInt8 → Bool} (hspace : ∀ d, isDigit 10 d → isspace d = false)
    {c : UInt8} (hc : isDigit 10 c = true) (text : List UInt8) (base : Nat) {body : List UInt8}
    (hbase : readBase 0 (c :: text) = (base, body)) (hne : body ≠ [])
    (hall : ∀ d ∈ body, isDigit base d = true) :
    readNumber isspace 0 (c :: text) = some (false, number base body, []) := by
  have hsign : c ≠ 45 ∧ c ≠ 43 := by
    have h := toNat_of_isDigit hc
    constructor <;> rintro rfl <;> exact absurd h (by decide)
  unfold readNumber
  rw [List.dropWhile_cons_of_neg (by rw [hspace c hc]; decide), readSign, if_neg hsign.1,
    if_neg hsign.2]
  dsimp only
  rw [hbase]
  dsimp only
  rw [List.takeWhile_eq_self_iff.mpr hall, List.dropWhile_eq_nil_iff.mpr hall, if_neg hne]

/-- **With base 0 a literal is read for what it says.** -/
theorem Literal.readNumber {isspace : UInt8 → Bool} {text : List UInt8} {n : Nat}
    (h : Literal text n) (hspace : ∀ d, isDigit 10 d → isspace d = false) :
    readNumber isspace 0 text = some (false, n, []) := by
  have hzero : isDigit 10 48 = true := by decide
  cases h with
  | @decimal c run hc hall =>
      have hbase : readBase 0 (c :: run) = (10, c :: run) := by
        have hnot : ¬ some c = some 48 := fun h => hc (Option.some.inj h)
        simp [readBase, startsHex, hnot]
      exact readNumber_digit hspace (hall c List.mem_cons_self) run 10 hbase (List.cons_ne_nil _ _)
        hall
  | @octal run hall =>
      have hbase : readBase 0 (48 :: run) = (8, 48 :: run) := by
        have hx : startsHex (48 :: run) = false := by
          cases run with
          | nil => rfl
          | cons d run =>
              have hd : ¬ (d = 120 ∨ d = 88) := by
                have h := hall d List.mem_cons_self
                rintro (rfl | rfl) <;> exact absurd h (by decide)
              simp [startsHex, not_or.mp hd]
        simp [readBase, hx]
      refine readNumber_digit hspace hzero run 8 hbase (List.cons_ne_nil _ _) ?_
      intro d hd
      rcases List.mem_cons.mp hd with rfl | hd
      · decide
      · exact hall d hd
  | @hex x run hx hne hall =>
      have hbase : readBase 0 (48 :: x :: run) = (16, run) := by
        obtain ⟨d, run', rfl⟩ := List.exists_cons_of_ne_nil hne
        have hd := hall d List.mem_cons_self
        simp [readBase, startsHex, hx, hd]
      exact readNumber_digit hspace hzero (x :: run) 16 hbase hne hall

theorem Literal.strtoull {isspace : UInt8 → Bool} {text : List UInt8} {n : Nat}
    (h : Literal text n) (hspace : ∀ d, isDigit 10 d → isspace d = false) (hn : n < 2 ^ 64) :
    strtoull isspace 0 text = (UInt64.ofNat n, []) := by
  unfold CText.strtoull
  rw [h.readNumber hspace]
  dsimp only
  rw [toUnsigned_of_lt hn]

end CText

end DirectStorage
