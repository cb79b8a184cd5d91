/-
DirectStorage/NbdOptions.lean

The options of the daemon: `parse_size`, `parse_trans_mode`, `parse_tp_type`,
`parse_args` and the beginning of `main` (`userspace-nbd/src/nbd_ramdisk.c`).

What `getopt_long` returns, call after call, is a list of options with their
arguments; how it finds them in `argv` is left out, and so is the text that
`usage` prints.  `unsigned long` has 64 bits.

A size is written as a decimal number with a suffix.  `parse_size` leaves the
number to `strtoull`, which takes a minus sign and returns the greatest value for
a number that does not fit.  Both come back as values like any other: the test
against overflow sees the value and the multiplier, not the number that was
written.

Main results: `sizeAsWritten_iff` (the texts whose size is the one that was
written), and `start_useMock` (no option switches the mock provider on).
-/
import DirectStorage.CText
import DirectStorage.UrmaResources

namespace DirectStorage

namespace Daemon

open CText Urma

/-! ### The source -/

/-- The multiplier `parse_size` finds behind the number. -/
def sizeMul (rest : List UInt8) : Option UInt64 :=
  if rest = [] then some 1
  else if rest = ascii "K" ∨ rest = ascii "k" then some 1024
  else if rest = ascii "M" ∨ rest = ascii "m" then some (1024 * 1024)
  else if rest = ascii "G" ∨ rest = ascii "g" then some (1024 * 1024 * 1024)
  else none

def parseSize (text : List UInt8) : UInt64 :=
  let (value, rest) := strtoull isSpace 10 text
  match sizeMul rest with
  | none => 0
  | some mul => if value > 0xffffffffffffffff / mul then 0 else value * mul

def parseTransMode (s : List UInt8) : Int :=
  if s = ascii "rm" then 0
  else if s = ascii "rc" then 1
  else if s = ascii "um" then 2
  else -1

def parseTpType (s : List UInt8) : Int :=
  if s = ascii "rtp" then 0
  else if s = ascii "ctp" then 1
  else if s = ascii "utp" then 2
  else -1

/-- `struct daemon_ctx`, as far as `parse_args` fills it in.  A `NULL` text is
`none`. -/
structure DaemonCtx where
  device : Option (List UInt8)
  controlSock : Option (List UInt8)
  size : UInt64
  blockSize : UInt32
  enableUrma : Bool
  useMockUrma : Bool
  urmaEid : Option (List UInt8)
  eidIndex : UInt32
  urmaTransMode : UInt32
  urmaTpType : UInt32
  urmaToken : UInt32
  queueDepth : UInt32
  nbdFd : Int
  appSock : Int
  kernelSock : Int
  deriving DecidableEq, Repr

/-- What `getopt_long` returns, with `optarg`. -/
inductive Opt
  | device (optarg : List UInt8)
  | size (optarg : List UInt8)
  | blockSize (optarg : List UInt8)
  | controlSock (optarg : List UInt8)
  | enableUrma
  | realUrma
  | queueDepth (optarg : List UInt8)
  | urmaEid (optarg : List UInt8)
  | eidIndex (optarg : List UInt8)
  | urmaTransMode (optarg : List UInt8)
  | urmaTpType (optarg : List UInt8)
  | urmaToken (optarg : List UInt8)
  /-- `--help`, and whatever is not an option. -/
  | other
  deriving DecidableEq, Repr

/-- `(uint32_t)strtoul(text, NULL, base)`. -/
def strtou32 (base : Nat) (text : List UInt8) : UInt32 := (strtoull isSpace base text).1.toUInt32

namespace DaemonCtx

/-- The context after `memset`. -/
def zeroed : DaemonCtx :=
  ⟨none, none, 0, 0, false, false, none, 0, 0, 0, 0, 0, 0, 0, 0⟩

/-- The defaults at the start of `parse_args`. -/
def defaults (ctx : DaemonCtx) : DaemonCtx :=
  { ctx with
    blockSize := 4096
    controlSock := some (ascii "/run/nbd-ramdisk/control.sock")
    queueDepth := 32
    useMockUrma := false
    eidIndex := 0xffffffff
    urmaTransMode := 0
    urmaTpType := 1
    urmaToken := 0xACFE
    nbdFd := -1
    appSock := -1
    kernelSock := -1 }

/-- One pass through the loop of `parse_args`. -/
def setOption (ctx : DaemonCtx) : Opt → Except Int DaemonCtx
  | .device optarg => .ok { ctx with device := some optarg }
  | .size optarg => .ok { ctx with size := parseSize optarg }
  | .blockSize optarg => .ok { ctx with blockSize := strtou32 10 optarg }
  | .controlSock optarg => .ok { ctx with controlSock := some optarg }
  | .enableUrma => .ok { ctx with enableUrma := true }
  | .realUrma => .ok { ctx with useMockUrma := false }
  | .queueDepth optarg => .ok { ctx with queueDepth := strtou32 10 optarg }
  | .urmaEid optarg => .ok { ctx with urmaEid := some optarg }
  | .eidIndex optarg => .ok { ctx with eidIndex := strtou32 0 optarg }
  | .urmaTransMode optarg =>
      let mode := parseTransMode optarg
      if mode < 0 then .error (-EINVAL)
      else .ok { ctx with urmaTransMode := UInt32.ofNat mode.toNat }
  | .urmaTpType optarg =>
      let type := parseTpType optarg
      if type < 0 then .error (-EINVAL)
      else .ok { ctx with urmaTpType := UInt32.ofNat type.toNat }
  | .urmaToken optarg => .ok { ctx with urmaToken := strtou32 0 optarg }
  | .other => .error (-EINVAL)

/-- The loop of `parse_args`, and the check behind it. -/
def parseLoop (ctx : DaemonCtx) : List Opt → Int × DaemonCtx
  | [] => if ctx.device = none ∨ ctx.size = 0 then (-EINVAL, ctx) else (0, ctx)
  | opt :: rest =>
      match ctx.setOption opt with
      | .error rc => (rc, ctx)
      | .ok ctx => ctx.parseLoop rest

def parseArgs (ctx : DaemonCtx) (options : List Opt) : Int × DaemonCtx :=
  ctx.defaults.parseLoop options

/-- The configuration `main` hands to `ramdisk_urma_mgr_init`. -/
def urmaCfg (ctx : DaemonCtx) : Host.HostConfig where
  config := ⟨ctx.enableUrma, ctx.useMockUrma, ctx.queueDepth⟩
  urmaDev := ctx.urmaEid
  eidIndex := ctx.eidIndex

end DaemonCtx

/-- `main` up to the first thing it does with its options: the status it exits
with, or the context it goes on with. -/
def start (options : List Opt) : Except Int DaemonCtx :=
  let (rc, ctx) := DaemonCtx.zeroed.parseArgs options
  if rc ≠ 0 then .error 2 else .ok ctx

example : (start [.device (ascii "/dev/nbd0"), .size (ascii "128M")]).map (·.size) =
    .ok 134217728 := by decide +kernel

/-! ### Sizes as they are written -/

/-- The suffixes of a size, and what they multiply with. -/
inductive Suffix : List UInt8 → Nat → Prop
  | bytes : Suffix [] 1
  | kilo {s : List UInt8} : s = ascii "K" ∨ s = ascii "k" → Suffix s (2 ^ 10)
  | mega {s : List UInt8} : s = ascii "M" ∨ s = ascii "m" → Suffix s (2 ^ 20)
  | giga {s : List UInt8} : s = ascii "G" ∨ s = ascii "g" → Suffix s (2 ^ 30)

/-- A decimal number with a suffix: its sign, its amount and its multiplier. -/
def SizeText (text : List UInt8) (negative : Bool) (n m : Nat) : Prop :=
  ∃ space sign run suffix, text = space ++ (sign ++ (run ++ suffix)) ∧
    Numeral isSpace 10 space sign run suffix negative ∧
    n = Nat.ofDigits 10 (digits run).reverse ∧ Suffix suffix m

/-- The size a text stands for, over the natural numbers. -/
def IsSize (text : List UInt8) (size : Nat) : Prop :=
  ∃ n m, SizeText text false n m ∧ size = n * m

/-- What the size option is to mean: `parse_size` returns the size that is
written if it is positive and fits, and with any other text as the last size the
daemon does not start. -/
structure SizeAsWritten (text : List UInt8) : Prop where
  size : ∀ n, 0 < n → ((parseSize text).toNat = n ↔ IsSize text n ∧ n < 2 ^ 64)
  refused : (∀ n, 0 < n → n < 2 ^ 64 → ¬ IsSize text n) →
    parseSize text = 0 ∧ ∀ before after, (∀ optarg, Opt.size optarg ∉ after) →
      start (before ++ .size text :: after) = .error 2

/-! ### Reading a size -/

theorem plain_isSpace : Plain isSpace 10 where
  minus := by decide
  plus := by decide
  digit := by
    intro c hc
    have hrange := toNat_of_isDigit hc
    simp only [isSpace, ne_eq, ← UInt8.toNat_inj, UInt8.le_iff_toNat_le, Bool.or_eq_false_iff,
      Bool.and_eq_false_iff, decide_eq_false_iff_not, UInt8.reduceToNat]
    omega
  base_ne := by decide

/-- The table of `parse_size` is the table of the suffixes. -/
theorem suffix_iff {rest : List UInt8} {m : Nat} :
    Suffix rest m ↔ ∃ mul, sizeMul rest = some mul ∧ mul.toNat = m := by
  constructor
  · intro h
    cases h with
    | bytes => exact ⟨1, rfl, rfl⟩
    | kilo h => rcases h with rfl | rfl <;> exact ⟨1024, by decide, rfl⟩
    | mega h => rcases h with rfl | rfl <;> exact ⟨1024 * 1024, by decide, rfl⟩
    | giga h => rcases h with rfl | rfl <;> exact ⟨1024 * 1024 * 1024, by decide, rfl⟩
  · rintro ⟨mul, hmul, rfl⟩
    unfold sizeMul at hmul
    split_ifs at hmul with h₁ h₂ h₃ h₄ <;> obtain rfl := Option.some.inj hmul
    · exact h₁ ▸ .bytes
    · exact .kilo h₂
    · exact .mega h₃
    · exact .giga h₄

theorem Suffix.pos {rest : List UInt8} {m : Nat} (h : Suffix rest m) : 0 < m := by
  cases h <;> decide

/-- A size is a number as `strtoull` finds it, with a suffix behind. -/
theorem sizeText_iff {text : List UInt8} {negative : Bool} {n m : Nat} :
    SizeText text negative n m ↔
      ∃ suffix, readNumber isSpace 10 text = some (negative, n, suffix) ∧ Suffix suffix m := by
  simp only [SizeText, readNumber_eq_some_iff plain_isSpace, number_eq_ofDigits]
  constructor
  · rintro ⟨space, sign, run, suffix, htext, hnumeral, hn, hsuffix⟩
    exact ⟨suffix, ⟨space, sign, run, htext, hnumeral, hn⟩, hsuffix⟩
  · rintro ⟨suffix, ⟨space, sign, run, htext, hnumeral, hn⟩, hsuffix⟩
    exact ⟨space, sign, run, suffix, htext, hnumeral, hn, hsuffix⟩

theorem Suffix.unique {rest : List UInt8} {m m' : Nat} (h : Suffix rest m)
    (h' : Suffix rest m') : m = m' := by
  obtain ⟨mul, hmul, rfl⟩ := suffix_iff.mp h
  obtain ⟨mul', hmul', rfl⟩ := suffix_iff.mp h'
  rw [hmul] at hmul'
  rw [Option.some.inj hmul']

/-- A text is a size in one way at most. -/
theorem SizeText.unique {text : List UInt8} {negative negative' : Bool} {n m n' m' : Nat}
    (h : SizeText text negative n m) (h' : SizeText text negative' n' m') :
    negative = negative' ∧ n = n' ∧ m = m' := by
  obtain ⟨suffix, hread, hsuffix⟩ := sizeText_iff.mp h
  obtain ⟨suffix', hread', hsuffix'⟩ := sizeText_iff.mp h'
  rw [hread] at hread'
  simp only [Option.some.injEq, Prod.mk.injEq] at hread'
  obtain ⟨hneg, hn, rfl⟩ := hread'
  exact ⟨hneg, hn, hsuffix.unique hsuffix'⟩

theorem SizeText.pos {text : List UInt8} {negative : Bool} {n m : Nat}
    (h : SizeText text negative n m) : 0 < m := by
  obtain ⟨suffix, -, hsuffix⟩ := sizeText_iff.mp h
  exact hsuffix.pos

/-- **What `parse_size` makes of a size**: the value of `strtoull` times the
multiplier, or 0 if that does not fit. -/
theorem parseSize_of_sizeText {text : List UInt8} {negative : Bool} {n m : Nat}
    (h : SizeText text negative n m) :
    (parseSize text).toNat =
      if toUnsigned negative n * m < 2 ^ 64 then toUnsigned negative n * m else 0 := by
  obtain ⟨suffix, hread, hsuffix⟩ := sizeText_iff.mp h
  obtain ⟨mul, hmul, rfl⟩ := suffix_iff.mp hsuffix
  have hvalue : (UInt64.ofNat (toUnsigned negative n)).toNat = toUnsigned negative n :=
    UInt64.toNat_ofNat_of_lt' (toUnsigned_lt negative n)
  have hguard : UInt64.ofNat (toUnsigned negative n) > 0xffffffffffffffff / mul ↔
      ¬ toUnsigned negative n * mul.toNat < 2 ^ 64 := by
    rw [gt_iff_lt, UInt64.lt_iff_toNat_lt, UInt64.toNat_div, hvalue,
      Nat.div_lt_iff_lt_mul hsuffix.pos]
    show 18446744073709551615 < _ ↔ _
    omega
  unfold parseSize strtoull
  rw [hread]
  dsimp only
  rw [hmul]
  dsimp only
  by_cases hfit : toUnsigned negative n * mul.toNat < 2 ^ 64
  · rw [if_neg fun hgt => hguard.mp hgt hfit, if_pos hfit, UInt64.toNat_mul, hvalue,
      Nat.mod_eq_of_lt hfit]
  · rw [if_pos (hguard.mpr hfit), if_neg hfit]
    rfl

/-- Any other text is refused. -/
theorem parseSize_of_not_sizeText {text : List UInt8}
    (h : ∀ negative n m, ¬ SizeText text negative n m) : parseSize text = 0 := by
  unfold parseSize strtoull
  cases hread : readNumber isSpace 10 text with
  | none =>
      dsimp only
      cases sizeMul text with
      | none => rfl
      | some mul =>
          dsimp only
          rw [UInt64.zero_mul, ite_self]
  | some found =>
      obtain ⟨negative, n, rest⟩ := found
      dsimp only
      cases hmul : sizeMul rest with
      | none => rfl
      | some mul =>
          exact absurd (sizeText_iff.mpr ⟨rest, hread, suffix_iff.mpr ⟨mul, hmul, rfl⟩⟩)
            (h negative n mul.toNat)

/-! ### The options one after the other -/

namespace DaemonCtx

/-- What an option leaves as it is. -/
structure Keeps (ctx ctx' : DaemonCtx) (opt : Opt) : Prop where
  size : (∀ optarg, opt ≠ .size optarg) → ctx'.size = ctx.size
  useMock : ctx.useMockUrma = false → ctx'.useMockUrma = false

/-- An option is refused with `-EINVAL`, or it leaves the other fields alone. -/
theorem setOption_spec (ctx : DaemonCtx) (opt : Opt) :
    ctx.setOption opt = .error (-EINVAL) ∨
      ∃ ctx', ctx.setOption opt = .ok ctx' ∧ Keeps ctx ctx' opt := by
  cases opt with
  | size optarg => exact .inr ⟨_, rfl, fun h => absurd rfl (h optarg), id⟩
  | realUrma => exact .inr ⟨_, rfl, fun _ => rfl, fun _ => rfl⟩
  | urmaTransMode optarg =>
      by_cases hmode : parseTransMode optarg < 0
      · exact .inl (if_pos hmode)
      · exact .inr ⟨_, if_neg hmode, fun _ => rfl, id⟩
  | urmaTpType optarg =>
      by_cases htype : parseTpType optarg < 0
      · exact .inl (if_pos htype)
      · exact .inr ⟨_, if_neg htype, fun _ => rfl, id⟩
  | other => exact .inl rfl
  | _ => exact .inr ⟨_, rfl, fun _ => rfl, id⟩

/-- Without a size the options are refused, whatever else they are. -/
theorem parseLoop_of_size_zero {ctx : DaemonCtx} {options : List Opt}
    (hsize : ctx.size = 0) (hopts : ∀ optarg, Opt.size optarg ∉ options) :
    (ctx.parseLoop options).1 = -EINVAL := by
  induction options generalizing ctx with
  | nil => rw [parseLoop, if_pos (.inr hsize)]
  | cons opt rest ih =>
      rw [parseLoop]
      rcases ctx.setOption_spec opt with herror | ⟨ctx', hok, hkeeps⟩
      · rw [herror]
      · rw [hok]
        refine ih ?_ fun optarg hmem => hopts optarg (List.mem_cons_of_mem _ hmem)
        rw [hkeeps.size fun optarg heq => hopts optarg (heq ▸ List.mem_cons_self), hsize]

/-- The last size decides. -/
theorem parseLoop_of_last_size {text : List UInt8} (hzero : parseSize text = 0)
    {after : List Opt} (hafter : ∀ optarg, Opt.size optarg ∉ after) (ctx : DaemonCtx)
    (before : List Opt) : (ctx.parseLoop (before ++ .size text :: after)).1 = -EINVAL := by
  induction before generalizing ctx with
  | nil =>
      show ({ ctx with size := parseSize text }.parseLoop after).1 = _
      exact parseLoop_of_size_zero hzero hafter
  | cons opt rest ih =>
      rw [List.cons_append, parseLoop]
      rcases ctx.setOption_spec opt with herror | ⟨ctx', hok, -⟩
      · rw [herror]
      · rw [hok]
        exact ih ctx'

theorem parseLoop_useMock {ctx : DaemonCtx} (hmock : ctx.useMockUrma = false)
    (options : List Opt) : (ctx.parseLoop options).2.useMockUrma = false := by
  induction options generalizing ctx with
  | nil =>
      rw [parseLoop]
      split_ifs <;> exact hmock
  | cons opt rest ih =>
      rw [parseLoop]
      rcases ctx.setOption_spec opt with herror | ⟨ctx', hok, hkeeps⟩
      · rw [herror]
        exact hmock
      · rw [hok]
        exact ih (hkeeps.useMock hmock)

end DaemonCtx

theorem start_of_last_size {text : List UInt8} (hzero : parseSize text = 0)
    {after : List Opt} (hafter : ∀ optarg, Opt.size optarg ∉ after) (before : List Opt) :
    start (before ++ .size text :: after) = .error 2 := by
  have hrc := DaemonCtx.parseLoop_of_last_size hzero hafter DaemonCtx.zeroed.defaults before
  unfold start DaemonCtx.parseArgs
  rcases hp : DaemonCtx.zeroed.defaults.parseLoop (before ++ .size text :: after) with ⟨rc, ctx⟩
  rw [hp] at hrc
  obtain rfl : rc = -EINVAL := hrc
  rfl

/-- **The daemon never asks for the mock provider**: `use_mock_urma` is false by
default, and the one option that sets it sets it to false. -/
theorem start_useMock {options : List Opt} {ctx : DaemonCtx} (h : start options = .ok ctx) :
    ctx.urmaCfg.config.useMock = false := by
  have hmock := DaemonCtx.parseLoop_useMock
    (rfl : DaemonCtx.zeroed.defaults.useMockUrma = false) options
  unfold start DaemonCtx.parseArgs at h
  dsimp only at h
  split_ifs at h
  obtain rfl := Except.ok.inj h
  exact hmock

/-! ### The sizes that are misread -/

/-- A number of 64 bits or more without a suffix, or a negative number whose
remainder modulo `2 ^ 64` fits with its multiplier. -/
def Misread (text : List UInt8) : Prop :=
  (∃ n, SizeText text false n 1 ∧ 2 ^ 64 ≤ n) ∨
    ∃ n m, SizeText text true n m ∧ 0 < n ∧ toUnsigned true n * m < 2 ^ 64

theorem parseSize_eq_iff {text : List UInt8} (hread : ¬ Misread text) {n : Nat} (hpos : 0 < n) :
    (parseSize text).toNat = n ↔ IsSize text n ∧ n < 2 ^ 64 := by
  constructor
  · intro hval
    have htext : ∃ negative a m, SizeText text negative a m := by
      by_contra hnone
      push Not at hnone
      rw [parseSize_of_not_sizeText hnone] at hval
      exact absurd hval (Nat.ne_of_lt hpos)
    obtain ⟨negative, a, m, htext⟩ := htext
    rw [parseSize_of_sizeText htext] at hval
    split_ifs at hval with hfit
    · cases negative with
      | true =>
          -- only a negative number other than 0 leaves a value
          have ha : 0 < a := toUnsigned_true_pos_iff.mp (Nat.pos_of_mul_pos_right (hval ▸ hpos))
          exact absurd (.inr ⟨a, m, htext, ha, hfit⟩) hread
      | false =>
          rcases Nat.lt_or_ge a (2 ^ 64) with ha | ha
          · rw [toUnsigned_of_lt ha] at hval hfit
            exact ⟨⟨a, m, htext, hval.symm⟩, hval ▸ hfit⟩
          · -- the greatest value fits with the multiplier 1 only
            rw [toUnsigned_of_le ha] at hfit
            have hm := htext.pos
            obtain rfl : m = 1 := by omega
            exact absurd (.inl ⟨a, htext, ha⟩) hread
    · exact absurd hval (Nat.ne_of_lt hpos)
  · rintro ⟨⟨a, m, htext, rfl⟩, hlt⟩
    have ha : a < 2 ^ 64 := Nat.lt_of_le_of_lt (Nat.le_mul_of_pos_right a htext.pos) hlt
    rw [parseSize_of_sizeText htext, toUnsigned_of_lt ha, if_pos hlt]

/-- **When the size is the one that was written**: exactly if the text is not one
of the two kinds that are misread. -/
theorem sizeAsWritten_iff (text : List UInt8) : SizeAsWritten text ↔ ¬ Misread text := by
  constructor
  · rintro h (⟨n, htext, hbig⟩ | ⟨n, m, htext, hpos, hfit⟩)
    · have hval : (parseSize text).toNat = 2 ^ 64 - 1 := by
        rw [parseSize_of_sizeText htext, toUnsigned_of_le hbig]
        rfl
      obtain ⟨⟨n', m', htext', hn'⟩, -⟩ := (h.size _ (by decide)).mp hval
      obtain ⟨-, rfl, rfl⟩ := htext.unique htext'
      omega
    · have hval : (parseSize text).toNat = toUnsigned true n * m := by
        rw [parseSize_of_sizeText htext, if_pos hfit]
      have hpos' : 0 < toUnsigned true n * m :=
        Nat.mul_pos (toUnsigned_true_pos_iff.mpr hpos) htext.pos
      obtain ⟨⟨n', m', htext', -⟩, -⟩ := (h.size _ hpos').mp hval
      exact absurd (htext.unique htext').1 (by decide)
  · intro hread
    refine ⟨fun n hpos => parseSize_eq_iff hread hpos, ?_⟩
    intro hnone
    have hzero : parseSize text = 0 := by
      by_contra hne
      have hpos : 0 < (parseSize text).toNat := UInt64.pos_iff_ne_zero.mpr hne
      obtain ⟨hsize, hlt⟩ := (parseSize_eq_iff hread hpos).mp rfl
      exact hnone _ hpos hlt hsize
    exact ⟨hzero, fun before after hafter => start_of_last_size hzero hafter before⟩

/-- `-1` and a number of 20 digits are the greatest size, and `-(2 ^ 64 - 1)K` is
one kilobyte. -/
theorem not_sizeAsWritten :
    ¬ SizeAsWritten (ascii "-1") ∧ ¬ SizeAsWritten (ascii "99999999999999999999") ∧
      ¬ SizeAsWritten (ascii "-18446744073709551615K") := by
  refine ⟨?_, ?_, ?_⟩
  · intro h
    obtain ⟨⟨n, m, htext, -⟩, -⟩ := (h.size (2 ^ 64 - 1) (by decide)).mp (by decide +kernel)
    obtain ⟨suffix, hread, -⟩ := sizeText_iff.mp htext
    rw [show readNumber isSpace 10 (ascii "-1") = some (true, 1, []) by decide +kernel] at hread
    cases hread
  · intro h
    obtain ⟨⟨n, m, htext, hn⟩, -⟩ := (h.size (2 ^ 64 - 1) (by decide)).mp (by decide +kernel)
    have hpos := htext.pos
    obtain ⟨suffix, hread, -⟩ := sizeText_iff.mp htext
    rw [show readNumber isSpace 10 (ascii "99999999999999999999") =
      some (false, 99999999999999999999, []) by decide +kernel] at hread
    simp only [Option.some.injEq, Prod.mk.injEq] at hread
    obtain ⟨-, rfl, -⟩ := hread
    omega
  · intro h
    obtain ⟨⟨n, m, htext, -⟩, -⟩ := (h.size 1024 (by decide)).mp (by decide +kernel)
    obtain ⟨suffix, hread, -⟩ := sizeText_iff.mp htext
    rw [show readNumber isSpace 10 (ascii "-18446744073709551615K") =
      some (true, 18446744073709551615, ascii "K") by decide +kernel] at hread
    cases hread

end Daemon

end DirectStorage
