/-
DirectStorage/Eid.lean

EIDs as text: the two parsers, `parse_eid_text` of the daemon
(`userspace-nbd/src/ramdisk_urma.c`) and `ramdisk_ctrl_parse_eid` of the client
(`userspace-nbd/src/ramdisk_ctrl_client.c`), and the two printers,
`seg_info_show` of the kernel driver (`kernel-urma/urma_blkdev.c`) and
`format_eid` of the example client.

The parsers count in different units, digits and bytes, look for an overlong
text in different places and skip different characters.  Both are described by
`scan`, the values of the digits of a text in which only separators stand
between them: they accept exactly the texts with 32 digits, and return the bytes
the digits make up (`parseEidText_eq`, `ramdiskCtrlParseEid_eq`).

Main result: `eidText_exact`.  The numbers that are printed are literals of C
(`literal_decimal`, `literal_hex`).
-/
import DirectStorage.CText
import DirectStorage.UrmaResources

namespace DirectStorage

namespace Eid

open CText Urma

/-! ### The client's parser -/

/-- The loop of `ramdisk_ctrl_parse_eid`: `high`, and the bytes written to `eid`
so far.  The value returned, and the bytes written at the end. -/
def parseEidClientLoop : List UInt8 → Option UInt8 → List UInt8 → Int × List UInt8
  | [], high, out => (if high = none ∧ out.length = 16 then 0 else -EINVAL, out)
  | c :: text, high, out =>
      if c = 58 ∨ c = 45 ∨ c = 46 then parseEidClientLoop text high out
      else
        match hexValue c with
        | none => (-EINVAL, out)
        | some v =>
            match high with
            | none => parseEidClientLoop text (some v) out
            | some h =>
                if out.length ≥ 16 then (-EINVAL, out)
                else parseEidClientLoop text none (out ++ [(h <<< 4) ||| v])

/-- `ramdisk_ctrl_parse_eid`: the value returned and the array `eid`, which was
cleared before.  The client's `hex_value` is the daemon's. -/
def ramdiskCtrlParseEid (text : List UInt8) : Int × List UInt8 :=
  let (rc, out) := parseEidClientLoop text none []
  (rc, out ++ List.replicate (16 - out.length) 0)

/-! ### The printers -/

/-- `%02x` for a `uint8_t`. -/
def print02x (b : UInt8) : List UInt8 :=
  (List.leftpad 2 '0' (Nat.toDigits 16 b.toNat)).map fun c => UInt8.ofNat c.toNat

/-- `%llx`, `%x`: a number in base 16; `%zu` in base 10. -/
def printNat (base n : Nat) : List UInt8 :=
  (Nat.toDigits base n).map fun c => UInt8.ofNat c.toNat

/-- The colons of the format string: one after every second byte but the last. -/
def printGroups : List UInt8 → List UInt8
  | a :: b :: c :: rest => print02x a ++ print02x b ++ 58 :: printGroups (c :: rest)
  | bytes => bytes.flatMap print02x

/-- The segment of the kernel driver, as `seg_info_show` reads it; `addr` is what
`%p` makes of the ramdisk's address. -/
structure SegInfo where
  eid : Vector UInt8 16
  va : UInt64
  len : UInt64
  tokenId : UInt32
  addr : List UInt8

/-- `seg_info_show`. -/
def segInfoShow : Option SegInfo → List UInt8
  | none => ascii "segment not registered\n"
  | some seg =>
      ascii "ubva_eid=" ++ printGroups seg.eid.toList ++
        ascii "\nubva_va=0x" ++ printNat 16 seg.va.toNat ++
        ascii "\nlen=" ++ printNat 10 seg.len.toNat ++
        ascii "\ntoken_id=0x" ++ printNat 16 seg.tokenId.toNat ++
        ascii "\naddr=" ++ seg.addr ++ ascii "\n"

/-- `format_eid`: `hex[eid[i] >> 4]` and `hex[eid[i] & 0x0f]` for every byte. -/
def formatEid (eid : Vector UInt8 16) : List UInt8 :=
  eid.toList.flatMap fun b : UInt8 =>
    [lowerDigits.getD (b >>> 4).toNat 0, lowerDigits.getD (b &&& 0x0f).toNat 0]

/-- The value that stands behind `ubva_eid=` in a text of `seg_info_show`. -/
def ubvaEid (text : List UInt8) : List UInt8 :=
  (text.drop (ascii "ubva_eid=").length).takeWhile (· ≠ 10)

/-! ### Digits -/

/-- A statement about all bytes is one about 256 numbers. -/
theorem forall_byte {P : UInt8 → Prop} (h : ∀ n : Fin 256, P (UInt8.ofNat n.val)) (c : UInt8) :
    P c := by
  have hc := h ⟨c.toNat, c.toNat_lt⟩
  rwa [UInt8.ofNat_toNat] at hc

theorem hexValue_eq (c : UInt8) : hexValue c = (digitValue c).map UInt8.ofNat :=
  forall_byte (P := fun c => hexValue c = (digitValue c).map UInt8.ofNat) (by decide +kernel) c

theorem print02x_eq (b : UInt8) : print02x b = hexByte b :=
  forall_byte (P := fun b => print02x b = hexByte b) (by decide +kernel) b

theorem formatByte_eq (b : UInt8) :
    [lowerDigits.getD (b >>> 4).toNat 0, lowerDigits.getD (b &&& 0x0f).toNat 0] = hexByte b :=
  forall_byte (P := fun b => [lowerDigits.getD (b >>> 4).toNat 0,
    lowerDigits.getD (b &&& 0x0f).toNat 0] = hexByte b) (by decide +kernel) b

/-- Two halves put together as the parsers do it. -/
theorem join_eq {h l : Nat} (hh : h < 16) (hl : l < 16) :
    (UInt8.ofNat h <<< 4) ||| UInt8.ofNat l = UInt8.ofNat (16 * h + l) := by
  have hall : ∀ h l : Fin 16,
      (UInt8.ofNat h.val <<< 4) ||| UInt8.ofNat l.val = UInt8.ofNat (16 * h.val + l.val) := by
    decide +kernel
  exact hall ⟨h, hh⟩ ⟨l, hl⟩

/-! ### The parsers -/

/-- The characters that `parse_eid_text` skips. -/
def daemonSep (c : UInt8) : Bool := c = 58 || c = 45 || isSpace c

/-- The characters that `ramdisk_ctrl_parse_eid` skips. -/
def clientSep (c : UInt8) : Bool := c = 58 || c = 45 || c = 46

/-- The values of the digits of a text in which nothing but separators stands
between them. -/
def scan (sep : UInt8 → Bool) : List UInt8 → Option (List Nat)
  | [] => some []
  | c :: text =>
      if sep c then scan sep text
      else
        match digitValue c with
        | none => none
        | some v => (scan sep text).map (v :: ·)

/-- The EID a text stands for: 32 digits, and separators anywhere. -/
def eidOf (sep : UInt8 → Bool) (text : List UInt8) : Option (List UInt8) :=
  (scan sep text).bind fun ds => if ds.length = 32 then some (pairUp ds) else none

/-- The state of a parser after the digits `ds`, extended by the digit `v`: the
first of a pair is kept, the second completes a byte. -/
theorem state_concat {ds : List Nat} (hds : ∀ d ∈ ds, d < 16) {v : Nat} (hv : v < 16) :
    (leftover ds = none → (leftover (ds ++ [v])).map UInt8.ofNat = some (UInt8.ofNat v) ∧
      pairUp (ds ++ [v]) = pairUp ds) ∧
    ∀ d, leftover ds = some d → leftover (ds ++ [v]) = none ∧
      pairUp (ds ++ [v]) = pairUp ds ++ [(UInt8.ofNat d <<< 4) ||| UInt8.ofNat v] := by
  refine ⟨?_, ?_⟩
  · intro h
    obtain ⟨hpair, hleft⟩ := pairUp_concat_of_none h v
    exact ⟨by rw [hleft]; rfl, hpair⟩
  · intro d h
    obtain ⟨hpair, hleft⟩ := pairUp_concat_of_some h v
    exact ⟨hleft, by rw [hpair, join_eq (hds d (leftover_mem h)) hv]⟩

theorem digits_lt_concat {ds : List Nat} (hds : ∀ d ∈ ds, d < 16) {v : Nat} (hv : v < 16) :
    ∀ d ∈ ds ++ [v], d < 16 := by
  intro d hd
  rcases List.mem_append.mp hd with hd | hd
  · exact hds d hd
  · rw [List.mem_singleton.mp hd]
    exact hv

/-- How the loop of the daemon's parser ends after the digits `ds`. -/
def endState (ds : List Nat) : Except Int (Nat × Option UInt8 × List UInt8) :=
  if ds.length ≤ 32 then .ok (ds.length, (leftover ds).map UInt8.ofNat, pairUp ds)
  else .error (-EINVAL)

/-- The loop of the daemon's parser, from the state after the digits `ds`. -/
theorem parseEidLoop_scan (text : List UInt8) {ds : List Nat} (hds : ∀ d ∈ ds, d < 16)
    (hle : ds.length ≤ 32) :
    parseEidLoop text ds.length ((leftover ds).map UInt8.ofNat) (pairUp ds) =
      ((scan daemonSep text).map fun more => endState (ds ++ more)).getD (.error (-EINVAL)) := by
  induction text generalizing ds with
  | nil =>
      show _ = endState (ds ++ [])
      rw [List.append_nil]
      exact (if_pos hle).symm
  | cons c text ih =>
      by_cases hsep : c = 58 ∨ c = 45 ∨ isSpace c = true
      · have hskip : daemonSep c = true := by simpa [daemonSep, or_assoc] using hsep
        rw [parseEidLoop, if_pos hsep, scan, if_pos hskip]
        exact ih hds hle
      · have hkeep : ¬ daemonSep c = true := by simpa [daemonSep, or_assoc] using hsep
        rw [parseEidLoop, if_neg hsep, scan, if_neg hkeep, hexValue_eq]
        cases hdigit : digitValue c with
        | none => rfl
        | some v =>
            have hv := (digitValue_cases hdigit).1
            dsimp only [Option.map_some]
            rw [Option.map_map]
            by_cases hfull : ds.length ≥ 32
            · -- the digit is one too many, whatever follows
              rw [if_pos hfull]
              cases scan daemonSep text with
              | none => rfl
              | some more =>
                  refine (if_neg ?_).symm
                  rw [List.length_append, List.length_cons]
                  omega
            · have hnext := ih (digits_lt_concat hds hv)
                (by rw [List.length_append, List.length_singleton]; omega)
              simp only [List.append_assoc, List.singleton_append] at hnext
              rw [List.length_append, List.length_singleton] at hnext
              obtain ⟨hfirst, hsecond⟩ := state_concat hds hv
              rw [if_neg hfull]
              refine Eq.trans ?_ hnext
              cases hleft : leftover ds with
              | none =>
                  obtain ⟨hmap, hpair⟩ := hfirst hleft
                  rw [hmap, hpair]
                  rfl
              | some d =>
                  obtain ⟨hnone, hpair⟩ := hsecond d hleft
                  rw [hnone, hpair]
                  rfl

/-- **The daemon's parser**: all its errors are `-EINVAL`. -/
theorem parseEidText_eq (text : List UInt8) :
    parseEidText text =
      match eidOf daemonSep text with
      | some eid => .ok eid
      | none => .error (-EINVAL) := by
  have hnil : ∀ d ∈ ([] : List Nat), d < 16 := List.forall_mem_nil _
  have hloop : parseEidLoop text 0 none [] =
      ((scan daemonSep text).map endState).getD (.error (-EINVAL)) :=
    parseEidLoop_scan text hnil (Nat.zero_le _)
  rw [parseEidText, hloop, eidOf]
  cases scan daemonSep text with
  | none => rfl
  | some ds =>
      dsimp only [Option.bind_some, Option.map_some, Option.getD_some]
      by_cases hlen : ds.length = 32
      · have heven : leftover ds = none := (leftover_eq_none_iff ds).mpr (by rw [hlen])
        rw [endState, if_pos hlen.le, if_pos hlen, heven, hlen]
        rfl
      · rw [if_neg hlen, endState]
        by_cases hle : ds.length ≤ 32
        · rw [if_pos hle]
          exact if_pos (.inl hlen)
        · rw [if_neg hle]

theorem length_of_eidOf {sep : UInt8 → Bool} {text eid : List UInt8}
    (h : eidOf sep text = some eid) : eid.length = 16 := by
  obtain ⟨ds, -, hds⟩ := Option.bind_eq_some_iff.mp h
  split_ifs at hds with hlen
  rw [← Option.some.inj hds, length_pairUp, hlen]

/-- What the client's parser answers: the EID, or `-EINVAL` and anything. -/
def Answers (res : Int × List UInt8) : Option (List UInt8) → Prop
  | some eid => res = (0, eid)
  | none => res.1 = -EINVAL

/-- The client's parser at the end of the text: 32 digits are 16 bytes with no
digit left over. -/
theorem answers_end (ds : List Nat) :
    Answers (if (leftover ds).map UInt8.ofNat = none ∧ (pairUp ds).length = 16 then 0
        else -EINVAL, pairUp ds)
      (if ds.length = 32 then some (pairUp ds) else none) := by
  have hdone : ((leftover ds).map UInt8.ofNat = none ∧ (pairUp ds).length = 16) ↔
      ds.length = 32 := by
    rw [Option.map_eq_none_iff, leftover_eq_none_iff, length_pairUp]
    omega
  by_cases hlen : ds.length = 32
  · rw [if_pos (hdone.mpr hlen), if_pos hlen]
    rfl
  · rw [if_neg (fun h => hlen (hdone.mp h)), if_neg hlen]
    rfl

/-- With 32 digits or more, a further digit is refused whatever follows. -/
theorem answers_tooMany {ds : List Nat} (h : 32 ≤ ds.length) (v : Nat) (out : List UInt8)
    (rest : Option (List Nat)) :
    Answers (-EINVAL, out) (rest.bind fun more =>
      if (ds ++ v :: more).length = 32 then some (pairUp (ds ++ v :: more)) else none) := by
  cases rest with
  | none => rfl
  | some more =>
      have hne : ¬ (ds ++ v :: more).length = 32 := by
        rw [List.length_append, List.length_cons]
        omega
      rw [Option.bind_some, if_neg hne]
      rfl

/-- The loop of the client's parser, from the state after the digits `ds`. -/
theorem parseEidClientLoop_scan (text : List UInt8) {ds : List Nat} (hds : ∀ d ∈ ds, d < 16) :
    Answers (parseEidClientLoop text ((leftover ds).map UInt8.ofNat) (pairUp ds))
      ((scan clientSep text).bind fun more =>
        if (ds ++ more).length = 32 then some (pairUp (ds ++ more)) else none) := by
  induction text generalizing ds with
  | nil =>
      show Answers (if (leftover ds).map UInt8.ofNat = none ∧ (pairUp ds).length = 16 then 0
        else -EINVAL, pairUp ds) (if (ds ++ []).length = 32 then _ else _)
      rw [List.append_nil]
      exact answers_end ds
  | cons c text ih =>
      by_cases hsep : c = 58 ∨ c = 45 ∨ c = 46
      · have hskip : clientSep c = true := by simpa [clientSep, or_assoc] using hsep
        rw [parseEidClientLoop, if_pos hsep, scan, if_pos hskip]
        exact ih hds
      · have hkeep : ¬ clientSep c = true := by simpa [clientSep, or_assoc] using hsep
        rw [parseEidClientLoop, if_neg hsep, scan, if_neg hkeep, hexValue_eq]
        cases hdigit : digitValue c with
        | none => rfl
        | some v =>
            have hv := (digitValue_cases hdigit).1
            obtain ⟨hfirst, hsecond⟩ := state_concat hds hv
            have hnext := ih (digits_lt_concat hds hv)
            simp only [List.append_assoc, List.singleton_append] at hnext
            dsimp only [Option.map_some]
            rw [Option.bind_map]
            cases hleft : leftover ds with
            | none =>
                obtain ⟨hmap, hpair⟩ := hfirst hleft
                rw [hmap, hpair] at hnext
                exact hnext
            | some d =>
                obtain ⟨hnone, hpair⟩ := hsecond d hleft
                dsimp only [Option.map_some]
                by_cases hfull : (pairUp ds).length ≥ 16
                · -- 16 bytes are there, and half of another one
                  rw [if_pos hfull]
                  rw [length_pairUp] at hfull
                  exact answers_tooMany (by omega) v _ _
                · rw [if_neg hfull]
                  rw [hnone, hpair] at hnext
                  exact hnext

/-- **The client's parser.** -/
theorem ramdiskCtrlParseEid_eq (text : List UInt8) :
    Answers (ramdiskCtrlParseEid text) (eidOf clientSep text) := by
  have hnil : ∀ d ∈ ([] : List Nat), d < 16 := List.forall_mem_nil _
  have hloop : Answers (parseEidClientLoop text none []) (eidOf clientSep text) :=
    parseEidClientLoop_scan text hnil
  unfold ramdiskCtrlParseEid
  cases heid : eidOf clientSep text with
  | none =>
      rw [heid] at hloop
      exact hloop
  | some eid =>
      rw [heid] at hloop
      have hlen : eid.length = 16 := length_of_eidOf heid
      rw [show parseEidClientLoop text none [] = (0, eid) from hloop]
      show (0, eid ++ List.replicate (16 - eid.length) 0) = (0, eid)
      rw [hlen, Nat.sub_self, List.replicate_zero, List.append_nil]

/-! ### Texts of digits and separators -/

/-- A hex digit, a colon or a dash. -/
def OverEid (c : UInt8) : Prop := c = 58 ∨ c = 45 ∨ (digitValue c).isSome

instance : DecidablePred OverEid := fun _ => inferInstanceAs (Decidable (_ ∨ _ ∨ _))

/-- In such a text, both parsers see the same digits. -/
theorem scan_overEid {sep : UInt8 → Bool} (hcolon : sep 58 = true) (hdash : sep 45 = true)
    (hdigit : ∀ c, (digitValue c).isSome → sep c = false) {text : List UInt8}
    (h : ∀ c ∈ text, OverEid c) : scan sep text = some (digits text) := by
  induction text with
  | nil => rfl
  | cons c text ih =>
      obtain ⟨hc, htext⟩ := List.forall_mem_cons.mp h
      rcases hc with rfl | rfl | hc
      · rw [scan, if_pos hcolon, ih htext]
        rfl
      · rw [scan, if_pos hdash, ih htext]
        rfl
      · obtain ⟨v, hv⟩ := Option.isSome_iff_exists.mp hc
        rw [scan, if_neg (by rw [hdigit c hc]; decide), hv, ih htext, digits_cons_of_some hv]
        rfl

theorem daemonSep_digit (c : UInt8) : (digitValue c).isSome → daemonSep c = false :=
  forall_byte (P := fun c => (digitValue c).isSome → daemonSep c = false) (by decide +kernel) c

theorem clientSep_digit (c : UInt8) : (digitValue c).isSome → clientSep c = false :=
  forall_byte (P := fun c => (digitValue c).isSome → clientSep c = false) (by decide +kernel) c

/-- **The two parsers agree** on a text of digits, colons and dashes. -/
theorem parsers_overEid {text : List UInt8} (h : ∀ c ∈ text, OverEid c) :
    (if (digits text).length = 32 then
        parseEidText text = .ok (pairUp (digits text)) ∧
          ramdiskCtrlParseEid text = (0, pairUp (digits text))
      else parseEidText text = .error (-EINVAL) ∧ (ramdiskCtrlParseEid text).1 = -EINVAL) := by
  have hdaemon := parseEidText_eq text
  have hclient := ramdiskCtrlParseEid_eq text
  rw [eidOf, scan_overEid rfl rfl daemonSep_digit h, Option.bind_some] at hdaemon
  rw [eidOf, scan_overEid rfl rfl clientSep_digit h, Option.bind_some] at hclient
  split_ifs at hdaemon hclient ⊢ with hlen
  · exact ⟨hdaemon, hclient⟩
  · exact ⟨hdaemon, hclient⟩

/-! ### The printers -/

theorem formatEid_eq (eid : Vector UInt8 16) : formatEid eid = eid.toList.flatMap hexByte := by
  unfold formatEid
  simp only [formatByte_eq]

theorem overEid_hexByte (b : UInt8) : ∀ c ∈ hexByte b, OverEid c := by
  intro c hc
  obtain ⟨v, hv, rfl⟩ := List.mem_map.mp hc
  have hlt : v < 16 := by
    have hb := b.toNat_lt
    simp only [nibbles, List.mem_cons, List.not_mem_nil, or_false] at hv
    omega
  exact .inr (.inr (by rw [digitValue_lowerDigits ⟨v, hlt⟩]; rfl))

theorem overEid_flatMap_hexByte (bytes : List UInt8) : ∀ c ∈ bytes.flatMap hexByte, OverEid c := by
  intro c hc
  obtain ⟨b, -, hb⟩ := List.mem_flatMap.mp hc
  exact overEid_hexByte b c hb

/-- The colons change nothing. -/
theorem digits_printGroups (bytes : List UInt8) :
    digits (printGroups bytes) = bytes.flatMap nibbles ∧ ∀ c ∈ printGroups bytes, OverEid c := by
  induction bytes using printGroups.induct with
  | case1 a b c rest ih =>
      obtain ⟨hdigits, hover⟩ := ih
      rw [printGroups, print02x_eq, print02x_eq]
      refine ⟨?_, ?_⟩
      · rw [digits_append, digits_append, digits_hexByte, digits_hexByte,
          digits_cons_of_none (by decide), hdigits]
        rfl
      · intro x hx
        rcases List.mem_append.mp hx with hx | hx
        · rcases List.mem_append.mp hx with hx | hx
          · exact overEid_hexByte a x hx
          · exact overEid_hexByte b x hx
        · rcases List.mem_cons.mp hx with rfl | hx
          · exact .inl rfl
          · exact hover x hx
  | case2 bytes h =>
      have heq : printGroups bytes = bytes.flatMap hexByte := by
        rw [printGroups]
        · rw [show print02x = hexByte from funext print02x_eq]
        · exact h
      rw [heq]
      exact ⟨digits_flatMap_hexByte bytes, overEid_flatMap_hexByte bytes⟩

/-- A text whose digits are those of an EID is read as that EID. -/
theorem parsers_of_digits {text : List UInt8} {eid : Vector UInt8 16}
    (hover : ∀ c ∈ text, OverEid c) (hdigits : digits text = eid.toList.flatMap nibbles) :
    parseEidText text = .ok eid.toList ∧ ramdiskCtrlParseEid text = (0, eid.toList) := by
  have hparsers := parsers_overEid hover
  have hlen : (digits text).length = 32 := by
    rw [hdigits, length_flatMap_nibbles, Vector.length_toList]
  rw [if_pos hlen, hdigits, pairUp_flatMap_nibbles] at hparsers
  exact hparsers

theorem overEid_ne_newline {c : UInt8} (h : OverEid c) : c ≠ 10 := by
  rintro rfl
  exact absurd h (by decide)

/-- The line of `seg_info_show` ends where the groups end. -/
theorem ubvaEid_segInfoShow (seg : SegInfo) :
    ubvaEid (segInfoShow (some seg)) = printGroups seg.eid.toList := by
  have hover := (digits_printGroups seg.eid.toList).2
  have hline : segInfoShow (some seg) = ascii "ubva_eid=" ++ (printGroups seg.eid.toList ++
      10 :: (ascii "ubva_va=0x" ++ printNat 16 seg.va.toNat ++
        ascii "\nlen=" ++ printNat 10 seg.len.toNat ++
        ascii "\ntoken_id=0x" ++ printNat 16 seg.tokenId.toNat ++
        ascii "\naddr=" ++ seg.addr ++ ascii "\n")) := by
    simp only [segInfoShow, List.append_assoc]
    rfl
  rw [hline, ubvaEid, List.drop_left, List.takeWhile_append_of_pos, List.takeWhile_cons_of_neg,
    List.append_nil]
  · decide
  · intro c hc
    exact decide_eq_true (overEid_ne_newline (hover c hc))

/-- **The two EID parsers agree and invert the printers.**  On a text of hex
digits of either case, colons and dashes both succeed exactly when there are 32
digits, and byte `k` is digits `2 * k` and `2 * k + 1`; and both recover every
EID from what `seg_info_show` and `format_eid` print. -/
theorem eidText_exact (text : List UInt8) (h : ∀ c ∈ text, OverEid c) (seg : SegInfo) :
    ((∃ eid, parseEidText text = .ok eid) ↔ (digits text).length = 32) ∧
      ((ramdiskCtrlParseEid text).1 = 0 ↔ (digits text).length = 32) ∧
      ((digits text).length = 32 → ∃ eid, parseEidText text = .ok eid ∧
        ramdiskCtrlParseEid text = (0, eid) ∧ eid.length = 16 ∧
        ∀ k < 16, eid.getD k 0 =
          UInt8.ofNat (16 * (digits text).getD (2 * k) 0 + (digits text).getD (2 * k + 1) 0)) ∧
      (parseEidText (ubvaEid (segInfoShow (some seg))) = .ok seg.eid.toList ∧
        ramdiskCtrlParseEid (ubvaEid (segInfoShow (some seg))) = (0, seg.eid.toList)) ∧
      parseEidText (formatEid seg.eid) = .ok seg.eid.toList ∧
        ramdiskCtrlParseEid (formatEid seg.eid) = (0, seg.eid.toList) := by
  have hparsers := parsers_overEid h
  obtain ⟨hgroups, hover⟩ := digits_printGroups seg.eid.toList
  refine ⟨?_, ?_, ?_, ?_, ?_⟩
  · split_ifs at hparsers with hlen
    · exact iff_of_true ⟨_, hparsers.1⟩ hlen
    · refine iff_of_false ?_ hlen
      rintro ⟨eid, heid⟩
      rw [hparsers.1] at heid
      cases heid
  · split_ifs at hparsers with hlen
    · exact iff_of_true (by rw [hparsers.2]) hlen
    · exact iff_of_false (by rw [hparsers.2]; decide) hlen
  · intro hlen
    rw [if_pos hlen] at hparsers
    refine ⟨_, hparsers.1, hparsers.2, by rw [length_pairUp, hlen], ?_⟩
    intro k hk
    exact getD_pairUp _ (by omega)
  · rw [ubvaEid_segInfoShow]
    exact parsers_of_digits hover hgroups
  · rw [formatEid_eq]
    exact parsers_of_digits (overEid_flatMap_hexByte _) (digits_flatMap_hexByte _)

/-- A text with separators inside and between bytes and digits of both cases. -/
theorem eidText_exact_mixed :
    (∀ c ∈ ascii "0-0112233:44556677--8899aabbCC:DDEEFF", OverEid c) ∧
      ∃ eid, parseEidText (ascii "0-0112233:44556677--8899aabbCC:DDEEFF") = .ok eid ∧
        ramdiskCtrlParseEid (ascii "0-0112233:44556677--8899aabbCC:DDEEFF") = (0, eid) ∧
        eid.getD 12 0 = 0xCC := by
  have hall : (ascii "0-0112233:44556677--8899aabbCC:DDEEFF").all
      (fun c => decide (OverEid c)) = true := by decide
  have hover : ∀ c ∈ ascii "0-0112233:44556677--8899aabbCC:DDEEFF", OverEid c :=
    fun c hc => of_decide_eq_true (List.all_eq_true.mp hall c hc)
  obtain ⟨eid, hdaemon, hclient, -, hbytes⟩ := (eidText_exact _ hover
    ⟨Vector.replicate 16 0, 0, 0, 0, []⟩).2.2.1 (by decide)
  exact ⟨hover, eid, hdaemon, hclient, (hbytes 12 (by decide)).trans (by decide)⟩

/-! ### Numbers that were printed -/

theorem number_concat {base v : Nat} {c : UInt8} (h : digitValue c = some v) (run : List UInt8) :
    number base (run ++ [c]) = base * number base run + v := by
  rw [number, digits_append, digits_cons_of_some h, digits_nil, List.foldl_append]
  rfl

theorem printNat_of_lt {base n : Nat} (hbase : base ≤ 16) (h : n < base) :
    printNat base n = [lowerDigits.getD n 0] := by
  have hdigit : ∀ v : Fin 16,
      UInt8.ofNat (Nat.digitChar v.val).toNat = lowerDigits.getD v.val 0 := by
    decide
  rw [printNat, Nat.toDigits_of_lt_base h]
  exact congrArg (fun c => [c]) (hdigit ⟨n, h.trans_le hbase⟩)

theorem printNat_of_le {base n : Nat} (hone : 1 < base) (hbase : base ≤ 16) (h : base ≤ n) :
    printNat base n = printNat base (n / base) ++ [lowerDigits.getD (n % base) 0] := by
  have hlast := printNat_of_lt hbase (Nat.mod_lt n (Nat.zero_lt_of_lt hone))
  rw [printNat, Nat.toDigits_of_lt_base (Nat.mod_lt n (Nat.zero_lt_of_lt hone))] at hlast
  rw [printNat, Nat.toDigits_of_base_le hone h, List.map_append, ← hlast]
  rfl

/-- A printed number is a run of digits that stands for it. -/
theorem printNat_spec {base : Nat} (hone : 1 < base) (hbase : base ≤ 16) (n : Nat) :
    printNat base n ≠ [] ∧ (∀ d ∈ printNat base n, isDigit base d = true) ∧
      number base (printNat base n) = n := by
  have hvalue : ∀ v < base, digitValue (lowerDigits.getD v 0) = some v := fun v hv =>
    digitValue_lowerDigits ⟨v, hv.trans_le hbase⟩
  have hisDigit : ∀ v < base, isDigit base (lowerDigits.getD v 0) = true := by
    intro v hv
    rw [isDigit, hvalue v hv]
    exact decide_eq_true hv
  induction n using Nat.strongRecOn with
  | ind n ih =>
      rcases Nat.lt_or_ge n base with hlt | hle
      · rw [printNat_of_lt hbase hlt]
        refine ⟨List.cons_ne_nil _ _, ?_, ?_⟩
        · intro d hd
          rw [List.mem_singleton.mp hd]
          exact hisDigit n hlt
        · rw [← List.nil_append [_], number_concat (hvalue n hlt)]
          show base * 0 + n = n
          omega
      · have hmod := Nat.mod_lt n (Nat.zero_lt_of_lt hone)
        have hdiv : n / base < n := Nat.div_lt_self (by omega) hone
        obtain ⟨-, hdigits, hnumber⟩ := ih (n / base) hdiv
        rw [printNat_of_le hone hbase hle]
        refine ⟨by simp, ?_, ?_⟩
        · intro d hd
          rcases List.mem_append.mp hd with hd | hd
          · exact hdigits d hd
          · rw [List.mem_singleton.mp hd]
            exact hisDigit _ hmod
        · rw [number_concat (hvalue _ hmod), hnumber, Nat.div_add_mod]

/-- Only 0 is printed with a leading zero. -/
theorem head_printNat {n : Nat} (hn : 0 < n) : (printNat 10 n).head? ≠ some 48 := by
  induction n using Nat.strongRecOn with
  | ind n ih =>
      rcases Nat.lt_or_ge n 10 with hlt | hle
      · have hdigit : ∀ v : Fin 10, 0 < v.val → lowerDigits.getD v.val 0 ≠ 48 := by decide
        rw [printNat_of_lt (by decide) hlt]
        exact fun h => hdigit ⟨n, hlt⟩ hn (Option.some.inj h)
      · have hdiv : n / 10 < n := Nat.div_lt_self hn (by decide)
        have hne := (printNat_spec (by decide : 1 < 10) (by decide) (n / 10)).1
        rw [printNat_of_le (by decide) (by decide) hle, List.head?_append_of_ne_nil _ hne]
        exact ih (n / 10) hdiv (Nat.div_pos hle (by decide))

/-- **What `%zu` prints is a literal.** -/
theorem literal_decimal (n : Nat) : Literal (printNat 10 n) n := by
  rcases Nat.eq_zero_or_pos n with rfl | hn
  · exact .octal (fun d hd => absurd hd List.not_mem_nil)
  obtain ⟨hne, hdigits, hnumber⟩ := printNat_spec (by decide : 1 < 10) (by decide) n
  have hhead := head_printNat hn
  obtain ⟨c, run, hrun⟩ := List.exists_cons_of_ne_nil hne
  rw [hrun] at hdigits hnumber hhead ⊢
  have hlit : Literal (c :: run) (number 10 (c :: run)) :=
    .decimal (fun h => hhead (congrArg some h)) hdigits
  rwa [hnumber] at hlit

/-- **What `0x%llx` prints is a literal.** -/
theorem literal_hex (n : Nat) : Literal (ascii "0x" ++ printNat 16 n) n := by
  obtain ⟨hne, hdigits, hnumber⟩ := printNat_spec (by decide : 1 < 16) (by decide) n
  have hlit : Literal (48 :: 120 :: printNat 16 n) (number 16 (printNat 16 n)) :=
    .hex (.inl rfl) hne hdigits
  rwa [hnumber] at hlit

end Eid

end DirectStorage
