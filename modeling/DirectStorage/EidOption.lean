/-
DirectStorage/EidOption.lean

The local EID on its way from the option to the parser.

`ramdisk_urma_mgr_init` copies the option text into `urma_dev`, an array of 64
characters, with `snprintf`; `real_init_provider` parses the array.  A text of 64
characters or more has lost its end by then.  The parser accepts a text with 32
digits and separators anywhere, so it can accept the beginning of a text and not
the text, or the text and not its beginning.

`eidStage` is the part of `real_init_provider` between `urma_init` and
`urma_get_device_by_eid`.  Main result: `localEid_asWritten_iff`.
-/
import DirectStorage.Eid

namespace DirectStorage

namespace Urma

open Eid CText

/-! ### Texts cut in two -/

/-- The digits of two texts, one after the other. -/
theorem scan_append (sep : UInt8 → Bool) (text more : List UInt8) :
    scan sep (text ++ more) =
      (scan sep text).bind fun ds => (scan sep more).map (ds ++ ·) := by
  induction text with
  | nil =>
      show _ = (scan sep more).map ([] ++ ·)
      simp
  | cons c text ih =>
      rw [List.cons_append, scan, scan]
      split
      · exact ih
      · cases digitValue c with
        | none => rfl
        | some v =>
            dsimp only
            rw [ih]
            cases scan sep text with
            | none => rfl
            | some ds =>
                simp only [Option.bind_some, Option.map_some, Option.map_map]
                rfl

/-- A text without digits is one of separators. -/
theorem scan_eq_nil_iff {sep : UInt8 → Bool} {text : List UInt8} :
    scan sep text = some [] ↔ ∀ c ∈ text, sep c = true := by
  induction text with
  | nil => exact iff_of_true rfl (List.forall_mem_nil _)
  | cons c text ih =>
      rw [List.forall_mem_cons, scan]
      split
      · rename_i hsep
        rw [ih]
        exact (and_iff_right hsep).symm
      · rename_i hsep
        refine iff_of_false ?_ fun h => hsep h.1
        cases digitValue c with
        | none => simp
        | some v =>
            cases scan sep text with
            | none => simp
            | some ds => simp

/-- The beginning of a text stands for the same EID as the text, or for none as
the text: only separators are cut off, or neither is an EID. -/
theorem eidOf_take_eq_iff {sep : UInt8 → Bool} {text : List UInt8} {n : Nat} :
    eidOf sep (text.take n) = eidOf sep text ↔
      (∀ c ∈ text.drop n, sep c = true) ∨
        eidOf sep (text.take n) = none ∧ eidOf sep text = none := by
  have hsplit : scan sep text =
      (scan sep (text.take n)).bind fun ds => (scan sep (text.drop n)).map (ds ++ ·) := by
    rw [← scan_append, List.take_append_drop]
  constructor
  · intro heq
    cases hbegin : eidOf sep (text.take n) with
    | none => exact .inr ⟨rfl, by rw [← heq, hbegin]⟩
    | some eid =>
        refine .inl ?_
        rw [hbegin] at heq
        -- the beginning has 32 digits, the text no more: there are none behind
        obtain ⟨ds, hds, hlen⟩ := Option.bind_eq_some_iff.mp hbegin
        obtain ⟨all, hall, hlen'⟩ := Option.bind_eq_some_iff.mp heq.symm
        split_ifs at hlen hlen' with h₁ h₂
        rw [hds, Option.bind_some, hall] at hsplit
        obtain ⟨more, hmore, rfl⟩ := Option.map_eq_some_iff.mp hsplit.symm
        rw [List.length_append, h₁] at h₂
        rw [← scan_eq_nil_iff, hmore, List.eq_nil_of_length_eq_zero (by omega : more.length = 0)]
  · rintro (hsep | ⟨hbegin, hwhole⟩)
    · have hsame : scan sep text = scan sep (text.take n) := by
        rw [hsplit, scan_eq_nil_iff.mpr hsep]
        cases scan sep (text.take n) with
        | none => rfl
        | some ds => simp
      rw [eidOf, eidOf, hsame]
    · rw [hbegin, hwhole]

/-! ### The stage -/

namespace Host

/-- The EID stage of `real_init_provider`: the local EID, or the code to return
after `urma_uninit`. -/
def eidStage (s : Host) : Except Int (List UInt8) :=
  if s.urmaDev = [] then .error (-EINVAL)
  else
    match parseEidText s.urmaDev with
    | .error _ => .error (-EINVAL)
    | .ok localEid => .ok localEid

/-- The device is looked for with the EID of that stage. -/
theorem selectDevice_eidStage (s : Host) (env : InitEnv) :
    s.selectDevice env =
      match s.eidStage with
      | .error rc => .error rc
      | .ok localEid =>
          if !env.device then .error (-ENODEV)
          else if !env.queryDevice then .error (- EIO)
          else
            let eidIndex := realSelectEidIndex env.eids s.eidIndex (some localEid)
            if eidIndex < 0 then .error eidIndex else .ok eidIndex := by
  unfold selectDevice eidStage
  split
  · rfl
  · cases parseEidText s.urmaDev with
    | error rc => rfl
    | ok localEid => rfl

/-- The stage in terms of what is in the array. -/
theorem eidStage_eq (s : Host) :
    s.eidStage =
      match eidOf daemonSep s.urmaDev with
      | some eid => .ok eid
      | none => .error (-EINVAL) := by
  unfold eidStage
  by_cases hnil : s.urmaDev = []
  · rw [if_pos hnil, hnil]
    rfl
  · rw [if_neg hnil, parseEidText_eq]
    cases eidOf daemonSep s.urmaDev with
    | none => rfl
    | some eid => rfl

/-- Nothing before the stage fails, in real mode. -/
structure ReachesStage (backend : Backend) (config : Config) (env : InitEnv) : Prop where
  backend : backend.initialized = true
  depth : chosenDepth (some config) ≤ maxQueueDepth
  real : config.useMock = false
  queue : env.queueOk = true
  mutex : env.mutexRc = 0
  urmaInit : env.urmaInit = true

/-- An initialisation that the stage stops returns `-EINVAL`. -/
theorem mgrInit_of_stage_error {s : Host} {backend : Backend} {config : Config}
    {urmaDev : Option (List UInt8)} {eidIndex : UInt32} {env : InitEnv}
    (hreach : ReachesStage backend config env)
    (hstage : (s.filled (some ⟨config, urmaDev, eidIndex⟩)).eidStage = .error (-EINVAL)) :
    (s.mgrInit backend (some ⟨config, urmaDev, eidIndex⟩) env).1 = -EINVAL := by
  have hmock : (s.filled (some ⟨config, urmaDev, eidIndex⟩)).mgr.useMock = false := hreach.real
  have hselect : ∀ t : Host, t.urmaDev = (s.filled (some ⟨config, urmaDev, eidIndex⟩)).urmaDev →
      t.selectDevice env = .error (-EINVAL) := by
    intro t ht
    have hsame : t.eidStage = .error (-EINVAL) := by
      rw [← hstage]
      unfold eidStage
      rw [ht]
    rw [selectDevice_eidStage, hsame]
  have hprovider : ((s.filled (some ⟨config, urmaDev, eidIndex⟩)).realInitProvider env).1 =
      -EINVAL := by
    unfold realInitProvider
    rw [hreach.urmaInit, if_neg (by decide)]
    dsimp only
    rw [hselect]
    rfl
  have hdepth : ¬ chosenDepth ((some (HostConfig.mk config urmaDev eidIndex)).map
      HostConfig.config) > maxQueueDepth := Nat.not_lt.mpr hreach.depth
  unfold mgrInit
  rw [hreach.backend, hreach.queue]
  rw [if_neg (by decide), if_neg hdepth, if_neg (by decide), if_neg (not_not.mpr hreach.mutex)]
  dsimp only
  rw [hmock, if_neg (by decide)]
  rcases hp : (s.filled (some ⟨config, urmaDev, eidIndex⟩)).realInitProvider env with ⟨rc, t⟩
  rw [hp] at hprovider
  obtain rfl : rc = -EINVAL := hprovider
  rfl

/-! ### The text and its beginning -/

/-- What real mode is to make of the option text: the stage accepts it exactly
when `parse_eid_text` accepts the whole text, with the same bytes, and any other
text ends the initialisation with `-EINVAL`. -/
structure LocalEidAsWritten (s : Host) (config : Config) (eidIndex : UInt32)
    (text : List UInt8) : Prop where
  accepts : ∀ eid, (s.filled (some ⟨config, some text, eidIndex⟩)).eidStage = .ok eid ↔
    parseEidText text = .ok eid
  rejects : (∀ eid, parseEidText text ≠ .ok eid) → ∀ backend env,
    ReachesStage backend config env →
      (s.mgrInit backend (some ⟨config, some text, eidIndex⟩) env).1 = -EINVAL

theorem eidStage_filled (s : Host) (config : Config) (eidIndex : UInt32) (text : List UInt8) :
    (s.filled (some ⟨config, some text, eidIndex⟩)).eidStage =
      match eidOf daemonSep (text.take 63) with
      | some eid => .ok eid
      | none => .error (-EINVAL) := eidStage_eq _

/-- The stage accepts what stands in the first 63 characters. -/
theorem eidStage_filled_ok_iff (s : Host) (config : Config) (eidIndex : UInt32)
    (text eid : List UInt8) :
    (s.filled (some ⟨config, some text, eidIndex⟩)).eidStage = .ok eid ↔
      eidOf daemonSep (text.take 63) = some eid := by
  rw [eidStage_filled]
  cases eidOf daemonSep (text.take 63) <;> simp

theorem parseEidText_ok_iff (text eid : List UInt8) :
    parseEidText text = .ok eid ↔ eidOf daemonSep text = some eid := by
  rw [parseEidText_eq]
  cases eidOf daemonSep text <;> simp

/-- **When the local EID is the one that was written**: exactly if there are only
separators behind the first 63 characters, or neither they nor the whole text
are an EID.  Every text of at most 63 characters is of the first kind. -/
theorem localEid_asWritten_iff (s : Host) (config : Config) (eidIndex : UInt32)
    (text : List UInt8) :
    LocalEidAsWritten s config eidIndex text ↔
      (∀ c ∈ text.drop 63, daemonSep c = true) ∨
        eidOf daemonSep (text.take 63) = none ∧ eidOf daemonSep text = none := by
  have hstage := eidStage_filled_ok_iff s config eidIndex text
  rw [← eidOf_take_eq_iff]
  constructor
  · intro h
    apply Option.ext
    intro eid
    rw [← hstage, h.accepts, parseEidText_ok_iff]
  · intro heq
    refine ⟨?_, ?_⟩
    · intro eid
      rw [hstage, heq, parseEidText_ok_iff]
    · intro hbad backend env hreach
      refine mgrInit_of_stage_error hreach ?_
      have hnone : eidOf daemonSep text = none := by
        refine Option.eq_none_iff_forall_ne_some.mpr ?_
        intro eid heid
        exact hbad eid ((parseEidText_ok_iff text eid).mpr heid)
      rw [eidStage_filled, heq, hnone]

/-- 32 digits, 31 colons and one more digit: not an EID, and accepted. -/
def overlong : List UInt8 := List.replicate 32 48 ++ List.replicate 31 58 ++ [49]

/-- 32 colons and 32 digits: an EID, and refused. -/
def padded : List UInt8 := List.replicate 32 58 ++ List.replicate 32 48

theorem not_localEid_asWritten :
    ¬ LocalEidAsWritten Host.start ⟨true, false, 4⟩ 0 overlong ∧
      ¬ LocalEidAsWritten Host.start ⟨true, false, 4⟩ 0 padded := by
  refine ⟨?_, ?_⟩
  · intro h
    have hstage := (eidStage_filled_ok_iff Host.start ⟨true, false, 4⟩ 0 overlong
      (List.replicate 16 0)).mpr (by decide +kernel)
    have hwhole := (parseEidText_ok_iff _ _).mp ((h.accepts _).mp hstage)
    exact absurd hwhole (by decide +kernel)
  · intro h
    have hwhole := (parseEidText_ok_iff padded (List.replicate 16 0)).mpr (by decide +kernel)
    have hstage := (eidStage_filled_ok_iff _ _ _ _ _).mp ((h.accepts _).mpr hwhole)
    exact absurd hstage (by decide +kernel)

end Host

end Urma

end DirectStorage
