import LogTransfer.AcceptedLines
import LogTransfer.Analysis
import LogTransfer.NumericReasons

/-!
# The reason of a rejected line

A line is rejected at its first failing stage, and the reason is the one of
this stage. Each stage is refused exactly when its part of the grammar fails.
-/

set_option autoImplicit false

namespace LogTransfer

section Stages

inductive ParseStage where
  | tooLong | empty | ctrlChar | frame | timestamp | range | header | brackets | module | fields
  deriving DecidableEq, Repr

def stages : List ParseStage :=
  [.tooLong, .empty, .ctrlChar, .frame, .timestamp, .range, .header, .brackets, .module, .fields]

variable [Doubles]

def ValidField (message : Bytes) (field : Bytes × FieldKind) : Prop :=
  ∀ before token, FirstField message field.1 before token → ValidValue field.2 token

/-- What a stage asks of a line. -/
def Passes (anchor : Option ℤ) (text : Bytes) (tooLong : Bool) : ParseStage → Prop
  | .tooLong => tooLong = false
  | .empty => ∃ b ∈ text, b ≠ ch ' '
  | .ctrlChar => ∀ b ∈ text, 0x20 ≤ b.toNat ∧ b.toNat ≠ 0x7F
  | .frame => ∃ f, LogLineParser.FilledFrame text f
  | .timestamp => ∃ f ts, LogLineParser.FilledFrame text f ∧ Stamp f.stamp ts
  | .range => ∃ f ts, LogLineParser.FilledFrame text f ∧ Stamp f.stamp ts ∧
      ∀ a, anchor = some a → |ts.absSeconds - a| ≤ 172800
  | .header => ∃ f, LogLineParser.FilledFrame text f ∧ ∀ token ∈ f.header, Number token
  | .brackets => ∃ f, LogLineParser.FilledFrame text f ∧ FlatBrackets f.message
  | .module => ∃ f id, LogLineParser.FilledFrame text f ∧ f.module = moduleName id
  | .fields => ∃ f id, LogLineParser.FilledFrame text f ∧ f.module = moduleName id ∧
      ∀ field ∈ documentedFields id, ValidField f.message field

/-- The header token that is refused: the first that is no number. -/
structure RefusedToken (text token : Bytes) : Prop where
  split : ∃ f passed rest, LogLineParser.FilledFrame text f ∧
    f.header = passed ++ token :: rest ∧ ∀ t ∈ passed, Number t
  refused : ¬ Number token

/-- The field that is refused: the first documented one with a wrong value. -/
structure RefusedField (text : Bytes) (kind : FieldKind) (token : Bytes) : Prop where
  split : ∃ f id name before passed rest, LogLineParser.FilledFrame text f ∧
    f.module = moduleName id ∧ documentedFields id = passed ++ (name, kind) :: rest ∧
    (∀ field ∈ passed, ValidField f.message field) ∧ FirstField f.message name before token
  refused : ¬ ValidValue kind token

/-- The reason that a failing stage gives, for a way to blame a numeric token. -/
def Reports (numeric : Bytes → SkipReason → Prop) (text : Bytes) : ParseStage → SkipReason → Prop
  | .tooLong, reason => reason = .lineTooLong
  | .empty, reason => reason = .empty
  | .ctrlChar, reason => reason = .ctrlChar
  | .frame, reason => reason = .badFrame
  | .timestamp, reason => reason = .badTimestamp
  | .range, reason => reason = .tsOutOfRange
  | .header, reason => ∃ token, RefusedToken text token ∧ numeric token reason
  | .brackets, reason => reason = .badBracket
  | .module, reason => reason = .unknownModule
  | .fields, reason => ∃ kind token, RefusedField text kind token ∧
      (kind = .integer → numeric token reason) ∧ (kind ≠ .integer → reason = .badNumber)

structure FirstFailure (numeric : Bytes → SkipReason → Prop) (anchor : Option ℤ) (text : Bytes)
    (tooLong : Bool) (reason : SkipReason) : Prop where
  fails : ∃ passed stage rest, stages = passed ++ stage :: rest ∧
    (∀ s ∈ passed, Passes anchor text tooLong s) ∧ ¬ Passes anchor text tooLong stage ∧
    Reports numeric text stage reason

end Stages

theorem bind_error {ε α β : Type} {x : Except ε α} {f : α → Except ε β} {e : ε}
    (h : x >>= f = .error e) : x = .error e ∨ ∃ a, x = .ok a ∧ f a = .error e := by
  cases x with
  | error e' =>
    cases h
    exact .inl rfl
  | ok a => exact .inr ⟨a, rfl, h⟩

namespace LogLineParser

section Errors

variable {text : Bytes}

theorem filled_unique {f f' : Frame} (h : FilledFrame text f) (h' : FilledFrame text f') :
    f = f' := by
  have heq := (frame_ok.mpr h).symm.trans (frame_ok.mpr h')
  exact Except.ok.inj heq

theorem headerToken_error {pos : ℕ} {reason : SkipReason}
    (h : headerToken text pos = .error reason) : reason = .badFrame := by
  unfold headerToken at h
  split at h
  · cases h
    rfl
  · split at h
    · cases h
      rfl
    · split at h
      · cases h
        rfl
      · cases h

theorem frame_error {reason : SkipReason} (h : frame text = .error reason) :
    reason = .badFrame := by
  unfold frame at h
  rcases bind_error h with h | ⟨⟨stamp, p₁⟩, -, h⟩
  · exact headerToken_error h
  rcases bind_error h with h | ⟨⟨pid, p₂⟩, -, h⟩
  · exact headerToken_error h
  rcases bind_error h with h | ⟨⟨tid, p₃⟩, -, h⟩
  · exact headerToken_error h
  rcases bind_error h with h | ⟨⟨sess, p₄⟩, -, h⟩
  · exact headerToken_error h
  dsimp only at h
  split at h
  · cases h
    rfl
  · split at h
    · cases h
      rfl
    · split at h
      · cases h
        rfl
      · cases h

theorem checkRange_error {anchor : Option ℤ} {absSeconds : ℤ} {reason : SkipReason}
    (h : checkRange anchor absSeconds = .error reason) : reason = .tsOutOfRange := by
  unfold checkRange at h
  split at h
  · cases h
  · split at h
    · cases h
      rfl
    · cases h

variable [Doubles] {anchor : Option ℤ} {tooLong : Bool} {reason : SkipReason}

theorem checkBytes_failure (numeric : Bytes → SkipReason → Prop)
    (h : checkBytes text tooLong = .error reason) :
    FirstFailure numeric anchor text tooLong reason := by
  unfold checkBytes at h
  split_ifs at h with hlong hblank hctrl
  · cases h
    refine ⟨[], .tooLong, _, rfl, by simp, ?_, rfl⟩
    simp [Passes, hlong]
  · cases h
    refine ⟨[.tooLong], .empty, _, rfl, ?_, ?_, rfl⟩
    · simpa [Passes] using hlong
    · simpa [Passes] using hblank
  · cases h
    refine ⟨[.tooLong, .empty], .ctrlChar, _, rfl, ?_, ?_, rfl⟩
    · simp only [List.forall_mem_cons, Passes]
      refine ⟨by simpa using hlong, by simpa using hblank, by simp⟩
    · intro hall
      simp only [List.any_eq_true, Bool.or_eq_true, decide_eq_true_eq] at hctrl
      obtain ⟨b, hb, hbad⟩ := hctrl
      have := hall b hb
      omega

omit [Doubles] in
/-- The stage of the header blames its first refused token. -/
theorem checkInts_failure {f : Frame} (hf : FilledFrame text f)
    (h : checkInts f.header = .error reason) :
    ∃ token, RefusedToken text token ∧ NumericReason token reason := by
  rw [checkInts_row, firstFault_error] at h
  obtain ⟨passed, token, rest, hsplit, hpassed, hfault⟩ := h
  refine ⟨token, ⟨⟨f, passed, rest, hf, hsplit, ?_⟩, ?_⟩, integerFault_reason hfault⟩
  · intro t ht
    exact integerFault_none.mp (hpassed t ht)
  · rw [← integerFault_none, hfault]
    exact Option.some_ne_none _

theorem checkDocumented_failure {f : Frame} {id : ModuleId} (hf : FilledFrame text f)
    (hid : f.module = moduleName id) (hflat : FlatBrackets f.message)
    (h : checkDocumented f.message id = .error reason) :
    ∃ kind token, RefusedField text kind token ∧
      (kind = .integer → NumericReason token reason) ∧
      (kind ≠ .integer → reason = .badNumber) := by
  rw [checkDocumented, firstFault_error] at h
  obtain ⟨passed, ⟨name, kind⟩, rest, hsplit, hpassed, hfault⟩ := h
  obtain ⟨token, htoken, hvalue⟩ := Option.bind_eq_some_iff.mp hfault
  obtain ⟨before, hfirst⟩ := (findField_first hflat).mp htoken
  refine ⟨kind, token, ⟨⟨f, id, name, before, passed, rest, hf, hid, hsplit, ?_, hfirst⟩, ?_⟩,
    ?_, ?_⟩
  · intro field hfield
    exact (fieldFault_none hflat field).mp (hpassed field hfield)
  · rw [← valueFault_none, hvalue]
    exact Option.some_ne_none _
  · rintro rfl
    exact integerFault_reason hvalue
  · intro hkind
    cases kind with
    | integer => exact absurd rfl hkind
    | arrow =>
      simp only [valueFault] at hvalue
      split_ifs at hvalue
      exact (Option.some.inj hvalue).symm
    | double =>
      simp only [valueFault] at hvalue
      split_ifs at hvalue
      exact (Option.some.inj hvalue).symm

theorem passed_next {passed : List ParseStage} (h : ∀ s ∈ passed, Passes anchor text tooLong s)
    (stage : ParseStage) (hstage : Passes anchor text tooLong stage) :
    ∀ s ∈ passed ++ [stage], Passes anchor text tooLong s := by
  intro s hs
  rcases List.mem_append.mp hs with hs | hs
  · exact h s hs
  · rw [List.mem_singleton.mp hs]
    exact hstage

section Refusals

variable {f : Frame} {ts : Timestamp} {id : ModuleId}

theorem stamp_refused (hf : FilledFrame text f) (h : parseTimestamp f.stamp = none) :
    ¬ Passes anchor text tooLong .timestamp := by
  rintro ⟨f', ts, hf', hstamp⟩
  rw [filled_unique hf' hf] at hstamp
  rw [parseTimestamp_iff.mpr hstamp] at h
  cases h

theorem range_refused (hf : FilledFrame text f) (hstamp : Stamp f.stamp ts)
    (h : checkRange anchor ts.absSeconds = .error reason) :
    ¬ Passes anchor text tooLong .range := by
  rintro ⟨f', ts', hf', hstamp', hnear⟩
  rw [filled_unique hf' hf] at hstamp'
  have heq := (parseTimestamp_iff.mpr hstamp).symm.trans (parseTimestamp_iff.mpr hstamp')
  cases heq
  rw [checkRange_iff.mpr hnear] at h
  cases h

theorem header_refused (hf : FilledFrame text f) (h : checkInts f.header = .error reason) :
    ¬ Passes anchor text tooLong .header := by
  rintro ⟨f', hf', hall⟩
  rw [filled_unique hf' hf] at hall
  rw [checkInts_ok.mpr hall] at h
  cases h

theorem brackets_refused (hf : FilledFrame text f) (h : ¬ FlatBrackets f.message) :
    ¬ Passes anchor text tooLong .brackets := by
  rintro ⟨f', hf', hflat⟩
  rw [filled_unique hf' hf] at hflat
  exact h hflat

theorem module_refused (hf : FilledFrame text f)
    (h : moduleIds.find? (fun id => moduleName id = f.module) = none) :
    ¬ Passes anchor text tooLong .module := by
  rintro ⟨f', id, hf', hname⟩
  rw [filled_unique hf' hf] at hname
  rw [find_module.mpr hname] at h
  cases h

theorem fields_refused (hf : FilledFrame text f) (hid : f.module = moduleName id)
    (hflat : FlatBrackets f.message) (h : checkDocumented f.message id = .error reason) :
    ¬ Passes anchor text tooLong .fields := by
  rintro ⟨f', id', hf', hid', hall⟩
  rw [filled_unique hf' hf] at hid' hall
  obtain rfl := moduleName_inj (hid'.symm.trans hid)
  rw [(checkDocumented_ok hflat).mpr hall] at h
  cases h

end Refusals

theorem check_failure (h : check anchor text tooLong = .error reason) :
    FirstFailure NumericReason anchor text tooLong reason := by
  unfold check at h
  rcases bind_error h with hbytes | ⟨⟨⟩, hbytes, h⟩
  · exact checkBytes_failure _ hbytes
  obtain ⟨hlong, hvisible, hprintable⟩ := checkBytes_ok.mp hbytes
  have passed : ∀ s ∈ [ParseStage.tooLong, .empty, .ctrlChar], Passes anchor text tooLong s := by
    simp only [List.forall_mem_cons]
    exact ⟨hlong, hvisible, hprintable, by simp⟩
  rcases bind_error h with hframe | ⟨f, hframe, h⟩
  · refine ⟨_, .frame, _, rfl, passed, ?_, frame_error hframe⟩
    rintro ⟨f, hf⟩
    rw [frame_ok.mpr hf] at hframe
    cases hframe
  have hf := frame_ok.mp hframe
  replace passed := passed_next passed .frame ⟨f, hf⟩
  cases hts : parseTimestamp f.stamp with
  | none =>
    rw [hts] at h
    cases h
    exact ⟨_, .timestamp, _, rfl, passed, stamp_refused hf hts, rfl⟩
  | some ts =>
    rw [hts] at h
    have hstamp := parseTimestamp_iff.mp hts
    replace passed := passed_next passed .timestamp ⟨f, ts, hf, hstamp⟩
    rcases bind_error h with hrange | ⟨⟨⟩, hrange, h⟩
    · exact ⟨_, .range, _, rfl, passed, range_refused hf hstamp hrange, checkRange_error hrange⟩
    replace passed := passed_next passed .range ⟨f, ts, hf, hstamp, checkRange_iff.mp hrange⟩
    rcases bind_error h with hheader | ⟨⟨⟩, hheader, h⟩
    · exact ⟨_, .header, _, rfl, passed, header_refused hf hheader, checkInts_failure hf hheader⟩
    replace passed := passed_next passed .header ⟨f, hf, checkInts_ok.mp hheader⟩
    split_ifs at h with hsane
    · cases h
      have hflat : ¬ FlatBrackets f.message := by
        rw [← bracketsSane_iff]
        simpa using hsane
      exact ⟨_, .brackets, _, rfl, passed, brackets_refused hf hflat, rfl⟩
    have hflat : FlatBrackets f.message := by
      rw [← bracketsSane_iff]
      simpa using hsane
    replace passed := passed_next passed .brackets ⟨f, hf, hflat⟩
    cases hm : moduleIds.find? (fun id => moduleName id = f.module) with
    | none =>
      rw [hm] at h
      cases h
      exact ⟨_, .module, _, rfl, passed, module_refused hf hm, rfl⟩
    | some id =>
      have hid := find_module.mp hm
      replace passed := passed_next passed .module ⟨f, id, hf, hid⟩
      rw [hm] at h
      dsimp only at h
      rw [documented_stage] at h
      rcases bind_error h with hfields | ⟨⟨⟩, -, h⟩
      · exact ⟨_, .fields, _, rfl, passed, fields_refused hf hid hflat hfields,
          checkDocumented_failure hf hid hflat hfields⟩
      · cases h

/-- The reason of a rejected line is that of its first failing stage. -/
theorem first_failing_stage (p : LogLineParser) (text : Bytes) (tooLong : Bool)
    (reason : SkipReason) (h : (p.parse text tooLong).2 = .error reason) :
    FirstFailure NumericReason p.anchor text tooLong reason := by
  unfold parse at h
  split at h
  · rename_i reason' hcheck
    cases h
    exact check_failure hcheck
  · cases h

/-- A header number that is too long and not a number either. -/
def mixedHeader : Bytes :=
  bytesOf "[2026-01-02_03:04:05.000006][99999999999999999999x][2][3] BYDA::DetectionTaskRunner: x"

omit [Doubles] in
theorem mixedHeader_parse :
    letI := wholeDoubles
    (reset.parse mixedHeader false).2 = .error .numOutOfRange :=
  rfl

omit [Doubles] in
theorem mixed_header_first_failure :
    letI := wholeDoubles
    FirstFailure NumericReason none mixedHeader false .numOutOfRange := by
  let _ := wholeDoubles
  exact first_failing_stage reset mixedHeader false .numOutOfRange mixedHeader_parse

/-- The reasons of a numeral by all of its bytes. -/
structure WholeReason (token : Bytes) (reason : SkipReason) : Prop where
  bad : reason = .badNumber ↔ ¬ DigitString token
  range : reason = .numOutOfRange ↔ DigitString token ∧ 2 ^ 63 - 1 < digitsValue token

def mixedFrame : Frame :=
  { stamp := bytesOf "2026-01-02_03:04:05.000006",
    header := [bytesOf "99999999999999999999x", bytesOf "2", bytesOf "3"],
    module := bytesOf "DetectionTaskRunner", message := bytesOf "x" }

omit [Doubles] in
theorem mixedHeader_frame : FilledFrame mixedHeader mixedFrame :=
  frame_ok.mp (by decide)

omit [Doubles] in
/-- The bytes after the digits do not matter once the digits are too large. -/
theorem mixed_header_reason :
    letI := wholeDoubles
    (reset.parse mixedHeader false).2 = .error .numOutOfRange ∧
      ¬ FirstFailure WholeReason none mixedHeader false .numOutOfRange := by
  let _ := wholeDoubles
  refine ⟨mixedHeader_parse, ?_⟩
  rintro ⟨passed, stage, rest, -, -, -, hreport⟩
  cases stage with
  | header =>
    obtain ⟨token, ⟨⟨f, passed, rest, hf, hsplit, -⟩, -⟩, hwhole⟩ := hreport
    obtain ⟨hdigits, hlarge⟩ := hwhole.range.mp rfl
    rw [filled_unique hf mixedHeader_frame] at hsplit
    have hmem : token ∈ mixedFrame.header := by
      rw [hsplit]
      simp
    simp only [mixedFrame, List.mem_cons, List.not_mem_nil, or_false] at hmem
    rcases hmem with rfl | rfl | rfl
    · exact absurd (allDigits_iff.mpr hdigits) (by decide)
    · exact absurd hlarge (by decide)
    · exact absurd hlarge (by decide)
  | fields =>
    obtain ⟨kind, token, ⟨⟨f, id, name, before, passed, rest, hf, -, -, -, hfirst⟩, -⟩, -, -⟩ :=
      hreport
    obtain ⟨after, hmessage⟩ := hfirst.here.text
    rw [filled_unique hf mixedHeader_frame] at hmessage
    have hopen : ch '[' ∈ mixedFrame.message := by
      rw [hmessage]
      simp [bracketed]
    exact absurd hopen (by decide)
  | _ => cases hreport

end Errors

end LogLineParser

end LogTransfer
