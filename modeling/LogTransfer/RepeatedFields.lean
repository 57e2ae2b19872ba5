import LogTransfer.SkipReasons

/-!
# Repeated fields

The scan reads the first occurrence of a documented field and no other. All
fields of an accepted line are valid exactly when the repetitions are.
-/

set_option autoImplicit false

namespace LogTransfer.LogLineParser

variable [Doubles]

/-- Every occurrence of every documented field has a value of its kind. -/
def AllFieldsValid (message : Bytes) (id : ModuleId) : Prop :=
  ∀ field ∈ documentedFields id, ∀ before token,
    FieldAt message field.1 before token → ValidValue field.2 token

/-- So has every occurrence of a field that stands after another one of it. -/
def RepetitionsValid (message : Bytes) (id : ModuleId) : Prop :=
  ∀ field ∈ documentedFields id, ∀ before token earlier token',
    FieldAt message field.1 before token → FieldAt message field.1 earlier token' →
      earlier.length < before.length → ValidValue field.2 token

omit [Doubles] in
theorem first_or_repeated {message name before token : Bytes}
    (h : FieldAt message name before token) :
    FirstField message name before token ∨
      ∃ earlier token', FieldAt message name earlier token' ∧ earlier.length < before.length := by
  by_cases hfirst : ∀ other token', FieldAt message name other token' →
      before.length ≤ other.length
  · exact .inl ⟨h, hfirst⟩
  · simp only [not_forall, Nat.not_le] at hfirst
    obtain ⟨earlier, token', hearlier, hlt⟩ := hfirst
    exact .inr ⟨earlier, token', hearlier, hlt⟩

/-- An accepted line has no damaged field unless a repetition is damaged. -/
theorem accepted_fields_valid (p : LogLineParser) (text : Bytes) (tooLong : Bool) (f : Frame)
    (line : ParsedLine) (hf : FilledFrame text f) (h : (p.parse text tooLong).2 = .ok line) :
    AllFieldsValid f.message line.module ↔ RepetitionsValid f.message line.module := by
  obtain ⟨-, f', ts, id, hg, hread, -⟩ := parse_accepted (Prod.ext rfl h)
  obtain rfl : f' = f := filled_unique (grammatical_filled hg) hf
  rw [hread.module]
  constructor
  · intro hall field hfield before token earlier token' hat hearlier hlt
    exact hall field hfield before token hat
  · intro hrepeated field hfield before token hat
    rcases first_or_repeated hat with hfirst | ⟨earlier, token', hearlier, hlt⟩
    · exact hg.fields field hfield before token hfirst
    · exact hrepeated field hfield before token earlier token' hat hearlier hlt

section Damage

def repeatedLine : Bytes :=
  bytesOf "[2026-01-02_03:04:05.000006][1][2][3] BYDA::SectorSchedulerRTS: jobID[1], jobID[x]"

def repeatedFrame : Frame :=
  { stamp := bytesOf "2026-01-02_03:04:05.000006", header := [[ch '1'], [ch '2'], [ch '3']],
    module := bytesOf "SectorSchedulerRTS", message := bytesOf "jobID[1], jobID[x]" }

/-- The line as the parser reads it. -/
def repeatedParsed : ParsedLine :=
  lineOf { year := 2026, month := 1, day := 2, hour := 3, absSeconds := 0 } .sectorSchedulerRTS

omit [Doubles] in
theorem repeatedLine_frame : FilledFrame repeatedLine repeatedFrame :=
  frame_ok.mp (by decide)

omit [Doubles] in
theorem repeatedLine_parse :
    letI := wholeDoubles
    (reset.parse repeatedLine false).2 = .ok repeatedParsed :=
  rfl

omit [Doubles] in
theorem damaged_repetition : FieldAt repeatedFrame.message (bytesOf "jobID")
    (bytesOf "jobID[1], ") [ch 'x'] :=
  ⟨⟨[], by decide⟩, by decide, .inr ⟨ch ' ', by decide, by decide⟩⟩

omit [Doubles] in
theorem repeated_line_fields :
    letI := wholeDoubles
    AllFieldsValid repeatedFrame.message .sectorSchedulerRTS ↔
      RepetitionsValid repeatedFrame.message .sectorSchedulerRTS := by
  let _ := wholeDoubles
  exact accepted_fields_valid reset repeatedLine false repeatedFrame repeatedParsed
    repeatedLine_frame repeatedLine_parse

omit [Doubles] in
/-- A line with a damaged second value is accepted. -/
theorem repeated_line_accepted :
    letI := wholeDoubles
    (reset.parse repeatedLine false).2 = .ok repeatedParsed ∧
      FilledFrame repeatedLine repeatedFrame ∧
      ¬ AllFieldsValid repeatedFrame.message repeatedParsed.module := by
  let _ := wholeDoubles
  refine ⟨repeatedLine_parse, repeatedLine_frame, fun hall => ?_⟩
  have hfield : (bytesOf "jobID", FieldKind.integer) ∈ documentedFields repeatedParsed.module := by
    decide
  have hvalid : Number [ch 'x'] := hall _ hfield _ _ damaged_repetition
  exact absurd (allDigits_iff.mpr hvalid.digits) (by decide)

end Damage

end LogTransfer.LogLineParser
