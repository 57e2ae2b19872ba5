import LogTransfer.FieldChecks

/-!
# The lines that are accepted

Every stage of the scan passes exactly when its part of the grammar holds, so
that the accepted lines are those of the grammar. What is read off them is
what the grammar names, and only an accepted line moves the anchor.
-/

set_option autoImplicit false

namespace LogTransfer

section Readings

variable [Doubles]

def speedInRange (v : Doubles.Val) : Bool :=
  Doubles.le (Doubles.ofNat 0) v && Doubles.lt v (Doubles.ofNat 10000000)

/-- What a line says, next to its frame, its timestamp and its module. -/
structure ReadAs (f : Frame) (ts : Timestamp) (id : ModuleId) (line : ParsedLine) : Prop where
  module : line.module = id
  date : line.year = ts.year ∧ line.month = ts.month ∧ line.day = ts.day ∧ line.hour = ts.hour
  hasSpd : line.hasSpd = true ↔ id = .beamSteerCtrlUnitImpl ∧
    ∃ before token, FirstField f.message (bytesOf "spd") before token
  speed : line.hasSpd = true → ∀ before token v,
    FirstField f.message (bytesOf "spd") before token → FiniteDouble token v →
      line.spdInRange = speedInRange v ∧
        line.spd = if speedInRange v then v else Doubles.ofNat 0
  silent : line.hasSpd = false → line.spdInRange = false ∧ line.spd = Doubles.ofNat 0

end Readings

section Modules

theorem moduleName_filled (id : ModuleId) : moduleName id ≠ [] := by
  cases id <;> decide

theorem find_module {name : Bytes} {id : ModuleId} :
    moduleIds.find? (fun id => moduleName id = name) = some id ↔ name = moduleName id := by
  constructor
  · intro h
    have hname : moduleName id = name := by simpa using List.find?_some h
    exact hname.symm
  · rintro rfl
    cases h : moduleIds.find? (fun id' => moduleName id' = moduleName id) with
    | none =>
      have hall := List.find?_eq_none.mp h id (by cases id <;> decide)
      simp at hall
    | some id' =>
      have hname : moduleName id' = moduleName id := by simpa using List.find?_some h
      rw [moduleName_inj hname]

end Modules

namespace LogLineParser

section Stages

theorem checkRange_iff {anchor : Option ℤ} {absSeconds : ℤ} :
    checkRange anchor absSeconds = .ok () ↔ ∀ a, anchor = some a → |absSeconds - a| ≤ 172800 := by
  have hk : kTsRangeHours * 3600 = 172800 := by decide
  unfold checkRange
  cases anchor with
  | none => simp
  | some a =>
    simp only [Option.some.injEq, forall_eq', abs_le, hk, Bool.or_eq_true, decide_eq_true_eq]
    split_ifs with hout
    · simp only [false_iff]
      omega
    · simp only [true_iff]
      omega

theorem checkInts_ok {tokens : List Bytes} :
    checkInts tokens = .ok () ↔ ∀ token ∈ tokens, Number token := by
  rw [checkInts_row, firstFault_ok]
  simp only [integerFault_none]

variable [Doubles] {anchor : Option ℤ} {text : Bytes} {f : Frame} {ts : Timestamp}
  {id : ModuleId}

theorem checkDocumented_ok (hflat : FlatBrackets f.message) :
    checkDocumented f.message id = .ok () ↔ ∀ field ∈ documentedFields id, ∀ before token,
      FirstField f.message field.1 before token → ValidValue field.2 token := by
  rw [checkDocumented, firstFault_ok]
  constructor
  · intro h field hfield
    exact (fieldFault_none hflat field).mp (h field hfield)
  · intro h field hfield
    exact (fieldFault_none hflat field).mpr (h field hfield)

theorem grammatical_filled (h : Grammatical anchor text f ts id) : FilledFrame text f := by
  refine ⟨h.frame, ?_, ?_⟩
  · intro token htoken
    rcases List.mem_cons.mp htoken with rfl | hheader
    · intro hempty
      have hread := parseTimestamp_iff.mpr h.stamp
      rw [hempty] at hread
      cases hread
    · exact (h.header token hheader).digits.filled
  · rw [h.module]
    exact moduleName_filled id

/-- The line before its speed. -/
def lineOf (ts : Timestamp) (id : ModuleId) : ParsedLine :=
  { module := id, year := ts.year, month := ts.month, day := ts.day, hour := ts.hour,
    hasSpd := false, spdInRange := false, spd := Doubles.ofNat 0 }

theorem check_ok_iff {tooLong : Bool} {line : ParsedLine} {absSeconds : ℤ} :
    check anchor text tooLong = .ok (line, absSeconds) ↔
      tooLong = false ∧ ∃ f ts id, Grammatical anchor text f ts id ∧
        line = withSpeed (lineOf ts id) (speedOf f.message id) ∧ absSeconds = ts.absSeconds := by
  constructor
  · intro h
    unfold check at h
    obtain ⟨⟨⟩, hbytes, h⟩ := bind_ok h
    obtain ⟨f, hframe, h⟩ := bind_ok h
    cases hts : parseTimestamp f.stamp with
    | none =>
      rw [hts] at h
      cases h
    | some ts =>
      rw [hts] at h
      obtain ⟨⟨⟩, hrange, h⟩ := bind_ok h
      obtain ⟨⟨⟩, hheader, h⟩ := bind_ok h
      split_ifs at h with hflat
      cases hm : moduleIds.find? (fun id => moduleName id = f.module) with
      | none =>
        rw [hm] at h
        cases h
      | some id =>
        rw [hm] at h
        dsimp only at h
        rw [documented_stage] at h
        obtain ⟨⟨⟩, hfields, h⟩ := bind_ok h
        cases h
        obtain ⟨hlong, hvisible, hprintable⟩ := checkBytes_ok.mp hbytes
        have hbrackets : FlatBrackets f.message := by
          rw [← bracketsSane_iff]
          simpa using hflat
        exact ⟨hlong, f, ts, id, ⟨hvisible, hprintable, (frame_ok.mp hframe).framed,
          parseTimestamp_iff.mp hts, checkRange_iff.mp hrange, checkInts_ok.mp hheader,
          find_module.mp hm, hbrackets, (checkDocumented_ok hbrackets).mp hfields⟩, rfl, rfl⟩
  · rintro ⟨hlong, f, ts, id, h, rfl, rfl⟩
    have hflat : ¬ (!bracketsSane f.message) = true := by
      rw [(bracketsSane_iff f.message).mpr h.brackets]
      decide
    rw [check, ok_bind (checkBytes_ok.mpr ⟨hlong, h.visible, h.printable⟩),
      ok_bind (frame_ok.mpr (grammatical_filled h)), parseTimestamp_iff.mpr h.stamp]
    dsimp only
    rw [ok_bind (checkRange_iff.mpr h.near), ok_bind (checkInts_ok.mpr h.header), if_neg hflat,
      find_module.mpr h.module]
    dsimp only
    rw [documented_stage, ok_bind ((checkDocumented_ok h.brackets).mpr h.fields)]
    rfl

theorem speedOf_none (hflat : FlatBrackets f.message) (h : speedOf f.message id = none)
    (hvalid : checkDocumented f.message id = .ok ()) :
    ¬ (id = .beamSteerCtrlUnitImpl ∧
      ∃ before token, FirstField f.message (bytesOf "spd") before token) := by
  rintro ⟨hbeam, before, token, hfirst⟩
  have hfield : (bytesOf "spd", FieldKind.double) ∈ documentedFields id := by
    simp [documentedFields, hbeam]
  obtain ⟨v, hv⟩ := (checkDocumented_ok hflat).mp hvalid _ hfield before token hfirst
  rw [speedOf, if_pos hbeam, doubleOf, (findField_first hflat).mpr ⟨before, hfirst⟩,
    Option.bind_some, parseDoubleField_iff.mpr hv] at h
  cases h

theorem speedOf_some {v : Doubles.Val} (hflat : FlatBrackets f.message)
    (h : speedOf f.message id = some v) :
    id = .beamSteerCtrlUnitImpl ∧ ∃ before token,
      FirstField f.message (bytesOf "spd") before token ∧ FiniteDouble token v := by
  unfold speedOf doubleOf at h
  split_ifs at h with hbeam
  obtain ⟨token, htoken, hv⟩ := Option.bind_eq_some_iff.mp h
  obtain ⟨before, hfirst⟩ := (findField_first hflat).mp htoken
  exact ⟨hbeam, before, token, hfirst, parseDoubleField_iff.mp hv⟩

/-- The line of the check is what the grammar reads. -/
theorem withSpeed_reads (h : Grammatical anchor text f ts id) :
    ReadAs f ts id (withSpeed (lineOf ts id) (speedOf f.message id)) := by
  have hvalid := (checkDocumented_ok h.brackets).mpr h.fields
  cases hspd : speedOf f.message id with
  | none =>
    have hnone := speedOf_none h.brackets hspd hvalid
    exact ⟨rfl, ⟨rfl, rfl, rfl, rfl⟩, ⟨fun hs => (by cases hs), fun hs => absurd hs hnone⟩,
      fun hs => (by cases hs), fun _ => ⟨rfl, rfl⟩⟩
  | some v =>
    obtain ⟨hbeam, before, token, hfirst, hv⟩ := speedOf_some h.brackets hspd
    refine ⟨rfl, ⟨rfl, rfl, rfl, rfl⟩, ⟨fun _ => ⟨hbeam, before, token, hfirst⟩, fun _ => rfl⟩,
      fun _ before' token' v' hfirst' hv' => ?_, fun hs => (by cases hs)⟩
    have htoken := (findField_first h.brackets).mpr ⟨before, hfirst⟩
    rw [(findField_first h.brackets).mpr ⟨before', hfirst'⟩] at htoken
    cases htoken
    have hread := parseDoubleField_iff.mpr hv
    rw [parseDoubleField_iff.mpr hv'] at hread
    cases hread
    exact ⟨rfl, rfl⟩

theorem parse_accepted {p p' : LogLineParser} {tooLong : Bool} {line : ParsedLine}
    (h : p.parse text tooLong = (p', .ok line)) :
    tooLong = false ∧ ∃ f ts id, Grammatical p.anchor text f ts id ∧ ReadAs f ts id line ∧
      p'.anchor = some (p.anchor.getD ts.absSeconds) := by
  unfold parse at h
  split at h
  · cases h
  · rename_i line' absSeconds hcheck
    cases h
    obtain ⟨hlong, f, ts, id, hg, rfl, rfl⟩ := check_ok_iff.mp hcheck
    exact ⟨hlong, f, ts, id, hg, withSpeed_reads hg, rfl⟩

/-- The parser accepts exactly the lines of the grammar, reads them as they
are, and keeps the first accepted moment as its anchor. -/
theorem parse_grammar (p : LogLineParser) (text : Bytes) (tooLong : Bool) :
    ((∃ line, (p.parse text tooLong).2 = .ok line) ↔
      tooLong = false ∧ ∃ f ts id, Grammatical p.anchor text f ts id) ∧
    (∀ line, (p.parse text tooLong).2 = .ok line → ∃ f ts id,
      Grammatical p.anchor text f ts id ∧ ReadAs f ts id line ∧
        (p.parse text tooLong).1.anchor = some (p.anchor.getD ts.absSeconds)) ∧
    (∀ reason, (p.parse text tooLong).2 = .error reason → (p.parse text tooLong).1 = p) := by
  have hline (line : ParsedLine) (h : (p.parse text tooLong).2 = .ok line) :=
    parse_accepted (Prod.ext rfl h)
  refine ⟨⟨?_, ?_⟩, ?_, ?_⟩
  · rintro ⟨line, h⟩
    obtain ⟨hlong, f, ts, id, hg, -, -⟩ := hline line h
    exact ⟨hlong, f, ts, id, hg⟩
  · rintro ⟨hlong, f, ts, id, hg⟩
    have hcheck := check_ok_iff.mpr ⟨hlong, f, ts, id, hg, rfl, rfl⟩
    exact ⟨_, by rw [parse, hcheck]⟩
  · intro line h
    exact (hline line h).2
  · intro reason h
    unfold parse at h ⊢
    split
    · rfl
    · rename_i hcheck
      rw [hcheck] at h
      cases h

end Stages

end LogLineParser

end LogTransfer
