import LogTransfer.FieldScan
import LogTransfer.TokenScan

/-!
# Checks in a row

The header tokens and the documented fields are each checked one after the
other, up to the first fault. The last stage of a line is the row of the
documented fields of its module, whatever their kind.
-/

set_option autoImplicit false

namespace LogTransfer

section Rows

variable {α ε : Type} {fault : α → Option ε} {a : α} {e : ε}

def firstFault (fault : α → Option ε) : List α → Except ε Unit
  | [] => .ok ()
  | a::rest => match fault a with
    | some e => .error e
    | none => firstFault fault rest

theorem firstFault_none (h : fault a = none) (rest : List α) :
    firstFault fault (a :: rest) = firstFault fault rest := by
  rw [firstFault, h]

theorem firstFault_some (h : fault a = some e) (rest : List α) :
    firstFault fault (a :: rest) = .error e := by
  rw [firstFault, h]

theorem firstFault_ok (l : List α) :
    firstFault fault l = .ok () ↔ ∀ a ∈ l, fault a = none := by
  induction l with
  | nil => simp [firstFault]
  | cons a l ih =>
    cases h : fault a with
    | none => simp [firstFault_none h, ih, h]
    | some e => simp [firstFault_some h, h]

theorem firstFault_error (l : List α) :
    firstFault fault l = .error e ↔ ∃ passed a rest, l = passed ++ a :: rest ∧
      (∀ b ∈ passed, fault b = none) ∧ fault a = some e := by
  induction l with
  | nil => simp [firstFault]
  | cons a l ih =>
    cases h : fault a with
    | none =>
      rw [firstFault_none h, ih]
      constructor
      · rintro ⟨passed, b, rest, rfl, hpassed, hb⟩
        exact ⟨a :: passed, b, rest, rfl, by simpa [h] using hpassed, hb⟩
      · rintro ⟨passed, b, rest, hl, hpassed, hb⟩
        cases passed with
        | nil =>
          obtain ⟨rfl, -⟩ := List.cons.inj hl
          rw [h] at hb
          cases hb
        | cons c passed =>
          obtain ⟨-, hrest⟩ := List.cons.inj hl
          exact ⟨passed, b, rest, hrest, fun x hx => hpassed x (List.mem_cons_of_mem _ hx), hb⟩
    | some e' =>
      rw [firstFault_some h]
      constructor
      · intro heq
        cases heq
        exact ⟨[], a, l, rfl, fun b hb => absurd hb List.not_mem_nil, h⟩
      · rintro ⟨passed, b, rest, hl, hpassed, hb⟩
        cases passed with
        | nil =>
          obtain ⟨rfl, -⟩ := List.cons.inj hl
          rw [h] at hb
          cases hb
          rfl
        | cons c passed =>
          obtain ⟨rfl, -⟩ := List.cons.inj hl
          rw [hpassed a List.mem_cons_self] at h
          cases h

theorem firstFault_append (l l' : List α) :
    firstFault fault (l ++ l') = firstFault fault l >>= fun _ => firstFault fault l' := by
  induction l with
  | nil => rfl
  | cons a l ih =>
    rw [List.cons_append]
    cases h : fault a with
    | none => rw [firstFault_none h, firstFault_none h, ih]
    | some e =>
      rw [firstFault_some h, firstFault_some h]
      rfl

end Rows

section Faults

def integerFault (token : Bytes) : Option SkipReason :=
  match parseInt64Field token with
  | .ok _ => none
  | .error reason => some reason

theorem integerFault_none {token : Bytes} : integerFault token = none ↔ Number token := by
  unfold integerFault
  cases h : parseInt64Field token with
  | ok n => simp [(parseInt64Field_ok.mp h).1]
  | error reason =>
    simp only [reduceCtorEq, false_iff]
    intro hnumber
    rw [number_read hnumber] at h
    cases h

theorem checkInts_row (tokens : List Bytes) :
    LogLineParser.checkInts tokens = firstFault integerFault tokens := by
  induction tokens with
  | nil => rfl
  | cons token rest ih =>
    rw [LogLineParser.checkInts, ih, firstFault, integerFault]
    cases parseInt64Field token with
    | ok n => rfl
    | error reason => rfl

variable [Doubles]

/-- Why a value of a kind is refused. -/
def valueFault : FieldKind → Bytes → Option SkipReason
  | .integer, token => integerFault token
  | .arrow, token => if isArrowPair token then none else some .badNumber
  | .double, token => if (parseDoubleField token).isSome then none else some .badNumber

theorem valueFault_none {kind : FieldKind} {token : Bytes} :
    valueFault kind token = none ↔ ValidValue kind token := by
  cases kind with
  | integer => exact integerFault_none
  | arrow => simp [valueFault, ValidValue, isArrowPair_iff]
  | double =>
    simp only [valueFault, ValidValue, ite_eq_left_iff, reduceCtorEq, imp_false, not_not,
      Option.isSome_iff_exists, parseDoubleField_iff]

def fieldFault (message : Bytes) (field : Bytes × FieldKind) : Option SkipReason :=
  (findField message field.1).bind (valueFault field.2)

theorem fieldFault_none {message : Bytes} (hflat : FlatBrackets message)
    (field : Bytes × FieldKind) :
    fieldFault message field = none ↔
      ∀ before token, FirstField message field.1 before token → ValidValue field.2 token := by
  unfold fieldFault
  cases h : findField message field.1 with
  | none =>
    simp only [Option.bind_none, true_iff]
    intro before token hfirst
    exact absurd hfirst.here ((findField_absent hflat).mp h before token)
  | some token =>
    rw [Option.bind_some, valueFault_none]
    constructor
    · intro hvalid before token' hfirst
      rw [(findField_first hflat).mpr ⟨before, hfirst⟩] at h
      cases h
      exact hvalid
    · intro hall
      obtain ⟨before, hfirst⟩ := (findField_first hflat).mp h
      exact hall before token hfirst

end Faults

namespace LogLineParser

section Last

theorem intFields_row (message : Bytes) (names : List Bytes) [Doubles] :
    checkInts (names.filterMap (findField message)) =
      firstFault (fieldFault message) (names.map (·, .integer)) := by
  rw [checkInts_row]
  induction names with
  | nil => rfl
  | cons name names ih =>
    rw [List.map_cons, firstFault, fieldFault]
    cases h : findField message name with
    | none =>
      rw [List.filterMap_cons_none h, ih]
      rfl
    | some token =>
      rw [List.filterMap_cons_some h, firstFault, ih]
      rfl

variable [Doubles]

theorem checkFields_row (message : Bytes) (spec : ModuleSpec) :
    checkFields message spec =
      firstFault (fieldFault message) (spec.intFields.map (·, .integer) ++
        spec.arrowField.toList.map (·, .arrow)) := by
  rw [firstFault_append, ← intFields_row, checkFields]
  congr 1
  funext _
  cases spec.arrowField with
  | none => rfl
  | some name =>
    simp only [Option.bind_some, Option.toList_some, List.map_cons, List.map_nil, firstFault,
      fieldFault]
    cases findField message name with
    | none => rfl
    | some token =>
      simp only [Option.bind_some, valueFault]
      cases isArrowPair token with
      | true => rfl
      | false => rfl

/-- The value of a field that is read as a double. -/
def doubleOf (message name : Bytes) : Option Doubles.Val :=
  (findField message name).bind parseDoubleField

theorem checkDouble_row (message name : Bytes) :
    checkDouble (findField message name) =
      firstFault (fieldFault message) [(name, .double)] >>= fun _ =>
        .ok (doubleOf message name) := by
  simp only [firstFault, fieldFault, doubleOf, checkDouble]
  cases findField message name with
  | none => rfl
  | some token =>
    simp only [Option.bind_some, valueFault]
    cases parseDoubleField token with
    | none => rfl
    | some v => rfl

def speedOf (message : Bytes) (id : ModuleId) : Option Doubles.Val :=
  if id = .beamSteerCtrlUnitImpl then doubleOf message (bytesOf "spd") else none

/-- The stage of the module fields, as one row of checks. -/
def checkDocumented (message : Bytes) (id : ModuleId) : Except SkipReason Unit :=
  firstFault (fieldFault message) (documentedFields id)

theorem documented_stage (message : Bytes) (id : ModuleId) (line : ParsedLine) (absSeconds : ℤ) :
    (do
      checkFields message (kModules id)
      if id = .beamSteerCtrlUnitImpl then
        let spd ← checkDouble (findField message (bytesOf "spd"))
        let _ ← checkDouble (findField message (bytesOf "advDelta"))
        .ok (withSpeed line spd, absSeconds)
      else .ok (line, absSeconds)) =
      checkDocumented message id >>= fun _ =>
        .ok (withSpeed line (speedOf message id), absSeconds) := by
  rw [checkDocumented, documentedFields, firstFault_append, ← checkFields_row]
  generalize checkFields message (kModules id) = fields
  cases fields with
  | error reason => rfl
  | ok _ =>
    by_cases hbeam : id = .beamSteerCtrlUnitImpl
    · rw [if_pos hbeam, if_pos hbeam, ← List.singleton_append, firstFault_append,
        checkDouble_row, checkDouble_row, speedOf, if_pos hbeam]
      generalize firstFault (fieldFault message) [(bytesOf "spd", FieldKind.double)] = spd
      generalize firstFault (fieldFault message) [(bytesOf "advDelta", FieldKind.double)] = adv
      cases spd with
      | error reason => rfl
      | ok _ =>
        cases adv with
        | error reason => rfl
        | ok _ => rfl
    · rw [if_neg hbeam, if_neg hbeam, speedOf, if_neg hbeam]
      rfl

end Last

end LogLineParser

end LogTransfer
