import LogTransfer.LineReassembler
import Mathlib.Data.List.Basic

/-!
# Line validation

A line is accepted only when every stage passes, in the order of the source:
bytes, frame, timestamp, session range, header numbers, brackets, module,
module fields. Double arithmetic is a parameter, `Doubles`: the analysis reads
it through `fromChars`, a few comparisons and the running sum of the speeds.
-/

set_option autoImplicit false

namespace LogTransfer

class Doubles where
  Val : Type
  fromChars : Bytes → Option (Val × ℕ)
  isFinite : Val → Bool
  lt : Val → Val → Bool
  le : Val → Val → Bool
  ofNat : ℕ → Val
  half : Val
  add : Val → Val → Val
  sub : Val → Val → Val
  mul : Val → Val → Val
  div : Val → Val → Val
  truncate : Val → ℕ

inductive SkipReason where
  | lineTooLong | empty | ctrlChar | badFrame | badBracket | badTimestamp | tsOutOfRange
  | badNumber | numOutOfRange | unknownModule | mapLimit
  deriving DecidableEq, Repr

def skipReasons : List SkipReason :=
  [.lineTooLong, .empty, .ctrlChar, .badFrame, .badBracket, .badTimestamp, .tsOutOfRange,
    .badNumber, .numOutOfRange, .unknownModule, .mapLimit]

def skipReasonCode : SkipReason → Bytes
  | .lineTooLong => bytesOf "LINE_TOO_LONG"
  | .empty => bytesOf "EMPTY"
  | .ctrlChar => bytesOf "CTRL_CHAR"
  | .badFrame => bytesOf "BAD_FRAME"
  | .badBracket => bytesOf "BAD_BRACKET"
  | .badTimestamp => bytesOf "BAD_TIMESTAMP"
  | .tsOutOfRange => bytesOf "TS_OUT_OF_RANGE"
  | .badNumber => bytesOf "BAD_NUMBER"
  | .numOutOfRange => bytesOf "NUM_OUT_OF_RANGE"
  | .unknownModule => bytesOf "UNKNOWN_MODULE"
  | .mapLimit => bytesOf "MAP_LIMIT"

inductive ModuleId where
  | radarTrackNodeState | antennaProfileSpec | beamSteerCtrlUnitImpl | detectionTaskRunner
  | sectorSchedulerRTS
  deriving DecidableEq, Repr

def moduleIds : List ModuleId :=
  [.radarTrackNodeState, .antennaProfileSpec, .beamSteerCtrlUnitImpl, .detectionTaskRunner,
    .sectorSchedulerRTS]

structure ModuleSpec where
  name : Bytes
  intFields : List Bytes
  arrowField : Option Bytes

def kModules : ModuleId → ModuleSpec
  | .radarTrackNodeState =>
    ⟨bytesOf "RadarTrackNodeState", [bytesOf "nodeUID", bytesOf "rfLane"],
      some (bytesOf "lockState")⟩
  | .antennaProfileSpec => ⟨bytesOf "AntennaProfileSpec", [bytesOf "sectorID"], none⟩
  | .beamSteerCtrlUnitImpl => ⟨bytesOf "BeamSteerCtrlUnitImpl", [bytesOf "unitAddr"], none⟩
  | .detectionTaskRunner => ⟨bytesOf "DetectionTaskRunner", [bytesOf "jobID"], none⟩
  | .sectorSchedulerRTS =>
    ⟨bytesOf "SectorSchedulerRTS", [bytesOf "jobID", bytesOf "gatedFlag"], none⟩

def moduleName (id : ModuleId) : Bytes := (kModules id).name

def kSpdMin : ℕ := 0
def kSpdMax : ℕ := 10000000
def kTsRangeHours : ℤ := 48

section Text

def findFrom (needle : Bytes) : Bytes → ℕ → Option ℕ
  | [], i => if needle = [] then some i else none
  | b::bs, i => if needle.isPrefixOf (b::bs) then some i else findFrom needle bs (i + 1)

/-- `string_view::find(needle, pos)`. -/
def find (text needle : Bytes) (pos : ℕ) : Option ℕ :=
  if pos ≤ text.length then findFrom needle (text.drop pos) pos else none

def substr (text : Bytes) (pos count : ℕ) : Bytes := (text.drop pos).take count

def charAt (text : Bytes) (pos : ℕ) : Option Byte := text[pos]?

def ch (c : Char) : Byte := BitVec.ofNat 8 c.toNat

def isDigit (b : Byte) : Bool := 0x30 ≤ b.toNat && b.toNat ≤ 0x39

def digitsValue (ds : Bytes) : ℕ := ds.foldl (fun v d => v * 10 + (d.toNat - 0x30)) 0

end Text

section Numbers

def kInt64Max : ℕ := 9223372036854775807

-- `from_chars` reports an out-of-range value before the trailing bytes matter.
def parseInt64Field (token : Bytes) : Except SkipReason ℕ :=
  let digits := token.takeWhile isDigit
  if digits.isEmpty then .error .badNumber
  else if digitsValue digits > kInt64Max then .error .numOutOfRange
  else if digits.length ≠ token.length then .error .badNumber
  else .ok (digitsValue digits)

def parseDoubleField [Doubles] (token : Bytes) : Option Doubles.Val :=
  if token.isEmpty then none
  else match Doubles.fromChars token with
    | none => none
    | some (value, used) =>
      if used = token.length && Doubles.isFinite value then some value else none

def allDigits (s : Bytes) : Bool := !s.isEmpty && s.all isDigit

def isArrowPair (token : Bytes) : Bool :=
  match find token (bytesOf "->") 0 with
  | none => false
  | some 0 => false
  | some arrow => allDigits (substr token 0 arrow) && allDigits (token.drop (arrow + 2))

end Numbers

section Calendar

def daysFromCivil (year month day : ℤ) : ℤ :=
  let y := year - if month ≤ 2 then 1 else 0
  let era := Int.tdiv (if y ≥ 0 then y else y - 399) 400
  let yoe := y - era * 400
  let doy := Int.tdiv (153 * (month + if month > 2 then -3 else 9) + 2) 5 + day - 1
  let doe := yoe * 365 + yoe / 4 - yoe / 100 + doy
  era * 146097 + doe - 719468

def isLeapYear (y : ℕ) : Bool := (y % 4 = 0 && y % 100 ≠ 0) || y % 400 = 0

def daysInMonth (y m : ℕ) : ℕ :=
  if m = 2 && isLeapYear y then 29
  else ([31, 28, 31, 30, 31, 30, 31, 31, 30, 31, 30, 31] : List ℕ).getD (m - 1) 0

structure Timestamp where
  year : ℕ
  month : ℕ
  day : ℕ
  hour : ℕ
  absSeconds : ℤ
  deriving DecidableEq, Repr

def allDigitsAt (s : Bytes) (pos count : ℕ) : Bool := (substr s pos count).all isDigit

def digitsToInt (s : Bytes) (pos count : ℕ) : ℕ := digitsValue (substr s pos count)

def timestampShape (ts : Bytes) : Bool :=
  ts.length = 26 && charAt ts 4 = some (ch '-') && charAt ts 7 = some (ch '-') &&
    charAt ts 10 = some (ch '_') && charAt ts 13 = some (ch ':') &&
    charAt ts 16 = some (ch ':') && charAt ts 19 = some (ch '.') &&
    allDigitsAt ts 0 4 && allDigitsAt ts 5 2 && allDigitsAt ts 8 2 && allDigitsAt ts 11 2 &&
    allDigitsAt ts 14 2 && allDigitsAt ts 17 2 && allDigitsAt ts 20 6

def parseTimestamp (ts : Bytes) : Option Timestamp :=
  if !timestampShape ts then none
  else
    let year := digitsToInt ts 0 4
    let month := digitsToInt ts 5 2
    let day := digitsToInt ts 8 2
    let hour := digitsToInt ts 11 2
    let minute := digitsToInt ts 14 2
    let second := digitsToInt ts 17 2
    if month < 1 || month > 12 || day < 1 || day > daysInMonth year month || hour > 23 ||
        minute > 59 || second > 59 then none
    else some
      { year := year, month := month, day := day, hour := hour,
        absSeconds := daysFromCivil year month day * 86400 + hour * 3600 + minute * 60 + second }

end Calendar

section Message

-- The loop state is the open flag and the length of the open bracket's content.
def bracketsLoop : Bytes → Bool → ℕ → Bool
  | [], isOpen, _ => !isOpen
  | c::cs, isOpen, contentLen =>
    if c = ch '[' then
      if isOpen then false else bracketsLoop cs true 0
    else if c = ch ']' then
      if !isOpen || contentLen = 0 then false else bracketsLoop cs false contentLen
    else bracketsLoop cs isOpen (if isOpen then contentLen + 1 else contentLen)

def bracketsSane (message : Bytes) : Bool := bracketsLoop message false 0

def boundaryOk (message : Bytes) (found : ℕ) : Bool :=
  found = 0 || charAt message (found - 1) = some (ch ' ') ||
    charAt message (found - 1) = some (ch ',') || charAt message (found - 1) = some (ch ':')

def findFieldLoop (message name : Bytes) : ℕ → ℕ → Option Bytes
  | 0, _ => none
  | fuel+1, pos =>
    if pos < message.length then
      match find message name pos with
      | none => none
      | some found =>
        let bracket := found + name.length
        if boundaryOk message found && charAt message bracket = some (ch '[') then
          match find message [ch ']'] (bracket + 1) with
          | none => none
          | some close => some (substr message (bracket + 1) (close - bracket - 1))
        else findFieldLoop message name fuel (found + 1)
    else none

/-- The first occurrence of `name[` after a boundary; every retry moves past
the last hit, so the message length bounds the retries. -/
def findField (message name : Bytes) : Option Bytes :=
  findFieldLoop message name (message.length + 1) 0

end Message

structure ParsedLine [Doubles] where
  module : ModuleId
  year : ℤ
  month : ℤ
  day : ℤ
  hour : ℤ
  hasSpd : Bool
  spdInRange : Bool
  spd : Doubles.Val

structure Frame where
  stamp : Bytes
  header : List Bytes
  module : Bytes
  message : Bytes
  deriving DecidableEq, Repr

structure LogLineParser where
  anchor : Option ℤ
  deriving DecidableEq, Repr

namespace LogLineParser

def reset : LogLineParser := { anchor := none }

def checkBytes (text : Bytes) (tooLong : Bool) : Except SkipReason Unit :=
  if tooLong then .error .lineTooLong
  else if text.all (· = ch ' ') then .error .empty
  else if text.any (fun b => b.toNat < 0x20 || b.toNat = 0x7F) then .error .ctrlChar
  else .ok ()

def headerToken (text : Bytes) (pos : ℕ) : Except SkipReason (Bytes × ℕ) :=
  if charAt text pos ≠ some (ch '[') then .error .badFrame
  else match find text [ch ']'] (pos + 1) with
    | none => .error .badFrame
    | some close =>
      if close = pos + 1 then .error .badFrame
      else .ok (substr text (pos + 1) (close - pos - 1), close + 1)

def kSeparator : Bytes := bytesOf " BYDA::"

def frame (text : Bytes) : Except SkipReason Frame := do
  let (stamp, p₁) ← headerToken text 0
  let (pid, p₂) ← headerToken text p₁
  let (tid, p₃) ← headerToken text p₂
  let (sess, p₄) ← headerToken text p₃
  if substr text p₄ kSeparator.length ≠ kSeparator then .error .badFrame
  else
    let pos := p₄ + kSeparator.length
    match find text [ch ':'] pos with
    | none => .error .badFrame
    | some moduleEnd =>
      if moduleEnd = pos || charAt text (moduleEnd + 1) ≠ some (ch ' ') then .error .badFrame
      else
        let module := substr text pos (moduleEnd - pos)
        .ok { stamp := stamp, header := [pid, tid, sess], module := module,
              message := text.drop (moduleEnd + 2) }

def checkRange (anchor : Option ℤ) (absSeconds : ℤ) : Except SkipReason Unit :=
  match anchor with
  | none => .ok ()
  | some a =>
    if absSeconds - a > kTsRangeHours * 3600 || absSeconds - a < -(kTsRangeHours * 3600) then
      .error .tsOutOfRange
    else .ok ()

def checkInts : List Bytes → Except SkipReason Unit
  | [] => .ok ()
  | token::rest => do
    let _ ← parseInt64Field token
    checkInts rest

def checkFields (message : Bytes) (spec : ModuleSpec) : Except SkipReason Unit := do
  checkInts (spec.intFields.filterMap (findField message))
  match spec.arrowField.bind (findField message) with
  | none => .ok ()
  | some token => if isArrowPair token then .ok () else .error .badNumber

def checkDouble [Doubles] (field : Option Bytes) : Except SkipReason (Option Doubles.Val) :=
  match field with
  | none => .ok none
  | some token => match parseDoubleField token with
    | none => .error .badNumber
    | some value => .ok (some value)

def withSpeed [Doubles] (line : ParsedLine) (spd : Option Doubles.Val) : ParsedLine :=
  match spd with
  | none => line
  | some v =>
    let inRange := Doubles.le (Doubles.ofNat kSpdMin) v && Doubles.lt v (Doubles.ofNat kSpdMax)
    { line with hasSpd := true, spdInRange := inRange,
                spd := if inRange then v else Doubles.ofNat 0 }

/-- The stages of `parse`; the timestamp is returned for the anchor. -/
def check [Doubles] (anchor : Option ℤ) (text : Bytes) (tooLong : Bool) :
    Except SkipReason (ParsedLine × ℤ) := do
  checkBytes text tooLong
  let f ← frame text
  match parseTimestamp f.stamp with
  | none => .error .badTimestamp
  | some ts =>
    checkRange anchor ts.absSeconds
    checkInts f.header
    if !bracketsSane f.message then .error .badBracket
    else match moduleIds.find? (fun id => moduleName id = f.module) with
      | none => .error .unknownModule
      | some module =>
        checkFields f.message (kModules module)
        let line : ParsedLine :=
          { module := module, year := ts.year, month := ts.month, day := ts.day, hour := ts.hour,
            hasSpd := false, spdInRange := false, spd := Doubles.ofNat 0 }
        if module = .beamSteerCtrlUnitImpl then
          let spd ← checkDouble (findField f.message (bytesOf "spd"))
          let _ ← checkDouble (findField f.message (bytesOf "advDelta"))
          .ok (withSpeed line spd, ts.absSeconds)
        else .ok (line, ts.absSeconds)

def parse [Doubles] (p : LogLineParser) (text : Bytes) (tooLong : Bool) :
    LogLineParser × Except SkipReason ParsedLine :=
  match check p.anchor text tooLong with
  | .error reason => (p, .error reason)
  | .ok (line, absSeconds) =>
    ({ anchor := some (p.anchor.getD absSeconds) }, .ok line)

end LogLineParser

end LogTransfer
