import LogTransfer.LogLineParser
import Mathlib.Algebra.Order.Group.Unbundled.Abs
import Mathlib.Algebra.Order.Group.Int
import Mathlib.Algebra.Group.Nat.Defs

/-!
# The grammar of a log line

What a line has to look like, without the order in which it is scanned: four
bracketed tokens, the separator, a module and a message. The timestamp is a
real moment of the calendar, the brackets of the message are flat, and the
first occurrence of every documented field has a value of its kind.
-/

set_option autoImplicit false

namespace LogTransfer

section Tokens

structure DigitString (token : Bytes) : Prop where
  filled : token ≠ []
  digits : ∀ b ∈ token, isDigit b = true

structure Number (token : Bytes) : Prop where
  digits : DigitString token
  range : digitsValue token ≤ 2 ^ 63 - 1

def Arrow (token : Bytes) : Prop :=
  ∃ a b, token = a ++ bytesOf "->" ++ b ∧ DigitString a ∧ DigitString b

structure FiniteDouble [Doubles] (token : Bytes) (v : Doubles.Val) : Prop where
  filled : token ≠ []
  whole : Doubles.fromChars token = some (v, token.length)
  finite : Doubles.isFinite v = true

end Tokens

section Stamps

def monthLength (y m : ℕ) : ℕ :=
  if m = 2 then if 4 ∣ y ∧ (¬ 100 ∣ y ∨ 400 ∣ y) then 29 else 28
  else if m = 4 ∨ m = 6 ∨ m = 9 ∨ m = 11 then 30 else 31

structure RealDate (y m d : ℕ) : Prop where
  month : 1 ≤ m ∧ m ≤ 12
  day : 1 ≤ d ∧ d ≤ monthLength y m

/-- The seven digit groups of `YYYY-MM-DD_hh:mm:ss.ffffff`. -/
structure StampText where
  year : Bytes
  month : Bytes
  day : Bytes
  hour : Bytes
  minute : Bytes
  second : Bytes
  fraction : Bytes

namespace StampText

def bytes (g : StampText) : Bytes :=
  g.year ++ ch '-' :: (g.month ++ ch '-' :: (g.day ++ ch '_' :: (g.hour ++ ch ':' ::
    (g.minute ++ ch ':' :: (g.second ++ ch '.' :: g.fraction)))))

def groups (g : StampText) : List (Bytes × ℕ) :=
  [(g.year, 4), (g.month, 2), (g.day, 2), (g.hour, 2), (g.minute, 2), (g.second, 2),
    (g.fraction, 6)]

structure Reads (g : StampText) (ts : Timestamp) : Prop where
  digits : ∀ group ∈ g.groups, group.1.length = group.2 ∧ ∀ b ∈ group.1, isDigit b = true
  year : ts.year = digitsValue g.year
  month : ts.month = digitsValue g.month
  day : ts.day = digitsValue g.day
  hour : ts.hour = digitsValue g.hour
  date : RealDate ts.year ts.month ts.day
  time : ts.hour ≤ 23 ∧ digitsValue g.minute ≤ 59 ∧ digitsValue g.second ≤ 59
  seconds : ts.absSeconds = daysFromCivil ts.year ts.month ts.day * 86400 + ts.hour * 3600 +
    digitsValue g.minute * 60 + digitsValue g.second

end StampText

def Stamp (token : Bytes) (ts : Timestamp) : Prop := ∃ g : StampText, token = g.bytes ∧ g.Reads ts

end Stamps

section Frames

def bracketed (token : Bytes) : Bytes := ch '[' :: (token ++ [ch ']'])

/-- `[stamp][p][t][s] BYDA::module: message`. -/
structure FramedLine (text : Bytes) (f : Frame) : Prop where
  shape : text = (f.stamp :: f.header).flatMap bracketed ++
    (LogLineParser.kSeparator ++ (f.module ++ (bytesOf ": " ++ f.message)))
  four : f.header.length = 3
  closed : ∀ token ∈ f.stamp :: f.header, ch ']' ∉ token
  colon : ch ':' ∉ f.module

end Frames

section Messages

def Unbracketed (text : Bytes) : Prop := ∀ b ∈ text, b ≠ ch '[' ∧ b ≠ ch ']'

/-- Every bracket pair is flat, closed and not empty. -/
inductive FlatBrackets : Bytes → Prop
  | plain {text : Bytes} : Unbracketed text → FlatBrackets text
  | pair {before content after : Bytes} : Unbracketed before → Unbracketed content →
      content ≠ [] → FlatBrackets after → FlatBrackets (before ++ (bracketed content ++ after))

/-- An occurrence of `name[token]` in the message, after the text `before`. -/
structure FieldAt (message name before token : Bytes) : Prop where
  text : ∃ rest, message = before ++ (name ++ (bracketed token ++ rest))
  closed : ch ']' ∉ token
  boundary : before = [] ∨ ∃ b ∈ [ch ' ', ch ',', ch ':'], before.getLast? = some b

structure FirstField (message name before token : Bytes) : Prop where
  here : FieldAt message name before token
  first : ∀ other token', FieldAt message name other token' → before.length ≤ other.length

inductive FieldKind where
  | integer | arrow | double
  deriving DecidableEq, Repr

def ValidValue [Doubles] : FieldKind → Bytes → Prop
  | .integer, token => Number token
  | .arrow, token => Arrow token
  | .double, token => ∃ v, FiniteDouble token v

def documentedFields (id : ModuleId) : List (Bytes × FieldKind) :=
  (kModules id).intFields.map (·, .integer) ++ (kModules id).arrowField.toList.map (·, .arrow) ++
    if id = .beamSteerCtrlUnitImpl then
      [(bytesOf "spd", .double), (bytesOf "advDelta", .double)]
    else []

end Messages

section Lines

variable [Doubles]

structure Grammatical (anchor : Option ℤ) (text : Bytes) (f : Frame) (ts : Timestamp)
    (id : ModuleId) : Prop where
  visible : ∃ b ∈ text, b ≠ ch ' '
  printable : ∀ b ∈ text, 0x20 ≤ b.toNat ∧ b.toNat ≠ 0x7F
  frame : FramedLine text f
  stamp : Stamp f.stamp ts
  near : ∀ a, anchor = some a → |ts.absSeconds - a| ≤ 172800
  header : ∀ token ∈ f.header, Number token
  module : f.module = moduleName id
  brackets : FlatBrackets f.message
  fields : ∀ field ∈ documentedFields id, ∀ before token,
    FirstField f.message field.1 before token → ValidValue field.2 token

end Lines

end LogTransfer
