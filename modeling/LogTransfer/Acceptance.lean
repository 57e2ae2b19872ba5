import LogTransfer.LogLineParser

/-!
# What an accepted line is made of

The stages of `check` are peeled apart once. An accepted line has a frame, a
valid timestamp within the range of the anchor and a known module; it sets the
anchor when there is none. A rejected line leaves the anchor alone.
-/

set_option autoImplicit false

namespace LogTransfer

theorem bind_ok {ε α β : Type} {x : Except ε α} {f : α → Except ε β} {b : β}
    (h : x >>= f = .ok b) : ∃ a, x = .ok a ∧ f a = .ok b := by
  cases x with
  | error e => cases h
  | ok a => exact ⟨a, rfl, h⟩

theorem bind_never {ε α β : Type} {x : Except ε α} {f : α → Except ε β} {e : ε}
    (hx : x ≠ .error e) (hf : ∀ a, f a ≠ .error e) : x >>= f ≠ .error e := by
  cases x with
  | error e' =>
    intro h
    cases h
    exact hx rfl
  | ok a => exact hf a

theorem moduleName_inj {a b : ModuleId} (h : moduleName a = moduleName b) : a = b := by
  revert h
  cases a <;> cases b <;> decide

namespace LogLineParser

section Reasons

/-- A stage that never gives the reason kept for full statistics. -/
def Ordinary {α : Type} (x : Except SkipReason α) : Prop := x ≠ .error .mapLimit

theorem ordinary_ok {α : Type} (a : α) : Ordinary (.ok a) := by
  intro h
  cases h

theorem ordinary_error {α : Type} {reason : SkipReason} (h : reason ≠ .mapLimit) :
    Ordinary (.error reason : Except SkipReason α) := by
  intro heq
  cases heq
  exact h rfl

theorem checkBytes_ordinary (text : Bytes) (tooLong : Bool) :
    Ordinary (checkBytes text tooLong) := by
  unfold checkBytes
  split
  · exact ordinary_error (by decide)
  · split
    · exact ordinary_error (by decide)
    · split
      · exact ordinary_error (by decide)
      · exact ordinary_ok ()

theorem headerToken_ordinary (text : Bytes) (pos : ℕ) : Ordinary (headerToken text pos) := by
  unfold headerToken
  split
  · exact ordinary_error (by decide)
  · split
    · exact ordinary_error (by decide)
    · split
      · exact ordinary_error (by decide)
      · exact ordinary_ok _

theorem frame_ordinary (text : Bytes) : Ordinary (frame text) := by
  unfold frame
  refine bind_never (headerToken_ordinary _ _) fun _ => ?_
  refine bind_never (headerToken_ordinary _ _) fun _ => ?_
  refine bind_never (headerToken_ordinary _ _) fun _ => ?_
  refine bind_never (headerToken_ordinary _ _) fun _ => ?_
  dsimp only
  split
  · exact ordinary_error (by decide)
  · split
    · exact ordinary_error (by decide)
    · split
      · exact ordinary_error (by decide)
      · exact ordinary_ok _

theorem checkRange_ordinary (anchor : Option ℤ) (absSeconds : ℤ) :
    Ordinary (checkRange anchor absSeconds) := by
  unfold checkRange
  split
  · exact ordinary_ok ()
  · split
    · exact ordinary_error (by decide)
    · exact ordinary_ok ()

theorem checkInts_ordinary (tokens : List Bytes) : Ordinary (checkInts tokens) := by
  induction tokens with
  | nil => exact ordinary_ok ()
  | cons token rest ih =>
    refine bind_never ?_ fun _ => ih
    unfold parseInt64Field
    dsimp only
    split_ifs
    · exact ordinary_error (by decide)
    · exact ordinary_error (by decide)
    · exact ordinary_error (by decide)
    · exact ordinary_ok _

theorem checkFields_ordinary (message : Bytes) (spec : ModuleSpec) :
    Ordinary (checkFields message spec) := by
  unfold checkFields
  refine bind_never (checkInts_ordinary _) fun _ => ?_
  split
  · exact ordinary_ok ()
  · split
    · exact ordinary_ok ()
    · exact ordinary_error (by decide)

variable [Doubles]

theorem checkDouble_ordinary (field : Option Bytes) :
    Ordinary (checkDouble field : Except SkipReason (Option Doubles.Val)) := by
  unfold checkDouble
  split
  · exact ordinary_ok _
  · split
    · exact ordinary_error (by decide)
    · exact ordinary_ok _

theorem check_ordinary (anchor : Option ℤ) (text : Bytes) (tooLong : Bool) :
    Ordinary (check anchor text tooLong) := by
  unfold check
  refine bind_never (checkBytes_ordinary _ _) fun _ => ?_
  refine bind_never (frame_ordinary _) fun _ => ?_
  split
  · exact ordinary_error (by decide)
  · refine bind_never (checkRange_ordinary _ _) fun _ => ?_
    refine bind_never (checkInts_ordinary _) fun _ => ?_
    split
    · exact ordinary_error (by decide)
    · split
      · exact ordinary_error (by decide)
      · refine bind_never (checkFields_ordinary _ _) fun _ => ?_
        split
        · refine bind_never (checkDouble_ordinary _) fun _ => ?_
          exact bind_never (checkDouble_ordinary _) fun _ => ordinary_ok _
        · exact ordinary_ok _

end Reasons

variable [Doubles]

structure Accepted (anchor : Option ℤ) (text : Bytes) (f : Frame) (ts : Timestamp)
    (line : ParsedLine) : Prop where
  frame : frame text = .ok f
  stamp : parseTimestamp f.stamp = some ts
  range : checkRange anchor ts.absSeconds = .ok ()
  module : moduleName line.module = f.module
  date : line.year = ts.year ∧ line.month = ts.month ∧ line.day = ts.day ∧ line.hour = ts.hour
  speed : line.hasSpd = true → line.module = .beamSteerCtrlUnitImpl

theorem withSpeed_fields (line : ParsedLine) (spd : Option Doubles.Val) :
    (withSpeed line spd).module = line.module ∧ (withSpeed line spd).year = line.year ∧
      (withSpeed line spd).month = line.month ∧ (withSpeed line spd).day = line.day ∧
      (withSpeed line spd).hour = line.hour := by
  cases spd with
  | none => exact ⟨rfl, rfl, rfl, rfl, rfl⟩
  | some v => exact ⟨rfl, rfl, rfl, rfl, rfl⟩

theorem check_ok {anchor : Option ℤ} {text : Bytes} {tooLong : Bool} {line : ParsedLine}
    {absSeconds : ℤ} (h : check anchor text tooLong = .ok (line, absSeconds)) :
    ∃ f ts, Accepted anchor text f ts line ∧ absSeconds = ts.absSeconds := by
  unfold check at h
  obtain ⟨-, -, h⟩ := bind_ok h
  obtain ⟨f, hf, h⟩ := bind_ok h
  cases hts : parseTimestamp f.stamp with
  | none =>
    rw [hts] at h
    cases h
  | some ts =>
    rw [hts] at h
    obtain ⟨_, hrange, h⟩ := bind_ok h
    obtain ⟨-, -, h⟩ := bind_ok h
    split at h
    · cases h
    · cases hm : moduleIds.find? (fun id => moduleName id = f.module) with
      | none =>
        rw [hm] at h
        cases h
      | some module =>
        have hname : moduleName module = f.module := by simpa using List.find?_some hm
        rw [hm] at h
        obtain ⟨-, -, h⟩ := bind_ok h
        refine ⟨f, ts, ?_⟩
        split at h
        · rename_i hbeam
          obtain ⟨spd, -, h⟩ := bind_ok h
          obtain ⟨-, -, h⟩ := bind_ok h
          cases h
          obtain ⟨w1, w2, w3, w4, w5⟩ := withSpeed_fields
            { module := module, year := ts.year, month := ts.month, day := ts.day,
              hour := ts.hour, hasSpd := false, spdInRange := false, spd := Doubles.ofNat 0 } spd
          exact ⟨⟨hf, hts, hrange, w1 ▸ hname, ⟨w2, w3, w4, w5⟩, fun _ => w1 ▸ hbeam⟩, rfl⟩
        · cases h
          exact ⟨⟨hf, hts, hrange, hname, ⟨rfl, rfl, rfl, rfl⟩, fun hs => by cases hs⟩, rfl⟩

/-- Either nothing changes and there is a reason, or a line is accepted. The
last reason is not the parser's. -/
theorem parse_cases (p : LogLineParser) (text : Bytes) (tooLong : Bool) :
    (∃ reason, p.parse text tooLong = (p, .error reason) ∧ reason ≠ .mapLimit) ∨
      ∃ line f ts, p.parse text tooLong =
          ({ anchor := some (p.anchor.getD ts.absSeconds) }, .ok line) ∧
        Accepted p.anchor text f ts line := by
  unfold parse
  split
  · rename_i reason hc
    refine .inl ⟨reason, rfl, ?_⟩
    rintro rfl
    exact check_ordinary _ _ _ hc
  · rename_i line absSeconds hc
    obtain ⟨f, ts, ha, rfl⟩ := check_ok hc
    exact .inr ⟨line, f, ts, rfl, ha⟩

end LogLineParser

end LogTransfer
