import LogTransfer.FlatMessages

/-!
# Fields of a message

The field search stops at the first start of the field, and in a flat message
its token is that of the first field.
-/

set_option autoImplicit false

namespace LogTransfer
open Occurrence

section Starts

/-- The field search stops at such a position. -/
structure FieldStart (message name : Bytes) (i : ℕ) : Prop where
  found : At (name ++ [ch '[']) message i
  boundary : boundaryOk message i = true

variable {message name before token : Bytes} {i : ℕ}

theorem fieldStart_iff :
    FieldStart message name i ↔ At name message i ∧ boundaryOk message i = true ∧
      charAt message (i + name.length) = some (ch '[') := by
  constructor
  · rintro ⟨hat, hboundary⟩
    obtain ⟨pre, post, hsplit, rfl⟩ := at_iff_split.mp hat
    rw [List.append_assoc] at hsplit
    refine ⟨at_iff_split.mpr ⟨pre, _, hsplit, rfl⟩, hboundary, charAt_iff.mpr ⟨post, ?_⟩⟩
    rw [hsplit, ← List.append_assoc, ← List.length_append, List.drop_left]
    rfl
  · rintro ⟨hat, hboundary, hopen⟩
    obtain ⟨pre, post, hsplit, rfl⟩ := at_iff_split.mp hat
    obtain ⟨rest, hrest⟩ := charAt_iff.mp hopen
    rw [hsplit, ← List.append_assoc, ← List.length_append, List.drop_left] at hrest
    refine ⟨at_iff_split.mpr ⟨pre, rest, ?_, rfl⟩, hboundary⟩
    rw [hsplit, hrest, List.append_assoc, List.singleton_append]

theorem boundaryOk_iff {rest : Bytes} (h : message = before ++ rest) :
    boundaryOk message before.length = true ↔
      before = [] ∨ ∃ b ∈ [ch ' ', ch ',', ch ':'], before.getLast? = some b := by
  have hlast (hne : before ≠ []) : charAt message (before.length - 1) = before.getLast? := by
    have hlen : before.length ≠ 0 := fun h0 => hne (List.eq_nil_of_length_eq_zero h0)
    rw [charAt, h, List.getElem?_append_left (by omega), List.getLast?_eq_getElem?]
  by_cases hne : before = []
  · simp [boundaryOk, hne]
  · simp only [boundaryOk, hlast hne, Bool.or_eq_true, decide_eq_true_eq, hne, false_or,
      List.length_eq_zero_iff, List.mem_cons, List.not_mem_nil, or_false]
    constructor
    · rintro ((h | h) | h)
      · exact ⟨_, .inl rfl, h⟩
      · exact ⟨_, .inr (.inl rfl), h⟩
      · exact ⟨_, .inr (.inr rfl), h⟩
    · rintro ⟨b, rfl | rfl | rfl, h⟩
      · exact .inl (.inl h)
      · exact .inl (.inr h)
      · exact .inr h

theorem fieldAt_start (h : FieldAt message name before token) :
    FieldStart message name before.length := by
  obtain ⟨rest, hsplit⟩ := h.text
  refine ⟨at_iff_split.mpr ⟨before, token ++ ch ']' :: rest, ?_, rfl⟩, ?_⟩
  · rw [hsplit]
    simp [bracketed]
  · exact (boundaryOk_iff hsplit).mpr h.boundary

/-- In a flat message a start is the start of a field. -/
theorem start_fieldAt (hflat : FlatBrackets message) (h : FieldStart message name i) :
    ∃ before token, before.length = i ∧ FieldAt message name before token := by
  obtain ⟨before, post, hsplit, rfl⟩ := at_iff_split.mp h.found
  have hopen : message = (before ++ name) ++ ch '[' :: post := by
    rw [hsplit]
    simp
  rw [hopen] at hflat
  obtain ⟨token, rest, hpost, hplain, -⟩ := flat_closes hflat
  have hbefore : message = before ++ (name ++ (ch '[' :: post)) := by
    rw [hopen, List.append_assoc]
  refine ⟨before, token, rfl, ⟨rest, ?_⟩, fun hmem => (hplain _ hmem).2 rfl, ?_⟩
  · rw [hbefore, hpost]
    simp [bracketed]
  · exact (boundaryOk_iff hbefore).mp h.boundary

end Starts

section Fields

variable {message name before token : Bytes}

/-- What the search gives, by the first start of the field. -/
inductive FieldFound (message name : Bytes) : Option Bytes → Prop
  | absent (hnone : ∀ i, ¬ FieldStart message name i) : FieldFound message name none
  | unclosed {i : ℕ} (hstart : FieldStart message name i)
      (hopen : ∀ token rest, message.drop (i + name.length + 1) ≠ token ++ ch ']' :: rest) :
      FieldFound message name none
  | present {i : ℕ} {token rest : Bytes} (hstart : FieldStart message name i)
      (hfirst : ∀ j < i, ¬ FieldStart message name j)
      (hrest : message.drop (i + name.length + 1) = token ++ ch ']' :: rest)
      (hclosed : ch ']' ∉ token) : FieldFound message name (some token)

theorem findFieldLoop_found (fuel pos : ℕ) (hfuel : message.length < pos + fuel)
    (hfresh : ∀ j < pos, ¬ FieldStart message name j) :
    FieldFound message name (findFieldLoop message name fuel pos) := by
  induction fuel generalizing pos with
  | zero =>
    refine .absent fun i hi => ?_
    have hinside := hi.found.inside
    exact hfresh i (by omega) hi
  | succ fuel ih =>
    rw [findFieldLoop]
    split_ifs with hpos
    · cases hfind : find message name pos with
      | none =>
        refine .absent fun i hi => ?_
        by_cases hlt : i < pos
        · exact hfresh i hlt hi
        · exact find_none hpos.le hfind (by omega) (fieldStart_iff.mp hi).1
      | some found =>
        have hfirst := find_some.mp hfind
        have hskip (j : ℕ) (hj : j < found) : ¬ FieldStart message name j := by
          intro hstart
          by_cases hlt : j < pos
          · exact hfresh j hlt hstart
          · exact hfirst.fresh j (by omega) hj (fieldStart_iff.mp hstart).1
        dsimp only
        split_ifs with hhit
        · rw [Bool.and_eq_true, decide_eq_true_eq] at hhit
          have hstart := fieldStart_iff.mpr ⟨hfirst.found, hhit⟩
          obtain ⟨post, hpost⟩ := charAt_iff.mp hhit.2
          have hinside := drop_inside hpost
          cases hclose : find message [ch ']'] (found + name.length + 1) with
          | none =>
            refine .unclosed hstart fun token rest hrest => ?_
            refine find_none hinside hclose (Nat.le_add_right _ token.length) ?_
            refine at_back hinside (at_iff_split.mpr ⟨token, rest, ?_, rfl⟩)
            rw [hrest, List.singleton_append]
          | some close =>
            obtain ⟨token, rest, hrest, hclosed, rfl⟩ := (find_letter hinside).mp hclose
            have hcount : found + name.length + 1 + token.length - (found + name.length) - 1 =
              token.length := by omega
            dsimp only
            rw [hcount, substr_mid hrest]
            exact .present hstart hskip hrest hclosed
        · have hafter := hfirst.after
          refine ih (found + 1) (by omega) fun j hj hstart => ?_
          by_cases hlt : j < found
          · exact hskip j hlt hstart
          · obtain rfl : j = found := by omega
            refine hhit ?_
            rw [Bool.and_eq_true, decide_eq_true_eq]
            exact (fieldStart_iff.mp hstart).2
    · refine .absent fun i hi => ?_
      by_cases hlt : i < pos
      · exact hfresh i hlt hi
      · have hinside := drop_inside (charAt_iff.mp (fieldStart_iff.mp hi).2.2).choose_spec
        omega

theorem findField_found (message name : Bytes) :
    FieldFound message name (findField message name) :=
  findFieldLoop_found _ 0 (by omega) fun j hj => absurd hj (Nat.not_lt_zero j)

theorem fieldAt_rest (h : FieldAt message name before token) :
    ∃ rest, message.drop (before.length + name.length + 1) = token ++ ch ']' :: rest := by
  obtain ⟨rest, hsplit⟩ := h.text
  refine ⟨rest, ?_⟩
  have hopen : message = (before ++ name ++ [ch '[']) ++ (token ++ ch ']' :: rest) := by
    rw [hsplit]
    simp [bracketed]
  have hlen : (before ++ name ++ [ch '[']).length = before.length + name.length + 1 := by
    simp [Nat.add_assoc]
  rw [hopen, ← hlen, List.drop_left]

theorem findField_first (hflat : FlatBrackets message) :
    findField message name = some token ↔ ∃ before, FirstField message name before token := by
  have hfound := findField_found message name
  constructor
  · intro h
    rw [h] at hfound
    cases hfound with
    | @present i _ rest hstart hfirst hrest hclosed =>
      obtain ⟨before, token', rfl, hfield⟩ := start_fieldAt hflat hstart
      obtain ⟨rest', hrest'⟩ := fieldAt_rest hfield
      rw [hrest'] at hrest
      obtain ⟨rfl, -⟩ := before_unique hrest hfield.closed hclosed
      refine ⟨before, hfield, fun other token'' hother => ?_⟩
      by_contra hlt
      exact hfirst other.length (by omega) (fieldAt_start hother)
  · rintro ⟨before, hfield, hleast⟩
    have hstart := fieldAt_start hfield
    generalize findField message name = result at hfound
    cases hfound with
    | absent hnone => exact absurd hstart (hnone _)
    | @unclosed i hstart' hopen =>
      obtain ⟨before', token', rfl, hfield'⟩ := start_fieldAt hflat hstart'
      obtain ⟨rest, hrest⟩ := fieldAt_rest hfield'
      exact absurd hrest (hopen token' rest)
    | @present i token' rest hstart' hfirst hrest hclosed =>
      obtain ⟨before', token'', rfl, hfield'⟩ := start_fieldAt hflat hstart'
      have hle := hleast before' token'' hfield'
      have hge : before'.length ≤ before.length := by
        by_contra hlt
        exact hfirst before.length (by omega) hstart
      obtain ⟨rest', hrest'⟩ := fieldAt_rest hfield
      rw [show before'.length = before.length by omega, hrest'] at hrest
      rw [(before_unique hrest hfield.closed hclosed).1]

theorem findField_absent (hflat : FlatBrackets message) :
    findField message name = none ↔ ∀ before token, ¬ FieldAt message name before token := by
  constructor
  · intro h before token hfield
    have hfound := findField_found message name
    rw [h] at hfound
    cases hfound with
    | absent hnone => exact hnone _ (fieldAt_start hfield)
    | unclosed hstart hopen =>
      obtain ⟨before', token', rfl, hfield'⟩ := start_fieldAt hflat hstart
      obtain ⟨rest, hrest⟩ := fieldAt_rest hfield'
      exact hopen token' rest hrest
  · intro hnone
    cases hfield : findField message name with
    | none => rfl
    | some token =>
      obtain ⟨before, hfirst⟩ := (findField_first hflat).mp hfield
      exact absurd hfirst.here (hnone before token)

end Fields

end LogTransfer
