import LogTransfer.LineScan

/-!
# Brackets of a message

The bracket loop accepts the flat messages. In these every opening bracket has
its closing one, around a content that is plain and not empty.
-/

set_option autoImplicit false

namespace LogTransfer
open Occurrence

section Brackets

variable {c : Byte} {text : Bytes}

theorem flat_letter (hopen : c ≠ ch '[') (hclose : c ≠ ch ']') :
    FlatBrackets (c :: text) ↔ FlatBrackets text := by
  constructor
  · intro h
    generalize hw : c :: text = whole at h
    cases h with
    | plain hplain =>
      subst hw
      exact .plain fun b hb => hplain b (List.mem_cons_of_mem _ hb)
    | @pair before content after hbefore hcontent hne hafter =>
      cases before with
      | nil =>
        rw [List.nil_append, bracketed, List.cons_append] at hw
        exact absurd (List.cons.inj hw).1 hopen
      | cons b before =>
        rw [List.cons_append] at hw
        obtain ⟨rfl, rfl⟩ := List.cons.inj hw
        exact .pair (fun b hb => hbefore b (List.mem_cons_of_mem _ hb)) hcontent hne hafter
  · intro h
    have hfirst (before : Bytes) (hb : Unbracketed before) : Unbracketed (c :: before) := by
      intro b hmem
      rcases List.mem_cons.mp hmem with rfl | hmem
      · exact ⟨hopen, hclose⟩
      · exact hb b hmem
    cases h with
    | plain hplain => exact .plain (hfirst _ hplain)
    | pair hbefore hcontent hne hafter =>
      exact .pair (hfirst _ hbefore) hcontent hne hafter

theorem flat_close : ¬ FlatBrackets (ch ']' :: text) := by
  intro h
  generalize hw : ch ']' :: text = whole at h
  cases h with
  | plain hplain =>
    subst hw
    exact (hplain _ List.mem_cons_self).2 rfl
  | @pair before content after hbefore hcontent hne hafter =>
    cases before with
    | nil =>
      rw [List.nil_append, bracketed, List.cons_append] at hw
      exact absurd (List.cons.inj hw).1 (by decide)
    | cons b before =>
      rw [List.cons_append] at hw
      exact (hbefore b List.mem_cons_self).2 (List.cons.inj hw).1.symm

/-- The open part of a flat text: the rest of a content, its end and a flat text. -/
structure Closing (text content after : Bytes) : Prop where
  split : text = content ++ ch ']' :: after
  plain : Unbracketed content
  flat : FlatBrackets after

theorem flat_open :
    FlatBrackets (ch '[' :: text) ↔ ∃ content after, Closing text content after ∧ content ≠ [] := by
  constructor
  · intro h
    generalize hw : ch '[' :: text = whole at h
    cases h with
    | plain hplain =>
      subst hw
      exact absurd rfl (hplain _ List.mem_cons_self).1
    | @pair before content after hbefore hcontent hne hafter =>
      cases before with
      | nil =>
        refine ⟨content, after, ⟨?_, hcontent, hafter⟩, hne⟩
        simpa [bracketed] using hw
      | cons b before =>
        rw [List.cons_append] at hw
        exact absurd (List.cons.inj hw).1.symm (hbefore b List.mem_cons_self).1
  · rintro ⟨content, after, ⟨rfl, hplain, hflat⟩, hne⟩
    have hpair := @FlatBrackets.pair [] _ _ (fun b hb => by cases hb) hplain hne hflat
    simpa [bracketed] using hpair

theorem closing_close {n : ℕ} :
    (∃ content after, Closing (ch ']' :: text) content after ∧ (n ≠ 0 ∨ content ≠ [])) ↔
      n ≠ 0 ∧ FlatBrackets text := by
  constructor
  · rintro ⟨content, after, h, hne⟩
    cases content with
    | nil =>
      obtain ⟨-, rfl⟩ := List.cons.inj h.split
      exact ⟨hne.resolve_right (not_not.mpr rfl), h.flat⟩
    | cons b content =>
      exact absurd (List.cons.inj h.split).1.symm (h.plain b List.mem_cons_self).2
  · rintro ⟨hn, hflat⟩
    have hplain : Unbracketed [] := fun b hb => absurd hb List.not_mem_nil
    exact ⟨[], text, ⟨rfl, hplain, hflat⟩, .inl hn⟩

theorem closing_letter {n : ℕ} (hopen : c ≠ ch '[') (hclose : c ≠ ch ']') :
    (∃ content after, Closing (c :: text) content after ∧ (n ≠ 0 ∨ content ≠ [])) ↔
      ∃ content after, Closing text content after ∧ (n + 1 ≠ 0 ∨ content ≠ []) := by
  constructor
  · rintro ⟨content, after, h, -⟩
    cases content with
    | nil => exact absurd (List.cons.inj h.split).1 hclose
    | cons b content =>
      obtain ⟨-, hrest⟩ := List.cons.inj h.split
      have hplain : Unbracketed content := fun b hb => h.plain b (List.mem_cons_of_mem _ hb)
      exact ⟨content, after, ⟨hrest, hplain, h.flat⟩, .inl (Nat.succ_ne_zero n)⟩
  · rintro ⟨content, after, h, -⟩
    refine ⟨c :: content, after, ⟨by rw [h.split, List.cons_append], ?_, h.flat⟩, .inr (by simp)⟩
    intro b hb
    rcases List.mem_cons.mp hb with rfl | hb
    · exact ⟨hopen, hclose⟩
    · exact h.plain b hb

theorem bracketsLoop_iff (text : Bytes) (n : ℕ) :
    (bracketsLoop text false n = true ↔ FlatBrackets text) ∧
      (bracketsLoop text true n = true ↔
        ∃ content after, Closing text content after ∧ (n ≠ 0 ∨ content ≠ [])) := by
  induction text generalizing n with
  | nil =>
    constructor
    · simp only [bracketsLoop, Bool.not_false, true_iff]
      exact .plain fun b hb => by cases hb
    · simp only [bracketsLoop, Bool.not_true, Bool.false_eq_true, false_iff]
      rintro ⟨content, after, h, -⟩
      simpa using h.split
  | cons c text ih =>
    by_cases hopen : c = ch '['
    · subst hopen
      constructor
      · simp only [bracketsLoop, if_true, Bool.false_eq_true, if_false]
        rw [(ih 0).2, flat_open]
        simp
      · simp only [bracketsLoop, if_true, Bool.false_eq_true, false_iff]
        rintro ⟨content, after, h, -⟩
        cases content with
        | nil => exact absurd (List.cons.inj h.split).1 (by decide)
        | cons b content =>
          exact (h.plain b List.mem_cons_self).1 (List.cons.inj h.split).1.symm
    · by_cases hclose : c = ch ']'
      · subst hclose
        constructor
        · simp only [bracketsLoop, if_neg hopen, if_true, Bool.not_false, Bool.true_or,
            Bool.false_eq_true, false_iff]
          exact flat_close
        · simp only [bracketsLoop, if_neg hopen, if_true, Bool.not_true, Bool.false_or,
            decide_eq_true_eq]
          rw [closing_close, ← (ih n).1]
          by_cases hn : n = 0 <;> simp [hn]
      · constructor
        · simp only [bracketsLoop, if_neg hopen, if_neg hclose, Bool.false_eq_true, if_false]
          rw [(ih n).1, flat_letter hopen hclose]
        · simp only [bracketsLoop, if_neg hopen, if_neg hclose, if_true]
          rw [(ih (n + 1)).2, closing_letter hopen hclose]

theorem bracketsSane_iff (message : Bytes) : bracketsSane message = true ↔ FlatBrackets message :=
  (bracketsLoop_iff message 0).1

theorem bracketsLoop_rest {pre post : Bytes} {isOpen : Bool} {n : ℕ}
    (h : bracketsLoop (pre ++ post) isOpen n = true) :
    ∃ isOpen' n', bracketsLoop post isOpen' n' = true := by
  induction pre generalizing isOpen n with
  | nil => exact ⟨isOpen, n, h⟩
  | cons c pre ih =>
    rw [List.cons_append, bracketsLoop] at h
    split_ifs at h <;> exact ih h

/-- In a flat text every opening bracket is closed, around a plain content. -/
theorem flat_closes {before rest : Bytes} (h : FlatBrackets (before ++ ch '[' :: rest)) :
    ∃ content after, rest = content ++ ch ']' :: after ∧ Unbracketed content ∧ content ≠ [] := by
  rw [← bracketsSane_iff] at h
  obtain ⟨isOpen, n, hrest⟩ := bracketsLoop_rest h
  cases isOpen with
  | true =>
    simp only [bracketsLoop, if_true] at hrest
    cases hrest
  | false =>
    obtain ⟨content, after, hclosing, hne⟩ := flat_open.mp ((bracketsLoop_iff _ n).1.mp hrest)
    exact ⟨content, after, hclosing.split, hclosing.plain, hne⟩

end Brackets

end LogTransfer
