import LogTransfer.Stats

/-!
# The order of byte strings

`lexLt` is the comparison of the source's strings, a strict linear order. It
decides the order of the rows, of the reasons and of the client's summary.
-/

set_option autoImplicit false

namespace LogTransfer

def ByteOrder (a b : Bytes) : Prop := lexLt a b = true

theorem lexLt_append (pre a b : Bytes) : lexLt (pre ++ a) (pre ++ b) = lexLt a b := by
  induction pre with
  | nil => rfl
  | cons c pre ih => simp [lexLt, ih]

theorem lexLt_irrefl (a : Bytes) : ¬ lexLt a a = true := by
  induction a with
  | nil => simp [lexLt]
  | cons c a ih => simpa [lexLt] using ih

theorem lexLt_trans {a b c : Bytes} (hab : lexLt a b = true) (hbc : lexLt b c = true) :
    lexLt a c = true := by
  induction a generalizing b c with
  | nil =>
    cases c with
    | nil => cases b <;> simp [lexLt] at hbc
    | cons z c => rfl
  | cons x a ih =>
    cases b with
    | nil => simp [lexLt] at hab
    | cons y b =>
      cases c with
      | nil => simp [lexLt] at hbc
      | cons z c =>
        unfold lexLt at hab hbc ⊢
        by_cases hxy : x = y
        · subst hxy
          rw [if_pos rfl] at hab
          split at hbc
          · rename_i hz
            rw [if_pos hz]
            exact ih hab hbc
          · rename_i hz
            rwa [if_neg hz]
        · rw [if_neg hxy, decide_eq_true_iff] at hab
          by_cases hyz : y = z
          · subst hyz
            rwa [if_neg hxy, decide_eq_true_iff]
          · rw [if_neg hyz, decide_eq_true_iff] at hbc
            have hxz : x ≠ z := by
              rintro rfl
              omega
            rw [if_neg hxz, decide_eq_true_iff]
            omega

theorem lexLt_trichotomy (a b : Bytes) : lexLt a b = true ∨ a = b ∨ lexLt b a = true := by
  induction a generalizing b with
  | nil =>
    cases b with
    | nil => exact .inr (.inl rfl)
    | cons y b => exact .inl rfl
  | cons x a ih =>
    cases b with
    | nil => exact .inr (.inr rfl)
    | cons y b =>
      unfold lexLt
      by_cases hxy : x = y
      · subst hxy
        rcases ih b with h | h | h
        · exact .inl (by simpa using h)
        · exact .inr (.inl (by rw [h]))
        · exact .inr (.inr (by simpa using h))
      · have hne : x.toNat ≠ y.toNat := fun h => hxy (BitVec.eq_of_toNat_eq h)
        rw [if_neg hxy, if_neg (Ne.symm hxy), decide_eq_true_iff, decide_eq_true_iff]
        omega

end LogTransfer
