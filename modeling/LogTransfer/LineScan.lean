import LogTransfer.Acceptance
import LogTransfer.LineGrammar
import LogTransfer.Occurrence

/-!
# What the scanner's searches find

A search returns the first occurrence, a header token is a bracketed text at
its position, and the frame of the code is the frame of the grammar with no
empty token. The bracket loop accepts the flat messages.
-/

set_option autoImplicit false

namespace LogTransfer
open Occurrence

section Search

variable {text needle : Bytes} {pos i : ℕ}

theorem findFrom_some {k : ℕ} (h : findFrom needle text k = some i) :
    ∃ m, i = k + m ∧ First needle text 0 m := by
  induction text generalizing k with
  | nil =>
    unfold findFrom at h
    split_ifs at h with hneedle
    cases h
    subst hneedle
    exact ⟨0, rfl, le_rfl, ⟨le_rfl, List.nil_prefix⟩, fun j _ hj => absurd hj (Nat.not_lt_zero j)⟩
  | cons b text ih =>
    rw [findFrom] at h
    split_ifs at h with hneedle
    · cases h
      refine ⟨0, rfl, le_rfl, ⟨Nat.zero_le _, ?_⟩, fun j _ hj => absurd hj (Nat.not_lt_zero j)⟩
      exact List.isPrefixOf_iff_prefix.mp hneedle
    · obtain ⟨m, rfl, hm⟩ := ih h
      rw [List.isPrefixOf_iff_prefix] at hneedle
      exact ⟨m + 1, by omega, (first_cons hneedle).mpr ⟨m, rfl, hm⟩⟩

theorem findFrom_none {k : ℕ} (h : findFrom needle text k = none) :
    ∀ m, ¬ At needle text m := by
  induction text generalizing k with
  | nil =>
    rintro m ⟨-, hm⟩
    unfold findFrom at h
    split_ifs at h with hneedle
    rw [List.drop_nil] at hm
    exact hneedle (List.prefix_nil.mp hm)
  | cons b text ih =>
    rw [findFrom] at h
    split_ifs at h with hneedle
    rw [List.isPrefixOf_iff_prefix] at hneedle
    intro m hat
    cases m with
    | zero => exact hneedle hat.here
    | succ m => exact ih h m (at_cons.mp hat)

theorem find_none (hpos : pos ≤ text.length) (h : find text needle pos = none) (hi : pos ≤ i) :
    ¬ At needle text i := by
  rw [find, if_pos hpos] at h
  intro hat
  obtain ⟨k, rfl⟩ := Nat.exists_eq_add_of_le hi
  exact findFrom_none h k (at_shift hat)

theorem find_some : find text needle pos = some i ↔ First needle text pos i := by
  constructor
  · intro h
    unfold find at h
    split_ifs at h with hpos
    obtain ⟨m, rfl, hm⟩ := findFrom_some h
    exact (first_drop hpos).mpr hm
  · intro h
    have hpos : pos ≤ text.length := le_trans h.after h.found.inside
    cases hfind : find text needle pos with
    | none => exact absurd h.found (find_none hpos hfind h.after)
    | some j =>
      rw [find, if_pos hpos] at hfind
      obtain ⟨m, rfl, hm⟩ := findFrom_some hfind
      rw [first_unique ((first_drop hpos).mpr hm) h]

theorem find_letter {c : Byte} (hpos : pos ≤ text.length) :
    find text [c] pos = some i ↔
      ∃ mid post, text.drop pos = mid ++ c :: post ∧ c ∉ mid ∧ i = pos + mid.length := by
  rw [find_some, first_letter hpos]

theorem charAt_iff {c : Byte} : charAt text pos = some c ↔ ∃ post, text.drop pos = c :: post := by
  constructor
  · intro h
    obtain ⟨hi, hc⟩ := List.getElem?_eq_some_iff.mp h
    exact ⟨text.drop (pos + 1), by rw [List.drop_eq_getElem_cons hi, hc]⟩
  · rintro ⟨post, hpost⟩
    rw [charAt, ← Nat.add_zero pos, ← List.getElem?_drop, hpost]
    rfl

theorem drop_mid {mid post : Bytes} (h : text.drop pos = mid ++ post) :
    text.drop (pos + mid.length) = post := by
  rw [← List.drop_drop, h, List.drop_left]

theorem drop_next {c : Byte} {post : Bytes} (h : text.drop pos = c :: post) :
    text.drop (pos + 1) = post := by
  rw [← List.drop_drop, h]
  rfl

theorem substr_mid {mid post : Bytes} (h : text.drop pos = mid ++ post) :
    substr text pos mid.length = mid := by
  rw [substr, h, List.take_left]

theorem drop_inside {c : Byte} {post : Bytes} (h : text.drop pos = c :: post) :
    pos < text.length := by
  by_contra hge
  rw [List.drop_eq_nil_of_le (by omega)] at h
  cases h

end Search

namespace LogLineParser

section Stages

theorem ok_bind {ε α β : Type} {x : Except ε α} {a : α} (h : x = .ok a) (f : α → Except ε β) :
    x >>= f = f a := by
  rw [h]
  rfl

theorem checkBytes_ok {text : Bytes} {tooLong : Bool} :
    checkBytes text tooLong = .ok () ↔ tooLong = false ∧ (∃ b ∈ text, b ≠ ch ' ') ∧
      ∀ b ∈ text, 0x20 ≤ b.toNat ∧ b.toNat ≠ 0x7F := by
  unfold checkBytes
  split_ifs with hlong hblank hctrl
  · simp [hlong]
  · simp only [List.all_eq_true, decide_eq_true_eq] at hblank
    simp only [false_iff]
    rintro ⟨-, ⟨b, hb, hne⟩, -⟩
    exact hne (hblank b hb)
  · simp only [List.any_eq_true, Bool.or_eq_true, decide_eq_true_eq] at hctrl
    obtain ⟨b, hb, hbad⟩ := hctrl
    simp only [false_iff]
    rintro ⟨-, -, hall⟩
    have := hall b hb
    omega
  · simp only [List.all_eq_true, decide_eq_true_eq, not_forall] at hblank
    simp only [List.any_eq_true, Bool.or_eq_true, decide_eq_true_eq, not_exists, not_and] at hctrl
    obtain ⟨b, hb, hne⟩ := hblank
    simp only [true_iff]
    refine ⟨by simpa using hlong, ⟨b, hb, hne⟩, fun b' hb' => ?_⟩
    have := hctrl b' hb'
    omega

end Stages

section Frames

variable {text token rest : Bytes} {pos : ℕ}

theorem headerToken_bracketed (h : text.drop pos = bracketed token ++ rest)
    (hclosed : ch ']' ∉ token) (hne : token ≠ []) :
    headerToken text pos = .ok (token, pos + (bracketed token).length) := by
  have hopen : text.drop pos = ch '[' :: (token ++ ch ']' :: rest) := by
    simpa [bracketed] using h
  have hnext : text.drop (pos + 1) = token ++ ch ']' :: rest := drop_next hopen
  have hlen : token.length ≠ 0 := fun h0 => hne (List.eq_nil_of_length_eq_zero h0)
  have hclose : find text [ch ']'] (pos + 1) = some (pos + 1 + token.length) :=
    (find_letter (drop_inside hopen)).mpr ⟨token, rest, hnext, hclosed, rfl⟩
  have hcount : pos + 1 + token.length - pos - 1 = token.length := by omega
  have hend : pos + 1 + token.length + 1 = pos + (bracketed token).length := by
    simp [bracketed]
    omega
  rw [headerToken, if_neg (not_not.mpr (charAt_iff.mpr ⟨_, hopen⟩)), hclose]
  dsimp only
  rw [if_neg (by omega), hcount, hend, substr_mid hnext]

theorem headerToken_ok {pos' : ℕ} (h : headerToken text pos = .ok (token, pos')) :
    text.drop pos = bracketed token ++ text.drop pos' ∧ ch ']' ∉ token ∧ token ≠ [] := by
  unfold headerToken at h
  split_ifs at h with hopen
  obtain ⟨post, hpost⟩ := charAt_iff.mp (not_not.mp hopen)
  have hnext : text.drop (pos + 1) = post := drop_next hpost
  cases hclose : find text [ch ']'] (pos + 1) with
  | none =>
    rw [hclose] at h
    cases h
  | some close =>
    obtain ⟨mid, rest, hmid, hclosed, rfl⟩ := (find_letter (drop_inside hpost)).mp hclose
    have hcount : pos + 1 + mid.length - pos - 1 = mid.length := by omega
    have hwhole : text.drop pos = bracketed mid ++ rest := by
      rw [hpost, ← hnext, hmid]
      simp [bracketed]
    have hend : pos + 1 + mid.length + 1 = pos + (bracketed mid).length := by
      simp [bracketed]
      omega
    rw [hclose] at h
    dsimp only at h
    rw [hcount, substr_mid hmid] at h
    split_ifs at h with hempty
    cases h
    refine ⟨?_, hclosed, ?_⟩
    · rw [hend, drop_mid hwhole, hwhole]
    · rintro rfl
      exact hempty rfl

/-- A frame with no empty part, as the scan asks for. -/
structure FilledFrame (text : Bytes) (f : Frame) : Prop where
  framed : FramedLine text f
  filled : ∀ token ∈ f.stamp :: f.header, token ≠ []
  module : f.module ≠ []

theorem frame_filled {f : Frame} (h : frame text = .ok f) : FilledFrame text f := by
  unfold frame at h
  obtain ⟨⟨stamp, p₁⟩, h₁, h⟩ := bind_ok h
  obtain ⟨⟨pid, p₂⟩, h₂, h⟩ := bind_ok h
  obtain ⟨⟨tid, p₃⟩, h₃, h⟩ := bind_ok h
  obtain ⟨⟨sess, p₄⟩, h₄, h⟩ := bind_ok h
  obtain ⟨e₁, c₁, n₁⟩ := headerToken_ok h₁
  obtain ⟨e₂, c₂, n₂⟩ := headerToken_ok h₂
  obtain ⟨e₃, c₃, n₃⟩ := headerToken_ok h₃
  obtain ⟨e₄, c₄, n₄⟩ := headerToken_ok h₄
  dsimp only at h
  split_ifs at h with hsep
  have hafter : text.drop p₄ = kSeparator ++ text.drop (p₄ + kSeparator.length) := by
    calc text.drop p₄ = substr text p₄ kSeparator.length ++ (text.drop p₄).drop kSeparator.length :=
          (List.take_append_drop _ _).symm
      _ = kSeparator ++ text.drop (p₄ + kSeparator.length) := by
          rw [not_not.mp hsep, List.drop_drop]
  cases hcolon : find text [ch ':'] (p₄ + kSeparator.length) with
  | none =>
    rw [hcolon] at h
    cases h
  | some moduleEnd =>
    rw [hcolon] at h
    dsimp only at h
    split_ifs at h with hbad
    simp only [Bool.or_eq_true, decide_eq_true_eq, not_or, not_not] at hbad
    obtain ⟨hne, hspace⟩ := hbad
    have hpos := (find_some.mp hcolon).found.inside
    obtain ⟨module, post, hmodule, hfree, rfl⟩ :=
      (find_letter (le_trans (find_some.mp hcolon).after hpos)).mp hcolon
    have hpost : text.drop (p₄ + kSeparator.length + module.length + 1) = post :=
      drop_next (drop_mid hmodule)
    obtain ⟨message, hmessage⟩ := charAt_iff.mp hspace
    have hcount : p₄ + kSeparator.length + module.length - (p₄ + kSeparator.length) =
        module.length := by omega
    have hrest : text.drop (p₄ + kSeparator.length + module.length + 2) = message :=
      drop_next hmessage
    rw [hcount, substr_mid hmodule, hrest] at h
    cases h
    refine ⟨⟨?_, rfl, ?_, hfree⟩, ?_, ?_⟩
    · have htail : post = ch ' ' :: message := by rw [← hpost, hmessage]
      have hlead : bytesOf ": " = [ch ':', ch ' '] := by decide
      rw [List.drop_zero] at e₁
      rw [e₁, e₂, e₃, e₄, hafter, hmodule, htail, hlead]
      simp [List.flatMap_cons]
    · simp [c₁, c₂, c₃, c₄]
    · simp [n₁, n₂, n₃, n₄]
    · rintro rfl
      exact hne rfl

theorem filled_frame {f : Frame} (h : FilledFrame text f) : frame text = .ok f := by
  obtain ⟨⟨hshape, hfour, hclosed, hcolon⟩, hfilled, hmodule⟩ := h
  obtain ⟨stamp, header, module, message⟩ := f
  obtain ⟨pid, tid, sess, rfl⟩ := List.length_eq_three.mp hfour
  simp only [List.mem_cons, List.not_mem_nil, or_false, forall_eq_or_imp, forall_eq] at *
  obtain ⟨c₁, c₂, c₃, c₄⟩ := hclosed
  obtain ⟨n₁, n₂, n₃, n₄⟩ := hfilled
  have hlead : bytesOf ": " = [ch ':', ch ' '] := by decide
  simp only [List.flatMap_cons, List.flatMap_nil, List.append_assoc, List.nil_append, hlead,
    List.cons_append] at hshape
  have e₁ : text.drop 0 = _ := hshape
  have e₂ := drop_mid e₁
  have e₃ := drop_mid e₂
  have e₄ := drop_mid e₃
  have e₅ := drop_mid e₄
  rw [frame, ok_bind (headerToken_bracketed e₁ c₁ n₁)]
  dsimp only
  rw [ok_bind (headerToken_bracketed e₂ c₂ n₂)]
  dsimp only
  rw [ok_bind (headerToken_bracketed e₃ c₃ n₃)]
  dsimp only
  rw [ok_bind (headerToken_bracketed e₄ c₄ n₄)]
  dsimp only
  generalize 0 + (bracketed stamp).length + (bracketed pid).length + (bracketed tid).length +
    (bracketed sess).length = p₄ at e₅
  have e₆ := drop_mid e₅
  have e₇ := drop_mid e₆
  have e₈ := drop_next e₇
  have e₉ := drop_next e₈
  have hpos : p₄ + kSeparator.length ≤ text.length := by
    have hinside := drop_inside e₇
    omega
  have hfind := (find_letter hpos).mpr ⟨module, ch ' ' :: message, e₆, hcolon, rfl⟩
  have hlen : module.length ≠ 0 := fun h0 => hmodule (List.eq_nil_of_length_eq_zero h0)
  have hspace : charAt text (p₄ + kSeparator.length + module.length + 1) = some (ch ' ') :=
    charAt_iff.mpr ⟨message, e₈⟩
  have hcount : p₄ + kSeparator.length + module.length - (p₄ + kSeparator.length) =
      module.length := by omega
  rw [if_neg (not_not.mpr (substr_mid e₅)), hfind]
  dsimp only
  rw [hspace, hcount, substr_mid e₆, if_neg (by simp [hmodule])]
  exact congrArg (fun m => Except.ok (Frame.mk stamp [pid, tid, sess] module m)) e₉

theorem frame_ok {f : Frame} : frame text = .ok f ↔ FilledFrame text f :=
  ⟨frame_filled, filled_frame⟩

end Frames

end LogLineParser

end LogTransfer
