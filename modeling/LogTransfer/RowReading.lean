import LogTransfer.LineScan
import LogTransfer.SummaryAgreement
import Mathlib.Data.List.Pairwise
import Mathlib.Data.Multiset.AddSub

/-!
# What is read of the rows

What the reader keeps of the metric block is taken as a whole, with the reasons
as a multiset. Rows of different names commute on it, and unknown rows leave it
alone.
-/

set_option autoImplicit false

namespace LogTransfer.Client

section Readings

/-- What is read of the rows, whatever their order. -/
structure RowReading where
  totalLines : ℕ
  hasTotal : Bool
  skippedLines : ℕ
  haveSkipped : Bool
  reasons : Multiset (Bytes × ℕ)

def reading (s : Scan) : RowReading :=
  { totalLines := s.summary.totalLines, hasTotal := s.summary.hasTotal,
    skippedLines := s.summary.skippedLines, haveSkipped := s.haveSkipped,
    reasons := s.summary.reasons }

inductive RowKind where
  | total (value : Option ℕ)
  | skipped (value : Option ℕ)
  | reason (entry : Option (Bytes × ℕ))
  | other

def isReasonName (name : Bytes) : Bool :=
  name.length > kReasonPrefix.length && kReasonPrefix.isPrefixOf name

def kindOf (name : Bytes) (value : Option ℕ) : RowKind :=
  if name = kTotalLines then .total value
  else if name = kSkippedLines then .skipped value
  else if isReasonName name then
    .reason (value.map fun count => (name.drop kReasonPrefix.length, count))
  else .other

def rowKind (line : Bytes) : RowKind :=
  match find line [ch ','] 0 with
  | none => .other
  | some comma => kindOf (trim (line.take comma)) (parseCount (line.drop (comma + 1)))

def RowKind.apply (r : RowReading) : RowKind → RowReading
  | .total value =>
    { r with hasTotal := value.isSome, totalLines := value.getD r.totalLines }
  | .skipped value =>
    { r with haveSkipped := value.isSome, skippedLines := value.getD r.skippedLines }
  | .reason entry => { r with reasons := r.reasons + (entry.toList : Multiset (Bytes × ℕ)) }
  | .other => r

theorem reading_scanRow (s : Scan) (line : Bytes) :
    reading (scanRow s line) = (rowKind line).apply (reading s) := by
  unfold scanRow rowKind kindOf
  cases find line [ch ','] 0 with
  | none => rfl
  | some comma =>
    dsimp only
    generalize trim (line.take comma) = name
    generalize parseCount (line.drop (comma + 1)) = value
    rw [← isReasonName]
    split_ifs
    · rfl
    · rfl
    · cases value with
      | none => simp [RowKind.apply, reading]
      | some count => rfl
    · rfl

/-- The counts have one row each; the reasons commute. -/
theorem apply_comm (r : RowReading) (k k' : RowKind)
    (htotal : ∀ v v', k = .total v → k' ≠ .total v')
    (hskipped : ∀ v v', k = .skipped v → k' ≠ .skipped v') :
    k'.apply (k.apply r) = k.apply (k'.apply r) := by
  cases k with
  | total v =>
    cases k' with
    | total v' => exact absurd rfl (htotal v v' rfl)
    | skipped v' => rfl
    | reason entry' => rfl
    | other => rfl
  | skipped v =>
    cases k' with
    | total v' => rfl
    | skipped v' => exact absurd rfl (hskipped v v' rfl)
    | reason entry' => rfl
    | other => rfl
  | reason entry =>
    cases k' with
    | total v' => rfl
    | skipped v' => rfl
    | reason entry' =>
      have hreasons := Multiset.add_comm (entry.toList : Multiset (Bytes × ℕ)) entry'.toList
      simp only [RowKind.apply, Multiset.add_assoc, hreasons]
    | other => rfl
  | other => rfl

end Readings

section Names

/-- The name of a row: the text before its first comma. -/
def rowName (row : Bytes) : Option Bytes :=
  if ch ',' ∈ trim row then some (trim ((trim row).takeWhile fun b => b ≠ ch ',')) else none

def readRow (r : RowReading) (row : Bytes) : RowReading := (rowKind (trim row)).apply r

theorem takeWhile_letter {c : Byte} {mid post : Bytes} (h : c ∉ mid) :
    (mid ++ c :: post).takeWhile (fun b => b ≠ c) = mid := by
  rw [List.takeWhile_append_of_pos, List.takeWhile_cons_of_neg (by simp), List.append_nil]
  intro b hb
  simp only [ne_eq, decide_not, Bool.not_eq_true', decide_eq_false_iff_not]
  rintro rfl
  exact h hb

theorem find_comma {line : Bytes} {comma : ℕ} (h : find line [ch ','] 0 = some comma) :
    ch ',' ∈ line ∧ line.take comma = line.takeWhile fun b => b ≠ ch ',' := by
  obtain ⟨mid, post, hsplit, hfree, rfl⟩ := (find_letter (Nat.zero_le _)).mp h
  rw [List.drop_zero] at hsplit
  refine ⟨by simp [hsplit], ?_⟩
  rw [hsplit, takeWhile_letter hfree, Nat.zero_add, List.take_left]

/-- The kind of a row is decided by its name. -/
theorem rowKind_name (row : Bytes) :
    rowName row = none ∧ rowKind (trim row) = .other ∨
      ∃ name value, rowName row = some name ∧ rowKind (trim row) = kindOf name value := by
  unfold rowKind
  cases hfind : find (trim row) [ch ','] 0 with
  | none =>
    have hfree : ch ',' ∉ trim row := by
      intro hmem
      obtain ⟨mid, post, hsplit, hmid⟩ := List.eq_append_cons_of_mem hmem
      have hfound : find (trim row) [ch ','] 0 = some (0 + mid.length) :=
        (find_letter (Nat.zero_le _)).mpr ⟨mid, post, hsplit, hmid, rfl⟩
      rw [hfound] at hfind
      cases hfind
    exact .inl ⟨by rw [rowName, if_neg hfree], rfl⟩
  | some comma =>
    obtain ⟨hmem, htake⟩ := find_comma hfind
    refine .inr ⟨_, parseCount ((trim row).drop (comma + 1)), by rw [rowName, if_pos hmem], ?_⟩
    dsimp only
    rw [htake]

theorem kindOf_total {name : Bytes} {value v : Option ℕ} (h : kindOf name value = .total v) :
    name = kTotalLines := by
  unfold kindOf at h
  split_ifs at h with htotal
  exact htotal

theorem kindOf_skipped {name : Bytes} {value v : Option ℕ} (h : kindOf name value = .skipped v) :
    name = kSkippedLines := by
  unfold kindOf at h
  split_ifs at h with htotal hskipped
  exact hskipped

theorem rowName_total {row : Bytes} {v : Option ℕ} (h : rowKind (trim row) = .total v) :
    rowName row = some kTotalLines := by
  rcases rowKind_name row with ⟨-, hother⟩ | ⟨name, value, hname, hkind⟩
  · rw [hother] at h
    cases h
  · rw [hkind] at h
    rw [hname, kindOf_total h]

theorem rowName_skipped {row : Bytes} {v : Option ℕ} (h : rowKind (trim row) = .skipped v) :
    rowName row = some kSkippedLines := by
  rcases rowKind_name row with ⟨-, hother⟩ | ⟨name, value, hname, hkind⟩
  · rw [hother] at h
    cases h
  · rw [hkind] at h
    rw [hname, kindOf_skipped h]

/-- A row without a name, or with none of the names the reader looks for. -/
def UnknownRow (row : Bytes) : Prop :=
  ∀ name, rowName row = some name → name ≠ kTotalLines ∧ name ≠ kSkippedLines ∧
    ∀ code, code ≠ [] → name ≠ kReasonPrefix ++ code

theorem unknownRow_other {row : Bytes} (h : UnknownRow row) : rowKind (trim row) = .other := by
  rcases rowKind_name row with ⟨-, hother⟩ | ⟨name, value, hname, hkind⟩
  · exact hother
  · obtain ⟨htotal, hskipped, hreason⟩ := h name hname
    have hplain : ¬ isReasonName name = true := by
      intro hname'
      rw [isReasonName, Bool.and_eq_true, decide_eq_true_eq, List.isPrefixOf_iff_prefix] at hname'
      obtain ⟨hlen, code, rfl⟩ := hname'
      refine hreason code ?_ rfl
      rintro rfl
      simp at hlen
    rw [hkind, kindOf, if_neg htotal, if_neg hskipped, if_neg hplain]

theorem readRow_unknown {row : Bytes} (h : UnknownRow row) (r : RowReading) :
    readRow r row = r := by
  rw [readRow, unknownRow_other h]
  rfl

/-- Rows are read in any order, as long as their names are distinct. -/
theorem readRow_comm {a b : Bytes} (h : rowName a = rowName b → rowName a ≠ none → a = b)
    (r : RowReading) : readRow (readRow r a) b = readRow (readRow r b) a := by
  by_cases heq : a = b
  · rw [heq]
  · apply apply_comm
    · intro v v' ha hb
      have hname := rowName_total ha
      exact heq (h (hname.trans (rowName_total hb).symm) (by simp [hname]))
    · intro v v' ha hb
      have hname := rowName_skipped ha
      exact heq (h (hname.trans (rowName_skipped hb).symm) (by simp [hname]))

end Names

section Rows

theorem reading_rows (rows : List Bytes) (s : Scan) :
    reading (rows.foldl (fun s row => scanRow s (trim row)) s) =
      rows.foldl readRow (reading s) := by
  induction rows generalizing s with
  | nil => rfl
  | cons row rows ih => rw [List.foldl_cons, ih, reading_scanRow, List.foldl_cons, readRow]

theorem readRows_unknown (rows : List Bytes) (h : ∀ row ∈ rows, UnknownRow row) (r : RowReading) :
    rows.foldl readRow r = r := by
  induction rows with
  | nil => rfl
  | cons row rows ih =>
    rw [List.forall_mem_cons] at h
    rw [List.foldl_cons, readRow_unknown h.1, ih h.2]

theorem name_unique {rows : List Bytes} (hnames : (rows.filterMap rowName).Nodup) {a b : Bytes}
    (ha : a ∈ rows) (hb : b ∈ rows) (h : rowName a = rowName b) (hsome : rowName a ≠ none) :
    a = b := by
  obtain ⟨name, hname⟩ := Option.ne_none_iff_exists'.mp hsome
  rw [List.nodup_iff_pairwise_ne, List.pairwise_filterMap] at hnames
  have hsymm : Std.Symm fun x y : Bytes => ∀ n, rowName x = some n → ∀ m, rowName y = some m →
      n ≠ m := ⟨fun x y hxy n hn m hm heq => hxy m hm n hn heq.symm⟩
  by_contra hne
  exact hnames.forall ha hb hne name hname name (h ▸ hname) rfl

/-- The rows and the unknown ones among them, in any order. -/
theorem readRows_reordered {rows rows' extra : List Bytes}
    (hnames : (rows.filterMap rowName).Nodup) (hextra : ∀ row ∈ extra, UnknownRow row)
    (hperm : rows'.Perm (rows ++ extra)) (r : RowReading) :
    rows'.foldl readRow r = rows.foldl readRow r := by
  have hcomm : ∀ a ∈ rows', ∀ b ∈ rows', ∀ r,
      readRow (readRow r a) b = readRow (readRow r b) a := by
    intro a ha b hb r
    rcases List.mem_append.mp (hperm.mem_iff.mp ha) with ha | ha
    · rcases List.mem_append.mp (hperm.mem_iff.mp hb) with hb | hb
      · exact readRow_comm (name_unique hnames ha hb) r
      · rw [readRow_unknown (hextra b hb), readRow_unknown (hextra b hb)]
    · rw [readRow_unknown (hextra a ha), readRow_unknown (hextra a ha)]
  rw [hperm.foldl_eq' hcomm, List.foldl_append, readRows_unknown extra hextra]

end Rows

end LogTransfer.Client
