import LogTransfer.LineReassembler

/-!
# Reassembly against the split at newlines

`reference` splits the whole stream at once. The reassembler emits the same
lines for every way of cutting the stream into chunks.
-/

set_option autoImplicit false

namespace LogTransfer.LineReassembler

/-- The elements with the position of their first byte. The last one has no
newline behind it and counts only if it is non-empty. -/
def placed : ℕ → List Bytes → List (ℕ × Bytes)
  | _, [] => []
  | pos, [last] => if last.isEmpty then [] else [(pos, last)]
  | pos, e::es => (pos, e) :: placed (pos + e.length + 1) es

def stripReturn (e : Bytes) : Bytes :=
  if e.getLast? = some carriageReturn then e.dropLast else e

def lineOf (maxLen : ℕ) (e : ℕ × Bytes) : Line :=
  if e.2.length > maxLen then { text := e.2.take maxLen, offset := e.1, tooLong := true }
  else { text := stripReturn e.2, offset := e.1, tooLong := false }

def reference (maxLen pos : ℕ) (s : Bytes) : List Line :=
  (placed pos (s.splitOn newline)).map (lineOf maxLen)

theorem placed_cons (pos : ℕ) (e : Bytes) (es : List Bytes) (h : es ≠ []) :
    placed pos (e :: es) = (pos, e) :: placed (pos + e.length + 1) es := by
  cases es with
  | nil => exact absurd rfl h
  | cons e' es => rfl

theorem reference_line (maxLen pos : ℕ) (piece rest : Bytes) (hp : newline ∉ piece) :
    reference maxLen pos (piece ++ newline :: rest) =
      lineOf maxLen (pos, piece) :: reference maxLen (pos + piece.length + 1) rest := by
  unfold reference
  rw [List.splitOn_append_cons_self_of_not_mem hp,
    placed_cons pos piece _ (List.splitOn_ne_nil newline rest), List.map_cons]

theorem reference_tail (maxLen pos : ℕ) (tail : Bytes) (hp : newline ∉ tail) :
    reference maxLen pos tail =
      if tail.isEmpty then [] else [lineOf maxLen (pos, tail)] := by
  unfold reference
  rw [List.splitOn_eq_singleton hp, placed]
  split <;> rfl

/-- At the start of a line. -/
def fresh (pos : ℕ) : LineReassembler :=
  { fragment := [], streamOffset := pos, lineStart := pos, discarding := false }

theorem emitLine_lineOf (maxLen pos : ℕ) (e : Bytes) (h : ¬ e.length > maxLen) :
    emitLine e pos false = lineOf maxLen (pos, e) := by
  unfold emitLine lineOf stripReturn
  rw [if_neg h]
  by_cases hr : e.getLast? = some carriageReturn
  · simp [hr]
  · simp [hr]

theorem emitLine_tooLong (maxLen pos : ℕ) (e : Bytes) (h : e.length > maxLen) :
    emitLine (e.take maxLen) pos true = lineOf maxLen (pos, e) := by
  simp [emitLine, lineOf, h]

theorem closeLine_fresh (maxLen pos : ℕ) (piece : Bytes) :
    closeLine maxLen (fresh pos) piece = lineOf maxLen (pos, piece) := by
  unfold closeLine
  rw [if_pos (by rfl)]
  split
  · rename_i h
    exact emitLine_tooLong maxLen pos piece h
  · rename_i h
    exact emitLine_lineOf maxLen pos piece h

theorem eatAll_tail (maxLen pos : ℕ) (tail : Bytes) (hp : newline ∉ tail) :
    (eatAll maxLen (fresh pos) tail).2 ++ (finish (eatAll maxLen (fresh pos) tail).1).2 =
      reference maxLen pos tail := by
  have hb : ∀ b ∈ tail, b ≠ newline := by
    rintro b hb rfl
    exact hp hb
  rw [reference_tail maxLen pos tail hp,
    eatAll_piece maxLen (fresh pos) tail rfl (Nat.zero_le _) hb]
  by_cases ho : tail.length > maxLen
  · have hne : tail ≠ [] := by
      rintro rfl
      simp at ho
    simp [appendTail, fresh, ho, finish, hne, emitLine_tooLong]
  · by_cases hne : tail = []
    · simp [appendTail, fresh, finish, hne]
    · simpa [appendTail, fresh, ho, finish, hne] using emitLine_lineOf maxLen pos tail ho

/-- The byte machine and the split agree on a whole stream. -/
theorem eatAll_reference (maxLen pos : ℕ) (s : Bytes) :
    (eatAll maxLen (fresh pos) s).2 ++ (finish (eatAll maxLen (fresh pos) s).1).2 =
      reference maxLen pos s := by
  induction hn : s.length using Nat.strong_induction_on generalizing pos s with
  | _ n ih =>
    by_cases hs : newline ∈ s
    · obtain ⟨piece, rest, rfl, hp⟩ := List.eq_append_cons_of_mem hs
      have hb : ∀ b ∈ piece, b ≠ newline := by
        rintro b hb rfl
        exact hp hb
      have hline := eatAll_line maxLen (fresh pos) piece rfl (Nat.zero_le _) hb
      have hnext : ({ fresh pos with
          streamOffset := pos + piece.length + 1,
          lineStart := pos + piece.length + 1 } : LineReassembler) =
          fresh (pos + piece.length + 1) := rfl
      have hrest := ih rest.length (by simp [← hn]; omega) (pos + piece.length + 1) rest rfl
      rw [reference_line maxLen pos piece rest hp, List.append_cons, eatAll_append, hline,
        closeLine_fresh, ← hrest]
      rfl
    · exact eatAll_tail maxLen pos s hs

section Chunks

def feedAll (maxLen : ℕ) : LineReassembler → List Bytes → LineReassembler × List Line
  | r, [] => (r, [])
  | r, c::cs =>
    let first := feed maxLen r c
    let rest := feedAll maxLen first.1 cs
    (rest.1, first.2 ++ rest.2)

theorem feedAll_eatAll (maxLen : ℕ) (r : LineReassembler) (cs : List Bytes)
    (hb : Bounded maxLen r) : feedAll maxLen r cs = eatAll maxLen r cs.flatten := by
  induction cs generalizing r with
  | nil => rfl
  | cons c cs ih =>
    have hr := bounded_feed maxLen r c hb
    rw [List.flatten_cons, eatAll_append, feedAll, ih _ hr, feed_eq_eatAll maxLen r c hb]

/-- Line reassembly is the reference split, whatever the chunks, and the
fragment stays within the limit at every point of the stream. -/
theorem reassembly_is_split (maxLen : ℕ) (chunks : List Bytes) :
    (feedAll maxLen reset chunks).2 ++ (finish (feedAll maxLen reset chunks).1).2 =
        reference maxLen 0 chunks.flatten ∧
      ∀ n, (feedAll maxLen reset (chunks.take n)).1.fragment.length ≤ maxLen := by
  have hb := bounded_reset maxLen
  constructor
  · rw [feedAll_eatAll maxLen reset chunks hb]
    exact eatAll_reference maxLen 0 chunks.flatten
  · intro n
    rw [feedAll_eatAll maxLen reset (chunks.take n) hb]
    exact (bounded_eatAll maxLen reset _ hb).1

end Chunks

end LogTransfer.LineReassembler
