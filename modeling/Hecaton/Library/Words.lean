import Mathlib.Data.List.DropRight

/-!
# Words and lines

A text is a list over any alphabet.  Its words are the pieces between separators;
its lines end with a mark, the last one perhaps without it.  What a text is put
together from can be read back when no piece holds a separator.
-/

namespace Hecaton.Library

universe u

variable {α : Type u}

/-! ## Words -/

/-- The nonempty pieces between separators. -/
def words (sep : α → Bool) (text : List α) : List (List α) :=
  (text.splitOnP sep).filter fun piece => !piece.isEmpty

theorem words_nil (sep : α → Bool) : words sep [] = [] := by
  simp [words, List.splitOnP_nil]

theorem words_append_cons {sep : α → Bool} (first second : List α) {mark : α}
    (isSep : sep mark = true) :
    words sep (first ++ mark :: second) = words sep first ++ words sep second := by
  rw [words, List.splitOnP_append_cons first second isSep, List.filter_append]
  rfl

/-- A piece without separators is one word. -/
theorem words_of_no_sep {sep : α → Bool} {word : List α} (nonempty : word ≠ [])
    (noSep : ∀ c ∈ word, sep c = false) : words sep word = [word] := by
  rw [words, List.splitOnP_eq_singleton noSep]
  simp [nonempty]

/-- A word, a separator and the rest. -/
theorem words_word_append {sep : α → Bool} {word : List α} (nonempty : word ≠ [])
    (noSep : ∀ c ∈ word, sep c = false) (rest : List α) {mark : α} (isSep : sep mark = true) :
    words sep (word ++ mark :: rest) = word :: words sep rest := by
  rw [words_append_cons word rest isSep, words_of_no_sep nonempty noSep, List.singleton_append]

/-! ## Lines -/

/-- The lines of a text, each with the mark that ends it. -/
def linesOf [DecidableEq α] (mark : α) : List α → List (List α)
  | [] => []
  | c :: rest =>
      if c = mark then [c] :: linesOf mark rest
      else
        match linesOf mark rest with
        | [] => [[c]]
        | line :: more => (c :: line) :: more

theorem linesOf_append_mark [DecidableEq α] {mark : α} {line : List α} (noMark : mark ∉ line)
    (rest : List α) : linesOf mark (line ++ mark :: rest) = (line ++ [mark]) :: linesOf mark rest := by
  induction line with
  | nil => simp [linesOf]
  | cons c line ih =>
      have notHead : mark ≠ c := List.ne_of_not_mem_cons noMark
      have notTail : mark ∉ line := List.not_mem_of_not_mem_cons noMark
      rw [List.cons_append, linesOf, if_neg (Ne.symm notHead), ih notTail]
      rfl

/-- A line holds the mark at its end or not at all. -/
theorem line_of_mem_linesOf [DecidableEq α] {mark : α} {text line : List α}
    (isLine : line ∈ linesOf mark text) :
    ∃ content, mark ∉ content ∧ (line = content ++ [mark] ∨ line = content) := by
  induction text generalizing line with
  | nil => exact absurd isLine List.not_mem_nil
  | cons c rest ih =>
      rw [linesOf] at isLine
      split at isLine
      · rename_i isMark
        rcases List.mem_cons.mp isLine with rfl | inRest
        · exact ⟨[], List.not_mem_nil, Or.inl (by simp [isMark])⟩
        · exact ih inRest
      · rename_i notMark
        cases split : linesOf mark rest with
        | nil =>
            rw [split, List.mem_singleton] at isLine
            exact ⟨[c], by simpa using Ne.symm notMark, Or.inr isLine⟩
        | cons first more =>
            rw [split] at isLine
            rcases List.mem_cons.mp isLine with rfl | inRest
            · obtain ⟨content, noMark, shape⟩ := ih (by rw [split]; exact List.mem_cons_self)
              refine ⟨c :: content, List.not_mem_cons_of_ne_of_not_mem (Ne.symm notMark) noMark, ?_⟩
              rcases shape with rfl | rfl
              · exact Or.inl rfl
              · exact Or.inr rfl
            · exact ih (by rw [split]; exact List.mem_cons_of_mem _ inRest)

/-! ## Stripping the end -/

theorem rdropWhile_append_of_all {p : α → Bool} (text : List α) {tail : List α}
    (all : ∀ c ∈ tail, p c = true) : (text ++ tail).rdropWhile p = text.rdropWhile p := by
  induction tail using List.reverseRecOn with
  | nil => rw [List.append_nil]
  | append_singleton tail c ih =>
      rw [← List.append_assoc, List.rdropWhile_concat_pos p _ _ (all c (by simp))]
      exact ih fun d dMem => all d (List.mem_append_left _ dMem)

theorem rdropWhile_of_none {p : α → Bool} {text : List α} (none : ∀ c ∈ text, p c = false) :
    text.rdropWhile p = text := by
  rw [List.rdropWhile_eq_self_iff]
  intro nonempty
  rw [none _ (List.getLast_mem nonempty)]
  simp

end Hecaton.Library
