import Mathlib.Data.List.Infix

/-!
# Tokens

A text divides into tokens: the longest runs of letters, and every other character by
itself.  Blanks only stand between tokens.
-/

namespace Hecaton.Library

universe u

variable {α : Type u} (letter blank : α → Bool)

/-- The tokens of a text. -/
def tokensOf : List α → List (List α)
  | [] => []
  | c :: rest =>
      if blank c then tokensOf rest
      else if letter c && rest.head?.any letter then
        match tokensOf rest with
        | [] => [[c]]
        | token :: more => (c :: token) :: more
      else [c] :: tokensOf rest

variable {letter blank}

@[simp]
theorem tokensOf_nil : tokensOf letter blank [] = [] := rfl

theorem tokensOf_blank {c : α} (isBlank : blank c = true) (rest : List α) :
    tokensOf letter blank (c :: rest) = tokensOf letter blank rest := by
  rw [tokensOf, if_pos isBlank]

theorem tokensOf_symbol {c : α} (notBlank : blank c = false) (notLetter : letter c = false)
    (rest : List α) : tokensOf letter blank (c :: rest) = [c] :: tokensOf letter blank rest := by
  rw [tokensOf, notBlank, notLetter]
  simp

theorem tokensOf_symbols {run : List α} (symbols : ∀ c ∈ run, blank c = false ∧ letter c = false)
    (rest : List α) :
    tokensOf letter blank (run ++ rest) = run.map (fun c => [c]) ++ tokensOf letter blank rest := by
  induction run with
  | nil => rfl
  | cons c run ih =>
      obtain ⟨notBlank, notLetter⟩ := symbols c List.mem_cons_self
      rw [List.cons_append, tokensOf_symbol notBlank notLetter,
        ih fun d dMem => symbols d (List.mem_cons_of_mem _ dMem), List.map_cons, List.cons_append]

/-- A word with no letter behind it is one token. -/
theorem tokensOf_word (disjoint : ∀ c, letter c = true → blank c = false) {word rest : List α}
    (nonempty : word ≠ []) (letters : ∀ c ∈ word, letter c = true)
    (noLetter : rest.head?.any letter = false) :
    tokensOf letter blank (word ++ rest) = word :: tokensOf letter blank rest := by
  induction word with
  | nil => exact absurd rfl nonempty
  | cons c word ih =>
      have isLetter := letters c List.mem_cons_self
      have notBlank := disjoint c isLetter
      cases word with
      | nil =>
          rw [List.cons_append, List.nil_append, tokensOf, notBlank, isLetter, noLetter]
          simp
      | cons d word =>
          have nextLetter := letters d (by simp)
          have later := ih (by simp) fun e eMem => letters e (List.mem_cons_of_mem _ eMem)
          rw [List.cons_append, tokensOf, later, notBlank, isLetter, List.cons_append]
          simp [nextLetter]

/-- At a blank the tokens divide. -/
theorem tokensOf_append_blank (disjoint : ∀ c, letter c = true → blank c = false) {c : α}
    (isBlank : blank c = true) (text rest : List α) :
    tokensOf letter blank (text ++ c :: rest) =
      tokensOf letter blank text ++ tokensOf letter blank rest := by
  have notLetter : letter c = false := by
    by_contra isLetter
    rw [disjoint c (Bool.not_eq_false _ ▸ isLetter)] at isBlank
    cases isBlank
  induction text with
  | nil => rw [List.nil_append, tokensOf_blank isBlank, tokensOf_nil, List.nil_append]
  | cons d text ih =>
      have sameNext : (text ++ c :: rest).head?.any letter = text.head?.any letter := by
        cases text with
        | nil => simp [notLetter]
        | cons e text => rfl
      rw [List.cons_append, tokensOf, tokensOf, ih, sameNext]
      split
      · rfl
      · split
        · next _ glued =>
          cases text with
          | nil => simp at glued
          | cons e text =>
              have nonempty : tokensOf letter blank (e :: text) ≠ [] := by
                rw [Bool.and_eq_true] at glued
                have eLetter : letter e = true := by simpa using glued.2
                rw [tokensOf, disjoint e eLetter, if_neg (by simp)]
                split
                · split <;> simp
                · simp
              obtain ⟨token, more, isTokens⟩ := List.exists_cons_of_ne_nil nonempty
              rw [isTokens, List.cons_append]
              rfl
        · rfl

/-- Words with a blank between each two are the tokens. -/
theorem tokensOf_intercalate (disjoint : ∀ c, letter c = true → blank c = false) {c : α}
    (isBlank : blank c = true) {wordList : List (List α)} (nonempty : ∀ word ∈ wordList, word ≠ [])
    (letters : ∀ word ∈ wordList, ∀ d ∈ word, letter d = true) :
    tokensOf letter blank ([c].intercalate wordList) = wordList := by
  induction wordList with
  | nil => rfl
  | cons word rest ih =>
      have isWord : tokensOf letter blank word = [word] := by
        have alone : tokensOf letter blank (word ++ []) = word :: tokensOf letter blank [] :=
          tokensOf_word disjoint (nonempty word List.mem_cons_self)
            (letters word List.mem_cons_self) rfl
        rwa [List.append_nil] at alone
      cases rest with
      | nil => rw [List.intercalate_singleton, isWord]
      | cons next rest =>
          have later := ih (fun w wMem => nonempty w (List.mem_cons_of_mem _ wMem))
            fun w wMem => letters w (List.mem_cons_of_mem _ wMem)
          rw [List.intercalate_cons_cons, List.append_assoc, List.singleton_append,
            tokensOf_append_blank disjoint isBlank, isWord, later, List.singleton_append]

end Hecaton.Library
