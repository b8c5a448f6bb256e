import Mathlib.Data.List.Infix

/-!
# Pieces between marks

A text is read piece by piece, each up to a mark that is not part of it.  Behind a last
mark there is no piece.
-/

namespace Hecaton.Library

universe u

variable {α : Type u} [DecidableEq α] {mark : α}

/-- The pieces of a text up to each mark. -/
def piecesOf (mark : α) : List α → List (List α)
  | [] => []
  | c :: rest =>
      if c = mark then [] :: piecesOf mark rest
      else
        match piecesOf mark rest with
        | [] => [[c]]
        | piece :: more => (c :: piece) :: more

@[simp]
theorem piecesOf_nil : piecesOf mark [] = [] := rfl

@[simp]
theorem piecesOf_mark_cons (rest : List α) : piecesOf mark (mark :: rest) = [] :: piecesOf mark rest := by
  simp [piecesOf]

theorem piecesOf_append_mark {piece : List α} (noMark : mark ∉ piece) (rest : List α) :
    piecesOf mark (piece ++ mark :: rest) = piece :: piecesOf mark rest := by
  induction piece with
  | nil => simp
  | cons c piece ih =>
      have notHead : c ≠ mark := Ne.symm (List.ne_of_not_mem_cons noMark)
      rw [List.cons_append, piecesOf, if_neg notHead, ih (List.not_mem_of_not_mem_cons noMark)]

theorem piecesOf_of_not_mem {piece : List α} (noMark : mark ∉ piece) (nonempty : piece ≠ []) :
    piecesOf mark piece = [piece] := by
  induction piece with
  | nil => exact absurd rfl nonempty
  | cons c piece ih =>
      have notHead : c ≠ mark := Ne.symm (List.ne_of_not_mem_cons noMark)
      rw [piecesOf, if_neg notHead]
      cases piece with
      | nil => rfl
      | cons d piece => rw [ih (List.not_mem_of_not_mem_cons noMark) (by simp)]

/-- A text is empty, one last piece, or a piece with its mark and the rest. -/
theorem pieces_induction {P : List α → Prop} (mark : α) (nil : P [])
    (last : ∀ piece, mark ∉ piece → piece ≠ [] → P piece)
    (cons : ∀ piece rest, mark ∉ piece → P rest → P (piece ++ mark :: rest)) (text : List α) :
    P text := by
  induction length : text.length using Nat.strong_induction_on generalizing text with
  | _ n ih =>
      by_cases markMem : mark ∈ text
      · obtain ⟨piece, rest, split, noMark⟩ := List.eq_append_cons_of_mem markMem
        rw [split]
        apply cons piece rest noMark
        apply ih rest.length _ rest rfl
        rw [← length, split, List.length_append, List.length_cons]
        omega
      · by_cases isNil : text = []
        · rw [isNil]
          exact nil
        · exact last text markMem isNil

theorem not_mem_of_mem_piecesOf {text piece : List α} (isPiece : piece ∈ piecesOf mark text) :
    mark ∉ piece := by
  induction text using pieces_induction mark with
  | nil => exact absurd isPiece List.not_mem_nil
  | last only noMark nonempty =>
      rw [piecesOf_of_not_mem noMark nonempty, List.mem_singleton] at isPiece
      rwa [isPiece]
  | cons first rest noMark ih =>
      rw [piecesOf_append_mark noMark] at isPiece
      rcases List.mem_cons.mp isPiece with rfl | inRest
      · exact noMark
      · exact ih inRest

theorem length_le_of_mem_piecesOf {text piece : List α} (isPiece : piece ∈ piecesOf mark text) :
    piece.length ≤ text.length := by
  induction text using pieces_induction mark with
  | nil => exact absurd isPiece List.not_mem_nil
  | last only noMark nonempty =>
      rw [piecesOf_of_not_mem noMark nonempty, List.mem_singleton] at isPiece
      rw [isPiece]
  | cons first rest noMark ih =>
      rw [piecesOf_append_mark noMark] at isPiece
      rw [List.length_append, List.length_cons]
      rcases List.mem_cons.mp isPiece with rfl | inRest
      · omega
      · have bounded := ih inRest
        omega

/-! ## Pieces put together -/

omit [DecidableEq α] in
theorem mem_intercalate {c : α} {pieces : List (List α)} (cMem : c ∈ [mark].intercalate pieces) :
    c = mark ∨ ∃ piece ∈ pieces, c ∈ piece := by
  induction pieces with
  | nil => exact absurd cMem List.not_mem_nil
  | cons piece rest ih =>
      cases rest with
      | nil =>
          rw [List.intercalate_singleton] at cMem
          exact Or.inr ⟨piece, List.mem_cons_self, cMem⟩
      | cons next rest =>
          rw [List.intercalate_cons_cons, List.append_assoc, List.singleton_append,
            List.mem_append, List.mem_cons] at cMem
          rcases cMem with inPiece | isMark | inRest
          · exact Or.inr ⟨piece, List.mem_cons_self, inPiece⟩
          · exact Or.inl isMark
          · rcases ih inRest with isMark | ⟨other, otherMem, inOther⟩
            · exact Or.inl isMark
            · exact Or.inr ⟨other, List.mem_cons_of_mem _ otherMem, inOther⟩

theorem piecesOf_intercalate {pieces : List (List α)} (noMark : ∀ piece ∈ pieces, mark ∉ piece)
    (nonempty : ∀ piece ∈ pieces, piece ≠ []) :
    piecesOf mark ([mark].intercalate pieces) = pieces := by
  induction pieces with
  | nil => rfl
  | cons piece rest ih =>
      have noMarkHere := noMark piece List.mem_cons_self
      cases rest with
      | nil =>
          rw [List.intercalate_singleton]
          exact piecesOf_of_not_mem noMarkHere (nonempty piece List.mem_cons_self)
      | cons next rest =>
          have later := ih (fun p pMem => noMark p (List.mem_cons_of_mem _ pMem))
            fun p pMem => nonempty p (List.mem_cons_of_mem _ pMem)
          rw [List.intercalate_cons_cons, List.append_assoc, List.singleton_append,
            piecesOf_append_mark noMarkHere, later]

variable (mark) in
/-- The pieces give the text again, but for a last mark. -/
theorem intercalate_piecesOf (text : List α) :
    [mark].intercalate (piecesOf mark text) = text ∨
      [mark].intercalate (piecesOf mark text) ++ [mark] = text := by
  induction text using pieces_induction mark with
  | nil => exact Or.inl rfl
  | last piece noMark nonempty =>
      rw [piecesOf_of_not_mem noMark nonempty, List.intercalate_singleton]
      exact Or.inl rfl
  | cons piece rest noMark ih =>
      rw [piecesOf_append_mark noMark]
      cases more : piecesOf mark rest with
      | nil =>
          rw [more] at ih
          rcases ih with isNil | isMark
          · rw [List.intercalate_singleton, ← isNil]
            exact Or.inr rfl
          · rw [← isMark, List.intercalate_nil, List.nil_append, piecesOf_mark_cons] at more
            cases more
      | cons next others =>
          rw [more] at ih
          rw [List.intercalate_cons_cons, List.append_assoc, List.append_assoc]
          rcases ih with same | same
          · rw [same]
            exact Or.inl rfl
          · rw [List.append_assoc, same]
            exact Or.inr rfl

end Hecaton.Library
