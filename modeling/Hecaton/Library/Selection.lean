import Mathlib.Data.List.Basic
import Mathlib.Order.Lattice

/-!
# Selection in descending order

A list is emptied by taking out, again and again, the first element of the highest
key.  What comes out is a permutation in descending order in which the elements of
one key keep their places.
-/

namespace Hecaton.Library

universe u v

variable {α : Type u} {κ : Type v} [LinearOrder κ]

/-- `best` is the first element of the highest key between two parts of a list. -/
def IsFirstMax (key : α → κ) (before : List α) (best : α) (after : List α) : Prop :=
  (∀ a ∈ before, key a < key best) ∧ ∀ a ∈ after, key a ≤ key best

/-- The second list arises from the first by taking out the first element of the
highest key until nothing is left. -/
inductive Selected (key : α → κ) : List α → List α → Prop
  | nil : Selected key [] []
  | take {before after rest : List α} {best : α} (first : IsFirstMax key before best after)
      (selected : Selected key (before ++ after) rest) :
      Selected key (before ++ best :: after) (best :: rest)

variable {key : α → κ} {items sorted : List α}

theorem Selected.perm (selected : Selected key items sorted) : sorted.Perm items := by
  induction selected with
  | nil => exact List.Perm.refl []
  | take first selected ih => exact (ih.cons _).trans List.perm_middle.symm

theorem Selected.pairwise (selected : Selected key items sorted) :
    sorted.Pairwise fun a b => key b ≤ key a := by
  induction selected with
  | nil => exact List.Pairwise.nil
  | take first selected ih =>
      apply List.Pairwise.cons _ ih
      intro a aMem
      rcases List.mem_append.mp (selected.perm.subset aMem) with inBefore | inAfter
      · exact le_of_lt (first.1 a inBefore)
      · exact first.2 a inAfter

/-- The elements of one key come out in the order in which they stand. -/
theorem Selected.filter_key (selected : Selected key items sorted) (k : κ) :
    (sorted.filter fun a => key a == k) = items.filter fun a => key a == k := by
  induction selected with
  | nil => rfl
  | @take before after rest best first selected ih =>
      rw [List.filter_append] at ih
      rw [List.filter_append, List.filter_cons, List.filter_cons, ih]
      by_cases own : key best = k
      · have noneBefore : (before.filter fun a => key a == k) = [] := by
          rw [List.filter_eq_nil_iff]
          intro a aMem sameKey
          have below := first.1 a aMem
          rw [own, eq_of_beq sameKey] at below
          exact lt_irrefl k below
        simp [own, noneBefore]
      · simp [own]

/-- What comes out first is the first element of the highest key. -/
theorem Selected.head_isFirstMax {best : α} {rest : List α}
    (selected : Selected key items (best :: rest)) :
    ∃ before after, items = before ++ best :: after ∧ IsFirstMax key before best after := by
  cases selected with
  | take first _ => exact ⟨_, _, rfl, first⟩

end Hecaton.Library
