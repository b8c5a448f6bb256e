/-!
# Filtering each list by those before it

A traversal of a list of lists that keeps of every list what passes a test, where the
test may look at the lists that stand before.  Two tests give the same selection when
they agree at every place.
-/

namespace Hecaton.Library

universe u

variable {α : Type u}

/-- Of every list the elements that `keep` takes behind the lists before it. -/
def keepBehind (keep : List (List α) → α → Bool) (earlier : List (List α)) :
    List (List α) → List (List α)
  | [] => []
  | items :: rest => items.filter (keep earlier) :: keepBehind keep (earlier ++ [items]) rest

theorem keepBehind_cons (keep : List (List α) → α → Bool) (earlier : List (List α))
    (items : List α) (rest : List (List α)) :
    keepBehind keep earlier (items :: rest) =
      items.filter (keep earlier) :: keepBehind keep (earlier ++ [items]) rest :=
  rfl

/-- Two filters of a list are the same when the tests agree on its elements. -/
theorem filter_eq_filter_iff {p q : α → Bool} {items : List α} :
    items.filter p = items.filter q ↔ ∀ item ∈ items, p item = q item := by
  constructor
  · intro sameItems item itemMem
    have sameMem : item ∈ items.filter p ↔ item ∈ items.filter q := by rw [sameItems]
    rw [List.mem_filter, List.mem_filter] at sameMem
    apply Bool.eq_iff_iff.mpr
    constructor
    · intro passes
      exact (sameMem.mp ⟨itemMem, passes⟩).2
    · intro passes
      exact (sameMem.mpr ⟨itemMem, passes⟩).2
  · exact List.filter_congr

/-- Two tests select the same exactly when they agree on every element behind the lists
before its own. -/
theorem keepBehind_eq_iff {keep other : List (List α) → α → Bool} {earlier lists : List (List α)} :
    keepBehind keep earlier lists = keepBehind other earlier lists ↔
      ∀ before items after, lists = before ++ items :: after →
        ∀ item ∈ items, keep (earlier ++ before) item = other (earlier ++ before) item := by
  induction lists generalizing earlier with
  | nil =>
      apply iff_of_true rfl
      intro before items after split
      simp at split
  | cons first rest ih =>
      rw [keepBehind_cons, keepBehind_cons, List.cons.injEq, filter_eq_filter_iff, ih]
      constructor
      · rintro ⟨atFirst, atRest⟩ before items after split
        cases before with
        | nil =>
            cases split
            rwa [List.append_nil]
        | cons head tail =>
            cases split
            have agree := atRest tail items after rfl
            rwa [List.append_assoc, List.singleton_append] at agree
      · intro agree
        constructor
        · have atFirst := agree [] first rest rfl
          rwa [List.append_nil] at atFirst
        · rintro before items after rfl
          rw [List.append_assoc, List.singleton_append]
          exact agree (first :: before) items after rfl

end Hecaton.Library
