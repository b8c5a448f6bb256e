import Hecaton.Library.Precedes

/-!
# Grouping a list by a key

The first element of each key stands for the group of all elements with that key.  The
groups, one behind the other, hold every element of the list once.
-/

namespace Hecaton.Library

universe u v

variable {α : Type u} {κ : Type v} [DecidableEq κ] {key : α → κ}

/-- The elements with the key of one. -/
def groupOf (key : α → κ) (l : List α) (a : α) : List α := l.filter fun b => key b = key a

theorem mem_groupOf {l : List α} {a b : α} : b ∈ groupOf key l a ↔ b ∈ l ∧ key b = key a := by
  simp [groupOf]

/-- Taking another key's elements out does not change a group. -/
theorem groupOf_cons_of_ne {a c : α} (different : key c ≠ key a) (rest : List α) :
    groupOf key (a :: rest) c = groupOf key (rest.filter fun b => key b ≠ key a) c := by
  rw [groupOf, groupOf, List.filter_filter, List.filter_cons_of_neg (by simpa using different.symm)]
  apply List.filter_congr
  intro b _
  by_cases sameKey : key b = key c
  · simp [sameKey, different]
  · simp [sameKey]

/-- The group of the head is the head and what is taken out with it. -/
theorem groupOf_cons_self (a : α) (rest : List α) :
    groupOf key (a :: rest) a = a :: rest.filter fun b => key b = key a := by
  simp [groupOf]

theorem key_ne_of_mem_firstByKey {a c : α} {rest : List α}
    (kept : c ∈ firstByKey key (rest.filter fun b => key b ≠ key a)) : key c ≠ key a := by
  have inRest := (firstByKey_sublist _).subset kept
  simpa using (List.mem_filter.mp inRest).2

/-- The groups of the first elements hold every element once. -/
theorem groups_perm (l : List α) : ((firstByKey key l).flatMap (groupOf key l)).Perm l := by
  induction l using firstByKey_induction key with
  | nil => exact List.Perm.refl []
  | cons a rest ih =>
      have later : ((firstByKey key (rest.filter fun b => key b ≠ key a)).flatMap
          (groupOf key (a :: rest))).Perm (rest.filter fun b => key b ≠ key a) := by
        rw [List.flatMap_congr fun c kept =>
          groupOf_cons_of_ne (key_ne_of_mem_firstByKey kept) rest]
        exact ih
      rw [firstByKey_cons, List.flatMap_cons, groupOf_cons_self, List.cons_append]
      apply List.Perm.cons
      have split := List.filter_append_perm (fun b => decide (key b = key a)) rest
      have others : (rest.filter fun b => !decide (key b = key a)) =
          rest.filter fun b => key b ≠ key a := by simp
      rw [others] at split
      exact (later.append_left _).trans split

/-! ## Collecting the first elements -/

/-- Append an element unless one of its key is there. -/
def pushNew (key : α → κ) (found : List α) (a : α) : List α :=
  if found.any fun b => key a == key b then found else found ++ [a]

/-- Pushing one element after the other collects the first elements of the keys that are not
there before. -/
theorem foldl_pushNew (items found : List α) :
    items.foldl (pushNew key) found =
      found ++ firstByKey key (items.filter fun a => !found.any fun b => key a == key b) := by
  induction items generalizing found with
  | nil => simp
  | cons a rest ih =>
      rw [List.foldl_cons, ih, pushNew, List.filter_cons]
      cases there : found.any fun b => key a == key b with
      | true => simp
      | false =>
          have sameFilter : (rest.filter fun c => !(found ++ [a]).any fun b => key c == key b) =
              rest.filter fun c =>
                decide (key c ≠ key a) && !found.any fun b => key c == key b := by
            apply List.filter_congr
            intro c _
            rw [List.any_append, Bool.not_or, Bool.and_comm]
            congr 1
            by_cases same : key c = key a <;> simp [same]
          simp only [Bool.false_eq_true, if_false, Bool.not_false, if_true]
          rw [sameFilter, firstByKey_cons, List.filter_filter, List.append_assoc,
            List.singleton_append]

theorem foldl_pushNew_nil (items : List α) :
    items.foldl (pushNew key) [] = firstByKey key items := by
  rw [foldl_pushNew]
  simp

end Hecaton.Library
