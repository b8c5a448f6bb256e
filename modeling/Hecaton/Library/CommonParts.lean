import Mathlib.Data.List.Infix

/-!
# Removing common parts of two lists

A step removes a longest common part from both lists, if it has a least length, and joins
what is left of each.  A run takes such steps until no common part of that length is left;
its account is the number of elements that it has removed from each list.
-/

namespace Hecaton.Library

universe u

variable {α : Type u} {least n k : Nat} {s t s' t' left right : List α}

/-- The lists share no part of the least length. -/
def NoCommonPart (least : Nat) (s t : List α) : Prop :=
  ∀ part, part <:+: s → part <:+: t → part.length < least

/-- A longest common part of at least the least length is cut out of both lists. -/
inductive LongestRemoved (least : Nat) : List α → List α → Nat → List α → List α → Prop
  | cut {before part after before' after' : List α} (long : least ≤ part.length)
      (longest : ∀ other, other <:+: before ++ part ++ after →
        other <:+: before' ++ part ++ after' → other.length ≤ part.length) :
      LongestRemoved least (before ++ part ++ after) (before' ++ part ++ after') part.length
        (before ++ after) (before' ++ after')

/-- Cutting out common parts until none is left, and how much it has taken. -/
inductive Accounted (least : Nat) : List α → List α → Nat → List α → List α → Prop
  | done {s t : List α} (none : NoCommonPart least s t) : Accounted least s t 0 s t
  | step {s t s' t' left right : List α} {n k : Nat}
      (removed : LongestRemoved least s t n s' t')
      (rest : Accounted least s' t' k left right) : Accounted least s t (n + k) left right

theorem LongestRemoved.least_le (removed : LongestRemoved least s t n s' t') : least ≤ n := by
  cases removed with
  | cut long _ => exact long

theorem LongestRemoved.length_first (removed : LongestRemoved least s t n s' t') :
    s'.length + n = s.length := by
  cases removed with
  | cut _ _ =>
      simp only [List.length_append]
      omega

theorem LongestRemoved.length_second (removed : LongestRemoved least s t n s' t') :
    t'.length + n = t.length := by
  cases removed with
  | cut _ _ =>
      simp only [List.length_append]
      omega

theorem LongestRemoved.length_le {other : List α} (removed : LongestRemoved least s t n s' t')
    (inFirst : other <:+: s) (inSecond : other <:+: t) : other.length ≤ n := by
  cases removed with
  | cut _ longest => exact longest other inFirst inSecond

theorem Accounted.length_first (accounted : Accounted least s t k left right) :
    left.length + k = s.length := by
  induction accounted with
  | done _ => rfl
  | step removed _ ih =>
      have taken := removed.length_first
      omega

theorem Accounted.length_second (accounted : Accounted least s t k left right) :
    right.length + k = t.length := by
  induction accounted with
  | done _ => rfl
  | step removed _ ih =>
      have taken := removed.length_second
      omega

theorem Accounted.noCommonPart (accounted : Accounted least s t k left right) :
    NoCommonPart least left right := by
  induction accounted with
  | done none => exact none
  | step _ _ ih => exact ih

/-- A list of the least length that is a part of the other one is taken completely. -/
theorem Accounted.left_eq_nil (accounted : Accounted least s t k left right)
    (long : least ≤ s.length) (isPart : s <:+: t) : left = [] := by
  cases accounted with
  | done none => exact absurd (none s List.infix_rfl isPart) (Nat.not_lt.mpr long)
  | step removed rest =>
      have whole := removed.length_le List.infix_rfl isPart
      have firstStep := removed.length_first
      have restSteps := rest.length_first
      apply List.eq_nil_of_length_eq_zero
      omega

end Hecaton.Library
