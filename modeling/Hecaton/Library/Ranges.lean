import Mathlib.Data.List.Pairwise
import Mathlib.Order.Basic

/-!
# Tables of ranges

A table tells for a point which ranges it lies in.  If no two ranges meet, it tells
exactly one owner for a point of a range, and none for a point outside.
-/

namespace Hecaton.Library

universe u v

variable {κ : Type u} [Preorder κ] [DecidableLE κ] {ω : Type v}

/-- A range, both ends included, and what it belongs to. -/
structure Range (κ : Type u) (ω : Type v) where
  first : κ
  last : κ
  owner : ω
  deriving DecidableEq

/-- The point lies in the range. -/
def Range.has (range : Range κ ω) (point : κ) : Bool := range.first ≤ point && point ≤ range.last

/-- The owners of the ranges that a point lies in. -/
def ownersAt (table : List (Range κ ω)) (point : κ) : List ω :=
  (table.filter fun range => range.has point).map Range.owner

/-- No point lies in both ranges. -/
def Range.Apart (range other : Range κ ω) : Prop :=
  ∀ point, range.has point = true → other.has point = false

variable {table : List (Range κ ω)} {range : Range κ ω} {point : κ}

theorem Range.has_iff : range.has point = true ↔ range.first ≤ point ∧ point ≤ range.last := by
  rw [Range.has, Bool.and_eq_true, decide_eq_true_eq, decide_eq_true_eq]

/-- A range that ends before the other begins does not meet it. -/
theorem Range.apart_of_lt {other : Range κ ω} (before : range.last < other.first) :
    range.Apart other := by
  intro point inRange
  cases inOther : other.has point with
  | false => rfl
  | true =>
      rw [Range.has_iff] at inRange inOther
      exact absurd (lt_of_lt_of_le before inOther.1) (not_lt_of_ge inRange.2)

theorem ownersAt_eq_nil (outside : ∀ range ∈ table, range.has point = false) :
    ownersAt table point = [] := by
  rw [ownersAt, List.map_eq_nil_iff, List.filter_eq_nil_iff]
  intro range rangeMem
  rw [outside range rangeMem]
  exact Bool.false_ne_true

theorem ownersAt_of_apart (apart : table.Pairwise Range.Apart) (rangeMem : range ∈ table)
    (inside : range.has point = true) : ownersAt table point = [range.owner] := by
  obtain ⟨front, back, rfl⟩ := List.append_of_mem rangeMem
  obtain ⟨_, fromRange, across⟩ := List.pairwise_append.mp apart
  have noneBefore : front.filter (fun other => other.has point) = [] := by
    rw [List.filter_eq_nil_iff]
    intro other otherMem inOther
    rw [across other otherMem range List.mem_cons_self point inOther] at inside
    exact Bool.false_ne_true inside
  have noneBehind : back.filter (fun other => other.has point) = [] := by
    rw [List.filter_eq_nil_iff]
    intro other otherMem
    rw [List.rel_of_pairwise_cons fromRange otherMem point inside]
    exact Bool.false_ne_true
  have inTable : (front ++ range :: back).filter (fun other => other.has point) = [range] := by
    rw [List.filter_append, noneBefore, List.filter_cons, if_pos inside, noneBehind]
    rfl
  rw [ownersAt, inTable, List.map_singleton]

end Hecaton.Library
