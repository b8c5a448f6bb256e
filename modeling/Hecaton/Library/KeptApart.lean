import Hecaton.Library.Precedes

/-!
# Elements apart from all earlier ones

From a list every element is taken out that is related to an earlier one, whether that
one stays or not.  Where elements are related by having one of two keys in common, those
that stay are the first of both their keys.
-/

namespace Hecaton.Library

universe u v

section Relation

variable {α : Type u} {related : α → α → Bool}

/-- The elements that are related to no earlier element. -/
def keptApart (related : α → α → Bool) : List α → List α
  | [] => []
  | a :: rest => a :: (keptApart related rest).filter fun b => !related a b

theorem keptApart_sublist (l : List α) : (keptApart related l).Sublist l := by
  induction l with
  | nil => exact List.Sublist.refl []
  | cons a rest ih => exact (List.filter_sublist.trans ih).cons_cons a

theorem keptApart_pairwise (l : List α) :
    (keptApart related l).Pairwise fun a b => related a b = false := by
  induction l with
  | nil => exact List.Pairwise.nil
  | cons a rest ih =>
      apply List.Pairwise.cons _ (ih.sublist List.filter_sublist)
      intro b bMem
      simpa using (List.mem_filter.mp bMem).2

end Relation

/-! ## Two keys -/

variable {α : Type u} {κ : Type v} [DecidableEq κ] {key₁ key₂ : α → κ}

/-- Two elements have the first or the second key in common. -/
def shareKey (key₁ key₂ : α → κ) (a b : α) : Bool := key₁ a == key₁ b || key₂ a == key₂ b

/-- The element is the first one of its key. -/
def IsFirst (key : α → κ) (l : List α) (a : α) : Prop :=
  l.find? (fun b => key b == key a) = some a

theorem isFirst_cons {key : α → κ} {l : List α} {a b : α} :
    IsFirst key (b :: l) a ↔ a = b ∨ (key b ≠ key a ∧ IsFirst key l a) := by
  rw [IsFirst, IsFirst, List.find?_cons]
  by_cases same : key b = key a
  · simp [same, eq_comm]
  · have different : a ≠ b := by
      rintro rfl
      exact same rfl
    have notTaken : (key b == key a) = false := beq_eq_false_iff_ne.mpr same
    rw [notTaken]
    simp [same, different]

/-- The elements that stay are the first of both their keys. -/
theorem mem_keptApart_shareKey {l : List α} {a : α} :
    a ∈ keptApart (shareKey key₁ key₂) l ↔ IsFirst key₁ l a ∧ IsFirst key₂ l a := by
  induction l with
  | nil => simp [keptApart, IsFirst]
  | cons b rest ih =>
      rw [keptApart, List.mem_cons, List.mem_filter, ih, isFirst_cons, isFirst_cons]
      by_cases same : a = b
      · simp [same]
      · simp only [same, false_or, shareKey, Bool.not_or, Bool.and_eq_true, Bool.not_eq_true',
          beq_eq_false_iff_ne, ne_eq]
        tauto

variable (key₁ key₂) in
/-- An element that stays and has the key of `a` is the first one with that key. -/
theorem exists_kept_key₁ (l : List α) (a : α) (allowed : α → Prop) :
    (∃ b ∈ keptApart (shareKey key₁ key₂) l, allowed b ∧ key₁ b = key₁ a) ↔
      ∃ b, l.find? (fun c => key₁ c == key₁ a) = some b ∧ IsFirst key₂ l b ∧ allowed b := by
  constructor
  · rintro ⟨b, kept, isAllowed, same⟩
    obtain ⟨first₁, first₂⟩ := mem_keptApart_shareKey.mp kept
    rw [IsFirst, same] at first₁
    exact ⟨b, first₁, first₂, isAllowed⟩
  · rintro ⟨b, found, first₂, isAllowed⟩
    have same : key₁ b = key₁ a := by simpa using List.find?_some found
    have first₁ : IsFirst key₁ l b := by rwa [IsFirst, same]
    exact ⟨b, mem_keptApart_shareKey.mpr ⟨first₁, first₂⟩, isAllowed, same⟩

theorem shareKey_comm : shareKey key₁ key₂ = shareKey key₂ key₁ := by
  funext a b
  exact Bool.or_comm _ _

variable (key₁ key₂) in
theorem exists_kept_key₂ (l : List α) (a : α) (allowed : α → Prop) :
    (∃ b ∈ keptApart (shareKey key₁ key₂) l, allowed b ∧ key₂ b = key₂ a) ↔
      ∃ b, l.find? (fun c => key₂ c == key₂ a) = some b ∧ IsFirst key₁ l b ∧ allowed b := by
  rw [shareKey_comm]
  exact exists_kept_key₁ key₂ key₁ l a allowed

end Hecaton.Library
