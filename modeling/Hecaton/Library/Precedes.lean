import Mathlib.Data.List.Sublists
import Mathlib.Data.List.Nodup

/-!
# Order of keyed elements in a list

`Precedes key l x y` says that some element with key `x` stands before some
element with key `y`.  The relation is read off a list that was put together by
concatenating, reversing and flattening; keeping only the first element of each
key turns it into the order of the first occurrences.
-/

namespace Hecaton.Library

universe u v w

variable {α : Type u} {β : Type w} {κ : Type v} {key : α → κ} {x y : κ}

/-- Some element with key `x` stands before some element with key `y`. -/
def Precedes (key : α → κ) (l : List α) (x y : κ) : Prop :=
  ∃ a b, [a, b].Sublist l ∧ key a = x ∧ key b = y

/-- Some element has the key. -/
def HasKey (key : α → κ) (l : List α) (x : κ) : Prop := ∃ a ∈ l, key a = x

@[simp]
theorem precedes_nil : ¬ Precedes key [] x y := by
  rintro ⟨a, b, sub, _⟩
  simp at sub

theorem precedes_cons {a : α} {l : List α} :
    Precedes key (a :: l) x y ↔ (key a = x ∧ HasKey key l y) ∨ Precedes key l x y := by
  constructor
  · rintro ⟨b, c, sub, keyB, keyC⟩
    cases sub with
    | cons _ inTail => exact Or.inr ⟨b, c, inTail, keyB, keyC⟩
    | cons_cons _ inTail => exact Or.inl ⟨keyB, c, List.singleton_sublist.mp inTail, keyC⟩
  · rintro (⟨keyA, b, member, keyB⟩ | ⟨b, c, sub, keyB, keyC⟩)
    · exact ⟨a, b, (List.singleton_sublist.mpr member).cons_cons a, keyA, keyB⟩
    · exact ⟨b, c, sub.cons a, keyB, keyC⟩

theorem hasKey_append {l₁ l₂ : List α} :
    HasKey key (l₁ ++ l₂) x ↔ HasKey key l₁ x ∨ HasKey key l₂ x := by
  simp [HasKey, or_and_right, exists_or]

theorem hasKey_cons {a : α} {l : List α} :
    HasKey key (a :: l) x ↔ key a = x ∨ HasKey key l x := by
  simp [HasKey]

/-- A filter that keeps the elements with the key keeps the key. -/
theorem hasKey_filter_of {p : α → Bool} {l : List α} (keep : ∀ a, key a = x → p a = true) :
    HasKey key (l.filter p) x ↔ HasKey key l x := by
  constructor
  · rintro ⟨a, aMem, keyA⟩
    exact ⟨a, (List.mem_filter.mp aMem).1, keyA⟩
  · rintro ⟨a, aMem, keyA⟩
    exact ⟨a, List.mem_filter.mpr ⟨aMem, keep a keyA⟩, keyA⟩

/-- Two keys in a row of two lists lie in one of them or one in each. -/
theorem precedes_append {l₁ l₂ : List α} :
    Precedes key (l₁ ++ l₂) x y ↔
      Precedes key l₁ x y ∨ Precedes key l₂ x y ∨ (HasKey key l₁ x ∧ HasKey key l₂ y) := by
  induction l₁ with
  | nil => simp [HasKey]
  | cons a rest ih =>
      rw [List.cons_append, precedes_cons, precedes_cons, ih, hasKey_append, hasKey_cons]
      tauto

theorem precedes_map {f : β → α} {l : List β} :
    Precedes key (l.map f) x y ↔ Precedes (key ∘ f) l x y := by
  induction l with
  | nil => simp
  | cons b rest ih =>
      rw [List.map_cons, precedes_cons, precedes_cons, ih]
      simp [HasKey]

theorem Precedes.mono {l₁ l₂ : List α} (sub : l₁.Sublist l₂) (precedes : Precedes key l₁ x y) :
    Precedes key l₂ x y := by
  obtain ⟨a, b, inFirst, keys⟩ := precedes
  exact ⟨a, b, inFirst.trans sub, keys⟩

/-! ## The first element of each key -/

/-- The first element with key `x` stands before every element with key `y`,
and there is one with key `y`. -/
def FirstPrecedes (key : α → κ) (l : List α) (x y : κ) : Prop :=
  ∃ pre a post, l = pre ++ a :: post ∧ key a = x ∧ (∀ b ∈ pre, key b ≠ y) ∧ HasKey key post y

/-- Elements with other keys do not matter. -/
theorem firstPrecedes_filter {p : α → Bool} {l : List α} (keepX : ∀ a, key a = x → p a = true)
    (keepY : ∀ a, key a = y → p a = true) :
    FirstPrecedes key (l.filter p) x y ↔ FirstPrecedes key l x y := by
  constructor
  · rintro ⟨pre, a, post, split, keyA, notBefore, after⟩
    obtain ⟨l₁, l₂, rfl, filterPre, filterPost⟩ := List.filter_eq_append_iff.mp split
    obtain ⟨l₃, l₄, rfl, dropped, _, filterRest⟩ := List.filter_eq_cons_iff.mp filterPost
    refine ⟨l₁ ++ l₃, a, l₄, by simp, keyA, ?_, ?_⟩
    · intro b bMem keyB
      rcases List.mem_append.mp bMem with inFirst | inSecond
      · exact notBefore b (filterPre ▸ List.mem_filter.mpr ⟨inFirst, keepY b keyB⟩) keyB
      · exact absurd (keepY b keyB) (dropped b inSecond)
    · rw [← filterRest] at after
      exact (hasKey_filter_of keepY).mp after
  · rintro ⟨pre, a, post, rfl, keyA, notBefore, after⟩
    refine ⟨pre.filter p, a, post.filter p, ?_, keyA, ?_, ?_⟩
    · simp [keepX a keyA]
    · intro b bMem
      exact notBefore b (List.mem_filter.mp bMem).1
    · exact (hasKey_filter_of keepY).mpr after

theorem firstPrecedes_cons_of_ne {a : α} {l : List α} (notX : key a ≠ x) (notY : key a ≠ y) :
    FirstPrecedes key (a :: l) x y ↔ FirstPrecedes key l x y := by
  constructor
  · rintro ⟨pre, b, post, split, keyB, notBefore, after⟩
    cases pre with
    | nil =>
        cases split
        exact absurd keyB notX
    | cons head tail =>
        cases split
        exact ⟨tail, b, post, rfl, keyB, fun c cMem => notBefore c (List.mem_cons_of_mem _ cMem),
          after⟩
  · rintro ⟨pre, b, post, rfl, keyB, notBefore, after⟩
    exact ⟨a :: pre, b, post, rfl, keyB, by simpa [notY] using notBefore, after⟩

section FirstByKey

variable [DecidableEq κ]

/-- The list without the elements that have the key of an earlier one. -/
def firstByKey (key : α → κ) (l : List α) : List α :=
  l.eraseDupsBy fun b a => key b == key a

@[simp]
theorem firstByKey_nil : firstByKey key [] = [] := rfl

theorem firstByKey_cons (a : α) (l : List α) :
    firstByKey key (a :: l) = a :: firstByKey key (l.filter fun b => key b ≠ key a) := by
  simp [firstByKey, List.eraseDupsBy_cons]

/-- Induction along the removal of equal keys. -/
theorem firstByKey_induction {P : List α → Prop} (key : α → κ) (nil : P [])
    (cons : ∀ a l, P (l.filter fun b => key b ≠ key a) → P (a :: l)) (l : List α) : P l := by
  induction h : l.length using Nat.strong_induction_on generalizing l with
  | _ n ih =>
      cases l with
      | nil => exact nil
      | cons a rest =>
          refine cons a rest (ih _ ?_ _ rfl)
          rw [← h, List.length_cons, Nat.lt_succ_iff]
          exact List.length_filter_le _ _

theorem firstByKey_sublist (l : List α) : (firstByKey key l).Sublist l := by
  induction l using firstByKey_induction key with
  | nil => simp
  | cons a rest ih =>
      rw [firstByKey_cons]
      exact (ih.trans List.filter_sublist).cons_cons a

/-- Exactly one element of each key is kept. -/
theorem firstByKey_map_nodup (l : List α) : ((firstByKey key l).map key).Nodup := by
  induction l using firstByKey_induction key with
  | nil => simp
  | cons a rest ih =>
      rw [firstByKey_cons, List.map_cons, List.nodup_cons]
      refine ⟨?_, ih⟩
      intro repeated
      obtain ⟨b, bMem, equal⟩ := List.mem_map.mp repeated
      have inFilter := (firstByKey_sublist _).subset bMem
      simp [equal] at inFilter

theorem hasKey_firstByKey (l : List α) : HasKey key (firstByKey key l) x ↔ HasKey key l x := by
  induction l using firstByKey_induction key with
  | nil => simp
  | cons a rest ih =>
      rw [firstByKey_cons, hasKey_cons, ih, hasKey_cons]
      by_cases own : key a = x
      · simp [own]
      · rw [hasKey_filter_of fun b keyB => by simpa [keyB] using Ne.symm own]

/-- Among the first elements of each key, the order is that of the first
occurrences. -/
theorem precedes_firstByKey {l : List α} (different : x ≠ y) :
    Precedes key (firstByKey key l) x y ↔ FirstPrecedes key l x y := by
  induction l using firstByKey_induction key with
  | nil => simp [FirstPrecedes]
  | cons a rest ih =>
      have noOwn : ∀ z, key a = z → ¬ HasKey key (rest.filter fun b => key b ≠ key a) z := by
        rintro z rfl ⟨b, bMem, keyB⟩
        simp [keyB] at bMem
      rw [firstByKey_cons, precedes_cons, hasKey_firstByKey, ih]
      by_cases isX : key a = x
      · have fromY : HasKey key (rest.filter fun b => key b ≠ key a) y ↔ HasKey key rest y :=
          hasKey_filter_of fun b keyB => by simpa [keyB, isX] using different.symm
        rw [fromY]
        constructor
        · rintro (⟨_, after⟩ | ⟨pre, b, post, split, keyB, _⟩)
          · exact ⟨[], a, rest, rfl, isX, by simp, after⟩
          · exact absurd ⟨b, split ▸ List.mem_append_cons_self, keyB⟩ (noOwn x isX)
        · rintro ⟨pre, b, post, split, keyB, _, c, cMem, keyC⟩
          refine Or.inl ⟨isX, c, ?_, keyC⟩
          cases pre with
          | nil =>
              cases split
              exact cMem
          | cons head tail =>
              cases split
              simp [cMem]
      · by_cases isY : key a = y
        · constructor
          · rintro (⟨keyA, _⟩ | ⟨pre, b, post, split, _, _, c, cMem, keyC⟩)
            · exact absurd keyA isX
            · refine absurd ⟨c, ?_, keyC⟩ (noOwn y isY)
              rw [split]
              exact List.mem_append_right _ (List.mem_cons_of_mem _ cMem)
          · rintro ⟨pre, b, post, split, keyB, notBefore, _⟩
            cases pre with
            | nil =>
                cases split
                exact absurd keyB isX
            | cons head tail =>
                cases split
                exact absurd isY (notBefore a List.mem_cons_self)
        · rw [firstPrecedes_cons_of_ne isX isY, firstPrecedes_filter
            (fun b keyB => by simpa [keyB] using Ne.symm isX)
            (fun b keyB => by simpa [keyB] using Ne.symm isY)]
          simp [isX]

theorem firstByKey_map {f : β → α} (l : List β) :
    firstByKey key (l.map f) = (firstByKey (key ∘ f) l).map f := by
  induction l using firstByKey_induction (key ∘ f) with
  | nil => simp
  | cons b rest ih =>
      rw [List.map_cons, firstByKey_cons, firstByKey_cons, List.map_cons, ← ih, List.filter_map]
      rfl

end FirstByKey

end Hecaton.Library
