import Mathlib.Data.List.Nodup
import Mathlib.Data.List.Pairwise

/-!
# Moving elements behind the others

A list whose elements stand for texts, from which the elements that pass a test are moved
behind the others.  The text stays the same exactly when nothing is overtaken.  A fact about
every element and what stands before it is put together from the parts of a list.
-/

namespace Hecaton.Library

universe u v

variable {α : Type u} {β : Type v}

/-! ## What stands before an element -/

/-- Every element is related to the list of the elements before it; `before` is what stands
before the list. -/
def ForallBefore (related : List α → α → Prop) (before : List α) : List α → Prop
  | [] => True
  | item :: rest => related before item ∧ ForallBefore related (before ++ [item]) rest

variable {related : List α → α → Prop}

theorem forallBefore_append {before first second : List α} :
    ForallBefore related before (first ++ second) ↔
      ForallBefore related before first ∧ ForallBefore related (before ++ first) second := by
  induction first generalizing before with
  | nil => simp [ForallBefore]
  | cons item rest ih => simp [ForallBefore, ih, and_assoc]

theorem forallBefore_iff {before items : List α} :
    ForallBefore related before items ↔
      ∀ front item rest, items = front ++ item :: rest → related (before ++ front) item := by
  induction items generalizing before with
  | nil => simp [ForallBefore]
  | cons first items ih =>
      rw [ForallBefore, ih]
      constructor
      · rintro ⟨atFirst, atRest⟩ front item rest split
        cases front with
        | nil =>
            cases split
            rwa [List.append_nil]
        | cons head tail =>
            cases split
            have atItem := atRest tail item rest rfl
            rwa [List.append_assoc] at atItem
      · intro all
        constructor
        · have atFirst := all [] first items rfl
          rwa [List.append_nil] at atFirst
        · rintro front item rest rfl
          rw [List.append_assoc]
          exact all (first :: front) item rest rfl

/-- What is related to one list of elements before stays related to another. -/
theorem ForallBefore.mono {before other items : List α}
    (extends_ : ∀ front item, related (before ++ front) item → related (other ++ front) item)
    (holds : ForallBefore related before items) : ForallBefore related other items := by
  rw [forallBefore_iff] at holds ⊢
  intro front item rest split
  exact extends_ front item (holds front item rest split)

/-! ## Moving behind -/

/-- The elements that pass the test are moved behind the others. -/
def movedBehind (moves : α → Bool) (items : List α) : List α :=
  items.filter (fun item => !moves item) ++ items.filter moves

/-- No element with a text stands behind one that is moved and stays itself. -/
def NothingOvertaken (moves : α → Bool) (text : α → List β) (items : List α) : Prop :=
  items.Pairwise fun first second =>
    moves first = true → moves second = false → text second = []

/-- If all texts are different, each belongs to one element. -/
theorem eq_of_mem_flatMap {text : α → List β} {items : List α}
    (distinct : (items.flatMap text).Nodup) {first second : α} {part : β}
    (firstMem : first ∈ items) (secondMem : second ∈ items) (inFirst : part ∈ text first)
    (inSecond : part ∈ text second) : first = second := by
  by_contra differ
  have symmetric : Std.Symm (Function.onFun List.Disjoint text) :=
    ⟨fun _ _ disjoint _ inOne inOther => disjoint inOther inOne⟩
  have apart : items.Pairwise (Function.onFun List.Disjoint text) :=
    (List.nodup_flatMap.mp distinct).2
  exact apart.forall firstMem secondMem differ inFirst inSecond

/-- If all texts are different and what is moved has one, the text of the whole stays the
same exactly when nothing is overtaken. -/
theorem flatMap_movedBehind_eq_iff {moves : α → Bool} {text : α → List β} {items : List α}
    (distinct : (items.flatMap text).Nodup)
    (hasText : ∀ item ∈ items, moves item = true → text item ≠ []) :
    (movedBehind moves items).flatMap text = items.flatMap text ↔
      NothingOvertaken moves text items := by
  rw [movedBehind, List.flatMap_append, NothingOvertaken]
  induction items with
  | nil => simp
  | cons first rest ih =>
      rw [List.flatMap_cons, List.nodup_append] at distinct
      obtain ⟨_, distinctRest, disjoint⟩ := distinct
      have ih := ih distinctRest fun item itemMem =>
        hasText item (List.mem_cons_of_mem first itemMem)
      rw [List.pairwise_cons, List.flatMap_cons]
      by_cases moved : moves first = true
      · rw [List.filter_cons_of_neg (by simp [moved]), List.filter_cons_of_pos moved,
          List.flatMap_cons]
        -- The text of `first` stands at the head, so nothing may come before it.
        have atHead : (rest.filter fun item => !moves item).flatMap text ++
              (text first ++ (rest.filter moves).flatMap text) =
            text first ++ rest.flatMap text →
            (rest.filter fun item => !moves item).flatMap text = [] := by
          intro same
          cases stays : (rest.filter fun item => !moves item).flatMap text with
          | nil => rfl
          | cons head tail =>
              cases ofFirst : text first with
              | nil => exact absurd ofFirst (hasText first List.mem_cons_self moved)
              | cons own others =>
                  rw [stays, ofFirst] at same
                  have sameHead : head = own := (List.cons.inj same).1
                  have headMem : head ∈ rest.flatMap text := by
                    have inStays : head ∈ (rest.filter fun item => !moves item).flatMap text := by
                      rw [stays]
                      exact List.mem_cons_self
                    obtain ⟨item, itemMem, inItem⟩ := List.mem_flatMap.mp inStays
                    exact List.mem_flatMap.mpr ⟨item, (List.mem_filter.mp itemMem).1, inItem⟩
                  have ownMem : own ∈ text first := by
                    rw [ofFirst]
                    exact List.mem_cons_self
                  exact absurd sameHead.symm (disjoint own ownMem head headMem)
        have staysEmpty : (rest.filter fun item => !moves item).flatMap text = [] ↔
            ∀ item ∈ rest, moves item = false → text item = [] := by
          simp only [List.flatMap_eq_nil_iff, List.mem_filter, Bool.not_eq_true', and_imp]
        constructor
        · intro same
          have empty := atHead same
          rw [empty, List.nil_append, List.append_cancel_left_eq] at same
          rw [empty, List.nil_append] at ih
          constructor
          · intro item itemMem _ stays
            exact staysEmpty.mp empty item itemMem stays
          · exact ih.mp same
        · rintro ⟨noneBehind, apart⟩
          have empty := staysEmpty.mpr fun item itemMem stays =>
            noneBehind item itemMem moved stays
          rw [empty, List.nil_append, List.append_cancel_left_eq]
          rw [empty, List.nil_append] at ih
          exact ih.mpr apart
      · rw [List.filter_cons_of_pos (by simp [moved]), List.filter_cons_of_neg moved,
          List.flatMap_cons, List.append_assoc, List.append_cancel_left_eq, ih]
        constructor
        · intro apart
          constructor
          · intro item _ isMoved
            exact absurd isMoved moved
          · exact apart
        · intro apart
          exact apart.2

end Hecaton.Library
