import Mathlib.Data.List.Infix

/-!
# Numbered names

A generated name is a base, a separator and a number.  When the separator ends
with an underscore, two numbered names that are equal have the same number,
whatever their bases.
-/

namespace Hecaton.Library

/-- The name `base`, separator, number. -/
def numbered (base separator : String) (n : Nat) : String := base ++ separator ++ toString n

/-- The name is no numbered name with this separator. -/
def Unnumbered (separator name : String) : Prop := ∀ base n, name ≠ numbered base separator n

/-- A name that is shorter than the separator is no numbered name. -/
theorem unnumbered_of_length_lt {separator name : String}
    (short : name.length < separator.length) : Unnumbered separator name := by
  rintro base n rfl
  simp only [numbered, String.length_append] at short
  omega

/-- What stands behind the last mark of a list is determined by the list. -/
theorem eq_of_append_mark {α : Type*} {mark : α} {first second tail tail' : List α}
    (notFirst : mark ∉ tail) (notSecond : mark ∉ tail')
    (same : first ++ mark :: tail = second ++ mark :: tail') : tail = tail' := by
  rcases List.append_eq_append_iff.mp same with ⟨more, _, behind⟩ | ⟨more, _, behind⟩
  · cases more with
    | nil => exact (List.cons.inj behind).2
    | cons head rest =>
        apply absurd _ notFirst
        rw [(List.cons.inj behind).2]
        exact List.mem_append_right _ List.mem_cons_self
  · cases more with
    | nil => exact (List.cons.inj behind).2.symm
    | cons head rest =>
        apply absurd _ notSecond
        rw [(List.cons.inj behind).2]
        exact List.mem_append_right _ List.mem_cons_self

/-- Equal numbered names have equal numbers. -/
theorem numbered_number_inj {base base' stem : String} {n m : Nat}
    (same : numbered base (stem ++ "_") n = numbered base' (stem ++ "_") m) : n = m := by
  have lists := congrArg String.toList same
  have marked : (base.toList ++ stem.toList) ++ '_' :: Nat.toDigits 10 n =
      (base'.toList ++ stem.toList) ++ '_' :: Nat.toDigits 10 m := by
    simpa [numbered, Nat.toString_eq_ofList_toDigits] using lists
  have digits := eq_of_append_mark Nat.underscore_not_in_toDigits Nat.underscore_not_in_toDigits
    marked
  have read := congrArg (fun digits => Nat.ofDigitChars 10 digits 0) digits
  simpa using read

end Hecaton.Library
