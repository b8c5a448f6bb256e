import Hecaton.Library.CommonParts
import Hecaton.Pass2.Pairs

/-!
# The similarity of two statements

`compare` deletes longest common parts of two texts until they share none of three
characters, and counts what it deletes.  The share of the first text that is deleted is the
probability of a pair.
-/

namespace Hecaton.Pass2

open Hecaton.Clang Hecaton.Library

/-- The value of `delete_longest_common_substr` and the strings it leaves. -/
def deleteLongestCommonSubstrValue (str1 str2 : List Char) : Int × List Char × List Char :=
  match deleteLongestCommonSubstr str1 str2 with
  | some (sublen, str1, str2) => (sublen, str1, str2)
  | none => (-1, str1, str2)

/-- `compare`: the score and the strings it leaves; `none` when the calls have not come to
an end. -/
def compareCalls : Nat → List Char → List Char → Nat → Option (Nat × List Char × List Char)
  | 0, _, _, _ => none
  | calls + 1, str1, str2, score =>
      match deleteLongestCommonSubstr str1 str2 with
      | some (subLen, str1, str2) => compareCalls calls str1 str2 (score + subLen)
      | none => some (score, str1, str2)

/-! ## Finding a part -/

theorem indexOfSub_eq_some {sub str : List Char} {i found : Nat}
    (isFound : indexOfSub sub i str = some found) :
    ∃ before after, str = before ++ sub ++ after ∧ found = i + before.length := by
  induction str generalizing i with
  | nil =>
      rw [indexOfSub] at isFound
      split at isFound
      · rename_i isEmpty
        cases isFound
        exact ⟨[], [], by simpa using isEmpty, rfl⟩
      · cases isFound
  | cons ch rest ih =>
      rw [indexOfSub] at isFound
      split at isFound
      · rename_i isPrefix
        cases isFound
        obtain ⟨after, split⟩ := List.isPrefixOf_iff_prefix.mp isPrefix
        exact ⟨[], after, by simp [split], rfl⟩
      · obtain ⟨before, after, rfl, rfl⟩ := ih isFound
        exact ⟨ch :: before, after, by simp, by simp; omega⟩

theorem indexOfSub_eq_none {sub str : List Char} {i : Nat} :
    indexOfSub sub i str = none ↔ ¬ sub <:+: str := by
  induction str generalizing i with
  | nil => simp [indexOfSub]
  | cons ch rest ih =>
      rw [indexOfSub, List.infix_cons_iff, ← List.isPrefixOf_iff_prefix]
      split
      · rename_i isPrefix
        simp [isPrefix]
      · rename_i notPrefix
        simp [notPrefix, ih]

/-- Erasing what was found joins the pieces around it. -/
theorem eraseSub_append (before part after : List Char) :
    eraseSub (before ++ part ++ after) before.length part.length = before ++ after := by
  simp [eraseSub, List.drop_append]

/-! ## The places it looks at -/

/-- The places in the order of the two loops: the start and the length of a part. -/
def partPlaces (len : Nat) : List (Nat × Nat) :=
  (List.range' 3 (len - 2)).reverse.flatMap fun sublen =>
    (List.range (len - sublen + 1)).map fun i => (i, sublen)

theorem mem_partPlaces {len i sublen : Nat} :
    (i, sublen) ∈ partPlaces len ↔ 3 ≤ sublen ∧ i + sublen ≤ len := by
  simp only [partPlaces, List.mem_flatMap, List.mem_reverse, List.mem_range'_1, List.mem_map,
    List.mem_range, Prod.mk.injEq]
  constructor
  · rintro ⟨size, ⟨least, small⟩, start, inside, rfl, rfl⟩
    omega
  · rintro ⟨least, inside⟩
    exact ⟨sublen, by omega, i, by omega, rfl, rfl⟩

/-- Longer parts come first. -/
theorem partPlaces_pairwise (len : Nat) :
    (partPlaces len).Pairwise fun first second => second.2 ≤ first.2 := by
  rw [partPlaces, List.pairwise_flatMap]
  constructor
  · intro sublen _
    rw [List.pairwise_map]
    exact List.pairwise_of_forall fun _ _ => Nat.le_refl _
  · rw [List.pairwise_reverse]
    refine List.Pairwise.imp ?_ (List.pairwise_lt_range' 1)
    intro shorter longer less place placeMem place' placeMem'
    obtain ⟨_, _, rfl⟩ := List.mem_map.mp placeMem
    obtain ⟨_, _, rfl⟩ := List.mem_map.mp placeMem'
    exact Nat.le_of_lt less

/-- A part of the text stands at one of the places. -/
theorem exists_place_of_infix {part str : List Char} (least : 3 ≤ part.length)
    (isPart : part <:+: str) :
    ∃ i, (i, part.length) ∈ partPlaces str.length ∧ (str.drop i).take part.length = part := by
  obtain ⟨before, after, rfl⟩ := isPart
  refine ⟨before.length, mem_partPlaces.mpr ⟨least, ?_⟩, ?_⟩
  · simp only [List.length_append]
    omega
  · simp

/-- The text splits at each of the places. -/
theorem split_at_place {str : List Char} {i sublen : Nat}
    (isPlace : (i, sublen) ∈ partPlaces str.length) :
    ∃ before part after, str = before ++ part ++ after ∧ before.length = i ∧
      part.length = sublen ∧ (str.drop i).take sublen = part := by
  have inside := (mem_partPlaces.mp isPlace).2
  refine ⟨str.take i, (str.drop i).take sublen, (str.drop i).drop sublen, ?_, ?_, ?_, rfl⟩
  · rw [List.append_assoc, List.take_append_drop, List.take_append_drop]
  · rw [List.length_take]
    omega
  · rw [List.length_take, List.length_drop]
    omega

/-! ## One deletion -/

theorem deleteLongestCommonSubstr_eq (str1 str2 : List Char) :
    deleteLongestCommonSubstr str1 str2 =
      (partPlaces str1.length).findSome? fun place =>
        (indexOfSub ((str1.drop place.1).take place.2) 0 str2).map fun found =>
          (place.2, eraseSub str1 place.1 place.2, eraseSub str2 found place.2) :=
  rfl

/-- It finds nothing exactly when the texts share no part of three characters. -/
theorem deleteLongestCommonSubstr_eq_none {str1 str2 : List Char} :
    deleteLongestCommonSubstr str1 str2 = none ↔ NoCommonPart 3 str1 str2 := by
  rw [deleteLongestCommonSubstr_eq, List.findSome?_eq_none_iff]
  simp only [Option.map_eq_none_iff, indexOfSub_eq_none]
  constructor
  · intro nowhere part inFirst inSecond
    by_contra long
    obtain ⟨i, isPlace, isPart⟩ := exists_place_of_infix (Nat.not_lt.mp long) inFirst
    apply nowhere _ isPlace
    rwa [isPart]
  · rintro noneShared ⟨i, sublen⟩ isPlace inSecond
    obtain ⟨before, part, after, split, _, size, isPart⟩ := split_at_place isPlace
    rw [isPart] at inSecond
    have short := noneShared part ⟨before, after, split.symm⟩ inSecond
    have least := (mem_partPlaces.mp isPlace).1
    omega

/-- What it deletes is a longest part that the texts share. -/
theorem deleteLongestCommonSubstr_longest {str1 str2 left1 left2 : List Char} {sublen : Nat}
    (deleted : deleteLongestCommonSubstr str1 str2 = some (sublen, left1, left2)) :
    LongestRemoved 3 str1 str2 sublen left1 left2 := by
  rw [deleteLongestCommonSubstr_eq, List.findSome?_eq_some_iff] at deleted
  obtain ⟨earlier, ⟨i, size⟩, later, places, atPlace, notEarlier⟩ := deleted
  obtain ⟨found, isFound, isResult⟩ := Option.map_eq_some_iff.mp atPlace
  simp only [Prod.mk.injEq] at isResult
  obtain ⟨rfl, rfl, rfl⟩ := isResult
  have isPlace : (i, size) ∈ partPlaces str1.length := by
    rw [places]
    exact List.mem_append_cons_self
  obtain ⟨before, part, after, split, rfl, rfl, isPart⟩ := split_at_place isPlace
  rw [isPart] at isFound
  obtain ⟨before', after', split', foundAt⟩ := indexOfSub_eq_some isFound
  rw [Nat.zero_add] at foundAt
  subst foundAt
  have longest : ∀ other, other <:+: str1 → other <:+: str2 → other.length ≤ part.length := by
    intro other inFirst inSecond
    by_contra longer
    have least := (mem_partPlaces.mp isPlace).1
    obtain ⟨j, otherPlace, isOther⟩ := exists_place_of_infix (by omega) inFirst
    rw [places] at otherPlace
    rcases List.mem_append.mp otherPlace with isEarlier | notBefore
    · -- The loops would have stopped there.
      have passed := notEarlier _ isEarlier
      rw [Option.map_eq_none_iff, indexOfSub_eq_none, isOther] at passed
      exact passed inSecond
    · have order := partPlaces_pairwise str1.length
      rw [places, List.pairwise_append] at order
      rcases List.mem_cons.mp notBefore with same | isLater
      · exact longer (Nat.le_of_eq (Prod.mk.inj same).2)
      · exact longer (List.rel_of_pairwise_cons order.2.1 isLater)
  subst split split'
  rw [eraseSub_append, eraseSub_append]
  exact .cut (mem_partPlaces.mp isPlace).1 longest

/-! ## All deletions -/

/-- One more call than the first text has characters is enough, and so are as many rounds
of `compare` as it has. -/
theorem compare_accounted (str1 str2 : List Char) :
    ∃ k left1 left2, Accounted 3 str1 str2 k left1 left2 ∧
      (∀ calls score, str1.length < calls →
        compareCalls calls str1 str2 score = some (score + k, left1, left2)) ∧
      ∀ rounds score, str1.length ≤ rounds → compare rounds str1 str2 score = score + k := by
  induction size : str1.length using Nat.strong_induction_on generalizing str1 str2 with
  | _ len ih =>
      subst size
      cases deleted : deleteLongestCommonSubstr str1 str2 with
      | none =>
          refine ⟨0, str1, str2, .done (deleteLongestCommonSubstr_eq_none.mp deleted), ?_, ?_⟩
          · intro calls score enough
            cases calls with
            | zero => simp at enough
            | succ calls => rw [compareCalls, deleted, Nat.add_zero]
          · intro rounds score _
            cases rounds with
            | zero => rfl
            | succ rounds => rw [compare, deleted, Nat.add_zero]
      | some result =>
          obtain ⟨sublen, next1, next2⟩ := result
          have removed := deleteLongestCommonSubstr_longest deleted
          have shorter := removed.length_first
          have least := removed.least_le
          obtain ⟨k, left1, left2, accounted, ofCalls, ofRounds⟩ :=
            ih next1.length (by omega) next1 next2 rfl
          refine ⟨sublen + k, left1, left2, .step removed accounted, ?_, ?_⟩
          · intro calls score enough
            cases calls with
            | zero => simp at enough
            | succ calls =>
                rw [compareCalls, deleted, ← Nat.add_assoc]
                exact ofCalls calls (score + sublen) (by omega)
          · intro rounds score enough
            cases rounds with
            | zero => omega
            | succ rounds =>
                rw [compare, deleted, ← Nat.add_assoc]
                exact ofRounds rounds (score + sublen) (by omega)

/-! ## The share that is deleted -/

theorem share_le {k len : Nat} (inside : k ≤ len) : k * 100 / len ≤ 100 := by
  apply Nat.div_le_of_le_mul
  exact Nat.mul_le_mul_right 100 inside

theorem share_eq_iff {k len : Nat} (inside : k ≤ len) (nonempty : 0 < len) :
    k * 100 / len = 100 ↔ k = len := by
  constructor
  · intro whole
    have most := Nat.div_mul_le_self (k * 100) len
    rw [whole] at most
    omega
  · rintro rfl
    exact Nat.mul_div_cancel_left 100 nonempty

/-- The score counts what is deleted from each text, and no part of three characters is
left to both.  The probability of a pair is at most 100, and 100 exactly when nothing of the
first text is left, as for a text of three characters that the second one contains. -/
theorem compareCalls_accounts (str1 str2 : List Char) :
    ∃ k left1 left2,
      (∀ calls, str1.length < calls → compareCalls calls str1 str2 0 = some (k, left1, left2)) ∧
      left1.length + k = str1.length ∧ left2.length + k = str2.length ∧
      NoCommonPart 3 left1 left2 ∧ k ≤ min str1.length str2.length ∧
      ∀ stmt1 stmt2 : Stmt, stmt1.info.printed.toList = str1 → stmt2.info.printed.toList = str2 →
        str1 ≠ [] →
        pairEvaluation stmt1 stmt2 ≤ 100 ∧
        (pairEvaluation stmt1 stmt2 = 100 ↔ left1 = []) ∧
        (3 ≤ str1.length → str1 <:+: str2 → pairEvaluation stmt1 stmt2 = 100) := by
  obtain ⟨k, left1, left2, accounted, ofCalls, ofRounds⟩ := compare_accounted str1 str2
  have first := accounted.length_first
  have second := accounted.length_second
  refine ⟨k, left1, left2, ?_, first, second, accounted.noCommonPart, by omega, ?_⟩
  · intro calls enough
    rw [ofCalls calls 0 enough, Nat.zero_add]
  · rintro stmt1 stmt2 rfl rfl nonempty
    have evaluated : pairEvaluation stmt1 stmt2 = k * 100 / stmt1.info.printed.toList.length := by
      rw [pairEvaluation, ofRounds _ 0 (Nat.le_refl _), Nat.zero_add]
    have inside : k ≤ stmt1.info.printed.toList.length := by omega
    have consumed : pairEvaluation stmt1 stmt2 = 100 ↔ left1 = [] := by
      rw [evaluated, share_eq_iff inside (List.length_pos_of_ne_nil nonempty),
        ← List.length_eq_zero_iff]
      omega
    refine ⟨?_, consumed, ?_⟩
    · rw [evaluated]
      exact share_le inside
    · intro long isPart
      exact consumed.mpr (accounted.left_eq_nil long isPart)

end Hecaton.Pass2
