import Hecaton.Pass1.BlockText
import Mathlib.Data.List.TakeWhile

/-!
# Reads around an occurrence

`is_valid_variable` reads the character before an occurrence of the name, more of them when
blanks stand there, and one more behind a `>`.  An index is counted from the beginning of the
line; the unsigned value that the source forms in front of the line is a negative one here.
-/

namespace Hecaton.Pass1.BlockText

open Hecaton.Library

/-! ## What is read -/

/-- The indices that the `while` loop of `is_valid_variable` reads. -/
def skipBlanksReads (line : List Char) : Nat → Char → List Int
  | 0, _ => []
  | pos + 1, beforeCh =>
      if beforeCh = ' ' then
        if pos = 0 then []
        else ((pos : Int) - 1) :: skipBlanksReads line pos (line.getD (pos - 1) '\x00')
      else []

/-- The indices that `is_valid_variable` reads.  No other test refuses a `>`, so the character
before it is read whenever it is one. -/
def isValidVariableReads (outside : Nat → Char) (line name : List Char) (pos : Nat) : List Int :=
  let beforeCh := charBefore outside line pos 1
  let (posLeft, beforeChLeft) := skipBlanks line pos beforeCh
  ((pos : Int) - 1) :: ((pos + name.length : Nat) : Int) ::
    (skipBlanksReads line pos beforeCh ++
      if beforeChLeft = '>' then [(posLeft : Int) - 2] else [])

/-- An index that is read, with the length of the line at that moment. -/
structure LineRead where
  length : Nat
  index : Int

/-- The index is between 0 and the length. -/
def LineRead.InLine (read : LineRead) : Prop := 0 ≤ read.index ∧ read.index ≤ read.length

/-- The line behind one round of the inner loop of `replace_variable`. -/
def replacedAt (outside : Nat → Nat → Char) (oldName newName line : List Char) (foundPos : Nat) :
    List Char :=
  if isValidVariable (outside foundPos) line oldName foundPos then
    line.take foundPos ++ newName ++ line.drop (foundPos + oldName.length)
  else line

/-- What is read in the first rounds of the inner loop of `replace_variable`. -/
def replaceLoopReads (outside : Nat → Nat → Char) (oldName newName : List Char) :
    Nat → List Char → Option Nat → List LineRead
  | _, _, none => []
  | 0, _, some _ => []
  | steps + 1, line, some foundPos =>
      (isValidVariableReads (outside foundPos) line oldName foundPos).map
          (fun index => { length := line.length, index := index }) ++
        let line := replacedAt outside oldName newName line foundPos
        replaceLoopReads outside oldName newName steps line
          (findFrom oldName line (foundPos + 1))

/-- What is read in the first rounds of `replace_variable` on one line. -/
def replaceLineReads (outside : Nat → Nat → Char) (steps : Nat) (line oldName newName : List Char) :
    List LineRead :=
  if isMarked line then []
  else replaceLoopReads outside oldName newName steps line (findFrom oldName line 0)

/-- The rounds whose reads are taken are those of `replace_variable`. -/
theorem replaceLoop_succ (outside : Nat → Nat → Char) (oldName newName line : List Char)
    (steps foundPos : Nat) :
    replaceLoop outside oldName newName (steps + 1) line (some foundPos) =
      replaceLoop outside oldName newName steps (replacedAt outside oldName newName line foundPos)
        (findFrom oldName (replacedAt outside oldName newName line foundPos) (foundPos + 1)) :=
  rfl

/-! ## What stands before an occurrence -/

/-- Something stands before the occurrence, and not only a `>` with blanks behind it. -/
def hasRoom : List Char → Bool
  | [] => false
  | c :: rest => !(c == '>' && rest.all (· == ' '))

theorem hasRoom_append {before : List Char} (room : hasRoom before = true) (more : List Char) :
    hasRoom (before ++ more) = true := by
  cases before with
  | nil => exact absurd room Bool.false_ne_true
  | cons c rest =>
      rw [List.cons_append, hasRoom, List.all_append]
      rw [hasRoom] at room
      cases isAngle : c == '>' with
      | false => rfl
      | true =>
          rw [isAngle, Bool.true_and, Bool.not_eq_true'] at room
          rw [room]
          rfl

/-- Going back over the blanks from a place without room, one comes to a `>` at the beginning
of the line. -/
theorem dropWhile_reverse_eq_iff (c : Char) (rest : List Char) :
    (c :: rest).reverse.dropWhile (· == ' ') = ['>'] ↔ hasRoom (c :: rest) = false := by
  rw [List.reverse_cons, List.dropWhile_append, hasRoom, Bool.not_eq_false', Bool.and_eq_true,
    beq_iff_eq, List.all_eq_true]
  cases behind : rest.reverse.dropWhile (· == ' ') with
  | nil =>
      have blanks : ∀ d ∈ rest, (d == ' ') = true := by
        simpa using List.dropWhile_eq_nil_iff.mp behind
      rw [List.isEmpty_nil, if_pos rfl]
      constructor
      · intro isAngle
        refine ⟨?_, blanks⟩
        by_cases blank : (c == ' ') = true
        · rw [List.dropWhile_cons_of_pos (p := (· == ' ')) blank] at isAngle
          cases isAngle
        · rw [List.dropWhile_cons_of_neg (p := (· == ' ')) blank] at isAngle
          exact List.head_eq_of_cons_eq isAngle
      · rintro ⟨rfl, _⟩
        rfl
  | cons d more =>
      have notBlanks : ¬ ∀ d ∈ rest, (d == ' ') = true := by
        intro blanks
        have isNil : rest.reverse.dropWhile (· == ' ') = [] :=
          List.dropWhile_eq_nil_iff.mpr (by simpa using blanks)
        rw [behind] at isNil
        cases isNil
      refine iff_of_false ?_ fun both => notBlanks both.2
      rw [List.isEmpty_cons, if_neg Bool.false_ne_true]
      simp

/-! ## The reads at one occurrence -/

theorem skipBlanksReads_bounds (line : List Char) (pos : Nat) (beforeCh : Char) :
    ∀ index ∈ skipBlanksReads line pos beforeCh, 0 ≤ index ∧ index < pos := by
  induction pos generalizing beforeCh with
  | zero => simp [skipBlanksReads]
  | succ pos ih =>
      intro index indexMem
      rw [skipBlanksReads] at indexMem
      split at indexMem
      · split at indexMem
        · simp at indexMem
        · rcases List.mem_cons.mp indexMem with rfl | later
          · omega
          · have bounds := ih _ index later
            omega
      · simp at indexMem

/-- Where `skipBlanks` stops behind the first character of a line. -/
theorem skipBlanks_of_split (outside : Nat → Char) (c : Char) (rest behind : List Char) :
    skipBlanks ((c :: rest) ++ behind) (c :: rest).length
        (charBefore outside ((c :: rest) ++ behind) (c :: rest).length 1) =
      match (c :: rest).reverse.dropWhile (· == ' ') with
      | [] => (0, ';')
      | beforeCh :: more => (more.length + 1, beforeCh) := by
  obtain ⟨front, d, isReverse⟩ : ∃ front d, c :: rest = (d :: front).reverse := by
    cases reversed : (c :: rest).reverse with
    | nil => simp at reversed
    | cons d front => exact ⟨front, d, by rw [← reversed, List.reverse_reverse]⟩
  have beforeCh : charBefore outside ((d :: front).reverse ++ behind) (d :: front).reverse.length 1 =
      d := by
    simp [charBefore, List.getD]
  rewrite [isReverse, beforeCh, List.length_reverse, List.length_cons, skipBlanks_eq,
    List.reverse_reverse]
  cases (d :: front).dropWhile (· == ' ') <;> rfl

theorem of_mem_isValidVariableReads {outside : Nat → Char} {line name : List Char} {pos : Nat}
    {index : Int} (indexMem : index ∈ isValidVariableReads outside line name pos) :
    index = (pos : Int) - 1 ∨ index = ((pos + name.length : Nat) : Int) ∨
      (0 ≤ index ∧ index < pos) ∨
      ((skipBlanks line pos (charBefore outside line pos 1)).2 = '>' ∧
        index = ((skipBlanks line pos (charBefore outside line pos 1)).1 : Int) - 2) := by
  rw [isValidVariableReads] at indexMem
  rcases List.mem_cons.mp indexMem with isBefore | indexMem
  · exact Or.inl isBefore
  · rcases List.mem_cons.mp indexMem with isAfter | indexMem
    · exact Or.inr (Or.inl isAfter)
    · rcases List.mem_append.mp indexMem with inBlanks | behindAngle
      · exact Or.inr (Or.inr (Or.inl (skipBlanksReads_bounds _ _ _ index inBlanks)))
      · split at behindAngle
        · rename_i isAngle
          exact Or.inr (Or.inr (Or.inr ⟨isAngle, List.mem_singleton.mp behindAngle⟩))
        · simp at behindAngle

/-- With room before the occurrence all reads stay inside the line. -/
theorem isValidVariableReads_inLine (outside : Nat → Char) {before : List Char}
    (room : hasRoom before = true) (name after : List Char) :
    ∀ index ∈ isValidVariableReads outside (before ++ (name ++ after)) name before.length,
      0 ≤ index ∧ index ≤ (before ++ (name ++ after)).length := by
  cases before with
  | nil => exact absurd room Bool.false_ne_true
  | cons c rest =>
      have notAngle : (c :: rest).reverse.dropWhile (· == ' ') ≠ ['>'] := by
        rw [ne_eq, dropWhile_reverse_eq_iff, room]
        simp
      have shorter := (List.dropWhile_sublist (l := (c :: rest).reverse) (· == ' ')).length_le
      rw [List.length_reverse, List.length_cons] at shorter
      have length : (c :: rest ++ (name ++ after)).length =
          rest.length + 1 + name.length + after.length := by
        simp only [List.length_append, List.length_cons]
        omega
      intro index indexMem
      have cases := of_mem_isValidVariableReads indexMem
      rw [skipBlanks_of_split, List.length_cons] at cases
      rw [length]
      cases stop : (c :: rest).reverse.dropWhile (· == ' ') with
      | nil =>
          rw [stop] at cases
          rcases cases with isBefore | isAfter | inBlanks | ⟨isAngle, _⟩
          · omega
          · omega
          · omega
          · exact absurd isAngle (by decide)
      | cons beforeCh more =>
          rw [stop] at cases shorter
          rw [List.length_cons] at shorter
          rcases cases with isBefore | isAfter | inBlanks | ⟨isAngle, behindAngle⟩
          · omega
          · omega
          · omega
          · have moreNonempty : more ≠ [] := by
              rintro rfl
              exact notAngle (by rw [stop, show beforeCh = '>' from isAngle])
            have positive := List.length_pos_of_ne_nil moreNonempty
            dsimp only at behindAngle
            omega

/-- Without room some read is in front of the line. -/
theorem isValidVariableReads_outside (outside : Nat → Char) {before : List Char}
    (noRoom : hasRoom before = false) (name after : List Char) :
    ∃ index ∈ isValidVariableReads outside (before ++ (name ++ after)) name before.length,
      index < 0 := by
  cases before with
  | nil => exact ⟨-1, List.mem_cons_self, by omega⟩
  | cons c rest =>
      refine ⟨-1, ?_, by omega⟩
      rw [isValidVariableReads, skipBlanks_of_split, (dropWhile_reverse_eq_iff c rest).mpr noRoom]
      simp

/-! ## The reads on a line -/

/-- Once there is room in front of the place that is found, no read of the loop leaves the line. -/
theorem replaceLoopReads_inLine (outside : Nat → Nat → Char) (oldName newName : List Char)
    {head : List Char} (room : hasRoom head = true) (steps : Nat) (tail : List Char)
    (foundPos : Option Nat)
    (found : ∀ pos ∈ foundPos, head.length ≤ pos ∧
      ∃ before behind, head ++ tail = before ++ (oldName ++ behind) ∧ before.length = pos) :
    ∀ read ∈ replaceLoopReads outside oldName newName steps (head ++ tail) foundPos,
      read.InLine := by
  induction steps generalizing tail foundPos with
  | zero => cases foundPos <;> simp [replaceLoopReads]
  | succ steps ih =>
      cases foundPos with
      | none => simp [replaceLoopReads]
      | some pos =>
          obtain ⟨behindHead, before, behind, split, isLength⟩ := found pos rfl
          -- The head is a part of what stands before the place, and no replacement reaches it.
          obtain ⟨more, rfl⟩ : head <+: before :=
            List.prefix_of_prefix_length_le (List.prefix_append head tail) ⟨_, split.symm⟩
              (isLength ▸ behindHead)
          intro read readMem
          rw [replaceLoopReads] at readMem
          rcases List.mem_append.mp readMem with here | later
          · obtain ⟨index, indexMem, rfl⟩ := List.mem_map.mp here
            rw [split, ← isLength] at indexMem
            have inside := isValidVariableReads_inLine (outside (head ++ more).length)
              (hasRoom_append room more) oldName behind index indexMem
            rw [← split] at inside
            exact inside
          · obtain ⟨tail', isReplaced⟩ : ∃ tail',
                replacedAt outside oldName newName (head ++ tail) pos = head ++ tail' := by
              rw [replacedAt]
              split
              · refine ⟨more ++ newName ++ (head ++ tail).drop (pos + oldName.length), ?_⟩
                rw [split, ← isLength, List.take_left]
                simp
              · exact ⟨tail, rfl⟩
            dsimp only at later
            rw [isReplaced] at later
            apply ih tail' _ _ read later
            intro next nextFound
            obtain ⟨notEarlier, before', behind', split', isLength'⟩ := split_of_findFrom nextFound
            exact ⟨by omega, before', behind', split', isLength'⟩

/-- Some occurrence of the old name in the line has no room. -/
def HasTightOccurrence (oldName line : List Char) : Prop :=
  ∃ before behind, line = before ++ (oldName ++ behind) ∧ hasRoom before = false

/-- On an unmarked line all reads stay inside exactly when every occurrence has room. -/
theorem replaceLineReads_inLine_iff (outside : Nat → Nat → Char) (line oldName newName : List Char) :
    (∀ steps, ∀ read ∈ replaceLineReads outside steps line oldName newName, read.InLine) ↔
      (isMarked line = false → ¬ HasTightOccurrence oldName line) := by
  constructor
  · rintro inLine notMarked ⟨before, behind, rfl, noRoom⟩
    -- The first occurrence stands at this one or before it, and has no room either.
    obtain ⟨pos, notLater, found⟩ := exists_findFrom_le oldName before behind (Nat.zero_le _)
    obtain ⟨_, first, rest, split, isLength⟩ := split_of_findFrom found
    have firstNoRoom : hasRoom first = false := by
      by_contra room
      rw [Bool.not_eq_false] at room
      obtain ⟨more, rfl⟩ : first <+: before :=
        List.prefix_of_prefix_length_le ⟨_, split.symm⟩ (List.prefix_append _ _)
          (isLength ▸ notLater)
      rw [hasRoom_append room more] at noRoom
      cases noRoom
    obtain ⟨index, indexMem, negative⟩ :=
      isValidVariableReads_outside (outside first.length) firstNoRoom oldName rest
    have isRead : ({ length := (before ++ (oldName ++ behind)).length, index := index } : LineRead) ∈
        replaceLineReads outside 1 (before ++ (oldName ++ behind)) oldName newName := by
      rw [replaceLineReads, notMarked, if_neg Bool.false_ne_true, found, replaceLoopReads]
      apply List.mem_append_left
      rw [← isLength, split]
      exact List.mem_map_of_mem indexMem
    exact absurd (inLine 1 _ isRead).1 (Int.not_le.mpr negative)
  · intro allRoom steps read readMem
    rw [replaceLineReads] at readMem
    cases marked : isMarked line with
    | true =>
        rw [marked, if_pos rfl] at readMem
        simp at readMem
    | false =>
        rw [marked, if_neg Bool.false_ne_true] at readMem
        cases found : findFrom oldName line 0 with
        | none =>
            rw [found, replaceLoopReads] at readMem
            simp at readMem
        | some pos =>
            obtain ⟨_, before, behind, rfl, rfl⟩ := split_of_findFrom found
            have room : hasRoom before = true := by
              by_contra noRoom
              rw [Bool.not_eq_true] at noRoom
              exact allRoom marked ⟨before, behind, rfl, noRoom⟩
            rw [found] at readMem
            apply replaceLoopReads_inLine outside oldName newName room steps _ _ _ read readMem
            intro place isPlace
            cases isPlace
            exact ⟨Nat.le_refl _, before, behind, rfl, rfl⟩

/-- While `replace_variable` runs on the lines of a text, all reads stay inside the lines exactly
when no unmarked line has an occurrence of the old name at its beginning, or one behind a `>`
at its beginning and nothing but blanks. -/
theorem replaceVariable_reads_inLine_iff (outside : Nat → Nat → Nat → Char)
    (text oldName newName : List Char) :
    (∀ (n : Nat) (line : List Char), (piecesOf '\n' text)[n]? = some line → ∀ steps,
      ∀ read ∈ replaceLineReads (outside n) steps line oldName newName, read.InLine) ↔
    ∀ line ∈ piecesOf '\n' text, isMarked line = false → ¬ HasTightOccurrence oldName line := by
  constructor
  · intro inLine line lineMem
    obtain ⟨n, isLine⟩ := List.mem_iff_getElem?.mp lineMem
    exact (replaceLineReads_inLine_iff (outside n) line oldName newName).mp (inLine n line isLine)
  · intro allRoom n line isLine
    exact (replaceLineReads_inLine_iff (outside n) line oldName newName).mpr
      (allRoom line (List.mem_of_getElem? isLine))

/-- In the line `rc = 0;` the character in front of the line is read. -/
theorem replaceVariable_reads_in_front :
    ¬ ∀ (n : Nat) (line : List Char), (piecesOf '\n' "rc = 0;".toList)[n]? = some line → ∀ steps,
      ∀ read ∈ replaceLineReads (fun _ _ => ';') steps line "rc".toList "rc_hecaton_1".toList,
        read.InLine := by
  intro inLine
  have isRead : ({ length := 7, index := -1 } : LineRead) ∈
      replaceLineReads (fun _ _ => ';') 1 "rc = 0;".toList "rc".toList "rc_hecaton_1".toList :=
    List.mem_cons_self
  exact absurd (inLine 0 "rc = 0;".toList (by decide) 1 _ isRead).1 (by decide)

end Hecaton.Pass1.BlockText
