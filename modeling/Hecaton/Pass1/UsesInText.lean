import Hecaton.Library.Comments
import Hecaton.Pass1.BlockText

/-!
# The uses of a variable in the text of a block

Which occurrences of a name are uses of the variable is a matter of the tokens of the
text; `replace_variable` decides it by a few characters of the line.
-/

namespace Hecaton.Pass1.BlockText

open Hecaton.Library

/-! ## Uses -/

/-- The last token of a text, written backwards without comments, is `.` or `->`. -/
def endsInAccess : List Char → Bool
  | '.' :: more => decide ((more.takeWhile (· == '.')).length % 3 ≠ 2)
  | '>' :: more => decide ((more.takeWhile (· == '-')).length % 2 = 1)
  | _ => false

/-- The name stands behind `.` or `->`, with any white space and comments between. -/
def isMember (before : List Char) : Bool :=
  endsInAccess ((Reading.code.uncommented id before).reverse.dropWhile isBlank)

/-- The name is the prefix of a literal, as in `L"text"`. -/
def isLiteralPrefix (name rest : List Char) : Bool :=
  ["L", "u", "U", "u8"].contains (String.ofList name) &&
    (rest.drop name.length).head?.any fun c => c == '"' || c == '\''

/-- The name is a token of its own. -/
def isWholeName (name before rest : List Char) : Bool :=
  before.getLast?.all (fun c => !isIdentChar c) &&
    (rest.drop name.length).head?.all (fun c => !isIdentChar c)

/-- The name stands there as a use of the variable.  Which names a declaration introduces is
for the grammar to say. -/
def isUse (declares : List Char → List Char → Bool) (name before rest : List Char) : Bool :=
  isWholeName name before rest && (Reading.code.after id before).isCode && !isMember before &&
    !isLiteralPrefix name rest && !declares before rest

/-- The text with every use renamed. -/
def renameUses (declares : List Char → List Char → Bool) (oldName newName text : List Char) :
    List Char :=
  replaceChosen (isUse declares oldName) oldName newName 0 [] text

theorem isWholeName_iff (name before rest : List Char) :
    isWholeName name before rest = true ↔ StandsWhole isIdentChar name before rest := by
  rw [isWholeName, Bool.and_eq_true, Option.all_eq_true, Option.all_eq_true]
  constructor
  · rintro ⟨notBefore, notBehind⟩
    exact ⟨fun c cMem => by simpa using notBefore c cMem,
      fun c cMem => by simpa using notBehind c cMem⟩
  · intro whole
    exact ⟨fun c cMem => by simpa using whole.notBefore c cMem,
      fun c cMem => by simpa using whole.notBehind c cMem⟩

theorem standsWhole_of_isUse {declares : List Char → List Char → Bool} {name before rest : List Char}
    (use : isUse declares name before rest = true) : StandsWhole isIdentChar name before rest := by
  simp only [isUse, Bool.and_eq_true] at use
  exact (isWholeName_iff name before rest).mp use.1.1.1.1

/-! ## The line of a place -/

/-- What stands before a place on its line. -/
def lineBefore (before : List Char) : List Char :=
  (before.reverse.takeWhile (· != '\n')).reverse

/-- What stands behind a place on its line. -/
def lineBehind (rest : List Char) : List Char := rest.takeWhile (· != '\n')

/-- The pass takes the place in the text for the variable. -/
def chosenInText (outside : Nat → Nat → Nat → Char) (oldName before rest : List Char) : Bool :=
  !isMarked (lineBefore before ++ lineBehind rest) &&
    chosenInLine (outside (before.count '\n')) oldName (lineBefore before) (lineBehind rest)

/-- The newline that the last line gets. -/
def missingNewline (text : List Char) : List Char :=
  if text = [] ∨ text.getLast? = some '\n' then [] else ['\n']

theorem lineBefore_append {before : List Char} (atStart : lineBefore before = []) {done : List Char}
    (noNewline : '\n' ∉ done) : lineBefore (before ++ done) = done := by
  have all : ∀ c ∈ done.reverse, (c != '\n') = true := by
    intro c cMem
    rw [List.mem_reverse] at cMem
    rw [bne_iff_ne]
    rintro rfl
    exact noNewline cMem
  rw [lineBefore, List.reverse_eq_nil_iff] at atStart
  rw [lineBefore, List.reverse_append, List.takeWhile_append_of_pos all, atStart, List.append_nil,
    List.reverse_reverse]

theorem lineBehind_append {left rest : List Char} (noNewline : '\n' ∉ left)
    (atEnd : lineBehind rest = []) : lineBehind (left ++ rest) = left := by
  have all : ∀ c ∈ left, (c != '\n') = true := by
    intro c cMem
    rw [bne_iff_ne]
    rintro rfl
    exact noNewline cMem
  rw [lineBehind] at atEnd ⊢
  rw [List.takeWhile_append_of_pos all, atEnd, List.append_nil]

section Lines

variable (outside : Nat → Nat → Nat → Char) {oldName newName : List Char}

theorem not_mem_newline (isOld : IsName oldName) : '\n' ∉ oldName := by
  intro newlineMem
  have isIdent := isOld.letters _ newlineMem
  revert isIdent
  decide

/-- An occurrence of a name does not leave the line. -/
theorem isPrefix_of_append (isOld : IsName oldName) {left rest : List Char}
    (atEnd : lineBehind rest = []) (isHere : oldName <+: left ++ rest) : oldName <+: left := by
  rcases List.prefix_or_prefix_of_prefix isHere (List.prefix_append left rest) with inLeft | longer
  · exact inLeft
  · obtain ⟨more, rfl⟩ := longer
    cases more with
    | nil => simp
    | cons c more =>
        obtain ⟨behind, isBehind⟩ := isHere
        rw [List.append_assoc] at isBehind
        rw [← List.append_cancel_left isBehind, List.cons_append, lineBehind] at atEnd
        have isNewline : c = '\n' := by
          by_contra notNewline
          rw [List.takeWhile_cons_of_pos (by simpa using notNewline)] at atEnd
          cases atEnd
        exact absurd (by simp [isNewline]) (not_mem_newline isOld)

/-- One line of the text becomes the renamed line. -/
theorem replaceChosen_line (isOld : IsName oldName) {before line rest : List Char}
    (atStart : lineBefore before = []) (noNewline : '\n' ∉ line) (atEnd : lineBehind rest = []) :
    replaceChosen (chosenInText outside oldName) oldName newName 0 before (line ++ rest) =
      renamedLine (outside (before.count '\n')) oldName newName line ++
        replaceChosen (chosenInText outside oldName) oldName newName 0 (before ++ line) rest := by
  let inLine : List Char → List Char → Bool := fun done left =>
    !isMarked line && chosenInLine (outside (before.count '\n')) oldName done left
  have inside : ∀ done left, line = done ++ left → left ≠ [] → oldName <+: left ++ rest →
      oldName <+: left := by
    intro done left _ _ isHere
    exact isPrefix_of_append isOld atEnd isHere
  have same : ∀ done left, line = done ++ left → oldName <+: left →
      chosenInText outside oldName (before ++ done) (left ++ rest) = inLine ([] ++ done) left := by
    intro done left split _
    have notDone : '\n' ∉ done := fun inDone => noNewline (by simp [split, inDone])
    have notLeft : '\n' ∉ left := fun inLeft => noNewline (by simp [split, inLeft])
    have lines : (before ++ done).count '\n' = before.count '\n' := by
      rw [List.count_append, List.count_eq_zero.mpr notDone, Nat.add_zero]
    rw [chosenInText, lineBefore_append atStart notDone, lineBehind_append notLeft atEnd, lines,
      ← split, List.nil_append]
  rw [replaceChosen_append isOld.nonempty inside same, renamedLine]
  congr 1
  cases marked : isMarked line with
  | true =>
      have kept : replaceChosen inLine oldName newName 0 [] (line ++ []) =
          line ++ replaceChosen inLine oldName newName 0 ([] ++ line) [] :=
        replaceChosen_of_none [] fun done c left _ _ => by simp [inLine, marked]
      rwa [List.append_nil, replaceChosen_nil, List.append_nil] at kept
  | false =>
      apply replaceChosen_congr
      intro done left _ _
      simp [inLine, marked]

/-- All lines together: the occurrences that the pass takes for the variable are replaced in the
text, and a last line gets its newline. -/
theorem renamedLines_eq (isOld : IsName oldName) (text before : List Char)
    (atStart : lineBefore before = []) :
    ((renamedLines outside oldName newName (before.count '\n') (piecesOf '\n' text)).flatMap
        fun line => line ++ ['\n']) =
      replaceChosen (chosenInText outside oldName) oldName newName 0 before text ++
        missingNewline text := by
  induction text using pieces_induction '\n' generalizing before with
  | nil => simp [renamedLines, replaceChosen_nil, missingNewline]
  | last line noNewline nonempty =>
      have missing : missingNewline line = ['\n'] := by
        rw [missingNewline, if_neg]
        rintro (isNil | isLast)
        · exact nonempty isNil
        · exact noNewline (List.mem_of_getLast? isLast)
      have replaced : replaceChosen (chosenInText outside oldName) oldName newName 0 before
          (line ++ []) = renamedLine (outside (before.count '\n')) oldName newName line ++
            replaceChosen (chosenInText outside oldName) oldName newName 0 (before ++ line) [] :=
        replaceChosen_line outside isOld atStart noNewline rfl
      rw [List.append_nil, replaceChosen_nil, List.append_nil] at replaced
      rw [piecesOf_of_not_mem noNewline nonempty, renamedLines, renamedLines, replaced, missing]
      simp
  | cons line rest noNewline ih =>
      have nextStart : lineBefore (before ++ line ++ ['\n']) = [] := by
        simp [lineBefore]
      have nextLine : (before ++ line ++ ['\n']).count '\n' = before.count '\n' + 1 := by
        simp [List.count_eq_zero.mpr noNewline]
      have later := ih (before ++ line ++ ['\n']) nextStart
      have notHere : ¬ (oldName <+: '\n' :: rest ∧
          chosenInText outside oldName (before ++ line) ('\n' :: rest) = true) := by
        rintro ⟨isHere, _⟩
        obtain ⟨c, tail, rfl⟩ := List.exists_cons_of_ne_nil isOld.nonempty
        exact not_mem_newline isOld (by simp [(List.cons_prefix_cons.mp isHere).1])
      have missing : missingNewline (line ++ '\n' :: rest) = missingNewline rest := by
        cases rest with
        | nil => simp [missingNewline]
        | cons c rest => simp [missingNewline]
      rw [piecesOf_append_mark noNewline, renamedLines, List.flatMap_cons, ← nextLine, later,
        replaceChosen_line outside isOld atStart noNewline (by simp [lineBehind]),
        replaceChosen_of_not notHere, missing]
      simp

/-- What the pass takes for the variable is a whole name on a line without the mark, and what
stands before it on the line allows it. -/
theorem chosenInText_iff (isOld : IsName oldName) (before after : List Char) :
    chosenInText outside oldName before (oldName ++ after) = true ↔
      isWholeName oldName before (oldName ++ after) = true ∧
        isMarked (lineBefore before ++ lineBehind (oldName ++ after)) = false ∧
        allowsBehind (outside (before.count '\n') (lineBefore before).length)
          (lineBefore before).reverse = true := by
  have noNewline := not_mem_newline isOld
  have behindName : lineBehind (oldName ++ after) = oldName ++ lineBehind after := by
    have all : ∀ c ∈ oldName, (c != '\n') = true := by
      intro c cMem
      rw [bne_iff_ne]
      rintro rfl
      exact noNewline cMem
    rw [lineBehind, List.takeWhile_append_of_pos all, lineBehind]
  have notBehind : isIdentChar ((lineBehind after).headD '\x00') =
      after.head?.any isIdentChar := by
    cases after with
    | nil => rfl
    | cons c after =>
        by_cases isNewline : c = '\n'
        · simp [lineBehind, isNewline]
          decide
        · simp [lineBehind, isNewline]
  have notBefore : allowsBehind (outside (before.count '\n') (lineBefore before).length)
      (lineBefore before).reverse = true → ∀ c ∈ before.getLast?, isIdentChar c = false := by
    intro allowed c isLast
    obtain ⟨front, rfl⟩ := List.getLast?_eq_some_iff.mp isLast
    by_contra isIdent
    rw [Bool.not_eq_false] at isIdent
    have notNewline : c ≠ '\n' := by
      rintro rfl
      revert isIdent
      decide
    have onLine : (lineBefore (front ++ [c])).reverse = c :: (lineBefore front).reverse := by
      simp [lineBefore, notNewline]
    rw [onLine, allowsBehind_letter _ isIdent] at allowed
    cases allowed
  rw [chosenInText, behindName, chosenInLine, isValidVariable_eq, Bool.and_eq_true,
    Bool.and_eq_true, Bool.not_eq_true', Bool.not_eq_true', notBehind, isWholeName_iff]
  constructor
  · rintro ⟨notMarked, allowed, noLetter⟩
    refine ⟨⟨notBefore allowed, ?_⟩, notMarked, allowed⟩
    intro c isHead
    rw [List.drop_left, Option.mem_def] at isHead
    simpa [isHead] using noLetter
  · rintro ⟨whole, notMarked, allowed⟩
    refine ⟨notMarked, allowed, ?_⟩
    have noLetter := whole.notBehind
    rw [List.drop_left] at noLetter
    cases after with
    | nil => rfl
    | cons c after => simpa using noLetter c (by simp)

/-- For every text and every two names the loops end, and they rename exactly the uses if and
only if the names are the same or, of the places where the old name is a token, exactly the
uses stand on a line without the mark and behind something that allows them: blanks passed
over, neither a letter, a digit, an underscore, a `.` nor `->`. -/
theorem replaceVariable_renames_iff (declares : List Char → List Char → Bool) (text : List Char)
    (isOld : IsName oldName) (isNew : IsName newName) :
    ∃ enough, ∀ steps, enough ≤ steps →
      (replaceVariable outside steps text oldName newName =
          some (renameUses declares oldName newName text ++ missingNewline text) ↔
        oldName = newName ∨ ∀ before after, text = before ++ (oldName ++ after) →
          isWholeName oldName before (oldName ++ after) = true →
          (isUse declares oldName before (oldName ++ after) = true ↔
            isMarked (lineBefore before ++ lineBehind (oldName ++ after)) = false ∧
              allowsBehind (outside (before.count '\n') (lineBefore before).length)
                (lineBefore before).reverse = true)) := by
  refine ⟨(newName.length + 1) * text.length, fun steps enough => ?_⟩
  have lines : ((renamedLines outside oldName newName (List.count '\n' [])
      (piecesOf '\n' text)).flatMap fun line => line ++ ['\n']) =
      replaceChosen (chosenInText outside oldName) oldName newName 0 [] text ++
        missingNewline text := renamedLines_eq outside isOld text [] rfl
  rw [replaceVariable_eq outside isOld isNew text enough, Option.some.injEq]
  rw [List.count_nil] at lines
  rw [lines, List.append_left_inj, renameUses]
  have chosenWhole : ∀ before rest, oldName <+: rest →
      chosenInText outside oldName before rest = true →
        StandsWhole isIdentChar oldName before rest := by
    rintro before rest ⟨after, rfl⟩ chosen
    exact (isWholeName_iff _ _ _).mp ((chosenInText_iff outside isOld before after).mp chosen).1
  by_cases sameName : oldName = newName
  · subst sameName
    have kept : ∀ chosen : List Char → List Char → Bool, ∀ before,
        replaceChosen chosen oldName oldName 0 before text = text := by
      intro chosen before
      exact replaceChosen_self isOld.nonempty before text
    simp [kept]
  · rw [replaceChosen_eq_iff isOld.letters isNew.letters isOld.nonempty sameName chosenWhole
      fun _ _ _ use => standsWhole_of_isUse use]
    simp only [sameName, false_or, List.nil_append]
    constructor
    · intro agree before after split isWhole
      have same := agree before (oldName ++ after) split (List.prefix_append _ _)
      rw [← same, chosenInText_iff outside isOld]
      simp [isWhole]
    · rintro agree before _ split ⟨after, rfl⟩
      rw [Bool.eq_iff_iff, chosenInText_iff outside isOld]
      constructor
      · rintro ⟨isWhole, allowed⟩
        exact (agree before after split isWhole).mpr allowed
      · intro use
        have isWhole := (isWholeName_iff _ _ _).mpr (standsWhole_of_isUse use)
        exact ⟨isWhole, (agree before after split isWhole).mp use⟩

theorem replaceVariable_renames_sum :
    ∃ enough, ∀ steps, enough ≤ steps →
      (replaceVariable (fun _ _ _ => ';') steps "a = a + b.a;".toList ['a'] ['c'] =
          some (renameUses (fun _ _ => false) ['a'] ['c'] "a = a + b.a;".toList ++
            missingNewline "a = a + b.a;".toList) ↔
        ['a'] = ['c'] ∨ ∀ before after, "a = a + b.a;".toList = before ++ (['a'] ++ after) →
          isWholeName ['a'] before (['a'] ++ after) = true →
          (isUse (fun _ _ => false) ['a'] before (['a'] ++ after) = true ↔
            isMarked (lineBefore before ++ lineBehind (['a'] ++ after)) = false ∧
              allowsBehind ((fun _ _ _ => ';') (before.count '\n') (lineBefore before).length)
                (lineBefore before).reverse = true)) :=
  replaceVariable_renames_iff (fun _ _ _ => ';') (fun _ _ => false) "a = a + b.a;".toList
    (isName_of_all (by decide) (by decide)) (isName_of_all (by decide) (by decide))

end Lines

/-- Behind `return` and a blank the variable is not renamed. -/
theorem replaceVariable_misses_return :
    ¬ ∃ enough, ∀ steps, enough ≤ steps →
      replaceVariable (fun _ _ _ => ';') steps "return n;".toList ['n'] "n_hecaton_1".toList =
        some (renameUses (fun _ _ => false) ['n'] "n_hecaton_1".toList "return n;".toList ++
          missingNewline "return n;".toList) := by
  rintro ⟨enough, renamed⟩
  have isOld : IsName ['n'] := isName_of_all (by decide) (by decide)
  have isNew : IsName "n_hecaton_1".toList := isName_of_all (by decide) (by decide +kernel)
  have result := renamed (enough + ("n_hecaton_1".toList.length + 1) * "return n;".toList.length)
    (Nat.le_add_right _ _)
  rw [replaceVariable_eq (fun _ _ _ => ';') isOld isNew _ (Nat.le_add_left _ _)] at result
  revert result
  decide +kernel

end Hecaton.Pass1.BlockText
