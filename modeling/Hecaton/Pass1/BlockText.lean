import Hecaton.Library.Comments
import Hecaton.Library.Occurrences
import Hecaton.Library.Pieces

/-!
# Renaming in the text of a block

`replace_variable` takes a text line by line and looks for the old name.  Whether an
occurrence is a variable is decided by the characters next to it, where blanks before it
are passed over.  A replacement makes the line longer while it is searched, and the new
name holds the old one.
-/

namespace Hecaton.Pass1.BlockText

open Hecaton.Library

/-! ## The characters next to a name -/

/-- `isalnum`. -/
def isalnum (ch : Char) : Bool := ch.isAlphanum

/-- A letter, a digit or an underscore. -/
def isIdentChar (ch : Char) : Bool := isalnum ch || ch == '_'

/-- `line[pos - k]`.  What is read in front of the line depends on the distance only. -/
def charBefore (outside : Nat → Char) (line : List Char) (pos k : Nat) : Char :=
  if k ≤ pos then line.getD (pos - k) '\x00' else outside (k - pos)

/-- The `while` loop of `is_valid_variable`: the place and the character in front of it when
the loop ends. -/
def skipBlanks (line : List Char) : Nat → Char → Nat × Char
  | 0, beforeCh => (0, beforeCh)
  | pos + 1, beforeCh =>
      if beforeCh = ' ' then
        if pos = 0 then (0, ';') else skipBlanks line pos (line.getD (pos - 1) '\x00')
      else (pos + 1, beforeCh)

/-- `is_valid_variable`. -/
def isValidVariable (outside : Nat → Char) (line name : List Char) (pos : Nat) : Bool :=
  let afterCh := line.getD (pos + name.length) '\x00'
  let (pos, beforeCh) := skipBlanks line pos (charBefore outside line pos 1)
  if isalnum beforeCh then false
  else if beforeCh = '_' then false
  else if beforeCh = '.' then false
  else if beforeCh = '>' ∧ charBefore outside line pos 2 = '-' then false
  else if isalnum afterCh then false
  else if afterCh = '_' then false
  else true

/-! ## The loops -/

/-- The inner `while` loop of `replace_variable`; `none` when the steps do not bring it to the
end.  What a read in front of the line gives may differ from one search to the next. -/
def replaceLoop (outside : Nat → Nat → Char) (oldName newName : List Char) :
    Nat → List Char → Option Nat → Option (List Char)
  | _, line, none => some line
  | 0, _, some _ => none
  | steps + 1, line, some foundPos =>
      let line :=
        if isValidVariable (outside foundPos) line oldName foundPos then
          line.take foundPos ++ newName ++ line.drop (foundPos + oldName.length)
        else line
      replaceLoop outside oldName newName steps line (findFrom oldName line (foundPos + 1))

/-- The line has the mark of the pass. -/
def isMarked (line : List Char) : Bool := decide ("Hecaton".toList <:+: line)

/-- The body of the outer loop for one line. -/
def replaceLine (outside : Nat → Nat → Char) (steps : Nat) (line oldName newName : List Char) :
    Option (List Char) :=
  if isMarked line then some line
  else replaceLoop outside oldName newName steps line (findFrom oldName line 0)

/-- The outer loop of `replace_variable` from the `n`-th line on. -/
def replaceLines (outside : Nat → Nat → Nat → Char) (steps : Nat) (oldName newName : List Char) :
    Nat → List (List Char) → Option (List Char)
  | _, [] => some []
  | n, line :: rest =>
      (replaceLine (outside n) steps line oldName newName).bind fun line =>
        (replaceLines outside steps oldName newName (n + 1) rest).map fun text =>
          line ++ '\n' :: text

/-- `replace_variable`. -/
def replaceVariable (outside : Nat → Nat → Nat → Char) (steps : Nat)
    (text oldName newName : List Char) : Option (List Char) :=
  replaceLines outside steps oldName newName 0 (piecesOf '\n' text)

/-! ## What a name may stand behind -/

/-- The tests of `is_valid_variable` on the character before the name and the one before
that. -/
def allows (beforeCh beforeBeforeCh : Char) : Bool :=
  !isIdentChar beforeCh && beforeCh != '.' && !(beforeCh == '>' && beforeBeforeCh == '-')

/-- The tests on all that stands before the name, read backwards. -/
def allowsBehind (outside : Nat → Char) : List Char → Bool
  | [] => allows (outside 1) (outside 2)
  | c :: rest =>
      match (c :: rest).dropWhile (· == ' ') with
      | [] => true
      | beforeCh :: more => allows beforeCh (more.headD (outside 1))

theorem skipBlanks_eq (c : Char) (front after : List Char) :
    skipBlanks ((c :: front).reverse ++ after) (front.length + 1) c =
      match (c :: front).dropWhile (· == ' ') with
      | [] => (0, ';')
      | beforeCh :: more => (more.length + 1, beforeCh) := by
  induction front generalizing c after with
  | nil =>
      by_cases blank : c = ' '
      · simp [skipBlanks, blank]
      · simp [skipBlanks, blank]
  | cons d front ih =>
      by_cases blank : c = ' '
      · subst blank
        have before : ((' ' :: d :: front).reverse ++ after).getD front.length '\x00' = d := by
          simp [List.getD]
        have later := ih d (' ' :: after)
        rw [List.length_cons, skipBlanks, if_pos rfl, if_neg (by omega), Nat.add_sub_cancel, before,
          List.dropWhile_cons_of_pos (by simp), ← later]
        simp
      · simp [skipBlanks, blank]

theorem allows_eq (beforeCh beforeBeforeCh afterCh : Char) :
    (if isalnum beforeCh then false
      else if beforeCh = '_' then false
      else if beforeCh = '.' then false
      else if beforeCh = '>' ∧ beforeBeforeCh = '-' then false
      else if isalnum afterCh then false
      else if afterCh = '_' then false
      else true) = (allows beforeCh beforeBeforeCh && !isIdentChar afterCh) := by
  rw [allows, isIdentChar, isIdentChar]
  cases isalnum beforeCh with
  | true => simp
  | false =>
      by_cases underscore : beforeCh = '_'
      · simp [underscore]
      · by_cases dot : beforeCh = '.'
        · simp [dot]
        · by_cases arrow : beforeCh = '>' ∧ beforeBeforeCh = '-'
          · simp [arrow]
          · have notArrow : (beforeCh == '>' && beforeBeforeCh == '-') = false := by
              simpa using arrow
            have notUnderscore : (beforeCh == '_') = false := by simpa using underscore
            have notDot : (beforeCh != '.') = true := by simpa using dot
            rw [notUnderscore, notDot, notArrow]
            by_cases isUnderscore : afterCh = '_'
            · simp [underscore, dot, arrow, isUnderscore]
            · simp [underscore, dot, arrow, isUnderscore]

/-- The test looks at what stands before the name and at the next character behind it. -/
theorem isValidVariable_eq (outside : Nat → Char) (before name after : List Char) :
    isValidVariable outside (before ++ (name ++ after)) name before.length =
      (allowsBehind outside before.reverse && !isIdentChar (after.headD '\x00')) := by
  have afterCh : (before ++ (name ++ after)).getD (before.length + name.length) '\x00' =
      after.headD '\x00' := by
    cases after <;> simp [List.getD]
  simp only [isValidVariable, afterCh, allows_eq]
  obtain ⟨front, rfl⟩ : ∃ front, before = front.reverse := ⟨before.reverse, by simp⟩
  rw [List.reverse_reverse, List.length_reverse]
  cases front with
  | nil => simp [skipBlanks, charBefore, allowsBehind]
  | cons c front =>
      have beforeCh : charBefore outside ((c :: front).reverse ++ (name ++ after))
          (front.length + 1) 1 = c := by
        simp [charBefore, List.getD]
      rw [List.length_cons, beforeCh, skipBlanks_eq, allowsBehind]
      cases blanks : (c :: front).dropWhile (· == ' ') with
      | nil =>
          have semicolon : ∀ ch, allows ';' ch = true := by
            intro ch
            simp [allows, isIdentChar, isalnum]
          simp [semicolon]
      | cons d more =>
          have behindBlanks : (c :: front).reverse = more.reverse ++ d ::
              ((c :: front).takeWhile (· == ' ')).reverse := by
            have split := List.takeWhile_append_dropWhile (p := (· == ' ')) (l := c :: front)
            rw [blanks] at split
            rw [← congrArg List.reverse split]
            simp
          have beforeBeforeCh : charBefore outside ((c :: front).reverse ++ (name ++ after))
              (more.length + 1) 2 = more.headD (outside 1) := by
            rw [behindBlanks]
            cases more with
            | nil => simp [charBefore]
            | cons e more => simp [charBefore, List.getD]
          simp only [beforeBeforeCh]

/-- A letter of a name is no other character. -/
theorem ne_of_isIdentChar {c d : Char} (isIdent : isIdentChar c = true)
    (notIdent : isIdentChar d = false) : c ≠ d := by
  rintro rfl
  rw [isIdent] at notIdent
  cases notIdent

/-- Behind the end of a name nothing depends on the name or on what stands before it. -/
theorem allowsBehind_name {outside outside' : Nat → Char} {x y : Char} (xIdent : isIdentChar x = true)
    (yIdent : isIdentChar y = true) (front xs ys : List Char) :
    allowsBehind outside (front ++ x :: xs) = allowsBehind outside' (front ++ y :: ys) := by
  have blankNot : ∀ {z : Char}, isIdentChar z = true → (z == ' ') = false :=
    fun zIdent => beq_eq_false_iff_ne.mpr (ne_of_isIdentChar zIdent (by decide))
  have dashNot : ∀ {z : Char}, isIdentChar z = true → (z == '-') = false :=
    fun zIdent => beq_eq_false_iff_ne.mpr (ne_of_isIdentChar zIdent (by decide))
  have refused : ∀ {z : Char}, isIdentChar z = true → ∀ ch, allows z ch = false := by
    intro z zIdent ch
    simp [allows, zIdent]
  have unfold : ∀ (outside : Nat → Char) (z : Char) (zs : List Char),
      allowsBehind outside (front ++ z :: zs) =
        match (front ++ z :: zs).dropWhile (· == ' ') with
        | [] => true
        | beforeCh :: more => allows beforeCh (more.headD (outside 1)) := by
    intro outside z zs
    cases front <;> rfl
  rw [unfold, unfold]
  clear unfold
  induction front with
  | nil => simp [blankNot xIdent, blankNot yIdent, refused xIdent, refused yIdent]
  | cons c front ih =>
      by_cases blank : (c == ' ') = true
      · rw [List.cons_append, List.cons_append, List.dropWhile_cons_of_pos (p := (· == ' ')) blank,
          List.dropWhile_cons_of_pos (p := (· == ' ')) blank]
        exact ih
      · rw [List.cons_append, List.cons_append, List.dropWhile_cons_of_neg (p := (· == ' ')) blank,
          List.dropWhile_cons_of_neg (p := (· == ' ')) blank]
        cases front with
        | nil => simp [allows, dashNot xIdent, dashNot yIdent]
        | cons d front => rfl

/-- Directly behind a letter of a name there is no variable. -/
theorem allowsBehind_letter (outside : Nat → Char) {c : Char} (isIdent : isIdentChar c = true)
    (front : List Char) : allowsBehind outside (c :: front) = false := by
  have notBlank : (c == ' ') = false := by
    rw [beq_eq_false_iff_ne]
    rintro rfl
    revert isIdent
    decide
  simp [allowsBehind, notBlank, allows, isIdent]

/-! ## One line -/

/-- Whether the pass takes the place between two parts of a line for the variable. -/
def chosenInLine (outside : Nat → Nat → Char) (oldName before rest : List Char) : Bool :=
  isValidVariable (outside before.length) (before ++ rest) oldName before.length

/-- The part of the line that is searched, as it was and as it is now: nothing is replaced yet,
or the same stands behind the last name that is. -/
def SameBehind (oldName newName before done : List Char) : Prop :=
  done = before ∨ ∃ front front' behind,
    before = front ++ oldName ++ behind ∧ done = front' ++ newName ++ behind

/-- An identifier: one or more letters, digits or underscores. -/
structure IsName (name : List Char) : Prop where
  nonempty : name ≠ []
  letters : ∀ c ∈ name, isIdentChar c = true

theorem isName_of_all {name : List Char} (nonempty : name ≠ [])
    (letters : name.all isIdentChar = true) : IsName name :=
  ⟨nonempty, List.all_eq_true.mp letters⟩

/-- A letter of a name is no white space. -/
theorem isBlank_of_isIdentChar (ch : Char) (isIdent : isIdentChar ch = true) :
    isBlank ch = false := by
  by_contra blank
  rw [Bool.not_eq_false, isBlank, List.contains_eq_mem, decide_eq_true_eq] at blank
  have notIdent : ([' ', '\t', '\n', '\r', '\x0b', '\x0c'].all fun ch => !isIdentChar ch) = true := by
    decide
  have notLetter := List.all_eq_true.mp notIdent ch blank
  rw [isIdent] at notLetter
  cases notLetter

section Line

variable (outside : Nat → Nat → Char) {oldName newName : List Char}

/-- Replacing a name changes no later decision. -/
theorem isValidVariable_sameBehind (isOld : IsName oldName) (isNew : IsName newName)
    {before done : List Char} (same : SameBehind oldName newName before done) (after : List Char) :
    isValidVariable (outside done.length) (done ++ (oldName ++ after)) oldName done.length =
      chosenInLine outside oldName before (oldName ++ after) := by
  rcases same with rfl | ⟨front, front', behind, rfl, rfl⟩
  · rfl
  · obtain ⟨olds, x, oldSplit⟩ := (List.eq_nil_or_concat oldName).resolve_left isOld.nonempty
    obtain ⟨news, y, newSplit⟩ := (List.eq_nil_or_concat newName).resolve_left isNew.nonempty
    have xIdent : isIdentChar x = true := isOld.letters x (by simp [oldSplit])
    have yIdent : isIdentChar y = true := isNew.letters y (by simp [newSplit])
    rw [chosenInLine, isValidVariable_eq, isValidVariable_eq]
    congr 1
    have oldBehind : (front ++ oldName ++ behind).reverse =
        behind.reverse ++ x :: (olds.reverse ++ front.reverse) := by
      rw [oldSplit]
      simp
    have newBehind : (front' ++ newName ++ behind).reverse =
        behind.reverse ++ y :: (news.reverse ++ front'.reverse) := by
      rw [newSplit]
      simp
    rw [oldBehind, newBehind]
    exact allowsBehind_name yIdent xIdent _ _ _

theorem isValidVariable_behind_letter (outside : Nat → Char) {before after : List Char} {c : Char}
    (isIdent : isIdentChar c = true) :
    isValidVariable outside (before ++ [c] ++ (oldName ++ after)) oldName
      (before ++ [c]).length = false := by
  rw [isValidVariable_eq, List.reverse_append, List.reverse_singleton, List.singleton_append,
    allowsBehind_letter outside isIdent, Bool.false_and]

/-- The search passes through the letters of a name without a change. -/
theorem replaceLoop_inside {line result before after : List Char} {bound : Nat}
    (inside : List Char) (letters : ∀ c ∈ inside, isIdentChar c = true) {c : Char}
    (isIdent : isIdentChar c = true) (isLine : line = before ++ c :: inside ++ after)
    (behind : ∀ steps, bound ≤ steps → replaceLoop outside oldName newName steps line
      (findFrom oldName line (before ++ c :: inside).length) = some result) (steps : Nat)
    (enough : bound + inside.length ≤ steps) :
    replaceLoop outside oldName newName steps line
      (findFrom oldName line (before ++ [c]).length) = some result := by
  induction inside generalizing before c steps with
  | nil => exact behind steps enough
  | cons d inside ih =>
      have passed : ∀ steps, bound + inside.length ≤ steps →
          replaceLoop outside oldName newName steps line
            (findFrom oldName line (before ++ [c] ++ [d]).length) = some result := by
        apply ih (fun e eMem => letters e (List.mem_cons_of_mem _ eMem))
          (letters d List.mem_cons_self)
        · rw [isLine]
          simp
        · simpa using behind
      have next : findFrom oldName line ((before ++ [c]).length + 1) =
          findFrom oldName line (before ++ [c] ++ [d]).length := by
        rw [@List.length_append _ (before ++ [c])]
        rfl
      have lineHere : line = (before ++ [c]) ++ d :: (inside ++ after) := by
        rw [isLine]
        simp
      by_cases isHere : oldName <+: d :: (inside ++ after)
      · obtain ⟨rest, isRest⟩ := isHere
        have found : findFrom oldName line (before ++ [c]).length =
            some (before ++ [c]).length := by
          rw [lineHere]
          exact findFrom_of_isPrefix _ ⟨rest, isRest⟩
        have refused : isValidVariable (outside (before ++ [c]).length) line oldName
            (before ++ [c]).length = false := by
          rw [lineHere, ← isRest]
          exact isValidVariable_behind_letter _ isIdent
        obtain ⟨steps, rfl⟩ : ∃ more, steps = more + 1 :=
          ⟨steps - 1, by rw [List.length_cons] at enough; omega⟩
        rw [found, replaceLoop, refused]
        simp only [Bool.false_eq_true, if_false]
        rw [next]
        exact passed steps (by rw [List.length_cons] at enough; omega)
      · have skipped := findFrom_of_not_isPrefix (before ++ [c]) isHere
        rw [← lineHere, next] at skipped
        rw [skipped]
        exact passed steps (by rw [List.length_cons] at enough; omega)

/-- The search of a line ends with the chosen occurrences replaced.  The measure is the part of
the line that is not searched yet, in its old text: for every character of it the search makes
at most one step for each letter of a new name and one of its own. -/
theorem replaceLoop_eq (isOld : IsName oldName) (isNew : IsName newName) (rest : List Char)
    {before done : List Char} (same : SameBehind oldName newName before done) (steps : Nat)
    (enough : (newName.length + 1) * rest.length ≤ steps) :
    replaceLoop outside oldName newName steps (done ++ rest)
        (findFrom oldName (done ++ rest) done.length) =
      some (done ++
        replaceChosen (chosenInLine outside oldName) oldName newName 0 before rest) := by
  induction length : rest.length using Nat.strong_induction_on
    generalizing before done rest steps with
  | _ n ih =>
      cases rest with
      | nil =>
          rw [List.append_nil, findFrom_length isOld.nonempty, replaceChosen_nil, List.append_nil]
          cases steps <;> rfl
      | cons c rest =>
          rw [List.length_cons, Nat.mul_add, Nat.mul_one] at enough
          have shorter : rest.length < n := by
            rw [← length]
            exact Nat.lt_succ_self _
          -- The search goes on behind a place where nothing is replaced.
          have goOn : ∀ steps, (newName.length + 1) * rest.length ≤ steps →
              ¬ (oldName <+: c :: rest ∧ chosenInLine outside oldName before (c :: rest) = true) →
              replaceLoop outside oldName newName steps (done ++ c :: rest)
                (findFrom oldName (done ++ c :: rest) (done.length + 1)) =
              some (done ++ replaceChosen (chosenInLine outside oldName) oldName newName 0 before
                (c :: rest)) := by
            intro steps enoughLeft notChosen
            have sameNext : SameBehind oldName newName (before ++ [c]) (done ++ [c]) := by
              rcases same with rfl | ⟨front, front', behind, rfl, rfl⟩
              · exact Or.inl rfl
              · exact Or.inr ⟨front, front', behind ++ [c], by simp, by simp⟩
            have later := ih _ shorter rest sameNext steps enoughLeft rfl
            rw [replaceChosen_of_not notChosen]
            simpa using later
          by_cases isHere : oldName <+: c :: rest
          · obtain ⟨after, isAfter⟩ := isHere
            obtain ⟨steps, rfl⟩ : ∃ more, steps = more + 1 := ⟨steps - 1, by omega⟩
            have found : findFrom oldName (done ++ c :: rest) done.length = some done.length :=
              findFrom_of_isPrefix done ⟨after, isAfter⟩
            have decided := isValidVariable_sameBehind outside isOld isNew same after
            rw [isAfter] at decided
            rw [found, replaceLoop, decided]
            cases chosen : chosenInLine outside oldName before (c :: rest) with
            | false =>
                simp only [Bool.false_eq_true, if_false]
                exact goOn steps (by omega) (by simp [chosen])
            | true =>
                have replaced : (done ++ c :: rest).take done.length ++ newName ++
                    (done ++ c :: rest).drop (done.length + oldName.length) =
                    done ++ newName ++ after := by
                  rw [← isAfter, List.take_left, ← List.drop_drop, List.drop_left, List.drop_left]
                have lengths : oldName.length + after.length = rest.length + 1 := by
                  rw [← List.length_append, isAfter, List.length_cons]
                have oldPositive := List.length_pos_of_ne_nil isOld.nonempty
                simp only [if_true, replaced]
                obtain ⟨first, inside, rfl⟩ := List.exists_cons_of_ne_nil isNew.nonempty
                have sameNext : SameBehind oldName (first :: inside) (before ++ oldName)
                    (done ++ first :: inside) := Or.inr ⟨before, done, [], by simp, by simp⟩
                have behind : ∀ steps, ((first :: inside).length + 1) * after.length ≤ steps →
                    replaceLoop outside oldName (first :: inside) steps
                      (done ++ first :: inside ++ after)
                      (findFrom oldName (done ++ first :: inside ++ after)
                        (done ++ first :: inside).length) =
                    some (done ++ first :: inside ++ replaceChosen (chosenInLine outside oldName)
                      oldName (first :: inside) 0 (before ++ oldName) after) := by
                  intro steps enoughLeft
                  exact ih after.length (by omega) after sameNext steps enoughLeft rfl
                have insideLength : (first :: inside).length = inside.length + 1 := rfl
                have fewer : ((first :: inside).length + 1) * after.length + inside.length ≤ steps := by
                  have grows : ((first :: inside).length + 1) * after.length ≤
                      ((first :: inside).length + 1) * rest.length :=
                    Nat.mul_le_mul_left _ (by omega)
                  omega
                have passed := replaceLoop_inside outside inside
                  (fun d dMem => isNew.letters d (List.mem_cons_of_mem _ dMem))
                  (isNew.letters first List.mem_cons_self) rfl behind steps fewer
                have next : (done ++ [first]).length = done.length + 1 := by simp
                rw [next] at passed
                rw [passed, ← isAfter, replaceChosen_of_chosen isOld.nonempty (isAfter ▸ chosen)]
                simp
          · rw [findFrom_of_not_isPrefix done isHere]
            exact goOn steps (by omega) fun both => isHere both.1

/-- The line after the inner loop. -/
def renamedLine (outside : Nat → Nat → Char) (oldName newName line : List Char) : List Char :=
  if isMarked line then line
  else replaceChosen (chosenInLine outside oldName) oldName newName 0 [] line

theorem replaceLine_eq (isOld : IsName oldName) (isNew : IsName newName) (line : List Char)
    {steps : Nat} (enough : (newName.length + 1) * line.length ≤ steps) :
    replaceLine outside steps line oldName newName =
      some (renamedLine outside oldName newName line) := by
  rw [replaceLine, renamedLine]
  split
  · rfl
  · have start : SameBehind oldName newName [] [] := Or.inl rfl
    have ended := replaceLoop_eq outside isOld isNew line start steps enough
    rwa [List.nil_append, List.nil_append] at ended

/-- What the pass takes for the variable stands there as a word of its own. -/
theorem standsWhole_of_chosen {before rest : List Char} (isHere : oldName <+: rest)
    (chosen : chosenInLine outside oldName before rest = true) :
    StandsWhole isIdentChar oldName before rest := by
  obtain ⟨after, rfl⟩ := isHere
  rw [chosenInLine, isValidVariable_eq, Bool.and_eq_true, Bool.not_eq_true'] at chosen
  obtain ⟨allowed, notBehind⟩ := chosen
  constructor
  · intro c isLast
    obtain ⟨front, rfl⟩ := List.getLast?_eq_some_iff.mp isLast
    rw [List.reverse_append, List.reverse_singleton, List.singleton_append] at allowed
    by_contra isIdent
    rw [allowsBehind_letter _ (Bool.not_eq_false _ ▸ isIdent)] at allowed
    cases allowed
  · intro c isHead
    rw [List.drop_left] at isHead
    cases after with
    | nil => cases isHead
    | cons d after =>
        cases isHead
        exact notBehind

end Line

/-! ## All lines -/

/-- The lines after the outer loop, from the `n`-th on. -/
def renamedLines (outside : Nat → Nat → Nat → Char) (oldName newName : List Char) :
    Nat → List (List Char) → List (List Char)
  | _, [] => []
  | n, line :: rest =>
      renamedLine (outside n) oldName newName line ::
        renamedLines outside oldName newName (n + 1) rest

section Text

variable (outside : Nat → Nat → Nat → Char) {oldName newName : List Char}

theorem replaceLines_eq (isOld : IsName oldName) (isNew : IsName newName) {steps : Nat}
    {lines : List (List Char)}
    (enough : ∀ line ∈ lines, (newName.length + 1) * line.length ≤ steps) (n : Nat) :
    replaceLines outside steps oldName newName n lines =
      some ((renamedLines outside oldName newName n lines).flatMap fun line => line ++ ['\n']) := by
  induction lines generalizing n with
  | nil => rfl
  | cons line rest ih =>
      have later := ih (fun other otherMem => enough other (List.mem_cons_of_mem _ otherMem)) (n + 1)
      rw [replaceLines, replaceLine_eq (outside n) isOld isNew line (enough line List.mem_cons_self),
        Option.bind_some, later, renamedLines, List.flatMap_cons]
      simp

/-- The loops end with every line renamed. -/
theorem replaceVariable_eq (isOld : IsName oldName) (isNew : IsName newName) (text : List Char)
    {steps : Nat} (enough : (newName.length + 1) * text.length ≤ steps) :
    replaceVariable outside steps text oldName newName =
      some ((renamedLines outside oldName newName 0 (piecesOf '\n' text)).flatMap
        fun line => line ++ ['\n']) := by
  apply replaceLines_eq outside isOld isNew
  intro line isLine
  exact (Nat.mul_le_mul_left _ (length_le_of_mem_piecesOf isLine)).trans enough

end Text

/-! ## Only insertions -/

/-- Behind `before`, the second text is the first one with `suffix` inserted behind some of its
occurrences of the name, each of them a word of its own in the first text. -/
inductive Inserted (oldName suffix : List Char) : List Char → List Char → List Char → Prop
  | nil {before : List Char} : Inserted oldName suffix before [] []
  | keep {before rest rest' : List Char} (c : Char)
      (inserted : Inserted oldName suffix (before ++ [c]) rest rest') :
      Inserted oldName suffix before (c :: rest) (c :: rest')
  | insert {before rest rest' : List Char}
      (whole : StandsWhole isIdentChar oldName before (oldName ++ rest))
      (inserted : Inserted oldName suffix (before ++ oldName) rest rest') :
      Inserted oldName suffix before (oldName ++ rest) (oldName ++ suffix ++ rest')

theorem inserted_replaceChosen {chosen : List Char → List Char → Bool} {oldName : List Char}
    (nonempty : oldName ≠ []) (suffix : List Char)
    (whole : ∀ before rest, oldName <+: rest → chosen before rest = true →
      StandsWhole isIdentChar oldName before rest) (before rest : List Char) :
    Inserted oldName suffix before rest
      (replaceChosen chosen oldName (oldName ++ suffix) 0 before rest) := by
  induction length : rest.length using Nat.strong_induction_on generalizing before rest with
  | _ n ih =>
      cases rest with
      | nil =>
          rw [replaceChosen_nil]
          exact Inserted.nil
      | cons c rest =>
          by_cases isChosen : oldName <+: c :: rest ∧ chosen before (c :: rest) = true
          · obtain ⟨⟨after, isAfter⟩, isTrue⟩ := isChosen
            rw [← isAfter] at isTrue length ⊢
            rw [replaceChosen_of_chosen nonempty isTrue]
            have positive := List.length_pos_of_ne_nil nonempty
            rw [List.length_append] at length
            exact Inserted.insert (whole _ _ (List.prefix_append _ _) isTrue)
              (ih after.length (by omega) (before ++ oldName) after rfl)
          · rw [replaceChosen_of_not isChosen]
            rw [List.length_cons] at length
            exact Inserted.keep c (ih rest.length (by omega) (before ++ [c]) rest rfl)

/-- What may become of a line: with the mark it stays, otherwise it only grows. -/
def LineGrows (oldName suffix line line' : List Char) : Prop :=
  if isMarked line then line' = line else Inserted oldName suffix [] line line'

/-- What the pass puts behind a name that is taken. -/
def hecatonSuffix (k : Nat) : List Char := "_hecaton_".toList ++ (toString k).toList

/-- A number is written in letters of a name. -/
theorem isName_toString (k : Nat) : IsName (toString k).toList where
  nonempty := by
    rw [Nat.toString_eq_ofList_toDigits, String.toList_ofList]
    exact Nat.toDigits_ne_nil
  letters := by
    intro c inNumber
    have isDigit : c.isDigit = true := by
      rw [Nat.toString_eq_ofList_toDigits, String.toList_ofList] at inNumber
      exact Nat.isDigit_of_mem_toDigits (by omega) (Nat.le_refl 10) inNumber
    simp [isIdentChar, isalnum, Char.isAlphanum, isDigit]

theorem isIdentChar_of_mem_hecatonSuffix {k : Nat} {c : Char} (cMem : c ∈ hecatonSuffix k) :
    isIdentChar c = true := by
  have stem : ∀ c ∈ "_hecaton_".toList, isIdentChar c = true :=
    List.all_eq_true.mp (by decide +kernel)
  rcases List.mem_append.mp cMem with inStem | inNumber
  · exact stem c inStem
  · exact (isName_toString k).letters c inNumber

theorem IsName.append {name suffix : List Char} (isName : IsName name)
    (letters : ∀ c ∈ suffix, isIdentChar c = true) : IsName (name ++ suffix) where
  nonempty := by
    intro isNil
    exact isName.nonempty (List.append_eq_nil_iff.mp isNil).1
  letters := by
    intro c cMem
    rcases List.mem_append.mp cMem with inName | inSuffix
    · exact isName.letters c inName
    · exact letters c inSuffix

theorem forall₂_renamedLines (outside : Nat → Nat → Nat → Char) {oldName : List Char}
    (isOld : IsName oldName) (suffix : List Char) (n : Nat) (lines : List (List Char)) :
    List.Forall₂ (LineGrows oldName suffix) lines
      (renamedLines outside oldName (oldName ++ suffix) n lines) := by
  induction lines generalizing n with
  | nil => exact List.Forall₂.nil
  | cons line rest ih =>
      rw [renamedLines]
      apply List.Forall₂.cons _ (ih (n + 1))
      rw [LineGrows, renamedLine]
      split
      · rfl
      · exact inserted_replaceChosen isOld.nonempty suffix
          (fun _ _ isHere chosen => standsWhole_of_chosen (outside n) isHere chosen) [] line

/-- For every text the loops end, whatever is read in front of a line.  The lines stay the
same lines, each ended by a newline; those with the mark do not change, the others only get
the suffix behind occurrences of the name that are words of their own. -/
theorem replaceVariable_inserts (outside : Nat → Nat → Nat → Char) (text : List Char)
    {oldName : List Char} (isOld : IsName oldName) (k : Nat) :
    ∃ lines, List.Forall₂ (LineGrows oldName (hecatonSuffix k)) (piecesOf '\n' text) lines ∧
      ∃ enough, ∀ steps, enough ≤ steps →
        replaceVariable outside steps text oldName (oldName ++ hecatonSuffix k) =
          some (lines.flatMap fun line => line ++ ['\n']) := by
  have isNew : IsName (oldName ++ hecatonSuffix k) :=
    isOld.append fun _ cMem => isIdentChar_of_mem_hecatonSuffix cMem
  exact ⟨_, forall₂_renamedLines outside isOld (hecatonSuffix k) 0 _, _,
    fun steps enough => replaceVariable_eq outside isOld isNew text enough⟩

theorem replaceVariable_inserts_short :
    ∃ lines, List.Forall₂ (LineGrows ['a'] (hecatonSuffix 1)) (piecesOf '\n' "a = aa;".toList) lines ∧
      ∃ enough, ∀ steps, enough ≤ steps →
        replaceVariable (fun _ _ _ => ';') steps "a = aa;".toList ['a'] (['a'] ++ hecatonSuffix 1) =
          some (lines.flatMap fun line => line ++ ['\n']) :=
  replaceVariable_inserts (fun _ _ _ => ';') "a = aa;".toList (isName_of_all (by decide) (by decide)) 1

end Hecaton.Pass1.BlockText
