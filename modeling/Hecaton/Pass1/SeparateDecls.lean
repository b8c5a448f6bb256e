import Hecaton.Library.MovedBehind
import Hecaton.Pass1.DeclText
import Mathlib.Data.List.Infix

/-!
# Separating declarations from initial values

`seperate_decl_init` comments out the declarations of the outermost block that have an
initial value and writes them anew behind the last declaration: first all the declarations,
then all the initial values as assignments.
-/

namespace Hecaton.Pass1

open Hecaton.Library

/-! ## Declaration statements -/

/-- `str.find(sub) != std::string::npos`. -/
def textContains (str sub : String) : Bool := decide (sub.toList <:+: str.toList)

/-- A declarator: the variable, the variables that its initial value uses, its type, whether
a bracket stands inside the base type or a bound, and the variables that the text of the type
names, in a bound or a `typeof`.  A variable is `fixed` if it is `const`, or of a named type
that is an array or has a `const` member. -/
structure Declarator where
  id : Nat
  init : Option (List Nat) := none
  type : DeclText.CType := .base []
  bracketInside : Bool := false
  typeUses : List Nat := []
  fixed : Bool := false

namespace Declarator

def hasInit (d : Declarator) : Bool := d.init.isSome

/-- The variables that the initial value uses. -/
def uses (d : Declarator) : List Nat := d.init.getD []

/-- The line of type and name that the pass writes declares the variable. -/
def lineDeclares (d : Declarator) : Bool := d.type.lineDeclares d.bracketInside

/-- An assignment to the variable is C. -/
def canAssign (d : Declarator) : Bool := !d.fixed && !d.type.isArray

end Declarator

/-- A declaration statement: where it begins, its text as the rewriter has it by then, and its
declarators.  A statement that begins in a macro cannot be rewritten and is passed over.  It
is `hidden` if the comment that the pass makes of it covers it and nothing else, and `closed`
if white space, a comment or another semicolon stands directly behind its semicolon. -/
structure DeclStmt where
  beginLoc : Nat
  inMacro : Bool := false
  isStatic : Bool := false
  text : String
  declarators : List Declarator
  hidden : Bool := true
  closed : Bool := true

namespace DeclStmt

def hasArrayInit (stmt : DeclStmt) : Bool := textContains stmt.text "\x7b"

def hasConst (stmt : DeclStmt) : Bool := textContains stmt.text "const "

/-- The text of the statement holds the beginning of a comment. -/
def hasComment (stmt : DeclStmt) : Bool := textContains stmt.text "/*"

end DeclStmt

/-- What a text does to a variable: it declares it and gives it its initial value in the
declaration, as the source does, or in the words of the pass: a line of type and name, and an
assignment.  `torn` is a text that the pass has torn apart. -/
inductive Piece
  | declare (isStatic : Bool) (d : Declarator)
  | init (isStatic : Bool) (d : Declarator)
  | redeclare (d : Declarator)
  | assign (d : Declarator)
  | torn

/-- The piece is C. -/
def Piece.isValid : Piece → Bool
  | declare _ _ => true
  | init _ _ => true
  | redeclare d => d.lineDeclares
  | assign d => d.canAssign
  | torn => false

/-- The statement as it stands. -/
def DeclStmt.pieces (stmt : DeclStmt) : List Piece :=
  stmt.declarators.flatMap fun d =>
    .declare stmt.isStatic d :: if d.hasInit then [.init stmt.isStatic d] else []

theorem DeclStmt.mem_pieces {stmt : DeclStmt} {piece : Piece} :
    piece ∈ stmt.pieces ↔ ∃ d ∈ stmt.declarators,
      piece = .declare stmt.isStatic d ∨ d.hasInit = true ∧ piece = .init stmt.isStatic d := by
  rw [DeclStmt.pieces, List.mem_flatMap]
  apply exists_congr
  intro d
  apply and_congr_right
  intro _
  rw [List.mem_cons]
  cases d.hasInit <;> simp

/-- `declration_str`: the type string has no storage class. -/
def DeclStmt.declarations (stmt : DeclStmt) : List Piece := stmt.declarators.map .redeclare

/-- `initilazaion_str`. -/
def DeclStmt.initializations (stmt : DeclStmt) : List Piece :=
  (stmt.declarators.filter Declarator.hasInit).map .assign

/-! ## The separation -/

/-- What a call runs when it comes to a place of the function. -/
structure TextAt where
  place : Nat
  pieces : List Piece

/-- A statement of the outermost block: declarations that stand together, so that a call
passes all or none of them, or another statement with what the first steps of the pass have
left of it. -/
inductive TopItem
  | decls (place : Nat) (stmts : List DeclStmt)
  | other (texts : List TextAt)

/-- The declaration statements of a block. -/
def declStmtsOf (items : List TopItem) : List DeclStmt :=
  items.flatMap fun
    | .decls _ stmts => stmts
    | .other _ => []

/-- `fnc_declVisit`: the declarators of the outermost block, each with its statement. -/
def fncDeclsOf : List DeclStmt → List (DeclStmt × Declarator)
  | [] => []
  | stmt :: rest =>
      if stmt.inMacro then fncDeclsOf rest
      else (stmt.declarators.map fun d => (stmt, d)) ++ fncDeclsOf rest

/-- The loop that finds the statements to separate. -/
def findSeperations (commentedVars : List DeclStmt) : List (DeclStmt × Declarator) → List DeclStmt
  | [] => commentedVars
  | (mystmt, mydecl) :: rest =>
      if !mydecl.hasInit then findSeperations commentedVars rest
      else
        let isUnique := !commentedVars.any fun currStmt => currStmt.beginLoc == mystmt.beginLoc
        if isUnique && !mystmt.hasArrayInit && !mystmt.hasConst then
          findSeperations (commentedVars ++ [mystmt]) rest
        else findSeperations commentedVars rest

/-- What is left of a statement at its place.  A text with a comment in it is not commented
out. -/
def leftOf (commentedVars : List DeclStmt) (stmt : DeclStmt) : List Piece :=
  if (commentedVars.any fun mystmt => mystmt.beginLoc == stmt.beginLoc) && !stmt.hasComment then
    if stmt.hidden then [] else [.torn]
  else stmt.pieces

/-- The statement behind which the separated declarations are written. -/
def isLastDecl (fncDecls : List (DeclStmt × Declarator)) (stmt : DeclStmt) : Bool :=
  (fncDecls.getLast?.map fun last => last.1.beginLoc) == some stmt.beginLoc

/-- `to_insert_str`. -/
def toInsert (commentedVars : List DeclStmt) : List Piece :=
  commentedVars.flatMap DeclStmt.declarations ++ commentedVars.flatMap DeclStmt.initializations

/-- What is written at `last_decl_loc`.  If no white space stands behind the semicolon, that
is behind the next token. -/
def insertedBehind (last : DeclStmt) (commentedVars : List DeclStmt) : List Piece :=
  if commentedVars.isEmpty then []
  else (if last.closed then [] else [.torn]) ++ toInsert commentedVars

/-- The text of declarations that stand together, as the pass leaves it. -/
def writtenDecls (fncDecls : List (DeclStmt × Declarator)) (commentedVars stmts : List DeclStmt) :
    List Piece :=
  stmts.flatMap fun stmt =>
    leftOf commentedVars stmt ++
      if isLastDecl fncDecls stmt then insertedBehind stmt commentedVars else []

/-- `seperate_decl_init`. -/
def seperateDeclInit (items : List TopItem) : List TextAt :=
  let fncDecls := fncDeclsOf (declStmtsOf items)
  let commentedVars := findSeperations [] fncDecls
  items.flatMap fun
    | .decls place stmts => [⟨place, writtenDecls fncDecls commentedVars stmts⟩]
    | .other texts => texts

/-! ## What is separated -/

/-- The pass separates the statement. -/
def DeclStmt.isSeparated (stmt : DeclStmt) : Bool :=
  !stmt.inMacro && stmt.declarators.any Declarator.hasInit && !stmt.hasArrayInit && !stmt.hasConst

/-- The loop at the declarators of one statement. -/
theorem findSeperations_stmt (commentedVars : List DeclStmt) (stmt : DeclStmt)
    (declarators : List Declarator) (rest : List (DeclStmt × Declarator))
    (unseen : ∀ other ∈ commentedVars, other.beginLoc ≠ stmt.beginLoc) :
    findSeperations commentedVars ((declarators.map fun d => (stmt, d)) ++ rest) =
      findSeperations
        (commentedVars ++
          if declarators.any Declarator.hasInit && !stmt.hasArrayInit && !stmt.hasConst then [stmt]
          else []) rest := by
  -- Behind the first initial value the statement is no longer unique.
  have seen : ∀ declarators : List Declarator,
      findSeperations (commentedVars ++ [stmt]) ((declarators.map fun d => (stmt, d)) ++ rest) =
        findSeperations (commentedVars ++ [stmt]) rest := by
    intro declarators
    induction declarators with
    | nil => rfl
    | cons d ds ih =>
        rw [List.map_cons, List.cons_append, findSeperations]
        simp [ih]
  induction declarators with
  | nil => simp
  | cons d ds ih =>
      rw [List.map_cons, List.cons_append, findSeperations]
      by_cases hasInit : d.hasInit = true
      · have isUnique : (commentedVars.any fun currStmt => currStmt.beginLoc == stmt.beginLoc) =
            false := by
          rw [List.any_eq_false]
          intro other otherMem
          simpa using unseen other otherMem
        by_cases plain : (!stmt.hasArrayInit && !stmt.hasConst) = true
        · rw [Bool.and_eq_true, Bool.not_eq_true', Bool.not_eq_true'] at plain
          simp [hasInit, isUnique, plain, seen ds]
        · have stays : ∀ initialised : Bool,
              (initialised && !stmt.hasArrayInit && !stmt.hasConst) = false := by
            intro initialised
            rw [Bool.and_assoc, Bool.eq_false_iff.mpr plain, Bool.and_false]
          rw [stays] at ih ⊢
          simp only [hasInit, isUnique, stays, Bool.not_true, Bool.not_false, Bool.false_eq_true,
            if_false, ih]
      · simp only [hasInit, Bool.not_false, if_true, ih, List.any_cons, Bool.false_or]

/-- The statement stands in `fncDecls`. -/
def DeclStmt.isListed (stmt : DeclStmt) : Bool := !stmt.inMacro && !stmt.declarators.isEmpty

/-- What is left of a statement at its place. -/
def DeclStmt.leftPieces (stmt : DeclStmt) : List Piece :=
  if stmt.isSeparated && !stmt.hasComment then if stmt.hidden then [] else [.torn]
  else stmt.pieces

/-- What the pass does not list it does not separate. -/
theorem DeclStmt.isSeparated_of_unlisted {stmt : DeclStmt} (unlisted : stmt.isListed = false) :
    stmt.isSeparated = false := by
  rw [DeclStmt.isListed, Bool.and_eq_false_iff, Bool.not_eq_false', Bool.not_eq_false',
    List.isEmpty_iff] at unlisted
  rw [DeclStmt.isSeparated]
  rcases unlisted with inMacro | noDeclarators
  · rw [inMacro]
    rfl
  · rw [noDeclarators, List.any_nil, Bool.and_false]
    rfl

theorem DeclStmt.leftPieces_of_not_isSeparated {stmt : DeclStmt}
    (stays : stmt.isSeparated = false) : stmt.leftPieces = stmt.pieces := by
  rw [DeclStmt.leftPieces, stays]
  rfl

theorem filter_isSeparated_eq_nil {part : List DeclStmt}
    (unlisted : ∀ stmt ∈ part, stmt.isListed = false) : part.filter DeclStmt.isSeparated = [] := by
  rw [List.filter_eq_nil_iff]
  intro stmt stmtMem
  rw [DeclStmt.isSeparated_of_unlisted (unlisted stmt stmtMem)]
  exact Bool.false_ne_true

theorem fncDeclsOf_append (first second : List DeclStmt) :
    fncDeclsOf (first ++ second) = fncDeclsOf first ++ fncDeclsOf second := by
  induction first with
  | nil => rfl
  | cons stmt rest ih =>
      rw [List.cons_append, fncDeclsOf, fncDeclsOf, ih]
      split
      · rfl
      · rw [List.append_assoc]

theorem fncDeclsOf_eq_nil {stmts : List DeclStmt}
    (unlisted : ∀ stmt ∈ stmts, stmt.isListed = false) : fncDeclsOf stmts = [] := by
  induction stmts with
  | nil => rfl
  | cons stmt rest ih =>
      have restNil := ih fun other otherMem => unlisted other (List.mem_cons_of_mem stmt otherMem)
      have unlistedStmt : stmt.isListed = false := unlisted _ List.mem_cons_self
      rw [fncDeclsOf, restNil]
      split
      · rfl
      · rename_i rewritable
        have noDeclarators : stmt.declarators = [] := by
          simpa [DeclStmt.isListed, rewritable] using unlistedStmt
        simp [noDeclarators]

/-- Separated are the statements that the pass can rewrite, that have an initial value and
in whose text there is no brace and no `const`. -/
theorem findSeperations_fncDeclsOf {stmts : List DeclStmt} (commentedVars : List DeclStmt)
    (distinct : (stmts.map DeclStmt.beginLoc).Nodup)
    (unseen : ∀ other ∈ commentedVars, ∀ stmt ∈ stmts, other.beginLoc ≠ stmt.beginLoc) :
    findSeperations commentedVars (fncDeclsOf stmts) =
      commentedVars ++ stmts.filter DeclStmt.isSeparated := by
  induction stmts generalizing commentedVars with
  | nil => simp [fncDeclsOf, findSeperations]
  | cons stmt rest ih =>
      rw [List.map_cons, List.nodup_cons] at distinct
      have unseenRest : ∀ other ∈ commentedVars, ∀ later ∈ rest,
          other.beginLoc ≠ later.beginLoc := fun other otherMem later laterMem =>
        unseen other otherMem later (List.mem_cons_of_mem stmt laterMem)
      rw [fncDeclsOf, List.filter_cons]
      by_cases inMacro : stmt.inMacro = true
      · rw [if_pos inMacro, if_neg (by simp [DeclStmt.isSeparated, inMacro])]
        exact ih commentedVars distinct.2 unseenRest
      · rw [if_neg inMacro, findSeperations_stmt commentedVars stmt stmt.declarators _
          fun other otherMem => unseen other otherMem stmt List.mem_cons_self]
        have test : stmt.isSeparated =
            (stmt.declarators.any Declarator.hasInit && !stmt.hasArrayInit &&
              !stmt.hasConst) := by
          simp [DeclStmt.isSeparated, inMacro]
        rw [← test]
        by_cases separated : stmt.isSeparated = true
        · rw [if_pos separated, if_pos separated, ih _ distinct.2, List.append_assoc,
            List.singleton_append]
          intro other otherMem later laterMem
          rcases List.mem_append.mp otherMem with old | new
          · exact unseenRest other old later laterMem
          · rw [List.mem_singleton.mp new]
            intro same
            exact distinct.1 (List.mem_map.mpr ⟨later, laterMem, same.symm⟩)
        · rw [if_neg separated, if_neg separated, List.append_nil]
          exact ih commentedVars distinct.2 unseenRest

/-- Some declaration is the last one that the pass lists, or there is none. -/
theorem exists_lastListed (stmts : List DeclStmt) :
    (∀ stmt ∈ stmts, stmt.isListed = false) ∨
      ∃ front last back, stmts = front ++ last :: back ∧ last.isListed = true ∧
        ∀ stmt ∈ back, stmt.isListed = false := by
  induction stmts with
  | nil => exact Or.inl fun stmt stmtMem => absurd stmtMem List.not_mem_nil
  | cons stmt rest ih =>
      rcases ih with unlisted | ⟨front, last, back, rfl, listed, unlisted⟩
      · by_cases listed : stmt.isListed = true
        · exact Or.inr ⟨[], stmt, rest, rfl, listed, unlisted⟩
        · refine Or.inl fun other otherMem => ?_
          rcases List.mem_cons.mp otherMem with rfl | inRest
          · exact Bool.eq_false_iff.mpr listed
          · exact unlisted other inRest
      · exact Or.inr ⟨stmt :: front, last, back, rfl, listed, unlisted⟩

section LastListed

variable {all front back part : List DeclStmt} {last : DeclStmt}

/-- The pass separates the statements that it can. -/
theorem findSeperations_eq_filter (distinct : (all.map DeclStmt.beginLoc).Nodup) :
    findSeperations [] (fncDeclsOf all) = all.filter DeclStmt.isSeparated :=
  findSeperations_fncDeclsOf [] distinct fun _ otherMem => absurd otherMem List.not_mem_nil

/-- A separated statement is commented out, unless its text has a comment. -/
theorem leftOf_filter (distinct : (all.map DeclStmt.beginLoc).Nodup) {stmt : DeclStmt}
    (stmtMem : stmt ∈ all) :
    leftOf (all.filter DeclStmt.isSeparated) stmt = stmt.leftPieces := by
  have sameTest : ((all.filter DeclStmt.isSeparated).any fun mystmt =>
      mystmt.beginLoc == stmt.beginLoc) = stmt.isSeparated := by
    rw [Bool.eq_iff_iff, List.any_eq_true]
    constructor
    · rintro ⟨other, otherMem, sameLoc⟩
      obtain ⟨inAll, separated⟩ := List.mem_filter.mp otherMem
      rwa [← List.inj_on_of_nodup_map distinct inAll stmtMem (beq_iff_eq.mp sameLoc)]
    · intro separated
      exact ⟨stmt, List.mem_filter.mpr ⟨stmtMem, separated⟩, beq_self_eq_true _⟩
  rw [leftOf, sameTest, DeclStmt.leftPieces]

theorem lastDecl_of_lastListed (split : all = front ++ last :: back)
    (listed : last.isListed = true) (unlisted : ∀ stmt ∈ back, stmt.isListed = false) :
    ((fncDeclsOf all).getLast?.map fun entry => entry.1.beginLoc) = some last.beginLoc := by
  rw [DeclStmt.isListed, Bool.and_eq_true, Bool.not_eq_true', Bool.not_eq_true'] at listed
  have listedHere : fncDeclsOf (last :: back) = last.declarators.map fun d => (last, d) := by
    rw [fncDeclsOf, fncDeclsOf_eq_nil unlisted, listed.1]
    simp
  rw [split, fncDeclsOf_append, listedHere]
  cases atEnd : last.declarators.getLast? with
  | none =>
      rw [List.getLast?_eq_none_iff] at atEnd
      rw [atEnd] at listed
      exact absurd listed.2 (by simp)
  | some d => simp [List.getLast?_append, List.getLast?_map, atEnd]

/-- In a part without the last declaration nothing is inserted. -/
theorem writtenDecls_of_apart (distinct : (all.map DeclStmt.beginLoc).Nodup)
    (isPart : ∀ stmt ∈ part, stmt ∈ all)
    (apart : ∀ stmt ∈ part, isLastDecl (fncDeclsOf all) stmt = false) :
    writtenDecls (fncDeclsOf all) (all.filter DeclStmt.isSeparated) part =
      part.flatMap DeclStmt.leftPieces := by
  apply List.flatMap_congr
  intro stmt stmtMem
  rw [apart stmt stmtMem, leftOf_filter distinct (isPart stmt stmtMem), if_neg Bool.false_ne_true,
    List.append_nil]

/-- The separated declarations stand behind the last declaration that is listed. -/
theorem writtenDecls_of_lastListed (distinct : (all.map DeclStmt.beginLoc).Nodup)
    (isPart : ∀ stmt ∈ front ++ last :: back, stmt ∈ all)
    (distinctPart : ((front ++ last :: back).map DeclStmt.beginLoc).Nodup)
    (isLast : ((fncDeclsOf all).getLast?.map fun entry => entry.1.beginLoc) =
      some last.beginLoc) :
    writtenDecls (fncDeclsOf all) (all.filter DeclStmt.isSeparated) (front ++ last :: back) =
      (front ++ [last]).flatMap DeclStmt.leftPieces ++
        insertedBehind last (all.filter DeclStmt.isSeparated) ++
          back.flatMap DeclStmt.leftPieces := by
  rw [List.map_append, List.map_cons, List.nodup_append, List.nodup_cons] at distinctPart
  obtain ⟨_, ⟨notBack, _⟩, notFront⟩ := distinctPart
  have atOther : ∀ stmt : DeclStmt, stmt.beginLoc ≠ last.beginLoc →
      isLastDecl (fncDeclsOf all) stmt = false := by
    intro stmt apart
    rw [isLastDecl, isLast]
    simpa using apart.symm
  have atLast : isLastDecl (fncDeclsOf all) last = true := by
    rw [isLastDecl, isLast]
    exact beq_self_eq_true _
  have lastMem : last ∈ all := isPart last (List.mem_append_right _ List.mem_cons_self)
  have ofFront := writtenDecls_of_apart distinct
    (fun stmt stmtMem => isPart stmt (List.mem_append_left _ stmtMem))
    fun stmt stmtMem => atOther stmt fun sameLoc =>
      notFront _ (List.mem_map_of_mem stmtMem) _ List.mem_cons_self sameLoc
  have ofBack := writtenDecls_of_apart distinct
    (fun stmt stmtMem => isPart stmt (List.mem_append_right _ (List.mem_cons_of_mem last stmtMem)))
    fun stmt stmtMem => atOther stmt fun sameLoc =>
      notBack (List.mem_map.mpr ⟨stmt, stmtMem, sameLoc⟩)
  rw [writtenDecls] at ofFront ofBack ⊢
  rw [List.flatMap_append, List.flatMap_cons, ofFront, ofBack, atLast, if_pos rfl,
    leftOf_filter distinct lastMem, List.flatMap_append, List.flatMap_singleton]
  simp only [List.append_assoc]

end LastListed

end Hecaton.Pass1
