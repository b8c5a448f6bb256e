import Hecaton.Pass1.ScopeAndOrder

/-!
# The declarations of a whole body

The pass rewrites declarations in two ways: those of nested blocks are declared anew at the
start of the function, those of the outermost block behind the last declaration, and an
initial value becomes an assignment.  Where the separated declarations stand together with
the last one, both ways keep each group of declarations at its place.
-/

namespace Hecaton.Pass1

open Hecaton.Library

/-! ## Bodies -/

/-- A statement of a body: declarations that stand together, so that a call passes all or
none of them, or another statement, with the statements below it. -/
inductive BodyItem
  | decls (place : Nat) (stmts : List DeclStmt)
  | block (inMacro : Bool) (items : List BodyItem)

/-- Declarations that stand together, in the outermost block or a nested one, and whether the
pass comes to them.  What begins in a macro is passed over with all that is below it. -/
structure Group where
  place : Nat
  stmts : List DeclStmt
  nested : Bool
  visited : Bool

mutual

/-- The declarations of a statement. -/
def BodyItem.groups (nested visited : Bool) : BodyItem → List Group
  | .decls place stmts => [⟨place, stmts, nested, visited⟩]
  | .block inMacro items => groupsOf true (visited && !inMacro) items

/-- The declarations of a list of statements. -/
def groupsOf (nested visited : Bool) : List BodyItem → List Group
  | [] => []
  | item :: rest => item.groups nested visited ++ groupsOf nested visited rest

end

mutual

/-- The declarations of a statement as they stand, each group at its place. -/
def BodyItem.texts : BodyItem → List TextAt
  | .decls place stmts => [⟨place, originalText stmts⟩]
  | .block _ items => textsOf items

/-- The declarations of a list of statements as they stand. -/
def textsOf : List BodyItem → List TextAt
  | [] => []
  | item :: rest => item.texts ++ textsOf rest

end

/-- The statements of all groups. -/
def stmtsOf (groups : List Group) : List DeclStmt := groups.flatMap Group.stmts

/-- The body of a function.  Different groups have different places, and different
declarations begin at different places and declare different variables. -/
structure FunctionBody where
  items : List BodyItem
  distinctPlaces : ((groupsOf false true items).map Group.place).Nodup
  distinctStmts : ((stmtsOf (groupsOf false true items)).map DeclStmt.beginLoc).Nodup
  distinctVars : (((stmtsOf (groupsOf false true items)).flatMap
    DeclStmt.declarators).map Declarator.id).Nodup

def FunctionBody.groups (body : FunctionBody) : List Group := groupsOf false true body.items

/-- What a text of the function does to the variables: behind the opening brace, and at the
places of the declarations. -/
structure FunctionText where
  opening : List Piece
  places : List TextAt

def FunctionText.pieces (text : FunctionText) : List Piece :=
  text.opening ++ text.places.flatMap TextAt.pieces

def FunctionBody.original (body : FunctionBody) : FunctionText := ⟨[], textsOf body.items⟩

/-! ## The pass -/

/-- The visit rewrites a declaration statement of a nested block. -/
def DeclStmt.isMoved (stmt : DeclStmt) : Bool := !stmt.inMacro && !stmt.hasArrayInit

/-- What `var_declVisit` leaves of a declaration statement of a nested block. -/
def DeclStmt.movedPieces (stmt : DeclStmt) : List Piece :=
  if stmt.isMoved then stmt.initializations ++ if stmt.hidden then [] else [.torn]
  else stmt.pieces

/-- The text that the visit has left of a statement. -/
def TopItem.texts : TopItem → List TextAt
  | .decls place stmts => [⟨place, originalText stmts⟩]
  | .other texts => texts

mutual

/-- `var_declVisit`, for one statement: what it leaves of it, and the declarators that it
notes in `varDecls`. -/
def BodyItem.varDeclVisit (depth : Nat) : BodyItem → TopItem × List Declarator
  | .decls place stmts =>
      if depth > 1 then
        (.other [⟨place, stmts.flatMap DeclStmt.movedPieces⟩],
          (stmts.filter DeclStmt.isMoved).flatMap DeclStmt.declarators)
      else (.decls place stmts, [])
  | .block inMacro items =>
      if inMacro then (.other (textsOf items), [])
      else
        let (left, varDecls) := BodyItem.varDeclVisitAll (depth + 1) items
        (.other (left.flatMap TopItem.texts), varDecls)

/-- `var_declVisit`. -/
def BodyItem.varDeclVisitAll (depth : Nat) : List BodyItem → List TopItem × List Declarator
  | [] => ([], [])
  | item :: rest =>
      let (left, varDecls) := item.varDeclVisit depth
      let (leftRest, varDeclsRest) := BodyItem.varDeclVisitAll depth rest
      (left :: leftRest, varDecls ++ varDeclsRest)

end

/-- `insert_var_decl`: the type string has no storage class. -/
def insertDecls (varDecls : List Declarator) : List Piece := varDecls.map .redeclare

/-- The text that the pass leaves of a body: the nested declarations are moved to the start,
then those of the outermost block are separated. -/
def FunctionBody.rewritten (body : FunctionBody) : FunctionText :=
  let (left, varDecls) := BodyItem.varDeclVisitAll 1 body.items
  ⟨insertDecls varDecls, seperateDeclInit left⟩

/-! ## What becomes of the declarations -/

/-- The declaration is written anew, without its storage class. -/
def Group.isRewritten (group : Group) (stmt : DeclStmt) : Bool :=
  if group.nested then group.visited && stmt.isMoved else stmt.isSeparated

/-- The group in the original text. -/
def Group.originalAt (group : Group) : TextAt := ⟨group.place, originalText group.stmts⟩

/-- What the pass leaves of a group, if nothing else is inserted behind it. -/
def Group.rewrittenText (group : Group) : List Piece :=
  if group.nested then
    if group.visited then group.stmts.flatMap DeclStmt.movedPieces else originalText group.stmts
  else separatedText group.stmts

def Group.rewrittenAt (group : Group) : TextAt := ⟨group.place, group.rewrittenText⟩

/-- The declarators of the group that are moved to the start. -/
def Group.movedDecls (group : Group) : List Declarator :=
  if group.nested && group.visited then
    (group.stmts.filter DeclStmt.isMoved).flatMap DeclStmt.declarators
  else []

/-- The declarations of the outermost block. -/
def outermostOf (items : List BodyItem) : List DeclStmt :=
  items.flatMap fun
    | .decls _ stmts => stmts
    | .block _ _ => []

/-- A declaration of a nested block can be moved: as a comment it is hidden, a line of type
and name declares each of its variables wherever it stands, since the type names no variable,
and those with an initial value can be assigned to. -/
structure DeclStmt.CanMove (stmt : DeclStmt) : Prop where
  hidden : stmt.hidden = true
  simple : ∀ d ∈ stmt.declarators, d.lineDeclares = true
  alone : ∀ d ∈ stmt.declarators, d.typeUses = []
  assignable : ∀ d ∈ stmt.initialisers, d.canAssign = true

/-- The pass can rewrite the declarations: the moved ones can be moved, and the separated ones
stand together with the last declaration that is listed and can be separated there. -/
structure FunctionBody.Rewritable (body : FunctionBody) : Prop where
  moved : ∀ group ∈ body.groups, group.nested = true → ∀ stmt ∈ group.stmts,
    group.isRewritten stmt = true → stmt.CanMove
  separated : ∀ before place stmts after, body.items = before ++ .decls place stmts :: after →
    (∃ stmt ∈ stmts, stmt.isSeparated = true) →
      StaysInOrder stmts ∧ ∀ stmt ∈ outermostOf after, stmt.isListed = false

mutual

theorem BodyItem.texts_eq (nested visited : Bool) :
    ∀ item : BodyItem, item.texts = (item.groups nested visited).map Group.originalAt
  | .decls place stmts => by rw [BodyItem.texts, BodyItem.groups]; rfl
  | .block inMacro items => by
      rw [BodyItem.texts, BodyItem.groups]
      exact textsOf_eq true _ items

/-- The text of the groups, each at its place. -/
theorem textsOf_eq (nested visited : Bool) :
    ∀ items : List BodyItem, textsOf items = (groupsOf nested visited items).map Group.originalAt
  | [] => by rw [textsOf, groupsOf, List.map_nil]
  | item :: rest => by
      rw [textsOf, groupsOf, List.map_append, ← item.texts_eq, ← textsOf_eq]

end

mutual

theorem BodyItem.groups_nested (visited : Bool) : ∀ (item : BodyItem) (group : Group),
    group ∈ item.groups true visited →
      group.nested = true ∧ (visited = false → group.visited = false)
  | .decls place stmts, group, groupMem => by
      rw [BodyItem.groups, List.mem_singleton] at groupMem
      rw [groupMem]
      exact ⟨rfl, id⟩
  | .block inMacro items, group, groupMem => by
      rw [BodyItem.groups] at groupMem
      obtain ⟨nested, unvisited⟩ := groupsOf_nested (visited && !inMacro) items group groupMem
      exact ⟨nested, fun passedOver => unvisited (by rw [passedOver, Bool.false_and])⟩

/-- The groups below a nested block. -/
theorem groupsOf_nested (visited : Bool) : ∀ (items : List BodyItem) (group : Group),
    group ∈ groupsOf true visited items →
      group.nested = true ∧ (visited = false → group.visited = false)
  | [], group, groupMem => by
      rw [groupsOf] at groupMem
      exact absurd groupMem List.not_mem_nil
  | item :: rest, group, groupMem => by
      rw [groupsOf, List.mem_append] at groupMem
      rcases groupMem with inItem | inRest
      · exact item.groups_nested visited group inItem
      · exact groupsOf_nested visited rest group inRest

end

/-- What the pass does not come to stays. -/
theorem textsOf_unvisited (items : List BodyItem) :
    textsOf items = (groupsOf true false items).map Group.rewrittenAt ∧
      (groupsOf true false items).flatMap Group.movedDecls = [] := by
  constructor
  · rw [textsOf_eq true false]
    apply List.map_congr_left
    intro group groupMem
    obtain ⟨nested, unvisited⟩ := groupsOf_nested false items group groupMem
    rw [Group.originalAt, Group.rewrittenAt, Group.rewrittenText, nested, unvisited rfl]
    rfl
  · rw [List.flatMap_eq_nil_iff]
    intro group groupMem
    obtain ⟨_, unvisited⟩ := groupsOf_nested false items group groupMem
    rw [Group.movedDecls, unvisited rfl, Bool.and_false]
    rfl

mutual

/-- What the visit makes of a nested statement. -/
theorem BodyItem.varDeclVisit_nested (depth : Nat) : ∀ item : BodyItem,
    (item.varDeclVisit (depth + 2)).1.texts = (item.groups true true).map Group.rewrittenAt ∧
      (item.varDeclVisit (depth + 2)).2 = (item.groups true true).flatMap Group.movedDecls
  | .decls place stmts => by
      rw [BodyItem.varDeclVisit, BodyItem.groups, if_pos (by omega : depth + 2 > 1)]
      exact ⟨rfl, (List.flatMap_singleton _ _).symm⟩
  | .block inMacro items => by
      rw [BodyItem.varDeclVisit, BodyItem.groups]
      cases inMacro with
      | true =>
          obtain ⟨texts, noneMoved⟩ := textsOf_unvisited items
          exact ⟨texts, noneMoved.symm⟩
      | false => exact varDeclVisitAll_nested (depth + 1) items

theorem varDeclVisitAll_nested (depth : Nat) : ∀ items : List BodyItem,
    (BodyItem.varDeclVisitAll (depth + 2) items).1.flatMap TopItem.texts =
        (groupsOf true true items).map Group.rewrittenAt ∧
      (BodyItem.varDeclVisitAll (depth + 2) items).2 =
        (groupsOf true true items).flatMap Group.movedDecls
  | [] => by
      rw [BodyItem.varDeclVisitAll, groupsOf]
      exact ⟨rfl, rfl⟩
  | item :: rest => by
      obtain ⟨texts, moved⟩ := item.varDeclVisit_nested depth
      obtain ⟨textsRest, movedRest⟩ := varDeclVisitAll_nested depth rest
      rw [BodyItem.varDeclVisitAll, groupsOf, List.map_append, List.flatMap_append,
        List.flatMap_cons, texts, textsRest, ← moved, ← movedRest]
      exact ⟨rfl, rfl⟩

end

theorem varDeclVisitAll_eq (depth : Nat) (items : List BodyItem) :
    BodyItem.varDeclVisitAll depth items =
      (items.map fun item => (item.varDeclVisit depth).1,
        items.flatMap fun item => (item.varDeclVisit depth).2) := by
  induction items with
  | nil => rfl
  | cons item rest ih => rw [BodyItem.varDeclVisitAll, ih, List.map_cons, List.flatMap_cons]

theorem groupsOf_eq (nested visited : Bool) (items : List BodyItem) :
    groupsOf nested visited items = items.flatMap (BodyItem.groups nested visited) := by
  induction items with
  | nil => rfl
  | cons item rest ih => rw [groupsOf, ih, List.flatMap_cons]

/-- The visit leaves the declarations of the outermost block. -/
theorem varDeclVisit_decls (place : Nat) (stmts : List DeclStmt) :
    (BodyItem.decls place stmts).varDeclVisit 1 = (.decls place stmts, []) := by
  rw [BodyItem.varDeclVisit, if_neg (by omega)]

/-- What the visit makes of a block below the outermost one. -/
theorem varDeclVisit_block (inMacro : Bool) (items : List BodyItem) :
    (BodyItem.block inMacro items).varDeclVisit 1 =
      (.other (((BodyItem.block inMacro items).groups false true).map Group.rewrittenAt),
        ((BodyItem.block inMacro items).groups false true).flatMap Group.movedDecls) := by
  rw [BodyItem.varDeclVisit, BodyItem.groups]
  cases inMacro with
  | true =>
      obtain ⟨texts, noneMoved⟩ := textsOf_unvisited items
      exact Prod.ext (congrArg TopItem.other texts) noneMoved.symm
  | false =>
      obtain ⟨texts, moved⟩ := varDeclVisitAll_nested 0 items
      exact Prod.ext (congrArg TopItem.other texts) moved

/-! ## The declarations of the outermost block -/

theorem outermostOf_append (first second : List BodyItem) :
    outermostOf (first ++ second) = outermostOf first ++ outermostOf second :=
  List.flatMap_append

theorem declStmtsOf_varDeclVisit (items : List BodyItem) :
    declStmtsOf (items.map fun item => (item.varDeclVisit 1).1) = outermostOf items := by
  rw [declStmtsOf, List.flatMap_map, outermostOf]
  apply List.flatMap_congr
  intro item _
  cases item with
  | decls place stmts => rw [varDeclVisit_decls]
  | block inMacro items => rw [varDeclVisit_block]

theorem outermostOf_sublist (items : List BodyItem) :
    (outermostOf items).Sublist (stmtsOf (groupsOf false true items)) := by
  induction items with
  | nil => exact List.Sublist.refl []
  | cons item rest ih =>
      rw [outermostOf, List.flatMap_cons, groupsOf, stmtsOf, List.flatMap_append]
      refine List.Sublist.append ?_ ih
      cases item with
      | decls place stmts =>
          rw [BodyItem.groups, List.flatMap_singleton]
      | block inMacro items => exact List.nil_sublist _

theorem DeclStmt.isListed_of_isSeparated {stmt : DeclStmt} (separated : stmt.isSeparated = true) :
    stmt.isListed = true := by
  by_contra unlisted
  rw [DeclStmt.isSeparated_of_unlisted (Bool.eq_false_iff.mpr unlisted)] at separated
  exact Bool.noConfusion separated

/-- Where a statement is separated, one of the statements is the last that is listed. -/
theorem exists_lastListed_of_isSeparated {stmts : List DeclStmt} {stmt : DeclStmt}
    (stmtMem : stmt ∈ stmts) (separated : stmt.isSeparated = true) :
    ∃ front last back, stmts = front ++ last :: back ∧ last.isListed = true ∧
      ∀ stmt ∈ back, stmt.isListed = false := by
  rcases exists_lastListed stmts with unlisted | split
  · have listed := DeclStmt.isListed_of_isSeparated separated
    rw [unlisted stmt stmtMem] at listed
    exact Bool.noConfusion listed
  · exact split

section Part

variable {first part second : List DeclStmt} {stmt other : DeclStmt}
  (distinct : ((first ++ part ++ second).map DeclStmt.beginLoc).Nodup)

theorem isLastDecl_of_apart {all front back : List DeclStmt} {last : DeclStmt}
    (split : all = front ++ last :: back) (listed : last.isListed = true)
    (unlisted : ∀ stmt ∈ back, stmt.isListed = false) (apart : stmt.beginLoc ≠ last.beginLoc) :
    isLastDecl (fncDeclsOf all) stmt = false := by
  rw [isLastDecl, lastDecl_of_lastListed split listed unlisted]
  simpa using apart.symm

include distinct

/-- Where a statement behind the part is separated, the part does not have the last
declaration. -/
theorem isLastDecl_of_separatedBehind (stmtMem : stmt ∈ part) (otherMem : other ∈ second)
    (separated : other.isSeparated = true) :
    isLastDecl (fncDeclsOf (first ++ part ++ second)) stmt = false := by
  obtain ⟨front, last, back, rfl, listed, unlisted⟩ :=
    exists_lastListed_of_isSeparated otherMem separated
  have split : first ++ part ++ (front ++ last :: back) =
      (first ++ part ++ front) ++ last :: back := (List.append_assoc _ _ _).symm
  apply isLastDecl_of_apart split listed unlisted
  intro same
  rw [List.map_append, List.nodup_append] at distinct
  exact distinct.2.2 _ (List.mem_map_of_mem (List.mem_append_right _ stmtMem)) _
    (List.mem_map_of_mem (List.mem_append_right _ List.mem_cons_self)) same

/-- Nor does it where a statement before the part is separated and nothing behind that is
listed. -/
theorem isLastDecl_of_separatedBefore (stmtMem : stmt ∈ part) (otherMem : other ∈ first)
    (separated : other.isSeparated = true)
    (unlistedBehind : ∀ stmt ∈ part ++ second, stmt.isListed = false) :
    isLastDecl (fncDeclsOf (first ++ part ++ second)) stmt = false := by
  obtain ⟨front, last, back, rfl, listed, unlisted⟩ :=
    exists_lastListed_of_isSeparated otherMem separated
  have split : front ++ last :: back ++ part ++ second =
      front ++ last :: (back ++ (part ++ second)) := by simp
  apply isLastDecl_of_apart split listed
  · intro later laterMem
    rcases List.mem_append.mp laterMem with inBack | behind
    · exact unlisted later inBack
    · exact unlistedBehind later behind
  · intro same
    rw [List.map_append, List.map_append, List.nodup_append, List.nodup_append] at distinct
    exact distinct.1.2.2 _ (List.mem_map_of_mem (List.mem_append_right _ List.mem_cons_self)) _
      (List.mem_map_of_mem stmtMem) same.symm

/-- A part without a separated statement stays as it is, where what is separated before it is
separated behind the last declaration. -/
theorem writtenDecls_of_stays (stays : ∀ stmt ∈ part, stmt.isSeparated = false)
    (isLast : (∃ stmt ∈ first, stmt.isSeparated = true) →
      ∀ stmt ∈ part ++ second, stmt.isListed = false) :
    writtenDecls (fncDeclsOf (first ++ part ++ second))
        ((first ++ part ++ second).filter DeclStmt.isSeparated) part = originalText part := by
  apply List.flatMap_congr
  intro stmt stmtMem
  rw [leftOf_filter distinct (List.mem_append_left _ (List.mem_append_right _ stmtMem)),
    DeclStmt.leftPieces_of_not_isSeparated (stays stmt stmtMem)]
  by_cases noneSeparated : (first ++ part ++ second).filter DeclStmt.isSeparated = []
  · rw [noneSeparated]
    simp [insertedBehind]
  · have notLast : isLastDecl (fncDeclsOf (first ++ part ++ second)) stmt = false := by
      obtain ⟨other, otherMem⟩ := List.exists_mem_of_ne_nil _ noneSeparated
      obtain ⟨inAll, separated⟩ := List.mem_filter.mp otherMem
      rw [List.mem_append, List.mem_append] at inAll
      rcases inAll with (inFirst | inPart) | inSecond
      · exact isLastDecl_of_separatedBefore distinct stmtMem inFirst separated
          (isLast ⟨other, inFirst, separated⟩)
      · rw [stays other inPart] at separated
        exact Bool.noConfusion separated
      · exact isLastDecl_of_separatedBehind distinct stmtMem inSecond separated
    rw [notLast, if_neg Bool.false_ne_true, List.append_nil]

/-- In a part that has the separated statements and the last declaration they are separated
as if it were alone. -/
theorem writtenDecls_of_separated (separated : ∃ stmt ∈ part, stmt.isSeparated = true)
    (staysBefore : ∀ stmt ∈ first, stmt.isSeparated = false)
    (unlistedBehind : ∀ stmt ∈ second, stmt.isListed = false) :
    writtenDecls (fncDeclsOf (first ++ part ++ second))
        ((first ++ part ++ second).filter DeclStmt.isSeparated) part = separatedText part := by
  obtain ⟨stmt, stmtMem, isSeparated⟩ := separated
  obtain ⟨front, last, back, split, listed, unlisted⟩ :=
    exists_lastListed_of_isSeparated stmtMem isSeparated
  have sameSeparated : (first ++ part ++ second).filter DeclStmt.isSeparated =
      part.filter DeclStmt.isSeparated := by
    have noneBefore : first.filter DeclStmt.isSeparated = [] := by
      rw [List.filter_eq_nil_iff]
      intro other otherMem
      rw [staysBefore other otherMem]
      exact Bool.false_ne_true
    rw [List.filter_append, List.filter_append, noneBefore,
      filter_isSeparated_eq_nil unlistedBehind, List.append_nil, List.nil_append]
  have distinctPart : (part.map DeclStmt.beginLoc).Nodup := by
    rw [List.map_append, List.map_append, List.nodup_append, List.nodup_append] at distinct
    exact distinct.1.2.1
  have isLast : ((fncDeclsOf (first ++ part ++ second)).getLast?.map
      fun entry => entry.1.beginLoc) = some last.beginLoc := by
    have whole : first ++ part ++ second = (first ++ front) ++ last :: (back ++ second) := by
      rw [split]
      simp
    apply lastDecl_of_lastListed whole listed
    intro later laterMem
    rcases List.mem_append.mp laterMem with inBack | behind
    · exact unlisted later inBack
    · exact unlistedBehind later behind
  have alone := lastDecl_of_lastListed split listed unlisted
  rw [separatedText_eq distinctPart, sameSeparated]
  apply List.flatMap_congr
  intro stmt _
  rw [isLastDecl, isLastDecl, isLast, alone]

end Part

theorem separatedText_of_stays {stmts : List DeclStmt}
    (distinct : (stmts.map DeclStmt.beginLoc).Nodup)
    (stays : ∀ stmt ∈ stmts, stmt.isSeparated = false) :
    separatedText stmts = originalText stmts := by
  have alone : ([] ++ stmts ++ []) = stmts := List.append_nil stmts
  have written : writtenDecls (fncDeclsOf ([] ++ stmts ++ []))
      (([] ++ stmts ++ []).filter DeclStmt.isSeparated) stmts = originalText stmts :=
    writtenDecls_of_stays (by rwa [alone]) stays
      fun ⟨_, stmtMem, _⟩ => absurd stmtMem List.not_mem_nil
  rwa [alone, ← separatedText_eq distinct] at written

section Body

variable {body : FunctionBody}

theorem FunctionBody.distinctOutermost (body : FunctionBody) :
    ((outermostOf body.items).map DeclStmt.beginLoc).Nodup :=
  body.distinctStmts.sublist ((outermostOf_sublist body.items).map _)

/-- What the separation leaves of declarations of the outermost block. -/
theorem FunctionBody.Rewritable.writtenDecls_eq (rewritable : body.Rewritable)
    {before after : List BodyItem} {place : Nat} {stmts : List DeclStmt}
    (split : body.items = before ++ .decls place stmts :: after) :
    writtenDecls (fncDeclsOf (outermostOf body.items))
        ((outermostOf body.items).filter DeclStmt.isSeparated) stmts = separatedText stmts := by
  have distinct := body.distinctOutermost
  have whole : outermostOf body.items = outermostOf before ++ stmts ++ outermostOf after := by
    rw [split, outermostOf_append, List.append_assoc]
    rfl
  -- Behind a separated statement of an earlier group nothing is listed.
  have isLast : ∀ stmt ∈ outermostOf before, stmt.isSeparated = true →
      ∀ later ∈ stmts ++ outermostOf after, later.isListed = false := by
    intro stmt stmtMem separated later laterMem
    obtain ⟨item, itemMem, ofItem⟩ := List.mem_flatMap.mp stmtMem
    cases item with
    | block inMacro items => exact absurd ofItem List.not_mem_nil
    | decls otherPlace others =>
        obtain ⟨front, back, rfl⟩ := List.append_of_mem itemMem
        have splitOther : body.items =
            front ++ .decls otherPlace others :: (back ++ .decls place stmts :: after) := by
          rw [split, List.append_assoc]
          rfl
        apply (rewritable.separated _ _ _ _ splitOther ⟨stmt, ofItem, separated⟩).2 later
        rw [outermostOf_append]
        exact List.mem_append_right _ laterMem
  rw [whole] at distinct ⊢
  by_cases separated : ∃ stmt ∈ stmts, stmt.isSeparated = true
  · apply writtenDecls_of_separated distinct separated
    · intro stmt stmtMem
      by_contra separatedBefore
      rw [Bool.not_eq_false] at separatedBefore
      obtain ⟨here, hereMem, separatedHere⟩ := separated
      have listed := DeclStmt.isListed_of_isSeparated separatedHere
      rw [isLast stmt stmtMem separatedBefore here (List.mem_append_left _ hereMem)] at listed
      exact Bool.noConfusion listed
    · exact (rewritable.separated _ _ _ _ split separated).2
  · have stays : ∀ stmt ∈ stmts, stmt.isSeparated = false := fun stmt stmtMem =>
      Bool.eq_false_iff.mpr fun isSeparated => separated ⟨stmt, stmtMem, isSeparated⟩
    have distinctPart := distinct
    rw [List.map_append, List.map_append, List.nodup_append, List.nodup_append] at distinctPart
    rw [separatedText_of_stays distinctPart.1.2.1 stays]
    exact writtenDecls_of_stays distinct stays fun ⟨stmt, stmtMem, isSeparated⟩ =>
      isLast stmt stmtMem isSeparated

theorem FunctionBody.rewritten_eq (body : FunctionBody) :
    body.rewritten =
      ⟨insertDecls (body.items.flatMap fun item => (item.varDeclVisit 1).2),
        seperateDeclInit (body.items.map fun item => (item.varDeclVisit 1).1)⟩ := by
  rw [FunctionBody.rewritten, varDeclVisitAll_eq]

/-- Behind the opening brace stand the declarators that are moved. -/
theorem FunctionBody.rewritten_opening (body : FunctionBody) :
    body.rewritten.opening = insertDecls (body.groups.flatMap Group.movedDecls) := by
  rw [body.rewritten_eq, FunctionBody.groups, groupsOf_eq, List.flatMap_assoc]
  apply congrArg insertDecls
  apply List.flatMap_congr
  intro item _
  cases item with
  | decls place stmts =>
      rw [varDeclVisit_decls, BodyItem.groups, List.flatMap_singleton]
      rfl
  | block inMacro items => rw [varDeclVisit_block]

/-- Each group is rewritten at its place. -/
theorem FunctionBody.Rewritable.rewritten_places (rewritable : body.Rewritable) :
    body.rewritten.places = body.groups.map Group.rewrittenAt := by
  rw [body.rewritten_eq, FunctionBody.groups, groupsOf_eq, List.map_flatMap]
  simp only [seperateDeclInit, declStmtsOf_varDeclVisit,
    findSeperations_eq_filter body.distinctOutermost, List.flatMap_map]
  apply List.flatMap_congr
  intro item itemMem
  cases item with
  | decls place stmts =>
      obtain ⟨before, after, split⟩ := List.append_of_mem itemMem
      rw [varDeclVisit_decls, BodyItem.groups]
      exact congrArg (fun pieces => [TextAt.mk place pieces]) (rewritable.writtenDecls_eq split)
  | block inMacro items => rw [varDeclVisit_block]

theorem FunctionBody.original_places (body : FunctionBody) :
    body.original.places = body.groups.map Group.originalAt := textsOf_eq false true body.items

/-! ## The groups of a body that can be rewritten -/

variable {group : Group}

theorem mem_decls_of_outermost (groupMem : group ∈ body.groups) (outermost : group.nested = false) :
    BodyItem.decls group.place group.stmts ∈ body.items := by
  rw [FunctionBody.groups, groupsOf_eq] at groupMem
  obtain ⟨item, itemMem, ofItem⟩ := List.mem_flatMap.mp groupMem
  cases item with
  | decls place stmts =>
      rw [BodyItem.groups, List.mem_singleton] at ofItem
      rw [ofItem]
      exact itemMem
  | block inMacro items =>
      rw [BodyItem.groups] at ofItem
      have nested := (groupsOf_nested _ items group ofItem).1
      rw [outermost] at nested
      exact Bool.noConfusion nested

theorem staysInOrder_of_stays {stmts : List DeclStmt}
    (stays : ∀ stmt ∈ stmts, stmt.isSeparated = false) : StaysInOrder stmts := by
  have impossible : ∀ stmt ∈ stmts, ¬stmt.isSeparated = true := fun stmt stmtMem =>
    Bool.eq_false_iff.mp (stays stmt stmtMem)
  constructor
  · exact fun stmt stmtMem separated => absurd separated (impossible stmt stmtMem)
  · intro front last back split _ _
    have isPart : ∀ stmt ∈ front ++ [last], stmt ∈ stmts := by
      intro stmt stmtMem
      rw [split, List.append_cons]
      exact List.mem_append_left _ stmtMem
    constructor
    · apply List.pairwise_of_forall_mem_list
      exact fun first firstMem _ _ separated =>
        absurd separated (impossible first (isPart first firstMem))
    · apply List.pairwise_of_forall_mem_list
      exact fun first firstMem _ _ separated =>
        absurd separated (impossible first (isPart first firstMem))
    · rintro ⟨stmt, stmtMem, separated⟩
      exact absurd separated (impossible stmt (isPart stmt stmtMem))

/-- In a group of the outermost block nothing is overtaken. -/
theorem FunctionBody.Rewritable.staysInOrder (rewritable : body.Rewritable)
    (groupMem : group ∈ body.groups) (outermost : group.nested = false) :
    StaysInOrder group.stmts := by
  by_cases separated : ∃ stmt ∈ group.stmts, stmt.isSeparated = true
  · obtain ⟨before, after, split⟩ := List.append_of_mem (mem_decls_of_outermost groupMem outermost)
    exact (rewritable.separated _ _ _ _ split separated).1
  · exact staysInOrder_of_stays fun stmt stmtMem =>
      Bool.eq_false_iff.mpr fun isSeparated => separated ⟨stmt, stmtMem, isSeparated⟩

theorem FunctionBody.distinctPlaces_group (groupMem : group ∈ body.groups) :
    (group.stmts.map DeclStmt.beginLoc).Nodup := by
  have distinct := body.distinctStmts
  rw [stmtsOf, List.map_flatMap, List.nodup_flatMap] at distinct
  exact distinct.1 group groupMem

theorem FunctionBody.distinctVars_group (groupMem : group ∈ body.groups) :
    ((group.stmts.flatMap DeclStmt.declarators).map Declarator.id).Nodup := by
  have distinct := body.distinctVars
  rw [stmtsOf, List.flatMap_assoc, List.map_flatMap, List.nodup_flatMap] at distinct
  exact distinct.1 group groupMem

/-- What the visit leaves of a statement that can be moved. -/
theorem DeclStmt.movedPieces_of_canMove {stmt : DeclStmt} (moved : stmt.isMoved = true)
    (canMove : stmt.CanMove) : stmt.movedPieces = stmt.initializations := by
  rw [DeclStmt.movedPieces, moved, canMove.hidden]
  exact List.append_nil _

theorem DeclStmt.movedPieces_of_stays {stmt : DeclStmt} (stays : stmt.isMoved = false) :
    stmt.movedPieces = stmt.pieces := by
  rw [DeclStmt.movedPieces, stays]
  rfl

/-- A statement of a nested block is rewritten if the visit comes to it and moves it. -/
theorem Group.isRewritten_nested {stmt : DeclStmt} (nested : group.nested = true) :
    group.isRewritten stmt = (group.visited && stmt.isMoved) := by
  rw [Group.isRewritten, nested, if_pos rfl]

theorem Group.isRewritten_outermost {stmt : DeclStmt} (outermost : group.nested = false) :
    group.isRewritten stmt = stmt.isSeparated := by
  rw [Group.isRewritten, outermost, if_neg Bool.false_ne_true]

/-- The text of a nested group: each statement is moved or stays. -/
theorem FunctionBody.Rewritable.rewrittenText_nested (rewritable : body.Rewritable)
    (groupMem : group ∈ body.groups) (nested : group.nested = true) :
    group.rewrittenText = group.stmts.flatMap fun stmt =>
      if group.isRewritten stmt then stmt.initializations else stmt.pieces := by
  rw [Group.rewrittenText, nested, if_pos rfl]
  cases visited : group.visited with
  | false =>
      rw [if_neg Bool.false_ne_true]
      apply List.flatMap_congr
      intro stmt _
      rw [Group.isRewritten_nested nested, visited]
      rfl
  | true =>
      rw [if_pos rfl]
      apply List.flatMap_congr
      intro stmt stmtMem
      by_cases isRewritten : group.isRewritten stmt = true
      · have moved := isRewritten
        rw [Group.isRewritten_nested nested, visited, Bool.true_and] at moved
        rw [if_pos isRewritten, DeclStmt.movedPieces_of_canMove moved
          (rewritable.moved group groupMem nested stmt stmtMem isRewritten)]
      · have stays := isRewritten
        rw [Group.isRewritten_nested nested, visited, Bool.true_and, Bool.not_eq_true] at stays
        rw [if_neg isRewritten, DeclStmt.movedPieces_of_stays stays]

theorem Group.rewrittenText_outermost (outermost : group.nested = false) :
    group.rewrittenText = separatedText group.stmts := by
  rw [Group.rewrittenText, outermost]
  rfl

theorem redeclare_notMem_pieces {stmt : DeclStmt} {d : Declarator} :
    .redeclare d ∉ stmt.pieces := by
  intro redeclared
  obtain ⟨e, _, isDeclare | ⟨_, isInit⟩⟩ := DeclStmt.mem_pieces.mp redeclared
  · cases isDeclare
  · cases isInit

theorem assign_notMem_pieces {stmt : DeclStmt} {d : Declarator} : .assign d ∉ stmt.pieces := by
  intro assigned
  obtain ⟨e, _, isDeclare | ⟨_, isInit⟩⟩ := DeclStmt.mem_pieces.mp assigned
  · cases isDeclare
  · cases isInit

theorem redeclare_notMem_initializations {stmt : DeclStmt} {d : Declarator} :
    .redeclare d ∉ stmt.initializations := by
  intro redeclared
  obtain ⟨e, _, isAssign⟩ := List.mem_map.mp redeclared
  cases isAssign

/-- The text of a group is put together from what stays, the new lines and the assignments;
behind the first assignment there is no new line. -/
structure Group.SplitsInto (group : Group) (first second : List Piece) : Prop where
  text : group.rewrittenText = first ++ second
  only : ∀ piece ∈ group.rewrittenText,
    (∃ stmt ∈ group.stmts, group.isRewritten stmt = false ∧ piece ∈ stmt.pieces) ∨
      ∃ stmt ∈ group.stmts, group.isRewritten stmt = true ∧
        piece ∈ stmt.declarations ++ stmt.initializations
  kept : ∀ stmt ∈ group.stmts, group.isRewritten stmt = false →
    ∀ piece ∈ stmt.pieces, piece ∈ group.rewrittenText
  noLine : ∀ d, .redeclare d ∉ second
  assigned : ∀ stmt ∈ group.stmts, group.isRewritten stmt = true →
    ∀ piece ∈ stmt.initializations, piece ∈ second

theorem FunctionBody.Rewritable.splitsInto_nested (rewritable : body.Rewritable)
    (groupMem : group ∈ body.groups) (nested : group.nested = true) :
    group.SplitsInto [] group.rewrittenText := by
  have whole := rewritable.rewrittenText_nested groupMem nested
  constructor
  · rfl
  · intro piece pieceMem
    rw [whole] at pieceMem
    obtain ⟨stmt, stmtMem, ofStmt⟩ := List.mem_flatMap.mp pieceMem
    split at ofStmt
    · rename_i isRewritten
      exact Or.inr ⟨stmt, stmtMem, isRewritten, List.mem_append_right _ ofStmt⟩
    · rename_i stays
      exact Or.inl ⟨stmt, stmtMem, Bool.eq_false_iff.mpr stays, ofStmt⟩
  · intro stmt stmtMem stays piece pieceMem
    rw [whole]
    refine List.mem_flatMap.mpr ⟨stmt, stmtMem, ?_⟩
    rwa [stays, if_neg Bool.false_ne_true]
  · intro d redeclared
    rw [whole] at redeclared
    obtain ⟨stmt, stmtMem, ofStmt⟩ := List.mem_flatMap.mp redeclared
    split at ofStmt
    · exact redeclare_notMem_initializations ofStmt
    · exact redeclare_notMem_pieces ofStmt
  · intro stmt stmtMem isRewritten piece pieceMem
    rw [whole]
    refine List.mem_flatMap.mpr ⟨stmt, stmtMem, ?_⟩
    rwa [if_pos isRewritten]

theorem FunctionBody.Rewritable.splitsInto_outermost (rewritable : body.Rewritable)
    (groupMem : group ∈ body.groups) (outermost : group.nested = false) :
    ∃ first second, group.SplitsInto first second := by
  obtain ⟨kept, behind, keptAll, whole⟩ := (rewritable.staysInOrder groupMem
    outermost).separatedText_split (FunctionBody.distinctPlaces_group groupMem)
  rw [← Group.rewrittenText_outermost outermost] at whole
  have isKept : ∀ stmt, stmt ∈ kept ++ behind ↔
      stmt ∈ group.stmts ∧ group.isRewritten stmt = false := by
    intro stmt
    rw [keptAll, List.mem_filter, Bool.not_eq_true', Group.isRewritten_outermost outermost]
  have isSeparated : ∀ stmt, stmt ∈ group.stmts.filter DeclStmt.isSeparated ↔
      stmt ∈ group.stmts ∧ group.isRewritten stmt = true := by
    intro stmt
    rw [List.mem_filter, Group.isRewritten_outermost outermost]
  refine ⟨originalText kept ++ (group.stmts.filter DeclStmt.isSeparated).flatMap
      DeclStmt.declarations, (group.stmts.filter DeclStmt.isSeparated).flatMap
        DeclStmt.initializations ++ originalText behind, ?_, ?_, ?_, ?_, ?_⟩
  · rw [whole, toInsert]
    simp only [List.append_assoc]
  · intro piece pieceMem
    rw [whole, toInsert, List.mem_append, List.mem_append, List.mem_append] at pieceMem
    rcases pieceMem with (ofKept | declared | assigned) | ofBehind
    · obtain ⟨stmt, stmtMem, ofStmt⟩ := List.mem_flatMap.mp ofKept
      obtain ⟨inGroup, stays⟩ := (isKept stmt).mp (List.mem_append_left _ stmtMem)
      exact Or.inl ⟨stmt, inGroup, stays, ofStmt⟩
    · obtain ⟨stmt, stmtMem, ofStmt⟩ := List.mem_flatMap.mp declared
      obtain ⟨inGroup, isRewritten⟩ := (isSeparated stmt).mp stmtMem
      exact Or.inr ⟨stmt, inGroup, isRewritten, List.mem_append_left _ ofStmt⟩
    · obtain ⟨stmt, stmtMem, ofStmt⟩ := List.mem_flatMap.mp assigned
      obtain ⟨inGroup, isRewritten⟩ := (isSeparated stmt).mp stmtMem
      exact Or.inr ⟨stmt, inGroup, isRewritten, List.mem_append_right _ ofStmt⟩
    · obtain ⟨stmt, stmtMem, ofStmt⟩ := List.mem_flatMap.mp ofBehind
      obtain ⟨inGroup, stays⟩ := (isKept stmt).mp (List.mem_append_right _ stmtMem)
      exact Or.inl ⟨stmt, inGroup, stays, ofStmt⟩
  · intro stmt stmtMem stays piece pieceMem
    rw [whole]
    rcases List.mem_append.mp ((isKept stmt).mpr ⟨stmtMem, stays⟩) with inKept | inBehind
    · exact List.mem_append_left _ (List.mem_append_left _
        (List.mem_flatMap.mpr ⟨stmt, inKept, pieceMem⟩))
    · exact List.mem_append_right _ (List.mem_flatMap.mpr ⟨stmt, inBehind, pieceMem⟩)
  · intro d redeclared
    rcases List.mem_append.mp redeclared with assigned | ofBehind
    · obtain ⟨stmt, _, ofStmt⟩ := List.mem_flatMap.mp assigned
      exact redeclare_notMem_initializations ofStmt
    · obtain ⟨stmt, _, ofStmt⟩ := List.mem_flatMap.mp ofBehind
      exact redeclare_notMem_pieces ofStmt
  · intro stmt stmtMem isRewritten piece pieceMem
    exact List.mem_append_left _ (List.mem_flatMap.mpr
      ⟨stmt, (isSeparated stmt).mpr ⟨stmtMem, isRewritten⟩, pieceMem⟩)

/-- The text of a group splits into what stands before its assignments and what begins with
them. -/
theorem FunctionBody.Rewritable.splitsInto (rewritable : body.Rewritable)
    (groupMem : group ∈ body.groups) : ∃ first second, group.SplitsInto first second := by
  by_cases nested : group.nested = true
  · exact ⟨_, _, rewritable.splitsInto_nested groupMem nested⟩
  · exact rewritable.splitsInto_outermost groupMem (Bool.eq_false_iff.mpr nested)

/-- What is written for a statement that is rewritten is C. -/
theorem FunctionBody.Rewritable.canWrite (rewritable : body.Rewritable)
    (groupMem : group ∈ body.groups) {stmt : DeclStmt} (stmtMem : stmt ∈ group.stmts)
    (isRewritten : group.isRewritten stmt = true) :
    (∀ d ∈ stmt.declarators, d.lineDeclares = true) ∧
      ∀ d ∈ stmt.initialisers, d.canAssign = true := by
  by_cases nested : group.nested = true
  · have canMove := rewritable.moved group groupMem nested stmt stmtMem isRewritten
    exact ⟨canMove.simple, canMove.assignable⟩
  · have outermost : group.nested = false := Bool.eq_false_iff.mpr nested
    rw [Group.isRewritten_outermost outermost] at isRewritten
    have canSeparate :=
      (rewritable.staysInOrder groupMem outermost).canSeparate stmt stmtMem isRewritten
    exact ⟨canSeparate.simple, canSeparate.assignable⟩

/-- The text of a group is C. -/
theorem FunctionBody.Rewritable.valid (rewritable : body.Rewritable)
    (groupMem : group ∈ body.groups) : ∀ piece ∈ group.rewrittenText, piece.isValid = true := by
  obtain ⟨first, second, splits⟩ := rewritable.splitsInto groupMem
  intro piece pieceMem
  rcases splits.only piece pieceMem with
    ⟨stmt, stmtMem, _, ofStmt⟩ | ⟨stmt, stmtMem, isRewritten, ofStmt⟩
  · exact isValid_of_mem_originalText (List.mem_flatMap.mpr ⟨stmt, stmtMem, ofStmt⟩)
  · obtain ⟨simple, assignable⟩ := rewritable.canWrite groupMem stmtMem isRewritten
    rcases List.mem_append.mp ofStmt with declared | assigned
    · obtain ⟨d, dMem, rfl⟩ := List.mem_map.mp declared
      exact simple d dMem
    · obtain ⟨d, dMem, rfl⟩ := List.mem_map.mp assigned
      exact assignable d dMem

/-- The text of a group evaluates the same initial values in the same order. -/
theorem FunctionBody.Rewritable.order (rewritable : body.Rewritable)
    (groupMem : group ∈ body.groups) :
    initialisersIn group.rewrittenText = initialisersIn (originalText group.stmts) := by
  by_cases nested : group.nested = true
  · rw [rewritable.rewrittenText_nested groupMem nested, initialisersIn_flatMap,
      initialisersIn_originalText]
    apply List.flatMap_congr
    intro stmt _
    split
    · exact initialisersIn_initializations stmt
    · exact initialisersIn_pieces stmt
  · have outermost : group.nested = false := Bool.eq_false_iff.mpr nested
    rw [Group.rewrittenText_outermost outermost]
    exact (rewritable.staysInOrder groupMem outermost).order
      (FunctionBody.distinctPlaces_group groupMem) (FunctionBody.distinctVars_group groupMem)

/-- Behind the opening brace stand lines of type and name for the moved declarators. -/
theorem FunctionBody.Rewritable.opening (rewritable : body.Rewritable) {piece : Piece}
    (pieceMem : piece ∈ body.rewritten.opening) :
    ∃ d : Declarator, piece = .redeclare d ∧ d.lineDeclares = true ∧ d.typeUses = [] := by
  rw [body.rewritten_opening] at pieceMem
  obtain ⟨d, dMem, rfl⟩ := List.mem_map.mp pieceMem
  obtain ⟨group, groupMem, ofGroup⟩ := List.mem_flatMap.mp dMem
  rw [Group.movedDecls] at ofGroup
  split at ofGroup
  · rename_i visitedNested
    rw [Bool.and_eq_true] at visitedNested
    obtain ⟨stmt, stmtMem, ofStmt⟩ := List.mem_flatMap.mp ofGroup
    obtain ⟨inGroup, isMoved⟩ := List.mem_filter.mp stmtMem
    have isRewritten : group.isRewritten stmt = true := by
      rw [Group.isRewritten_nested visitedNested.1, visitedNested.2, isMoved]
      rfl
    have canMove := rewritable.moved group groupMem visitedNested.1 stmt inGroup isRewritten
    exact ⟨d, rfl, canMove.simple d ofStmt, canMove.alone d ofStmt⟩
  · exact absurd ofGroup List.not_mem_nil

end Body

end Hecaton.Pass1
