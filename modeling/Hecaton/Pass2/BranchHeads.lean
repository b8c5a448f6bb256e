import Hecaton.Clang.Build
import Hecaton.Pass2.Heads

/-!
# The heads of the two branches

The text of a `goto` travels through a buffer that is copied once for each `if` statement,
behind the visit of the `then` branch.  So the `else` branch is judged by what the `then`
branch has left in the buffer, or by what lay in it before.
-/

namespace Hecaton.Pass2

open Hecaton.Clang

/-! ## The `if` statements that are visited -/

mutual

/-- The `if` statements below a node in visiting order.  One without a condition is passed
over with all that is below it. -/
def visitedIfs : Stmt → List Stmt
  | .null => []
  | .node _ _ children => visitedIfsOf children

/-- The same for the children. -/
def visitedIfsOf : List Stmt → List Stmt
  | [] => []
  | currStmt :: rest =>
      let own :=
        if currStmt.isIf then
          if currStmt.ifCond.isNull then [] else currStmt :: visitedIfs currStmt
        else visitedIfs currStmt
      own ++ visitedIfsOf rest

end

/-- What the buffer holds behind the `then` branch. -/
def bufferAfterThen (gotostr : String) (ifStatement : Stmt) : String :=
  (visitGoto ifStatement.ifThen gotostr).2

/-- The heads that an `if` statement adds for its `then` branch. -/
def thenHeads (gotostr : String) (ifStatement : Stmt) : List EHCHead :=
  let Then := ifStatement.ifThen
  let condition := ifStatement.ifCond
  let condFound := comparesBelowZero condition || testsForError condition
  let (hasGoto, gotostring) := visitGoto Then gotostr
  if condFound then [{ type := if hasGoto then .goto else .cond, headStmt := Then }]
  else
    returnHeads Then (visitReturn Then) ++
      (if hasGoto then [{ type := gotoType gotostring, headStmt := Then }] else [])

/-- The heads that it adds for its `else` branch. -/
def elseHeads (gotostr : String) (ifStatement : Stmt) : List EHCHead :=
  let Else := ifStatement.ifElse
  let gotostring := bufferAfterThen gotostr ifStatement
  if Else.isNull then []
  else
    returnHeads Else (visitReturn Else) ++
      (if (visitGoto Else gotostring).1 then
        [{ type := gotoType gotostring, headStmt := Else }]
      else [])

theorem headsOfIf_eq (gotostr : String) (ifStatement : Stmt) :
    headsOfIf gotostr ifStatement =
      thenHeads gotostr ifStatement ++ elseHeads gotostr ifStatement :=
  rfl

/-- The visit adds the heads of both branches of every `if` statement it comes to. -/
theorem recursiveVisitIf_eq (gotostr : Stmt → String) (s : Stmt) :
    recursiveVisitIf gotostr s = (visitedIfs s).flatMap fun ifStatement =>
      thenHeads (gotostr ifStatement) ifStatement ++
        elseHeads (gotostr ifStatement) ifStatement := by
  induction s using Stmt.tree_induction with
  | null => simp [recursiveVisitIf, visitedIfs]
  | node info cls children ih =>
      simp only [recursiveVisitIf, visitedIfs]
      clear info cls
      induction children with
      | nil => simp [recursiveVisitIfLoop, visitedIfsOf]
      | cons currStmt rest ihRest =>
          have here := ih currStmt List.mem_cons_self
          have later := ihRest fun child childMem => ih child (List.mem_cons_of_mem _ childMem)
          simp only [recursiveVisitIfLoop, visitedIfsOf, List.flatMap_append]
          rw [later]
          congr 1
          cases currStmt with
          | null => simp [Stmt.isNull, Stmt.isIf, Stmt.isa, visitedIfs]
          | node info cls children =>
              have notNull : (Stmt.node info cls children).isNull = false := rfl
              simp only [notNull, Bool.false_eq_true, if_false]
              split
              · split
                · rfl
                · rw [List.flatMap_cons, here, headsOfIf_eq]
              · exact here

/-! ## A branch on its own -/

/-- The text of the `goto` of a block: its own when it is one, else that of its first child
that is one. -/
def ownGotoText (stmt : Stmt) : Option String :=
  if stmt.isGoto then some stmt.info.text
  else (stmt.children.find? Stmt.isGoto).map fun currStmt => currStmt.info.text

/-- The heads of a branch, judged by nothing but the branch. -/
def headsAlone (stmt : Stmt) : List EHCHead :=
  returnHeads stmt (visitReturn stmt) ++
    match ownGotoText stmt with
    | some text => [{ type := gotoType text, headStmt := stmt }]
    | none => []

/-- The `else` branch has no `goto`, or the buffer and the text of that `goto` contain
`err` both or neither. -/
def ElseKeepsText (gotostr : String) (ifStatement : Stmt) : Prop :=
  ∀ text, ownGotoText ifStatement.ifElse = some text →
    contains (bufferAfterThen gotostr ifStatement) "err" = contains text "err"

theorem visitGoto_found (stmt : Stmt) (gotostr : String) :
    (visitGoto stmt gotostr).1 = (ownGotoText stmt).isSome := by
  rw [visitGoto, ownGotoText]
  split
  · rfl
  · cases stmt.children.find? Stmt.isGoto <;> rfl

theorem gotoType_inj {first second : String} :
    gotoType first = gotoType second ↔ contains first "err" = contains second "err" := by
  simp only [gotoType]
  cases contains first "err" <;> cases contains second "err" <;> simp

/-- The heads of the `else` branch are its own exactly when the buffer decides as its own
text does. -/
theorem elseHeads_eq_iff {gotostr : String} {ifStatement : Stmt}
    (hasElse : ifStatement.ifElse.isNull = false) :
    elseHeads gotostr ifStatement = headsAlone ifStatement.ifElse ↔
      ElseKeepsText gotostr ifStatement := by
  rw [elseHeads, headsAlone, ElseKeepsText]
  simp only [hasElse, Bool.false_eq_true, if_false, visitGoto_found, List.append_cancel_left_eq]
  cases ownGotoText ifStatement.ifElse with
  | none => simp
  | some text => simp [gotoType_inj]

/-- Every head of a branch starts with the branch. -/
theorem headStmt_of_mem_elseHeads {gotostr : String} {ifStatement : Stmt} {head : EHCHead}
    (member : head ∈ elseHeads gotostr ifStatement) : head.headStmt = ifStatement.ifElse := by
  simp only [elseHeads] at member
  split at member
  · simp at member
  · rcases List.mem_append.mp member with byReturn | byGoto
    · exact headStmt_of_mem_returnHeads byReturn
    · split at byGoto
      · rw [List.mem_singleton.mp byGoto]
      · simp at byGoto

/-- The visit adds the heads of the branches one by one.  Those of an `else` branch are
determined by the branch alone exactly when the branch has no `goto`, or what the buffer holds
behind the `then` branch contains `err` just when the text of that `goto` does. -/
theorem recursiveVisitIf_else_alone_iff (gotostr : Stmt → String) (Body : Stmt) :
    (recursiveVisitIf gotostr Body = (visitedIfs Body).flatMap fun ifStatement =>
      thenHeads (gotostr ifStatement) ifStatement ++
        elseHeads (gotostr ifStatement) ifStatement) ∧
    ∀ ifStatement ∈ visitedIfs Body, ifStatement.ifElse.isNull = false →
      (∀ head ∈ elseHeads (gotostr ifStatement) ifStatement,
        head.headStmt = ifStatement.ifElse) ∧
      (elseHeads (gotostr ifStatement) ifStatement = headsAlone ifStatement.ifElse ↔
        ElseKeepsText (gotostr ifStatement) ifStatement) := by
  constructor
  · exact recursiveVisitIf_eq gotostr Body
  · intro ifStatement _ hasElse
    constructor
    · intro head member
      exact headStmt_of_mem_elseHeads member
    · exact elseHeads_eq_iff hasElse

/-- The `else` branch `goto out;`. -/
def elseOut : Stmt := Build.block 20 60 5 80 7 [Build.gotoOf 21 64 6 "out"]

/-- The statement `if (n) goto label; else goto out;`. -/
def twoGotos (label : String) : Stmt :=
  .node
    { id := 2
      beginLoc := ⟨10, 2, false⟩
      endLoc := ⟨80, 7, false⟩
      printed := "if (n)"
      text := "if (n)" }
    .ifStmt
    [Build.nameRef 3 14 2 "n", Build.block 4 20 2 50 4 [Build.gotoOf 5 24 3 label], elseOut]

/-- A function with this statement. -/
def twoGotosBody (label : String) : Stmt := Build.block 1 0 1 90 8 [twoGotos label]

/-- The same `else` branch is an error branch or a doubtful one, by the label in the `then`
branch. -/
theorem recursiveVisitIf_else_reads_then :
    (recursiveVisitIf (fun _ => "") (twoGotosBody "err")).map
        (fun head => (head.headStmt.info.id, head.type)) = [(4, .goto), (20, .goto)] ∧
      (recursiveVisitIf (fun _ => "") (twoGotosBody "done")).map
        (fun head => (head.headStmt.info.id, head.type)) = [(4, .gotoMaybe), (20, .gotoMaybe)] ∧
      (twoGotos "err").ifElse = elseOut ∧ (twoGotos "done").ifElse = elseOut ∧
      elseHeads "" (twoGotos "err") ≠ headsAlone (twoGotos "err").ifElse := by
  refine ⟨by decide +kernel, by decide +kernel, rfl, rfl, ?_⟩
  intro alone
  have keeps := (elseHeads_eq_iff rfl).mp alone "goto out" rfl
  revert keeps
  decide +kernel

end Hecaton.Pass2
