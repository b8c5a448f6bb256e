import Hecaton.Clang.Tree
import Hecaton.Pass2.State
import Hecaton.Pass2.Text
import Mathlib.Algebra.Ring.Nat

/-!
# Finding error-handling blocks

`recursiveVisit_if` looks at every `if` statement of the body and records its
branches that look like error-handling code: by a comparison with zero or an
`IS_ERR` test in the condition, by a `return` of a negative number, or by a
`goto`.
-/

namespace Hecaton.Pass2

open Hecaton.Clang

/-- What `Visit_return` says about a block. -/
inductive ReturnKind
  | none | negative | general
  deriving DecidableEq

/-- Whether a `return` statement returns a negated expression. -/
def returnsNegated (returnStmt : Stmt) : Bool :=
  (returnStmt.child 0).subExprAsWritten.unaryOpcode == some .minus

/-- The loop of `Visit_return`, with the result so far. -/
def visitReturnLoop (ret : ReturnKind) : List Stmt → ReturnKind
  | [] => ret
  | currStmt :: rest =>
      if currStmt.isReturn then
        if returnsNegated currStmt then .negative else visitReturnLoop .general rest
      else if currStmt.isBreak || currStmt.isContinue then .general
      else visitReturnLoop ret rest

/-- `Visit_return`. -/
def visitReturn (stmt : Stmt) : ReturnKind := visitReturnLoop .none stmt.children

/-- `Visit_goto`: whether the block has a `goto`, and the buffer afterwards.  A
block that is a `goto` itself leaves the buffer alone. -/
def visitGoto (stmt : Stmt) (gotostr : String) : Bool × String :=
  if stmt.isGoto then (true, gotostr)
  else
    match stmt.children.find? Stmt.isGoto with
    | some currStmt => (true, currStmt.info.text)
    | none => (false, gotostr)

/-- `rc < 0`: the literal is read into an `int`. -/
def comparesBelowZero (condition : Stmt) : Bool :=
  condition.binaryOpcode == some .lt &&
    match condition.child 1 with
    | .node _ (.integerLiteral value) _ => value % 2 ^ 32 == 0
    | _ => false

/-- `IS_ERR(ptr)` and `IS_ERR_OR_NULL(ptr)`. -/
def testsForError (condition : Stmt) : Bool :=
  condition.directCallee == some "IS_ERR" || condition.directCallee == some "IS_ERR_OR_NULL"

/-- The head of a block whose `return` statements are of the given kind. -/
def returnHeads (headStmt : Stmt) : ReturnKind → List EHCHead
  | .none => []
  | .negative => [{ type := .return_, headStmt := headStmt }]
  | .general => [{ type := .maybe, headStmt := headStmt }]

/-- The type of a block with a `goto`, by the text of the buffer. -/
def gotoType (gotostring : String) : EHCType :=
  if contains gotostring "err" then .goto else .gotoMaybe

/-- The heads that one `if` statement adds.  `gotostr` is the buffer of 512
characters that the source does not initialise.  Its contents after the `then`
branch decide for both branches. -/
def headsOfIf (gotostr : String) (ifStatement : Stmt) : List EHCHead :=
  let Then := ifStatement.ifThen
  let condition := ifStatement.ifCond
  let condFound := comparesBelowZero condition || testsForError condition
  let (hasGoto, gotostring) := visitGoto Then gotostr
  let thenHeads :=
    if condFound then [{ type := if hasGoto then .goto else .cond, headStmt := Then }]
    else
      returnHeads Then (visitReturn Then) ++
        (if hasGoto then [{ type := gotoType gotostring, headStmt := Then }] else [])
  let Else := ifStatement.ifElse
  let elseHeads :=
    if Else.isNull then []
    else
      returnHeads Else (visitReturn Else) ++
        (if (visitGoto Else gotostring).1 then
          [{ type := gotoType gotostring, headStmt := Else }]
        else [])
  thenHeads ++ elseHeads

mutual

/-- `recursiveVisit_if`: the heads in the order they are pushed.  `gotostr`
gives the uninitialised buffer of each `if` statement. -/
def recursiveVisitIf (gotostr : Stmt → String) : Stmt → List EHCHead
  | .null => []
  | .node _ _ children => recursiveVisitIfLoop gotostr children

/-- Its loop over the children.  An `if` statement without a condition is not
entered. -/
def recursiveVisitIfLoop (gotostr : Stmt → String) : List Stmt → List EHCHead
  | [] => []
  | currStmt :: rest =>
      let own :=
        if currStmt.isNull then []
        else if currStmt.isIf then
          if currStmt.ifCond.isNull then []
          else headsOfIf (gotostr currStmt) currStmt ++ recursiveVisitIf gotostr currStmt
        else recursiveVisitIf gotostr currStmt
      own ++ recursiveVisitIfLoop gotostr rest

end

/-! ## Heads lie in the body -/

variable {gotostr : Stmt → String}

theorem headStmt_of_mem_returnHeads {headStmt : Stmt} {kind : ReturnKind} {head : EHCHead}
    (member : head ∈ returnHeads headStmt kind) : head.headStmt = headStmt := by
  cases kind with
  | none => simp [returnHeads] at member
  | negative =>
      rw [List.mem_singleton.mp member]
  | general =>
      rw [List.mem_singleton.mp member]

/-- A head of an `if` statement is one of its branches. -/
theorem headStmt_of_mem_headsOfIf {buffer : String} {ifStatement : Stmt} {head : EHCHead}
    (member : head ∈ headsOfIf buffer ifStatement) :
    head.headStmt = ifStatement.ifThen ∨ head.headStmt = ifStatement.ifElse := by
  simp only [headsOfIf] at member
  rcases List.mem_append.mp member with inThen | inElse
  · split at inThen
    · rw [List.mem_singleton.mp inThen]
      exact Or.inl rfl
    · rcases List.mem_append.mp inThen with byReturn | byGoto
      · exact Or.inl (headStmt_of_mem_returnHeads byReturn)
      · split at byGoto
        · rw [List.mem_singleton.mp byGoto]
          exact Or.inl rfl
        · simp at byGoto
  · split at inElse
    · simp at inElse
    · rcases List.mem_append.mp inElse with byReturn | byGoto
      · exact Or.inr (headStmt_of_mem_returnHeads byReturn)
      · split at byGoto
        · rw [List.mem_singleton.mp byGoto]
          exact Or.inr rfl
        · simp at byGoto

/-- The first statement of a head is a node below the body, if it is one. -/
theorem headStmt_mem_descendants {s : Stmt} {head : EHCHead}
    (member : head ∈ recursiveVisitIf gotostr s) (nonnull : head.headStmt ≠ .null) :
    head.headStmt ∈ s.descendants := by
  induction s using Stmt.tree_induction with
  | null => simp [recursiveVisitIf] at member
  | node info cls children ih =>
      have fromChild : ∀ child, child ≠ .null →
          (child.isIf = true → head ∈ headsOfIf (gotostr child) child →
            head.headStmt ∈ child.nodes) := by
        intro child _ _ inHeads
        have branch : ∀ i, head.headStmt = child.child i → head.headStmt ∈ child.nodes := by
          intro i isBranch
          rw [isBranch] at nonnull ⊢
          exact Stmt.descendants_subset_nodes
            (Stmt.child_mem_descendants (Stmt.child_mem_children nonnull) nonnull)
        rcases headStmt_of_mem_headsOfIf inHeads with isThen | isElse
        · exact branch 1 isThen
        · exact branch 2 isElse
      simp only [recursiveVisitIf] at member
      rw [Stmt.mem_descendants_iff]
      simp only [Stmt.children]
      clear info cls
      induction children with
      | nil => simp [recursiveVisitIfLoop] at member
      | cons currStmt rest ihRest =>
          have below : head ∈ recursiveVisitIf gotostr currStmt →
              head.headStmt ∈ currStmt.nodes := fun inside =>
            Stmt.descendants_subset_nodes (ih currStmt List.mem_cons_self inside)
          simp only [recursiveVisitIfLoop] at member
          rcases List.mem_append.mp member with own | others
          · refine ⟨currStmt, List.mem_cons_self, ?_⟩
            cases currStmt with
            | null => simp [Stmt.isNull] at own
            | node info cls children =>
                have notNull : (Stmt.node info cls children).isNull = false := rfl
                simp only [notNull, Bool.false_eq_true, if_false] at own
                split at own
                · rename_i isIf
                  split at own
                  · simp at own
                  · rcases List.mem_append.mp own with inHeads | inside
                    · exact fromChild _ (by simp) isIf inHeads
                    · exact below inside
                · exact below own
          · obtain ⟨child, childMem, inChild⟩ :=
              ihRest (fun child childMem => ih child (List.mem_cons_of_mem _ childMem)) others
            exact ⟨child, List.mem_cons_of_mem _ childMem, inChild⟩

end Hecaton.Pass2
