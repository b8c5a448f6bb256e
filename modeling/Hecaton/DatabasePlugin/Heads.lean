import Hecaton.DatabasePlugin.NewStmts
import Hecaton.Pass2.BranchHeads
import Hecaton.Pass2.Returns

/-!
# Heads and returns in the database plugin

The plugin finds a block once by the condition of its `if` statement and once more by its
`return` or `goto`, and then takes the heads of the first kind out again.  The loop that does so
erases from the list it walks, as `handle_return` does.
-/

namespace Hecaton.DatabasePlugin

open Hecaton.Clang Hecaton.Library

universe u

/-! ## The heads of an `if` statement -/

/-- `Visit_return`. -/
def visitReturn (stmt : Stmt) : Bool :=
  stmt.children.any fun currStmt => currStmt.isReturn && Pass2.returnsNegated currStmt

/-- `Visit_goto`. -/
def visitGoto (stmt : Stmt) : Bool := stmt.isGoto || stmt.children.any Stmt.isGoto

/-- The heads of a branch by what it does. -/
def branchHeads (branch : Stmt) : List EHCHead :=
  (if visitReturn branch then [{ type := .return_, headStmt := branch }] else []) ++
    (if visitGoto branch then [{ type := .goto, headStmt := branch }] else [])

/-- The heads that `recursiveVisit_if` pushes for one `if` statement. -/
def headsOfIf (ifStatement : Stmt) : List EHCHead :=
  let Then := ifStatement.ifThen
  let condition := ifStatement.ifCond
  let Else := ifStatement.ifElse
  (if Pass2.comparesBelowZero condition || Pass2.testsForError condition then
    [{ type := .cond, headStmt := Then }]
  else []) ++ branchHeads Then ++ (if Else.isNull then [] else branchHeads Else)

/-- `recursiveVisit_if`.  It comes to the same `if` statements as the second pass. -/
def recursiveVisitIf (stmt : Stmt) : List EHCHead := (Pass2.visitedIfs stmt).flatMap headsOfIf

/-! ## Taking duplicates out -/

/-- The test on the head of the inner loop. -/
def isDuplicateOf (ehc ehc2 : EHCHead) : Bool :=
  ehc2.type == .cond && ehc2.headStmt.same ehc.headStmt

variable {ι : Type u} [DecidableEq ι]

/-- The outer loop of `ehc_head_clean_duplicates`.  The inner one has `steps` rounds each
time. -/
def ehcHeadCleanDuplicatesAt (steps : Nat) :
    Nat → LinkedList ι EHCHead → Option ι → Option (LinkedList ι EHCHead)
  | _, heads, none => some heads
  | 0, _, some _ => none
  | rounds + 1, heads, some it =>
      (heads.read it).bind fun ehc =>
        let cleaned :=
          if ehc.type ≠ .cond then
            (LinkedList.eraseLoop (isDuplicateOf ehc) (fun _ _ => ()) steps heads () heads.first).map
              Prod.fst
          else some heads
        cleaned.bind fun heads =>
          (heads.after it).bind fun next => ehcHeadCleanDuplicatesAt steps rounds heads next

/-- `ehc_head_clean_duplicates`. -/
def ehcHeadCleanDuplicates (steps : Nat) (heads : LinkedList ι EHCHead) :
    Option (LinkedList ι EHCHead) :=
  ehcHeadCleanDuplicatesAt steps steps heads heads.first

/-- Some head of another type than COND in the list takes the head out. -/
def isTakenBy (heads : List EHCHead) (ehc2 : EHCHead) : Bool :=
  heads.any fun ehc => ehc.type != .cond && isDuplicateOf ehc ehc2

/-- A head of another type than COND takes out what has its statement and leaves the other
ones, itself included. -/
theorem isTakenBy_cons {ehc : EHCHead} (notCond : ehc.type ≠ .cond) (rest : List EHCHead)
    (ehc2 : EHCHead) :
    isTakenBy (ehc :: rest) ehc2 = (isDuplicateOf ehc ehc2 || isTakenBy rest ehc2) := by
  have test : (ehc.type != .cond) = true := by simpa using notCond
  rw [isTakenBy, List.any_cons, test, Bool.true_and]
  rfl

theorem isTakenBy_cons_cond {ehc : EHCHead} (isCond : ehc.type = .cond) (rest : List EHCHead)
    (ehc2 : EHCHead) : isTakenBy (ehc :: rest) ehc2 = isTakenBy rest ehc2 := by
  simp [isTakenBy, isCond]

/-- The heads that are taken out take none out themselves. -/
theorem isTakenBy_filter (ehc : EHCHead) (heads : List EHCHead) (ehc2 : EHCHead) :
    isTakenBy (heads.filter fun other => !isDuplicateOf ehc other) ehc2 =
      isTakenBy heads ehc2 := by
  rw [isTakenBy, List.any_filter, isTakenBy]
  congr 1
  funext other
  by_cases isCond : other.type = .cond
  · simp [isCond]
  · simp [isDuplicateOf, isCond]

/-- From any position on, the loop ends, uses no erased position and takes out the heads that
the heads from there on take out. -/
theorem ehcHeadCleanDuplicatesAt_of_split (steps : Nat) {heads : LinkedList ι EHCHead}
    (before behind : List (ι × EHCHead)) (split : heads.cells = before ++ behind) (rounds : Nat)
    (enoughSteps : heads.cells.length ≤ steps) (enough : behind.length ≤ rounds) :
    ehcHeadCleanDuplicatesAt steps rounds heads (firstPosition behind) =
      some (heads.filter fun ehc2 => !isTakenBy (behind.map Prod.snd) ehc2) := by
  induction rounds, behind, enough using rounds_induction generalizing heads before with
  | done rounds =>
      rw [LinkedList.filter_eq_self (by simp [isTakenBy])]
      cases rounds <;> rfl
  | round rounds cell behind fewer ih =>
      obtain ⟨it, ehc⟩ := cell
      have start : firstPosition ((it, ehc) :: behind) = some it := rfl
      rw [start, ehcHeadCleanDuplicatesAt, LinkedList.read_of_split split, Option.bind_some,
        List.map_cons]
      by_cases isCond : ehc.type = .cond
      · simp only [isCond, ne_eq, not_true_eq_false, if_false, Option.bind_some,
          LinkedList.after_of_split split, isTakenBy_cons_cond isCond]
        exact ih behind fewer (before ++ [(it, ehc)]) (by simp [split]) enoughSteps
      · -- The head at the position is no COND head, so the inner loop keeps it.
        have kept : (!isDuplicateOf ehc ehc) = true := by simp [isDuplicateOf, isCond]
        have splitLeft : (heads.filter fun ehc2 => !isDuplicateOf ehc ehc2).cells =
            before.filter (fun cell => !isDuplicateOf ehc cell.2) ++
              (it, ehc) :: behind.filter fun cell => !isDuplicateOf ehc cell.2 :=
          LinkedList.cells_filter_of_split split kept
        have shorter :
            (heads.filter fun ehc2 => !isDuplicateOf ehc ehc2).cells.length ≤ steps :=
          (List.length_filter_le _ _).trans enoughSteps
        have ends := LinkedList.eraseLoop_eq (isDuplicateOf ehc) (fun _ _ => ()) heads () steps
          enoughSteps
        have later := ih (behind.filter fun cell => !isDuplicateOf ehc cell.2)
          ((List.length_filter_le _ _).trans fewer)
          (before.filter (fun cell => !isDuplicateOf ehc cell.2) ++ [(it, ehc)])
          (by simp [splitLeft]) shorter
        have valuesLeft : (behind.filter fun cell => !isDuplicateOf ehc cell.2).map Prod.snd =
            (behind.map Prod.snd).filter fun other => !isDuplicateOf ehc other := by
          rw [List.filter_map]
          rfl
        rw [valuesLeft, LinkedList.filter_filter] at later
        simp only [isCond, ne_eq, not_false_eq_true, if_true, ends, Option.map_some,
          Option.bind_some, LinkedList.after_of_split splitLeft, later, isTakenBy_filter,
          isTakenBy_cons isCond, Bool.not_or, Bool.and_comm]

/-- The loop takes out exactly the COND heads with the statement of another head. -/
theorem ehcHeadCleanDuplicates_eq (heads : LinkedList ι EHCHead) (steps : Nat)
    (enough : heads.cells.length ≤ steps) :
    ehcHeadCleanDuplicates steps heads =
      some (heads.filter fun ehc2 => !isTakenBy heads.values ehc2) :=
  ehcHeadCleanDuplicatesAt_of_split steps [] heads.cells rfl steps enough enough

/-- What is left over has no COND head with the statement of another head. -/
theorem not_isDuplicateOf_left {heads : List EHCHead} {ehc ehc2 : EHCHead}
    (ehcMem : ehc ∈ heads.filter fun head => !isTakenBy heads head)
    (ehc2Mem : ehc2 ∈ heads.filter fun head => !isTakenBy heads head)
    (notCond : ehc.type ≠ .cond) : isDuplicateOf ehc ehc2 = false := by
  have stays := List.of_mem_filter ehc2Mem
  by_contra duplicate
  rw [Bool.not_eq_false] at duplicate
  have taken : isTakenBy heads ehc2 = true := by
    rw [isTakenBy, List.any_eq_true]
    exact ⟨ehc, List.mem_of_mem_filter ehcMem, by simp [notCond, duplicate]⟩
  rw [taken] at stays
  exact Bool.false_ne_true stays

/-- For every list of heads the loops end without the use of an erased position.  No COND head
is left with the statement of another head, and exactly the COND heads with such a statement
are gone. -/
theorem ehcHeadCleanDuplicates_exact (heads : LinkedList ι EHCHead) :
    ∃ cleaned : LinkedList ι EHCHead,
      (∀ steps, heads.cells.length ≤ steps →
        ehcHeadCleanDuplicates steps heads = some cleaned) ∧
      (∀ ehc ∈ cleaned.values, ∀ ehc2 ∈ cleaned.values, ehc.type ≠ .cond → ehc2.type = .cond →
        ehc2.headStmt.same ehc.headStmt = false) ∧
      cleaned.values = heads.values.filter fun ehc2 =>
        !(ehc2.type == .cond &&
          heads.values.any fun ehc => ehc.type != .cond && ehc2.headStmt.same ehc.headStmt) := by
  refine ⟨_, ehcHeadCleanDuplicates_eq heads, ?_, ?_⟩
  · intro ehc ehcMem ehc2 ehc2Mem notCond isCond
    rw [LinkedList.values_filter] at ehcMem ehc2Mem
    have distinctStmts := not_isDuplicateOf_left ehcMem ehc2Mem notCond
    rw [isDuplicateOf, isCond, beq_self_eq_true, Bool.true_and] at distinctStmts
    exact distinctStmts
  · rw [LinkedList.values_filter]
    congr 1
    funext ehc2
    congr 1
    rw [isTakenBy]
    cases isCond : ehc2.type == .cond with
    | true => simp [isDuplicateOf, isCond]
    | false => simp [isDuplicateOf, isCond]

/-- The heads of a branch have its statement and another type than COND. -/
theorem of_mem_branchHeads {branch : Stmt} {head : EHCHead}
    (member : head ∈ branchHeads branch) : head.headStmt = branch ∧ head.type ≠ .cond := by
  rcases List.mem_append.mp member with byReturn | byGoto
  · split at byReturn
    · rw [List.mem_singleton.mp byReturn]
      exact ⟨rfl, by simp⟩
    · simp at byReturn
  · split at byGoto
    · rw [List.mem_singleton.mp byGoto]
      exact ⟨rfl, by simp⟩
    · simp at byGoto

/-! ## Taking returns out -/

/-- `handle_return` for one EHC: the same loops as in the second pass. -/
def handleReturnEhc (ehc : EHC) : EHC :=
  let (stmts, returnVal) :=
    Pass2.handleReturnLoop ehc.ehcStmts.length [] ehc.returnVal ehc.ehcStmts
  { ehc with ehcStmts := stmts, returnVal := returnVal }

/-- `handle_return`. -/
def handleReturn (f : Function) : Function :=
  { f with EHCs := f.EHCs.map handleReturnEhc }

/-- In the second pass and in the plugin, `handle_return` takes from every EHC its `return`
statements and the literals that one of them returns by name, and nothing else; its loops
end and use no erased position. -/
theorem handleReturn_exact (f : Pass2.Function) (g : Function) :
    List.Forall₂ (fun ehc ehc' : Pass2.EHC => ehc'.head = ehc.head ∧
        ehc'.ehcNewStmts = ehc.ehcNewStmts ∧
        Pass2.ReturnsTaken ι ehc.ehcStmts ehc.returnVal ehc'.ehcStmts ehc'.returnVal)
      f.EHCs (Pass2.handleReturn f).EHCs ∧
    List.Forall₂ (fun ehc ehc' : EHC => ehc'.head = ehc.head ∧
        ehc'.ehcNewStmts = ehc.ehcNewStmts ∧
        Pass2.ReturnsTaken ι ehc.ehcStmts ehc.returnVal ehc'.ehcStmts ehc'.returnVal)
      g.EHCs (handleReturn g).EHCs := by
  constructor
  · rw [Pass2.handleReturn, List.forall₂_map_right_iff, List.forall₂_same]
    intro ehc _
    exact ⟨rfl, rfl, Pass2.returnsTaken_handleReturnLoop ehc.ehcStmts ehc.returnVal⟩
  · rw [handleReturn, List.forall₂_map_right_iff, List.forall₂_same]
    intro ehc _
    exact ⟨rfl, rfl, Pass2.returnsTaken_handleReturnLoop ehc.ehcStmts ehc.returnVal⟩

end Hecaton.DatabasePlugin
