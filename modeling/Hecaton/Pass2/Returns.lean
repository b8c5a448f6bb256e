import Hecaton.Library.LinkedLists
import Hecaton.Pass2.Filters

/-!
# Taking the returns out of a list that is walked

`handle_return` holds a position of the list of an EHC while a second loop erases from the same
list: the assignments to the variable that the `return` statement at hand returns.  They are
no `return` statements, so the position stays.
-/

namespace Hecaton.Pass2

open Hecaton.Clang Hecaton.Library

universe u

variable {ι : Type u} [DecidableEq ι]

/-! ## The loops at their positions -/

/-- What a `return` statement does before it is erased itself: the loop that erases the
assignments to the variable it returns, and the value it sets. -/
def handleReturnStmt (steps : Nat) (ehcStmts : LinkedList ι Stmt) (returnVal : Int)
    (currStmt : Stmt) : Option (LinkedList ι Stmt × Int) :=
  let retval := currStmt.child 0
  if retval.isNull then some (ehcStmts, returnVal)
  else
    let assigned :=
      match castOfName retval with
      | some retstr =>
          LinkedList.eraseLoop (fun currStmt2 => (assignedLiteral retstr currStmt2).isSome)
            (fun retInt currStmt2 => (assignedLiteral retstr currStmt2).getD retInt)
            steps ehcStmts 0 ehcStmts.first
      | none => some (ehcStmts, 0)
    assigned.map fun (ehcStmts, retInt) =>
      (ehcStmts, (literalInt (negatedExpr retval.subExprAsWritten)).getD retInt)

/-- The loop of `handle_return` over the list of one EHC.  The inner loop has `steps` rounds
each time. -/
def handleReturnAt (steps : Nat) :
    Nat → LinkedList ι Stmt → Int → Option ι → Option (LinkedList ι Stmt × Int)
  | _, ehcStmts, returnVal, none => some (ehcStmts, returnVal)
  | 0, _, _, some _ => none
  | rounds + 1, ehcStmts, returnVal, some it =>
      (ehcStmts.read it).bind fun currStmt =>
        if currStmt.isReturn then
          (handleReturnStmt steps ehcStmts returnVal currStmt).bind fun (ehcStmts, returnVal) =>
            (ehcStmts.erase it).bind fun (ehcStmts, next) =>
              handleReturnAt steps rounds ehcStmts returnVal next
        else (ehcStmts.after it).bind fun next => handleReturnAt steps rounds ehcStmts returnVal next

/-! ## The list without positions -/

/-- A `return` statement is no assignment. -/
theorem assignedLiteral_of_isReturn {stmt : Stmt} (isReturn : stmt.isReturn = true)
    (name : String) : assignedLiteral name stmt = none := by
  cases stmt with
  | null => rfl
  | node info cls children =>
      have isClass : cls = .returnStmt := by simpa [Stmt.isReturn, Stmt.isa] using isReturn
      subst isClass
      rfl

/-- Noting the values one after the other leaves the last one. -/
theorem foldl_assigned {β : Type u} (value : Stmt → Option β) (stmts : List Stmt) (start : β) :
    (stmts.filter fun stmt => (value stmt).isSome).foldl
        (fun noted stmt => (value stmt).getD noted) start =
      (stmts.filterMap value).getLastD start := by
  induction stmts generalizing start with
  | nil => rfl
  | cons stmt rest ih =>
      cases assigned : value stmt with
      | none => simp [assigned, ih]
      | some val =>
          have later := ih val
          simp only [List.filter_cons, List.filterMap_cons, assigned, Option.isSome_some, if_true,
            List.foldl_cons, Option.getD_some, later]
          cases rest.filterMap value <;> rfl

/-- What a `return` statement keeps of the other statements. -/
def keepsBeside (returnStmt stmt : Stmt) : Bool :=
  match castOfName (returnStmt.child 0) with
  | some retstr => (assignedLiteral retstr stmt).isNone
  | none => true

theorem keepsBeside_of_isReturn (returnStmt : Stmt) {stmt : Stmt}
    (isReturn : stmt.isReturn = true) : keepsBeside returnStmt stmt = true := by
  rw [keepsBeside]
  split
  · rw [assignedLiteral_of_isReturn isReturn]
    rfl
  · rfl

/-- The value that a `return` statement records. -/
def recordedValue (stmts : List Stmt) (returnVal : Int) (returnStmt : Stmt) : Int :=
  let retval := returnStmt.child 0
  if retval.isNull then returnVal
  else
    let assigned :=
      match castOfName retval with
      | some retstr => stmts.filterMap (assignedLiteral retstr)
      | none => []
    (literalInt (negatedExpr retval.subExprAsWritten)).getD (assigned.getLastD 0)

theorem handleReturnLoop_nil (rounds : Nat) (passed : List Stmt) (returnVal : Int) :
    handleReturnLoop rounds passed returnVal [] = (passed, returnVal) := by
  cases rounds <;> simp [handleReturnLoop]

theorem handleReturnAt_none (steps rounds : Nat) (ehcStmts : LinkedList ι Stmt)
    (returnVal : Int) :
    handleReturnAt steps rounds ehcStmts returnVal none = some (ehcStmts, returnVal) := by
  cases rounds <;> rfl

theorem recordedValue_self (passed rest : List Stmt) (returnVal : Int) {returnStmt : Stmt}
    (isReturn : returnStmt.isReturn = true) :
    recordedValue (passed ++ returnStmt :: rest) returnVal returnStmt =
      recordedValue (passed ++ rest) returnVal returnStmt := by
  have noValue := assignedLiteral_of_isReturn isReturn
  simp only [recordedValue, List.filterMap_append, List.filterMap_cons, noValue]

theorem handleReturnLoop_return (rounds : Nat) (passed rest : List Stmt) (returnVal : Int)
    {currStmt : Stmt} (isReturn : currStmt.isReturn = true) :
    handleReturnLoop (rounds + 1) passed returnVal (currStmt :: rest) =
      handleReturnLoop rounds (passed.filter (keepsBeside currStmt))
        (recordedValue (passed ++ rest) returnVal currStmt)
        (rest.filter (keepsBeside currStmt)) := by
  simp only [handleReturnLoop, isReturn, if_true]
  cases retval : currStmt.child 0 with
  | null =>
      have keepsAll : keepsBeside currStmt = fun _ => true := by
        funext stmt
        simp [keepsBeside, retval, castOfName]
      simp [recordedValue, retval, Stmt.isNull, keepsAll]
  | node info cls children =>
      have sameTest : keepsBeside currStmt = fun stmt =>
          match castOfName (.node info cls children) with
          | some retstr => (assignedLiteral retstr stmt).isNone
          | none => true := by
        funext stmt
        rw [keepsBeside, retval]
      rw [sameTest, recordedValue, retval]
      rfl

theorem handleReturnLoop_other (rounds : Nat) (passed rest : List Stmt) (returnVal : Int)
    {currStmt : Stmt} (notReturn : currStmt.isReturn = false) :
    handleReturnLoop (rounds + 1) passed returnVal (currStmt :: rest) =
      handleReturnLoop rounds (passed ++ [currStmt]) returnVal rest := by
  rw [handleReturnLoop, if_neg (by simp [notReturn])]

/-! ## The inner loop -/

theorem handleReturnStmt_eq (ehcStmts : LinkedList ι Stmt) (returnVal : Int) (currStmt : Stmt)
    (steps : Nat) (enough : ehcStmts.cells.length ≤ steps) :
    handleReturnStmt steps ehcStmts returnVal currStmt =
      some (ehcStmts.filter (keepsBeside currStmt),
        recordedValue ehcStmts.values returnVal currStmt) := by
  have keepsAll : castOfName (currStmt.child 0) = none →
      ehcStmts.filter (keepsBeside currStmt) = ehcStmts := by
    intro noName
    apply LinkedList.filter_eq_self
    simp [keepsBeside, noName]
  rw [handleReturnStmt, recordedValue]
  cases retval : currStmt.child 0 with
  | null => simp [Stmt.isNull, keepsAll (by simp [retval, castOfName])]
  | node info cls children =>
      have present : (Stmt.node info cls children).isNull = false := rfl
      simp only [present, Bool.false_eq_true, if_false]
      cases name : castOfName (.node info cls children) with
      | none =>
          rw [keepsAll (by rw [retval, name])]
          rfl
      | some retstr =>
          have sameTest : keepsBeside currStmt =
              fun stmt => !(assignedLiteral retstr stmt).isSome := by
            funext stmt
            rw [keepsBeside, retval, name]
            simp
          have ends := LinkedList.eraseLoop_eq
            (fun currStmt2 => (assignedLiteral retstr currStmt2).isSome)
            (fun (retInt : Int) currStmt2 => (assignedLiteral retstr currStmt2).getD retInt)
            ehcStmts 0 steps enough
          rw [foldl_assigned] at ends
          rw [sameTest]
          dsimp only
          rw [ends]
          rfl

/-! ## The outer loop -/

/-- From any position on, the loop ends, uses no erased position and does what the loop over
the plain list does. -/
theorem handleReturnAt_of_split (steps : Nat) {ehcStmts : LinkedList ι Stmt}
    (before behind : List (ι × Stmt)) (split : ehcStmts.cells = before ++ behind)
    (returnVal : Int) (rounds roundsPlain : Nat) (enoughSteps : ehcStmts.cells.length ≤ steps)
    (enough : behind.length ≤ rounds) (enoughPlain : behind.length ≤ roundsPlain) :
    ∃ left, handleReturnAt steps rounds ehcStmts returnVal (firstPosition behind) =
        some (left, (handleReturnLoop roundsPlain (before.map Prod.snd) returnVal
          (behind.map Prod.snd)).2) ∧
      left.values = (handleReturnLoop roundsPlain (before.map Prod.snd) returnVal
        (behind.map Prod.snd)).1 := by
  induction rounds, behind, enough using rounds_induction
    generalizing ehcStmts before returnVal roundsPlain with
  | done rounds =>
      rw [List.map_nil, handleReturnLoop_nil]
      exact ⟨ehcStmts, handleReturnAt_none _ _ _ _, by simp [LinkedList.values, split]⟩
  | round rounds cell behind fewer ih =>
      obtain ⟨it, currStmt⟩ := cell
      obtain ⟨roundsPlain, rfl⟩ := Nat.exists_eq_succ_of_ne_zero
        (Nat.ne_of_gt (Nat.lt_of_lt_of_le (Nat.succ_pos _) enoughPlain))
      have fewerPlain : behind.length ≤ roundsPlain := Nat.le_of_succ_le_succ enoughPlain
      have start : firstPosition ((it, currStmt) :: behind) = some it := rfl
      rw [start, handleReturnAt, LinkedList.read_of_split split, Option.bind_some, List.map_cons]
      cases isReturn : currStmt.isReturn with
      | false =>
          rw [if_neg Bool.false_ne_true, LinkedList.after_of_split split, Option.bind_some,
            handleReturnLoop_other _ _ _ _ isReturn]
          have later := ih behind fewer (before ++ [(it, currStmt)]) (by simp [split]) returnVal
            roundsPlain enoughSteps fewerPlain
          rw [List.map_append] at later
          exact later
      | true =>
          -- The inner loop keeps the `return` statement, so its position stays.
          have kept := keepsBeside_of_isReturn currStmt isReturn
          have splitLeft := LinkedList.cells_filter_of_split split kept
          have shorter : ((ehcStmts.filter (keepsBeside currStmt)).without it).cells.length ≤
              steps := by
            rw [LinkedList.cells_without, LinkedList.cells_filter]
            exact (List.length_filter_le _ _).trans
              ((List.length_filter_le _ _).trans enoughSteps)
          have values : recordedValue ehcStmts.values returnVal currStmt =
              recordedValue (before.map Prod.snd ++ behind.map Prod.snd) returnVal currStmt := by
            rw [LinkedList.values, split, List.map_append, List.map_cons]
            exact recordedValue_self _ _ returnVal isReturn
          rw [if_pos rfl, handleReturnStmt_eq ehcStmts returnVal currStmt steps enoughSteps,
            Option.bind_some, handleReturnLoop_return _ _ _ _ isReturn]
          dsimp only
          rw [LinkedList.erase_of_split splitLeft, Option.bind_some, values]
          have later := ih _ ((List.length_filter_le _ _).trans fewer) _
            (LinkedList.cells_without_of_split splitLeft)
            (recordedValue (before.map Prod.snd ++ behind.map Prod.snd) returnVal currStmt)
            roundsPlain shorter ((List.length_filter_le _ _).trans fewerPlain)
          simpa [List.filter_map, Function.comp_def] using later

/-! ## What is taken out -/

/-- The variable that a `return` statement returns directly. -/
def returnedName (stmt : Stmt) : Option String :=
  if stmt.isReturn then castOfName (stmt.child 0) else none

/-- An assignment of a negated literal to a variable that a `return` statement of the list
returns directly. -/
def isReturnedLiteral (stmts : List Stmt) (stmt : Stmt) : Bool :=
  stmts.any fun returnStmt =>
    (returnedName returnStmt).any fun retstr => (assignedLiteral retstr stmt).isSome

/-- The list without its `return` statements and without the literals they return. -/
def withoutReturns (stmts : List Stmt) : List Stmt :=
  stmts.filter fun stmt => !stmt.isReturn && !isReturnedLiteral stmts stmt

theorem isReturnedLiteral_cons_return {returnStmt : Stmt} (isReturn : returnStmt.isReturn = true)
    (rest : List Stmt) (stmt : Stmt) :
    isReturnedLiteral (returnStmt :: rest) stmt =
      (!keepsBeside returnStmt stmt || isReturnedLiteral rest stmt) := by
  rw [isReturnedLiteral, List.any_cons, returnedName, if_pos isReturn, keepsBeside]
  cases castOfName (returnStmt.child 0) with
  | none => rfl
  | some retstr => simp [isReturnedLiteral]

theorem isReturnedLiteral_cons_other {currStmt : Stmt} (notReturn : currStmt.isReturn = false)
    (rest : List Stmt) (stmt : Stmt) :
    isReturnedLiteral (currStmt :: rest) stmt = isReturnedLiteral rest stmt := by
  rw [isReturnedLiteral, List.any_cons, returnedName, if_neg (by simp [notReturn])]
  rfl

/-- A `return` statement takes no other one with it. -/
theorem isReturnedLiteral_filter (returnStmt : Stmt) (stmts : List Stmt) (stmt : Stmt) :
    isReturnedLiteral (stmts.filter (keepsBeside returnStmt)) stmt =
      isReturnedLiteral stmts stmt := by
  induction stmts with
  | nil => rfl
  | cons currStmt rest ih =>
      cases isReturn : currStmt.isReturn with
      | true =>
          rw [List.filter_cons_of_pos (keepsBeside_of_isReturn returnStmt isReturn),
            isReturnedLiteral_cons_return isReturn, isReturnedLiteral_cons_return isReturn, ih]
      | false =>
          rw [isReturnedLiteral_cons_other isReturn]
          by_cases kept : keepsBeside returnStmt currStmt = true
          · rw [List.filter_cons_of_pos kept, isReturnedLiteral_cons_other isReturn, ih]
          · rw [List.filter_cons_of_neg kept, ih]

/-- Behind statements that are no `return`, the loop takes out what it should. -/
theorem handleReturnLoop_stmts (rounds : Nat) (passed rest : List Stmt) (returnVal : Int)
    (noReturn : ∀ stmt ∈ passed, stmt.isReturn = false) (enough : rest.length ≤ rounds) :
    (handleReturnLoop rounds passed returnVal rest).1 =
      (passed ++ rest).filter fun stmt => !stmt.isReturn && !isReturnedLiteral rest stmt := by
  induction rounds, rest, enough using rounds_induction generalizing passed returnVal with
  | done rounds =>
      rw [handleReturnLoop_nil, eq_comm, List.append_nil, List.filter_eq_self]
      intro stmt stmtMem
      simp [noReturn stmt stmtMem, isReturnedLiteral]
  | round rounds currStmt rest fewer ih =>
      cases isReturn : currStmt.isReturn with
      | false =>
          have noReturnHere : ∀ stmt ∈ passed ++ [currStmt], stmt.isReturn = false := by
            intro stmt stmtMem
            rcases List.mem_append.mp stmtMem with inPassed | isHere
            · exact noReturn stmt inPassed
            · rw [List.mem_singleton.mp isHere]
              exact isReturn
          rw [handleReturnLoop_other _ _ _ _ isReturn, ih rest fewer _ returnVal noReturnHere,
            List.append_assoc, List.singleton_append]
          simp only [isReturnedLiteral_cons_other isReturn]
      | true =>
          rw [handleReturnLoop_return _ _ _ _ isReturn,
            ih _ ((List.length_filter_le _ _).trans fewer) _ _
              (fun stmt stmtMem => noReturn stmt (List.mem_of_mem_filter stmtMem)),
            ← List.filter_append, List.filter_filter, List.filter_append, List.filter_append,
            List.filter_cons_of_neg (by simp [isReturn])]
          simp only [isReturnedLiteral_filter, isReturnedLiteral_cons_return isReturn,
            Bool.not_or, Bool.not_not, Bool.and_assoc, Bool.and_comm (keepsBeside currStmt _)]

/-- What `handle_return` makes of the list and the value of an EHC: no `return` statement is
left, and the list is the old one without the `return` statements and the literals they
return.  At any positions the loops end and use no erased one. -/
def ReturnsTaken (ι : Type u) [DecidableEq ι] (ehcStmts : List Stmt) (returnVal : Int)
    (stmtsLeft : List Stmt) (returnValLeft : Int) : Prop :=
  (∀ stmt ∈ stmtsLeft, stmt.isReturn = false) ∧ stmtsLeft = withoutReturns ehcStmts ∧
    ∀ placed : LinkedList ι Stmt, placed.values = ehcStmts → ∀ steps, ehcStmts.length ≤ steps →
      ∃ left, handleReturnAt steps steps placed returnVal placed.first =
        some (left, returnValLeft) ∧ left.values = stmtsLeft

theorem returnsTaken_handleReturnLoop (ehcStmts : List Stmt) (returnVal : Int) :
    ReturnsTaken ι ehcStmts returnVal
      (handleReturnLoop ehcStmts.length [] returnVal ehcStmts).1
      (handleReturnLoop ehcStmts.length [] returnVal ehcStmts).2 := by
  have isFiltered := handleReturnLoop_stmts ehcStmts.length [] ehcStmts returnVal (by simp)
    (Nat.le_refl _)
  refine ⟨?_, isFiltered, ?_⟩
  · intro stmt stmtMem
    rw [isFiltered] at stmtMem
    have kept := List.of_mem_filter stmtMem
    rw [Bool.and_eq_true, Bool.not_eq_true'] at kept
    exact kept.1
  · intro placed values steps enough
    have sameLength : placed.cells.length = ehcStmts.length := by
      rw [← values, LinkedList.values, List.length_map]
    have run := handleReturnAt_of_split steps [] placed.cells rfl returnVal steps ehcStmts.length
      (sameLength ▸ enough) (sameLength ▸ enough) (Nat.le_of_eq sameLength)
    rw [List.map_nil, ← LinkedList.values, values] at run
    exact run

end Hecaton.Pass2
