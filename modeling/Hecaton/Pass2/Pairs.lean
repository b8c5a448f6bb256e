import Hecaton.Clang.Tree
import Hecaton.Pass2.State
import Hecaton.Pass2.Text

/-!
# Pairs of new statements

`find_pairs` looks for the statement that a new statement undoes.  Five calls
have a known partner; such a new statement is left to the outer EHCs.  For every
other one the assignment, call or operator whose text shares the longest parts
with it is taken.
-/

namespace Hecaton.Pass2

open Hecaton.Clang

/-- The printed first argument of a call. -/
def printedArg (callexpr : Stmt) : String := (callexpr.getArg 0).info.printed

/-- A call to one of the names whose first argument meets a test. -/
def isCallTo (names : List String) (argTest : String → Bool) (stmt2 : Stmt) : Bool :=
  match stmt2.directCallee with
  | some fncname2 => names.contains fncname2 && argTest (printedArg stmt2)
  | none => false

/-- The assignment of a fresh allocation to the given pointer. -/
def isAllocationOf (argStr : String) (stmt2 : Stmt) : Bool :=
  stmt2.binaryOpcode == some .assign &&
    (contains (stmt2.child 1).info.printed "kzalloc" ||
      contains (stmt2.child 1).info.printed "kmalloc") &&
    (stmt2.child 0).info.printed == argStr

/-- `is_pair`. -/
def isPair (stmt1 stmt2 : Stmt) : Bool :=
  let argStr := printedArg stmt1
  match stmt1.directCallee with
  | some fncname =>
      if fncname = "kfree" ∨ fncname = "kzfree" then isAllocationOf argStr stmt2
      else if fncname = "mutex_unlock" then isCallTo ["mutex_lock"] (· == argStr) stmt2
      else if fncname = "spin_unlock" then
        isCallTo ["spin_lock", "_raw_spin_lock"] (· == argStr) stmt2
      else if fncname = "spin_unlock_irqrestore" then
        isCallTo ["spin_lock_irqsave", "_raw_spin_lock_irqsave"]
          (fun argStr2 => argStr2 == argStr || contains argStr argStr2 || contains argStr2 argStr)
          stmt2
      else false
  | none => false

/-- The expansion line of a statement lies strictly between two lines. -/
def isBetween (startLine endLine : Nat) (currStmt : Stmt) : Bool :=
  startLine < currStmt.info.beginLoc.line && currStmt.info.beginLoc.line < endLine

mutual

/-- `recursive_pair_visit`: the result for the last child visited, and the pair
set last. -/
def recursivePairVisit (ehcStmt : Stmt) (startLine endLine : Nat) : Stmt → Stmt → Bool × Stmt
  | .null, pair => (false, pair)
  | .node _ _ children, pair => recursivePairLoop ehcStmt startLine endLine false children pair

/-- Its loop over the children, with `found`. -/
def recursivePairLoop (ehcStmt : Stmt) (startLine endLine : Nat) (found : Bool) :
    List Stmt → Stmt → Bool × Stmt
  | [], pair => (found, pair)
  | currStmt :: rest, pair =>
      if currStmt.isNull then recursivePairLoop ehcStmt startLine endLine false rest pair
      else if isBetween startLine endLine currStmt && isPair ehcStmt currStmt then (true, currStmt)
      else
        let (found, pair) := recursivePairVisit ehcStmt startLine endLine currStmt pair
        recursivePairLoop ehcStmt startLine endLine found rest pair

end

/-! ## Probable pairs -/

/-- `str.find(sub)`, counting from an index. -/
def indexOfSub (sub : List Char) : Nat → List Char → Option Nat
  | i, [] => if sub.isEmpty then some i else none
  | i, ch :: rest => if sub.isPrefixOf (ch :: rest) then some i else indexOfSub sub (i + 1) rest

/-- `str.erase(i, n)`. -/
def eraseSub (str : List Char) (i n : Nat) : List Char := str.take i ++ str.drop (i + n)

/-- `delete_longest_common_substr`: the length of the longest part of at least
three characters that the first text shares with the second, and both texts
without it. -/
def deleteLongestCommonSubstr (str1 str2 : List Char) : Option (Nat × List Char × List Char) :=
  let len := str1.length
  let places := (List.range' 3 (len - 2)).reverse.flatMap fun sublen =>
    (List.range (len - sublen + 1)).map fun i => (i, sublen)
  places.findSome? fun (i, sublen) =>
    (indexOfSub ((str1.drop i).take sublen) 0 str2).map fun found =>
      (sublen, eraseSub str1 i sublen, eraseSub str2 found sublen)

/-- `compare`.  Every round takes characters from the first text, so as many
rounds as it has are enough. -/
def compare : Nat → List Char → List Char → Nat → Nat
  | 0, _, _, score => score
  | rounds + 1, str1, str2, score =>
      match deleteLongestCommonSubstr str1 str2 with
      | some (subLen, str1, str2) => compare rounds str1 str2 (score + subLen)
      | none => score

/-- `pair_evaluation`. -/
def pairEvaluation (stmt1 stmt2 : Stmt) : Nat :=
  let str1 := stmt1.info.printed.toList
  compare str1.length str1 stmt2.info.printed.toList 0 * 100 / str1.length

/-- `Pair_Candidate`, for the new statement at hand. -/
structure PairCandidate where
  pair : Stmt
  probability : Nat

/-- The test of `recursive_probable_pair_visit`. -/
def isPairCandidate (ehcStmt currStmt : Stmt) : Bool :=
  if currStmt.isBinaryOperator then currStmt.binaryOpcode.any BinaryOpcode.isAssignmentOp
  else currStmt.isCall || currStmt.isUnaryOperator || (currStmt.isIf && ehcStmt.isIf)

/-- `recursive_probable_pair_visit`: the candidates among the nodes below, in
visiting order. -/
def probablePairs (Body ehcStmt : Stmt) (startLine endLine : Nat) : List PairCandidate :=
  (Body.descendants.filter fun currStmt =>
    isBetween startLine endLine currStmt && isPairCandidate ehcStmt currStmt).map fun currStmt =>
      { pair := currStmt, probability := pairEvaluation ehcStmt currStmt }

/-- The loop of `sort_pairs`: where the first highest score stands. -/
def maxIndex (maxScore itMax : Nat) : Nat → List PairCandidate → Nat
  | _, [] => itMax
  | i, possiblePair :: rest =>
      if possiblePair.probability > maxScore then
        maxIndex possiblePair.probability i (i + 1) rest
      else maxIndex maxScore itMax (i + 1) rest

/-- `sort_pairs`.  Every round takes a candidate, so as many rounds as there are
candidates are enough. -/
def sortPairs : Nat → List PairCandidate → List PairCandidate
  | 0, _ => []
  | rounds + 1, possiblePairs =>
      let i := maxIndex 0 0 0 possiblePairs
      match possiblePairs[i]? with
      | some best => best :: sortPairs rounds (possiblePairs.eraseIdx i)
      | none => []

/-- `pick_the_most_probable`.  The source reads the front of the list also when
it is empty, which is undefined; here it then finds null. -/
def pickTheMostProbable (sortedPairs : List PairCandidate) : Stmt :=
  match sortedPairs with
  | [] => .null
  | firstPair :: _ => firstPair.pair

/-- The round of `find_pairs` for one new statement. -/
def findPair (Body : Stmt) (startLine endLine : Nat) (newstmt : EHCNewStmt) : EHCNewStmt :=
  let (pairFound, pair) := recursivePairVisit newstmt.stmt startLine endLine Body newstmt.pair
  if pairFound then { newstmt with pair := pair, isOuter := true }
  else
    let possiblePairs := probablePairs Body newstmt.stmt startLine endLine
    { newstmt with
      pair := pickTheMostProbable (sortPairs possiblePairs.length possiblePairs)
      isOuter := false }

/-- The line behind which the pairs of an EHC are searched: the end of the block
two places before, or the beginning of the body. -/
def pairStartLine (f : Function) (index : Nat) : Nat :=
  match f.EHCs[index - 2]? with
  | some earlier =>
      if index ≥ 2 then earlier.head.headStmt.info.endLoc.line else f.body.info.beginLoc.line
  | none => f.body.info.beginLoc.line

/-- `find_pairs`. -/
def findPairs (f : Function) : Function :=
  { f with
    EHCs := f.EHCs.mapIdx fun index ehc =>
      { ehc with
        ehcNewStmts := ehc.ehcNewStmts.map
          (findPair f.body (pairStartLine f index) ehc.head.headStmt.info.beginLoc.line) } }

/-! ## What a found pair says -/

/-- The undo calls with a known partner. -/
def pairedUndoFncs : List String :=
  ["kfree", "kzfree", "mutex_unlock", "spin_unlock", "spin_unlock_irqrestore"]

theorem directCallee_of_isPair {stmt1 stmt2 : Stmt} (pair : isPair stmt1 stmt2 = true) :
    ∃ fncname ∈ pairedUndoFncs, stmt1.directCallee = some fncname := by
  cases callee : stmt1.directCallee with
  | none => simp [isPair, callee] at pair
  | some fncname =>
      refine ⟨fncname, ?_, rfl⟩
      simp only [isPair, callee] at pair
      simp only [pairedUndoFncs, List.mem_cons, List.not_mem_nil, or_false]
      by_contra others
      simp only [not_or] at others
      simp [others] at pair

/-- A pair is only found for a statement that some statement is a pair of. -/
theorem isPair_of_recursivePairVisit {ehcStmt s pair : Stmt} {startLine endLine : Nat}
    (found : (recursivePairVisit ehcStmt startLine endLine s pair).1 = true) :
    ∃ stmt2, isPair ehcStmt stmt2 = true := by
  induction s using Stmt.tree_induction generalizing pair with
  | null => simp [recursivePairVisit] at found
  | node info cls children ih =>
      simp only [recursivePairVisit] at found
      have fromLoop : ∀ (start : Bool) (pair : Stmt),
          (recursivePairLoop ehcStmt startLine endLine start children pair).1 = true →
          start = true ∨ ∃ stmt2, isPair ehcStmt stmt2 = true := by
        clear found info cls
        induction children with
        | nil => exact fun start pair found => Or.inl found
        | cons currStmt rest ihRest =>
            intro start pair found
            have inRest := ihRest fun child childMem => ih child (List.mem_cons_of_mem _ childMem)
            simp only [recursivePairLoop] at found
            split at found
            · rcases inRest false pair found with impossible | some
              · exact absurd impossible Bool.false_ne_true
              · exact Or.inr some
            · split at found
              · rename_i test
                exact Or.inr ⟨currStmt, (Bool.and_eq_true _ _ ▸ test).2⟩
              · rcases inRest _ _ found with below | some
                · exact Or.inr (ih currStmt List.mem_cons_self below)
                · exact Or.inr some
      rcases fromLoop false pair found with impossible | some
      · exact absurd impossible Bool.false_ne_true
      · exact some

theorem findPair_stmt (Body : Stmt) (startLine endLine : Nat) (newstmt : EHCNewStmt) :
    (findPair Body startLine endLine newstmt).stmt = newstmt.stmt := by
  simp only [findPair]
  split <;> rfl

/-- A new statement is left to the outer EHCs only if it calls one of the
functions with a known partner. -/
theorem directCallee_of_findPair {Body : Stmt} {startLine endLine : Nat} {newstmt : EHCNewStmt}
    (outer : (findPair Body startLine endLine newstmt).isOuter = true) :
    ∃ fncname ∈ pairedUndoFncs, newstmt.stmt.directCallee = some fncname := by
  simp only [findPair] at outer
  split at outer
  · rename_i found
    obtain ⟨_, pair⟩ := isPair_of_recursivePairVisit found
    exact directCallee_of_isPair pair
  · simp at outer

end Hecaton.Pass2
