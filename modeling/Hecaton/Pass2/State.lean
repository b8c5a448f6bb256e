import Hecaton.Clang.Stmt

/-!
# The records of the second pass

The error-handling blocks (EHCs) that the pass finds in a function, the new
statements it takes from them, and the outer EHCs: undo calls found anywhere in
the body.  A fresh record has the zero values that `new` gives its fields.
-/

namespace Hecaton.Pass2

open Hecaton.Clang

/-- `EHC_type`. -/
inductive EHCType
  | goto | return_ | cond | maybe | gotoMaybe | verified | denied
  deriving DecidableEq

/-- `EHC_head`: the first statement of an error-handling block. -/
structure EHCHead where
  type : EHCType
  headStmt : Stmt

/-- `EHC_new_stmt`: a statement of an EHC that no earlier EHC lists. -/
structure EHCNewStmt where
  stmt : Stmt
  pair : Stmt := .null
  pairmaskId : BitVec 64 := 0
  isOuter : Bool := false
  type : EHCType

/-- `EHC`. -/
structure EHC where
  head : EHCHead
  ehcStmts : List Stmt := []
  ehcNewStmts : List EHCNewStmt := []
  returnVal : Int := 0

/-- `ScoredStmt`. -/
structure ScoredStmt where
  stmt : Stmt
  score : Int := 0

/-- `OuterEHC`: an undo call found in the body, with the calls it undoes and
the later calls with the same text. -/
structure OuterEHC where
  stmt : Stmt
  pairs : List Stmt := []
  pairmaskId : BitVec 64 := 0
  duplicates : List Stmt := []
  foundWithDatabase : Bool := false
  databaseIndexes : List Nat := []
  possiblePairs : List Stmt := []
  uniquePossiblePairs : List ScoredStmt := []
  hasInnerDuplicate : Bool := false
  innerDuplicate : Stmt := .null

/-- `ConfidenceScore`. -/
structure ConfidenceScore where
  scoreNumberEhc : Int := 0
  scoreMissingEhc : Int := 0
  scoreMaybeBlocks : Int := 0
  scoreFunctionPointer : Int := 0
  initFlag : Nat := 0

/-- `Function`. -/
structure Function where
  body : Stmt
  EHCs : List EHC := []
  outerEHCs : List OuterEHC := []
  typeStr : String
  name : String
  isClosing : Bool := false
  confidenceScore : ConfidenceScore := {}

/-- The statements from which the EHCs of a function took a new statement that
is not covered by an outer EHC, in order. -/
def Function.innerStmts (f : Function) : List EHCNewStmt :=
  f.EHCs.flatMap fun ehc => ehc.ehcNewStmts.filter fun newstmt => !newstmt.isOuter

/-! ## The function-pair database -/

/-- The two arrays of the function-pair database. -/
structure Database where
  ehcFncs : List String
  pairFncs : List String

/-- The loop of `find_fnc` from index `i` on. -/
def findFncFrom (mystr : String) : Nat → List String → List Nat
  | _, [] => []
  | i, str :: rest =>
      if mystr = str then i :: findFncFrom mystr (i + 1) rest
      else findFncFrom mystr (i + 1) rest

/-- `find_fnc`: the indices at which the array holds the name. -/
def findFnc (strArr : List String) (mystr : String) : List Nat :=
  findFncFrom mystr 0 strArr

theorem mem_findFncFrom (mystr : String) (strArr : List String) (start i : Nat) :
    i ∈ findFncFrom mystr start strArr ↔ start ≤ i ∧ strArr[i - start]? = some mystr := by
  induction strArr generalizing start with
  | nil => simp [findFncFrom]
  | cons str rest ih =>
      have shifted : start < i → (str :: rest)[i - start]? = rest[i - (start + 1)]? := by
        intro later
        rw [show i - start = (i - (start + 1)) + 1 by omega, List.getElem?_cons_succ]
      rcases Nat.lt_trichotomy i start with before | rfl | later
      · have restEmpty : i ∉ findFncFrom mystr (start + 1) rest := by
          rw [ih]
          omega
        simp only [findFncFrom]
        split <;> simp [restEmpty] <;> omega
      · have restEmpty : i ∉ findFncFrom mystr (i + 1) rest := by
          rw [ih]
          omega
        simp only [findFncFrom]
        split <;> simp_all [eq_comm]
      · have restMem : i ∈ findFncFrom mystr (start + 1) rest ↔
            (str :: rest)[i - start]? = some mystr := by
          rw [ih, shifted later]
          exact and_iff_right later
        have notStart : i ≠ start := Nat.ne_of_gt later
        simp only [findFncFrom]
        split <;> simp [restMem, notStart, Nat.le_of_lt later]

/-- The indices found are exactly those of the entries with the name. -/
theorem mem_findFnc (strArr : List String) (mystr : String) (i : Nat) :
    i ∈ findFnc strArr mystr ↔ strArr[i]? = some mystr := by
  simp [findFnc, mem_findFncFrom]

/-- Nothing is found exactly when the array does not list the name. -/
theorem findFnc_isEmpty (strArr : List String) (mystr : String) :
    (findFnc strArr mystr).isEmpty = true ↔ mystr ∉ strArr := by
  rw [List.isEmpty_iff, List.eq_nil_iff_forall_not_mem]
  constructor
  · intro noIndex listed
    obtain ⟨i, atIndex⟩ := List.mem_iff_getElem?.mp listed
    exact noIndex i ((mem_findFnc strArr mystr i).mpr atIndex)
  · intro unlisted i found
    exact unlisted (List.mem_of_getElem? ((mem_findFnc strArr mystr i).mp found))

end Hecaton.Pass2
