import Hecaton.DatabasePlugin.Pairs

/-!
# The names in the pair database

For every new statement with a call the plugin writes a line: the name of the function, a comma
and the name in the pair.  The search for the name leaves the loop over the children at a direct
call, but the result of a search below a child is overwritten at the next child.  So a name is
only found when no later sibling follows on the way down to the call.
-/

namespace Hecaton.DatabasePlugin

open Hecaton.Clang

/-! ## The search -/

mutual

/-- `recursive_fnc_name`. -/
def recursiveFncName : Stmt → String
  | .null => ""
  | .node _ _ children => recursiveFncNameLoop "" children

/-- Its loop over the children, with `found`. -/
def recursiveFncNameLoop (found : String) : List Stmt → String
  | [] => found
  | currStmt :: rest =>
      if currStmt.isNull then recursiveFncNameLoop "" rest
      else
        match currStmt.directCallee with
        | some fncname => fncname
        | none => recursiveFncNameLoop (recursiveFncName currStmt) rest

end

/-- `find_fnc_name`. -/
def findFncName (stmt : Stmt) : String :=
  match stmt.directCallee with
  | some fncname => fncname
  | none => recursiveFncName stmt

/-- The line that `write_pairs_to_database` writes for a new statement, if it writes one. -/
def databaseLine (newstmt : EHCNewStmt) : Option String :=
  if Pass2.contains newstmt.stmt.info.printed "print" then none
  else
    let name := findFncName newstmt.stmt
    if name ≠ "" then some (name ++ "," ++ findFncName newstmt.pair ++ "\n") else none

/-- `write_pairs_to_database`: the lines it appends to the file. -/
def writePairsToDatabase (currFunction : Function) : List String :=
  currFunction.EHCs.flatMap fun currEHC => currEHC.ehcNewStmts.filterMap databaseLine

/-! ## What the search finds -/

/-- A call with a direct callee. -/
def isDirectCall (stmt : Stmt) : Bool := stmt.directCallee.isSome

/-- Some node on the way to the last children has a direct call as a child. -/
def CallOnLastPath (stmt : Stmt) : Prop :=
  ∃ p, Pass2.OnLastPath stmt p ∧ ∃ c ∈ p.children, isDirectCall c = true

theorem callOnLastPath_iff {stmt : Stmt} :
    CallOnLastPath stmt ↔
      (∃ c ∈ stmt.children, isDirectCall c = true) ∨
        ∃ lastChild, stmt.children.getLast? = some lastChild ∧ CallOnLastPath lastChild :=
  Pass2.exists_onLastPath_iff

theorem recursiveFncNameLoop_cons (found : String) (currStmt : Stmt) (rest : List Stmt) :
    recursiveFncNameLoop found (currStmt :: rest) =
      match currStmt.directCallee with
      | some fncname => fncname
      | none => recursiveFncNameLoop (recursiveFncName currStmt) rest := by
  cases currStmt with
  | null => simp [recursiveFncNameLoop, Stmt.isNull, Stmt.directCallee, recursiveFncName]
  | node info cls children => simp [recursiveFncNameLoop, Stmt.isNull]

/-- The loop leaves with the first child that is a direct call, or else with the name from
below the last child. -/
theorem recursiveFncNameLoop_eq (found : String) (children : List Stmt) :
    recursiveFncNameLoop found children =
      match children.findSome? Stmt.directCallee with
      | some fncname => fncname
      | none => (children.getLast?.map recursiveFncName).getD found := by
  induction children generalizing found with
  | nil => simp [recursiveFncNameLoop]
  | cons currStmt rest ih =>
      rw [recursiveFncNameLoop_cons, List.findSome?_cons]
      cases currStmt.directCallee with
      | some fncname => rfl
      | none =>
          dsimp only
          rw [ih]
          cases rest.findSome? Stmt.directCallee with
          | some fncname => rfl
          | none =>
              dsimp only
              cases rest with
              | nil => rfl
              | cons next rest => simp [List.getLast?_cons]

/-- With a direct call on the way, the search finds the name of a call below the root. -/
theorem recursiveFncName_of_onPath {stmt : Stmt} (onPath : CallOnLastPath stmt) :
    ∃ n ∈ stmt.descendants, n.directCallee = some (recursiveFncName stmt) := by
  induction stmt using Stmt.tree_induction with
  | null =>
      rcases callOnLastPath_iff.mp onPath with ⟨c, cMem, _⟩ | ⟨lastChild, isLast, _⟩
      · simp [Stmt.children] at cMem
      · simp [Stmt.children] at isLast
  | node info cls children ih =>
      rw [recursiveFncName, recursiveFncNameLoop_eq]
      cases first : children.findSome? Stmt.directCallee with
      | some fncname =>
          obtain ⟨c, cMem, isCall⟩ := List.exists_of_findSome?_eq_some first
          exact ⟨c, Stmt.child_mem_descendants cMem (Stmt.ne_null_of_directCallee isCall), isCall⟩
      | none =>
          have noChild := List.findSome?_eq_none_iff.mp first
          rcases callOnLastPath_iff.mp onPath with ⟨c, cMem, isCall⟩ | ⟨lastChild, isLast, below⟩
          · rw [isDirectCall, noChild c cMem] at isCall
            exact absurd isCall Bool.false_ne_true
          · rw [Stmt.children] at isLast
            have lastMem := List.mem_of_getLast? isLast
            obtain ⟨n, inLast, isCall⟩ := ih lastChild lastMem below
            rw [isLast]
            exact ⟨n, Stmt.mem_descendants_iff.mpr
              ⟨lastChild, lastMem, Stmt.descendants_subset_nodes inLast⟩, isCall⟩

/-- Without one the name is empty. -/
theorem recursiveFncName_of_not_onPath {stmt : Stmt} (notOnPath : ¬ CallOnLastPath stmt) :
    recursiveFncName stmt = "" := by
  induction stmt using Stmt.tree_induction with
  | null => rw [recursiveFncName]
  | node info cls children ih =>
      rw [callOnLastPath_iff, not_or] at notOnPath
      obtain ⟨noChild, notBelow⟩ := notOnPath
      have noneFirst : children.findSome? Stmt.directCallee = none := by
        rw [List.findSome?_eq_none_iff]
        intro c cMem
        by_contra isCall
        exact noChild ⟨c, cMem, Option.isSome_iff_ne_none.mpr isCall⟩
      rw [recursiveFncName, recursiveFncNameLoop_eq, noneFirst]
      dsimp only
      cases isLast : children.getLast? with
      | none => rfl
      | some lastChild =>
          exact ih lastChild (List.mem_of_getLast? isLast) fun below =>
            notBelow ⟨lastChild, isLast, below⟩

/-! ## The name of a statement -/

/-- The name is that of a direct call in the tree, and it is empty only when there is none. -/
def FindsCallee (stmt : Stmt) (name : String) : Prop :=
  (name ≠ "" ↔ ∃ n ∈ stmt.nodes, isDirectCall n = true) ∧
    (name ≠ "" → ∃ n ∈ stmt.nodes, n.directCallee = some name)

/-- Every function that is called has a name. -/
def CalleesNamed (stmt : Stmt) : Prop := ∀ n ∈ stmt.nodes, n.directCallee ≠ some ""

/-- The search stops at the statement itself or at a child of a node on the way to the last
children. -/
def CallFound (stmt : Stmt) : Prop := isDirectCall stmt = true ∨ CallOnLastPath stmt

theorem findFncName_of_callFound {stmt : Stmt} (found : CallFound stmt) :
    ∃ n ∈ stmt.nodes, n.directCallee = some (findFncName stmt) := by
  rw [findFncName]
  cases isCall : stmt.directCallee with
  | some fncname =>
      exact ⟨stmt, Stmt.self_mem_nodes (Stmt.ne_null_of_directCallee isCall), isCall⟩
  | none =>
      rcases found with isDirect | onPath
      · rw [isDirectCall, isCall] at isDirect
        exact absurd isDirect Bool.false_ne_true
      · obtain ⟨n, below, isCallee⟩ := recursiveFncName_of_onPath onPath
        exact ⟨n, Stmt.descendants_subset_nodes below, isCallee⟩

theorem findFncName_of_not_callFound {stmt : Stmt} (notFound : ¬ CallFound stmt) :
    findFncName stmt = "" := by
  rw [CallFound, not_or] at notFound
  have noCallee : stmt.directCallee = none := by
    cases isCall : stmt.directCallee with
    | none => rfl
    | some fncname => exact absurd (by rw [isDirectCall, isCall]; rfl) notFound.1
  rw [findFncName, noCallee]
  exact recursiveFncName_of_not_onPath notFound.2

theorem findFncName_ne_empty_iff {stmt : Stmt} (named : CalleesNamed stmt) :
    findFncName stmt ≠ "" ↔ CallFound stmt := by
  constructor
  · intro nonempty
    by_contra notFound
    exact nonempty (findFncName_of_not_callFound notFound)
  · intro found empty
    obtain ⟨n, nMem, isCallee⟩ := findFncName_of_callFound found
    rw [empty] at isCallee
    exact named n nMem isCallee

/-- The name is right exactly when the statement has no direct call or has one where the search
stops. -/
theorem findFncName_findsCallee_iff (stmt : Stmt) (named : CalleesNamed stmt) :
    FindsCallee stmt (findFncName stmt) ↔
      ((∃ n ∈ stmt.nodes, isDirectCall n = true) → CallFound stmt) := by
  have nonemptyIff := findFncName_ne_empty_iff named
  constructor
  · intro findsCallee someCall
    exact nonemptyIff.mp (findsCallee.1.mpr someCall)
  · intro found
    have isCallee : findFncName stmt ≠ "" →
        ∃ n ∈ stmt.nodes, n.directCallee = some (findFncName stmt) := fun nonempty =>
      findFncName_of_callFound (nonemptyIff.mp nonempty)
    refine ⟨⟨?_, fun someCall => nonemptyIff.mpr (found someCall)⟩, isCallee⟩
    intro nonempty
    obtain ⟨n, nMem, callee⟩ := isCallee nonempty
    exact ⟨n, nMem, by rw [isDirectCall, callee]; rfl⟩

/-- `err = release(dev)`, with a conversion around the call. -/
def convertedCall : Stmt :=
  .node
    { id := 1
      beginLoc := ⟨10, 2, false⟩
      endLoc := ⟨27, 2, false⟩
      printed := "err = release(dev)"
      text := "err = release(dev)" }
    (.binaryOperator .assign)
    [Build.nameRef 2 10 2 "err",
      .node
        { id := 3
          beginLoc := ⟨16, 2, false⟩
          endLoc := ⟨27, 2, false⟩
          printed := "release(dev)"
          text := "release(dev)" }
        .implicitCastExpr [Build.callOf 4 16 2 "release" "dev"]]

/-- The call stands below the last child and is found. -/
theorem findFncName_findsCallee_release :
    FindsCallee convertedCall (findFncName convertedCall) := by
  refine (findFncName_findsCallee_iff convertedCall ?_).mpr ?_
  · simp [CalleesNamed, convertedCall, Build.callOf, Build.nameRef, Stmt.directCallee]
  · intro _
    exact Or.inr ⟨_, .last rfl (.root _), _, List.mem_cons_self, rfl⟩

/-- `get_priv(dev)->count = 0;` -/
def countReset : Stmt :=
  .node
    { id := 1
      beginLoc := ⟨10, 2, false⟩
      endLoc := ⟨33, 2, false⟩
      printed := "get_priv(dev)->count = 0"
      text := "get_priv(dev)->count = 0" }
    (.binaryOperator .assign)
    [.node
      { id := 2
        beginLoc := ⟨10, 2, false⟩
        endLoc := ⟨25, 2, false⟩
        printed := "get_priv(dev)->count"
        text := "get_priv(dev)->count" }
      .other [Build.callOf 3 10 2 "get_priv" "dev"],
      .node
        { id := 6
          beginLoc := ⟨33, 2, false⟩
          endLoc := ⟨33, 2, false⟩
          printed := "0"
          text := "0" }
        (.integerLiteral 0) []]

/-- The number behind the call makes the search forget its name. -/
theorem findFncName_forgets_callee : ¬ FindsCallee countReset (findFncName countReset) := by
  intro findsCallee
  have someCall : ∃ n ∈ countReset.nodes, isDirectCall n = true := by
    refine ⟨Build.callOf 3 10 2 "get_priv" "dev", ?_, rfl⟩
    simp [countReset, Build.callOf]
  exact findsCallee.1.mpr someCall (by decide)

/-! ## The lines -/

/-- A statement gets a line exactly when it prints nothing and the search finds a call. -/
theorem databaseLine_isSome_iff (newstmt : EHCNewStmt) (named : CalleesNamed newstmt.stmt) :
    (databaseLine newstmt).isSome = true ↔
      Pass2.contains newstmt.stmt.info.printed "print" = false ∧ CallFound newstmt.stmt := by
  rw [← findFncName_ne_empty_iff named, databaseLine]
  cases Pass2.contains newstmt.stmt.info.printed "print" with
  | true => simp
  | false =>
      by_cases empty : findFncName newstmt.stmt = ""
      · simp [empty]
      · simp [empty]

/-- The name of a statement is that of a function called in it, or there is none. -/
def NamesCall (stmt : Stmt) (name : String) : Prop :=
  (∃ n ∈ stmt.nodes, n.directCallee = some name) ∨ (¬ CallFound stmt ∧ name = "")

theorem namesCall_findFncName (stmt : Stmt) : NamesCall stmt (findFncName stmt) := by
  by_cases found : CallFound stmt
  · exact Or.inl (findFncName_of_callFound found)
  · exact Or.inr ⟨found, findFncName_of_not_callFound found⟩

/-- Every line that is written names a function that its new statement calls, and the statement
prints nothing. -/
theorem exists_call_of_line {currFunction : Function} {line : String}
    (written : line ∈ writePairsToDatabase currFunction) :
    ∃ currEHC ∈ currFunction.EHCs, ∃ newstmt ∈ currEHC.ehcNewStmts,
      Pass2.contains newstmt.stmt.info.printed "print" = false ∧
      ∃ n ∈ newstmt.stmt.nodes, ∃ fncname, n.directCallee = some fncname ∧
        line = fncname ++ "," ++ findFncName newstmt.pair ++ "\n" := by
  obtain ⟨currEHC, ehcMem, inEhc⟩ := List.mem_flatMap.mp written
  obtain ⟨newstmt, newMem, isLine⟩ := List.mem_filterMap.mp inEhc
  rw [databaseLine] at isLine
  split at isLine
  · cases isLine
  · rename_i noPrint
    dsimp only at isLine
    split at isLine
    · rename_i nonempty
      have found : CallFound newstmt.stmt := by
        by_contra notFound
        exact nonempty (findFncName_of_not_callFound notFound)
      obtain ⟨n, nMem, isCallee⟩ := findFncName_of_callFound found
      exact ⟨currEHC, ehcMem, newstmt, newMem, Bool.not_eq_true _ ▸ noPrint, n, nMem, _, isCallee,
        (Option.some.inj isLine).symm⟩
    · cases isLine

end Hecaton.DatabasePlugin
