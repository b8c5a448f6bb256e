import Hecaton.Library.Precedes
import Hecaton.Library.Run
import Hecaton.Pass2.DatabasePairs
import Hecaton.Pass2.Pairs

/-!
# Outer EHCs

Undo calls anywhere in the body become outer EHCs: three unlock functions, and
the functions of the database whose arguments pass.  Later calls with the same
text are kept as duplicates of the first, and a new statement with that text is
left to the outer EHC.
-/

namespace Hecaton.Pass2

open Hecaton.Clang
open Hecaton.Library

/-- The unlock functions that become outer EHCs without the database. -/
def unlockFncs : List String := ["mutex_unlock", "spin_unlock", "spin_unlock_irqrestore"]

/-- What `outer_ehcs_recurcive_visit` pushes for one statement. -/
def outerEhcOf (db : Database) (Body currStmt : Stmt) : Option OuterEHC :=
  match currStmt.directCallee with
  | none => none
  | some fncname =>
      if unlockFncs.contains fncname then
        if isInMacro currStmt Body then none else some { stmt := currStmt }
      else
        let founds := findFnc db.ehcFncs fncname
        if founds.isEmpty then none
        else
          let isOk :=
            selectsParam "suspend" "0" fncname (parseParam currStmt.info.text) &&
              fncname != "platform_set_drvdata" && !isInMacro currStmt Body
          if isOk then
            some { stmt := currStmt, foundWithDatabase := true, databaseIndexes := founds }
          else none

/-- `outer_ehcs_recurcive_visit`: the outer EHCs of the nodes below the body, in
visiting order. -/
def outerEhcsVisit (db : Database) (Body : Stmt) : List OuterEHC :=
  Body.descendants.filterMap (outerEhcOf db Body)

/-- The text of an outer EHC's statement. -/
def OuterEHC.text (outerEhc : OuterEHC) : String := outerEhc.stmt.info.text

/-- The text of a new statement. -/
def EHCNewStmt.text (newstmt : EHCNewStmt) : String := newstmt.stmt.info.text

/-- The inner loop over the new statements: those with the text of the outer EHC
are left to it. -/
def markOuter (text : String) (ehcs : List EHC) : List EHC :=
  ehcs.map fun ehc =>
    { ehc with
      ehcNewStmts := ehc.ehcNewStmts.map fun newstmt =>
        if newstmt.text = text then { newstmt with isOuter := true } else newstmt }

/-- The same loop, for the outer EHC: it remembers the last such statement. -/
def noteInnerDuplicate (ehcs : List EHC) (outer1 : OuterEHC) : OuterEHC :=
  let found := (ehcs.flatMap EHC.ehcNewStmts).filter fun newstmt => newstmt.text = outer1.text
  match found.getLast? with
  | some newstmt => { outer1 with hasInnerDuplicate := true, innerDuplicate := newstmt.stmt }
  | none => outer1

/-- The loop of `handle_outer_ehcs_duplicates`.  Every round takes an outer EHC
and its duplicates, so as many rounds as there are outer EHCs are enough. -/
def handleDuplicatesLoop : Nat → List EHC → List OuterEHC → List EHC × List OuterEHC
  | 0, ehcs, _ => (ehcs, [])
  | _, ehcs, [] => (ehcs, [])
  | rounds + 1, ehcs, outer1 :: rest =>
      let duplicates := rest.filter fun outer2 => outer2.text = outer1.text
      let others := rest.filter fun outer2 => outer2.text ≠ outer1.text
      let outer1 := { outer1 with duplicates := outer1.duplicates ++ duplicates.map OuterEHC.stmt }
      let (after, others) := handleDuplicatesLoop rounds (markOuter outer1.text ehcs) others
      (after, noteInnerDuplicate ehcs outer1 :: others)

/-- `handle_outer_ehcs_duplicates`. -/
def handleOuterEhcsDuplicates (f : Function) : Function :=
  let (ehcs, outerEhcs) := handleDuplicatesLoop f.outerEHCs.length f.EHCs f.outerEHCs
  { f with EHCs := ehcs, outerEHCs := outerEhcs }

mutual

/-- `outer_pair_recurcive_visit`: a pair is pushed and not entered. -/
def outerPairVisit (outerStmt : Stmt) : Stmt → List Stmt
  | .null => []
  | .node _ _ children => outerPairLoop outerStmt children

/-- Its loop over the children. -/
def outerPairLoop (outerStmt : Stmt) : List Stmt → List Stmt
  | [] => []
  | currStmt :: rest =>
      let own :=
        if currStmt.isNull then []
        else if isPair outerStmt currStmt then [currStmt]
        else outerPairVisit outerStmt currStmt
      own ++ outerPairLoop outerStmt rest

end

/-- The round of `find_outer_ehcs_pairs` for one outer EHC. -/
def findOuterEhcPairs (db : Database) (sm : SourceManager) (Body : Stmt) (outer1 : OuterEHC) :
    OuterEHC :=
  if outer1.foundWithDatabase then outerPairDatabase db sm Body outer1
  else { outer1 with pairs := outer1.pairs ++ outerPairVisit outer1.stmt Body }

/-- `find_outer_ehcs_pairs`. -/
def findOuterEhcsPairs (db : Database) (sm : SourceManager) (f : Function) : Function :=
  { f with outerEHCs := f.outerEHCs.map (findOuterEhcPairs db sm f.body) }

/-- `find_outer_ehcs`. -/
def findOuterEhcs (db : Database) (sm : SourceManager) (f : Function) : Function :=
  findOuterEhcsPairs db sm
    (handleOuterEhcsDuplicates { f with outerEHCs := outerEhcsVisit db f.body })

/-! ## Which calls are taken -/

variable {db : Database} {sm : SourceManager} {Body : Stmt}

theorem outerEhcOf_stmt {currStmt : Stmt} {outerEhc : OuterEHC}
    (taken : outerEhcOf db Body currStmt = some outerEhc) : outerEhc.stmt = currStmt := by
  simp only [outerEhcOf] at taken
  split at taken
  · exact absurd taken (by simp)
  · split at taken
    · split at taken
      · exact absurd taken (by simp)
      · cases taken
        rfl
    · split at taken
      · exact absurd taken (by simp)
      · split at taken
        · cases taken
          rfl
        · exact absurd taken (by simp)

/-- The functions whose arguments or name keep a listed call from becoming an
outer EHC. -/
def selectiveFncs : List String :=
  ["pinctrl_select_state", "msm_camera_config_vreg", "msm_camera_enable_vreg",
    "regulator_set_voltage", "platform_set_drvdata"]

/-- An unlock call, and a listed call to a function that is not selective, is
taken wherever it stands outside macros. -/
theorem outerEhcOf_isSome {currStmt : Stmt} {fncname : String}
    (callee : currStmt.directCallee = some fncname)
    (undo : fncname ∈ unlockFncs ∨ (fncname ∈ db.ehcFncs ∧ fncname ∉ selectiveFncs))
    (outside : isInMacro currStmt Body = false) :
    ∃ outerEhc, outerEhcOf db Body currStmt = some outerEhc := by
  by_cases unlock : fncname ∈ unlockFncs
  · exact ⟨{ stmt := currStmt }, by simp [outerEhcOf, callee, unlock, outside]⟩
  · obtain ⟨listed, plain⟩ := undo.resolve_left unlock
    have found : (findFnc db.ehcFncs fncname).isEmpty = false := by
      rw [← Bool.not_eq_true, findFnc_isEmpty]
      exact not_not_intro listed
    simp only [selectiveFncs, List.mem_cons, List.not_mem_nil, or_false, not_or] at plain
    obtain ⟨notPinctrl, notConfig, notEnable, notRegulator, notDrvdata⟩ := plain
    simp [outerEhcOf, callee, unlock, found, outside, selectsParam, notPinctrl, notConfig,
      notEnable, notRegulator, notDrvdata]

/-- The calls that become outer EHCs, in visiting order. -/
def outerCalls (db : Database) (Body : Stmt) : List Stmt :=
  Body.descendants.filter fun currStmt => (outerEhcOf db Body currStmt).isSome

theorem outerEhcsVisit_map_stmt : (outerEhcsVisit db Body).map OuterEHC.stmt = outerCalls db Body := by
  simp only [outerEhcsVisit, outerCalls]
  generalize Body.descendants = stmts
  induction stmts with
  | nil => rfl
  | cons currStmt rest ih =>
      cases taken : outerEhcOf db Body currStmt with
      | none => simp [taken, ih]
      | some outerEhc => simp [taken, ih, outerEhcOf_stmt taken]

/-! ## Duplicates -/

theorem noteInnerDuplicate_stmt (ehcs : List EHC) (outer1 : OuterEHC) :
    (noteInnerDuplicate ehcs outer1).stmt = outer1.stmt := by
  simp only [noteInnerDuplicate]
  split <;> rfl

/-- The outer EHCs that survive are the first of each text. -/
theorem handleDuplicatesLoop_stmts (rounds : Nat) (ehcs : List EHC) (outerEhcs : List OuterEHC)
    (enough : outerEhcs.length ≤ rounds) :
    (handleDuplicatesLoop rounds ehcs outerEhcs).2.map OuterEHC.stmt =
      (firstByKey OuterEHC.text outerEhcs).map OuterEHC.stmt := by
  induction rounds, outerEhcs, enough using rounds_induction generalizing ehcs with
  | done rounds => cases rounds <;> rfl
  | round rounds outer1 rest fewer ih =>
      simp only [handleDuplicatesLoop, List.map_cons, firstByKey_cons, noteInnerDuplicate_stmt]
      rw [ih _ ((List.length_filter_le _ _).trans fewer)]

/-- A new statement is left to an outer EHC when it was before or has the text of
one. -/
def leaveToOuter (texts : List String) (newstmt : EHCNewStmt) : EHCNewStmt :=
  { newstmt with isOuter := newstmt.isOuter || texts.contains newstmt.text }

/-- The same for the new statements of an EHC. -/
def EHC.leaveToOuter (texts : List String) (ehc : EHC) : EHC :=
  { ehc with ehcNewStmts := ehc.ehcNewStmts.map (Pass2.leaveToOuter texts) }

theorem EHC.leaveToOuter_nil : EHC.leaveToOuter [] = id := by
  have same : Pass2.leaveToOuter [] = id := by
    funext newstmt
    simp [Pass2.leaveToOuter]
  funext ehc
  simp [EHC.leaveToOuter, same]

theorem handleDuplicatesLoop_ehcs (rounds : Nat) (ehcs : List EHC) (outerEhcs : List OuterEHC)
    (enough : outerEhcs.length ≤ rounds) :
    (handleDuplicatesLoop rounds ehcs outerEhcs).1 =
      ehcs.map (EHC.leaveToOuter (outerEhcs.map OuterEHC.text)) := by
  induction rounds, outerEhcs, enough using rounds_induction generalizing ehcs with
  | done rounds => cases rounds <;> simp [handleDuplicatesLoop, EHC.leaveToOuter_nil]
  | round rounds outer1 rest fewer ih =>
      simp only [handleDuplicatesLoop]
      rw [ih _ ((List.length_filter_le _ _).trans fewer), markOuter, List.map_map]
      apply List.map_congr_left
      intro ehc _
      simp only [Function.comp, EHC.leaveToOuter, List.map_map]
      congr 1
      apply List.map_congr_left
      intro newstmt _
      change Pass2.leaveToOuter _
        (if newstmt.text = outer1.text then { newstmt with isOuter := true } else newstmt) = _
      by_cases own : newstmt.text = outer1.text
      · rw [if_pos own]
        simp [Pass2.leaveToOuter, own]
      · have others : newstmt.text ∈ (rest.filter fun outer2 =>
            outer2.text ≠ outer1.text).map OuterEHC.text ↔
            newstmt.text ∈ rest.map OuterEHC.text := by
          rw [List.mem_map, List.mem_map]
          exact hasKey_filter_of fun outer2 sameText => by simpa [sameText] using own
        rw [if_neg own]
        simp only [Pass2.leaveToOuter, List.map_cons, List.contains_eq_mem,
          List.mem_cons, own, false_or, others]

/-- The text of a statement. -/
def stmtText (stmt : Stmt) : String := stmt.info.text

theorem outerPairDatabase_stmt (outerEhc : OuterEHC) :
    (outerPairDatabase db sm Body outerEhc).stmt = outerEhc.stmt := by
  have kept : ∀ scored : OuterEHC, (findMostPossibleDatabasePair scored).stmt = scored.stmt := by
    intro scored
    simp only [findMostPossibleDatabasePair]
    split <;> rfl
  simp only [outerPairDatabase]
  split <;> simp [addAllDuplicateDatabasePairs_eq, kept, scoreUniquePossibleDatabasePairs,
    makePossibleDatabasePairsUnique, findAllPossibleDatabasePairs_eq]

theorem findOuterEhcPairs_stmt (outer1 : OuterEHC) :
    (findOuterEhcPairs db sm Body outer1).stmt = outer1.stmt := by
  simp only [findOuterEhcPairs]
  split
  · exact outerPairDatabase_stmt outer1
  · rfl

/-- The outer EHCs of a function are the first calls of each text that is
taken. -/
theorem findOuterEhcs_stmts (f : Function) :
    (findOuterEhcs db sm f).outerEHCs.map OuterEHC.stmt =
      firstByKey stmtText (outerCalls db f.body) := by
  let found := outerEhcsVisit db f.body
  let kept := handleDuplicatesLoop found.length f.EHCs found
  have pairsKeep : (kept.2.map (findOuterEhcPairs db sm f.body)).map OuterEHC.stmt =
      kept.2.map OuterEHC.stmt := by
    rw [List.map_map]
    exact List.map_congr_left fun outer1 _ => findOuterEhcPairs_stmt outer1
  change (kept.2.map (findOuterEhcPairs db sm f.body)).map OuterEHC.stmt = _
  rw [pairsKeep, handleDuplicatesLoop_stmts _ _ _ le_rfl, ← outerEhcsVisit_map_stmt,
    firstByKey_map]
  rfl

/-- Its new statements are left to the outer EHCs by their text. -/
theorem findOuterEhcs_EHCs (f : Function) :
    (findOuterEhcs db sm f).EHCs =
      f.EHCs.map (EHC.leaveToOuter ((outerCalls db f.body).map stmtText)) := by
  have texts : (outerEhcsVisit db f.body).map OuterEHC.text =
      (outerCalls db f.body).map stmtText := by
    rw [← outerEhcsVisit_map_stmt, List.map_map]
    rfl
  rw [findOuterEhcs, findOuterEhcsPairs, handleOuterEhcsDuplicates, ← texts]
  exact handleDuplicatesLoop_ehcs _ _ _ le_rfl

end Hecaton.Pass2
