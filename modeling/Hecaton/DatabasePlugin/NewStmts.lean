import Hecaton.Library.KeepBehind
import Hecaton.Pass2.NewStmts

/-!
# The new statements of the database plugin

The plugin that collects the function pairs has a `find_ehc_new_stmts` of its own.  It
compares two streams into which nothing has been printed.
-/

namespace Hecaton.DatabasePlugin

open Hecaton.Clang Hecaton.Library

/-- `EHC_type`. -/
inductive EHCType
  | goto | return_ | cond
  deriving DecidableEq

/-- `EHC_head`. -/
structure EHCHead where
  type : EHCType
  headStmt : Stmt

/-- `EHC_new_stmt`. -/
structure EHCNewStmt where
  stmt : Stmt
  pair : Stmt := .null
  pairmaskId : BitVec 64 := 0
  isOuter : Int := 0
  duplicates : List Stmt := []

/-- `EHC`. -/
structure EHC where
  head : EHCHead
  ehcStmts : List Stmt := []
  ehcNewStmts : List EHCNewStmt := []
  returnVal : Int := 0

/-- `Function`. -/
structure Function where
  body : Stmt
  EHCs : List EHC := []
  typeStr : String
  name : String

/-! ## The search -/

/-- The text of a fresh `raw_string_ostream`: neither statement is printed to its own. -/
def streamString (_stmt : Stmt) : String := ""

/-- The loop over the statements of an earlier EHC: whether it finds the text again. -/
def EHC.repeats (ehc2 : EHC) (currStmt : Stmt) : Bool :=
  ehc2.ehcStmts.any fun currStmt2 =>
    !currStmt2.isNull && streamString currStmt2 == streamString currStmt

/-- `is_new_statement` after the loops over the EHCs before its own. -/
def isNewStatement (earlier : List EHC) (currStmt : Stmt) : Bool :=
  !earlier.any fun ehc2 => ehc2.repeats currStmt

/-- The loop over the statements of one EHC. -/
def collectNewStmts (earlier : List EHC) : List Stmt → List EHCNewStmt
  | [] => []
  | currStmt :: rest =>
      if currStmt.isNull then collectNewStmts earlier rest
      else if isNewStatement earlier currStmt then
        { stmt := currStmt } :: collectNewStmts earlier rest
      else collectNewStmts earlier rest

/-- The loop over the EHCs, with those it has passed. -/
def findEhcNewStmtsLoop (earlier : List EHC) : List EHC → List EHC
  | [] => []
  | ehc :: rest =>
      { ehc with ehcNewStmts := ehc.ehcNewStmts ++ collectNewStmts earlier ehc.ehcStmts } ::
        findEhcNewStmtsLoop (earlier ++ [ehc]) rest

/-- `find_ehc_new_stmts`. -/
def findEhcNewStmts (f : Function) : Function :=
  { f with EHCs := findEhcNewStmtsLoop [] f.EHCs }

/-! ## What the two searches select -/

/-- The statements of the EHCs. -/
def Function.stmtLists (f : Function) : List (List Stmt) := f.EHCs.map EHC.ehcStmts

/-- The new statements, EHC by EHC. -/
def Function.newStmtLists (f : Function) : List (List Stmt) :=
  f.EHCs.map fun ehc => ehc.ehcNewStmts.map EHCNewStmt.stmt

/-- The statements of the EHCs that the second pass has found. -/
def pass2StmtLists (f : Pass2.Function) : List (List Stmt) := f.EHCs.map Pass2.EHC.ehcStmts

/-- The new statements of the second pass, EHC by EHC. -/
def pass2NewStmtLists (f : Pass2.Function) : List (List Stmt) :=
  f.EHCs.map fun ehc => ehc.ehcNewStmts.map Pass2.EHCNewStmt.stmt

/-- Some statement of the list prints as the text. -/
def prints (stmts : List Stmt) (printed : String) : Bool :=
  stmts.any fun stmt => !stmt.isNull && stmt.info.printed == printed

/-- A statement whose printed text occurs in no earlier EHC. -/
def isFirstPrinted (earlier : List (List Stmt)) (stmt : Stmt) : Bool :=
  !stmt.isNull && !earlier.any fun stmts => prints stmts stmt.info.printed

/-- EHC by EHC, the statements whose printed text occurs in no earlier EHC. -/
def firstPrinted (stmtLists : List (List Stmt)) : List (List Stmt) :=
  keepBehind isFirstPrinted [] stmtLists

/-- A statement behind EHCs without statements. -/
def isBehindEmpty (earlier : List (List Stmt)) (stmt : Stmt) : Bool :=
  !stmt.isNull && !earlier.any fun stmts => stmts.any fun other => !other.isNull

theorem collectNewStmts_stmts (earlier : List EHC) (stmts : List Stmt) :
    (collectNewStmts earlier stmts).map EHCNewStmt.stmt =
      stmts.filter (isBehindEmpty (earlier.map EHC.ehcStmts)) := by
  have sameTest : ∀ stmt, isBehindEmpty (earlier.map EHC.ehcStmts) stmt =
      (!stmt.isNull && isNewStatement earlier stmt) := by
    intro stmt
    simp [isBehindEmpty, isNewStatement, EHC.repeats, streamString, Function.comp_def]
  induction stmts with
  | nil => rfl
  | cons currStmt rest ih =>
      rw [collectNewStmts, List.filter_cons, sameTest]
      by_cases null : currStmt.isNull = true
      · simp [null, ih]
      · by_cases new : isNewStatement earlier currStmt = true
        · simp [null, new, ih]
        · simp [null, new, ih]

/-- The plugin takes a statement when no earlier EHC has one. -/
theorem newStmtLists_findEhcNewStmtsLoop (earlier ehcs : List EHC)
    (fresh : ∀ ehc ∈ ehcs, ehc.ehcNewStmts = []) :
    (findEhcNewStmtsLoop earlier ehcs).map (fun ehc => ehc.ehcNewStmts.map EHCNewStmt.stmt) =
      keepBehind isBehindEmpty (earlier.map EHC.ehcStmts) (ehcs.map EHC.ehcStmts) := by
  induction ehcs generalizing earlier with
  | nil => rfl
  | cons ehc rest ih =>
      have freshRest : ∀ other ∈ rest, other.ehcNewStmts = [] := fun other otherMem =>
        fresh other (List.mem_cons_of_mem ehc otherMem)
      rw [findEhcNewStmtsLoop, List.map_cons, List.map_cons, keepBehind_cons,
        ih (earlier ++ [ehc]) freshRest, List.map_append, fresh ehc List.mem_cons_self,
        List.map_append, List.map_nil, List.nil_append, collectNewStmts_stmts]
      rfl

/-- Without DENIED heads and macros, the second pass takes a statement when no earlier
EHC prints its text. -/
theorem pass2NewStmtLists_findEhcNewStmtsLoop (Body : Stmt) (earlier ehcs : List Pass2.EHC)
    (fresh : Pass2.Fresh ehcs) (noDenied : ∀ ehc ∈ ehcs, ehc.head.type ≠ .denied)
    (noMacro : ∀ ehc ∈ ehcs, ∀ stmt ∈ ehc.ehcStmts, Pass2.isInMacro stmt Body = false) :
    (Pass2.findEhcNewStmtsLoop Body earlier ehcs).map
        (fun ehc => ehc.ehcNewStmts.map Pass2.EHCNewStmt.stmt) =
      keepBehind isFirstPrinted (earlier.map Pass2.EHC.ehcStmts)
        (ehcs.map Pass2.EHC.ehcStmts) := by
  induction ehcs generalizing earlier with
  | nil => rfl
  | cons ehc rest ih =>
      have restStmts := ih (earlier ++ [ehc])
        (fun other otherMem => fresh other (List.mem_cons_of_mem ehc otherMem))
        (fun other otherMem => noDenied other (List.mem_cons_of_mem ehc otherMem))
        (fun other otherMem => noMacro other (List.mem_cons_of_mem ehc otherMem))
      have taken : ehc.ehcStmts.filter (Pass2.isTaken Body earlier) =
          ehc.ehcStmts.filter (isFirstPrinted (earlier.map Pass2.EHC.ehcStmts)) := by
        apply List.filter_congr
        intro stmt stmtMem
        have outside := noMacro ehc List.mem_cons_self stmt stmtMem
        simp [Pass2.isTaken, Pass2.isNewStatement, Pass2.EHC.lists, isFirstPrinted, prints, outside,
          Function.comp_def]
      rw [Pass2.findEhcNewStmtsLoop, List.map_cons, List.map_cons, keepBehind_cons, restStmts,
        Pass2.findNewStmtsOf_newStmts (fresh ehc List.mem_cons_self), Pass2.takenStmts,
        if_neg (noDenied ehc List.mem_cons_self), taken, List.map_map, List.map_append]
      congr 1
      exact List.map_id _

/-! ## Agreement -/

/-- Behind an EHC with a statement, every statement prints as one of an earlier EHC. -/
def RepeatsEarlier (stmtLists : List (List Stmt)) : Prop :=
  ∀ before stmts after, stmtLists = before ++ stmts :: after →
    (∃ earlier ∈ before, ∃ other ∈ earlier, other.isNull = false) →
      ∀ stmt ∈ stmts, stmt.isNull = false →
        ∃ earlier ∈ before, prints earlier stmt.info.printed = true

/-- At one place the two tests agree when the text has occurred or no EHC has a statement. -/
theorem isBehindEmpty_eq_isFirstPrinted_iff {earlier : List (List Stmt)} {stmt : Stmt} :
    isBehindEmpty earlier stmt = isFirstPrinted earlier stmt ↔
      ((∃ stmts ∈ earlier, ∃ other ∈ stmts, other.isNull = false) → stmt.isNull = false →
        ∃ stmts ∈ earlier, prints stmts stmt.info.printed = true) := by
  have printsOne : ∀ stmts, prints stmts stmt.info.printed = true →
      ∃ other ∈ stmts, other.isNull = false := by
    intro stmts isPrinted
    obtain ⟨other, otherMem, isOther⟩ := List.any_eq_true.mp isPrinted
    rw [Bool.and_eq_true, Bool.not_eq_true'] at isOther
    exact ⟨other, otherMem, isOther.1⟩
  cases null : stmt.isNull with
  | true => simp [isBehindEmpty, isFirstPrinted, null]
  | false =>
      by_cases hasStmt : ∃ stmts ∈ earlier, ∃ other ∈ stmts, other.isNull = false
      · have notEmpty : isBehindEmpty earlier stmt = false := by
          simpa [isBehindEmpty, null] using hasStmt
        rw [notEmpty]
        simp [isFirstPrinted, null, hasStmt]
      · have isEmpty : isBehindEmpty earlier stmt = true := by
          simpa [isBehindEmpty, null] using hasStmt
        have isFirst : isFirstPrinted earlier stmt = true := by
          rw [isFirstPrinted, null, Bool.not_false, Bool.true_and, Bool.not_eq_true',
            List.any_eq_false]
          intro stmts stmtsMem isPrinted
          exact hasStmt ⟨stmts, stmtsMem, printsOne stmts isPrinted⟩
        rw [isEmpty, isFirst]
        simp [hasStmt]

theorem keepBehind_agree_iff (stmtLists : List (List Stmt)) :
    keepBehind isBehindEmpty [] stmtLists = firstPrinted stmtLists ↔ RepeatsEarlier stmtLists := by
  rw [firstPrinted, keepBehind_eq_iff]
  constructor
  · intro agree before stmts after split hasStmt stmt stmtMem nonnull
    have atStmt := agree before stmts after split stmt stmtMem
    rw [isBehindEmpty_eq_isFirstPrinted_iff] at atStmt
    exact atStmt hasStmt nonnull
  · intro repeats before stmts after split stmt stmtMem
    rw [List.nil_append, isBehindEmpty_eq_isFirstPrinted_iff]
    intro hasStmt nonnull
    exact repeats before stmts after split hasStmt stmt stmtMem nonnull

/-- On the same EHCs, without DENIED heads and macros, the two searches select the same
statements exactly when only the first EHC with statements has new texts. -/
theorem findEhcNewStmts_agree_iff (f : Pass2.Function) (g : Function)
    (sameStmts : g.stmtLists = pass2StmtLists f) (fresh : Pass2.Fresh f.EHCs)
    (freshDatabase : ∀ ehc ∈ g.EHCs, ehc.ehcNewStmts = [])
    (noDenied : ∀ ehc ∈ f.EHCs, ehc.head.type ≠ .denied)
    (noMacro : ∀ ehc ∈ f.EHCs, ∀ stmt ∈ ehc.ehcStmts, Pass2.isInMacro stmt f.body = false) :
    ((findEhcNewStmts g).newStmtLists = pass2NewStmtLists (Pass2.findEhcNewStmts f) ∧
        pass2NewStmtLists (Pass2.findEhcNewStmts f) = firstPrinted (pass2StmtLists f)) ↔
      RepeatsEarlier (pass2StmtLists f) := by
  have databaseStmts : (findEhcNewStmts g).newStmtLists =
      keepBehind isBehindEmpty [] (pass2StmtLists f) := by
    rw [← sameStmts]
    exact newStmtLists_findEhcNewStmtsLoop [] g.EHCs freshDatabase
  have pass2Stmts : pass2NewStmtLists (Pass2.findEhcNewStmts f) =
      firstPrinted (pass2StmtLists f) :=
    pass2NewStmtLists_findEhcNewStmtsLoop f.body [] f.EHCs fresh noDenied noMacro
  rw [databaseStmts, pass2Stmts, and_iff_left rfl]
  exact keepBehind_agree_iff (pass2StmtLists f)

/-- The EHCs of two statements, as the plugin finds them. -/
def twoEhcs (first second : Stmt) : Function :=
  { body := Build.block 20 0 1 100 7
      [Build.block 21 18 2 40 3 [first], Build.block 22 58 5 80 6 [second]]
    EHCs := [{ head := ⟨.cond, first⟩, ehcStmts := [first] },
      { head := ⟨.cond, second⟩, ehcStmts := [second] }]
    typeStr := "int"
    name := "probe" }

/-- The same EHCs, as the second pass finds them. -/
def twoPass2Ehcs (first second : Stmt) : Pass2.Function :=
  { body := (twoEhcs first second).body
    EHCs := [{ head := ⟨.cond, first⟩, ehcStmts := [first] },
      { head := ⟨.cond, second⟩, ehcStmts := [second] }]
    typeStr := "int"
    name := "probe" }

theorem fresh_twoPass2Ehcs (first second : Stmt) : Pass2.Fresh (twoPass2Ehcs first second).EHCs := by
  simp [Pass2.Fresh, twoPass2Ehcs]

theorem fresh_twoEhcs (first second : Stmt) :
    ∀ ehc ∈ (twoEhcs first second).EHCs, ehc.ehcNewStmts = [] := by
  simp [twoEhcs]

theorem noDenied_twoPass2Ehcs (first second : Stmt) :
    ∀ ehc ∈ (twoPass2Ehcs first second).EHCs, ehc.head.type ≠ .denied := by
  simp [twoPass2Ehcs]

theorem noMacro_twoPass2Ehcs {first second : Stmt}
    (spelledFirst : first.info.beginLoc.isMacroID = false)
    (spelledSecond : second.info.beginLoc.isMacroID = false) :
    ∀ ehc ∈ (twoPass2Ehcs first second).EHCs, ∀ stmt ∈ ehc.ehcStmts,
      Pass2.isInMacro stmt (twoPass2Ehcs first second).body = false := by
  simp [twoPass2Ehcs, Pass2.isInMacro_of_not_macroID _ spelledFirst,
    Pass2.isInMacro_of_not_macroID _ spelledSecond]

/-- Two EHCs with the same text: both searches take it from the first. -/
theorem findEhcNewStmts_agree_repeated :
    (findEhcNewStmts (twoEhcs (Build.callOf 1 20 2 "release" "a")
        (Build.callOf 11 60 5 "release" "a"))).newStmtLists =
      pass2NewStmtLists (Pass2.findEhcNewStmts (twoPass2Ehcs (Build.callOf 1 20 2 "release" "a")
        (Build.callOf 11 60 5 "release" "a"))) := by
  have agree := findEhcNewStmts_agree_iff
    (twoPass2Ehcs (Build.callOf 1 20 2 "release" "a") (Build.callOf 11 60 5 "release" "a"))
    (twoEhcs (Build.callOf 1 20 2 "release" "a") (Build.callOf 11 60 5 "release" "a")) rfl
    (fresh_twoPass2Ehcs _ _) (fresh_twoEhcs _ _) (noDenied_twoPass2Ehcs _ _)
    (noMacro_twoPass2Ehcs rfl rfl)
  apply (agree.mpr _).1
  intro before stmts after split hasStmt stmt stmtMem _
  match before with
  | [] =>
      obtain ⟨earlier, earlierMem, _⟩ := hasStmt
      exact absurd earlierMem List.not_mem_nil
  | [first] =>
      cases split
      rw [List.mem_singleton.mp stmtMem]
      exact ⟨_, List.mem_singleton_self _, by decide⟩
  | first :: second :: rest => simp [pass2StmtLists, twoPass2Ehcs] at split

/-- Two EHCs with different texts: the plugin loses the second. -/
theorem findEhcNewStmts_loses_second :
    ¬ ∀ (f : Pass2.Function) (g : Function), g.stmtLists = pass2StmtLists f →
      Pass2.Fresh f.EHCs → (∀ ehc ∈ g.EHCs, ehc.ehcNewStmts = []) →
      (∀ ehc ∈ f.EHCs, ehc.head.type ≠ .denied) →
      (∀ ehc ∈ f.EHCs, ∀ stmt ∈ ehc.ehcStmts, Pass2.isInMacro stmt f.body = false) →
      (findEhcNewStmts g).newStmtLists = pass2NewStmtLists (Pass2.findEhcNewStmts f) ∧
        pass2NewStmtLists (Pass2.findEhcNewStmts f) = firstPrinted (pass2StmtLists f) := by
  intro agree
  have sameStmts := (agree
    (twoPass2Ehcs (Build.callOf 1 20 2 "release" "a") (Build.callOf 11 60 5 "free" "b"))
    (twoEhcs (Build.callOf 1 20 2 "release" "a") (Build.callOf 11 60 5 "free" "b")) rfl
    (fresh_twoPass2Ehcs _ _) (fresh_twoEhcs _ _) (noDenied_twoPass2Ehcs _ _)
    (noMacro_twoPass2Ehcs rfl rfl)).1
  have lengths := congrArg (fun lists => lists.map List.length) sameStmts
  revert lengths
  decide

end Hecaton.DatabasePlugin
