import Hecaton.Clang.Visit
import Hecaton.Library.FlaggedCounter
import Hecaton.Library.Groups
import Hecaton.Pass2.Cleanup
import Hecaton.Pass2.DatabaseHeader

/-!
# The confidence score

Four numbers are subtracted from 100: for calls through function pointers that look like
state changes, for state-modifying calls without a known undo call, for statements of verified
blocks and for a long cleanup code.  Three of them are counted with one flag between them.
-/

namespace Hecaton.Pass2

open Hecaton.Clang Hecaton.Library

/-- `overall_score`. -/
def ConfidenceScore.overallScore (score : ConfidenceScore) : Int :=
  100 + score.scoreNumberEhc + score.scoreMissingEhc + score.scoreFunctionPointer +
    score.scoreMaybeBlocks

/-! ## Calls through function pointers -/

/-- The keywords of `check_for_sms_keyword`. -/
def smsKeywords : List String :=
  ["get", "create", "init", "register", "lock", "up", "enable", "add", "inc", "alloc", "start",
    "resume", "connect", "map", "enqueue", "prepare", "attach", "beign"]

/-- `check_for_sms_keyword`. -/
def checkForSmsKeyword (fncName : String) : Bool :=
  smsKeywords.any fun keyword => contains fncName keyword

/-- The test of `recursiveVisit_function_pointer`: a call whose text up to the first
parenthesis goes through a pointer and has a keyword. -/
def isSmsPointerCall (currStmt : Stmt) : Bool :=
  currStmt.isCall &&
    match findFirst currStmt.info.text.toList '(' with
    | some pos =>
        let fncName := String.ofList (currStmt.info.text.toList.take pos)
        contains fncName "->" && checkForSmsKeyword fncName
    | none => false

/-- `SCORE_FNC_POINTER`. -/
def scoreFncPointerWeight : Int := 30

/-- The score after one such call. -/
def scoreFncPointer (score : ConfidenceScore) : ConfidenceScore :=
  if score.initFlag = 1392 then
    { score with scoreFunctionPointer := score.scoreFunctionPointer - scoreFncPointerWeight }
  else { score with scoreFunctionPointer := -scoreFncPointerWeight, initFlag := 1392 }

/-- `recursiveVisit_function_pointer`. -/
def recursiveVisitFunctionPointer (stmt : Stmt) (score : ConfidenceScore) : ConfidenceScore :=
  stmt.visitBelow
    (fun score currStmt => if isSmsPointerCall currStmt then scoreFncPointer score else score) score

/-! ## State-modifying statements -/

/-- `OuterSMS`: a call that some function of the database undoes. -/
structure OuterSMS where
  stmt : Stmt
  fncName : String
  databaseIndexes : List Nat

/-- What `outer_smss_recurcive_visit` makes of one statement. -/
def outerSmsOf (db : Database) (currStmt : Stmt) : Option OuterSMS :=
  match currStmt.directCallee with
  | none => none
  | some fncname =>
      let founds := findFnc db.pairFncs fncname
      if founds.isEmpty then none
      else some { stmt := currStmt, fncName := fncname, databaseIndexes := founds }

/-- It is pushed unless one of its name is there already. -/
def pushUnique (db : Database) (outerSMSs : List OuterSMS) (currStmt : Stmt) : List OuterSMS :=
  match outerSmsOf db currStmt with
  | none => outerSMSs
  | some smsnew => pushNew OuterSMS.fncName outerSMSs smsnew

/-- `outer_smss_recurcive_visit`. -/
def outerSmssVisit (db : Database) (stmt : Stmt) (outerSMSs : List OuterSMS) : List OuterSMS :=
  stmt.visitBelow (pushUnique db) outerSMSs

/-- `find_outer_smss`. -/
def findOuterSmss (db : Database) (Body : Stmt) : List OuterSMS := outerSmssVisit db Body []

/-- The nested loops of `score_missing_statements`: some outer EHC has an index of the
statement. -/
def pairFound (outerEHCs : List OuterEHC) (outerSms : OuterSMS) : Bool :=
  outerEHCs.any fun outerEhc =>
    outerSms.databaseIndexes.any fun smsIndex =>
      outerEhc.databaseIndexes.any fun ehcIndex => ehcIndex == smsIndex

/-- `SCORE_MISSING_EHC`. -/
def scoreMissingEhcWeight : Int := 10

/-- The score after a statement without a pair. -/
def scoreMissing (score : ConfidenceScore) : ConfidenceScore :=
  if score.initFlag ≠ 1399 then
    { score with scoreMissingEhc := -scoreMissingEhcWeight, initFlag := 1399 }
  else { score with scoreMissingEhc := score.scoreMissingEhc - scoreMissingEhcWeight }

/-- `score_missing_statements`. -/
def scoreMissingStatements (outerSMSs : List OuterSMS) (f : Function) : Function :=
  { f with
    confidenceScore := outerSMSs.foldl
      (fun score outerSms => if pairFound f.outerEHCs outerSms then score else scoreMissing score)
      f.confidenceScore }

/-! ## The steps with their scores -/

/-- The steps of `VisitFunctionDecl` that decide about statements and scores.  A closing
function is not analysed. -/
def analyseWithScore (db : Database) (sm : SourceManager) (gotostr : Stmt → String)
    (FuncBody : Stmt) (TypeStr FuncName : String) : Option Function :=
  let myfunction : Function :=
    { body := FuncBody
      typeStr := TypeStr
      name := FuncName
      isClosing := containsAny closingIndicator FuncName }
  if myfunction.isClosing then some myfunction
  else
    let myfunction :=
      { myfunction with
        confidenceScore := recursiveVisitFunctionPointer FuncBody myfunction.confidenceScore }
    (findBlocks db gotostr myfunction).map fun myfunction =>
      let myfunction := findOuterEhcs db sm (findPairs (findEhcNewStmts myfunction))
      assignPairmaskId (scoreMissingStatements (findOuterSmss db FuncBody) myfunction)

/-! ## The three counters -/

theorem countsDown_scoreFncPointer : CountsDown scoreFncPointer
    ConfidenceScore.scoreFunctionPointer ConfidenceScore.initFlag 1392 30 where
  again := by
    intro score own
    simp [scoreFncPointer, own, scoreFncPointerWeight]
  anew := by
    intro score other
    simp [scoreFncPointer, other, scoreFncPointerWeight]
  marks := by
    intro score
    by_cases own : score.initFlag = 1392 <;> simp [scoreFncPointer, own]

theorem countsDown_scoreMissing : CountsDown scoreMissing
    ConfidenceScore.scoreMissingEhc ConfidenceScore.initFlag 1399 10 where
  again := by
    intro score own
    simp [scoreMissing, own, scoreMissingEhcWeight]
  anew := by
    intro score other
    simp [scoreMissing, other, scoreMissingEhcWeight]
  marks := by
    intro score
    by_cases own : score.initFlag = 1399 <;> simp [scoreMissing, own]

theorem countsDown_scoreVerified : CountsDown scoreVerified
    ConfidenceScore.scoreMaybeBlocks ConfidenceScore.initFlag 1371 8 where
  again := by
    intro score own
    simp [scoreVerified, own, scoreMaybeBlocksWeight]
  anew := by
    intro score other
    simp [scoreVerified, other, scoreMaybeBlocksWeight]
  marks := by
    intro score
    by_cases own : score.initFlag = 1371 <;> simp [scoreVerified, own]

/-- The other numbers of a score. -/
theorem scoreMissing_others (score : ConfidenceScore) :
    (scoreMissing score).scoreFunctionPointer = score.scoreFunctionPointer ∧
      (scoreMissing score).scoreNumberEhc = score.scoreNumberEhc ∧
      (scoreMissing score).scoreMaybeBlocks = score.scoreMaybeBlocks := by
  by_cases own : score.initFlag = 1399 <;> simp [scoreMissing, own]

theorem scoreFncPointer_others (score : ConfidenceScore) :
    (scoreFncPointer score).scoreMissingEhc = score.scoreMissingEhc ∧
      (scoreFncPointer score).scoreNumberEhc = score.scoreNumberEhc ∧
      (scoreFncPointer score).scoreMaybeBlocks = score.scoreMaybeBlocks := by
  by_cases own : score.initFlag = 1392 <;> simp [scoreFncPointer, own]

theorem scoreVerified_others (score : ConfidenceScore) :
    (scoreVerified score).scoreMissingEhc = score.scoreMissingEhc ∧
      (scoreVerified score).scoreNumberEhc = score.scoreNumberEhc ∧
      (scoreVerified score).scoreFunctionPointer = score.scoreFunctionPointer := by
  by_cases own : score.initFlag = 1371 <;> simp [scoreVerified, own]

/-! ## How many steps each loop takes -/

/-- The visit takes a step for every such call below the node. -/
theorem recursiveVisitFunctionPointer_eq (stmt : Stmt) (score : ConfidenceScore) :
    recursiveVisitFunctionPointer stmt score =
      scoreFncPointer^[(stmt.descendants.filter isSmsPointerCall).length] score := by
  rw [recursiveVisitFunctionPointer, Stmt.visitBelow_eq_foldl, foldl_eq_iterate]

/-- The new statements of verified blocks that are not left to the outer EHCs. -/
def isVerifiedInner (newstmt : EHCNewStmt) : Bool :=
  !newstmt.isOuter && newstmt.type == .verified

theorem cleanupOfNewStmts_score (rewritten : Stmt → String) (score : ConfidenceScore)
    (newStmts : List EHCNewStmt) :
    (cleanupOfNewStmts rewritten score newStmts).2 =
      scoreVerified^[(newStmts.filter isVerifiedInner).length] score := by
  induction newStmts generalizing score with
  | nil => rfl
  | cons newstmt rest ih =>
      rw [cleanupOfNewStmts]
      cases outer : newstmt.isOuter with
      | true => simp [isVerifiedInner, outer, ih]
      | false =>
          by_cases verified : newstmt.type = .verified
          · simp [isVerifiedInner, outer, verified, ih]
          · simp [isVerifiedInner, outer, verified, ih]

theorem cleanupOfEhcs_score (rewritten : Stmt → String) (outstr : String)
    (score : ConfidenceScore) (ehcs : List EHC) :
    (cleanupOfEhcs rewritten outstr score ehcs).2 =
      scoreVerified^[((ehcs.flatMap EHC.ehcNewStmts).filter isVerifiedInner).length] score := by
  induction ehcs generalizing outstr score with
  | nil => rfl
  | cons ehc rest ih =>
      rw [cleanupOfEhcs, ih, cleanupOfNewStmts_score, List.flatMap_cons, List.filter_append,
        List.length_append, Nat.add_comm, Function.iterate_add_apply]

/-- The statements that are found are the first ones of each name. -/
theorem findOuterSmss_eq (db : Database) (Body : Stmt) :
    findOuterSmss db Body =
      firstByKey OuterSMS.fncName (Body.descendants.filterMap (outerSmsOf db)) := by
  have asPushes : ∀ (stmts : List Stmt) (found : List OuterSMS),
      stmts.foldl (pushUnique db) found =
        (stmts.filterMap (outerSmsOf db)).foldl (pushNew OuterSMS.fncName) found := by
    intro stmts
    induction stmts with
    | nil => exact fun _ => rfl
    | cons currStmt rest ih =>
        intro found
        rw [List.foldl_cons, ih, pushUnique]
        cases isSms : outerSmsOf db currStmt with
        | none => simp [isSms]
        | some smsnew => simp [isSms]
  rw [findOuterSmss, outerSmssVisit, Stmt.visitBelow_eq_foldl, asPushes, foldl_pushNew_nil]

/-! ## The score of an analysed function -/

/-- The statements for which no outer EHC has an index. -/
def missingSmss (outerEHCs : List OuterEHC) (outerSMSs : List OuterSMS) : List OuterSMS :=
  outerSMSs.filter fun outerSms => !pairFound outerEHCs outerSms

theorem scoreMissingStatements_score (outerSMSs : List OuterSMS) (f : Function) :
    (scoreMissingStatements outerSMSs f).confidenceScore =
      scoreMissing^[(missingSmss f.outerEHCs outerSMSs).length] f.confidenceScore := by
  have sameStep : (fun score outerSms =>
      if pairFound f.outerEHCs outerSms then score else scoreMissing score) =
      fun score outerSms =>
        if !pairFound f.outerEHCs outerSms then scoreMissing score else score := by
    funext score outerSms
    cases pairFound f.outerEHCs outerSms <;> rfl
  rw [missingSmss, ← foldl_eq_iterate, ← sameStep, scoreMissingStatements]

variable {db : Database} {sm : SourceManager} {gotostr : Stmt → String}
  {FuncBody : Stmt} {TypeStr FuncName : String}

/-- What the analysis has found before it looks for outer EHCs: the score of the visit for
pointer calls is still as it was. -/
theorem analyseWithScore_eq_some {g : Function}
    (open_ : containsAny closingIndicator FuncName = false)
    (analysed : analyseWithScore db sm gotostr FuncBody TypeStr FuncName = some g) :
    ∃ found : Function, found.confidenceScore = recursiveVisitFunctionPointer FuncBody {} ∧
      found.body = FuncBody ∧ found.isClosing = false ∧
      g = assignPairmaskId
        (scoreMissingStatements (findOuterSmss db FuncBody) (findOuterEhcs db sm found)) := by
  simp only [analyseWithScore, open_, Bool.false_eq_true, if_false] at analysed
  obtain ⟨blocks, isBlocks, rfl⟩ := Option.map_eq_some_iff.mp analysed
  obtain ⟨body, isClosing, _⟩ := findBlocks_spec isBlocks
  have score : blocks.confidenceScore = recursiveVisitFunctionPointer FuncBody {} := by
    obtain ⟨ehcs, _, rfl⟩ := Option.map_eq_some_iff.mp isBlocks
    rfl
  exact ⟨findPairs (findEhcNewStmts blocks), score, body, isClosing, rfl⟩

/-- A function without its score. -/
def Function.withoutScore (f : Function) : Function := { f with confidenceScore := {} }

/-! None of the steps reads a score. -/

theorem findBlocks_withoutScore (f : Function) :
    findBlocks db gotostr f.withoutScore =
      (findBlocks db gotostr f).map Function.withoutScore := by
  rw [findBlocks, findBlocks, Option.map_map]
  rfl

theorem findOuterEhcs_withoutScore (f : Function) :
    findOuterEhcs db sm (findPairs (findEhcNewStmts f.withoutScore)) =
      (findOuterEhcs db sm (findPairs (findEhcNewStmts f))).withoutScore := rfl

theorem assignPairmaskId_withoutScore (f : Function) :
    (assignPairmaskId f.withoutScore).withoutScore = (assignPairmaskId f).withoutScore := rfl

theorem scoreMissingStatements_withoutScore (outerSMSs : List OuterSMS) (f : Function) :
    (scoreMissingStatements outerSMSs f).withoutScore = f.withoutScore := rfl

theorem collectUndos_withoutScore (f : Function) :
    (collectUndos db sm f.withoutScore).withoutScore = (collectUndos db sm f).withoutScore := by
  rw [collectUndos, collectUndos, findOuterEhcs_withoutScore, assignPairmaskId_withoutScore]

/-- The scores change nothing else: the analysis finds the same with and without them. -/
theorem analyseWithScore_withoutScore :
    (analyseWithScore db sm gotostr FuncBody TypeStr FuncName).map Function.withoutScore =
      (analyse db sm gotostr FuncBody TypeStr FuncName).map Function.withoutScore := by
  let undos (blocks : Function) : Function := (collectUndos db sm blocks).withoutScore
  have sameUndos : ∀ blocks : Function,
      (assignPairmaskId (scoreMissingStatements (findOuterSmss db FuncBody)
        (findOuterEhcs db sm (findPairs (findEhcNewStmts blocks))))).withoutScore =
      undos blocks.withoutScore := by
    intro blocks
    change _ = (collectUndos db sm blocks.withoutScore).withoutScore
    rw [collectUndos_withoutScore, collectUndos, ← assignPairmaskId_withoutScore,
      scoreMissingStatements_withoutScore, assignPairmaskId_withoutScore]
  have onBlocks : ∀ f : Function,
      (findBlocks db gotostr f).map (fun blocks => undos blocks.withoutScore) =
        (findBlocks db gotostr f.withoutScore).map undos := by
    intro f
    rw [findBlocks_withoutScore, Option.map_map]
    rfl
  rw [analyseWithScore, analyse]
  dsimp only
  split
  · rfl
  · rw [Option.map_map, Option.map_map]
    calc
      _ = (findBlocks db gotostr _).map (fun blocks => undos blocks.withoutScore) :=
          Option.map_congr fun blocks _ => sameUndos blocks
      _ = (findBlocks db gotostr _).map undos := by
          rw [onBlocks]
          rfl

/-- The numbers of the score before the identifiers are assigned. -/
theorem scoreMissing_after_pointers (F M : Nat) :
    let score := scoreMissing^[M] (scoreFncPointer^[F] {})
    score.scoreFunctionPointer = -(F * 30) ∧ score.scoreMissingEhc = -(M * 10) ∧
      score.scoreNumberEhc = 0 ∧ score.scoreMaybeBlocks = 0 ∧ score.initFlag ≠ 1371 := by
  intro score
  have flag : (scoreFncPointer^[F] {}).initFlag = 1392 ∨ (scoreFncPointer^[F] {}).initFlag = 0 :=
    countsDown_scoreFncPointer.flag_iterate F {}
  refine ⟨?_, ?_, ?_, ?_, ?_⟩
  · have kept : score.scoreFunctionPointer = (scoreFncPointer^[F] {}).scoreFunctionPointer :=
      iterate_unchanged (fun s => (scoreMissing_others s).1) M _
    rw [kept]
    exact countsDown_scoreFncPointer.iterate F (by simp) rfl
  · apply countsDown_scoreMissing.iterate M
    · rcases flag with isOwn | isZero
      · rw [isOwn]
        decide
      · rw [isZero]
        decide
    · exact iterate_unchanged (fun s => (scoreFncPointer_others s).1) F {}
  · have kept : score.scoreNumberEhc = (scoreFncPointer^[F] {}).scoreNumberEhc :=
      iterate_unchanged (fun s => (scoreMissing_others s).2.1) M _
    rw [kept]
    exact iterate_unchanged (fun s => (scoreFncPointer_others s).2.1) F {}
  · have kept : score.scoreMaybeBlocks = (scoreFncPointer^[F] {}).scoreMaybeBlocks :=
      iterate_unchanged (fun s => (scoreMissing_others s).2.2) M _
    rw [kept]
    exact iterate_unchanged (fun s => (scoreFncPointer_others s).2.2) F {}
  · rcases countsDown_scoreMissing.flag_iterate M (scoreFncPointer^[F] {}) with isOwn | isKept
    · have isFlag : score.initFlag = 1399 := isOwn
      rw [isFlag]
      decide
    · have isFlag : score.initFlag = (scoreFncPointer^[F] {}).initFlag := isKept
      rw [isFlag]
      rcases flag with isOwn | isZero
      · rw [isOwn]
        decide
      · rw [isZero]
        decide

/-- What the identifiers do to the score. -/
theorem assignPairmaskId_score {f : Function} (zero : f.confidenceScore.scoreNumberEhc = 0) :
    (assignPairmaskId f).confidenceScore =
      { f.confidenceScore with
        scoreNumberEhc := -(if entryCount f > 5 then 20 else 0) -
          (if entryCount f > 8 then 20 else 0) } := by
  have inner := (assignEhcs_spec f.EHCs 0).1
  simp only [IdCounter.after_zero, Nat.zero_add] at inner
  have outer := (assignOuterEhcs_spec f.outerEHCs f.innerStmts.length).1
  have index : (assignOuterEhcs (assignEhcs {} f.EHCs).1 f.outerEHCs).1.index = entryCount f := by
    rw [inner]
    exact congrArg IdCounter.index outer
  simp only [assignPairmaskId, index, scoreNumberEhcWeight]
  by_cases many : entryCount f > 8
  · have some_ : entryCount f > 5 := by omega
    simp [many, some_]
  · by_cases some_ : entryCount f > 5
    · simp [many, some_]
    · have unchanged : { f.confidenceScore with scoreNumberEhc := 0 } = f.confidenceScore := by
        rw [← zero]
      simp [many, some_, unchanged]

/-- Identifiers do not matter to the search for indices. -/
theorem pairFound_assignPairmaskId (f : Function) (outerSms : OuterSMS) :
    pairFound (assignPairmaskId f).outerEHCs outerSms = pairFound f.outerEHCs outerSms := by
  have byIndexes : ∀ outerEHCs : List OuterEHC, pairFound outerEHCs outerSms =
      (outerEHCs.map OuterEHC.withoutId).any fun outerEhc =>
        outerSms.databaseIndexes.any fun smsIndex =>
          outerEhc.databaseIndexes.any fun ehcIndex => ehcIndex == smsIndex := by
    intro outerEHCs
    rw [List.any_map]
    rfl
  rw [byIndexes, byIndexes, assignPairmaskId_outerEHCs]

/-- The score of an analysed function before its cleanup code is generated. -/
theorem analyseWithScore_score {g : Function}
    (open_ : containsAny closingIndicator FuncName = false)
    (analysed : analyseWithScore db sm gotostr FuncBody TypeStr FuncName = some g) :
    g.isClosing = false ∧
      g.confidenceScore.scoreFunctionPointer =
        -((FuncBody.descendants.filter isSmsPointerCall).length * 30) ∧
      g.confidenceScore.scoreMissingEhc =
        -((missingSmss g.outerEHCs (findOuterSmss db FuncBody)).length * 10) ∧
      g.confidenceScore.scoreNumberEhc = -(if (maskIds g).length > 5 then 20 else 0) -
        (if (maskIds g).length > 8 then 20 else 0) ∧
      g.confidenceScore.scoreMaybeBlocks = 0 ∧ g.confidenceScore.initFlag ≠ 1371 := by
  obtain ⟨found, score, _, isClosing, rfl⟩ := analyseWithScore_eq_some open_ analysed
  let scored := scoreMissingStatements (findOuterSmss db FuncBody) (findOuterEhcs db sm found)
  have outerScore : (findOuterEhcs db sm found).confidenceScore = found.confidenceScore := rfl
  have sameMissing : missingSmss (assignPairmaskId scored).outerEHCs (findOuterSmss db FuncBody) =
      missingSmss (findOuterEhcs db sm found).outerEHCs (findOuterSmss db FuncBody) := by
    apply List.filter_congr
    intro outerSms _
    rw [pairFound_assignPairmaskId]
    rfl
  have counted : scored.confidenceScore = scoreMissing^[(missingSmss
      (findOuterEhcs db sm found).outerEHCs (findOuterSmss db FuncBody)).length]
      (scoreFncPointer^[(FuncBody.descendants.filter isSmsPointerCall).length] {}) := by
    rw [scoreMissingStatements_score, outerScore, score, recursiveVisitFunctionPointer_eq]
  obtain ⟨pointer, missing, number, maybe, flag⟩ := scoreMissing_after_pointers
    (FuncBody.descendants.filter isSmsPointerCall).length
    (missingSmss (findOuterEhcs db sm found).outerEHCs (findOuterSmss db FuncBody)).length
  rw [← counted] at pointer missing number maybe flag
  have ids : (maskIds (assignPairmaskId scored)).length = entryCount scored := by
    rw [maskIds_assignPairmaskId, idsFrom, List.length_map, List.length_range']
  change (assignPairmaskId scored).isClosing = false ∧ _
  rw [ids, sameMissing, assignPairmaskId_score number]
  exact ⟨isClosing, pointer, missing, rfl, maybe, flag⟩

/-- The confidence score adds up: every pointer call costs 30, every state-modifying call
without an undo call 10, every inner statement of a verified block 8, and more than five and
more than eight identifiers 20 each. -/
theorem generateCleanupStr_overallScore {g : Function}
    (open_ : containsAny closingIndicator FuncName = false)
    (analysed : analyseWithScore db sm gotostr FuncBody TypeStr FuncName = some g)
    (rewritten : Stmt → String) (functionTag numberOfGotos : Nat) :
    (generateCleanupStr rewritten functionTag numberOfGotos g).2.overallScore =
      100 - 30 * ((FuncBody.descendants.filter isSmsPointerCall).length : Int) -
        10 * ((missingSmss g.outerEHCs (findOuterSmss db FuncBody)).length : Int) -
        8 * (((g.EHCs.flatMap EHC.ehcNewStmts).filter isVerifiedInner).length : Int) -
        (if (maskIds g).length > 5 then 20 else 0) -
        (if (maskIds g).length > 8 then 20 else 0) := by
  obtain ⟨isClosing, pointer, missing, number, maybe, flag⟩ := analyseWithScore_score open_ analysed
  have cleaned : (generateCleanupStr rewritten functionTag numberOfGotos g).2 =
      scoreVerified^[((g.EHCs.flatMap EHC.ehcNewStmts).filter isVerifiedInner).length]
        g.confidenceScore := by
    rw [← cleanupOfEhcs_score rewritten (cleanupFooter g.typeStr)]
    simp only [generateCleanupStr, isClosing, Bool.false_eq_true, if_false]
    split <;> rfl
  generalize ((g.EHCs.flatMap EHC.ehcNewStmts).filter isVerifiedInner).length = V at cleaned ⊢
  have verified := countsDown_scoreVerified.iterate V flag maybe
  have keptMissing : (scoreVerified^[V] g.confidenceScore).scoreMissingEhc = _ :=
    iterate_unchanged (fun s => (scoreVerified_others s).1) V g.confidenceScore
  have keptNumber : (scoreVerified^[V] g.confidenceScore).scoreNumberEhc = _ :=
    iterate_unchanged (fun s => (scoreVerified_others s).2.1) V g.confidenceScore
  have keptPointer : (scoreVerified^[V] g.confidenceScore).scoreFunctionPointer = _ :=
    iterate_unchanged (fun s => (scoreVerified_others s).2.2) V g.confidenceScore
  rw [cleaned, ConfidenceScore.overallScore, verified, keptMissing, keptNumber, keptPointer,
    pointer, missing, number]
  ring

/-- A function that takes a device through a pointer: `dev->get(x);`. -/
def getsDevice : Stmt :=
  Build.block 1 0 1 90 4
    [.node
      { id := 2
        beginLoc := ⟨10, 2, false⟩
        endLoc := ⟨20, 2, false⟩
        semiLoc := ⟨21, 2, false⟩
        printed := "dev->get(x)"
        text := "dev->get(x)"
        textSemi := "dev->get(x);" }
      (.callExpr none) [Build.nameRef 3 10 2 "dev->get", Build.nameRef 4 19 2 "x"]]

theorem generateCleanupStr_overallScore_getsDevice :
    ∃ g, analyseWithScore databaseHeader Build.shortTokens (fun _ => "") getsDevice "int" "probe" =
        some g ∧
      (generateCleanupStr (fun stmt => stmt.info.text) 0 1 g).2.overallScore =
        100 - 30 * ((getsDevice.descendants.filter isSmsPointerCall).length : Int) -
          10 * ((missingSmss g.outerEHCs (findOuterSmss databaseHeader getsDevice)).length : Int) -
          8 * (((g.EHCs.flatMap EHC.ehcNewStmts).filter isVerifiedInner).length : Int) -
          (if (maskIds g).length > 5 then 20 else 0) -
          (if (maskIds g).length > 8 then 20 else 0) := by
  have open_ : containsAny closingIndicator "probe" = false := by decide +kernel
  have isSome : (analyseWithScore databaseHeader Build.shortTokens (fun _ => "") getsDevice "int"
      "probe").isSome = true := by decide +kernel
  obtain ⟨g, analysed⟩ := Option.isSome_iff_exists.mp isSome
  exact ⟨g, analysed, generateCleanupStr_overallScore open_ analysed (fun stmt => stmt.info.text) 0 1⟩

end Hecaton.Pass2
