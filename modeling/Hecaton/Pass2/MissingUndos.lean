import Hecaton.Pass2.Confidence
import Hecaton.Pass2.OuterDuplicates
import Mathlib.Data.Finset.Card

/-!
# Missing undo calls

The penalty for missing undo calls is taken from the indices that the outer EHCs keep.  The
three unlock functions become outer EHCs without indices, and of several undo calls with one
text only the first keeps them.  What either of them pairs with is counted as missing.
-/

namespace Hecaton.Pass2

open Hecaton.Clang Hecaton.Library

/-! ## Names without an undo call -/

/-- The names of the functions that are called directly. -/
def calledNames (Body : Stmt) : List String := Body.descendants.filterMap Stmt.directCallee

/-- The database lists the callee of a call as an undo function of the name. -/
def pairedBy (db : Database) (m : String) (undo : Stmt) : Bool :=
  match undo.directCallee with
  | some u => (db.ehcFncs.zip db.pairFncs).contains (u, m)
  | none => false

/-- The names called in the body that the database lists as paired and that none of the undo
calls is paired with. -/
def unpairedNames (db : Database) (undos : List Stmt) (Body : Stmt) : Finset String :=
  ((calledNames Body).filter fun m =>
    db.pairFncs.contains m && !undos.any (pairedBy db m)).toFinset

/-- The undo calls whose indices are compared: the first of each text, without the three
unlock functions. -/
def indexedCalls (db : Database) (Body : Stmt) : List Stmt :=
  (firstByKey stmtText (outerCalls db Body)).filter fun undo =>
    undo.directCallee.all fun u => !unlockFncs.contains u

/-- Every name called in the body that some accepted undo call is paired with is also paired
with one whose indices are compared. -/
def PairsIndexed (db : Database) (Body : Stmt) : Prop :=
  ∀ m ∈ calledNames Body, (∃ undo ∈ outerCalls db Body, pairedBy db m undo = true) →
    ∃ undo ∈ indexedCalls db Body, pairedBy db m undo = true

variable {db : Database} {sm : SourceManager} {gotostr : Stmt → String}
  {Body : Stmt} {TypeStr FuncName : String}

theorem pairedBy_iff {m : String} {undo : Stmt} :
    pairedBy db m undo = true ↔ ∃ u, undo.directCallee = some u ∧
      ∃ i : Nat, db.ehcFncs[i]? = some u ∧ db.pairFncs[i]? = some m := by
  rw [pairedBy]
  cases undo.directCallee with
  | none => simp
  | some u =>
      rw [List.contains_iff_mem, List.mem_iff_getElem?]
      simp only [List.getElem?_zip_eq_some, Option.some.injEq]
      constructor
      · rintro ⟨i, entry⟩
        exact ⟨u, rfl, i, entry⟩
      · rintro ⟨_, rfl, i, entry⟩
        exact ⟨i, entry⟩

theorem mem_unpairedNames {undos : List Stmt} {m : String} :
    m ∈ unpairedNames db undos Body ↔ m ∈ calledNames Body ∧ m ∈ db.pairFncs ∧
      ¬ ∃ undo ∈ undos, pairedBy db m undo = true := by
  simp [unpairedNames]

theorem indexedCalls_subset : indexedCalls db Body ⊆ outerCalls db Body := by
  intro undo undoMem
  exact (firstByKey_sublist _).subset (List.mem_filter.mp undoMem).1

/-- The indices that are compared are those of a call that the database lists as an undo. -/
theorem listed_of_mem_indexedCalls {undo : Stmt} (member : undo ∈ indexedCalls db Body) :
    ∃ u ∈ calledNames Body, u ∈ db.ehcFncs ∧ u ∉ unlockFncs := by
  obtain ⟨below, taken⟩ := List.mem_filter.mp (indexedCalls_subset member)
  have notUnlock := (List.mem_filter.mp member).2
  cases callee : undo.directCallee with
  | none => simp [outerEhcOf, callee] at taken
  | some u =>
      have plain : u ∉ unlockFncs := by simpa [callee] using notUnlock
      refine ⟨u, List.mem_filterMap.mpr ⟨undo, below, callee⟩, ?_, plain⟩
      by_contra notListed
      rw [← findFnc_isEmpty] at notListed
      simp [outerEhcOf, callee, plain, notListed] at taken

theorem unpairedNames_subset :
    unpairedNames db (outerCalls db Body) Body ⊆ unpairedNames db (indexedCalls db Body) Body := by
  intro m
  rw [mem_unpairedNames, mem_unpairedNames]
  rintro ⟨called, listed, unpaired⟩
  refine ⟨called, listed, ?_⟩
  rintro ⟨undo, undoMem, paired⟩
  exact unpaired ⟨undo, indexedCalls_subset undoMem, paired⟩

/-- The two sets of names have as many elements exactly when no pairing gets lost. -/
theorem unpairedNames_card_eq_iff :
    (unpairedNames db (indexedCalls db Body) Body).card =
        (unpairedNames db (outerCalls db Body) Body).card ↔ PairsIndexed db Body := by
  constructor
  · intro sameCard m called paired
    have same := Finset.eq_of_subset_of_card_le unpairedNames_subset (Nat.le_of_eq sameCard)
    by_contra lost
    obtain ⟨undo, undoMem, isPaired⟩ := paired
    obtain ⟨_, _, i, _, isPair⟩ := pairedBy_iff.mp isPaired
    have unpaired : m ∈ unpairedNames db (indexedCalls db Body) Body :=
      mem_unpairedNames.mpr ⟨called, List.mem_of_getElem? isPair, lost⟩
    rw [← same, mem_unpairedNames] at unpaired
    exact unpaired.2.2 ⟨undo, undoMem, isPaired⟩
  · intro indexed
    congr 1
    ext m
    rw [mem_unpairedNames, mem_unpairedNames]
    constructor
    · rintro ⟨called, listed, unpaired⟩
      exact ⟨called, listed, fun paired => unpaired (indexed m called paired)⟩
    · rintro ⟨called, listed, unpaired⟩
      refine ⟨called, listed, ?_⟩
      rintro ⟨undo, undoMem, paired⟩
      exact unpaired ⟨undo, indexedCalls_subset undoMem, paired⟩

/-! ## The indices that are compared -/

/-- The indices that an outer EHC gets for its call. -/
def undoIndexes (db : Database) (undo : Stmt) : List Nat :=
  match undo.directCallee with
  | some u => if unlockFncs.contains u then [] else findFnc db.ehcFncs u
  | none => []

theorem outerEhcOf_databaseIndexes {currStmt : Stmt} {outerEhc : OuterEHC}
    (taken : outerEhcOf db Body currStmt = some outerEhc) :
    outerEhc.databaseIndexes = undoIndexes db outerEhc.stmt := by
  rw [outerEhcOf_stmt taken, undoIndexes]
  simp only [outerEhcOf] at taken
  cases callee : currStmt.directCallee with
  | none => simp [callee] at taken
  | some fncname =>
      simp only [callee] at taken
      cases unlock : unlockFncs.contains fncname with
      | true =>
          simp only [unlock, if_true] at taken ⊢
          split at taken
          · cases taken
          · cases taken
            rfl
      | false =>
          simp only [unlock, Bool.false_eq_true, if_false] at taken ⊢
          split at taken
          · cases taken
          · split at taken
            · cases taken
              rfl
            · cases taken

theorem findOuterEhcPairs_databaseIndexes (outer1 : OuterEHC) :
    (findOuterEhcPairs db sm Body outer1).databaseIndexes = outer1.databaseIndexes := by
  have kept : ∀ scored : OuterEHC,
      (findMostPossibleDatabasePair scored).databaseIndexes = scored.databaseIndexes := by
    intro scored
    simp only [findMostPossibleDatabasePair]
    split <;> rfl
  simp only [findOuterEhcPairs]
  split
  · simp only [outerPairDatabase]
    split <;> simp [addAllDuplicateDatabasePairs_eq, kept, scoreUniquePossibleDatabasePairs,
      makePossibleDatabasePairsUnique, findAllPossibleDatabasePairs_eq]
  · rfl

/-- The indices of the outer EHCs are those of the first calls of each text. -/
theorem findOuterEhcs_databaseIndexes (f : Function) :
    (findOuterEhcs db sm f).outerEHCs.map OuterEHC.databaseIndexes =
      (firstByKey stmtText (outerCalls db f.body)).map (undoIndexes db) := by
  let found := outerEhcsVisit db f.body
  let kept := handleDuplicatesLoop found.length f.EHCs found
  have pairsKeep : (kept.2.map (findOuterEhcPairs db sm f.body)).map OuterEHC.databaseIndexes =
      kept.2.map OuterEHC.databaseIndexes := by
    rw [List.map_map]
    exact List.map_congr_left fun outer1 _ => findOuterEhcPairs_databaseIndexes outer1
  have partitions : Partitions kept.2 found :=
    handleDuplicatesLoop_groups (Nat.le_refl _)
      (fun outer outerMem => (outerEhcsVisit_bare outerMem).1) f.EHCs
  have firsts : kept.2.map OuterEHC.databaseIndexes =
      (firstByKey OuterEHC.text found).map OuterEHC.databaseIndexes := by
    rw [← partitions.bare, List.map_map]
    rfl
  have ofStmts : (firstByKey OuterEHC.text found).map OuterEHC.databaseIndexes =
      ((firstByKey OuterEHC.text found).map OuterEHC.stmt).map (undoIndexes db) := by
    rw [List.map_map]
    apply List.map_congr_left
    intro outer outerMem
    obtain ⟨currStmt, _, taken⟩ :=
      List.mem_filterMap.mp ((firstByKey_sublist found).subset outerMem)
    exact outerEhcOf_databaseIndexes taken
  have asStmts : (firstByKey OuterEHC.text found).map OuterEHC.stmt =
      firstByKey stmtText (found.map OuterEHC.stmt) := by
    rw [firstByKey_map]
    rfl
  change (kept.2.map (findOuterEhcPairs db sm f.body)).map OuterEHC.databaseIndexes = _
  rw [pairsKeep, firsts, ofStmts, asStmts, outerEhcsVisit_map_stmt]

/-- An index is found for a name exactly when it is paired with a call whose indices are
compared. -/
theorem pairFound_iff {outerEHCs : List OuterEHC} {outerSms : OuterSMS}
    (indexes : outerEHCs.map OuterEHC.databaseIndexes =
      (firstByKey stmtText (outerCalls db Body)).map (undoIndexes db))
    (isSms : outerSms.databaseIndexes = findFnc db.pairFncs outerSms.fncName) :
    pairFound outerEHCs outerSms = true ↔
      ∃ undo ∈ indexedCalls db Body, pairedBy db outerSms.fncName undo = true := by
  have byIndexes : pairFound outerEHCs outerSms = true ↔
      ∃ indexes ∈ outerEHCs.map OuterEHC.databaseIndexes,
        ∃ i ∈ indexes, db.pairFncs[i]? = some outerSms.fncName := by
    simp only [pairFound, isSms, List.any_eq_true, mem_findFnc, beq_iff_eq, List.mem_map,
      exists_exists_and_eq_and]
    constructor
    · rintro ⟨outer, outerMem, i, isPair, j, jMem, rfl⟩
      exact ⟨outer, outerMem, j, jMem, isPair⟩
    · rintro ⟨outer, outerMem, i, iMem, isPair⟩
      exact ⟨outer, outerMem, i, isPair, i, iMem, rfl⟩
  rw [byIndexes, indexes]
  simp only [List.mem_map, exists_exists_and_eq_and, indexedCalls, List.mem_filter, and_assoc]
  apply exists_congr
  intro undo
  apply and_congr_right
  intro _
  rw [pairedBy_iff, undoIndexes]
  cases undo.directCallee with
  | none => simp
  | some u =>
      by_cases unlock : u ∈ unlockFncs
      · simp [unlock]
      · simp [unlock, mem_findFnc]

/-! ## The count -/

theorem outerSmsOf_eq_some {currStmt : Stmt} {outerSms : OuterSMS}
    (isSms : outerSmsOf db currStmt = some outerSms) :
    currStmt.directCallee = some outerSms.fncName ∧ outerSms.fncName ∈ db.pairFncs ∧
      outerSms.databaseIndexes = findFnc db.pairFncs outerSms.fncName := by
  rw [outerSmsOf] at isSms
  cases callee : currStmt.directCallee with
  | none => simp [callee] at isSms
  | some fncname =>
      simp only [callee] at isSms
      split at isSms
      · cases isSms
      · rename_i found
        cases isSms
        rw [findFnc_isEmpty, not_not] at found
        exact ⟨rfl, found, rfl⟩

theorem mem_findOuterSmss {outerSms : OuterSMS} (member : outerSms ∈ findOuterSmss db Body) :
    outerSms.fncName ∈ calledNames Body ∧ outerSms.fncName ∈ db.pairFncs ∧
      outerSms.databaseIndexes = findFnc db.pairFncs outerSms.fncName := by
  rw [findOuterSmss_eq] at member
  obtain ⟨currStmt, below, isSms⟩ := List.mem_filterMap.mp ((firstByKey_sublist _).subset member)
  obtain ⟨callee, listed, indexes⟩ := outerSmsOf_eq_some isSms
  exact ⟨List.mem_filterMap.mpr ⟨currStmt, below, callee⟩, listed, indexes⟩

/-- Every listed name that is called is the name of one of the statements. -/
theorem exists_outerSms {m : String} (called : m ∈ calledNames Body) (listed : m ∈ db.pairFncs) :
    ∃ outerSms ∈ findOuterSmss db Body, outerSms.fncName = m := by
  obtain ⟨currStmt, below, callee⟩ := List.mem_filterMap.mp called
  have found : (findFnc db.pairFncs m).isEmpty = false := by
    rw [← Bool.not_eq_true, findFnc_isEmpty]
    exact not_not_intro listed
  have isSms : outerSmsOf db currStmt = some ⟨currStmt, m, findFnc db.pairFncs m⟩ := by
    simp [outerSmsOf, callee, found]
  have hasName : HasKey OuterSMS.fncName (findOuterSmss db Body) m := by
    rw [findOuterSmss_eq, hasKey_firstByKey]
    exact ⟨_, List.mem_filterMap.mpr ⟨currStmt, below, isSms⟩, rfl⟩
  exact hasName

/-- The statements counted as missing are the names that are paired with no call whose indices
are compared. -/
theorem missingSmss_length {outerEHCs : List OuterEHC}
    (indexes : outerEHCs.map OuterEHC.databaseIndexes =
      (firstByKey stmtText (outerCalls db Body)).map (undoIndexes db)) :
    (missingSmss outerEHCs (findOuterSmss db Body)).length =
      (unpairedNames db (indexedCalls db Body) Body).card := by
  have distinct : ((missingSmss outerEHCs (findOuterSmss db Body)).map OuterSMS.fncName).Nodup := by
    have allDistinct : ((findOuterSmss db Body).map OuterSMS.fncName).Nodup := by
      rw [findOuterSmss_eq]
      exact firstByKey_map_nodup _
    exact allDistinct.sublist (List.filter_sublist.map _)
  rw [← List.length_map (f := OuterSMS.fncName), ← List.toFinset_card_of_nodup distinct]
  congr 1
  ext m
  rw [List.mem_toFinset, mem_unpairedNames, List.mem_map]
  constructor
  · rintro ⟨outerSms, missing, rfl⟩
    obtain ⟨member, notFound⟩ := List.mem_filter.mp missing
    obtain ⟨called, listed, isSms⟩ := mem_findOuterSmss member
    refine ⟨called, listed, ?_⟩
    rw [← pairFound_iff indexes isSms]
    simpa using notFound
  · rintro ⟨called, listed, unpaired⟩
    obtain ⟨outerSms, member, rfl⟩ := exists_outerSms called listed
    rw [← pairFound_iff indexes (mem_findOuterSmss member).2.2] at unpaired
    exact ⟨outerSms, List.mem_filter.mpr ⟨member, by simpa using unpaired⟩, rfl⟩

theorem assignPairmaskId_databaseIndexes (f : Function) :
    (assignPairmaskId f).outerEHCs.map OuterEHC.databaseIndexes =
      f.outerEHCs.map OuterEHC.databaseIndexes := by
  have same := congrArg (List.map OuterEHC.databaseIndexes) (assignPairmaskId_outerEHCs f)
  rwa [List.map_map, List.map_map] at same

/-- The penalty of an analysed function: ten for every name that is paired with no call whose
indices are compared. -/
theorem analyseWithScore_scoreMissing {g : Function}
    (open_ : containsAny closingIndicator FuncName = false)
    (analysed : analyseWithScore db sm gotostr Body TypeStr FuncName = some g) :
    g.confidenceScore.scoreMissingEhc =
      -10 * ((unpairedNames db (indexedCalls db Body) Body).card : Int) := by
  obtain ⟨_, _, missing, _⟩ := analyseWithScore_score open_ analysed
  obtain ⟨found, _, body, _, rfl⟩ := analyseWithScore_eq_some open_ analysed
  have indexes : (assignPairmaskId (scoreMissingStatements (findOuterSmss db Body)
      (findOuterEhcs db sm found))).outerEHCs.map OuterEHC.databaseIndexes =
      (firstByKey stmtText (outerCalls db Body)).map (undoIndexes db) := by
    rw [assignPairmaskId_databaseIndexes, ← body]
    exact findOuterEhcs_databaseIndexes found
  rw [missing, missingSmss_length indexes]
  ring

/-- The penalty counts exactly the names that are called, listed as paired and paired with no
accepted undo call, if and only if no pairing is lost: what an accepted undo call is paired
with is also paired with one that is the first of its text and none of the three unlock
functions. -/
theorem analyseWithScore_countsUnpaired_iff {g : Function}
    (open_ : containsAny closingIndicator FuncName = false)
    (analysed : analyseWithScore db sm gotostr Body TypeStr FuncName = some g) :
    g.confidenceScore.scoreMissingEhc =
        -10 * ((unpairedNames db (outerCalls db Body) Body).card : Int) ↔ PairsIndexed db Body := by
  rw [analyseWithScore_scoreMissing open_ analysed, ← unpairedNames_card_eq_iff]
  omega

/-- A function that takes a lock and releases it. -/
def locksAndUnlocks : Stmt :=
  Build.block 1 0 1 90 4
    [Build.callOf 2 10 2 "spin_lock" "l", Build.callOf 5 40 3 "spin_unlock" "l"]

theorem analyse_locksAndUnlocks :
    ∃ g, analyseWithScore databaseHeader Build.shortTokens (fun _ => "") locksAndUnlocks "int"
      "probe" = some g :=
  Option.isSome_iff_exists.mp (by decide +kernel)

theorem notClosing_probe : containsAny closingIndicator "probe" = false := by decide +kernel

theorem analyseWithScore_countsUnpaired_locksAndUnlocks :
    ∃ g, analyseWithScore databaseHeader Build.shortTokens (fun _ => "") locksAndUnlocks "int"
        "probe" = some g ∧
      (g.confidenceScore.scoreMissingEhc =
          -10 * ((unpairedNames databaseHeader (outerCalls databaseHeader locksAndUnlocks)
            locksAndUnlocks).card : Int) ↔ PairsIndexed databaseHeader locksAndUnlocks) := by
  obtain ⟨g, analysed⟩ := analyse_locksAndUnlocks
  exact ⟨g, analysed, analyseWithScore_countsUnpaired_iff notClosing_probe analysed⟩

/-- The database pairs `spin_lock` with `spin_unlock`, which is called. -/
theorem spinLock_paired :
    ∃ undo ∈ outerCalls databaseHeader locksAndUnlocks,
      pairedBy databaseHeader "spin_lock" undo = true := by
  refine ⟨Build.callOf 5 40 3 "spin_unlock" "l", List.mem_filter.mpr ⟨?_, ?_⟩, ?_⟩
  · simp [locksAndUnlocks, Build.block, Build.callOf, Stmt.descendants, Stmt.children]
  · decide +kernel
  · rw [pairedBy_iff]
    exact ⟨"spin_unlock", rfl, 1122, by decide +kernel, by decide +kernel⟩

set_option maxRecDepth 8000 in
private theorem spinLock_no_undo : "spin_lock" ∉ databaseHeader.ehcFncs := by
  simp only [databaseHeader, headerEhcFncs, List.mem_cons, String.reduceEq, List.not_mem_nil,
    or_self, not_false_eq_true]

/-- No call of the function has indices that are compared. -/
theorem indexedCalls_locksAndUnlocks : indexedCalls databaseHeader locksAndUnlocks = [] := by
  apply List.eq_nil_iff_forall_not_mem.mpr
  intro undo member
  obtain ⟨u, called, listed, plain⟩ := listed_of_mem_indexedCalls member
  have names : calledNames locksAndUnlocks = ["spin_lock", "spin_unlock"] := by decide +kernel
  rw [names] at called
  simp only [List.mem_cons, List.not_mem_nil, or_false] at called
  rcases called with rfl | rfl
  · exact spinLock_no_undo listed
  · exact plain (by decide)

/-- The lock counts as one without an undo call. -/
theorem analyseWithScore_misses_unlock :
    ∃ g, analyseWithScore databaseHeader Build.shortTokens (fun _ => "") locksAndUnlocks "int"
        "probe" = some g ∧
      g.confidenceScore.scoreMissingEhc ≠
        -10 * ((unpairedNames databaseHeader (outerCalls databaseHeader locksAndUnlocks)
          locksAndUnlocks).card : Int) := by
  obtain ⟨g, analysed⟩ := analyse_locksAndUnlocks
  refine ⟨g, analysed, ?_⟩
  rw [analyseWithScore_scoreMissing notClosing_probe analysed]
  intro same
  have indexed := unpairedNames_card_eq_iff.mp
    (show (unpairedNames databaseHeader (indexedCalls databaseHeader locksAndUnlocks)
        locksAndUnlocks).card = _ by omega)
  have called : "spin_lock" ∈ calledNames locksAndUnlocks := by decide +kernel
  obtain ⟨undo, undoMem, _⟩ := indexed "spin_lock" called spinLock_paired
  rw [indexedCalls_locksAndUnlocks] at undoMem
  exact List.not_mem_nil undoMem

end Hecaton.Pass2
