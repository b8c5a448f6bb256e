import Hecaton.DatabasePlugin.Blocks
import Hecaton.DatabasePlugin.FncNames
import Hecaton.Library.Aligned
import Hecaton.Library.Once
import Hecaton.Pass2.PairWindows
import Hecaton.Pass2.TranslationUnit

/-!
# The lines of the pair database

`VisitFunctionDecl` of the plugin, for one function after the other.  Every function of the main
file is worked on once and appends its lines to the database.  Since the search for new
statements compares empty texts, the lines of a function all come from one block: the first
that has a statement left.
-/

namespace Hecaton.DatabasePlugin

open Hecaton.Clang Hecaton.Library

/-! ## The visit of a function -/

/-- The heads behind `ehc_head_clean_duplicates`. -/
def cleanedHeads (Body : Stmt) : Option (List EHCHead) :=
  let EHCHeads := LinkedList.ofList (recursiveVisitIf Body)
  (ehcHeadCleanDuplicates EHCHeads.cells.length EHCHeads).map LinkedList.values

/-- The line behind which the pairs of an EHC are searched. -/
def pairStartLine (f : Function) (index : Nat) : Nat :=
  match f.EHCs[index - 2]? with
  | some earlier =>
      if index ≥ 2 then earlier.head.headStmt.info.endLoc.line else f.body.info.beginLoc.line
  | none => f.body.info.beginLoc.line

/-- The round of `find_pairs` for one new statement; `none` where `pick_the_most_probable` reads
the first element of an empty list. -/
def pairOf (Body : Stmt) (startLine endLine : Nat) (newstmt : EHCNewStmt) : Option EHCNewStmt :=
  if !(recursivePairVisit newstmt.stmt startLine endLine Body newstmt.pair).1 &&
      (probablePairs Body newstmt.stmt startLine endLine).isEmpty then none
  else some (findPair Body startLine endLine newstmt)

/-- The rounds of `find_pairs` for the new statements of one EHC. -/
def pairsOf (Body : Stmt) (startLine endLine : Nat) : List EHCNewStmt → Option (List EHCNewStmt)
  | [] => some []
  | newstmt :: rest =>
      (pairOf Body startLine endLine newstmt).bind fun paired =>
        (pairsOf Body startLine endLine rest).map fun others => paired :: others

/-- The loop of `find_pairs` over the EHCs, with `index`. -/
def findPairsLoop (f : Function) (index : Nat) : List EHC → Option (List EHC)
  | [] => some []
  | ehc :: rest =>
      (pairsOf f.body (pairStartLine f index) ehc.head.headStmt.info.beginLoc.line
          ehc.ehcNewStmts).bind fun newStmts =>
        (findPairsLoop f (index + 1) rest).map fun others =>
          { ehc with ehcNewStmts := newStmts } :: others

/-- `find_pairs`. -/
def findPairs (f : Function) : Option Function :=
  (findPairsLoop f 0 f.EHCs).map fun ehcs => { f with EHCs := ehcs }

/-- The steps of `VisitFunctionDecl` up to the pairs; `none` where they are undefined. -/
def analyse (FuncBody : Stmt) (TypeStr FuncName : String) : Option Function :=
  (cleanedHeads FuncBody).bind fun heads =>
    (findEhcStmts FuncBody heads).bind fun ehcs =>
      findPairs (findEhcNewStmts (handleReturn (deletePrintks
        { body := FuncBody, EHCs := ehcs, typeStr := TypeStr, name := FuncName })))

/-- The variables of the plugin, and the lines it has appended to the database. -/
structure PluginState where
  listOfFunctions : List Function := []
  database : List String := []

/-- `VisitFunctionDecl`. -/
def visitFunctionDecl (sm : SourceManager) (f : Pass2.FunctionDecl) (state : PluginState) :
    Option PluginState :=
  if !f.hasBody then some state
  else if !sm.isInMainFile f.beginLoc then some state
  else if state.listOfFunctions.any fun currFunction => f.name == currFunction.name then some state
  else
    (analyse f.body f.typeStr f.name).map fun myfunction =>
      { listOfFunctions := state.listOfFunctions ++ [myfunction]
        database := state.database ++ writePairsToDatabase myfunction }

/-! ## One block -/

/-- The new statements of the EHCs are those of the first one that has a statement, and all of
them. -/
inductive OneBlock : List EHC → Prop
  | nil : OneBlock []
  | skip (ehc : EHC) (rest : List EHC) (noStmts : Pass2.nonNulls ehc.ehcStmts = [])
      (noNew : ehc.ehcNewStmts = []) (later : OneBlock rest) : OneBlock (ehc :: rest)
  | found (ehc : EHC) (rest : List EHC) (hasStmt : Pass2.nonNulls ehc.ehcStmts ≠ [])
      (stmts : ehc.ehcNewStmts.map EHCNewStmt.stmt = Pass2.nonNulls ehc.ehcStmts)
      (noNew : ∀ other ∈ rest, other.ehcNewStmts = []) : OneBlock (ehc :: rest)

theorem isNewStatement_eq (earlier : List EHC) (currStmt : Stmt) :
    isNewStatement earlier currStmt =
      earlier.all fun ehc2 => (Pass2.nonNulls ehc2.ehcStmts).isEmpty := by
  rw [isNewStatement, List.not_any_eq_all_not]
  congr 1
  funext ehc2
  rw [Bool.eq_iff_iff]
  simp [EHC.repeats, Pass2.nonNulls, streamString]

/-- Behind EHCs without statements, all statements are new ones. -/
theorem collectNewStmts_of_empty {earlier : List EHC}
    (empty : ∀ ehc ∈ earlier, Pass2.nonNulls ehc.ehcStmts = []) (stmts : List Stmt) :
    collectNewStmts earlier stmts = (Pass2.nonNulls stmts).map fun stmt => { stmt := stmt } := by
  have isNew : ∀ stmt, isNewStatement earlier stmt = true := by
    intro stmt
    rw [isNewStatement_eq, List.all_eq_true]
    intro ehc ehcMem
    rw [empty ehc ehcMem]
    rfl
  induction stmts with
  | nil => rfl
  | cons stmt rest ih =>
      rw [collectNewStmts, ih, isNew, if_pos rfl]
      cases stmt with
      | null => rfl
      | node => rfl

/-- Behind an EHC with a statement there are none. -/
theorem collectNewStmts_of_nonempty {earlier : List EHC} {ehc : EHC} (member : ehc ∈ earlier)
    (hasStmt : Pass2.nonNulls ehc.ehcStmts ≠ []) (stmts : List Stmt) :
    collectNewStmts earlier stmts = [] := by
  have notNew : ∀ stmt, isNewStatement earlier stmt = false := by
    intro stmt
    rw [isNewStatement_eq, List.all_eq_false]
    exact ⟨ehc, member, by simpa using hasStmt⟩
  induction stmts with
  | nil => rfl
  | cons stmt rest ih =>
      rw [collectNewStmts, ih, notNew, if_neg Bool.false_ne_true]
      exact ite_self _

theorem noNew_findEhcNewStmtsLoop {earlier : List EHC} {ehc : EHC} (member : ehc ∈ earlier)
    (hasStmt : Pass2.nonNulls ehc.ehcStmts ≠ []) {ehcs : List EHC}
    (fresh : ∀ other ∈ ehcs, other.ehcNewStmts = []) :
    ∀ other ∈ findEhcNewStmtsLoop earlier ehcs, other.ehcNewStmts = [] := by
  induction ehcs generalizing earlier with
  | nil => exact fun other otherMem => absurd otherMem List.not_mem_nil
  | cons first rest ih =>
      rw [findEhcNewStmtsLoop, List.forall_mem_cons]
      constructor
      · rw [fresh first List.mem_cons_self, collectNewStmts_of_nonempty member hasStmt]
        rfl
      · exact ih (List.mem_append_left _ member) fun other otherMem =>
          fresh other (List.mem_cons_of_mem _ otherMem)

/-- Where no EHC before has a statement, the search finds the new statements of one block. -/
theorem oneBlock_findEhcNewStmtsLoop {earlier : List EHC}
    (empty : ∀ ehc ∈ earlier, Pass2.nonNulls ehc.ehcStmts = []) {ehcs : List EHC}
    (fresh : ∀ ehc ∈ ehcs, ehc.ehcNewStmts = []) :
    OneBlock (findEhcNewStmtsLoop earlier ehcs) := by
  induction ehcs generalizing earlier with
  | nil => exact .nil
  | cons ehc rest ih =>
      have freshRest : ∀ other ∈ rest, other.ehcNewStmts = [] := fun other otherMem =>
        fresh other (List.mem_cons_of_mem _ otherMem)
      rw [findEhcNewStmtsLoop, fresh ehc List.mem_cons_self, List.nil_append,
        collectNewStmts_of_empty empty]
      by_cases noStmts : Pass2.nonNulls ehc.ehcStmts = []
      · refine .skip _ _ noStmts (by rw [noStmts, List.map_nil]) (ih ?_ freshRest)
        intro other otherMem
        rcases List.mem_append.mp otherMem with before | here
        · exact empty other before
        · rw [List.mem_singleton.mp here]
          exact noStmts
      · refine .found _ _ noStmts ?_ ?_
        · rw [List.map_map]
          exact List.map_id _
        · exact noNew_findEhcNewStmtsLoop (List.mem_append_right _ (List.mem_singleton_self ehc))
            noStmts freshRest

/-! ## Pairs -/

/-- A new statement with the pair that is found for it, before the line. -/
structure PairFound (Body : Stmt) (endLine : Nat) (newstmt paired : EHCNewStmt) : Prop where
  stmt : paired.stmt = newstmt.stmt
  below : paired.pair ∈ Body.descendants
  before : paired.pair.info.beginLoc.line < endLine
  isCandidate : Pass2.isPairCandidate newstmt.stmt paired.pair = true

theorem pairFound_of_pairOf {Body : Stmt} {startLine endLine : Nat} {newstmt paired : EHCNewStmt}
    (found : pairOf Body startLine endLine newstmt = some paired) :
    PairFound Body endLine newstmt paired := by
  rw [pairOf] at found
  split at found
  · cases found
  · rename_i hasPair
    cases found
    rw [findPair]
    dsimp only
    split
    · rename_i reported
      obtain ⟨below, isMatch⟩ := Pass2.recursivePairVisit_pair reported
      rw [Pass2.isMatch, Bool.and_eq_true, Bool.and_eq_true] at isMatch
      have between := isMatch.2.1
      rw [Pass2.isBetween, Bool.and_eq_true, decide_eq_true_eq, decide_eq_true_eq] at between
      exact ⟨rfl, below, between.2, Pass2.isPairCandidate_of_isPair isMatch.2.2⟩
    · rename_i notReported
      have nonempty : probablePairs Body newstmt.stmt startLine endLine ≠ [] := by
        intro empty
        rw [empty] at hasPair
        simp [notReported] at hasPair
      obtain ⟨_, best, _, split, _, sorted, _⟩ := Pass2.sortPairs_round nonempty
      have bestMem : best ∈ probablePairs Body newstmt.stmt startLine endLine := by
        rw [split]
        simp
      obtain ⟨candidate, candidateMem, isBest⟩ := List.mem_map.mp bestMem
      obtain ⟨n, nMem, rfl⟩ := List.mem_map.mp candidateMem
      obtain ⟨below, inWindow⟩ := List.mem_filter.mp nMem
      rw [Bool.and_eq_true, Pass2.isBetween, Bool.and_eq_true, decide_eq_true_eq,
        decide_eq_true_eq] at inWindow
      have isPair : best.pair = n := by rw [← isBest]
      rw [sorted]
      change PairFound Body endLine newstmt { newstmt with pair := best.pair, isOuter := 0 }
      rw [isPair]
      exact ⟨rfl, below, inWindow.1.2, inWindow.2⟩

theorem forall₂_pairsOf {Body : Stmt} {startLine endLine : Nat} {newStmts paired : List EHCNewStmt}
    (found : pairsOf Body startLine endLine newStmts = some paired) :
    List.Forall₂ (PairFound Body endLine) newStmts paired := by
  induction newStmts generalizing paired with
  | nil =>
      cases found
      exact .nil
  | cons newstmt rest ih =>
      obtain ⟨first, here, later⟩ := Option.bind_eq_some_iff.mp found
      obtain ⟨others, inRest, rfl⟩ := Option.map_eq_some_iff.mp later
      exact .cons (pairFound_of_pairOf here) (ih inRest)

/-- An EHC with the pairs that are found for its new statements. -/
structure EHCPaired (Body : Stmt) (ehc paired : EHC) : Prop where
  head : paired.head = ehc.head
  stmts : paired.ehcStmts = ehc.ehcStmts
  pairs : List.Forall₂ (PairFound Body ehc.head.headStmt.info.beginLoc.line) ehc.ehcNewStmts
    paired.ehcNewStmts

theorem EHCPaired.newStmts {Body : Stmt} {ehc paired : EHC} (isPaired : EHCPaired Body ehc paired) :
    paired.ehcNewStmts.map EHCNewStmt.stmt = ehc.ehcNewStmts.map EHCNewStmt.stmt := by
  rw [← List.forall₂_eq_eq_eq, List.forall₂_map_left_iff, List.forall₂_map_right_iff]
  exact isPaired.pairs.flip.imp fun _ _ found => found.stmt

theorem forall₂_findPairsLoop {f : Function} {index : Nat} {ehcs paired : List EHC}
    (found : findPairsLoop f index ehcs = some paired) :
    List.Forall₂ (EHCPaired f.body) ehcs paired := by
  induction ehcs generalizing index paired with
  | nil =>
      cases found
      exact .nil
  | cons ehc rest ih =>
      obtain ⟨newStmts, here, later⟩ := Option.bind_eq_some_iff.mp found
      obtain ⟨others, inRest, rfl⟩ := Option.map_eq_some_iff.mp later
      exact .cons ⟨rfl, rfl, forall₂_pairsOf here⟩ (ih inRest)

/-- The pairs change nothing about which statements are new. -/
theorem OneBlock.of_paired {Body : Stmt} {ehcs paired : List EHC}
    (pairs : List.Forall₂ (EHCPaired Body) ehcs paired) (oneBlock : OneBlock ehcs) :
    OneBlock paired := by
  induction oneBlock generalizing paired with
  | nil =>
      cases pairs
      exact .nil
  | skip ehc rest noStmts noNew _ ih =>
      cases pairs with
      | cons isPaired others =>
          have same := isPaired.newStmts
          rw [noNew, List.map_nil, List.map_eq_nil_iff] at same
          exact .skip _ _ (by rw [isPaired.stmts, noStmts]) same (ih others)
  | found ehc rest hasStmt stmts noNew =>
      cases pairs with
      | cons isPaired others =>
          refine .found _ _ (by rwa [isPaired.stmts]) ?_ ?_
          · rw [isPaired.newStmts, isPaired.stmts, stmts]
          · intro other otherMem
            obtain ⟨source, sourceMem, related⟩ := aligned_exists others.flip otherMem
            have same := EHCPaired.newStmts related
            rw [noNew source sourceMem, List.map_nil, List.map_eq_nil_iff] at same
            exact same

/-! ## Where the statements of a block come from -/

theorem mem_descendants_of_mem_visitedIfs {s ifStatement : Stmt}
    (visited : ifStatement ∈ Pass2.visitedIfs s) : ifStatement ∈ s.descendants := by
  induction s using Stmt.tree_induction with
  | null => exact absurd visited List.not_mem_nil
  | node info cls children ih =>
      rw [Pass2.visitedIfs] at visited
      change ifStatement ∈ Stmt.nodesOf children
      induction children with
      | nil => exact absurd visited List.not_mem_nil
      | cons currStmt rest ihRest =>
          rw [Pass2.visitedIfsOf] at visited
          rw [Stmt.nodesOf_cons, List.mem_append]
          have below : ifStatement ∈ Pass2.visitedIfs currStmt → ifStatement ∈ currStmt.nodes :=
            fun inCurr => Stmt.descendants_subset_nodes (ih currStmt List.mem_cons_self inCurr)
          rcases List.mem_append.mp visited with own | inRest
          · refine Or.inl ?_
            split at own
            · rename_i isIf
              split at own
              · exact absurd own List.not_mem_nil
              · rcases List.mem_cons.mp own with rfl | inCurr
                · apply Stmt.self_mem_nodes
                  rintro rfl
                  cases isIf
                · exact below inCurr
            · exact below own
          · exact Or.inr (ihRest (fun child childMem => ih child (List.mem_cons_of_mem _ childMem))
              inRest)

/-- The block of a head is a branch of an `if` statement below the body. -/
theorem headStmt_below {Body : Stmt} {head : EHCHead} (found : head ∈ recursiveVisitIf Body)
    (nonnull : head.headStmt ≠ .null) : head.headStmt ∈ Body.descendants := by
  obtain ⟨ifStatement, visited, ofIf⟩ := List.mem_flatMap.mp found
  have ifBelow := Stmt.descendants_subset_nodes (mem_descendants_of_mem_visitedIfs visited)
  have isBranch : head.headStmt = ifStatement.ifThen ∨ head.headStmt = ifStatement.ifElse := by
    simp only [headsOfIf] at ofIf
    rcases List.mem_append.mp ofIf with before | inElse
    · rcases List.mem_append.mp before with byCondition | inThen
      · split at byCondition
        · rw [List.mem_singleton.mp byCondition]
          exact Or.inl rfl
        · exact absurd byCondition List.not_mem_nil
      · exact Or.inl (of_mem_branchHeads inThen).1
    · split at inElse
      · exact absurd inElse List.not_mem_nil
      · exact Or.inr (of_mem_branchHeads inElse).1
  rcases isBranch with isThen | isElse
  · rw [isThen] at nonnull ⊢
    exact Stmt.mem_descendants_of_child ifBelow (Stmt.child_mem_children nonnull) nonnull
  · rw [isElse] at nonnull ⊢
    exact Stmt.mem_descendants_of_child ifBelow (Stmt.child_mem_children nonnull) nonnull

theorem stmt_below_of_ehcOfHead {Body : Stmt} {head : EHCHead}
    (inBody : head ∈ recursiveVisitIf Body) {ehc : EHC} (found : ehcOfHead Body head = some ehc)
    {stmt : Stmt} (stmtMem : stmt ∈ ehc.ehcStmts) (nonnull : stmt ≠ .null) :
    stmt ∈ Body.descendants := by
  have ofBlock : stmt ∈ head.headStmt.children → stmt ∈ Body.descendants := by
    intro isChild
    have blockNonnull : head.headStmt ≠ .null := by
      intro isNull
      rw [isNull] at isChild
      exact absurd isChild List.not_mem_nil
    exact Stmt.mem_descendants_of_child
      (Stmt.descendants_subset_nodes (headStmt_below inBody blockNonnull)) isChild nonnull
  rw [ehcOfHead] at found
  split at found
  · obtain ⟨label, _, rfl⟩ := Option.map_eq_some_iff.mp found
    rcases List.mem_append.mp stmtMem with own | behind
    · rw [Pass2.scanHead_eq] at own
      exact ofBlock (List.mem_of_mem_filter own)
    · rw [scanBody_eq_map] at behind
      obtain ⟨source, sourceMem, rfl⟩ := List.mem_map.mp behind
      obtain ⟨isChild, sourceNonnull⟩ := mem_children_of_mem_fromLabel sourceMem
      have sourceBelow := Stmt.child_mem_descendants isChild sourceNonnull
      rw [behindLabel] at nonnull ⊢
      split
      · rename_i isLabel
        rw [if_pos isLabel] at nonnull
        exact Stmt.mem_descendants_of_child (Stmt.descendants_subset_nodes sourceBelow)
          (Stmt.child_mem_children nonnull) nonnull
      · exact sourceBelow
  · cases found
    exact ofBlock stmtMem

/-- What the analysis of a body knows of an EHC and its new statements. -/
structure EHCAnalysed (Body : Stmt) (ehc : EHC) : Prop where
  head : ehc.head ∈ recursiveVisitIf Body
  listed : ∃ found, ehcOfHead Body ehc.head = some found ∧
    ∀ newstmt ∈ ehc.ehcNewStmts, newstmt.stmt ∈ found.ehcStmts
  below : ∀ newstmt ∈ ehc.ehcNewStmts, newstmt.stmt ∈ Body.descendants
  noReport : ∀ newstmt ∈ ehc.ehcNewStmts, isReport newstmt.stmt = false
  noReturn : ∀ newstmt ∈ ehc.ehcNewStmts, newstmt.stmt.isReturn = false
  pair : ∀ newstmt ∈ ehc.ehcNewStmts, newstmt.pair ∈ Body.descendants ∧
    newstmt.pair.info.beginLoc.line < ehc.head.headStmt.info.beginLoc.line ∧
    Pass2.isPairCandidate newstmt.stmt newstmt.pair = true

/-- An EHC before the search for new statements. -/
structure EHCFiltered (Body : Stmt) (ehc : EHC) : Prop where
  head : ehc.head ∈ recursiveVisitIf Body
  fresh : ehc.ehcNewStmts = []
  listed : ∃ found, ehcOfHead Body ehc.head = some found ∧
    ∀ stmt ∈ ehc.ehcStmts, stmt ≠ .null → stmt ∈ found.ehcStmts
  stmts : ∀ stmt ∈ ehc.ehcStmts, stmt ≠ .null →
    stmt ∈ Body.descendants ∧ isReport stmt = false ∧ stmt.isReturn = false

theorem head_mem_of_cleanedHeads {Body : Stmt} {heads : List EHCHead}
    (cleaned : cleanedHeads Body = some heads) {head : EHCHead} (member : head ∈ heads) :
    head ∈ recursiveVisitIf Body := by
  rw [cleanedHeads] at cleaned
  rw [ehcHeadCleanDuplicates_eq _ _ (Nat.le_refl _), Option.map_some, LinkedList.values_filter,
    LinkedList.values_ofList] at cleaned
  cases cleaned
  exact List.mem_of_mem_filter member

theorem ehcFiltered_of_findEhcStmts {Body : Stmt} {TypeStr FuncName : String}
    {heads : List EHCHead} (headsMem : ∀ head ∈ heads, head ∈ recursiveVisitIf Body)
    {ehcs : List EHC} (found : findEhcStmts Body heads = some ehcs) :
    ∀ ehc ∈ (handleReturn (deletePrintks
      { body := Body, EHCs := ehcs, typeStr := TypeStr, name := FuncName })).EHCs,
      EHCFiltered Body ehc := by
  intro ehc ehcMem
  obtain ⟨printed, printedMem, rfl⟩ := List.mem_map.mp ehcMem
  obtain ⟨source, sourceMem, rfl⟩ := List.mem_map.mp printedMem
  obtain ⟨head, headMem, here⟩ := aligned_exists (findEhcStmts_eq_some_iff.mp found).flip sourceMem
  have isHead : source.head = head := head_of_ehcOfHead here
  have inBody := headsMem head headMem
  have fresh : source.ehcNewStmts = [] := by
    have atHead : ehcOfHead Body head = some source := here
    rw [ehcOfHead] at atHead
    split at atHead
    · obtain ⟨_, _, rfl⟩ := Option.map_eq_some_iff.mp atHead
      rfl
    · cases atHead
      rfl
  have fromSource : ∀ stmt ∈ (handleReturnEhc (deletePrintksEhc source)).ehcStmts, stmt ≠ .null →
      stmt ∈ source.ehcStmts ∧ isReport stmt = false ∧ stmt.isReturn = false := by
    intro stmt stmtMem nonnull
    have kept : stmt ∈ (Pass2.handleReturnLoop (deletePrintksEhc source).ehcStmts.length []
      (deletePrintksEhc source).returnVal (deletePrintksEhc source).ehcStmts).1 := stmtMem
    rw [Pass2.handleReturnLoop_stmts _ [] _ _ (by simp) (Nat.le_refl _), List.nil_append,
      List.mem_filter, Bool.and_eq_true, Bool.not_eq_true'] at kept
    obtain ⟨inFilter, noReturn, _⟩ := kept
    obtain ⟨inSource, noReport⟩ := List.mem_filter.mp inFilter
    rw [Stmt.isNull_eq_false nonnull, Bool.false_or, Bool.not_eq_true'] at noReport
    exact ⟨inSource, noReport, noReturn⟩
  refine ⟨?_, fresh, ⟨source, ?_, ?_⟩, ?_⟩
  · rw [← isHead] at inBody
    exact inBody
  · change ehcOfHead Body source.head = some source
    rw [isHead]
    exact here
  · intro stmt stmtMem nonnull
    exact (fromSource stmt stmtMem nonnull).1
  · intro stmt stmtMem nonnull
    obtain ⟨inSource, noReport, noReturn⟩ := fromSource stmt stmtMem nonnull
    exact ⟨stmt_below_of_ehcOfHead inBody here inSource nonnull, noReport, noReturn⟩

theorem mem_findEhcNewStmtsLoop {earlier ehcs : List EHC} {ehc : EHC}
    (member : ehc ∈ findEhcNewStmtsLoop earlier ehcs) :
    ∃ source ∈ ehcs, ∃ before, ehc =
      { source with ehcNewStmts := source.ehcNewStmts ++ collectNewStmts before source.ehcStmts } := by
  induction ehcs generalizing earlier with
  | nil => exact absurd member List.not_mem_nil
  | cons first rest ih =>
      rw [findEhcNewStmtsLoop] at member
      rcases List.mem_cons.mp member with rfl | inRest
      · exact ⟨first, List.mem_cons_self, earlier, rfl⟩
      · obtain ⟨source, sourceMem, isEhc⟩ := ih inRest
        exact ⟨source, List.mem_cons_of_mem _ sourceMem, isEhc⟩

theorem stmt_mem_of_mem_collectNewStmts {earlier : List EHC} {stmts : List Stmt}
    {newstmt : EHCNewStmt} (member : newstmt ∈ collectNewStmts earlier stmts) :
    newstmt.stmt ∈ stmts ∧ newstmt.stmt ≠ .null := by
  have isNew : newstmt.stmt ∈ (collectNewStmts earlier stmts).map EHCNewStmt.stmt :=
    List.mem_map_of_mem member
  rw [collectNewStmts_stmts, List.mem_filter, isBehindEmpty, Bool.and_eq_true] at isNew
  refine ⟨isNew.1, ?_⟩
  intro isNull
  rw [isNull] at isNew
  exact Bool.false_ne_true isNew.2.1

/-- The analysis of a function. -/
theorem analyse_spec {Body : Stmt} {TypeStr FuncName : String} {myfunction : Function}
    (analysed : analyse Body TypeStr FuncName = some myfunction) :
    myfunction.name = FuncName ∧ OneBlock myfunction.EHCs ∧
      ∀ ehc ∈ myfunction.EHCs, EHCAnalysed Body ehc := by
  obtain ⟨heads, cleaned, rest⟩ := Option.bind_eq_some_iff.mp analysed
  obtain ⟨ehcs, found, pairs⟩ := Option.bind_eq_some_iff.mp rest
  obtain ⟨paired, ranPairs, rfl⟩ := Option.map_eq_some_iff.mp pairs
  have filtered := @ehcFiltered_of_findEhcStmts Body TypeStr FuncName heads
    (fun head headMem => head_mem_of_cleanedHeads cleaned headMem) ehcs found
  have related := forall₂_findPairsLoop ranPairs
  refine ⟨rfl, ?_, ?_⟩
  · apply OneBlock.of_paired related
    exact oneBlock_findEhcNewStmtsLoop (by simp) fun ehc ehcMem => (filtered ehc ehcMem).fresh
  · intro ehc ehcMem
    obtain ⟨searched, searchedMem, isPaired⟩ := aligned_exists related.flip ehcMem
    have isPaired : EHCPaired Body searched ehc := isPaired
    obtain ⟨source, sourceMem, before, rfl⟩ := mem_findEhcNewStmtsLoop searchedMem
    have isFiltered := filtered source sourceMem
    have fromSource : ∀ newstmt ∈ ehc.ehcNewStmts, ∃ created, created.stmt ∈ source.ehcStmts ∧
        created.stmt ≠ .null ∧ PairFound Body source.head.headStmt.info.beginLoc.line created newstmt := by
      intro newstmt newMem
      obtain ⟨created, createdMem, pairFound⟩ := aligned_exists isPaired.pairs.flip newMem
      have createdMem : created ∈ source.ehcNewStmts ++ collectNewStmts before source.ehcStmts :=
        createdMem
      rw [isFiltered.fresh, List.nil_append] at createdMem
      obtain ⟨inStmts, nonnull⟩ := stmt_mem_of_mem_collectNewStmts createdMem
      exact ⟨created, inStmts, nonnull, pairFound⟩
    have isHead : ehc.head = source.head := isPaired.head
    constructor
    · rw [isHead]
      exact isFiltered.head
    · obtain ⟨found, ofHead, inFound⟩ := isFiltered.listed
      rw [isHead]
      refine ⟨found, ofHead, fun newstmt newMem => ?_⟩
      obtain ⟨created, inStmts, nonnull, pairFound⟩ := fromSource newstmt newMem
      rw [pairFound.stmt]
      exact inFound _ inStmts nonnull
    · intro newstmt newMem
      obtain ⟨created, inStmts, nonnull, pairFound⟩ := fromSource newstmt newMem
      rw [pairFound.stmt]
      exact (isFiltered.stmts _ inStmts nonnull).1
    · intro newstmt newMem
      obtain ⟨created, inStmts, nonnull, pairFound⟩ := fromSource newstmt newMem
      rw [pairFound.stmt]
      exact (isFiltered.stmts _ inStmts nonnull).2.1
    · intro newstmt newMem
      obtain ⟨created, inStmts, nonnull, pairFound⟩ := fromSource newstmt newMem
      rw [pairFound.stmt]
      exact (isFiltered.stmts _ inStmts nonnull).2.2
    · intro newstmt newMem
      obtain ⟨created, inStmts, nonnull, pairFound⟩ := fromSource newstmt newMem
      rw [isHead, pairFound.stmt]
      exact ⟨pairFound.below, pairFound.before, pairFound.isCandidate⟩

/-! ## The run over a translation unit -/

/-- A definition in the main file. -/
def isVisited (sm : SourceManager) (f : Pass2.FunctionDecl) : Bool :=
  f.hasBody && sm.isInMainFile f.beginLoc

/-- The work on a definition. -/
def listFunction (f : Pass2.FunctionDecl) (state : PluginState) : Option PluginState :=
  (analyse f.body f.typeStr f.name).map fun myfunction =>
    { listOfFunctions := state.listOfFunctions ++ [myfunction]
      database := state.database ++ writePairsToDatabase myfunction }

/-- The names of the functions that have been worked on. -/
def PluginState.names (state : PluginState) : List String := state.listOfFunctions.map Function.name

theorem visitFunctionDecl_eq (sm : SourceManager) :
    visitFunctionDecl sm =
      once (isVisited sm) Pass2.FunctionDecl.name PluginState.names listFunction := by
  funext f state
  rw [visitFunctionDecl, once, isVisited, PluginState.names, List.any_map]
  cases f.hasBody with
  | false => rfl
  | true =>
      cases sm.isInMainFile f.beginLoc with
      | false => rfl
      | true => rfl

theorem names_of_listFunction (f : Pass2.FunctionDecl) (state next : PluginState)
    (worked : listFunction f state = some next) : next.names = state.names ++ [f.name] := by
  obtain ⟨myfunction, analysed, rfl⟩ := Option.map_eq_some_iff.mp worked
  rw [PluginState.names, List.map_append, List.map_singleton, (analyse_spec analysed).1]
  rfl

/-- What a run of the work alone records. -/
theorem run_listFunction {decls : List Pass2.FunctionDecl} {source target : PluginState}
    (ran : run listFunction decls source = some target) :
    ∃ listed, List.Forall₂ (fun f myfunction => analyse f.body f.typeStr f.name = some myfunction)
        decls listed ∧
      target.listOfFunctions = source.listOfFunctions ++ listed ∧
      target.database = source.database ++ listed.flatMap writePairsToDatabase := by
  induction decls generalizing source with
  | nil =>
      cases ran
      exact ⟨[], .nil, by simp, by simp⟩
  | cons f rest ih =>
      obtain ⟨middle, worked, later⟩ := (run_cons_eq_some_iff _ _ _ _ _).mp ran
      obtain ⟨myfunction, analysed, rfl⟩ := Option.map_eq_some_iff.mp worked
      obtain ⟨listed, related, functions, lines⟩ := ih later
      refine ⟨myfunction :: listed, .cons analysed related, ?_, ?_⟩
      · rw [functions, List.append_assoc, List.singleton_append]
      · rw [lines, List.append_assoc, List.flatMap_cons]

/-- The functions that a run over a translation unit works on. -/
theorem run_visitFunctionDecl {sm : SourceManager} {decls : List Pass2.FunctionDecl}
    {state : PluginState} (ran : run (visitFunctionDecl sm) decls {} = some state) :
    List.Forall₂ (fun f myfunction => analyse f.body f.typeStr f.name = some myfunction)
        (firstByKey Pass2.FunctionDecl.name (decls.filter (isVisited sm))) state.listOfFunctions ∧
      state.database = state.listOfFunctions.flatMap writePairsToDatabase := by
  rw [visitFunctionDecl_eq, run_once names_of_listFunction] at ran
  have allPending : pending (isVisited sm) Pass2.FunctionDecl.name
      (PluginState.names {}) decls = decls.filter (isVisited sm) := by
    rw [pending, PluginState.names]
    simp
  rw [allPending] at ran
  obtain ⟨listed, related, functions, lines⟩ := run_listFunction ran
  have isListed : state.listOfFunctions = listed := functions
  rw [isListed]
  exact ⟨related, lines⟩

/-- The lines of one block: those of all its statements, in order. -/
theorem OneBlock.lines {ehcs : List EHC} (oneBlock : OneBlock ehcs) :
    (ehcs.flatMap fun ehc => ehc.ehcNewStmts.filterMap databaseLine) = [] ∧
        (∀ ehc ∈ ehcs, Pass2.nonNulls ehc.ehcStmts = []) ∨
      ∃ before ehc after, ehcs = before ++ ehc :: after ∧
        (∀ other ∈ before, Pass2.nonNulls other.ehcStmts = []) ∧
        ehc.ehcNewStmts.map EHCNewStmt.stmt = Pass2.nonNulls ehc.ehcStmts ∧
        (ehcs.flatMap fun ehc => ehc.ehcNewStmts.filterMap databaseLine) =
          ehc.ehcNewStmts.filterMap databaseLine := by
  induction oneBlock with
  | nil => exact Or.inl ⟨rfl, by simp⟩
  | skip ehc rest noStmts noNew _ ih =>
      rw [List.flatMap_cons, noNew, List.filterMap_nil, List.nil_append]
      rcases ih with ⟨noLines, empty⟩ | ⟨before, own, after, rfl, empty, stmts, lines⟩
      · exact Or.inl ⟨noLines, List.forall_mem_cons.mpr ⟨noStmts, empty⟩⟩
      · exact Or.inr ⟨ehc :: before, own, after, rfl, List.forall_mem_cons.mpr ⟨noStmts, empty⟩,
          stmts, lines⟩
  | found ehc rest hasStmt stmts noNew =>
      refine Or.inr ⟨[], ehc, rest, rfl, by simp, stmts, ?_⟩
      have noLines : (rest.flatMap fun other => other.ehcNewStmts.filterMap databaseLine) = [] := by
        rw [List.flatMap_eq_nil_iff]
        intro other otherMem
        rw [noNew other otherMem]
        rfl
      rw [List.flatMap_cons, noLines, List.append_nil]

/-- Every line that a run writes names a function that a statement of an error-handling block
calls, in a function of the main file, and then a function that its pair calls, or nothing where
the search finds no call in the pair; the pair stands in the same function before the block.
The statement is one that `find_ehc_stmts` lists for the block, no `return`, and reports and
prints nothing. -/
theorem run_lines_sound (sm : SourceManager) (decls : List Pass2.FunctionDecl)
    (state : PluginState) (ran : run (visitFunctionDecl sm) decls {} = some state)
    (line : String) (written : line ∈ state.database) :
    ∃ f ∈ decls, f.hasBody = true ∧ sm.isInMainFile f.beginLoc = true ∧
      ∃ head ∈ recursiveVisitIf f.body, ∃ ehc, ehcOfHead f.body head = some ehc ∧
        ∃ stmt ∈ ehc.ehcStmts, ∃ pair ∈ f.body.descendants,
          stmt ∈ f.body.descendants ∧
          isReport stmt = false ∧ Pass2.contains stmt.info.printed "print" = false ∧
          stmt.isReturn = false ∧
          pair.info.beginLoc.line < head.headStmt.info.beginLoc.line ∧
          Pass2.isPairCandidate stmt pair = true ∧
          ∃ n ∈ stmt.nodes, ∃ fncname pairname, n.directCallee = some fncname ∧
            NamesCall pair pairname ∧ line = fncname ++ "," ++ pairname ++ "\n" := by
  obtain ⟨related, lines⟩ := run_visitFunctionDecl ran
  rw [lines] at written
  obtain ⟨myfunction, listed, inFunction⟩ := List.mem_flatMap.mp written
  obtain ⟨f, fMem, analysed⟩ := aligned_exists related.flip listed
  obtain ⟨fDecl, isVisited_⟩ := List.mem_filter.mp ((firstByKey_sublist _).subset fMem)
  rw [isVisited, Bool.and_eq_true] at isVisited_
  obtain ⟨ehc, ehcMem, newstmt, newMem, noPrint, n, nMem, fncname, callee, isLine⟩ :=
    exists_call_of_line inFunction
  have known := (analyse_spec analysed).2.2 ehc ehcMem
  obtain ⟨found, ofHead, inFound⟩ := known.listed
  obtain ⟨pairBelow, pairBefore, isCandidate⟩ := known.pair newstmt newMem
  exact ⟨f, fDecl, isVisited_.1, isVisited_.2, ehc.head, known.head, found, ofHead, newstmt.stmt,
    inFound newstmt newMem, newstmt.pair, pairBelow, known.below newstmt newMem,
    known.noReport newstmt newMem, noPrint, known.noReturn newstmt newMem, pairBefore, isCandidate,
    n, nMem, fncname, _, callee, namesCall_findFncName newstmt.pair, isLine⟩

/-! ## A function with a lock -/

/-- `int probe() { mutex_lock(l); if (n < 0) { mutex_unlock(l); } if (m < 0) { kfree(b); } }` -/
def lockedDecl : Pass2.FunctionDecl where
  hasBody := true
  beginLoc := ⟨0, 1, false⟩
  body := Build.block 1 12 1 140 9
    [Build.callOf 2 20 2 "mutex_lock" "l",
      Build.ifOf 5 40 (Build.lessZero 6 44 3 "n")
        (Build.block 9 50 3 80 5 [Build.callOf 10 60 4 "mutex_unlock" "l"]),
      Build.ifOf 13 90 (Build.lessZero 14 94 6 "m")
        (Build.block 17 100 6 130 8 [Build.callOf 18 110 7 "kfree" "b"])]
  typeStr := "int"
  name := "probe"

/-- The function is defined twice and has two blocks, and gets one line. -/
theorem lines_lockedDecl :
    (run (visitFunctionDecl Build.shortTokens) [lockedDecl, lockedDecl] {}).map
      (fun state => (state.database, state.listOfFunctions.map fun f => f.EHCs.length)) =
        some (["mutex_unlock,mutex_lock\n"], [2]) := by
  decide +kernel

theorem run_lines_sound_locked :
    ∃ f ∈ [lockedDecl, lockedDecl], ∃ head ∈ recursiveVisitIf f.body, ∃ ehc,
      ehcOfHead f.body head = some ehc ∧ ∃ stmt ∈ ehc.ehcStmts, isReport stmt = false ∧
        ∃ n ∈ stmt.nodes, ∃ fncname, n.directCallee = some fncname := by
  obtain ⟨state, ran, lines⟩ := Option.map_eq_some_iff.mp lines_lockedDecl
  have written : "mutex_unlock,mutex_lock\n" ∈ state.database := by
    rw [(Prod.mk.inj lines).1]
    exact List.mem_singleton_self _
  obtain ⟨f, fMem, _, _, head, headMem, ehc, ofHead, stmt, stmtMem, _, _, _, noReport, _, _, _, _,
    n, nMem, fncname, _, callee, _⟩ :=
    run_lines_sound Build.shortTokens [lockedDecl, lockedDecl] state ran _ written
  exact ⟨f, fMem, head, headMem, ehc, ofHead, stmt, stmtMem, noReport, n, nMem, fncname, callee⟩

end Hecaton.DatabasePlugin
