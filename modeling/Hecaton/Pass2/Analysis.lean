import Hecaton.Pass2.Filters
import Hecaton.Pass2.GotoResolution
import Hecaton.Pass2.Heads
import Hecaton.Pass2.MaskIds
import Hecaton.Pass2.Maybe
import Hecaton.Pass2.NewStmts
import Hecaton.Pass2.OuterEhcs

/-!
# The analysis of a function

The steps of `VisitFunctionDecl` that decide which statements the cleanup code
gets and under which identifiers.  The visits that only lower the confidence
score stand in a module of their own.
-/

namespace Hecaton.Pass2

open Hecaton.Clang
open Hecaton.Library

/-- `closing_indicator`. -/
def closingIndicator : List String :=
  ["remove", "release", "exit", "destroy", "disable", "unregister", "_put", "close", "unmap",
    "delete", "del_", "cleanup", "done", "shutdown", "deinit", "flush", "dequeue", "free",
    "clean_up", "showt_down", "unprepare", "power_off", "clean"]

/-- The steps that find the blocks of error-handling code and their statements.
`none` where goto resolution is undefined. -/
def findBlocks (db : Database) (gotostr : Stmt → String) (f : Function) : Option Function :=
  (findEhcStmts f.body (recursiveVisitIf gotostr f.body)).map fun ehcs =>
    handleReturn (handleCriticalSections (handleLoops (handleMaybe db
      (deleteBlacklistFunctions { f with EHCs := ehcs }))))

/-- The steps that take undo statements from the blocks and the body and give
them their identifiers. -/
def collectUndos (db : Database) (sm : SourceManager) (f : Function) : Function :=
  assignPairmaskId (findOuterEhcs db sm (findPairs (findEhcNewStmts f)))

/-- The analysis of a function.  A closing function is not analysed. -/
def analyse (db : Database) (sm : SourceManager) (gotostr : Stmt → String)
    (FuncBody : Stmt) (TypeStr FuncName : String) : Option Function :=
  let myfunction : Function :=
    { body := FuncBody
      typeStr := TypeStr
      name := FuncName
      isClosing := containsAny closingIndicator FuncName }
  if myfunction.isClosing then some myfunction
  else (findBlocks db gotostr myfunction).map (collectUndos db sm)

variable {db : Database} {sm : SourceManager} {gotostr : Stmt → String}

/-! ## Where statements come from -/

/-- Every statement of every EHC is null or a node below the body. -/
def StmtsBelow (Body : Stmt) (ehcs : List EHC) : Prop :=
  ∀ ehc ∈ ehcs, ∀ stmt ∈ ehc.ehcStmts, stmt ≠ .null → stmt ∈ Body.descendants

theorem Shrinks.stmtsBelow {Body : Stmt} {before after : List EHC} (shrinks : Shrinks before after)
    (below : StmtsBelow Body before) : StmtsBelow Body after := by
  intro ehc ehcMem stmt stmtMem nonnull
  obtain ⟨source, sourceMem, sub, _⟩ := shrinks ehc ehcMem
  exact below source sourceMem stmt (sub.subset stmtMem) nonnull

theorem Shrinks.fresh {before after : List EHC} (shrinks : Shrinks before after)
    (fresh : Fresh before) : Fresh after := by
  intro ehc ehcMem
  obtain ⟨source, sourceMem, _, same⟩ := shrinks ehc ehcMem
  exact same.trans (fresh source sourceMem)

theorem shrinks_handleMaybeLoop (counts : FncCounts) (ehcs : List EHC) :
    Shrinks ehcs (handleMaybeLoop db counts ehcs) := by
  induction ehcs generalizing counts with
  | nil =>
      intro ehc ehcMem
      simp [handleMaybeLoop] at ehcMem
  | cons first rest ih =>
      intro ehc ehcMem
      simp only [handleMaybeLoop] at ehcMem
      rcases List.mem_cons.mp ehcMem with rfl | inRest
      · refine ⟨first, List.mem_cons_self, ?_⟩
        simp only [handleMaybeEhc]
        split <;> exact ⟨List.Sublist.refl _, rfl⟩
      · obtain ⟨source, sourceMem, same⟩ := ih _ ehc inRest
        exact ⟨source, List.mem_cons_of_mem _ sourceMem, same⟩

theorem stripLabels_null_or_mem (s : Stmt) : stripLabels s = .null ∨ stripLabels s ∈ s.nodes := by
  induction s using Stmt.tree_induction with
  | null => exact Or.inl (by simp [stripLabels])
  | node info cls children ih =>
      simp only [stripLabels]
      split
      · cases children with
        | nil => exact Or.inl (by simp [stripFirstChild])
        | cons first rest =>
            rcases ih first List.mem_cons_self with isNull | inside
            · exact Or.inl isNull
            · exact Or.inr (by simp [stripFirstChild, inside])
      · exact Or.inr (by simp)

theorem mem_nodesOf_of_mem_scan {labelstm : Stmt} {start : Bool} {children : List Stmt}
    {stmt : Stmt} (scanned : stmt ∈ scanLabelParent labelstm start children)
    (nonnull : stmt ≠ .null) : stmt ∈ Stmt.nodesOf children := by
  induction children generalizing start with
  | nil => simp [scanLabelParent] at scanned
  | cons currStmt rest ih =>
      simp only [scanLabelParent] at scanned
      split at scanned
      · exact Stmt.mem_nodesOf.mpr (by
          obtain ⟨c, cMem, inside⟩ := Stmt.mem_nodesOf.mp (ih scanned)
          exact ⟨c, List.mem_cons_of_mem _ cMem, inside⟩)
      · rename_i present
        rw [Stmt.nodesOf_cons, List.mem_append]
        rcases List.mem_append.mp scanned with pushed | later
        · refine Or.inl ?_
          split at pushed
          · simp only [pushedStmts] at pushed
            split at pushed
            · split at pushed
              · simp at pushed
              · rw [List.mem_singleton.mp pushed] at nonnull ⊢
                exact (stripLabels_null_or_mem currStmt).resolve_left nonnull
            · rw [List.mem_singleton.mp pushed] at nonnull ⊢
              exact Stmt.self_mem_nodes nonnull
          · simp at pushed
        · exact Or.inr (ih later)

/-- The statements found for heads in the body lie below it. -/
theorem stmtsBelow_findEhcStmts {Body : Stmt} {heads : List EHCHead} {ehcs : List EHC}
    (headsBelow : ∀ head ∈ heads, head.headStmt ≠ .null → head.headStmt ∈ Body.descendants)
    (resolved : findEhcStmts Body heads = some ehcs) : StmtsBelow Body ehcs ∧ Fresh ehcs := by
  have ownBelow : ∀ head ∈ heads, ∀ own, ehcOfHead Body head = some own →
      ∀ ehc ∈ own, (∀ stmt ∈ ehc.ehcStmts, stmt ≠ .null → stmt ∈ Body.descendants) ∧
        ehc.ehcNewStmts = [] := by
    intro head headMem own ownEq ehc ehcMem
    have childBelow : ∀ stmt ∈ head.headStmt.children, stmt ≠ .null →
        stmt ∈ Body.descendants := by
      intro stmt stmtMem nonnull
      have headNonnull : head.headStmt ≠ .null := by
        intro isNull
        rw [isNull] at stmtMem
        simp [Stmt.children] at stmtMem
      exact Stmt.descendants_trans (Stmt.child_mem_descendants stmtMem nonnull)
        (Stmt.descendants_subset_nodes (headsBelow head headMem headNonnull))
    simp only [ehcOfHead, scanHead_eq] at ownEq
    split at ownEq
    · split at ownEq
      · cases ownEq
        simp at ehcMem
      · split at ownEq
        · exact absurd ownEq (by simp)
        · split at ownEq
          · exact absurd ownEq (by simp)
          · rename_i parentPresent
            cases ownEq
            rw [List.mem_singleton.mp ehcMem]
            refine ⟨?_, rfl⟩
            intro stmt stmtMem nonnull
            rcases List.mem_append.mp stmtMem with ofHead | scanned
            · exact childBelow stmt (List.mem_filter.mp ofHead).1 nonnull
            · have parentNonnull := fun isNull : findParentRecursive _ Body = .null => by
                rw [isNull] at parentPresent
                exact parentPresent rfl
              have parentMem := (findParentRecursive_sound rfl parentNonnull).1
              have inside := mem_nodesOf_of_mem_scan scanned nonnull
              exact Stmt.descendants_trans inside parentMem
    · split at ownEq
      · cases ownEq
        rw [List.mem_singleton.mp ehcMem]
        simp
      · split at ownEq
        · cases ownEq
          rw [List.mem_singleton.mp ehcMem]
          refine ⟨?_, rfl⟩
          intro stmt stmtMem nonnull
          exact childBelow stmt (List.mem_filter.mp stmtMem).1 nonnull
        · cases ownEq
          rw [List.mem_singleton.mp ehcMem]
          refine ⟨?_, rfl⟩
          intro stmt stmtMem nonnull
          rw [List.mem_singleton.mp stmtMem] at nonnull ⊢
          exact headsBelow head headMem nonnull
  constructor
  · intro ehc ehcMem
    obtain ⟨head, headMem, own, ownEq, inOwn⟩ := (ehcOfHead_of_mem resolved).2 ehc ehcMem
    exact (ownBelow head headMem own ownEq ehc inOwn).1
  · intro ehc ehcMem
    obtain ⟨head, headMem, own, ownEq, inOwn⟩ := (ehcOfHead_of_mem resolved).2 ehc ehcMem
    exact (ownBelow head headMem own ownEq ehc inOwn).2

/-- What the block steps hand on: the function itself, with fresh EHCs whose
statements lie below the body. -/
theorem findBlocks_spec {f g : Function} (found : findBlocks db gotostr f = some g) :
    g.body = f.body ∧ g.isClosing = f.isClosing ∧ g.outerEHCs = f.outerEHCs ∧
      StmtsBelow f.body g.EHCs ∧ Fresh g.EHCs := by
  obtain ⟨ehcs, resolved, rfl⟩ := Option.map_eq_some_iff.mp found
  have headsBelow : ∀ head ∈ recursiveVisitIf gotostr f.body, head.headStmt ≠ .null →
      head.headStmt ∈ f.body.descendants := fun head headMem nonnull =>
    headStmt_mem_descendants headMem nonnull
  obtain ⟨below, fresh⟩ := stmtsBelow_findEhcStmts headsBelow resolved
  have shrinks : Shrinks ehcs (handleReturn (handleCriticalSections (handleLoops (handleMaybe db
      (deleteBlacklistFunctions { f with EHCs := ehcs }))))).EHCs := by
    apply Shrinks.trans _ (shrinks_handleReturn _)
    apply Shrinks.trans _ (shrinks_eraseStmts _ _)
    apply Shrinks.trans _ (shrinks_eraseStmts _ _)
    apply Shrinks.trans _ (shrinks_handleMaybeLoop _ _)
    exact shrinks_eraseStmts _ _
  exact ⟨rfl, rfl, rfl, shrinks.stmtsBelow below, shrinks.fresh fresh⟩

/-! ## What the undo steps record -/

/-- The texts of the calls that become outer EHCs. -/
def outerTexts (db : Database) (Body : Stmt) : List String := (outerCalls db Body).map stmtText

/-- An analysed EHC against the block it comes from, which stood behind the
blocks `pre`: it has new statements for what is taken from the block, and leaves
those to the outer EHCs that have the text of one, or that have a pair. -/
structure Records (db : Database) (Body : Stmt) (pre : List EHC) (source ehc : EHC) : Prop where
  stmts : ehc.ehcStmts = source.ehcStmts
  taken : ehc.ehcNewStmts.map EHCNewStmt.stmt = takenStmts Body pre source
  outer : ∀ newstmt ∈ ehc.ehcNewStmts, newstmt.text ∈ outerTexts db Body →
    newstmt.isOuter = true
  reason : ∀ newstmt ∈ ehc.ehcNewStmts, newstmt.isOuter = true →
    newstmt.text ∈ outerTexts db Body ∨
      ∃ fncname ∈ pairedUndoFncs, newstmt.stmt.directCallee = some fncname

/-- Identifiers do not matter to what an EHC records. -/
theorem Records.of_withoutIds {Body : Stmt} {pre : List EHC} {source first second : EHC}
    (same : first.withoutIds = second.withoutIds) (records : Records db Body pre source first) :
    Records db Body pre source second := by
  have newSame : first.ehcNewStmts.map EHCNewStmt.withoutId =
      second.ehcNewStmts.map EHCNewStmt.withoutId := congrArg EHC.ehcNewStmts same
  have stmtsOf : ∀ newStmts : List EHCNewStmt, newStmts.map EHCNewStmt.stmt =
      (newStmts.map EHCNewStmt.withoutId).map EHCNewStmt.stmt := by
    intro newStmts
    rw [List.map_map]
    rfl
  have partner : ∀ newstmt ∈ second.ehcNewStmts, ∃ other ∈ first.ehcNewStmts,
      other.stmt = newstmt.stmt ∧ other.isOuter = newstmt.isOuter := by
    intro newstmt newMem
    have inSecond := List.mem_map_of_mem (f := EHCNewStmt.withoutId) newMem
    rw [← newSame] at inSecond
    obtain ⟨other, otherMem, equal⟩ := List.mem_map.mp inSecond
    have stmtEq : other.withoutId.stmt = newstmt.withoutId.stmt := by rw [equal]
    have outerEq : other.withoutId.isOuter = newstmt.withoutId.isOuter := by rw [equal]
    exact ⟨other, otherMem, stmtEq, outerEq⟩
  constructor
  · exact (congrArg EHC.ehcStmts same).symm.trans records.stmts
  · rw [stmtsOf, ← newSame, ← stmtsOf]
    exact records.taken
  · intro newstmt newMem listed
    obtain ⟨other, otherMem, stmtEq, outerEq⟩ := partner newstmt newMem
    rw [← outerEq]
    apply records.outer other otherMem
    rw [EHCNewStmt.text, stmtEq]
    exact listed
  · intro newstmt newMem isOuter
    obtain ⟨other, otherMem, stmtEq, outerEq⟩ := partner newstmt newMem
    have found := records.reason other otherMem (outerEq.trans isOuter)
    rwa [EHCNewStmt.text, stmtEq] at found

/-- Every analysed EHC records what is taken from its block. -/
theorem records_collectUndos {f : Function} (fresh : Fresh f.EHCs) {ehc : EHC}
    (ehcMem : ehc ∈ (collectUndos db sm f).EHCs) :
    ∃ pre source post, f.EHCs = pre ++ source :: post ∧ Records db f.body pre source ehc := by
  have withoutIds := List.mem_map_of_mem (f := EHC.withoutIds) ehcMem
  rw [collectUndos, assignPairmaskId_EHCs, findOuterEhcs_EHCs] at withoutIds
  obtain ⟨left, leftMem, same⟩ := List.mem_map.mp withoutIds
  obtain ⟨paired, pairedMem, rfl⟩ := List.mem_map.mp leftMem
  obtain ⟨index, bound, rfl⟩ := List.mem_mapIdx.mp pairedMem
  have takenMem := List.getElem_mem bound
  generalize (findEhcNewStmts f).EHCs[index] = taken at takenMem same
  obtain ⟨pre, source, post, split, rfl⟩ := mem_findEhcNewStmtsLoop.mp takenMem
  refine ⟨pre, source, post, split, Records.of_withoutIds same ?_⟩
  have sourceFresh : source.ehcNewStmts = [] := fresh source (by simp [split])
  have newStmts := @findNewStmtsOf_newStmts f.body pre source sourceFresh
  constructor
  · simp only [EHC.leaveToOuter, findNewStmtsOf]
    split <;> rfl
  · simp only [EHC.leaveToOuter, List.map_map, List.nil_append] at newStmts ⊢
    rw [newStmts, List.map_map]
    refine (List.map_congr_left ?_).trans (List.map_id _)
    intro stmt _
    exact findPair_stmt _ _ _ _
  · intro newstmt newMem listed
    simp only [EHC.leaveToOuter, List.map_map] at newMem
    obtain ⟨created, _, rfl⟩ := List.mem_map.mp newMem
    simp only [Function.comp, leaveToOuter, Bool.or_eq_true, List.contains_iff_mem]
    exact Or.inr listed
  · intro newstmt newMem isOuter
    simp only [EHC.leaveToOuter, List.map_map] at newMem
    obtain ⟨created, _, rfl⟩ := List.mem_map.mp newMem
    simp only [Function.comp, leaveToOuter, Bool.or_eq_true, List.contains_iff_mem] at isOuter ⊢
    rcases isOuter with hasPair | listed
    · refine Or.inr ?_
      rw [findPair_stmt]
      exact directCallee_of_findPair hasPair
    · exact Or.inl listed

theorem findEhcNewStmtsLoop_length {Body : Stmt} (earlier ehcs : List EHC) :
    (findEhcNewStmtsLoop Body earlier ehcs).length = ehcs.length := by
  induction ehcs generalizing earlier with
  | nil => rfl
  | cons ehc rest ih => simp [findEhcNewStmtsLoop, ih]

theorem collectUndos_EHCs_length (db : Database) (sm : SourceManager) (f : Function) :
    (collectUndos db sm f).EHCs.length = f.EHCs.length := by
  have assigned := congrArg List.length
    (assignPairmaskId_EHCs (findOuterEhcs db sm (findPairs (findEhcNewStmts f))))
  rw [List.length_map, List.length_map, findOuterEhcs_EHCs, List.length_map] at assigned
  rw [collectUndos, assigned]
  simp only [findPairs, List.length_mapIdx]
  exact findEhcNewStmtsLoop_length [] f.EHCs

/-- The undo steps only change the EHCs, the outer EHCs and the score. -/
theorem collectUndos_fields (db : Database) (sm : SourceManager) (f : Function) :
    (collectUndos db sm f).body = f.body ∧ (collectUndos db sm f).isClosing = f.isClosing ∧
      (collectUndos db sm f).name = f.name ∧ (collectUndos db sm f).typeStr = f.typeStr := by
  have assigned : ∀ g : Function, (assignPairmaskId g).body = g.body ∧
      (assignPairmaskId g).isClosing = g.isClosing ∧ (assignPairmaskId g).name = g.name ∧
      (assignPairmaskId g).typeStr = g.typeStr := by
    intro g
    simp [assignPairmaskId]
  have outer : ∀ g : Function, (findOuterEhcs db sm g).body = g.body ∧
      (findOuterEhcs db sm g).isClosing = g.isClosing ∧ (findOuterEhcs db sm g).name = g.name ∧
      (findOuterEhcs db sm g).typeStr = g.typeStr := by
    intro g
    simp [findOuterEhcs, findOuterEhcsPairs, handleOuterEhcsDuplicates]
  rw [collectUndos]
  obtain ⟨body, isClosing, name, typeStr⟩ :=
    assigned (findOuterEhcs db sm (findPairs (findEhcNewStmts f)))
  obtain ⟨body', isClosing', name', typeStr'⟩ := outer (findPairs (findEhcNewStmts f))
  exact ⟨body.trans body', isClosing.trans isClosing', name.trans name', typeStr.trans typeStr'⟩

/-- The outer EHCs of the analysed function. -/
theorem collectUndos_outerEHCs (db : Database) (sm : SourceManager) (f : Function) :
    (collectUndos db sm f).outerEHCs.map OuterEHC.stmt =
      firstByKey stmtText (outerCalls db f.body) := by
  have same := congrArg (List.map OuterEHC.stmt)
    (assignPairmaskId_outerEHCs (findOuterEhcs db sm (findPairs (findEhcNewStmts f))))
  rw [List.map_map, List.map_map] at same
  exact same.trans (findOuterEhcs_stmts _)

end Hecaton.Pass2
