import Hecaton.Clang.SourceManager
import Hecaton.Library.BitMask
import Hecaton.Pass2.ParentSearch
import Hecaton.Pass2.Text

/-!
# Where the gotos go

The pass writes an `hgoto` behind every opening brace below the body and behind
the statements that end with a semicolon.  Of two such statements that begin or
end on one line only the first gets one, and a line with a `return`, a
declaration or the like gets none.
-/

namespace Hecaton.Pass2

open Hecaton.Clang
open Hecaton.Library

/-- What the pass writes into the body: a jump to the cleanup code in case of a
reset, or an update of the pair mask. -/
inductive Piece
  | hgoto
  | stamp (update : BitMask.Update 64)
  deriving DecidableEq

/-- A piece and the place it is written to.  Pieces for one place are written one
behind the other. -/
structure Insertion where
  loc : SourceLocation
  piece : Piece
  deriving DecidableEq

/-- Behind the opening brace. -/
def afterBrace (s : Stmt) : SourceLocation := s.lBracLoc.getLocWithOffset 1

/-! ## Conditions as text -/

/-- The text of a condition that `stmt_in_parent_condintion` searches. -/
def parentCondStr (parent : Stmt) : String :=
  if parent.isIf then parent.ifCond.info.text
  else if parent.isFor then
    let str := if parent.forInit.isNull then "" else parent.forInit.info.text
    let str := if parent.forCond.isNull then str else str ++ " ; " ++ parent.forCond.info.text
    if parent.forInc.isNull then str else str ++ " ; " ++ parent.forInc.info.text
  else parent.whileCond.info.text

/-- `stmt_in_parent_condintion`: the statement's text occurs in the condition. -/
def stmtInParentCondition (pair parent : Stmt) : Bool :=
  isConditional parent && contains (parentCondStr parent) pair.info.text

/-! ## Gotos behind braces -/

mutual

/-- `insert_gotos_blocks`. -/
def insertGotosBlocks : Stmt → List Insertion
  | .null => []
  | .node _ _ children => insertGotosBlocksLoop children

/-- The loop of `insert_gotos_blocks` over the children. -/
def insertGotosBlocksLoop : List Stmt → List Insertion
  | [] => []
  | currStmt :: rest =>
      (if currStmt.isCompound then [⟨afterBrace currStmt, .hgoto⟩] else []) ++
        insertGotosBlocks currStmt ++ insertGotosBlocksLoop rest

end

/-! ## Gotos behind statements -/

/-- `gotosInsertLoc`. -/
structure GotosInsertLoc where
  stmt : Stmt
  start : SourceLocation
  «end» : SourceLocation
  aftersemi : SourceLocation
  shouldErase : Bool := false

/-- `gotos_should_insert` and `gotos_shouldnt_insert`. -/
structure GotosLists where
  shouldInsert : List GotosInsertLoc := []
  shouldntInsert : List GotosInsertLoc := []

/-- No goto goes behind these statements, nor behind what stands in a condition. -/
def isGotoExcluded (Body currStmt : Stmt) : Bool :=
  !currStmt.info.beginLoc.isMacroID &&
    (currStmt.isReturn || currStmt.isContinue || currStmt.isBreak || currStmt.isDecl ||
      currStmt.isGoto || currStmt.isFor ||
      stmtInParentCondition currStmt (findParentRecursive currStmt Body))

/-- What `gotosVisit` does at one statement that ends in the main file. -/
def gotosVisitStmt (Body currStmt : Stmt) (aftersemi : SourceLocation) (lists : GotosLists) :
    GotosLists :=
  let gtil : GotosInsertLoc :=
    { stmt := currStmt
      start := currStmt.info.beginLoc
      «end» := currStmt.info.endLoc
      aftersemi := aftersemi }
  if isGotoExcluded Body currStmt then
    { lists with shouldntInsert := lists.shouldntInsert ++ [gtil] }
  else if !aftersemi.isMacroID && currStmt.info.textSemi.toList.getLast? == some ';' then
    { lists with shouldInsert := lists.shouldInsert ++ [gtil] }
  else lists

mutual

/-- `gotosVisit`. -/
def gotosVisit (sm : SourceManager) (Body : Stmt) : Stmt → GotosLists → GotosLists
  | .null, lists => lists
  | .node _ _ children, lists => gotosVisitLoop sm Body children lists

/-- The loop of `gotosVisit` over the children.  What ends outside the main file
is passed over with all that is below it. -/
def gotosVisitLoop (sm : SourceManager) (Body : Stmt) : List Stmt → GotosLists → GotosLists
  | [], lists => lists
  | currStmt :: rest, lists =>
      if currStmt.isNull then gotosVisitLoop sm Body rest lists
      else
        match sm.recursiveGetEnd currStmt with
        | none => gotosVisitLoop sm Body rest lists
        | some aftersemi =>
            if sm.isInMainFile aftersemi then
              gotosVisitLoop sm Body rest
                (gotosVisit sm Body currStmt (gotosVisitStmt Body currStmt aftersemi lists))
            else gotosVisitLoop sm Body rest lists

end

/-- The two statements end on one line or begin on one line. -/
def GotosInsertLoc.sharesLine (gtil gtil2 : GotosInsertLoc) : Bool :=
  gtil.end.line == gtil2.end.line || gtil.start.line == gtil2.start.line

/-- Mark the places that share a line with `gtil`. -/
def markShared (gtil : GotosInsertLoc) (gtils : List GotosInsertLoc) : List GotosInsertLoc :=
  gtils.map fun gtil2 => if gtil.sharesLine gtil2 then { gtil2 with shouldErase := true } else gtil2

/-- The first loop of `insert_gotos`: later places on the line of an earlier one.
No test reads a mark, so the rounds may be made in any order. -/
def markLater : List GotosInsertLoc → List GotosInsertLoc
  | [] => []
  | gtil :: rest => gtil :: markShared gtil (markLater rest)

/-- The second loop of `insert_gotos`: places on the line of an excluded one. -/
def markExcluded (gtils : List GotosInsertLoc) : List GotosInsertLoc → List GotosInsertLoc
  | [] => gtils
  | gtil :: rest => markExcluded (markShared gtil gtils) rest

/-- The third loop of `insert_gotos`. -/
def eraseMarked (gtils : List GotosInsertLoc) : List GotosInsertLoc :=
  gtils.filter fun gtil => !gtil.shouldErase

/-- `insert_gotos`. -/
def insertGotos (sm : SourceManager) (FuncBody : Stmt) : List Insertion :=
  let lists := gotosVisit sm FuncBody FuncBody {}
  (eraseMarked (markExcluded (markLater lists.shouldInsert) lists.shouldntInsert)).map
    fun gtil => ⟨gtil.aftersemi, .hgoto⟩

/-! ## Which statements keep their goto -/

theorem piece_of_mem_insertGotosBlocks {s : Stmt} {insertion : Insertion}
    (written : insertion ∈ insertGotosBlocks s) : insertion.piece = .hgoto := by
  induction s using Stmt.tree_induction with
  | null => simp [insertGotosBlocks] at written
  | node info cls children ih =>
      simp only [insertGotosBlocks] at written
      induction children with
      | nil => simp [insertGotosBlocksLoop] at written
      | cons currStmt rest ihRest =>
          simp only [insertGotosBlocksLoop, List.mem_append] at written
          rcases written with (brace | below) | inRest
          · split at brace
            · rw [List.mem_singleton.mp brace]
            · exact absurd brace List.not_mem_nil
          · exact ih currStmt List.mem_cons_self below
          · exact ihRest (fun child childMem => ih child (List.mem_cons_of_mem _ childMem)) inRest

theorem piece_of_mem_insertGotos {sm : SourceManager} {FuncBody : Stmt} {insertion : Insertion}
    (written : insertion ∈ insertGotos sm FuncBody) : insertion.piece = .hgoto := by
  obtain ⟨gtil, _, rfl⟩ := List.mem_map.mp written
  rfl

/-- No place is marked yet. -/
def Unmarked (gtils : List GotosInsertLoc) : Prop := ∀ gtil ∈ gtils, gtil.shouldErase = false

theorem unmarked_gotosVisitStmt {Body currStmt : Stmt} {aftersemi : SourceLocation}
    {lists : GotosLists} (unmarked : Unmarked lists.shouldInsert) :
    Unmarked (gotosVisitStmt Body currStmt aftersemi lists).shouldInsert := by
  simp only [gotosVisitStmt]
  split
  · exact unmarked
  · split
    · intro gtil gtilMem
      rcases List.mem_append.mp gtilMem with old | new
      · exact unmarked gtil old
      · rw [List.mem_singleton.mp new]
    · exact unmarked

theorem unmarked_gotosVisit {sm : SourceManager} {Body s : Stmt} {lists : GotosLists}
    (unmarked : Unmarked lists.shouldInsert) :
    Unmarked (gotosVisit sm Body s lists).shouldInsert := by
  induction s using Stmt.tree_induction generalizing lists with
  | null => simpa [gotosVisit] using unmarked
  | node info cls children ih =>
      simp only [gotosVisit]
      induction children generalizing lists with
      | nil => simpa [gotosVisitLoop] using unmarked
      | cons currStmt rest ihRest =>
          have later : ∀ {lists : GotosLists}, Unmarked lists.shouldInsert →
              Unmarked (gotosVisitLoop sm Body rest lists).shouldInsert := fun unmarked =>
            ihRest (fun child childMem => ih child (List.mem_cons_of_mem _ childMem)) unmarked
          simp only [gotosVisitLoop]
          split
          · exact later unmarked
          · split
            · exact later unmarked
            · split
              · exact later (ih currStmt List.mem_cons_self (unmarked_gotosVisitStmt unmarked))
              · exact later unmarked

theorem eraseMarked_markShared (gtil : GotosInsertLoc) (gtils : List GotosInsertLoc) :
    eraseMarked (markShared gtil gtils) =
      (eraseMarked gtils).filter fun gtil2 => !gtil.sharesLine gtil2 := by
  induction gtils with
  | nil => rfl
  | cons gtil2 rest ih =>
      simp only [eraseMarked, markShared, List.map_cons] at ih ⊢
      cases shared : gtil.sharesLine gtil2 with
      | true =>
          simp only [if_true, Bool.not_true, Bool.false_eq_true, not_false_eq_true,
            List.filter_cons_of_neg, ih]
          cases marked : gtil2.shouldErase <;> simp [marked, shared]
      | false =>
          cases marked : gtil2.shouldErase <;> simp [marked, shared, ih]

/-- The candidate shares no line with an earlier candidate. -/
theorem mem_eraseMarked_markLater {gtils : List GotosInsertLoc} (unmarked : Unmarked gtils)
    {gtil : GotosInsertLoc} :
    gtil ∈ eraseMarked (markLater gtils) ↔
      ∃ pre post, gtils = pre ++ gtil :: post ∧ ∀ earlier ∈ pre, earlier.sharesLine gtil = false := by
  induction gtils with
  | nil => simp [markLater, eraseMarked]
  | cons first rest ih =>
      have ih := ih fun other otherMem => unmarked other (List.mem_cons_of_mem _ otherMem)
      have kept : eraseMarked (markLater (first :: rest)) =
          first :: (eraseMarked (markLater rest)).filter fun gtil2 => !first.sharesLine gtil2 := by
        rw [← eraseMarked_markShared]
        simp [markLater, eraseMarked, unmarked first List.mem_cons_self]
      rw [kept, List.mem_cons, List.mem_filter, ih]
      constructor
      · rintro (rfl | ⟨⟨pre, post, rfl, apart⟩, notFirst⟩)
        · exact ⟨[], rest, rfl, by simp⟩
        · refine ⟨first :: pre, post, rfl, ?_⟩
          intro earlier earlierMem
          rcases List.mem_cons.mp earlierMem with rfl | inPre
          · simpa using notFirst
          · exact apart earlier inPre
      · rintro ⟨pre, post, split, apart⟩
        cases pre with
        | nil =>
            cases split
            exact Or.inl rfl
        | cons _ pre =>
            cases split
            refine Or.inr ⟨⟨pre, post, rfl, ?_⟩, ?_⟩
            · intro earlier earlierMem
              exact apart earlier (List.mem_cons_of_mem _ earlierMem)
            · simpa using apart first List.mem_cons_self

theorem mem_eraseMarked_markExcluded {gtils excluded : List GotosInsertLoc}
    {gtil : GotosInsertLoc} :
    gtil ∈ eraseMarked (markExcluded gtils excluded) ↔
      gtil ∈ eraseMarked gtils ∧ ∀ other ∈ excluded, other.sharesLine gtil = false := by
  induction excluded generalizing gtils with
  | nil => simp [markExcluded]
  | cons first rest ih =>
      rw [markExcluded, ih, eraseMarked_markShared, List.mem_filter]
      simp [and_assoc]

/-- A candidate for `place` exists that neither an earlier candidate nor an
excluded statement shares a line with. -/
def KeepsGoto (sm : SourceManager) (FuncBody : Stmt) (place : SourceLocation) : Prop :=
  ∃ pre gtil post, (gotosVisit sm FuncBody FuncBody {}).shouldInsert = pre ++ gtil :: post ∧
    gtil.aftersemi = place ∧ (∀ earlier ∈ pre, earlier.sharesLine gtil = false) ∧
    ∀ other ∈ (gotosVisit sm FuncBody FuncBody {}).shouldntInsert, other.sharesLine gtil = false

theorem mem_insertGotos {sm : SourceManager} {FuncBody : Stmt} {place : SourceLocation} :
    ⟨place, .hgoto⟩ ∈ insertGotos sm FuncBody ↔ KeepsGoto sm FuncBody place := by
  have unmarked : Unmarked (gotosVisit sm FuncBody FuncBody {}).shouldInsert :=
    unmarked_gotosVisit (by simp [Unmarked])
  simp only [insertGotos, List.mem_map, Insertion.mk.injEq, and_true,
    mem_eraseMarked_markExcluded, mem_eraseMarked_markLater unmarked]
  constructor
  · rintro ⟨gtil, ⟨⟨pre, post, split, apart⟩, notExcluded⟩, atPlace⟩
    exact ⟨pre, gtil, post, split, atPlace, apart, notExcluded⟩
  · rintro ⟨pre, gtil, post, split, atPlace, apart, notExcluded⟩
    exact ⟨gtil, ⟨⟨pre, post, split, apart⟩, notExcluded⟩, atPlace⟩

end Hecaton.Pass2
