import Hecaton.Library.Run
import Hecaton.Pass2.CodePieces

/-!
# A translation unit

`VisitFunctionDecl` for one function definition after the other.  The number of a
function's label is a counter that all functions share, and so is the number of jumps.
-/

namespace Hecaton.Pass2

open Hecaton.Clang
open Hecaton.Library

/-- A function declaration, with the body that `getBody` returns. -/
structure FunctionDecl where
  hasBody : Bool
  beginLoc : SourceLocation
  body : Stmt
  typeStr : String
  name : String

/-- What the compiler and the generated headers give the pass. -/
structure Compiler where
  sm : SourceManager
  expansionBegin : SourceLocation → SourceLocation
  rewriter : Rewriter
  gotostr : Stmt → String
  db : Database
  whiteList : List String

/-- What the pass has written for a function: its insertions up to the cleanup code, and
the cleanup code. -/
structure FunctionText where
  functionTag : Nat
  body : Stmt
  inserted : List CodeInsertion
  cleanup : CodeInsertion

/-- All code that has been inserted for a function. -/
def FunctionText.pieces (text : FunctionText) : List CodePiece :=
  text.inserted.flatMap CodeInsertion.code ++ text.cleanup.code

/-- The global variables of the pass. -/
structure PassState where
  functionTag : Nat := 0
  numberOfGotos : Nat := 0
  firstFunction : Bool := true
  listOfFunctions : List Function := []
  texts : List FunctionText := []

/-! ## The insertions for one function -/

/-- The declarations in front of the first function. -/
def globalDecls (compiler : Compiler) (f : FunctionDecl) : List CodeInsertion :=
  let ST := if f.beginLoc.isMacroID then compiler.expansionBegin f.beginLoc else f.beginLoc
  [⟨ST, [.code ("/*Hecaton global decl*/\n" ++ "#include <linux/sched.h>\n" ++
      "#include <linux/hardirq.h>\n" ++ "#include <linux/reboot.h>\n" ++
      "#include <linux/delay.h>\n" ++ "extern int hecaton_global_check;\n")]⟩,
    ⟨ST, [.code
      "#define hgoto(x) if(unlikely(current->hf))\x7b if(likely(!in_interrupt()))\x7b goto x;\x7d\x7d\n"]⟩,
    ⟨ST, [.code ("#define hecaton_set_bit(a,b)" ++ "\ta|=b \n")]⟩,
    ⟨ST, [.code ("#define hecaton_unset_bit(a,b)" ++ "\ta&=~b\n")]⟩,
    ⟨ST, [.code ("#define hecaton_check_bit(a,b)" ++ "\ta&b\n")]⟩]

/-- The comments that mark a function. -/
def functionTags (functionTag : Nat) (f : FunctionDecl) : List CodeInsertion :=
  [⟨f.beginLoc, [.code ("/*HecatonFunctionStart" ++ toString functionTag ++ "*/")]⟩,
    ⟨f.body.info.endLoc.getLocWithOffset 1,
      [.code ("/*HecatonFunctionEnd" ++ toString functionTag ++ "*/")]⟩]

/-- `insert_pairmask_decl`. -/
def insertPairmaskDecl (sm : SourceManager) (Body : Stmt) : List CodeInsertion :=
  if Body.isCompound then
    match sm.locForEndOfToken Body.lBracLoc with
    | some ST =>
        if sm.isInMainFile ST then
          [⟨ST, [.code ("\n\t/*Hecaton pair mask flag*/\n" ++ "\tuint64_t hecaton_pairmask = 0;\n")]⟩,
            ⟨ST, [.code ("\n\t/*Hecaton return*/\n" ++ "\tint hecaton_test = 0xdeadbeaf;\n")]⟩]
        else []
    | none => []
  else []

/-- Where `insert_clean_up_stirng` puts the cleanup code: in front of the last `return`
among the body's statements, or at the end of the body. -/
def cleanupLoc (Body : Stmt) : SourceLocation :=
  match (Body.children.filter Stmt.isReturn).getLast? with
  | some retSmt => retSmt.info.beginLoc
  | none => Body.info.endLoc

/-- What is inserted for a function before its cleanup code is generated. -/
def insertedCode (compiler : Compiler) (f : FunctionDecl) (state : PassState)
    (myfunction : Function) : List CodeInsertion :=
  let functionTag := state.functionTag
  (if state.firstFunction then globalDecls compiler f else []) ++ functionTags functionTag f ++
    (insertGotosBlocks f.body).map (Insertion.code functionTag ";") ++
    (if myfunction.isClosing then [] else insertPairmaskDecl compiler.sm f.body) ++
    (insertGotos compiler.sm f.body).map (Insertion.code functionTag ";\n") ++
    if myfunction.isClosing then []
    else (insertPairmaskStamps compiler.sm myfunction).map (Insertion.code functionTag "")

/-- `number_of_gotos` behind the jumps.  Only a function that is not closing starts the
count anew. -/
def countGotos (compiler : Compiler) (f : FunctionDecl) (state : PassState)
    (myfunction : Function) : Nat :=
  (if myfunction.isClosing then state.numberOfGotos else 0) + (insertGotosBlocks f.body).length +
    (insertGotos compiler.sm f.body).length

/-- What `VisitFunctionDecl` writes for an analysed function.  The comment with the
confidence score is left out. -/
def functionText (compiler : Compiler) (f : FunctionDecl) (state : PassState)
    (myfunction : Function) : FunctionText :=
  let inserted := insertedCode compiler f state myfunction
  let cleanUpString := cleanupCode (compiler.rewriter.getRewrittenText inserted) state.functionTag
    (countGotos compiler f state myfunction) myfunction
  { functionTag := state.functionTag
    body := f.body
    inserted := inserted
    cleanup := ⟨cleanupLoc f.body, .code "//hecaton cleanup code\n" :: cleanUpString⟩ }

/-- The variables of the pass behind an analysed function. -/
def writeFunction (compiler : Compiler) (f : FunctionDecl) (state : PassState)
    (myfunction : Function) : PassState where
  functionTag := state.functionTag + 1
  numberOfGotos := countGotos compiler f state myfunction
  firstFunction := false
  listOfFunctions := state.listOfFunctions ++ [myfunction]
  texts := state.texts ++ [functionText compiler f state myfunction]

/-- `VisitFunctionDecl`.  `none` where the analysis is undefined. -/
def visitFunctionDecl (compiler : Compiler) (f : FunctionDecl) (state : PassState) :
    Option PassState :=
  if !f.hasBody then some state
  else if !compiler.sm.isInMainFile f.beginLoc then some state
  else if f.body.info.beginLoc.isMacroID then some state
  else if state.listOfFunctions.any fun currFunction => f.name == currFunction.name then some state
  else if !compiler.whiteList.any fun listed => f.name == listed then some state
  else
    (analyse compiler.db compiler.sm compiler.gotostr f.body f.typeStr f.name).map
      (writeFunction compiler f state)

/-! ## What is written for one function -/

variable {compiler : Compiler}

/-- Code of which no piece is a jump or a label. -/
def IsPlainCode (pieces : List CodePiece) : Prop := ∀ piece ∈ pieces, ∃ str, piece = .code str

theorem isPlainCode_globalDecls (f : FunctionDecl) :
    IsPlainCode ((globalDecls compiler f).flatMap CodeInsertion.code) := by
  intro piece pieceMem
  simp only [globalDecls, List.flatMap_cons, List.flatMap_nil, List.mem_append, List.mem_singleton,
    List.not_mem_nil, or_false] at pieceMem
  rcases pieceMem with isPiece | isPiece | isPiece | isPiece | isPiece
  all_goals exact ⟨_, isPiece⟩

theorem isPlainCode_functionTags (functionTag : Nat) (f : FunctionDecl) :
    IsPlainCode ((functionTags functionTag f).flatMap CodeInsertion.code) := by
  intro piece pieceMem
  simp only [functionTags, List.flatMap_cons, List.flatMap_nil, List.mem_append, List.mem_singleton,
    List.not_mem_nil, or_false] at pieceMem
  rcases pieceMem with isPiece | isPiece
  all_goals exact ⟨_, isPiece⟩

theorem isPlainCode_insertPairmaskDecl (sm : SourceManager) (Body : Stmt) :
    IsPlainCode ((insertPairmaskDecl sm Body).flatMap CodeInsertion.code) := by
  intro piece pieceMem
  rw [insertPairmaskDecl] at pieceMem
  split at pieceMem
  · split at pieceMem
    · split at pieceMem
      · simp only [List.flatMap_cons, List.flatMap_nil, List.mem_append, List.mem_singleton,
          List.not_mem_nil, or_false] at pieceMem
        rcases pieceMem with isPiece | isPiece
        all_goals exact ⟨_, isPiece⟩
      · exact absurd pieceMem List.not_mem_nil
    · exact absurd pieceMem List.not_mem_nil
  · exact absurd pieceMem List.not_mem_nil

/-- A place in the function: behind the opening brace of a block below the body, or
behind a statement below the body. -/
def IsPlaceIn (sm : SourceManager) (Body : Stmt) (loc : SourceLocation) : Prop :=
  ∃ stmt ∈ Body.descendants, loc = afterBrace stmt ∨ sm.recursiveGetEnd stmt = some loc

theorem afterBrace_of_mem_insertGotosBlocks {s : Stmt} {insertion : Insertion}
    (written : insertion ∈ insertGotosBlocks s) :
    ∃ stmt ∈ s.descendants, insertion.loc = afterBrace stmt := by
  induction s using Stmt.tree_induction with
  | null => simp [insertGotosBlocks] at written
  | node info cls children ih =>
      rw [insertGotosBlocks] at written
      change ∃ stmt ∈ Stmt.nodesOf children, insertion.loc = afterBrace stmt
      induction children with
      | nil => simp [insertGotosBlocksLoop] at written
      | cons currStmt rest ihRest =>
          simp only [insertGotosBlocksLoop, List.mem_append] at written
          simp only [Stmt.nodesOf_cons, List.mem_append]
          rcases written with (brace | below) | inRest
          · split at brace
            · rename_i isCompound
              rw [List.mem_singleton.mp brace]
              have nonnull : currStmt ≠ .null := by
                rintro rfl
                exact absurd isCompound (by decide)
              exact ⟨currStmt, Or.inl (Stmt.self_mem_nodes nonnull), rfl⟩
            · exact absurd brace List.not_mem_nil
          · obtain ⟨stmt, stmtMem, atBrace⟩ := ih currStmt List.mem_cons_self below
            exact ⟨stmt, Or.inl (Stmt.descendants_subset_nodes stmtMem), atBrace⟩
          · obtain ⟨stmt, stmtMem, atBrace⟩ :=
              ihRest (fun child childMem => ih child (List.mem_cons_of_mem _ childMem)) inRest
            exact ⟨stmt, Or.inr stmtMem, atBrace⟩

/-- The candidate is a statement of the list, with the place behind it. -/
def IsCandidateOf (sm : SourceManager) (stmts : List Stmt) (gtil : GotosInsertLoc) : Prop :=
  gtil.stmt ∈ stmts ∧ sm.recursiveGetEnd gtil.stmt = some gtil.aftersemi

theorem mem_shouldInsert_gotosVisitStmt {Body currStmt : Stmt} {aftersemi : SourceLocation}
    {lists : GotosLists} {gtil : GotosInsertLoc}
    (candidate : gtil ∈ (gotosVisitStmt Body currStmt aftersemi lists).shouldInsert) :
    gtil ∈ lists.shouldInsert ∨ (gtil.stmt = currStmt ∧ gtil.aftersemi = aftersemi) := by
  simp only [gotosVisitStmt] at candidate
  split at candidate
  · exact Or.inl candidate
  · split at candidate
    · rcases List.mem_append.mp candidate with old | new
      · exact Or.inl old
      · rw [List.mem_singleton.mp new]
        exact Or.inr ⟨rfl, rfl⟩
    · exact Or.inl candidate

theorem mem_shouldInsert_gotosVisit {sm : SourceManager} {Body s : Stmt} {lists : GotosLists}
    {gtil : GotosInsertLoc} (candidate : gtil ∈ (gotosVisit sm Body s lists).shouldInsert) :
    gtil ∈ lists.shouldInsert ∨ IsCandidateOf sm s.descendants gtil := by
  induction s using Stmt.tree_induction generalizing lists with
  | null => exact Or.inl (by simpa [gotosVisit] using candidate)
  | node info cls children ih =>
      rw [gotosVisit] at candidate
      change gtil ∈ lists.shouldInsert ∨ IsCandidateOf sm (Stmt.nodesOf children) gtil
      induction children generalizing lists with
      | nil => exact Or.inl (by simpa [gotosVisitLoop] using candidate)
      | cons currStmt rest ihRest =>
          have later : ∀ {lists : GotosLists},
              gtil ∈ (gotosVisitLoop sm Body rest lists).shouldInsert →
              gtil ∈ lists.shouldInsert ∨ IsCandidateOf sm (Stmt.nodesOf rest) gtil :=
            fun inRest =>
              ihRest (fun child childMem => ih child (List.mem_cons_of_mem _ childMem)) inRest
          have inList : IsCandidateOf sm (Stmt.nodesOf rest) gtil →
              IsCandidateOf sm (Stmt.nodesOf (currStmt :: rest)) gtil := by
            rintro ⟨stmtMem, isEnd⟩
            exact ⟨by simp [stmtMem], isEnd⟩
          rw [gotosVisitLoop] at candidate
          split at candidate
          · exact (later candidate).imp_right inList
          · rename_i nonnull
            have nodeMem : currStmt ∈ currStmt.nodes := by
              apply Stmt.self_mem_nodes
              rintro rfl
              exact nonnull rfl
            split at candidate
            · exact (later candidate).imp_right inList
            · rename_i aftersemi atEnd
              split at candidate
              · rcases later candidate with visited | inRest
                · rcases ih currStmt List.mem_cons_self visited with pushed | below
                  · rcases mem_shouldInsert_gotosVisitStmt pushed with old | ⟨isCurr, isEnd⟩
                    · exact Or.inl old
                    · refine Or.inr ⟨?_, ?_⟩
                      · rw [isCurr, Stmt.nodesOf_cons]
                        exact List.mem_append_left _ nodeMem
                      · rw [isCurr, isEnd, atEnd]
                  · refine Or.inr ⟨?_, below.2⟩
                    rw [Stmt.nodesOf_cons]
                    exact List.mem_append_left _ (Stmt.descendants_subset_nodes below.1)
                · exact Or.inr (inList inRest)
              · exact (later candidate).imp_right inList

theorem isPlaceIn_insertGotosBlocks {sm : SourceManager} {Body : Stmt} {insertion : Insertion}
    (written : insertion ∈ insertGotosBlocks Body) : IsPlaceIn sm Body insertion.loc := by
  obtain ⟨stmt, below, atBrace⟩ := afterBrace_of_mem_insertGotosBlocks written
  exact ⟨stmt, below, Or.inl atBrace⟩

theorem isPlaceIn_insertGotos {sm : SourceManager} {Body : Stmt} {insertion : Insertion}
    (written : insertion ∈ insertGotos sm Body) : IsPlaceIn sm Body insertion.loc := by
  have isGoto : insertion = ⟨insertion.loc, .hgoto⟩ := by
    rw [← piece_of_mem_insertGotos written]
  rw [isGoto, mem_insertGotos] at written
  obtain ⟨before, gtil, after, split, atPlace, _, _⟩ := written
  have candidate : gtil ∈ (gotosVisit sm Body Body {}).shouldInsert := by simp [split]
  rcases mem_shouldInsert_gotosVisit candidate with none | ⟨below, isEnd⟩
  · exact absurd none List.not_mem_nil
  · exact ⟨gtil.stmt, below, Or.inr (by rw [isEnd, atPlace])⟩

/-- An insertion made for a function: without jump and label, or a jump to the function's
own label at a place in the function. -/
def IsOwnInsertion (sm : SourceManager) (functionTag : Nat) (Body : Stmt)
    (insertion : CodeInsertion) : Prop :=
  IsPlainCode insertion.code ∨
    (IsPlaceIn sm Body insertion.loc ∧
      ∃ ending, insertion.code = [.code " ", .hgoto functionTag, .code ending])

theorem isOwnInsertion_jump {sm : SourceManager} {functionTag : Nat} {Body : Stmt}
    {ending : String} {insertion : Insertion} (isGoto : insertion.piece = .hgoto)
    (isPlace : IsPlaceIn sm Body insertion.loc) :
    IsOwnInsertion sm functionTag Body (insertion.code functionTag ending) := by
  refine Or.inr ⟨isPlace, ending, ?_⟩
  rw [Insertion.code, isGoto]
  rfl

theorem isPlainCode_stamp {sm : SourceManager} {f : Function} {functionTag : Nat}
    {insertion : Insertion} (written : insertion ∈ insertPairmaskStamps sm f) :
    IsPlainCode (insertion.code functionTag "").code := by
  rw [insertPairmaskStamps_eq] at written
  obtain ⟨entry, _, inEntry⟩ := List.mem_flatMap.mp written
  have isStamp : ∃ update, insertion.piece = .stamp update := by
    have ofStampOf : ∀ {update pair}, insertion ∈ stampOf sm f.body update pair →
        ∃ update, insertion.piece = .stamp update := by
      intro update pair inStamp
      rw [stampOf] at inStamp
      split at inStamp
      · exact absurd inStamp List.not_mem_nil
      · split at inStamp
        · rw [List.mem_singleton.mp inStamp]
          exact ⟨update, rfl⟩
        · exact absurd inStamp List.not_mem_nil
    rcases List.mem_append.mp inEntry with inUnsets | inSets
    · obtain ⟨pair, _, inStamp⟩ := List.mem_flatMap.mp inUnsets
      exact ofStampOf inStamp
    · obtain ⟨pair, _, inStamp⟩ := List.mem_flatMap.mp inSets
      exact ofStampOf inStamp
  obtain ⟨update, isStamp⟩ := isStamp
  rw [Insertion.code, isStamp]
  intro piece pieceMem
  exact ⟨_, List.mem_singleton.mp pieceMem⟩

theorem isPlainCode_of_flatMap {insertions : List CodeInsertion} {insertion : CodeInsertion}
    (isPlain : IsPlainCode (insertions.flatMap CodeInsertion.code))
    (insertionMem : insertion ∈ insertions) : IsPlainCode insertion.code := by
  intro piece pieceMem
  exact isPlain piece (List.mem_flatMap.mpr ⟨insertion, insertionMem, pieceMem⟩)

/-- The insertions for a function up to the cleanup code are its own. -/
theorem isOwnInsertion_insertedCode {f : FunctionDecl} {state : PassState} {myfunction : Function}
    {insertion : CodeInsertion} (inserted : insertion ∈ insertedCode compiler f state myfunction) :
    IsOwnInsertion compiler.sm state.functionTag f.body insertion := by
  simp only [insertedCode, List.mem_append] at inserted
  rcases inserted with ((((inGlobals | inTags) | inBlocks) | inDecl) | inGotos) | inStamps
  · split at inGlobals
    · exact Or.inl (isPlainCode_of_flatMap (isPlainCode_globalDecls f) inGlobals)
    · exact absurd inGlobals List.not_mem_nil
  · exact Or.inl (isPlainCode_of_flatMap (isPlainCode_functionTags _ f) inTags)
  · obtain ⟨jump, written, rfl⟩ := List.mem_map.mp inBlocks
    exact isOwnInsertion_jump (piece_of_mem_insertGotosBlocks written)
      (isPlaceIn_insertGotosBlocks written)
  · split at inDecl
    · exact absurd inDecl List.not_mem_nil
    · exact Or.inl (isPlainCode_of_flatMap (isPlainCode_insertPairmaskDecl _ _) inDecl)
  · obtain ⟨jump, written, rfl⟩ := List.mem_map.mp inGotos
    exact isOwnInsertion_jump (piece_of_mem_insertGotos written) (isPlaceIn_insertGotos written)
  · split at inStamps
    · exact absurd inStamps List.not_mem_nil
    · obtain ⟨stamp, written, rfl⟩ := List.mem_map.mp inStamps
      exact Or.inl (isPlainCode_stamp written)

theorem IsOwnInsertion.piece {sm : SourceManager} {functionTag : Nat} {Body : Stmt}
    {insertion : CodeInsertion} (own : IsOwnInsertion sm functionTag Body insertion)
    {piece : CodePiece} (pieceMem : piece ∈ insertion.code) :
    (∃ str, piece = .code str) ∨ piece = .hgoto functionTag := by
  rcases own with isPlain | ⟨_, ending, isJump⟩
  · exact Or.inl (isPlain piece pieceMem)
  · rw [isJump] at pieceMem
    simp only [List.mem_cons, List.not_mem_nil, or_false] at pieceMem
    rcases pieceMem with isCode | isHgoto | isCode
    · exact Or.inl ⟨_, isCode⟩
    · exact Or.inr isHgoto
    · exact Or.inl ⟨_, isCode⟩

/-- A jump is counted: behind one, the count is not zero. -/
theorem countGotos_pos {f : FunctionDecl} {state : PassState} {myfunction : Function}
    {functionTag : Nat}
    (jumps : .hgoto functionTag ∈
      (insertedCode compiler f state myfunction).flatMap CodeInsertion.code) :
    countGotos compiler f state myfunction > 0 := by
  by_contra noGotos
  have noBlocks : insertGotosBlocks f.body = [] := by
    apply List.eq_nil_of_length_eq_zero
    rw [countGotos] at noGotos
    omega
  have noStmts : insertGotos compiler.sm f.body = [] := by
    apply List.eq_nil_of_length_eq_zero
    rw [countGotos] at noGotos
    omega
  obtain ⟨insertion, inserted, inCode⟩ := List.mem_flatMap.mp jumps
  have isPlain : IsPlainCode insertion.code := by
    simp only [insertedCode, noBlocks, noStmts, List.map_nil, List.append_nil,
      List.mem_append] at inserted
    rcases inserted with ((inGlobals | inTags) | inDecl) | inStamps
    · split at inGlobals
      · exact isPlainCode_of_flatMap (isPlainCode_globalDecls f) inGlobals
      · exact absurd inGlobals List.not_mem_nil
    · exact isPlainCode_of_flatMap (isPlainCode_functionTags _ f) inTags
    · split at inDecl
      · exact absurd inDecl List.not_mem_nil
      · exact isPlainCode_of_flatMap (isPlainCode_insertPairmaskDecl _ _) inDecl
    · split at inStamps
      · exact absurd inStamps List.not_mem_nil
      · obtain ⟨stamp, written, rfl⟩ := List.mem_map.mp inStamps
        exact isPlainCode_stamp written
  obtain ⟨str, isCode⟩ := isPlain _ inCode
  exact CodePiece.noConfusion isCode

/-! ## The label of the cleanup code -/

theorem mem_entryCode {rewritten : Stmt → List CodePiece} {entry : CleanupEntry}
    {piece : CodePiece} (pieceMem : piece ∈ entry.code rewritten) :
    (∃ str, piece = .code str) ∨ piece ∈ rewritten entry.stmt := by
  have inGuarded : piece ∈ guardedCode entry.pairmaskId (rewritten entry.stmt) →
      (∃ str, piece = .code str) ∨ piece ∈ rewritten entry.stmt := by
    intro inGuarded
    rcases List.mem_append.mp inGuarded with inFront | isEnding
    · rcases List.mem_cons.mp inFront with isGuard | inStmt
      · exact Or.inl ⟨_, isGuard⟩
      · exact Or.inr inStmt
    · exact Or.inl ⟨_, List.mem_singleton.mp isEnding⟩
  rw [CleanupEntry.code] at pieceMem
  split at pieceMem
  · exact inGuarded pieceMem
  · rcases List.mem_cons.mp pieceMem with isComment | inRest
    · exact Or.inl ⟨_, isComment⟩
    · exact inGuarded inRest

/-- The cleanup code consists of text, of the texts of statements and, where it has one,
of the label at its beginning. -/
theorem mem_cleanupCode {rewritten : Stmt → List CodePiece} {functionTag numberOfGotos : Nat}
    {f : Function} {piece : CodePiece}
    (pieceMem : piece ∈ cleanupCode rewritten functionTag numberOfGotos f) :
    (∃ str, piece = .code str) ∨ piece = .label functionTag ∨ ∃ stmt, piece ∈ rewritten stmt := by
  rw [cleanupCode] at pieceMem
  split at pieceMem
  · simp only [closingCode, List.mem_cons, List.not_mem_nil, or_false] at pieceMem
    rcases pieceMem with isCode | isLabel | isCode
    · exact Or.inl ⟨_, isCode⟩
    · exact Or.inr (Or.inl isLabel)
    · exact Or.inl ⟨_, isCode⟩
  · split at pieceMem
    · rcases List.mem_append.mp pieceMem with inFront | isFooter
      · rcases List.mem_append.mp inFront with inHeader | inEntries
        · simp only [headerCode, List.mem_cons, List.not_mem_nil, or_false] at inHeader
          rcases inHeader with isCode | isLabel | isCode
          · exact Or.inl ⟨_, isCode⟩
          · exact Or.inr (Or.inl isLabel)
          · exact Or.inl ⟨_, isCode⟩
        · obtain ⟨entry, _, inEntry⟩ := List.mem_flatMap.mp inEntries
          rcases mem_entryCode inEntry with isCode | inStmt
          · exact Or.inl isCode
          · exact Or.inr (Or.inr ⟨entry.stmt, inStmt⟩)
      · exact Or.inl ⟨_, List.mem_singleton.mp isFooter⟩
    · exact absurd pieceMem List.not_mem_nil

/-- The cleanup code that a jump can reach has its label once. -/
theorem count_label_cleanupCode {rewritten : Stmt → List CodePiece}
    {functionTag numberOfGotos : Nat} {f : Function}
    (noLabel : ∀ stmt, .label functionTag ∉ rewritten stmt)
    (reachable : f.isClosing = true ∨ numberOfGotos > 0) :
    (cleanupCode rewritten functionTag numberOfGotos f).count (.label functionTag) = 1 := by
  have noLabelEntries : .label functionTag ∉
      (cleanupEntries f).flatMap (CleanupEntry.code rewritten) := by
    intro inEntries
    obtain ⟨entry, _, inEntry⟩ := List.mem_flatMap.mp inEntries
    rcases mem_entryCode inEntry with ⟨str, isCode⟩ | inStmt
    · exact CodePiece.noConfusion isCode
    · exact noLabel entry.stmt inStmt
  rw [cleanupCode]
  by_cases closing : f.isClosing = true
  · rw [if_pos closing, closingCode, List.count_cons_of_ne (by simp), List.count_cons_self,
      List.count_cons_of_ne (by simp), List.count_nil]
  · rw [if_neg closing, if_pos (reachable.resolve_left closing), List.count_append,
      List.count_append, List.count_eq_zero_of_not_mem noLabelEntries, headerCode,
      List.count_cons_of_ne (by simp), List.count_cons_self, List.count_cons_of_ne (by simp),
      List.count_nil, List.count_cons_of_ne (by simp), List.count_nil]

/-! ## One function -/

/-- The jumps that are written for a function lie in it and lead to its own label, which
its cleanup code defines once if there are any; no other label is defined. -/
structure FunctionText.IsConsistent (sm : SourceManager) (text : FunctionText) : Prop where
  jumps : ∀ tag, .hgoto tag ∈ text.pieces →
    tag = text.functionTag ∧ text.pieces.count (.label tag) = 1
  labels : ∀ tag, .label tag ∈ text.pieces → tag = text.functionTag
  noLabel : ∀ tag, .label tag ∉ text.inserted.flatMap CodeInsertion.code
  places : ∀ insertion ∈ text.inserted, ∀ tag, .hgoto tag ∈ insertion.code →
    IsPlaceIn sm text.body insertion.loc

theorem isConsistent_functionText (f : FunctionDecl) (state : PassState) (myfunction : Function) :
    (functionText compiler f state myfunction).IsConsistent compiler.sm := by
  let inserted := insertedCode compiler f state myfunction
  let rewritten := compiler.rewriter.getRewrittenText inserted
  let cleanUpString := cleanupCode rewritten state.functionTag
    (countGotos compiler f state myfunction) myfunction
  have ofInserted : ∀ {piece}, piece ∈ inserted.flatMap CodeInsertion.code →
      (∃ str, piece = .code str) ∨ piece = .hgoto state.functionTag := by
    intro piece pieceMem
    obtain ⟨insertion, insertionMem, inCode⟩ := List.mem_flatMap.mp pieceMem
    exact (isOwnInsertion_insertedCode insertionMem).piece inCode
  have ofRewritten : ∀ {piece stmt}, piece ∈ rewritten stmt →
      (∃ str, piece = .code str) ∨ piece ∈ inserted.flatMap CodeInsertion.code := by
    intro piece stmt pieceMem
    rcases compiler.rewriter.sourceOrInserted inserted stmt piece pieceMem with isCode | inInserted
    · exact Or.inl isCode
    · exact Or.inr (List.mem_flatMap.mpr inInserted)
  have noLabel : ∀ tag, .label tag ∉ inserted.flatMap CodeInsertion.code := by
    intro tag labelMem
    rcases ofInserted labelMem with ⟨str, isCode⟩ | isHgoto
    · exact CodePiece.noConfusion isCode
    · exact CodePiece.noConfusion isHgoto
  have noLabelRewritten : ∀ tag stmt, .label tag ∉ rewritten stmt := by
    intro tag stmt labelMem
    rcases ofRewritten labelMem with ⟨str, isCode⟩ | inInserted
    · exact CodePiece.noConfusion isCode
    · exact noLabel tag inInserted
  have pieces : (functionText compiler f state myfunction).pieces =
      inserted.flatMap CodeInsertion.code ++ .code "//hecaton cleanup code\n" :: cleanUpString := rfl
  -- A jump in the cleanup code is part of a statement's text, so it has been inserted before.
  have jumpInserted : ∀ tag, .hgoto tag ∈ (functionText compiler f state myfunction).pieces →
      .hgoto tag ∈ inserted.flatMap CodeInsertion.code := by
    intro tag jumpMem
    rw [pieces, List.mem_append, List.mem_cons] at jumpMem
    rcases jumpMem with inInserted | isComment | inCleanup
    · exact inInserted
    · exact CodePiece.noConfusion isComment
    · rcases mem_cleanupCode inCleanup with ⟨str, isCode⟩ | isLabel | ⟨stmt, inStmt⟩
      · exact CodePiece.noConfusion isCode
      · exact CodePiece.noConfusion isLabel
      · rcases ofRewritten inStmt with ⟨str, isCode⟩ | inInserted
        · exact CodePiece.noConfusion isCode
        · exact inInserted
  constructor
  · intro tag jumpMem
    have isJump := jumpInserted tag jumpMem
    have isOwn : tag = state.functionTag := by
      rcases ofInserted isJump with ⟨str, isCode⟩ | isHgoto
      · exact CodePiece.noConfusion isCode
      · exact CodePiece.hgoto.inj isHgoto
    constructor
    · exact isOwn
    · rw [isOwn, pieces, List.count_append, List.count_eq_zero_of_not_mem (noLabel _),
        List.count_cons_of_ne (by simp), Nat.zero_add]
      exact count_label_cleanupCode (noLabelRewritten _) (Or.inr (countGotos_pos isJump))
  · intro tag labelMem
    rw [pieces, List.mem_append, List.mem_cons] at labelMem
    rcases labelMem with inInserted | isComment | inCleanup
    · exact absurd inInserted (noLabel tag)
    · exact CodePiece.noConfusion isComment
    · rcases mem_cleanupCode inCleanup with ⟨str, isCode⟩ | isLabel | ⟨stmt, inStmt⟩
      · exact CodePiece.noConfusion isCode
      · exact CodePiece.label.inj isLabel
      · exact absurd inStmt (noLabelRewritten tag stmt)
  · exact noLabel
  · intro insertion insertionMem tag jumpMem
    rcases isOwnInsertion_insertedCode insertionMem with isPlain | ⟨isPlace, _⟩
    · obtain ⟨str, isCode⟩ := isPlain _ jumpMem
      exact CodePiece.noConfusion isCode
    · exact isPlace

/-! ## The run over the translation unit -/

/-- The tags of the functions written so far are the numbers below the counter. -/
structure IsCounted (sm : SourceManager) (state : PassState) : Prop where
  consistent : ∀ text ∈ state.texts, text.IsConsistent sm
  tags : state.texts.map FunctionText.functionTag = List.range state.functionTag

theorem isCounted_initial (sm : SourceManager) : IsCounted sm {} := by
  constructor
  · intro text textMem
    exact absurd textMem List.not_mem_nil
  · rfl

/-- A function is passed over or analysed and written. -/
theorem visitFunctionDecl_cases {f : FunctionDecl} {state next : PassState}
    (visited : visitFunctionDecl compiler f state = some next) :
    next = state ∨ ∃ myfunction,
      analyse compiler.db compiler.sm compiler.gotostr f.body f.typeStr f.name = some myfunction ∧
        next = writeFunction compiler f state myfunction := by
  rw [visitFunctionDecl] at visited
  split at visited
  · exact Or.inl (Option.some.inj visited).symm
  · split at visited
    · exact Or.inl (Option.some.inj visited).symm
    · split at visited
      · exact Or.inl (Option.some.inj visited).symm
      · split at visited
        · exact Or.inl (Option.some.inj visited).symm
        · split at visited
          · exact Or.inl (Option.some.inj visited).symm
          · obtain ⟨myfunction, analysed, rfl⟩ := Option.map_eq_some_iff.mp visited
            exact Or.inr ⟨myfunction, analysed, rfl⟩

theorem isCounted_visitFunctionDecl {f : FunctionDecl} {state next : PassState}
    (counted : IsCounted compiler.sm state)
    (visited : visitFunctionDecl compiler f state = some next) : IsCounted compiler.sm next := by
  rcases visitFunctionDecl_cases visited with rfl | ⟨myfunction, _, rfl⟩
  · exact counted
  · have texts : (writeFunction compiler f state myfunction).texts =
        state.texts ++ [functionText compiler f state myfunction] := rfl
    constructor
    · intro text textMem
      rw [texts] at textMem
      rcases List.mem_append.mp textMem with old | new
      · exact counted.consistent text old
      · rw [List.mem_singleton.mp new]
        exact isConsistent_functionText f state myfunction
    · have counter : (writeFunction compiler f state myfunction).functionTag =
          state.functionTag + 1 := rfl
      rw [texts, counter, List.map_append, counted.tags, List.range_succ]
      rfl

theorem isCounted_run {decls : List FunctionDecl} {state : PassState}
    (reached : run (visitFunctionDecl compiler) decls {} = some state) :
    IsCounted compiler.sm state := by
  have always : StepsMeet (visitFunctionDecl compiler) (fun _ _ => True) decls {} :=
    StepsMeet.of_forall (fun _ _ _ => trivial) _
  exact run_invariant (fun _ _ _ counted _ visited => isCounted_visitFunctionDecl counted visited)
    (isCounted_initial compiler.sm) always reached

/-- After any sequence of function declarations: every jump lies in a function of which
the cleanup code defines the label of the jump exactly once, and no label is defined in
two functions. -/
theorem run_visitFunctionDecl_labels (compiler : Compiler) (decls : List FunctionDecl)
    (state : PassState) (reached : run (visitFunctionDecl compiler) decls {} = some state) :
    (∀ text ∈ state.texts, ∀ tag, .hgoto tag ∈ text.pieces →
        text.cleanup.code.count (.label tag) = 1 ∧ text.pieces.count (.label tag) = 1) ∧
      (∀ text ∈ state.texts, ∀ insertion ∈ text.inserted, ∀ tag, .hgoto tag ∈ insertion.code →
        IsPlaceIn compiler.sm text.body insertion.loc) ∧
      state.texts.Pairwise fun first second =>
        ∀ tag, .label tag ∈ first.pieces → .label tag ∉ second.pieces := by
  have counted := isCounted_run reached
  constructor
  · intro text textMem tag jumpMem
    have consistent := counted.consistent text textMem
    have once := (consistent.jumps tag jumpMem).2
    have inCleanup : text.pieces.count (.label tag) = text.cleanup.code.count (.label tag) := by
      rw [FunctionText.pieces, List.count_append,
        List.count_eq_zero_of_not_mem (consistent.noLabel tag), Nat.zero_add]
    exact ⟨by rw [← inCleanup, once], once⟩
  constructor
  · intro text textMem
    exact (counted.consistent text textMem).places
  · have distinct : (state.texts.map FunctionText.functionTag).Nodup := by
      rw [counted.tags]
      exact List.nodup_range
    rw [List.nodup_iff_pairwise_ne, List.pairwise_map] at distinct
    apply distinct.imp_of_mem
    intro first second firstMem secondMem differ tag inFirst inSecond
    have ofFirst := (counted.consistent first firstMem).labels tag inFirst
    have ofSecond := (counted.consistent second secondMem).labels tag inSecond
    exact differ (ofFirst.symm.trans ofSecond)

/-- A compiler for bodies of calls, into which nothing is inserted. -/
def callsCompiler : Compiler where
  sm := Build.shortTokens
  expansionBegin := id
  rewriter :=
    { getRewrittenText := fun _ stmt => [.code stmt.info.text]
      sourceOrInserted := fun _ _ _ pieceMem =>
        Or.inl ⟨_, List.mem_singleton.mp pieceMem⟩ }
  gotostr := fun stmt => stmt.info.text
  db := { ehcFncs := [], pairFncs := [] }
  whiteList := ["probe", "probe_release"]

/-- A function of one call. -/
def oneCall (offset : Nat) (name : String) : FunctionDecl where
  hasBody := true
  beginLoc := ⟨offset, offset, false⟩
  body := Build.block (offset + 9) (offset + 10) (offset + 1) (offset + 90) (offset + 3)
    [Build.callOf offset (offset + 20) (offset + 2) "use" "a"]
  typeStr := "int"
  name := name

/-- A closing function, one that is not listed, and one that is defined twice. -/
def fourDecls : List FunctionDecl :=
  [oneCall 0 "probe_release", oneCall 100 "helper", oneCall 200 "probe", oneCall 300 "probe"]

theorem run_visitFunctionDecl_fourDecls :
    ∃ state, run (visitFunctionDecl callsCompiler) fourDecls {} = some state ∧
      state.texts.map (fun text => text.pieces.count (.hgoto text.functionTag)) = [1, 1] ∧
      (∀ text ∈ state.texts, ∀ tag, .hgoto tag ∈ text.pieces →
        text.cleanup.code.count (.label tag) = 1) := by
  have isSome : (run (visitFunctionDecl callsCompiler) fourDecls {}).isSome = true := by
    decide +kernel
  obtain ⟨state, reached⟩ := Option.isSome_iff_exists.mp isSome
  have jumps : (run (visitFunctionDecl callsCompiler) fourDecls {}).map (fun state =>
      state.texts.map fun text => text.pieces.count (.hgoto text.functionTag)) = some [1, 1] := by
    decide +kernel
  rw [reached] at jumps
  have consistent := (run_visitFunctionDecl_labels callsCompiler fourDecls state reached).1
  exact ⟨state, reached, Option.some.inj jumps, fun text textMem tag jumpMem =>
    (consistent text textMem tag jumpMem).1⟩

end Hecaton.Pass2
