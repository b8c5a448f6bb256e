import Hecaton.Library.Aligned
import Hecaton.Library.Once
import Hecaton.Pass2.Activation
import Hecaton.Pass2.TranslationUnit

/-!
# The functions that the pass writes

The activations of the instrumented functions run code that has been put together as jumps,
updates of the mask and entries of the cleanup code.  Over a translation unit the pass writes
this code, for the first definition of each listed name, with a label number of its own.
-/

namespace Hecaton.Pass2

open Hecaton.Clang
open Hecaton.Library

variable {compiler : Compiler}

/-- The tests of `VisitFunctionDecl` that do not ask for earlier functions. -/
def isInstrumented (compiler : Compiler) (f : FunctionDecl) : Bool :=
  f.hasBody && compiler.sm.isInMainFile f.beginLoc && !f.body.info.beginLoc.isMacroID &&
    compiler.whiteList.any fun listed => f.name == listed

/-- The work on a function. -/
def instrument (compiler : Compiler) (f : FunctionDecl) (state : PassState) : Option PassState :=
  (analyse compiler.db compiler.sm compiler.gotostr f.body f.typeStr f.name).map
    (writeFunction compiler f state)

/-- The names of the functions that have been written. -/
def PassState.names (state : PassState) : List String := state.listOfFunctions.map Function.name

theorem visitFunctionDecl_eq (compiler : Compiler) :
    visitFunctionDecl compiler =
      once (isInstrumented compiler) FunctionDecl.name PassState.names (instrument compiler) := by
  funext f state
  rw [visitFunctionDecl, once, isInstrumented, PassState.names, List.any_map]
  cases f.hasBody with
  | false => rfl
  | true =>
      cases compiler.sm.isInMainFile f.beginLoc with
      | false => rfl
      | true =>
          cases f.body.info.beginLoc.isMacroID with
          | true => rfl
          | false =>
              cases compiler.whiteList.any fun listed => f.name == listed with
              | true => rfl
              | false =>
                  cases repeated : state.listOfFunctions.any
                    fun currFunction => f.name == currFunction.name with
                  | true => rfl
                  | false => rfl

theorem analyse_fields {Body : Stmt} {TypeStr FuncName : String} {myfunction : Function}
    {db : Database} {sm : SourceManager} {gotostr : Stmt → String}
    (analysed : analyse db sm gotostr Body TypeStr FuncName = some myfunction) :
    myfunction.name = FuncName ∧ myfunction.body = Body := by
  rw [analyse] at analysed
  dsimp only at analysed
  split at analysed
  · cases analysed
    exact ⟨rfl, rfl⟩
  · obtain ⟨blocks, found, rfl⟩ := Option.map_eq_some_iff.mp analysed
    obtain ⟨ehcs, _, rfl⟩ := Option.map_eq_some_iff.mp found
    obtain ⟨sameBody, _, sameName, _⟩ := collectUndos_fields db sm
      (handleReturn (handleCriticalSections (handleLoops (handleMaybe db (deleteBlacklistFunctions
        { body := Body, typeStr := TypeStr, name := FuncName,
          isClosing := containsAny closingIndicator FuncName, EHCs := ehcs })))))
    exact ⟨sameName, sameBody⟩

theorem names_of_instrument (f : FunctionDecl) (state next : PassState)
    (worked : instrument compiler f state = some next) : next.names = state.names ++ [f.name] := by
  obtain ⟨myfunction, analysed, rfl⟩ := Option.map_eq_some_iff.mp worked
  rw [PassState.names, writeFunction, List.map_append, List.map_singleton,
    (analyse_fields analysed).1]
  rfl

/-! ## One function -/

/-- The text of a function is the code that its activations run: its jumps and updates are
written in their order, the jumps lead to the function's own label and are all there are, and
behind the label stands the function's cleanup. -/
structure Writes (sm : SourceManager) (functionTag : Nat) (myfunction : Function)
    (text : FunctionText) : Prop where
  tag : text.functionTag = functionTag
  body : text.body = myfunction.body
  written : ∃ code, List.Forall₂ (fun insertion inserted => ∃ ending,
      inserted = Insertion.code functionTag ending insertion) (bowknot sm myfunction).written code ∧
    code.Sublist text.inserted
  jumps : ∀ inserted ∈ text.inserted, ∀ tag, .hgoto tag ∈ inserted.code → tag = functionTag ∧
    ∃ insertion ∈ (bowknot sm myfunction).written,
      insertion.piece = .hgoto ∧ insertion.loc = inserted.loc
  cleanup : match (bowknot sm myfunction).cleanup with
    | .absent => text.cleanup.code = [.code "//hecaton cleanup code\n"]
    | .restart => text.cleanup.code =
        .code "//hecaton cleanup code\n" :: closingCode functionTag myfunction.name
    | .undo entries => ∃ rewritten, text.cleanup.code =
        .code "//hecaton cleanup code\n" :: (headerCode functionTag myfunction.name ++
          entries.flatMap (CleanupEntry.code rewritten) ++ [.code (cleanupFooter myfunction.typeStr)])

theorem forall₂_map_code (functionTag : Nat) (ending : String) (insertions : List Insertion) :
    List.Forall₂ (fun insertion inserted => ∃ ending,
        inserted = Insertion.code functionTag ending insertion) insertions
      (insertions.map (Insertion.code functionTag ending)) := by
  rw [List.forall₂_map_right_iff, List.forall₂_same]
  exact fun insertion _ => ⟨ending, rfl⟩

section OneFunction

variable {f : FunctionDecl} {state : PassState} {myfunction : Function}

theorem written_of_body (sm : SourceManager) (sameBody : myfunction.body = f.body) :
    (bowknot sm myfunction).written = insertGotosBlocks f.body ++ insertGotos sm f.body ++
      if myfunction.isClosing then [] else insertPairmaskStamps sm myfunction := by
  change insertions sm myfunction = _
  rw [insertions, sameBody]

/-- The jumps and updates of the activations are inserted in their order. -/
theorem exists_written_sublist (sameBody : myfunction.body = f.body) :
    ∃ code, List.Forall₂ (fun insertion inserted => ∃ ending,
        inserted = Insertion.code state.functionTag ending insertion)
        (bowknot compiler.sm myfunction).written code ∧
      code.Sublist (insertedCode compiler f state myfunction) := by
  rw [written_of_body compiler.sm sameBody]
  refine ⟨(insertGotosBlocks f.body).map (Insertion.code state.functionTag ";") ++
    (insertGotos compiler.sm f.body).map (Insertion.code state.functionTag ";\n") ++
      if myfunction.isClosing then []
      else (insertPairmaskStamps compiler.sm myfunction).map (Insertion.code state.functionTag ""),
    ?_, ?_⟩
  · apply List.rel_append
    · apply List.rel_append
      · exact forall₂_map_code _ _ _
      · exact forall₂_map_code _ _ _
    · split
      · exact .nil
      · exact forall₂_map_code _ _ _
  · rw [insertedCode]
    apply List.Sublist.append _ (List.Sublist.refl _)
    apply List.Sublist.append _ (List.Sublist.refl _)
    rw [List.append_assoc _ (List.map _ _)]
    exact (List.sublist_append_left _ _).trans (List.sublist_append_right _ _)

/-- The jump that a piece is written as leads to the function's own label. -/
theorem hgoto_of_insertion {functionTag tag : Nat} {ending : String} {insertion : Insertion}
    (isJump : insertion.piece = .hgoto)
    (jumpMem : .hgoto tag ∈ (Insertion.code functionTag ending insertion).code) :
    tag = functionTag := by
  rw [Insertion.code, isJump] at jumpMem
  simp only [Piece.code, List.mem_cons, List.not_mem_nil, or_false] at jumpMem
  rcases jumpMem with isCode | isHgoto | isCode
  · exact CodePiece.noConfusion isCode
  · exact CodePiece.hgoto.inj isHgoto
  · exact CodePiece.noConfusion isCode

/-- A jump is inserted only where one of the function's jumps stands. -/
theorem hgoto_of_inserted (sameBody : myfunction.body = f.body) {inserted : CodeInsertion}
    (insertedMem : inserted ∈ insertedCode compiler f state myfunction) {tag : Nat}
    (jumpMem : .hgoto tag ∈ inserted.code) :
    tag = state.functionTag ∧ ∃ insertion ∈ (bowknot compiler.sm myfunction).written,
      insertion.piece = .hgoto ∧ insertion.loc = inserted.loc := by
  have written := written_of_body compiler.sm sameBody
  have noJump : IsPlainCode inserted.code → False := by
    intro isPlain
    obtain ⟨str, isCode⟩ := isPlain _ jumpMem
    exact CodePiece.noConfusion isCode
  have ofJump : ∀ {ending : String} {insertion : Insertion},
      insertion ∈ (bowknot compiler.sm myfunction).written → insertion.piece = .hgoto →
      Insertion.code state.functionTag ending insertion = inserted →
      tag = state.functionTag ∧ ∃ insertion ∈ (bowknot compiler.sm myfunction).written,
        insertion.piece = .hgoto ∧ insertion.loc = inserted.loc := by
    rintro ending insertion insertionMem isJump rfl
    exact ⟨hgoto_of_insertion isJump jumpMem, insertion, insertionMem, isJump, rfl⟩
  simp only [insertedCode, List.mem_append] at insertedMem
  rcases insertedMem with ((((inGlobals | inTags) | inBlocks) | inDecl) | inGotos) | inStamps
  · split at inGlobals
    · exact absurd (isPlainCode_of_flatMap (isPlainCode_globalDecls f) inGlobals) noJump
    · exact absurd inGlobals List.not_mem_nil
  · exact absurd (isPlainCode_of_flatMap (isPlainCode_functionTags _ f) inTags) noJump
  · obtain ⟨jump, jumpIn, isInserted⟩ := List.mem_map.mp inBlocks
    refine ofJump ?_ (piece_of_mem_insertGotosBlocks jumpIn) isInserted
    rw [written]
    exact List.mem_append_left _ (List.mem_append_left _ jumpIn)
  · split at inDecl
    · exact absurd inDecl List.not_mem_nil
    · exact absurd (isPlainCode_of_flatMap (isPlainCode_insertPairmaskDecl _ _) inDecl) noJump
  · obtain ⟨jump, jumpIn, isInserted⟩ := List.mem_map.mp inGotos
    refine ofJump ?_ (piece_of_mem_insertGotos jumpIn) isInserted
    rw [written]
    exact List.mem_append_left _ (List.mem_append_right _ jumpIn)
  · split at inStamps
    · exact absurd inStamps List.not_mem_nil
    · obtain ⟨stamp, stampIn, rfl⟩ := List.mem_map.mp inStamps
      exact absurd (isPlainCode_stamp stampIn) noJump

/-- An analysed function is written as its activations run it. -/
theorem writes_functionText (sameBody : myfunction.body = f.body) :
    Writes compiler.sm state.functionTag myfunction (functionText compiler f state myfunction) := by
  constructor
  · rfl
  · exact sameBody.symm
  · exact exists_written_sublist sameBody
  · exact fun _ insertedMem _ jumpMem => hgoto_of_inserted sameBody insertedMem jumpMem
  · have code : (functionText compiler f state myfunction).cleanup.code =
        .code "//hecaton cleanup code\n" :: cleanupCode
          (compiler.rewriter.getRewrittenText (insertedCode compiler f state myfunction))
          state.functionTag (countGotos compiler f state myfunction) myfunction := rfl
    have decided : (bowknot compiler.sm myfunction).cleanup =
        cleanupOf myfunction (numberOfGotos compiler.sm myfunction) := rfl
    rw [code, decided, cleanupOf, cleanupCode]
    cases isClosing : myfunction.isClosing with
    | true => rfl
    | false =>
        have sameCount : countGotos compiler f state myfunction =
            numberOfGotos compiler.sm myfunction := by
          rw [countGotos, numberOfGotos, isClosing, if_neg Bool.false_ne_true, Nat.zero_add, sameBody]
        rw [sameCount, if_neg Bool.false_ne_true, if_neg Bool.false_ne_true]
        by_cases jumps : numberOfGotos compiler.sm myfunction > 0
        · rw [if_pos jumps, if_pos jumps]
          exact ⟨_, rfl⟩
        · rw [if_neg jumps, if_neg jumps]

end OneFunction

/-! ## The run over a translation unit -/

/-- The texts of the functions from a label number on. -/
inductive WritesFrom (sm : SourceManager) : Nat → List Function → List FunctionText → Prop
  | nil (functionTag : Nat) : WritesFrom sm functionTag [] []
  | cons {functionTag : Nat} {myfunction : Function} {text : FunctionText}
      {functions : List Function} {texts : List FunctionText}
      (writes : Writes sm functionTag myfunction text)
      (later : WritesFrom sm (functionTag + 1) functions texts) :
      WritesFrom sm functionTag (myfunction :: functions) (text :: texts)

/-- What a run of the work alone writes. -/
theorem run_instrument {decls : List FunctionDecl} {source target : PassState}
    (ran : run (instrument compiler) decls source = some target) :
    ∃ functions texts, target.listOfFunctions = source.listOfFunctions ++ functions ∧
      target.texts = source.texts ++ texts ∧
      List.Forall₂ (fun f myfunction =>
        analyse compiler.db compiler.sm compiler.gotostr f.body f.typeStr f.name = some myfunction)
        decls functions ∧
      WritesFrom compiler.sm source.functionTag functions texts := by
  induction decls generalizing source with
  | nil =>
      cases ran
      exact ⟨[], [], by simp, by simp, .nil, .nil _⟩
  | cons f rest ih =>
      obtain ⟨middle, worked, later⟩ := (run_cons_eq_some_iff _ _ _ _ _).mp ran
      obtain ⟨myfunction, analysed, rfl⟩ := Option.map_eq_some_iff.mp worked
      obtain ⟨functions, texts, allFunctions, allTexts, related, writes⟩ := ih later
      refine ⟨myfunction :: functions, functionText compiler f source myfunction :: texts, ?_, ?_,
        .cons analysed related, .cons (writes_functionText (analyse_fields analysed).2) writes⟩
      · rw [allFunctions, writeFunction, List.append_assoc, List.singleton_append]
      · rw [allTexts, writeFunction, List.append_assoc, List.singleton_append]

end Hecaton.Pass2
