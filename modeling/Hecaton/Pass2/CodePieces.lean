import Hecaton.Pass2.Cleanup
import Hecaton.Pass2.Stamps

/-!
# Jumps and labels in the inserted code

The code that the pass inserts, cut into the jumps to a cleanup label, the labels that
the pass defines and everything else.  Put together, the pieces of the cleanup code are
what `generate_cleanup_str` returns.
-/

namespace Hecaton.Pass2

open Hecaton.Clang
open Hecaton.Library

/-- A piece of code: text of the source or of the pass, a jump `hgoto(hecaton_labelN)`
that the pass writes, or a label `hecaton_labelN:` that it defines. -/
inductive CodePiece
  | code (str : String)
  | hgoto (functionTag : Nat)
  | label (functionTag : Nat)
  deriving DecidableEq

def CodePiece.render : CodePiece → String
  | code str => str
  | hgoto functionTag => "hgoto(hecaton_label" ++ toString functionTag ++ ")"
  | label functionTag => "hecaton_label" ++ toString functionTag ++ ":"

/-- The text of a list of pieces. -/
def renderCode (pieces : List CodePiece) : String := String.join (pieces.map CodePiece.render)

/-! ## The cleanup code -/

/-- A statement behind the test of its mask bit. -/
def guardedCode (pairmaskId : BitVec 64) (stmtCode : List CodePiece) : List CodePiece :=
  .code ("\tif( hecaton_check_bit(hecaton_pairmask, " ++ toString pairmaskId.toNat ++ ") )\n\t" ++
    "\t") :: stmtCode ++ [.code ";\n"]

def CleanupEntry.code (rewritten : Stmt → List CodePiece) (entry : CleanupEntry) :
    List CodePiece :=
  match entry.source with
  | .inner _ _ => guardedCode entry.pairmaskId (rewritten entry.stmt)
  | .outer _ => .code "//outer block\n" :: guardedCode entry.pairmaskId (rewritten entry.stmt)

/-- The cleanup code of a closing function. -/
def closingCode (functionTag : Nat) (name : String) : List CodePiece :=
  [.code "\tif(hecaton_global_check < 0)\x7b\n\t", .label functionTag,
    .code ("\n" ++ "\t\tprintk(KERN_ALERT\"Hecaton reboot on EHC itself " ++ name ++
      "\"); /*HecatonJump" ++ toString functionTag ++ "*/" ++
      "\n\t\tmsleep(2000);\n\t\tkernel_restart(NULL);\n\t\x7d\n")]

/-- The label and the message of any other function. -/
def headerCode (functionTag : Nat) (name : String) : List CodePiece :=
  let printStr := "printk(KERN_ALERT\"Hecaton\x27s bowknot cleanup " ++ name ++
    ", pair_mask =%llx, hecaton_test=%llx\\n\", hecaton_pairmask, hecaton_test); /*HecatonJump" ++
    toString functionTag ++ "*/"
  let hfStr := "current->hf = 0;"
  [.code "if(hecaton_global_check < 0)\x7b\n", .label functionTag,
    .code ("\n\t" ++ printStr ++ "\n\t" ++ hfStr ++ "\n\t" ++ "" ++ "\n")]

/-- `generate_cleanup_str` in pieces. -/
def cleanupCode (rewritten : Stmt → List CodePiece) (functionTag numberOfGotos : Nat)
    (f : Function) : List CodePiece :=
  if f.isClosing then closingCode functionTag f.name
  else if numberOfGotos > 0 then
    headerCode functionTag f.name ++ (cleanupEntries f).flatMap (CleanupEntry.code rewritten) ++
      [.code (cleanupFooter f.typeStr)]
  else []

theorem renderCode_nil : renderCode [] = "" := rfl

theorem renderCode_cons (piece : CodePiece) (pieces : List CodePiece) :
    renderCode (piece :: pieces) = piece.render ++ renderCode pieces := by
  simp [renderCode]

theorem renderCode_singleton (piece : CodePiece) : renderCode [piece] = piece.render := by
  simp [renderCode]

theorem renderCode_append (first second : List CodePiece) :
    renderCode (first ++ second) = renderCode first ++ renderCode second := by
  simp [renderCode]

theorem renderCode_flatMap {α : Type} (pieces : α → List CodePiece) (items : List α) :
    renderCode (items.flatMap pieces) =
      String.join (items.map fun item => renderCode (pieces item)) := by
  induction items with
  | nil => rfl
  | cons item rest ih => simp [renderCode_append, ih]

theorem renderCode_guardedCode (pairmaskId : BitVec 64) (stmtCode : List CodePiece) :
    renderCode (guardedCode pairmaskId stmtCode) =
      guardedStmt pairmaskId (renderCode stmtCode) := by
  delta guardedCode guardedStmt
  rw [List.cons_append, renderCode_cons, renderCode_append, renderCode_singleton]
  exact String.append_assoc.symm

theorem renderCode_entry (rewritten : Stmt → List CodePiece) (entry : CleanupEntry) :
    renderCode (entry.code rewritten) = entry.render fun stmt => renderCode (rewritten stmt) := by
  cases source : entry.source with
  | inner _ _ =>
      simp only [CleanupEntry.code, CleanupEntry.render, source]
      exact renderCode_guardedCode _ _
  | outer _ =>
      simp only [CleanupEntry.code, CleanupEntry.render, source]
      rw [renderCode_cons, renderCode_guardedCode]
      rfl

-- The strings are long literals; the two rearrangements below are therefore made with variables.
theorem renderCode_closingCode (functionTag : Nat) (name : String) :
    renderCode (closingCode functionTag name) = closingStr functionTag name := by
  have rearranged : ∀ opening label tag newline print jump comment ending : String,
      opening ++ (label ++ tag ++ ":" ++
          (newline ++ print ++ name ++ jump ++ tag ++ comment ++ ending)) =
        opening ++ label ++ tag ++ (":" ++ newline) ++ print ++ name ++ jump ++ tag ++ comment ++
          ending := by
    intro opening label tag newline print jump comment ending
    simp only [String.append_assoc]
  have opening : "\tif(hecaton_global_check < 0)\x7b\n\thecaton_label" =
      "\tif(hecaton_global_check < 0)\x7b\n\t" ++ "hecaton_label" := by decide +kernel
  have labelEnd : ":\n" = ":" ++ "\n" := by decide +kernel
  delta closingCode closingStr
  rw [opening, labelEnd, renderCode_cons, renderCode_cons, renderCode_singleton]
  exact rearranged _ _ _ _ _ _ _ _

theorem renderCode_headerCode (functionTag : Nat) (name : String) :
    renderCode (headerCode functionTag name) = cleanupHeader functionTag name := by
  have rearranged : ∀ opening label newline print hf tab empty ending : String,
      opening ++ (label ++ (newline ++ print ++ newline ++ hf ++ tab ++ empty ++ ending)) =
        opening ++ label ++ newline ++ print ++ newline ++ hf ++ tab ++ empty ++ ending := by
    intro opening label newline print hf tab empty ending
    simp only [String.append_assoc]
  delta headerCode cleanupHeader
  rw [renderCode_cons, renderCode_cons, renderCode_singleton]
  exact rearranged _ _ _ _ _ _ _ _

/-- The pieces are those of the string that the source builds. -/
theorem renderCode_cleanupCode (rewritten : Stmt → List CodePiece) (functionTag numberOfGotos : Nat)
    (f : Function) :
    renderCode (cleanupCode rewritten functionTag numberOfGotos f) =
      (generateCleanupStr (fun stmt => renderCode (rewritten stmt)) functionTag numberOfGotos f).1 := by
  rw [cleanupCode]
  by_cases closing : f.isClosing = true
  · rw [if_pos closing, generateCleanupStr, if_pos closing, renderCode_closingCode]
  · rw [if_neg closing]
    by_cases gotos : numberOfGotos > 0
    · rw [if_pos gotos, generateCleanupStr_eq (Bool.eq_false_iff.mpr closing) gotos,
        renderCode_append, renderCode_append, renderCode_headerCode, renderCode_flatMap,
        renderCode_singleton]
      have sameEntries : (fun entry => renderCode (CleanupEntry.code rewritten entry)) =
          CleanupEntry.render fun stmt => renderCode (rewritten stmt) :=
        funext (renderCode_entry rewritten)
      rw [sameEntries]
      rfl
    · rw [if_neg gotos, generateCleanupStr, if_neg closing, renderCode_nil]
      simp [gotos]

/-! ## Insertions -/

/-- Code and the place it is inserted at. -/
structure CodeInsertion where
  loc : SourceLocation
  code : List CodePiece

/-- The text of an update of the pair mask. -/
def stampStr (update : BitMask.Update 64) : String :=
  (if update.value then " hecaton_set_bit(hecaton_pairmask, "
    else " hecaton_unset_bit(hecaton_pairmask, ") ++ toString update.id.toNat ++ ");"

/-- What a piece is written as; behind a statement a jump ends its line. -/
def Piece.code (functionTag : Nat) (ending : String) : Piece → List CodePiece
  | .hgoto => [.code " ", .hgoto functionTag, .code ending]
  | .stamp update => [.code (stampStr update)]

def Insertion.code (functionTag : Nat) (ending : String) (insertion : Insertion) : CodeInsertion :=
  ⟨insertion.loc, insertion.piece.code functionTag ending⟩

/-- The `Rewriter` of the compiler, as far as the pass asks it for the text of a statement:
that text is the source text of the statement and what has been inserted into it. -/
structure Rewriter where
  getRewrittenText : List CodeInsertion → Stmt → List CodePiece
  sourceOrInserted : ∀ insertions stmt, ∀ piece ∈ getRewrittenText insertions stmt,
    (∃ str, piece = .code str) ∨ ∃ insertion ∈ insertions, piece ∈ insertion.code

end Hecaton.Pass2
