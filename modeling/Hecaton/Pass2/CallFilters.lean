import Hecaton.Clang.Build
import Hecaton.Library.Occurrences
import Hecaton.Pass2.Filters

/-!
# Calls under the text filters

Three filters take statements out of the EHCs by the words in their texts.  For a call they mean
the name of the function, but the words are searched in the arguments as well.
-/

namespace Hecaton.Pass2

open Hecaton.Clang Hecaton.Library

/-- The three filters that search words, one after the other. -/
def textFilters (f : Function) : Function :=
  handleCriticalSections (handleLoops (deleteBlacklistFunctions f))

/-- Some filter finds a word of its list in its text of the statement. -/
def isRemovedByText (stmt : Stmt) : Bool :=
  containsAny blacklist stmt.info.printed || containsAny loopList stmt.info.text ||
    containsAny lockList stmt.info.printed

/-- The statement is one of the EHC at the index. -/
def InEhc (f : Function) (index : Nat) (stmt : Stmt) : Prop :=
  ∃ ehc, f.EHCs[index]? = some ehc ∧ stmt ∈ ehc.ehcStmts

theorem textFilters_EHCs (f : Function) :
    (textFilters f).EHCs = f.EHCs.map (eraseStmts isRemovedByText) := by
  rw [textFilters, handleCriticalSections, handleLoops, deleteBlacklistFunctions]
  dsimp only
  rw [List.map_map, List.map_map]
  congr 1
  funext ehc
  simp only [Function.comp_apply, eraseStmts, List.filter_filter]
  congr 2
  funext stmt
  rw [isRemovedByText]
  cases stmt.isNull <;> simp [Bool.and_comm, Bool.and_left_comm]

/-- The filters keep a statement unless a word is found. -/
theorem inEhc_textFilters_iff {f : Function} {index : Nat} {stmt : Stmt} :
    InEhc (textFilters f) index stmt ↔
      InEhc f index stmt ∧ (stmt.isNull || !isRemovedByText stmt) = true := by
  rw [InEhc, textFilters_EHCs, List.getElem?_map]
  constructor
  · rintro ⟨ehc, atIndex, member⟩
    obtain ⟨source, isSource, rfl⟩ := Option.map_eq_some_iff.mp atIndex
    obtain ⟨inSource, kept⟩ := List.mem_filter.mp member
    exact ⟨⟨source, isSource, inSource⟩, kept⟩
  · rintro ⟨⟨source, isSource, inSource⟩, kept⟩
    exact ⟨_, by rw [isSource]; rfl, List.mem_filter.mpr ⟨inSource, kept⟩⟩

/-! ## The parts of a call -/

/-- A call statement `f(args)`.  The source text is that of the call, or of the macro it comes
from. -/
structure CallStmt where
  stmt : Stmt
  fncname : String
  printedArgs : String
  callee : stmt.directCallee = some fncname
  printed : stmt.info.printed = fncname ++ "(" ++ printedArgs ++ ")"

/-- A text up to its first opening parenthesis, and what stands behind it. -/
def cutAtParen : List Char → List Char × List Char
  | [] => ([], [])
  | ch :: rest =>
      if ch = '(' then ([ch], rest)
      else
        let (front, behind) := cutAtParen rest
        (ch :: front, behind)

/-- A word of the list occurs in the text. -/
def occursIn (list : List String) (text : List Char) : Bool :=
  list.any fun word => decide (word.toList <:+: text)

/-- The words that are searched in the printed text. -/
def printedWords : List String := blacklist ++ lockList

namespace CallStmt

variable (call : CallStmt)

/-- A word stands before the arguments. -/
def nameRemoves : Bool :=
  occursIn printedWords call.fncname.toList ||
    occursIn loopList (cutAtParen call.stmt.info.text.toList).1

/-- A word stands in the arguments. -/
def argsRemove : Bool :=
  occursIn printedWords call.printedArgs.toList ||
    occursIn loopList (cutAtParen call.stmt.info.text.toList).2

end CallStmt

/-! ## Words and parentheses -/

theorem occursIn_append (list list' : List String) (text : List Char) :
    occursIn (list ++ list') text = (occursIn list text || occursIn list' text) :=
  List.any_append

theorem occursIn_congr {list : List String} {text text' text'' : List Char}
    (split : ∀ word ∈ list,
      word.toList <:+: text ↔ word.toList <:+: text' ∨ word.toList <:+: text'') :
    occursIn list text = (occursIn list text' || occursIn list text'') := by
  rw [Bool.eq_iff_iff, Bool.or_eq_true]
  simp only [occursIn, List.any_eq_true, decide_eq_true_eq]
  constructor
  · rintro ⟨word, wordMem, isPart⟩
    rcases (split word wordMem).mp isPart with inFirst | inSecond
    · exact Or.inl ⟨word, wordMem, inFirst⟩
    · exact Or.inr ⟨word, wordMem, inSecond⟩
  · rintro (⟨word, wordMem, inFirst⟩ | ⟨word, wordMem, inSecond⟩)
    · exact ⟨word, wordMem, (split word wordMem).mpr (Or.inl inFirst)⟩
    · exact ⟨word, wordMem, (split word wordMem).mpr (Or.inr inSecond)⟩

/-- No word that is searched in the printed text has a parenthesis. -/
theorem noParen_of_mem_printedWords {word : String} (wordMem : word ∈ printedWords) :
    '(' ∉ word.toList ∧ ')' ∉ word.toList ∧ word.toList ≠ [] := by
  have all : printedWords.all (fun word =>
      !(word.toList.contains '(') && (!(word.toList.contains ')') && !word.toList.isEmpty)) =
      true := by decide +kernel
  simpa using List.all_eq_true.mp all word wordMem

/-- The words that are searched in the source text have one at their end at most. -/
theorem noParen_of_mem_loopList {word : String} (wordMem : word ∈ loopList) :
    '(' ∉ word.toList.dropLast ∧ word.toList ≠ [] := by
  have all : loopList.all (fun word =>
      !(word.toList.dropLast.contains '(') && !word.toList.isEmpty) = true := by
    decide +kernel
  simpa using List.all_eq_true.mp all word wordMem

theorem cutAtParen_append (text : List Char) :
    (cutAtParen text).1 ++ (cutAtParen text).2 = text := by
  induction text with
  | nil => rfl
  | cons ch rest ih =>
      rw [cutAtParen]
      split
      · rfl
      · rw [List.cons_append, ih]

/-- The first part ends with the parenthesis, or nothing stands behind it. -/
theorem cutAtParen_fst (text : List Char) :
    (cutAtParen text).2 = [] ∨ ∃ front, (cutAtParen text).1 = front ++ ['('] := by
  induction text with
  | nil => exact Or.inl rfl
  | cons ch rest ih =>
      rw [cutAtParen]
      split
      · rename_i isParen
        exact Or.inr ⟨[], by rw [isParen]; rfl⟩
      · rcases ih with isNil | ⟨front, isFront⟩
        · exact Or.inl isNil
        · refine Or.inr ⟨ch :: front, ?_⟩
          dsimp only
          rw [isFront]
          rfl

theorem occursIn_loopList_cut (text : List Char) :
    occursIn loopList text =
      (occursIn loopList (cutAtParen text).1 || occursIn loopList (cutAtParen text).2) := by
  apply occursIn_congr
  intro word wordMem
  obtain ⟨absent, nonempty⟩ := noParen_of_mem_loopList wordMem
  have whole := cutAtParen_append text
  rcases cutAtParen_fst text with isNil | ⟨front, isFront⟩
  · rw [isNil, List.append_nil] at whole
    rw [isNil, whole, List.infix_nil]
    exact (or_iff_left nonempty).symm
  · rw [isFront, List.append_assoc, List.singleton_append] at whole
    rw [isFront, ← infix_append_cons_iff_of_dropLast absent, whole]

/-- In the printed text of a call a word stands in the name or in the arguments. -/
theorem occursIn_printed (call : CallStmt) :
    occursIn printedWords call.stmt.info.printed.toList =
      (occursIn printedWords call.fncname.toList ||
        occursIn printedWords call.printedArgs.toList) := by
  apply occursIn_congr
  intro word wordMem
  obtain ⟨noOpening, noClosing, nonempty⟩ := noParen_of_mem_printedWords wordMem
  have text : call.stmt.info.printed.toList =
      call.fncname.toList ++ '(' :: (call.printedArgs.toList ++ ')' :: []) := by
    rw [call.printed]
    simp
  rw [text, infix_append_cons_iff noOpening, infix_append_cons_iff noClosing, List.infix_nil,
    or_iff_left nonempty]

/-- A call is removed for what stands before its arguments or for what stands in them. -/
theorem isRemovedByText_call (call : CallStmt) :
    isRemovedByText call.stmt = (call.nameRemoves || call.argsRemove) := by
  have printed := occursIn_printed call
  have text := occursIn_loopList_cut call.stmt.info.text.toList
  have removed : isRemovedByText call.stmt =
      (occursIn printedWords call.stmt.info.printed.toList ||
        occursIn loopList call.stmt.info.text.toList) := by
    rw [printedWords, occursIn_append, isRemovedByText, Bool.or_assoc, Bool.or_assoc]
    congr 1
    exact Bool.or_comm _ _
  rw [removed, printed, text, CallStmt.nameRemoves, CallStmt.argsRemove]
  ac_rfl

/-- A call of an EHC is kept unless a word stands before or in its arguments. -/
theorem call_inEhc_textFilters_iff {f : Function} {index : Nat} (call : CallStmt)
    (member : InEhc f index call.stmt) :
    InEhc (textFilters f) index call.stmt ↔
      call.nameRemoves = false ∧ call.argsRemove = false := by
  have present := Stmt.isNull_eq_false (Stmt.ne_null_of_directCallee call.callee)
  rw [inEhc_textFilters_iff, present, isRemovedByText_call, Bool.false_or, Bool.not_eq_true',
    Bool.or_eq_false_iff]
  exact and_iff_right member

/-! ## Calls of one function -/

/-- Two calls of one function are kept both or neither, whatever EHCs they stand in and
whatever their arguments are. -/
def CallsDecidedAlike (fncname : String) : Prop :=
  ∀ (f f' : Function) (index index' : Nat) (call call' : CallStmt),
    call.fncname = fncname → call'.fncname = fncname →
    InEhc f index call.stmt → InEhc f' index' call'.stmt →
    (InEhc (textFilters f) index call.stmt ↔ InEhc (textFilters f') index' call'.stmt)

/-- A call of the function that a macro without arguments stands for. -/
def callInMacro (fncname arg : String) : CallStmt where
  stmt := .node
    { id := 1
      beginLoc := ⟨10, 2, true⟩
      endLoc := ⟨10, 2, true⟩
      printed := fncname ++ "(" ++ arg ++ ")"
      text := "CLEANUP" }
    (.callExpr (some fncname)) []
  fncname := fncname
  printedArgs := arg
  callee := rfl
  printed := rfl

/-- A function with an EHC of one statement. -/
def functionOf (stmts : List Stmt) : Function where
  body := .null
  EHCs := [{ head := { type := .cond, headStmt := .null }, ehcStmts := stmts }]
  typeStr := "int (void)"
  name := "f"

theorem callsDecidedAlike_iff (fncname : String) :
    CallsDecidedAlike fncname ↔ occursIn printedWords fncname.toList = true := by
  constructor
  · intro alike
    by_contra noWord
    rw [Bool.not_eq_true] at noWord
    have inFunction : ∀ call : CallStmt, InEhc (functionOf [call.stmt]) 0 call.stmt :=
      fun call => ⟨_, rfl, List.mem_singleton.mpr rfl⟩
    have same := alike _ _ 0 0 (callInMacro fncname "dev") (callInMacro fncname "pr_dev") rfl rfl
      (inFunction _) (inFunction _)
    have noLoop : occursIn loopList (cutAtParen "CLEANUP".toList).1 = false := by decide +kernel
    have noLoop' : occursIn loopList (cutAtParen "CLEANUP".toList).2 = false := by decide +kernel
    have plain : occursIn printedWords "dev".toList = false := by decide +kernel
    have hit : occursIn printedWords "pr_dev".toList = true := by decide +kernel
    rw [call_inEhc_textFilters_iff _ (inFunction _), call_inEhc_textFilters_iff _ (inFunction _)]
      at same
    simp only [CallStmt.nameRemoves, CallStmt.argsRemove, callInMacro, Stmt.info, noWord, noLoop,
      noLoop', plain, hit, Bool.or_false, and_self, Bool.true_eq_false, and_false,
      iff_false, not_true_eq_false] at same
  · intro hasWord f f' index index' call call' isCall isCall' member member'
    have removes : ∀ call : CallStmt, call.fncname = fncname → call.nameRemoves = true := by
      intro call isCall
      rw [CallStmt.nameRemoves, isCall, hasWord, Bool.true_or]
    rw [call_inEhc_textFilters_iff call member, call_inEhc_textFilters_iff call' member',
      removes call isCall, removes call' isCall']
    simp

/-- A call of a function is decided by what stands before its arguments exactly when a word
stands there or none stands in the arguments.  All calls of the function are decided alike
exactly when its name has a word that is searched in the printed text. -/
theorem textFilters_decide_calls_iff (fncname : String) :
    (∀ (f : Function) (index : Nat) (call : CallStmt), call.fncname = fncname →
      InEhc f index call.stmt →
      ((InEhc (textFilters f) index call.stmt ↔ call.nameRemoves = false) ↔
        (call.nameRemoves = true ∨ call.argsRemove = false))) ∧
    (CallsDecidedAlike fncname ↔ occursIn printedWords fncname.toList = true) := by
  refine ⟨?_, callsDecidedAlike_iff fncname⟩
  intro f index call _ member
  rw [call_inEhc_textFilters_iff call member]
  cases call.nameRemoves <;> cases call.argsRemove <;> simp

/-- The statement `release(arg);`. -/
def releaseCall (arg : String) : CallStmt where
  stmt := Build.callOf 1 10 2 "release" arg
  fncname := "release"
  printedArgs := arg
  callee := rfl
  printed := rfl

/-- Of two calls of `release` in one EHC, the one with `pr_` in its argument is removed. -/
theorem textFilters_remove_release :
    ¬ (InEhc (textFilters (functionOf [(releaseCall "dev").stmt, (releaseCall "pr_dev").stmt])) 0
          (releaseCall "dev").stmt ↔
        InEhc (textFilters (functionOf [(releaseCall "dev").stmt, (releaseCall "pr_dev").stmt])) 0
          (releaseCall "pr_dev").stmt) := by
  have member : InEhc (functionOf [(releaseCall "dev").stmt, (releaseCall "pr_dev").stmt]) 0
      (releaseCall "dev").stmt := ⟨_, rfl, List.mem_cons_self⟩
  have member' : InEhc (functionOf [(releaseCall "dev").stmt, (releaseCall "pr_dev").stmt]) 0
      (releaseCall "pr_dev").stmt := ⟨_, rfl, List.mem_cons_of_mem _ List.mem_cons_self⟩
  have noName : (releaseCall "dev").nameRemoves = false := by decide +kernel
  have noArgs : (releaseCall "dev").argsRemove = false := by decide +kernel
  have hitArgs : (releaseCall "pr_dev").argsRemove = true := by decide +kernel
  rw [call_inEhc_textFilters_iff _ member, call_inEhc_textFilters_iff _ member', noName, noArgs,
    hitArgs]
  simp

end Hecaton.Pass2
