import Hecaton.Pass2.Analysis

/-!
# The cleanup code

`generate_cleanup_str` writes one guarded undo statement for each inner new
statement and for each outer EHC.  Statements of one EHC keep their order, the
EHCs are put before each other, and the outer EHCs before all of them.
-/

namespace Hecaton.Pass2

open Hecaton.Clang
open Hecaton.Library

/-- The end of the cleanup code, by the return type. -/
def returnStr (typeStr : String) : String :=
  if contains typeStr "enum" then "\treturn -1;\n\x7d\n"
  else if ["int", "long", "int32_t", "int64_t"].contains typeStr then "\treturn -1;\n\x7d\n"
  else if ["uint64_t", "uint32_t", "unsigned int", "ssize_t", "unsigned long"].contains typeStr then
    "\treturn 0;\n\x7d\n"
  else if typeStr = "irqreturn_t" then "\treturn IRQ_HANDLED;\n\x7d\n"
  else if typeStr = "void" then "\treturn;\n\x7d\n"
  else "\treturn NULL;\n\x7d\n"

/-- A statement behind the test of its mask bit. -/
def guardedStmt (pairmaskId : BitVec 64) (stmtStr : String) : String :=
  "\tif( hecaton_check_bit(hecaton_pairmask, " ++ toString pairmaskId.toNat ++ ") )\n\t" ++
    "\t" ++ stmtStr ++ ";\n"

/-- `SCORE_MAYBE_BLOCKS`. -/
def scoreMaybeBlocksWeight : Int := 8

/-- The score after a new statement of a verified block. -/
def scoreVerified (score : ConfidenceScore) : ConfidenceScore :=
  if score.initFlag = 1371 then
    { score with scoreMaybeBlocks := score.scoreMaybeBlocks - scoreMaybeBlocksWeight }
  else { score with scoreMaybeBlocks := -scoreMaybeBlocksWeight, initFlag := 1371 }

/-- The loop over the new statements of one EHC.  `rewritten` gives the text of a
statement after the insertions of this pass. -/
def cleanupOfNewStmts (rewritten : Stmt → String) (score : ConfidenceScore) :
    List EHCNewStmt → String × ConfidenceScore
  | [] => ("", score)
  | newstmt :: rest =>
      if newstmt.isOuter then cleanupOfNewStmts rewritten score rest
      else
        let score := if newstmt.type = .verified then scoreVerified score else score
        let (ehcStr, score) := cleanupOfNewStmts rewritten score rest
        (guardedStmt newstmt.pairmaskId (rewritten newstmt.stmt) ++ ehcStr, score)

/-- The loop over the EHCs. -/
def cleanupOfEhcs (rewritten : Stmt → String) (outstr : String) (score : ConfidenceScore) :
    List EHC → String × ConfidenceScore
  | [] => (outstr, score)
  | ehc :: rest =>
      let (ehcStr, score) := cleanupOfNewStmts rewritten score ehc.ehcNewStmts
      cleanupOfEhcs rewritten (ehcStr ++ outstr) score rest

/-- The loop over the outer EHCs. -/
def cleanupOfOuterEhcs (rewritten : Stmt → String) (outstr : String) : List OuterEHC → String
  | [] => outstr
  | ehcOuter :: rest =>
      let ehcOuterStr := "//outer block\n" ++
        guardedStmt ehcOuter.pairmaskId (rewritten ehcOuter.stmt)
      cleanupOfOuterEhcs rewritten (ehcOuterStr ++ outstr) rest

/-- The cleanup code of a closing function. -/
def closingStr (functionTag : Nat) (name : String) : String :=
  "\tif(hecaton_global_check < 0)\x7b\n\thecaton_label" ++ toString functionTag ++ ":\n" ++
    "\t\tprintk(KERN_ALERT\"Hecaton reboot on EHC itself " ++ name ++ "\"); /*HecatonJump" ++
    toString functionTag ++ "*/" ++ "\n\t\tmsleep(2000);\n\t\tkernel_restart(NULL);\n\t\x7d\n"

/-- What stands before the undo statements: the label and a message. -/
def cleanupHeader (functionTag : Nat) (name : String) : String :=
  let labelStr := "hecaton_label" ++ toString functionTag ++ ":"
  let printStr := "printk(KERN_ALERT\"Hecaton\x27s bowknot cleanup " ++ name ++
    ", pair_mask =%llx, hecaton_test=%llx\\n\", hecaton_pairmask, hecaton_test); /*HecatonJump" ++
    toString functionTag ++ "*/"
  let hfStr := "current->hf = 0;"
  "if(hecaton_global_check < 0)\x7b\n" ++ labelStr ++ "\n\t" ++ printStr ++ "\n\t" ++ hfStr ++
    "\n\t" ++ "" ++ "\n"

/-- What stands behind the undo statements. -/
def cleanupFooter (typeStr : String) : String := "\tcurrent->hf = 1;\n" ++ returnStr typeStr

/-- `generate_cleanup_str`: the cleanup code and the confidence score after it. -/
def generateCleanupStr (rewritten : Stmt → String) (functionTag numberOfGotos : Nat)
    (f : Function) : String × ConfidenceScore :=
  if f.isClosing then (closingStr functionTag f.name, f.confidenceScore)
  else
    let (outstr, score) :=
      cleanupOfEhcs rewritten (cleanupFooter f.typeStr) f.confidenceScore f.EHCs
    let outstr := cleanupOfOuterEhcs rewritten outstr f.outerEHCs
    if numberOfGotos > 0 then (cleanupHeader functionTag f.name ++ outstr, score) else ("", score)

/-! ## The entries of the cleanup code -/

/-- What an undo statement of the cleanup code is made from: a new statement of
an EHC, or an outer EHC. -/
inductive EntrySource
  | inner (ehc newstmt : Nat)
  | outer (index : Nat)
  deriving DecidableEq

/-- An undo statement of the cleanup code. -/
structure CleanupEntry where
  source : EntrySource
  stmt : Stmt
  pairmaskId : BitVec 64

/-- How an entry is written. -/
def CleanupEntry.render (rewritten : Stmt → String) (entry : CleanupEntry) : String :=
  match entry.source with
  | .inner _ _ => guardedStmt entry.pairmaskId (rewritten entry.stmt)
  | .outer _ => "//outer block\n" ++ guardedStmt entry.pairmaskId (rewritten entry.stmt)

/-- The entries of the EHC at a place, from its new statement `j` on. -/
def innerEntries (place j : Nat) : List EHCNewStmt → List CleanupEntry
  | [] => []
  | newstmt :: rest =>
      if newstmt.isOuter then innerEntries place (j + 1) rest
      else
        { source := .inner place j, stmt := newstmt.stmt, pairmaskId := newstmt.pairmaskId } ::
          innerEntries place (j + 1) rest

/-- The entries of the EHCs from a place on: later EHCs stand first. -/
def ehcEntries (place : Nat) : List EHC → List CleanupEntry
  | [] => []
  | ehc :: rest => ehcEntries (place + 1) rest ++ innerEntries place 0 ehc.ehcNewStmts

/-- The entries of the outer EHCs from an index on: later ones stand first. -/
def outerEntries (index : Nat) : List OuterEHC → List CleanupEntry
  | [] => []
  | outerEhc :: rest =>
      outerEntries (index + 1) rest ++
        [{ source := .outer index, stmt := outerEhc.stmt, pairmaskId := outerEhc.pairmaskId }]

/-- The entries of a function, in the order of the cleanup code. -/
def cleanupEntries (f : Function) : List CleanupEntry :=
  outerEntries 0 f.outerEHCs ++ ehcEntries 0 f.EHCs

variable {rewritten : Stmt → String}

theorem cleanupOfNewStmts_eq (score : ConfidenceScore) (place j : Nat)
    (newStmts : List EHCNewStmt) :
    (cleanupOfNewStmts rewritten score newStmts).1 =
      String.join ((innerEntries place j newStmts).map (CleanupEntry.render rewritten)) := by
  induction newStmts generalizing score j with
  | nil => simp [cleanupOfNewStmts, innerEntries]
  | cons newstmt rest ih =>
      cases outer : newstmt.isOuter with
      | true => simpa [cleanupOfNewStmts, innerEntries, outer] using ih score (j + 1)
      | false =>
          simp [cleanupOfNewStmts, innerEntries, outer, ih _ (j + 1), CleanupEntry.render]

theorem cleanupOfEhcs_eq (outstr : String) (score : ConfidenceScore) (place : Nat)
    (ehcs : List EHC) :
    (cleanupOfEhcs rewritten outstr score ehcs).1 =
      String.join ((ehcEntries place ehcs).map (CleanupEntry.render rewritten)) ++ outstr := by
  induction ehcs generalizing outstr score place with
  | nil => simp [cleanupOfEhcs, ehcEntries]
  | cons ehc rest ih =>
      simp only [cleanupOfEhcs, ehcEntries, List.map_append, String.join_append]
      rw [ih _ _ (place + 1), cleanupOfNewStmts_eq score place 0, String.append_assoc]

theorem cleanupOfOuterEhcs_eq (outstr : String) (index : Nat) (outerEhcs : List OuterEHC) :
    cleanupOfOuterEhcs rewritten outstr outerEhcs =
      String.join ((outerEntries index outerEhcs).map (CleanupEntry.render rewritten)) ++
        outstr := by
  induction outerEhcs generalizing outstr index with
  | nil => simp [cleanupOfOuterEhcs, outerEntries]
  | cons outerEhc rest ih =>
      simp only [cleanupOfOuterEhcs, outerEntries, List.map_append, String.join_append]
      rw [ih _ (index + 1), String.append_assoc]
      simp [CleanupEntry.render, String.append_assoc]

/-- The cleanup code of a function that is not closing and has a `goto` to it is
its entries between header and footer. -/
theorem generateCleanupStr_eq {f : Function} (notClosing : f.isClosing = false)
    {functionTag numberOfGotos : Nat} (gotos : numberOfGotos > 0) :
    (generateCleanupStr rewritten functionTag numberOfGotos f).1 =
      cleanupHeader functionTag f.name ++
        String.join ((cleanupEntries f).map (CleanupEntry.render rewritten)) ++
        cleanupFooter f.typeStr := by
  simp only [generateCleanupStr, notClosing, Bool.false_eq_true, if_false, gotos, if_true]
  rw [cleanupOfOuterEhcs_eq _ 0, cleanupOfEhcs_eq _ _ 0]
  simp only [cleanupEntries, List.map_append, String.join_append, String.append_assoc]

/-! ## Each entry stands once -/

theorem mem_innerEntries {place j : Nat} {newStmts : List EHCNewStmt} {entry : CleanupEntry} :
    entry ∈ innerEntries place j newStmts ↔
      ∃ i newstmt, newStmts[i]? = some newstmt ∧ newstmt.isOuter = false ∧
        entry = ⟨.inner place (j + i), newstmt.stmt, newstmt.pairmaskId⟩ := by
  induction newStmts generalizing j with
  | nil => simp [innerEntries]
  | cons first rest ih =>
      have inRest : entry ∈ innerEntries place (j + 1) rest ↔
          ∃ i newstmt, (first :: rest)[i + 1]? = some newstmt ∧ newstmt.isOuter = false ∧
            entry = ⟨.inner place (j + (i + 1)), newstmt.stmt, newstmt.pairmaskId⟩ := by
        rw [ih]
        simp [Nat.add_assoc, Nat.add_comm 1]
      cases outer : first.isOuter with
      | true =>
          simp only [innerEntries, outer, if_true, inRest]
          constructor
          · rintro ⟨i, found⟩
            exact ⟨i + 1, found⟩
          · rintro ⟨i, newstmt, atIndex, inner, equal⟩
            cases i with
            | zero =>
                cases atIndex
                rw [outer] at inner
                exact absurd inner.symm Bool.false_ne_true
            | succ i => exact ⟨i, newstmt, atIndex, inner, equal⟩
      | false =>
          simp only [innerEntries, outer, Bool.false_eq_true, if_false, List.mem_cons, inRest]
          constructor
          · rintro (rfl | ⟨i, found⟩)
            · exact ⟨0, first, rfl, outer, rfl⟩
            · exact ⟨i + 1, found⟩
          · rintro ⟨i, newstmt, atIndex, inner, equal⟩
            cases i with
            | zero =>
                cases atIndex
                exact Or.inl equal
            | succ i => exact Or.inr ⟨i, newstmt, atIndex, inner, equal⟩

theorem mem_ehcEntries {place : Nat} {ehcs : List EHC} {entry : CleanupEntry} :
    entry ∈ ehcEntries place ehcs ↔
      ∃ i ehc, ehcs[i]? = some ehc ∧ entry ∈ innerEntries (place + i) 0 ehc.ehcNewStmts := by
  induction ehcs generalizing place with
  | nil => simp [ehcEntries]
  | cons first rest ih =>
      simp only [ehcEntries, List.mem_append, ih]
      constructor
      · rintro (⟨i, ehc, atIndex, member⟩ | member)
        · exact ⟨i + 1, ehc, atIndex, by rwa [Nat.add_assoc, Nat.add_comm 1] at member⟩
        · exact ⟨0, first, rfl, member⟩
      · rintro ⟨i, ehc, atIndex, member⟩
        cases i with
        | zero =>
            cases atIndex
            exact Or.inr member
        | succ i =>
            exact Or.inl ⟨i, ehc, atIndex, by rwa [Nat.add_assoc, Nat.add_comm 1]⟩

theorem mem_outerEntries {index : Nat} {outerEhcs : List OuterEHC} {entry : CleanupEntry} :
    entry ∈ outerEntries index outerEhcs ↔
      ∃ i outerEhc, outerEhcs[i]? = some outerEhc ∧
        entry = ⟨.outer (index + i), outerEhc.stmt, outerEhc.pairmaskId⟩ := by
  induction outerEhcs generalizing index with
  | nil => simp [outerEntries]
  | cons first rest ih =>
      simp only [outerEntries, List.mem_append, ih, List.mem_singleton]
      constructor
      · rintro (⟨i, outerEhc, atIndex, equal⟩ | equal)
        · exact ⟨i + 1, outerEhc, atIndex, by rwa [Nat.add_assoc, Nat.add_comm 1] at equal⟩
        · exact ⟨0, first, rfl, equal⟩
      · rintro ⟨i, outerEhc, atIndex, equal⟩
        cases i with
        | zero =>
            cases atIndex
            exact Or.inr equal
        | succ i =>
            exact Or.inl ⟨i, outerEhc, atIndex, by rwa [Nat.add_assoc, Nat.add_comm 1]⟩

theorem innerEntries_nodup (place j : Nat) (newStmts : List EHCNewStmt) :
    ((innerEntries place j newStmts).map CleanupEntry.source).Nodup := by
  induction newStmts generalizing j with
  | nil => simp [innerEntries]
  | cons first rest ih =>
      simp only [innerEntries]
      split
      · exact ih (j + 1)
      · rw [List.map_cons, List.nodup_cons]
        refine ⟨?_, ih (j + 1)⟩
        intro repeated
        obtain ⟨entry, entryMem, equal⟩ := List.mem_map.mp repeated
        obtain ⟨i, newstmt, _, _, rfl⟩ := mem_innerEntries.mp entryMem
        injection equal with _ sameIndex
        omega

theorem ehcEntries_nodup (place : Nat) (ehcs : List EHC) :
    ((ehcEntries place ehcs).map CleanupEntry.source).Nodup := by
  induction ehcs generalizing place with
  | nil => simp [ehcEntries]
  | cons first rest ih =>
      rw [ehcEntries, List.map_append, List.nodup_append]
      refine ⟨ih (place + 1), innerEntries_nodup _ _ _, ?_⟩
      intro source sourceRest other sourceOwn equal
      obtain ⟨entry, entryMem, rfl⟩ := List.mem_map.mp sourceRest
      obtain ⟨own, ownMem, rfl⟩ := List.mem_map.mp sourceOwn
      obtain ⟨i, ehc, _, inner⟩ := mem_ehcEntries.mp entryMem
      obtain ⟨_, _, _, _, rfl⟩ := mem_innerEntries.mp inner
      obtain ⟨_, _, _, _, rfl⟩ := mem_innerEntries.mp ownMem
      injection equal with samePlace _
      omega

theorem outerEntries_nodup (index : Nat) (outerEhcs : List OuterEHC) :
    ((outerEntries index outerEhcs).map CleanupEntry.source).Nodup := by
  induction outerEhcs generalizing index with
  | nil => simp [outerEntries]
  | cons first rest ih =>
      rw [outerEntries, List.map_append, List.nodup_append]
      refine ⟨ih (index + 1), by simp, ?_⟩
      intro source sourceRest other sourceOwn equal
      obtain ⟨entry, entryMem, rfl⟩ := List.mem_map.mp sourceRest
      obtain ⟨i, outerEhc, _, rfl⟩ := mem_outerEntries.mp entryMem
      simp only [List.map_cons, List.map_nil, List.mem_singleton] at sourceOwn
      rw [sourceOwn] at equal
      injection equal with sameIndex
      omega

/-- No two entries are made from the same statement. -/
theorem cleanupEntries_nodup (f : Function) :
    ((cleanupEntries f).map CleanupEntry.source).Nodup := by
  rw [cleanupEntries, List.map_append, List.nodup_append]
  refine ⟨outerEntries_nodup _ _, ehcEntries_nodup _ _, ?_⟩
  intro source sourceOuter other sourceInner equal
  obtain ⟨entry, entryMem, rfl⟩ := List.mem_map.mp sourceOuter
  obtain ⟨own, ownMem, rfl⟩ := List.mem_map.mp sourceInner
  obtain ⟨_, _, _, rfl⟩ := mem_outerEntries.mp entryMem
  obtain ⟨_, _, _, inner⟩ := mem_ehcEntries.mp ownMem
  obtain ⟨_, _, _, _, rfl⟩ := mem_innerEntries.mp inner
  exact absurd equal (by simp)

/-- The function has exactly one entry made from the source, the given one. -/
def HasOneEntry (f : Function) (entry : CleanupEntry) : Prop :=
  ((cleanupEntries f).filter fun other => other.source = entry.source) = [entry]

theorem hasOneEntry_of_mem {f : Function} {entry : CleanupEntry}
    (entryMem : entry ∈ cleanupEntries f) : HasOneEntry f entry := by
  have nodup := cleanupEntries_nodup f
  unfold HasOneEntry
  generalize cleanupEntries f = entries at entryMem nodup
  induction entries with
  | nil => simp at entryMem
  | cons first rest ih =>
      rw [List.map_cons, List.nodup_cons] at nodup
      rcases List.mem_cons.mp entryMem with rfl | inRest
      · rw [List.filter_cons_of_pos (by simp), List.filter_eq_nil_iff.mpr]
        intro other otherMem sameSource
        exact nodup.1 (List.mem_map.mpr ⟨other, otherMem, of_decide_eq_true sameSource⟩)
      · have different : first.source ≠ entry.source := fun same =>
          nodup.1 (same ▸ List.mem_map_of_mem inRest)
        rw [List.filter_cons_of_neg (by simpa using different)]
        exact ih inRest nodup.2

/-! ## No recorded undo is lost -/

/-- A new statement that is not left to an outer EHC has exactly one entry, with
its identifier.  One that is has exactly one outer EHC of its text, and that has
exactly one entry, with its own identifier. -/
structure KeepsUndo (f : Function) (place j : Nat) (newstmt : EHCNewStmt) : Prop where
  inner : newstmt.isOuter = false →
    HasOneEntry f ⟨.inner place j, newstmt.stmt, newstmt.pairmaskId⟩
  outer : newstmt.isOuter = true →
    ∃ i outerEhc, f.outerEHCs[i]? = some outerEhc ∧ outerEhc.text = newstmt.text ∧
      (∀ i' other, f.outerEHCs[i']? = some other → other.text = newstmt.text → i' = i) ∧
      HasOneEntry f ⟨.outer i, outerEhc.stmt, outerEhc.pairmaskId⟩

variable {db : Database} {sm : SourceManager} {gotostr : Stmt → String}

/-- Outer EHCs have different texts. -/
theorem collectUndos_texts_nodup (db : Database) (sm : SourceManager) (f : Function) :
    ((collectUndos db sm f).outerEHCs.map OuterEHC.text).Nodup := by
  have texts : (collectUndos db sm f).outerEHCs.map OuterEHC.text =
      ((collectUndos db sm f).outerEHCs.map OuterEHC.stmt).map stmtText := by
    rw [List.map_map]
    rfl
  rw [texts, collectUndos_outerEHCs]
  exact firstByKey_map_nodup _

/-- Every text of a call that is taken is the text of an outer EHC. -/
theorem exists_outerEhc (sm : SourceManager) {f : Function} {text : String} (listed : text ∈ outerTexts db f.body) :
    ∃ outerEhc ∈ (collectUndos db sm f).outerEHCs, outerEhc.text = text := by
  have first : HasKey stmtText (firstByKey stmtText (outerCalls db f.body)) text :=
    (hasKey_firstByKey _).mpr (List.mem_map.mp listed)
  rw [← collectUndos_outerEHCs db sm] at first
  obtain ⟨stmt, stmtMem, rfl⟩ := first
  obtain ⟨outerEhc, outerMem, rfl⟩ := List.mem_map.mp stmtMem
  exact ⟨outerEhc, outerMem, rfl⟩

/-- A call to a function with a known partner is an unlock call, or is listed by
the database and not selective. -/
theorem pairedUndoFncs_taken {fncname : String} (paired : fncname ∈ pairedUndoFncs) :
    fncname ∈ unlockFncs ∨ (fncname ∈ databaseHeader.ehcFncs ∧ fncname ∉ selectiveFncs) := by
  simp only [pairedUndoFncs, List.mem_cons, List.not_mem_nil, or_false] at paired
  rcases paired with rfl | rfl | rfl | rfl | rfl
  · exact Or.inr ⟨kfree_kzfree_listed.1, by decide⟩
  · exact Or.inr ⟨kfree_kzfree_listed.2, by decide⟩
  · exact Or.inl (by decide)
  · exact Or.inl (by decide)
  · exact Or.inl (by decide)

/-- A new statement that is left to the outer EHCs has the text of one. -/
theorem text_mem_outerTexts {f : Function} (fresh : Fresh f.EHCs)
    (below : StmtsBelow f.body f.EHCs) {ehc : EHC}
    (ehcMem : ehc ∈ (collectUndos databaseHeader sm f).EHCs) {newstmt : EHCNewStmt}
    (newMem : newstmt ∈ ehc.ehcNewStmts) (isOuter : newstmt.isOuter = true) :
    newstmt.text ∈ outerTexts databaseHeader f.body := by
  obtain ⟨pre, source, post, split, records⟩ := records_collectUndos fresh ehcMem
  have taken : newstmt.stmt ∈ takenStmts f.body pre source := by
    rw [← records.taken]
    exact List.mem_map_of_mem newMem
  obtain ⟨_, listed, nonnull, _, outside⟩ := mem_takenStmts.mp taken
  have stmtNonnull : newstmt.stmt ≠ .null := by
    intro isNull
    rw [isNull] at nonnull
    exact Bool.false_ne_true nonnull.symm
  have stmtBelow := below source (by simp [split]) _ listed stmtNonnull
  rcases records.reason newstmt newMem isOuter with sameText | ⟨fncname, paired, callee⟩
  · exact sameText
  · obtain ⟨_, isTaken⟩ := outerEhcOf_isSome callee (pairedUndoFncs_taken paired) outside
    exact List.mem_map.mpr ⟨newstmt.stmt,
      List.mem_filter.mpr ⟨stmtBelow, by simp [isTaken]⟩, rfl⟩

/-- The steps that collect the undos lose none of them. -/
theorem keepsUndo_collectUndos {f : Function} (fresh : Fresh f.EHCs)
    (below : StmtsBelow f.body f.EHCs) {place j : Nat} {ehc : EHC} {newstmt : EHCNewStmt}
    (ehcAt : (collectUndos databaseHeader sm f).EHCs[place]? = some ehc)
    (newAt : ehc.ehcNewStmts[j]? = some newstmt) :
    KeepsUndo (collectUndos databaseHeader sm f) place j newstmt := by
  constructor
  · intro inner
    apply hasOneEntry_of_mem
    refine List.mem_append_right _ (mem_ehcEntries.mpr ⟨place, ehc, ehcAt, ?_⟩)
    exact mem_innerEntries.mpr ⟨j, newstmt, newAt, inner, by simp⟩
  · intro isOuter
    have listed := text_mem_outerTexts fresh below (List.mem_of_getElem? ehcAt)
      (List.mem_of_getElem? newAt) isOuter
    obtain ⟨outerEhc, outerMem, sameText⟩ := exists_outerEhc sm listed
    obtain ⟨i, atIndex⟩ := List.mem_iff_getElem?.mp outerMem
    refine ⟨i, outerEhc, atIndex, sameText, ?_, ?_⟩
    · intro i' other otherAt otherText
      have texts := collectUndos_texts_nodup databaseHeader sm f
      have textAt : ∀ (k : Nat) (o : OuterEHC), (collectUndos databaseHeader sm f).outerEHCs[k]? = some o →
          ((collectUndos databaseHeader sm f).outerEHCs.map OuterEHC.text)[k]? = some o.text := by
        intro k o found
        simp [found]
      have bound : i' < ((collectUndos databaseHeader sm f).outerEHCs.map OuterEHC.text).length :=
        (List.getElem?_eq_some_iff.mp (textAt i' other otherAt)).1
      apply (List.getElem?_inj bound texts).mp
      rw [textAt i' other otherAt, textAt i outerEhc atIndex, otherText, sameText]
    · apply hasOneEntry_of_mem
      exact List.mem_append_left _ (mem_outerEntries.mpr ⟨i, outerEhc, atIndex, by simp⟩)

/-- No undo that the analysis of a function records is lost on the way to its
cleanup code. -/
theorem analyse_keeps_undos (sm : SourceManager) (gotostr rewritten : Stmt → String)
    (FuncBody : Stmt) (TypeStr FuncName : String) (functionTag numberOfGotos : Nat) (f : Function)
    (analysed : analyse databaseHeader sm gotostr FuncBody TypeStr FuncName = some f)
    (notClosing : f.isClosing = false) (gotos : numberOfGotos > 0) :
    (generateCleanupStr rewritten functionTag numberOfGotos f).1 =
        cleanupHeader functionTag f.name ++
          String.join ((cleanupEntries f).map (CleanupEntry.render rewritten)) ++
          cleanupFooter f.typeStr ∧
      ∀ place ehc j newstmt, f.EHCs[place]? = some ehc → ehc.ehcNewStmts[j]? = some newstmt →
        KeepsUndo f place j newstmt := by
  refine ⟨generateCleanupStr_eq notClosing gotos, ?_⟩
  intro place ehc j newstmt ehcAt newAt
  simp only [analyse] at analysed
  split at analysed
  · cases analysed
    simp at ehcAt
  · obtain ⟨blocks, found, rfl⟩ := Option.map_eq_some_iff.mp analysed
    obtain ⟨sameBody, _, _, below, fresh⟩ := findBlocks_spec found
    rw [← sameBody] at below
    exact keepsUndo_collectUndos fresh below ehcAt newAt

/-- `{ if (x) { kfree(a); return; } }` -/
def freesOnError : Stmt :=
  Build.block 0 0 1 100 6
    [Build.ifOf 1 10 (Build.nameRef 2 14 2 "x")
      (Build.block 3 17 2 60 5 [Build.callOf 4 25 3 "kfree" "a", Build.returnOf 7 40 4])]

theorem recursiveVisitIf_freesOnError :
    recursiveVisitIf (fun _ => "") freesOnError =
      [{ type := .maybe
         headStmt :=
          Build.block 3 17 2 60 5 [Build.callOf 4 25 3 "kfree" "a", Build.returnOf 7 40 4] }] :=
  rfl

theorem wellFormed_freesOnError : WellFormedBody freesOnError where
  distinct := by simp [Stmt.Distinct, freesOnError, Build.block, Build.ifOf, Build.nameRef,
    Build.returnOf, Build.callOf, Stmt.info]
  compound := rfl
  labelled := by
    simp [LabelsHaveStmts, freesOnError, Build.block, Build.ifOf, Build.nameRef, Build.returnOf,
      Build.callOf, Stmt.isLabel, Stmt.isa]

/-- The analysis of that function ends, and its undos are kept. -/
theorem analyse_keeps_undos_freesOnError :
    ∃ f, analyse databaseHeader Build.shortTokens (fun _ => "") freesOnError "void" "probe" =
        some f ∧
      ∀ place ehc j newstmt, f.EHCs[place]? = some ehc → ehc.ehcNewStmts[j]? = some newstmt →
        KeepsUndo f place j newstmt := by
  have noGoto : ∀ head ∈ recursiveVisitIf (fun _ => "") freesOnError,
      GotoDefined freesOnError head := by
    rw [recursiveVisitIf_freesOnError]
    simp [GotoDefined]
  obtain ⟨ehcs, resolved⟩ := findEhcStmts_isSome wellFormed_freesOnError noGoto
  have open_ : containsAny closingIndicator "probe" = false := by decide +kernel
  obtain ⟨blocks, isBlocks⟩ : ∃ blocks, findBlocks databaseHeader (fun _ => "")
      { body := freesOnError, typeStr := "void", name := "probe" } = some blocks := by
    rw [findBlocks, resolved]
    exact ⟨_, rfl⟩
  have analysed : analyse databaseHeader Build.shortTokens (fun _ => "") freesOnError "void"
      "probe" = some (collectUndos databaseHeader Build.shortTokens blocks) := by
    simp only [analyse, open_, Bool.false_eq_true, if_false, isBlocks, Option.map_some]
  have notClosing : (collectUndos databaseHeader Build.shortTokens blocks).isClosing = false :=
    (findBlocks_spec isBlocks).2.1
  exact ⟨_, analysed, (analyse_keeps_undos Build.shortTokens (fun _ => "") stmtText freesOnError
    "void" "probe" 0 1 _ analysed notClosing (by decide)).2⟩

end Hecaton.Pass2
