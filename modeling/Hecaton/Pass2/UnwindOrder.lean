import Hecaton.Pass2.Cleanup

/-!
# The order of the cleanup code

An error path undoes what was done in an order of its own.  The cleanup code
keeps it inside one EHC, but it puts later EHCs before earlier ones, outer EHCs
before all new statements, and later outer EHCs before earlier ones.
-/

namespace Hecaton.Pass2

open Hecaton.Clang
open Hecaton.Library

/-- The text of an entry's statement, as the source has it. -/
def CleanupEntry.text (entry : CleanupEntry) : String := stmtText entry.stmt

/-- The new statements of an EHC that are not left to the outer EHCs. -/
def EHC.innerStmts (ehc : EHC) : List EHCNewStmt :=
  ehc.ehcNewStmts.filter fun newstmt => !newstmt.isOuter

/-! ## Reading the order off the three rules -/

theorem hasKey_outerEntries {index : Nat} {outerEhcs : List OuterEHC} {x : String} :
    HasKey CleanupEntry.text (outerEntries index outerEhcs) x ↔
      HasKey OuterEHC.text outerEhcs x := by
  induction outerEhcs generalizing index with
  | nil => simp [outerEntries, HasKey]
  | cons first rest ih =>
      rw [outerEntries, hasKey_append, ih, hasKey_cons, or_comm]
      simp [HasKey, CleanupEntry.text, OuterEHC.text, stmtText]

/-- Outer EHCs are written in reverse. -/
theorem precedes_outerEntries {index : Nat} {outerEhcs : List OuterEHC} {x y : String} :
    Precedes CleanupEntry.text (outerEntries index outerEhcs) x y ↔
      Precedes OuterEHC.text outerEhcs y x := by
  induction outerEhcs generalizing index with
  | nil => simp [outerEntries]
  | cons first rest ih =>
      rw [outerEntries, precedes_append, ih, hasKey_outerEntries, precedes_cons]
      simp only [precedes_cons, HasKey, precedes_nil, List.not_mem_nil, List.mem_singleton,
        CleanupEntry.text, OuterEHC.text, stmtText]
      simp [and_comm, or_comm]

theorem hasKey_innerEntries {place j : Nat} {newStmts : List EHCNewStmt} {x : String} :
    HasKey CleanupEntry.text (innerEntries place j newStmts) x ↔
      HasKey EHCNewStmt.text (newStmts.filter fun newstmt => !newstmt.isOuter) x := by
  induction newStmts generalizing j with
  | nil => simp [innerEntries, HasKey]
  | cons first rest ih =>
      cases outer : first.isOuter with
      | true => simpa [innerEntries, outer] using ih
      | false =>
          simp only [innerEntries, outer, Bool.false_eq_true, if_false, Bool.not_false,
            List.filter_cons_of_pos, hasKey_cons, ih]
          rfl

/-- New statements are written in order. -/
theorem precedes_innerEntries {place j : Nat} {newStmts : List EHCNewStmt} {x y : String} :
    Precedes CleanupEntry.text (innerEntries place j newStmts) x y ↔
      Precedes EHCNewStmt.text (newStmts.filter fun newstmt => !newstmt.isOuter) x y := by
  induction newStmts generalizing j with
  | nil => simp [innerEntries]
  | cons first rest ih =>
      cases outer : first.isOuter with
      | true => simpa [innerEntries, outer] using ih
      | false =>
          simp only [innerEntries, outer, Bool.false_eq_true, if_false, Bool.not_false,
            List.filter_cons_of_pos, precedes_cons, ih, hasKey_innerEntries]
          rfl

theorem hasKey_ehcEntries {place : Nat} {ehcs : List EHC} {x : String} :
    HasKey CleanupEntry.text (ehcEntries place ehcs) x ↔
      ∃ ehc ∈ ehcs, HasKey EHCNewStmt.text ehc.innerStmts x := by
  induction ehcs generalizing place with
  | nil => simp [ehcEntries, HasKey]
  | cons first rest ih =>
      rw [ehcEntries, hasKey_append, ih, hasKey_innerEntries, or_comm]
      simp [EHC.innerStmts]

/-- EHCs are written in reverse. -/
theorem precedes_ehcEntries {place : Nat} {ehcs : List EHC} {x y : String} :
    Precedes CleanupEntry.text (ehcEntries place ehcs) x y ↔
      (∃ ehc ∈ ehcs, Precedes EHCNewStmt.text ehc.innerStmts x y) ∨
        ∃ first second, [first, second].Sublist ehcs ∧
          HasKey EHCNewStmt.text second.innerStmts x ∧
          HasKey EHCNewStmt.text first.innerStmts y := by
  induction ehcs generalizing place with
  | nil => simp [ehcEntries]
  | cons first rest ih =>
      rw [ehcEntries, precedes_append, ih, precedes_innerEntries, hasKey_ehcEntries,
        hasKey_innerEntries]
      constructor
      · rintro ((⟨ehc, ehcMem, inside⟩ | ⟨a, b, sub, keys⟩) | own | ⟨⟨ehc, ehcMem, keyX⟩, keyY⟩)
        · exact Or.inl ⟨ehc, List.mem_cons_of_mem _ ehcMem, inside⟩
        · exact Or.inr ⟨a, b, sub.cons first, keys⟩
        · exact Or.inl ⟨first, List.mem_cons_self, own⟩
        · exact Or.inr ⟨first, ehc, (List.singleton_sublist.mpr ehcMem).cons_cons first, keyX, keyY⟩
      · rintro (⟨ehc, ehcMem, inside⟩ | ⟨a, b, sub, keyX, keyY⟩)
        · rcases List.mem_cons.mp ehcMem with rfl | inRest
          · exact Or.inr (Or.inl inside)
          · exact Or.inl (Or.inl ⟨ehc, inRest, inside⟩)
        · cases sub with
          | cons _ inTail => exact Or.inl (Or.inr ⟨a, b, inTail, keyX, keyY⟩)
          | cons_cons _ inTail =>
              exact Or.inr (Or.inr ⟨⟨b, List.singleton_sublist.mp inTail, keyX⟩, keyY⟩)

/-- One text stands before another in the cleanup code by one of three rules. -/
theorem precedes_cleanupEntries {f : Function} {x y : String} :
    Precedes CleanupEntry.text (cleanupEntries f) x y ↔
      Precedes OuterEHC.text f.outerEHCs y x ∨
        ((∃ ehc ∈ f.EHCs, Precedes EHCNewStmt.text ehc.innerStmts x y) ∨
          ∃ first second, [first, second].Sublist f.EHCs ∧
            HasKey EHCNewStmt.text second.innerStmts x ∧
            HasKey EHCNewStmt.text first.innerStmts y) ∨
        (HasKey OuterEHC.text f.outerEHCs x ∧
          ∃ ehc ∈ f.EHCs, HasKey EHCNewStmt.text ehc.innerStmts y) := by
  rw [cleanupEntries, precedes_append, precedes_outerEntries, precedes_ehcEntries,
    hasKey_outerEntries, hasKey_ehcEntries]

theorem hasKey_cleanupEntries {f : Function} {x : String} :
    HasKey CleanupEntry.text (cleanupEntries f) x ↔
      HasKey OuterEHC.text f.outerEHCs x ∨
        ∃ ehc ∈ f.EHCs, HasKey EHCNewStmt.text ehc.innerStmts x := by
  rw [cleanupEntries, hasKey_append, hasKey_outerEntries, hasKey_ehcEntries]

/-! ## Keeping the order -/

/-- Two statements of an EHC in a row, with different texts, that both appear in
the cleanup code and that no other EHC lists the other way round. -/
structure UnwindPair (f : Function) (pre : List EHC) (ehc : EHC) (post : List EHC)
    (s t : Stmt) : Prop where
  split : f.EHCs = pre ++ ehc :: post
  inOrder : [s, t].Sublist ehc.ehcStmts
  different : stmtText s ≠ stmtText t
  firstAppears : HasKey CleanupEntry.text (cleanupEntries f) (stmtText s)
  secondAppears : HasKey CleanupEntry.text (cleanupEntries f) (stmtText t)
  noOther : ∀ other ∈ pre ++ post, ¬ Precedes stmtText other.ehcStmts (stmtText t) (stmtText s)

/-- The cleanup code has no entry of `t` before one of `s`. -/
def EmitsBefore (f : Function) (s t : Stmt) : Prop :=
  ¬ Precedes CleanupEntry.text (cleanupEntries f) (stmtText t) (stmtText s)

/-- The cleanup code keeps the unwinding order of the function. -/
def KeepsUnwindOrder (f : Function) : Prop :=
  ∀ pre ehc post s t, UnwindPair f pre ehc post s t → EmitsBefore f s t

/-- The lists that the two statements end up in keep their order: `t` is no
outer EHC without `s` being one, the first taken call with the text of `s` does
not stand before the first with that of `t`, no EHC that records `s` stands
before one that records `t`, and their own EHC does not record `t` before `s`. -/
structure OrderHarmless (db : Database) (f : Function) (ehc : EHC) (s t : Stmt) : Prop where
  together : ¬ (stmtText t ∈ outerTexts db f.body ∧ stmtText s ∉ outerTexts db f.body)
  outerOrder : ¬ FirstPrecedes stmtText (outerCalls db f.body) (stmtText s) (stmtText t)
  ehcOrder : ¬ ∃ first second, [first, second].Sublist f.EHCs ∧
    HasKey EHCNewStmt.text second.innerStmts (stmtText t) ∧
    HasKey EHCNewStmt.text first.innerStmts (stmtText s)
  ownOrder : ¬ Precedes EHCNewStmt.text ehc.innerStmts (stmtText t) (stmtText s)

section Collected

variable {db : Database} {sm : SourceManager} {f : Function}

theorem hasKey_outerEHCs {x : String} :
    HasKey OuterEHC.text (collectUndos db sm f).outerEHCs x ↔ x ∈ outerTexts db f.body := by
  have viaStmts : HasKey OuterEHC.text (collectUndos db sm f).outerEHCs x ↔
      HasKey stmtText ((collectUndos db sm f).outerEHCs.map OuterEHC.stmt) x := by
    simp [HasKey, OuterEHC.text, stmtText]
  rw [viaStmts, collectUndos_outerEHCs, hasKey_firstByKey]
  exact List.mem_map.symm

theorem precedes_outerEHCs {x y : String} (different : x ≠ y) :
    Precedes OuterEHC.text (collectUndos db sm f).outerEHCs x y ↔
      FirstPrecedes stmtText (outerCalls db f.body) x y := by
  have viaStmts : Precedes stmtText ((collectUndos db sm f).outerEHCs.map OuterEHC.stmt) x y ↔
      Precedes OuterEHC.text (collectUndos db sm f).outerEHCs x y := precedes_map
  rw [← viaStmts, collectUndos_outerEHCs, precedes_firstByKey different]

/-- An inner new statement has no text of an outer EHC. -/
theorem not_mem_outerTexts_of_inner (fresh : Fresh f.EHCs) {ehc : EHC}
    (ehcMem : ehc ∈ (collectUndos db sm f).EHCs) {x : String}
    (inner : HasKey EHCNewStmt.text ehc.innerStmts x) : x ∉ outerTexts db f.body := by
  obtain ⟨newstmt, newMem, rfl⟩ := inner
  obtain ⟨newMem, isInner⟩ := List.mem_filter.mp newMem
  obtain ⟨pre, source, post, _, records⟩ := records_collectUndos fresh ehcMem
  intro listed
  rw [records.outer newstmt newMem listed] at isInner
  exact absurd isInner (by decide)

/-- The inner new statements of an EHC are among its statements, in order. -/
theorem precedes_ehcStmts_of_inner (fresh : Fresh f.EHCs) {ehc : EHC}
    (ehcMem : ehc ∈ (collectUndos db sm f).EHCs) {x y : String}
    (inner : Precedes EHCNewStmt.text ehc.innerStmts x y) : Precedes stmtText ehc.ehcStmts x y := by
  obtain ⟨pre, source, post, _, records⟩ := records_collectUndos fresh ehcMem
  have viaStmts : Precedes stmtText (ehc.innerStmts.map EHCNewStmt.stmt) x y := precedes_map.mpr inner
  apply viaStmts.mono
  have taken : (takenStmts f.body pre source).Sublist source.ehcStmts := by
    rw [takenStmts]
    split
    · exact List.nil_sublist _
    · exact List.filter_sublist
  rw [records.stmts]
  refine List.Sublist.trans ?_ taken
  rw [← records.taken]
  exact List.filter_sublist.map _

/-- Two statements keep their order exactly when the lists they end up in do. -/
theorem emitsBefore_iff (fresh : Fresh f.EHCs) {pre post : List EHC} {ehc : EHC} {s t : Stmt}
    (pair : UnwindPair (collectUndos db sm f) pre ehc post s t) :
    EmitsBefore (collectUndos db sm f) s t ↔ OrderHarmless db (collectUndos db sm f) ehc s t := by
  have outerAppears : ∀ x, x ∉ outerTexts db f.body →
      HasKey CleanupEntry.text (cleanupEntries (collectUndos db sm f)) x →
      ∃ e ∈ (collectUndos db sm f).EHCs, HasKey EHCNewStmt.text e.innerStmts x := by
    intro x notOuter appears
    rcases hasKey_cleanupEntries.mp appears with outer | inner
    · exact absurd (hasKey_outerEHCs.mp outer) notOuter
    · exact inner
  have ehcMem : ehc ∈ (collectUndos db sm f).EHCs := by
    rw [pair.split]
    exact List.mem_append_cons_self
  rw [EmitsBefore, precedes_cleanupEntries, precedes_outerEHCs pair.different, hasKey_outerEHCs]
  constructor
  · intro keeps
    simp only [not_or] at keeps
    obtain ⟨outerKeeps, ⟨ownKeeps, ehcKeeps⟩, mixedKeeps⟩ := keeps
    constructor
    · rintro ⟨outerT, innerS⟩
      exact mixedKeeps ⟨outerT, outerAppears _ innerS pair.firstAppears⟩
    · exact outerKeeps
    · exact ehcKeeps
    · intro reversed
      exact ownKeeps ⟨ehc, ehcMem, reversed⟩
  · rintro harmless (outerReversed | (⟨other, otherMem, reversed⟩ | ehcReversed) | ⟨outerT, e, eMem, innerS⟩)
    · exact harmless.outerOrder outerReversed
    · -- Another EHC that records them in the other order also lists them so.
      have listed := precedes_ehcStmts_of_inner fresh otherMem reversed
      rw [pair.split] at otherMem
      rcases List.mem_append.mp otherMem with before | own
      · exact pair.noOther other (List.mem_append_left _ before) listed
      · rcases List.mem_cons.mp own with rfl | behind
        · exact harmless.ownOrder reversed
        · exact pair.noOther other (List.mem_append_right _ behind) listed
    · exact harmless.ehcOrder ehcReversed
    · exact harmless.together ⟨outerT, not_mem_outerTexts_of_inner fresh eMem innerS⟩

theorem keepsUnwindOrder_iff_of (fresh : Fresh f.EHCs) :
    KeepsUnwindOrder (collectUndos db sm f) ↔
      ∀ pre ehc post s t, UnwindPair (collectUndos db sm f) pre ehc post s t →
        OrderHarmless db (collectUndos db sm f) ehc s t := by
  constructor
  · intro keeps pre ehc post s t pair
    exact (emitsBefore_iff fresh pair).mp (keeps pre ehc post s t pair)
  · intro harmless pre ehc post s t pair
    exact (emitsBefore_iff fresh pair).mpr (harmless pre ehc post s t pair)

end Collected

/-- The cleanup code of a function keeps the unwinding order of its EHCs exactly
when, for every two statements of an EHC that no other EHC lists the other way
round, the lists they end up in keep their order. -/
theorem generateCleanupStr_keepsUnwindOrder_iff (db : Database) (sm : SourceManager)
    (rewritten : Stmt → String) (functionTag numberOfGotos : Nat) (f : Function)
    (fresh : Fresh f.EHCs) (notClosing : f.isClosing = false) (gotos : numberOfGotos > 0) :
    (generateCleanupStr rewritten functionTag numberOfGotos (collectUndos db sm f)).1 =
        cleanupHeader functionTag f.name ++
          String.join ((cleanupEntries (collectUndos db sm f)).map
            (CleanupEntry.render rewritten)) ++
          cleanupFooter f.typeStr ∧
      (KeepsUnwindOrder (collectUndos db sm f) ↔
        ∀ pre ehc post s t, UnwindPair (collectUndos db sm f) pre ehc post s t →
          OrderHarmless db (collectUndos db sm f) ehc s t) := by
  obtain ⟨_, sameClosing, sameName, sameType⟩ := collectUndos_fields db sm f
  refine ⟨?_, keepsUnwindOrder_iff_of fresh⟩
  rw [← sameName, ← sameType]
  exact generateCleanupStr_eq (sameClosing.trans notClosing) gotos

/-- `{ kfree(a->b); kfree(a); return; }` -/
def freesMemberFirst : Stmt :=
  Build.block 5 20 2 90 6
    [Build.callOf 6 25 3 "kfree" "a->b", Build.callOf 9 45 4 "kfree" "a", Build.returnOf 12 70 5]

/-- `{ if (x < 0) { kfree(a->b); kfree(a); return; } }` -/
def freesMemberOnError : Stmt :=
  Build.block 0 0 1 100 7 [Build.ifOf 1 10 (Build.lessZero 2 14 2 "x") freesMemberFirst]

/-- The function after the block steps: one EHC that frees the member, then the
struct. -/
def freesMemberBlocks : Function where
  body := freesMemberOnError
  EHCs := [{
    head := ⟨.cond, freesMemberFirst⟩
    ehcStmts := [Build.callOf 6 25 3 "kfree" "a->b", Build.callOf 9 45 4 "kfree" "a"] }]
  typeStr := "void"
  name := "probe"

set_option maxRecDepth 10000 in
theorem findBlocks_freesMember :
    findBlocks databaseHeader (fun _ => "")
      { body := freesMemberOnError, typeStr := "void", name := "probe" } =
        some freesMemberBlocks :=
  rfl

theorem analyse_freesMember :
    analyse databaseHeader Build.shortTokens (fun _ => "") freesMemberOnError "void" "probe" =
      some (collectUndos databaseHeader Build.shortTokens freesMemberBlocks) := by
  have open_ : containsAny closingIndicator "probe" = false := by decide +kernel
  rw [analyse]
  simp only [open_, Bool.false_eq_true, if_false]
  rw [findBlocks_freesMember, Option.map_some]

theorem fresh_freesMember : Fresh freesMemberBlocks.EHCs := by
  simp [Fresh, freesMemberBlocks]

theorem generateCleanupStr_keepsUnwindOrder_freesMember :
    (generateCleanupStr stmtText 0 1
        (collectUndos databaseHeader Build.shortTokens freesMemberBlocks)).1 =
        cleanupHeader 0 "probe" ++
          String.join ((cleanupEntries
            (collectUndos databaseHeader Build.shortTokens freesMemberBlocks)).map
              (CleanupEntry.render stmtText)) ++
          cleanupFooter "void" ∧
      (KeepsUnwindOrder (collectUndos databaseHeader Build.shortTokens freesMemberBlocks) ↔
        ∀ pre ehc post s t,
          UnwindPair (collectUndos databaseHeader Build.shortTokens freesMemberBlocks)
            pre ehc post s t →
          OrderHarmless databaseHeader
            (collectUndos databaseHeader Build.shortTokens freesMemberBlocks) ehc s t) :=
  generateCleanupStr_keepsUnwindOrder_iff databaseHeader Build.shortTokens stmtText 0 1
    freesMemberBlocks fresh_freesMember rfl (by decide)

theorem isTaken_kfree {id offset line : Nat} {arg : String} (Body : Stmt) :
    (outerEhcOf databaseHeader Body (Build.callOf id offset line "kfree" arg)).isSome = true := by
  obtain ⟨_, taken⟩ := @outerEhcOf_isSome databaseHeader Body
    (Build.callOf id offset line "kfree" arg) "kfree" rfl
    (pairedUndoFncs_taken (by decide)) (isInMacro_of_not_macroID _ rfl)
  simp [taken]

/-- The member is freed before the struct in the body. -/
theorem firstPrecedes_freesMember :
    FirstPrecedes stmtText (outerCalls databaseHeader freesMemberOnError) "kfree(a->b)"
      "kfree(a)" := by
  let before := Build.ifOf 1 10 (Build.lessZero 2 14 2 "x") freesMemberFirst ::
    ((Build.lessZero 2 14 2 "x").nodes ++ [freesMemberFirst])
  let behind := [Build.nameRef 7 25 3 "kfree", Build.nameRef 8 31 3 "a->b",
    Build.callOf 9 45 4 "kfree" "a", Build.nameRef 10 45 4 "kfree", Build.nameRef 11 51 4 "a",
    Build.returnOf 12 70 5]
  have nodes : freesMemberOnError.descendants =
      before ++ Build.callOf 6 25 3 "kfree" "a->b" :: behind := rfl
  let taken := fun stmt => (outerEhcOf databaseHeader freesMemberOnError stmt).isSome
  have member : taken (Build.callOf 6 25 3 "kfree" "a->b") = true := isTaken_kfree _
  have struct_ : taken (Build.callOf 9 45 4 "kfree" "a") = true := isTaken_kfree _
  have otherTexts : ∀ stmt ∈ before, stmtText stmt ≠ "kfree(a)" := by decide
  change FirstPrecedes stmtText (freesMemberOnError.descendants.filter taken) _ _
  rw [nodes, List.filter_append, List.filter_cons_of_pos member]
  refine ⟨_, _, _, rfl, by decide, ?_, ?_⟩
  · intro stmt stmtMem
    exact otherTexts stmt (List.mem_filter.mp stmtMem).1
  · exact ⟨Build.callOf 9 45 4 "kfree" "a", List.mem_filter.mpr ⟨by simp [behind], struct_⟩,
      by decide⟩

/-- The cleanup code of that function frees the struct before its member. -/
theorem generateCleanupStr_frees_struct_first :
    ∃ f, analyse databaseHeader Build.shortTokens (fun _ => "") freesMemberOnError "void" "probe" =
      some f ∧ ¬ KeepsUnwindOrder f := by
  refine ⟨_, analyse_freesMember, ?_⟩
  intro keeps
  have precedes := firstPrecedes_freesMember
  obtain ⟨ehc, single⟩ := List.length_eq_one_iff.mp
    (collectUndos_EHCs_length databaseHeader Build.shortTokens freesMemberBlocks)
  obtain ⟨pre, source, post, split, records⟩ :=
    records_collectUndos fresh_freesMember (single ▸ List.mem_singleton_self ehc)
  have isBlock : source ∈ freesMemberBlocks.EHCs := split ▸ List.mem_append_cons_self
  rw [List.mem_singleton.mp isBlock] at records
  have appears : ∀ text ∈ outerTexts databaseHeader freesMemberOnError,
      HasKey CleanupEntry.text
        (cleanupEntries (collectUndos databaseHeader Build.shortTokens freesMemberBlocks)) text :=
    fun text listed => hasKey_cleanupEntries.mpr (Or.inl (hasKey_outerEHCs.mpr listed))
  obtain ⟨before, first, behind, calls, firstText, _, second, secondMem, secondText⟩ := precedes
  have pair : UnwindPair (collectUndos databaseHeader Build.shortTokens freesMemberBlocks) [] ehc []
      (Build.callOf 6 25 3 "kfree" "a->b") (Build.callOf 9 45 4 "kfree" "a") := {
    split := single
    inOrder := by simp [records.stmts]
    different := by decide
    firstAppears := appears _ (List.mem_map.mpr ⟨first, calls ▸ List.mem_append_cons_self, firstText⟩)
    secondAppears := appears _ (List.mem_map.mpr ⟨second, by simp [calls, secondMem], secondText⟩)
    noOther := by simp }
  have harmless := (emitsBefore_iff fresh_freesMember pair).mp (keeps _ _ _ _ _ pair)
  apply harmless.outerOrder
  rw [(collectUndos_fields databaseHeader Build.shortTokens freesMemberBlocks).1]
  exact firstPrecedes_freesMember

end Hecaton.Pass2
