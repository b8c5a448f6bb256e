import Hecaton.Clang.Build
import Hecaton.Pass2.ParentSearch
import Hecaton.Pass2.State

/-!
# The new statements of an EHC

`find_ehc_new_stmts` takes from every live EHC the statements that no earlier
EHC lists.  Earlier EHCs count whatever their type, and a statement in a macro
is compared with but never taken, so what is new is decided by the first EHC
that lists a text.
-/

namespace Hecaton.Pass2

open Hecaton.Clang

/-- Some statement of the EHC prints as the given text. -/
def EHC.lists (ehc : EHC) (printed : String) : Bool :=
  ehc.ehcStmts.any fun currStmt2 => !currStmt2.isNull && currStmt2.info.printed == printed

/-- `is_new_statement` after the loops over the EHCs before `ehc`. -/
def isNewStatement (earlier : List EHC) (currStmt : Stmt) : Bool :=
  !earlier.any fun ehc2 => ehc2.lists currStmt.info.printed

/-- The loop over the statements of one EHC. -/
def collectNewStmts (Body : Stmt) (earlier : List EHC) (type : EHCType) :
    List Stmt → List EHCNewStmt
  | [] => []
  | currStmt :: rest =>
      let others := collectNewStmts Body earlier type rest
      if currStmt.isNull then others
      else if isNewStatement earlier currStmt then
        if isInMacro currStmt Body then others
        else { stmt := currStmt, type := type } :: others
      else others

/-- One round of the loop over the EHCs. -/
def findNewStmtsOf (Body : Stmt) (earlier : List EHC) (ehc : EHC) : EHC :=
  if ehc.head.type == .denied then ehc
  else
    { ehc with
      ehcNewStmts :=
        ehc.ehcNewStmts ++ collectNewStmts Body earlier ehc.head.type ehc.ehcStmts }

/-- The loop over the EHCs, with those it has passed. -/
def findEhcNewStmtsLoop (Body : Stmt) (earlier : List EHC) : List EHC → List EHC
  | [] => []
  | ehc :: rest =>
      findNewStmtsOf Body earlier ehc :: findEhcNewStmtsLoop Body (earlier ++ [ehc]) rest

/-- `find_ehc_new_stmts`. -/
def findEhcNewStmts (f : Function) : Function :=
  { f with EHCs := findEhcNewStmtsLoop f.body [] f.EHCs }

/-! ## What is taken -/

variable {Body : Stmt}

theorem isNewStatement_iff {earlier : List EHC} {currStmt : Stmt} :
    isNewStatement earlier currStmt = true ↔
      ∀ ehc2 ∈ earlier, ehc2.lists currStmt.info.printed = false := by
  simp [isNewStatement]

/-- A statement from which the function takes a new statement. -/
def isTaken (Body : Stmt) (earlier : List EHC) (stmt : Stmt) : Bool :=
  !stmt.isNull && isNewStatement earlier stmt && !isInMacro stmt Body

theorem collectNewStmts_eq (earlier : List EHC) (type : EHCType) (stmts : List Stmt) :
    collectNewStmts Body earlier type stmts =
      (stmts.filter (isTaken Body earlier)).map fun stmt => { stmt := stmt, type := type } := by
  induction stmts with
  | nil => rfl
  | cons currStmt rest ih =>
      simp only [collectNewStmts, ih]
      by_cases null : currStmt.isNull = true
      · simp [isTaken, null]
      · by_cases new : isNewStatement earlier currStmt = true
        · by_cases inMacro : isInMacro currStmt Body = true
          · simp [isTaken, null, new, inMacro]
          · simp [isTaken, null, new, inMacro]
        · simp [isTaken, null, new]

/-- The statements taken from an EHC that stands behind `earlier`. -/
def takenStmts (Body : Stmt) (earlier : List EHC) (ehc : EHC) : List Stmt :=
  if ehc.head.type = .denied then [] else ehc.ehcStmts.filter (isTaken Body earlier)

theorem mem_takenStmts {earlier : List EHC} {ehc : EHC} {stmt : Stmt} :
    stmt ∈ takenStmts Body earlier ehc ↔
      ehc.head.type ≠ .denied ∧ stmt ∈ ehc.ehcStmts ∧ stmt.isNull = false ∧
        (∀ ehc2 ∈ earlier, ehc2.lists stmt.info.printed = false) ∧
        isInMacro stmt Body = false := by
  by_cases denied : ehc.head.type = .denied
  · simp [takenStmts, denied]
  · simp [takenStmts, denied, isTaken, isNewStatement_iff, and_assoc]

theorem findNewStmtsOf_newStmts {earlier : List EHC} {ehc : EHC}
    (fresh : ehc.ehcNewStmts = []) :
    (findNewStmtsOf Body earlier ehc).ehcNewStmts =
      (takenStmts Body earlier ehc).map fun stmt =>
        { stmt := stmt, type := ehc.head.type } := by
  by_cases denied : ehc.head.type = .denied
  · simp [findNewStmtsOf, takenStmts, denied, fresh]
  · simp [findNewStmtsOf, takenStmts, denied, fresh, collectNewStmts_eq]

theorem mem_findEhcNewStmtsLoop {earlier ehcs : List EHC} {out : EHC} :
    out ∈ findEhcNewStmtsLoop Body earlier ehcs ↔
      ∃ pre ehc post, ehcs = pre ++ ehc :: post ∧
        out = findNewStmtsOf Body (earlier ++ pre) ehc := by
  induction ehcs generalizing earlier with
  | nil => simp [findEhcNewStmtsLoop]
  | cons first rest ih =>
      simp only [findEhcNewStmtsLoop, List.mem_cons, ih]
      constructor
      · rintro (rfl | ⟨pre, ehc, post, rfl, rfl⟩)
        · exact ⟨[], first, rest, rfl, by simp⟩
        · exact ⟨first :: pre, ehc, post, rfl, by simp⟩
      · rintro ⟨pre, ehc, post, split, rfl⟩
        cases pre with
        | nil =>
            cases split
            exact Or.inl (by simp)
        | cons head tail =>
            cases split
            exact Or.inr ⟨tail, ehc, post, rfl, by simp⟩

/-- No EHC has a new statement yet, as when the EHCs have just been found. -/
def Fresh (ehcs : List EHC) : Prop := ∀ ehc ∈ ehcs, ehc.ehcNewStmts = []

/-- Some new statement of the function has the text. -/
def HasNewStmt (f : Function) (printed : String) : Prop :=
  ∃ ehc ∈ f.EHCs, ∃ newstmt ∈ ehc.ehcNewStmts, newstmt.stmt.info.printed = printed

/-- The first EHC that lists the text is live and lists it outside macros. -/
def FirstListedLive (f : Function) (printed : String) : Prop :=
  ∃ pre first post, f.EHCs = pre ++ first :: post ∧
    (∀ earlier ∈ pre, earlier.lists printed = false) ∧
    first.head.type ≠ .denied ∧
    ∃ stmt ∈ first.ehcStmts, stmt.isNull = false ∧ stmt.info.printed = printed ∧
      isInMacro stmt f.body = false

/-- A text is taken exactly when its first listing is. -/
theorem hasNewStmt_iff {f : Function} (fresh : Fresh f.EHCs) (printed : String) :
    HasNewStmt (findEhcNewStmts f) printed ↔ FirstListedLive f printed := by
  constructor
  · rintro ⟨out, outMem, newstmt, newMem, rfl⟩
    obtain ⟨pre, ehc, post, split, rfl⟩ := mem_findEhcNewStmtsLoop.mp outMem
    have ehcFresh : ehc.ehcNewStmts = [] := fresh ehc (by simp [split])
    rw [findNewStmtsOf_newStmts ehcFresh, List.mem_map] at newMem
    obtain ⟨stmt, taken, rfl⟩ := newMem
    obtain ⟨live, listed, nonnull, isNew, outside⟩ := mem_takenStmts.mp taken
    exact ⟨pre, ehc, post, split, by simpa using isNew, live, stmt, listed, nonnull, rfl, outside⟩
  · rintro ⟨pre, first, post, split, isNew, live, stmt, listed, nonnull, rfl, outside⟩
    have firstFresh : first.ehcNewStmts = [] := fresh first (by simp [split])
    refine ⟨findNewStmtsOf f.body pre first, ?_, { stmt := stmt, type := first.head.type }, ?_, rfl⟩
    · exact mem_findEhcNewStmtsLoop.mpr ⟨pre, first, post, split, by simp⟩
    · rw [findNewStmtsOf_newStmts firstFresh, List.mem_map]
      exact ⟨stmt, mem_takenStmts.mpr ⟨live, listed, nonnull, isNew, outside⟩, rfl⟩

/-! ## Covering the live statements -/

/-- A statement of a live EHC, outside macros. -/
structure LiveStmt (f : Function) (stmt : Stmt) : Prop where
  listed : ∃ ehc ∈ f.EHCs, ehc.head.type ≠ .denied ∧ stmt ∈ ehc.ehcStmts
  nonnull : stmt ≠ .null
  outside : isInMacro stmt f.body = false

/-- Every live statement prints as some new statement does. -/
def CoversLiveStmts (f : Function) : Prop :=
  ∀ stmt, LiveStmt f stmt → HasNewStmt (findEhcNewStmts f) stmt.info.printed

/-- The live statements are covered exactly when each of them is first listed
live: by an EHC that is not DENIED, in a statement outside macros. -/
theorem findEhcNewStmts_covers_iff (f : Function) (fresh : Fresh f.EHCs) :
    CoversLiveStmts f ↔ ∀ stmt, LiveStmt f stmt → FirstListedLive f stmt.info.printed := by
  simp only [CoversLiveStmts, hasNewStmt_iff fresh]

/-- A function with two EHCs that both list `callee(arg);`. -/
def listsTwice (first second : EHCType) (callee arg : String) : Function :=
  let early := Build.callOf 1 20 2 callee arg
  let late := Build.callOf 11 60 5 callee arg
  { body := Build.block 20 0 1 100 7
      [Build.block 21 18 2 40 3 [early], Build.block 22 58 5 80 6 [late]]
    EHCs := [{ head := ⟨first, early⟩, ehcStmts := [early] },
      { head := ⟨second, late⟩, ehcStmts := [late] }]
    typeStr := "int"
    name := "probe" }

theorem fresh_listsTwice (first second : EHCType) (callee arg : String) :
    Fresh (listsTwice first second callee arg).EHCs := by
  simp [Fresh, listsTwice]

theorem firstListedLive_listsTwice {second : EHCType} :
    FirstListedLive (listsTwice .cond second "release" "a") "release(a)" := by
  refine ⟨[], _, _, rfl, by simp, by simp, Build.callOf 1 20 2 "release" "a", by simp,
    rfl, by decide, ?_⟩
  exact isInMacro_of_not_macroID _ rfl

/-- With both EHCs live the statements are covered. -/
theorem findEhcNewStmts_covers_listsTwice :
    CoversLiveStmts (listsTwice .cond .cond "release" "a") := by
  refine (findEhcNewStmts_covers_iff _ (fresh_listsTwice _ _ _ _)).mpr ?_
  rintro stmt ⟨⟨ehc, ehcMem, -, stmtMem⟩, -, -⟩
  have printed : stmt.info.printed = "release(a)" := by
    simp only [listsTwice, List.mem_cons, List.not_mem_nil, or_false] at ehcMem
    rcases ehcMem with rfl | rfl
    · rw [List.mem_singleton.mp stmtMem]
      decide
    · rw [List.mem_singleton.mp stmtMem]
      decide
  rw [printed]
  exact firstListedLive_listsTwice

/-- A DENIED EHC takes the text from the live EHC behind it. -/
theorem findEhcNewStmts_loses_denied :
    ¬ CoversLiveStmts (listsTwice .denied .cond "release" "a") := by
  intro covers
  have live : LiveStmt (listsTwice .denied .cond "release" "a")
      (Build.callOf 11 60 5 "release" "a") :=
    ⟨⟨_, List.mem_cons_of_mem _ List.mem_cons_self, by simp, by simp⟩, by simp [Build.callOf],
      isInMacro_of_not_macroID _ rfl⟩
  have covered := covers _ live
  rw [hasNewStmt_iff (fresh_listsTwice _ _ _ _)] at covered
  obtain ⟨pre, first, post, split, isNew, firstLive, -⟩ := covered
  cases pre with
  | nil =>
      cases split
      exact firstLive rfl
  | cons head tail =>
      have atHead : head = (listsTwice .denied .cond "release" "a").EHCs.head (by decide) := by
        simp [split]
      have listed := isNew head List.mem_cons_self
      rw [atHead] at listed
      revert listed
      decide

end Hecaton.Pass2
