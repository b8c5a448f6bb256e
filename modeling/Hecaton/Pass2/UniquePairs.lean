import Hecaton.Pass2.DatabasePairs

/-!
# Candidates that print the same

`make_possible_database_pairs_unique` means to keep one candidate for each text.  The inner loop
compares texts only when the candidate it looks at is null, and it never kept a null one.
-/

namespace Hecaton.Pass2

open Hecaton.Clang

/-- The texts of the candidates. -/
def candidateTexts (possiblePairs : List Stmt) : List String :=
  possiblePairs.map fun stmt => stmt.info.text

/-- The texts of the candidates that are kept. -/
def uniqueTexts (outerEhc : OuterEHC) : List String :=
  candidateTexts (outerEhc.uniquePossiblePairs.map ScoredStmt.stmt)

/-- Each text of the candidates is kept once, in the order of their first occurrences. -/
structure KeepsFirstTexts (outerEhc : OuterEHC) : Prop where
  distinct : (uniqueTexts outerEhc).Nodup
  complete : ∀ text ∈ candidateTexts outerEhc.possiblePairs, text ∈ uniqueTexts outerEhc
  ordered : ∀ text ∈ candidateTexts outerEhc.possiblePairs,
    ∀ text' ∈ candidateTexts outerEhc.possiblePairs,
      (candidateTexts outerEhc.possiblePairs).idxOf text <
          (candidateTexts outerEhc.possiblePairs).idxOf text' →
        (uniqueTexts outerEhc).idxOf text < (uniqueTexts outerEhc).idxOf text'

/-- No kept candidate is null, so none is ever found again. -/
theorem isUniquePair_of_nonnull {unique : List ScoredStmt}
    (nonnull : ∀ Sstmt ∈ unique, Sstmt.stmt ≠ .null) (stmt1 : Stmt) :
    isUniquePair stmt1 unique = true := by
  rw [isUniquePair, Bool.not_eq_true', List.any_eq_false]
  intro Sstmt2 member
  simp [Stmt.isNull_eq_false (nonnull Sstmt2 member)]

/-- Every candidate that is not null is kept. -/
theorem makeUniqueLoop_eq {possible : List Stmt} (present : ∀ stmt ∈ possible, stmt ≠ .null)
    (unique : List ScoredStmt) (nonnull : ∀ Sstmt ∈ unique, Sstmt.stmt ≠ .null) :
    makeUniqueLoop unique possible = unique ++ possible.map fun stmt => { stmt := stmt } := by
  induction possible generalizing unique with
  | nil => simp [makeUniqueLoop]
  | cons stmt1 rest ih =>
      have here := present stmt1 List.mem_cons_self
      have nonnullToo : ∀ Sstmt ∈ unique ++ [{ stmt := stmt1 }], Sstmt.stmt ≠ .null := by
        intro Sstmt member
        rcases List.mem_append.mp member with earlier | isNew
        · exact nonnull Sstmt earlier
        · rw [List.mem_singleton.mp isNew]
          exact here
      rw [makeUniqueLoop, Stmt.isNull_eq_false here, if_neg Bool.false_ne_true,
        if_pos (isUniquePair_of_nonnull nonnull stmt1),
        ih (fun stmt stmtMem => present stmt (List.mem_cons_of_mem _ stmtMem)) _ nonnullToo]
      simp

theorem uniqueTexts_makePossibleDatabasePairsUnique {outerEhc : OuterEHC}
    (present : ∀ stmt ∈ outerEhc.possiblePairs, stmt ≠ .null) :
    uniqueTexts (makePossibleDatabasePairsUnique outerEhc) =
      candidateTexts outerEhc.possiblePairs := by
  rw [uniqueTexts, makePossibleDatabasePairsUnique, makeUniqueLoop_eq present [] (by simp)]
  simp [candidateTexts, Function.comp_def]

/-- Each text is kept once exactly when no two candidates have the same text. -/
theorem makePossibleDatabasePairsUnique_keepsFirst_iff (outerEhc : OuterEHC)
    (present : ∀ stmt ∈ outerEhc.possiblePairs, stmt ≠ .null) :
    KeepsFirstTexts (makePossibleDatabasePairsUnique outerEhc) ↔
      (candidateTexts outerEhc.possiblePairs).Nodup := by
  have kept := uniqueTexts_makePossibleDatabasePairsUnique present
  have unchanged : (makePossibleDatabasePairsUnique outerEhc).possiblePairs =
      outerEhc.possiblePairs := rfl
  constructor
  · intro keepsFirst
    rw [← kept]
    exact keepsFirst.distinct
  · intro distinct
    refine ⟨kept ▸ distinct, ?_, ?_⟩
    · intro text textMem
      rwa [kept]
    · intro text _ text' _ earlier
      rwa [kept]

/-- The candidates of an outer EHC: two calls. -/
def twoCandidates (arg1 arg2 : String) : OuterEHC where
  stmt := Build.callOf 7 60 4 "kfree" "p"
  possiblePairs := [Build.callOf 1 10 2 "kmalloc" arg1, Build.callOf 4 40 3 "kmalloc" arg2]

theorem makePossibleDatabasePairsUnique_keepsFirst_two :
    KeepsFirstTexts (makePossibleDatabasePairsUnique (twoCandidates "n" "m")) := by
  refine (makePossibleDatabasePairsUnique_keepsFirst_iff (twoCandidates "n" "m") ?_).mpr ?_
  · simp [twoCandidates, Build.callOf]
  · decide

/-- Of two calls that print the same, both are kept. -/
theorem makePossibleDatabasePairsUnique_keeps_twice :
    ¬ KeepsFirstTexts (makePossibleDatabasePairsUnique (twoCandidates "n" "n")) := by
  intro keepsFirst
  have distinct := keepsFirst.distinct
  rw [uniqueTexts_makePossibleDatabasePairsUnique (by simp [twoCandidates, Build.callOf])]
    at distinct
  revert distinct
  decide

end Hecaton.Pass2
