import Hecaton.Clang.Build
import Hecaton.DatabasePlugin.NewStmts
import Hecaton.Pass2.PairSearch
import Hecaton.Pass2.Similarity
import Hecaton.Pass2.SortedPairs

/-!
# Pairs of new statements in the database plugin

The plugin searches the pair of a new statement as the second pass does, function by
function the same.  Only `pair_evaluation` differs: it gives up on long texts.
-/

namespace Hecaton.DatabasePlugin

open Hecaton.Clang Hecaton.Library

/-- `is_pair`. -/
def isPair (stmt1 stmt2 : Stmt) : Bool := Pass2.isPair stmt1 stmt2

/-- `recursive_pair_visit`. -/
def recursivePairVisit (ehcStmt : Stmt) (startLine endLine : Nat) (stmt pair : Stmt) :
    Bool × Stmt :=
  Pass2.recursivePairVisit ehcStmt startLine endLine stmt pair

/-- `delete_longest_common_substr`: its value and the strings it leaves. -/
def deleteLongestCommonSubstrValue (str1 str2 : List Char) : Int × List Char × List Char :=
  Pass2.deleteLongestCommonSubstrValue str1 str2

/-- `compare`. -/
def compare (rounds : Nat) (str1 str2 : List Char) (score : Nat) : Nat :=
  Pass2.compare rounds str1 str2 score

/-- `pair_evaluation`. -/
def pairEvaluation (stmt1 stmt2 : Stmt) : Nat :=
  let str1 := stmt1.info.printed.toList
  let str2 := stmt2.info.printed.toList
  if str1.length > 200 ∨ str2.length > 200 then 0
  else compare str1.length str1 str2 0 * 100 / str1.length

/-- `recursive_probable_pair_visit`. -/
def probablePairs (Body ehcStmt : Stmt) (startLine endLine : Nat) : List Pass2.PairCandidate :=
  (Pass2.probablePairs Body ehcStmt startLine endLine).map fun possiblePair =>
    { possiblePair with probability := pairEvaluation ehcStmt possiblePair.pair }

/-- `sort_pairs`; `none` when the calls have not come to an end. -/
def sortPairsCalls (calls : Nat) (lists : Pass2.PairLists) : Option Pass2.PairLists :=
  Pass2.sortPairsCalls calls lists

/-- `pick_the_most_probable`. -/
def pickTheMostProbable (sortedPairs : List Pass2.PairCandidate) : Stmt :=
  Pass2.pickTheMostProbable sortedPairs

/-- The round of `find_pairs` for one new statement. -/
def findPair (Body : Stmt) (startLine endLine : Nat) (newstmt : EHCNewStmt) : EHCNewStmt :=
  let (pairFound, pair) := recursivePairVisit newstmt.stmt startLine endLine Body newstmt.pair
  if pairFound then { newstmt with pair := pair, isOuter := 1 }
  else
    let possiblePairs := probablePairs Body newstmt.stmt startLine endLine
    { newstmt with
      pair := pickTheMostProbable (Pass2.sortPairs possiblePairs.length possiblePairs)
      isOuter := 0 }

/-! ## The report of the search -/

/-- The search reports exactly whether some node strictly below the root matches, and then
it leaves such a node as the pair. -/
def ReportsMatch (ehcStmt : Stmt) (startLine endLine : Nat) (stmt : Stmt)
    (reported : Bool × Stmt) : Prop :=
  (reported.1 = true ↔
    ∃ n ∈ stmt.descendants, Pass2.isMatch ehcStmt startLine endLine n = true) ∧
  ((∃ n ∈ stmt.descendants, Pass2.isMatch ehcStmt startLine endLine n = true) →
    reported.2 ∈ stmt.descendants ∧
      Pass2.isMatch ehcStmt startLine endLine reported.2 = true)

theorem reportsMatch_iff (ehcStmt stmt pair : Stmt) (startLine endLine : Nat) :
    ReportsMatch ehcStmt startLine endLine stmt
        (Pass2.recursivePairVisit ehcStmt startLine endLine stmt pair) ↔
      ((∃ n ∈ stmt.descendants, Pass2.isMatch ehcStmt startLine endLine n = true) →
        Pass2.MatchOnLastPath ehcStmt startLine endLine stmt) := by
  constructor
  · rintro ⟨reportedIff, _⟩ someMatch
    exact (Pass2.recursivePairVisit_found stmt pair).mp (reportedIff.mpr someMatch)
  · intro onPath
    have reported : (∃ n ∈ stmt.descendants,
        Pass2.isMatch ehcStmt startLine endLine n = true) →
          (Pass2.recursivePairVisit ehcStmt startLine endLine stmt pair).1 = true :=
      fun someMatch => (Pass2.recursivePairVisit_found stmt pair).mpr (onPath someMatch)
    constructor
    · constructor
      · intro isReported
        exact ⟨_, Pass2.recursivePairVisit_pair isReported⟩
      · exact reported
    · intro someMatch
      exact Pass2.recursivePairVisit_pair (reported someMatch)

/-- The search reports what it finds exactly when a match is not followed by a sibling on
the way down to it: in the second pass and in the plugin. -/
theorem recursivePairVisit_reports_iff (ehcStmt stmt pair : Stmt) (startLine endLine : Nat) :
    (ReportsMatch ehcStmt startLine endLine stmt
        (Pass2.recursivePairVisit ehcStmt startLine endLine stmt pair) ↔
      ((∃ n ∈ stmt.descendants, Pass2.isMatch ehcStmt startLine endLine n = true) →
        Pass2.MatchOnLastPath ehcStmt startLine endLine stmt)) ∧
    (ReportsMatch ehcStmt startLine endLine stmt
        (recursivePairVisit ehcStmt startLine endLine stmt pair) ↔
      ((∃ n ∈ stmt.descendants, Pass2.isMatch ehcStmt startLine endLine n = true) →
        Pass2.MatchOnLastPath ehcStmt startLine endLine stmt)) :=
  ⟨reportsMatch_iff ehcStmt stmt pair startLine endLine,
    reportsMatch_iff ehcStmt stmt pair startLine endLine⟩

/-- A new statement counts as an outer one exactly when a match stands on the way to the last
children; otherwise its pair is the best candidate. -/
theorem findPair_isOuter_iff (Body : Stmt) (startLine endLine : Nat) (newstmt : EHCNewStmt) :
    (findPair Body startLine endLine newstmt).isOuter = 1 ↔
      Pass2.MatchOnLastPath newstmt.stmt startLine endLine Body := by
  rw [← Pass2.recursivePairVisit_found Body newstmt.pair, findPair, recursivePairVisit]
  dsimp only
  split
  · rename_i reported
    exact iff_of_true rfl reported
  · rename_i notReported
    exact iff_of_false (by simp) notReported

/-- A lock that is taken under a condition, and a call behind it. -/
def lockUnderCondition : Stmt :=
  Build.block 1 0 1 90 6
    [Build.ifOf 2 10 (Build.lessZero 3 14 2 "n")
        (Build.block 6 20 2 40 4 [Build.callOf 7 24 3 "mutex_lock" "l"]),
      Build.callOf 10 50 5 "update" "n"]

/-- The lock stands between the lines 1 and 7, but the call behind it hides it. -/
theorem recursivePairVisit_forgets_lock :
    ¬ ReportsMatch (Build.callOf 20 100 7 "mutex_unlock" "l") 1 7 lockUnderCondition
        (Pass2.recursivePairVisit (Build.callOf 20 100 7 "mutex_unlock" "l") 1 7
          lockUnderCondition .null) ∧
      ¬ ReportsMatch (Build.callOf 20 100 7 "mutex_unlock" "l") 1 7 lockUnderCondition
        (recursivePairVisit (Build.callOf 20 100 7 "mutex_unlock" "l") 1 7
          lockUnderCondition .null) := by
  have isBelow : ∃ n ∈ lockUnderCondition.descendants,
      Pass2.isMatch (Build.callOf 20 100 7 "mutex_unlock" "l") 1 7 n = true := by
    refine ⟨Build.callOf 7 24 3 "mutex_lock" "l", ?_, by decide +kernel⟩
    simp [lockUnderCondition, Build.block, Build.ifOf, Build.callOf, Stmt.descendants,
      Stmt.children]
  have notReported : (Pass2.recursivePairVisit (Build.callOf 20 100 7 "mutex_unlock" "l") 1 7
      lockUnderCondition .null).1 = false := by decide +kernel
  constructor
  · intro reports
    exact Bool.false_ne_true (notReported.symm.trans (reports.1.mpr isBelow))
  · intro reports
    exact Bool.false_ne_true (notReported.symm.trans (reports.1.mpr isBelow))

/-! ## The deletion of a part -/

/-- A longest common part of at least three characters is deleted once from each text; when
there is none, the value is -1 and the texts stay. -/
def DeletesLongest (str1 str2 : List Char) (value : Int × List Char × List Char) : Prop :=
  ((∃ part, part <:+: str1 ∧ part <:+: str2 ∧ 3 ≤ part.length) →
    ∃ part before after before' after', str1 = before ++ part ++ after ∧
      str2 = before' ++ part ++ after' ∧
      (∀ other, other <:+: str1 → other <:+: str2 → other.length ≤ part.length) ∧
      value = ((part.length : Int), before ++ after, before' ++ after')) ∧
  ((¬ ∃ part, part <:+: str1 ∧ part <:+: str2 ∧ 3 ≤ part.length) → value = (-1, str1, str2))

theorem deletesLongest (str1 str2 : List Char) :
    DeletesLongest str1 str2 (Pass2.deleteLongestCommonSubstrValue str1 str2) := by
  rw [Pass2.deleteLongestCommonSubstrValue]
  cases deleted : Pass2.deleteLongestCommonSubstr str1 str2 with
  | none =>
      have noneShared := Pass2.deleteLongestCommonSubstr_eq_none.mp deleted
      constructor
      · rintro ⟨part, inFirst, inSecond, long⟩
        exact absurd (noneShared part inFirst inSecond) (Nat.not_lt.mpr long)
      · intro _
        rfl
  | some result =>
      obtain ⟨sublen, left1, left2⟩ := result
      cases Pass2.deleteLongestCommonSubstr_longest deleted with
      | @cut before part after before' after' long longest =>
          constructor
          · intro _
            exact ⟨part, before, after, before', after', rfl, rfl, longest, rfl⟩
          · intro noneShared
            exact absurd ⟨part, ⟨before, after, rfl⟩, ⟨before', after', rfl⟩, long⟩ noneShared

/-- The second pass and the plugin delete a longest common part. -/
theorem deleteLongestCommonSubstr_deletesLongest (str1 str2 : List Char) :
    DeletesLongest str1 str2 (Pass2.deleteLongestCommonSubstrValue str1 str2) ∧
      DeletesLongest str1 str2 (deleteLongestCommonSubstrValue str1 str2) :=
  ⟨deletesLongest str1 str2, deletesLongest str1 str2⟩

/-! ## The order of the candidates -/

/-- In the second pass and in the plugin the calls empty the one list and leave the other
one in descending order, candidates of equal probability as they stood; the pair that is
picked is that of the first candidate of the highest probability. -/
theorem sortPairs_stable (possiblePairs : List Pass2.PairCandidate) :
    ∃ sortedPairs,
      (∀ calls, possiblePairs.length < calls →
        Pass2.sortPairsCalls calls ⟨possiblePairs, []⟩ = some ⟨[], sortedPairs⟩ ∧
        sortPairsCalls calls ⟨possiblePairs, []⟩ = some ⟨[], sortedPairs⟩) ∧
      sortedPairs.Perm possiblePairs ∧
      (sortedPairs.Pairwise fun first second => second.probability ≤ first.probability) ∧
      (∀ probability, (sortedPairs.filter fun candidate => candidate.probability == probability) =
        possiblePairs.filter fun candidate => candidate.probability == probability) ∧
      (possiblePairs ≠ [] → ∃ before best after, possiblePairs = before ++ best :: after ∧
        (∀ other ∈ before, other.probability < best.probability) ∧
        (∀ other ∈ after, other.probability ≤ best.probability) ∧
        Pass2.pickTheMostProbable sortedPairs = best.pair ∧
        pickTheMostProbable sortedPairs = best.pair) := by
  have selected := Pass2.sortPairs_selected possiblePairs
  refine ⟨_, ?_, selected.perm, selected.pairwise, selected.filter_key, ?_⟩
  · intro calls enough
    have returns := Pass2.sortPairsCalls_eq enough []
    exact ⟨returns, returns⟩
  · intro nonempty
    cases sorted : Pass2.sortPairs possiblePairs.length possiblePairs with
    | nil =>
        rw [sorted] at selected
        exact absurd selected.perm.nil_eq.symm nonempty
    | cons best rest =>
        rw [sorted] at selected
        obtain ⟨before, after, split, first⟩ := selected.head_isFirstMax
        exact ⟨before, best, after, split, first.1, first.2, rfl, rfl⟩

end Hecaton.DatabasePlugin
