import Hecaton.Clang.Build
import Hecaton.Pass2.PairSearch
import Hecaton.Pass2.SortedPairs

/-!
# The window of a pair search

`find_pairs` searches the pair of a new statement between two lines: behind the block two places
before the EHC, or behind the beginning of the body, and before the block of the EHC.
`pick_the_most_probable` reads the first of the sorted candidates, whether there is one or not.
-/

namespace Hecaton.Pass2

open Hecaton.Clang

/-- `sorted_pairs` when the search for one new statement comes to `pick_the_most_probable`;
`none` when a known partner is found before. -/
def sortedPairsFor (Body : Stmt) (startLine endLine : Nat) (newstmt : EHCNewStmt) :
    Option (List PairCandidate) :=
  if (recursivePairVisit newstmt.stmt startLine endLine Body newstmt.pair).1 then none
  else
    let possiblePairs := probablePairs Body newstmt.stmt startLine endLine
    some (sortPairs possiblePairs.length possiblePairs)

/-- The line before which the pairs of an EHC are searched. -/
def pairEndLine (ehc : EHC) : Nat := ehc.head.headStmt.info.beginLoc.line

/-- `sorted_pairs` at each call of `pick_the_most_probable` in `find_pairs`, in order. -/
def pickCalls (f : Function) : List (List PairCandidate) :=
  (f.EHCs.mapIdx fun index ehc =>
    ehc.ehcNewStmts.filterMap
      (sortedPairsFor f.body (pairStartLine f index) (pairEndLine ehc))).flatten

theorem findPair_eq (Body : Stmt) (startLine endLine : Nat) (newstmt : EHCNewStmt) :
    findPair Body startLine endLine newstmt =
      match sortedPairsFor Body startLine endLine newstmt with
      | some sortedPairs =>
          { newstmt with pair := pickTheMostProbable sortedPairs, isOuter := false }
      | none =>
          { newstmt with
            pair := (recursivePairVisit newstmt.stmt startLine endLine Body newstmt.pair).2
            isOuter := true } := by
  rw [findPair, sortedPairsFor]
  dsimp only
  split
  · rfl
  · rfl

/-- A statement of the body that begins between the lines and can be a pair. -/
def IsInWindow (Body ehcStmt : Stmt) (startLine endLine : Nat) (n : Stmt) : Prop :=
  n ∈ Body.descendants ∧ isBetween startLine endLine n = true ∧ isPairCandidate ehcStmt n = true

/-! ## Candidates -/

/-- A known partner is an assignment or a call, and so a candidate. -/
theorem isPairCandidate_of_isPair {ehcStmt n : Stmt} (isPartner : isPair ehcStmt n = true) :
    isPairCandidate ehcStmt n = true := by
  have ofCall : ∀ names argTest, isCallTo names argTest n = true →
      isPairCandidate ehcStmt n = true := by
    intro names argTest isCall
    cases n with
    | null => simp [isCallTo, Stmt.directCallee] at isCall
    | node info cls children =>
        cases cls with
        | callExpr callee => rfl
        | _ => simp [isCallTo, Stmt.directCallee] at isCall
  have ofAllocation : ∀ argStr, isAllocationOf argStr n = true →
      isPairCandidate ehcStmt n = true := by
    intro argStr isAllocation
    rw [isAllocationOf, Bool.and_eq_true, Bool.and_eq_true] at isAllocation
    cases n with
    | null => simp [Stmt.binaryOpcode] at isAllocation
    | node info cls children =>
        cases cls with
        | binaryOperator opcode =>
            have isAssign : opcode = .assign := by simpa [Stmt.binaryOpcode] using isAllocation.1.1
            rw [isAssign]
            rfl
        | _ => simp [Stmt.binaryOpcode] at isAllocation
  rw [isPair] at isPartner
  cases callee : ehcStmt.directCallee with
  | none => simp [callee] at isPartner
  | some fncname =>
      simp only [callee] at isPartner
      split at isPartner
      · exact ofAllocation _ isPartner
      · split at isPartner
        · exact ofCall _ _ isPartner
        · split at isPartner
          · exact ofCall _ _ isPartner
          · split at isPartner
            · exact ofCall _ _ isPartner
            · exact absurd isPartner Bool.false_ne_true

theorem sortPairs_ne_nil_iff (possiblePairs : List PairCandidate) :
    sortPairs possiblePairs.length possiblePairs ≠ [] ↔ possiblePairs ≠ [] := by
  constructor
  · rintro nonempty rfl
    exact nonempty rfl
  · intro nonempty
    obtain ⟨_, best, _, _, _, taken, _⟩ := sortPairs_round nonempty
    rw [taken]
    exact List.cons_ne_nil _ _

theorem probablePairs_ne_nil_iff (Body ehcStmt : Stmt) (startLine endLine : Nat) :
    probablePairs Body ehcStmt startLine endLine ≠ [] ↔
      ∃ n, IsInWindow Body ehcStmt startLine endLine n := by
  rw [probablePairs, ne_eq, List.map_eq_nil_iff]
  constructor
  · intro nonempty
    obtain ⟨n, nMem⟩ := List.exists_mem_of_ne_nil _ nonempty
    rw [List.mem_filter, Bool.and_eq_true] at nMem
    exact ⟨n, nMem⟩
  · rintro ⟨n, below, between, isCandidate⟩
    exact List.ne_nil_of_mem (List.mem_filter.mpr ⟨below, by rw [between, isCandidate]; rfl⟩)

/-- The list that is read is empty exactly when the window has no candidate. -/
theorem sortedPairsFor_eq_nil_iff (Body : Stmt) (startLine endLine : Nat) (newstmt : EHCNewStmt) :
    sortedPairsFor Body startLine endLine newstmt = some [] ↔
      ¬ ∃ n, IsInWindow Body newstmt.stmt startLine endLine n := by
  rw [sortedPairsFor]
  dsimp only
  split
  · rename_i reported
    obtain ⟨n, below, isPartner⟩ := exists_match_of_matchOnLastPath
      ((recursivePairVisit_found Body newstmt.pair).mp reported)
    rw [isMatch, Bool.and_eq_true, Bool.and_eq_true] at isPartner
    have inWindow : IsInWindow Body newstmt.stmt startLine endLine n :=
      ⟨below, isPartner.2.1, isPairCandidate_of_isPair isPartner.2.2⟩
    exact iff_of_false (by simp) (not_not_intro ⟨n, inWindow⟩)
  · rw [Option.some_inj, ← probablePairs_ne_nil_iff, ← sortPairs_ne_nil_iff, not_ne_iff]

/-! ## All calls of `find_pairs` -/

theorem mem_pickCalls {f : Function} {sortedPairs : List PairCandidate} :
    sortedPairs ∈ pickCalls f ↔
      ∃ index ehc, f.EHCs[index]? = some ehc ∧ ∃ newstmt ∈ ehc.ehcNewStmts,
        sortedPairsFor f.body (pairStartLine f index) (pairEndLine ehc) newstmt =
          some sortedPairs := by
  rw [pickCalls, List.mem_flatten]
  constructor
  · rintro ⟨calls, callsMem, inCalls⟩
    obtain ⟨index, bound, rfl⟩ := List.mem_mapIdx.mp callsMem
    exact ⟨index, f.EHCs[index], List.getElem?_eq_getElem bound, List.mem_filterMap.mp inCalls⟩
  · rintro ⟨index, ehc, atIndex, inCalls⟩
    obtain ⟨bound, rfl⟩ := List.getElem?_eq_some_iff.mp atIndex
    exact ⟨_, List.mem_mapIdx.mpr ⟨index, bound, rfl⟩, List.mem_filterMap.mpr inCalls⟩

/-- `pick_the_most_probable` never reads an empty list exactly when the window of every EHC has
a candidate for each of its new statements. -/
theorem pickCalls_nonempty_iff (f : Function) :
    (∀ sortedPairs ∈ pickCalls f, sortedPairs ≠ []) ↔
      ∀ index ehc, f.EHCs[index]? = some ehc → ∀ newstmt ∈ ehc.ehcNewStmts,
        ∃ n, IsInWindow f.body newstmt.stmt (pairStartLine f index) (pairEndLine ehc) n := by
  constructor
  · intro nonempty index ehc atIndex newstmt newMem
    by_contra noCandidate
    have isEmpty := (sortedPairsFor_eq_nil_iff _ _ _ _).mpr noCandidate
    exact nonempty [] (mem_pickCalls.mpr ⟨index, ehc, atIndex, newstmt, newMem, isEmpty⟩) rfl
  · rintro candidates sortedPairs called rfl
    obtain ⟨index, ehc, atIndex, newstmt, newMem, isEmpty⟩ := mem_pickCalls.mp called
    exact (sortedPairsFor_eq_nil_iff _ _ _ _).mp isEmpty (candidates index ehc atIndex newstmt newMem)

/-- A function that checks its argument first: `{ if (n < 0) { release(n); } }`. -/
def checksFirst : Function where
  body := Build.block 1 0 1 90 8
    [Build.ifOf 2 10 (Build.lessZero 3 14 2 "n")
      (Build.block 6 20 2 40 4 [Build.callOf 7 24 3 "release" "n"])]
  EHCs := [{
    head := { type := .cond, headStmt := Build.block 6 20 2 40 4 [Build.callOf 7 24 3 "release" "n"] }
    ehcStmts := [Build.callOf 7 24 3 "release" "n"]
    ehcNewStmts := [{ stmt := Build.callOf 7 24 3 "release" "n", type := .cond }] }]
  typeStr := "int (int)"
  name := "checks_first"

/-- Nothing stands before the check, and the empty list is read. -/
theorem pickCalls_checksFirst :
    ¬ ∀ sortedPairs ∈ pickCalls checksFirst, sortedPairs ≠ [] := by
  intro nonempty
  have lengths : (pickCalls checksFirst).map List.length = [0] := by decide +kernel
  have noneEmpty : ∀ length ∈ (pickCalls checksFirst).map List.length, length ≠ 0 := by
    intro length lengthMem isZero
    obtain ⟨sortedPairs, called, isLength⟩ := List.mem_map.mp lengthMem
    exact nonempty sortedPairs called (List.eq_nil_of_length_eq_zero (isLength.trans isZero))
  rw [lengths] at noneEmpty
  exact noneEmpty 0 List.mem_cons_self rfl

end Hecaton.Pass2
