import Hecaton.Library.Selection
import Hecaton.Pass2.Pairs

/-!
# The order of the pair candidates

`sort_pairs` moves the candidates from one list to the other, every time the first of
the highest score.  The search for it starts with the score 0 and asks for a strictly
higher one, so among candidates of score 0 the first one stays.
-/

namespace Hecaton.Pass2

open Hecaton.Clang Hecaton.Library

/-- The two lists that `sort_pairs` works on. -/
structure PairLists where
  possiblePairs : List PairCandidate
  sortedPairs : List PairCandidate

/-- One call of `sort_pairs` up to the call it makes itself; `none` when it returns
without one. -/
def sortPairsRound (lists : PairLists) : Option PairLists :=
  let itMaxPossiblePairs := maxIndex 0 0 0 lists.possiblePairs
  lists.possiblePairs[itMaxPossiblePairs]?.map fun best =>
    { possiblePairs := lists.possiblePairs.eraseIdx itMaxPossiblePairs
      sortedPairs := lists.sortedPairs ++ [best] }

/-- `sort_pairs`; `none` when the calls have not come to an end. -/
def sortPairsCalls : Nat → PairLists → Option PairLists
  | 0, _ => none
  | calls + 1, lists =>
      match sortPairsRound lists with
      | some next => sortPairsCalls calls next
      | none => some lists

/-! ## The search for the highest score -/

/-- What the search knows behind the candidates it has seen: it has seen none, or it
stands at the first of the highest score among them. -/
def MaxSoFar (seen : List PairCandidate) (maxScore itMax : Nat) : Prop :=
  (seen = [] ∧ maxScore = 0 ∧ itMax = 0) ∨
    ∃ before best after, seen = before ++ best :: after ∧
      IsFirstMax PairCandidate.probability before best after ∧
      itMax = before.length ∧ maxScore = best.probability

theorem MaxSoFar.step_higher {seen : List PairCandidate} {maxScore itMax : Nat}
    {possiblePair : PairCandidate} (soFar : MaxSoFar seen maxScore itMax)
    (higher : possiblePair.probability > maxScore) :
    MaxSoFar (seen ++ [possiblePair]) possiblePair.probability seen.length := by
  refine Or.inr ⟨seen, possiblePair, [], rfl, ⟨?_, by simp⟩, rfl, rfl⟩
  intro a aMem
  rcases soFar with ⟨rfl, _⟩ | ⟨before, best, after, rfl, first, _, rfl⟩
  · simp at aMem
  · apply lt_of_le_of_lt _ higher
    rcases List.mem_append.mp aMem with inBefore | inRest
    · exact le_of_lt (first.1 a inBefore)
    · rcases List.mem_cons.mp inRest with rfl | inAfter
      · exact le_refl _
      · exact first.2 a inAfter

theorem MaxSoFar.step_same {seen : List PairCandidate} {maxScore itMax : Nat}
    {possiblePair : PairCandidate} (soFar : MaxSoFar seen maxScore itMax)
    (notHigher : ¬ possiblePair.probability > maxScore) :
    MaxSoFar (seen ++ [possiblePair]) maxScore itMax := by
  rcases soFar with ⟨rfl, rfl, rfl⟩ | ⟨before, best, after, rfl, first, isIndex, rfl⟩
  · -- The first candidate has the score 0, and the search already stands at it.
    refine Or.inr ⟨[], possiblePair, [], rfl, ⟨by simp, by simp⟩, rfl, ?_⟩
    omega
  · refine Or.inr ⟨before, best, after ++ [possiblePair], by simp, ⟨first.1, ?_⟩, isIndex, rfl⟩
    intro a aMem
    rcases List.mem_append.mp aMem with inAfter | isNew
    · exact first.2 a inAfter
    · rw [List.mem_singleton.mp isNew]
      exact Nat.le_of_not_lt notHigher

theorem maxSoFar_maxIndex {seen : List PairCandidate} {maxScore itMax : Nat}
    (soFar : MaxSoFar seen maxScore itMax) (rest : List PairCandidate) :
    ∃ score, MaxSoFar (seen ++ rest) score (maxIndex maxScore itMax seen.length rest) := by
  induction rest generalizing seen maxScore itMax with
  | nil => exact ⟨maxScore, by simpa [maxIndex] using soFar⟩
  | cons possiblePair rest ih =>
      rw [maxIndex, ← List.singleton_append, ← List.append_assoc]
      split
      · rename_i higher
        have next := ih (soFar.step_higher higher)
        rwa [List.length_append, List.length_singleton] at next
      · rename_i notHigher
        have next := ih (soFar.step_same notHigher)
        rwa [List.length_append, List.length_singleton] at next

/-- The search stops at the first candidate of the highest score. -/
theorem maxIndex_isFirstMax {possiblePairs : List PairCandidate} (nonempty : possiblePairs ≠ []) :
    ∃ before best after, possiblePairs = before ++ best :: after ∧
      IsFirstMax PairCandidate.probability before best after ∧
      maxIndex 0 0 0 possiblePairs = before.length := by
  obtain ⟨score, soFar⟩ := maxSoFar_maxIndex (Or.inl ⟨rfl, rfl, rfl⟩) possiblePairs
  rcases soFar with ⟨isEmpty, _⟩ | ⟨before, best, after, split, first, isIndex, _⟩
  · exact absurd isEmpty nonempty
  · exact ⟨before, best, after, split, first, isIndex⟩

/-! ## Rounds -/

theorem sortPairsRound_nil (sortedPairs : List PairCandidate) :
    sortPairsRound ⟨[], sortedPairs⟩ = none := by
  simp [sortPairsRound]

/-- What one round does to a list that is not empty. -/
theorem sortPairs_round {possiblePairs : List PairCandidate} (nonempty : possiblePairs ≠ []) :
    ∃ before best after, possiblePairs = before ++ best :: after ∧
      IsFirstMax PairCandidate.probability before best after ∧
      sortPairs possiblePairs.length possiblePairs =
        best :: sortPairs (before ++ after).length (before ++ after) ∧
      ∀ sortedPairs, sortPairsRound ⟨possiblePairs, sortedPairs⟩ =
        some ⟨before ++ after, sortedPairs ++ [best]⟩ := by
  obtain ⟨before, best, after, rfl, first, isIndex⟩ := maxIndex_isFirstMax nonempty
  have oneLess : (before ++ best :: after).length = (before ++ after).length + 1 := by
    simp only [List.length_append, List.length_cons]
    omega
  refine ⟨before, best, after, rfl, first, ?_, ?_⟩
  · rw [oneLess, sortPairs]
    simp [isIndex, List.eraseIdx_append_of_length_le]
  · intro sortedPairs
    simp [sortPairsRound, isIndex, List.eraseIdx_append_of_length_le]

/-- What `sortPairs` takes out are the first candidates of the highest score. -/
theorem sortPairs_selected (possiblePairs : List PairCandidate) :
    Selected PairCandidate.probability possiblePairs
      (sortPairs possiblePairs.length possiblePairs) := by
  induction size : possiblePairs.length using Nat.strong_induction_on generalizing possiblePairs with
  | _ size' ih =>
      subst size
      by_cases nonempty : possiblePairs = []
      · subst nonempty
        exact .nil
      · obtain ⟨before, best, after, rfl, first, taken, _⟩ := sortPairs_round nonempty
        rw [taken]
        apply Selected.take first
        apply ih _ _ _ rfl
        simp

/-- One more call than there are candidates is enough. -/
theorem sortPairsCalls_eq {calls : Nat} {possiblePairs : List PairCandidate}
    (enough : possiblePairs.length < calls) (sortedPairs : List PairCandidate) :
    sortPairsCalls calls ⟨possiblePairs, sortedPairs⟩ =
      some ⟨[], sortedPairs ++ sortPairs possiblePairs.length possiblePairs⟩ := by
  induction calls generalizing possiblePairs sortedPairs with
  | zero => simp at enough
  | succ calls ih =>
      by_cases nonempty : possiblePairs = []
      · subst nonempty
        simp [sortPairsCalls, sortPairsRound_nil, sortPairs]
      · obtain ⟨before, best, after, rfl, first, taken, round⟩ := sortPairs_round nonempty
        have fewer : (before ++ after).length < calls := by
          simp only [List.length_append, List.length_cons] at enough ⊢
          omega
        calc
          sortPairsCalls (calls + 1) ⟨before ++ best :: after, sortedPairs⟩
            = sortPairsCalls calls ⟨before ++ after, sortedPairs ++ [best]⟩ := by
              rw [sortPairsCalls, round]
          _ = _ := by
              rw [ih fewer, taken, List.append_assoc, List.singleton_append]

end Hecaton.Pass2
