import Hecaton.Clang.Build
import Hecaton.Clang.SourceManager
import Hecaton.Clang.Tree
import Hecaton.Pass2.DatabaseHeader
import Hecaton.Pass2.ParentSearch
import Hecaton.Pass2.Text
import Mathlib.Algebra.Ring.Nat

/-!
# Pairs from the database

`outer_pair_database` looks for the calls that an outer EHC undoes: it collects
candidates by the database entries of the EHC, scores them by shared arguments,
keeps the last best one and adds the statements that print the same.
-/

namespace Hecaton.Pass2

open Hecaton.Clang

/-- One round of the loop of `is_possible_outer_pair`: the entry at `index`
makes a call of `fncname` a candidate.  An entry that is its own pair does not
look at the name. -/
def isCandidateBy (db : Database) (stmt2 : Stmt) (fncname : String) (index : Nat) : Bool :=
  match db.ehcFncs[index]?, db.pairFncs[index]? with
  | some ehcFnc, some pairFnc =>
      if ehcFnc = pairFnc then
        selectsParam "active" "1" ehcFnc (parseParam stmt2.info.text)
      else fncname == pairFnc
  | _, _ => false

/-- `is_possible_outer_pair` pushes the call once for each entry that makes it a
candidate; its result is always false. -/
def isPossibleOuterPair (db : Database) (outerEHC : OuterEHC) (stmt2 : Stmt) :
    Bool × OuterEHC :=
  match stmt2.directCallee with
  | none => (false, outerEHC)
  | some fncname =>
      let pushed := (outerEHC.databaseIndexes.filter (isCandidateBy db stmt2 fncname)).map
        fun _ => stmt2
      (false, { outerEHC with possiblePairs := outerEHC.possiblePairs ++ pushed })

mutual

/-- `possible_database_pair_recurcive_visit`. -/
def possibleDatabasePairVisit (db : Database) : Stmt → OuterEHC → OuterEHC
  | .null, outerEhc => outerEhc
  | .node _ _ children, outerEhc => possibleDatabasePairLoop db children outerEhc

/-- Its loop over the children. -/
def possibleDatabasePairLoop (db : Database) : List Stmt → OuterEHC → OuterEHC
  | [], outerEhc => outerEhc
  | currStmt :: rest, outerEhc =>
      if currStmt.isNull then possibleDatabasePairLoop db rest outerEhc
      else
        let (possible, outerEhc) := isPossibleOuterPair db outerEhc currStmt
        let outerEhc :=
          if possible then
            { outerEhc with possiblePairs := outerEhc.possiblePairs ++ [currStmt] }
          else outerEhc
        possibleDatabasePairLoop db rest (possibleDatabasePairVisit db currStmt outerEhc)

end

/-- `find_all_possible_database_pairs`. -/
def findAllPossibleDatabasePairs (db : Database) (Body : Stmt) (outerEhc : OuterEHC) :
    OuterEHC :=
  possibleDatabasePairVisit db Body { outerEhc with possiblePairs := [] }

/-- The inner loop of `make_possible_database_pairs_unique`.  It compares texts
only with a null statement, so it never finds one equal. -/
def isUniquePair (stmt1 : Stmt) (unique : List ScoredStmt) : Bool :=
  !unique.any fun Sstmt2 =>
    Sstmt2.stmt.isNull && Sstmt2.stmt.info.text == stmt1.info.text

/-- Its outer loop, with the statements it has kept. -/
def makeUniqueLoop (unique : List ScoredStmt) : List Stmt → List ScoredStmt
  | [] => unique
  | stmt1 :: rest =>
      if stmt1.isNull then makeUniqueLoop unique rest
      else if isUniquePair stmt1 unique then makeUniqueLoop (unique ++ [{ stmt := stmt1 }]) rest
      else makeUniqueLoop unique rest

/-- `make_possible_database_pairs_unique`. -/
def makePossibleDatabasePairsUnique (outerEhc : OuterEHC) : OuterEHC :=
  { outerEhc with uniquePossiblePairs := makeUniqueLoop [] outerEhc.possiblePairs }

/-- The number of equal, non-empty arguments of two lists, ten points each. -/
def sharedParamScore (paramListEhc paramListPair : List String) : Int :=
  10 * ((paramListPair.map fun pairParam =>
    (paramListEhc.filter fun ehcParam => ehcParam == pairParam && pairParam != "").length).sum : Nat)

/-- The round of `score_unique_possible_database_pairs` for one candidate.  A
read of the second argument past the end of the list, which C++ leaves
undefined, counts as unequal. -/
def scoreDatabasePair (Body ehcStmt currStmt : Stmt) : Int :=
  let paramListEhc := parseParam ehcStmt.info.text
  let paramListPair := parseParam currStmt.info.text
  let parent := findParentRecursive currStmt Body
  let grandparent := if parent.isNull then .null else findParentRecursive parent Body
  let isKfree := contains ehcStmt.info.text "kfree"
  let paramListPair :=
    if isKfree && !grandparent.isNull then parseParam grandparent.info.text else paramListPair
  let kfreeScore : Int :=
    if isKfree && paramListEhc[1]? == paramListPair[0]? && paramListPair[0]? != some "" then 100
    else 0
  let paramListPair :=
    if parent.isBinaryOperator then parseParam parent.info.text
    else if grandparent.isBinaryOperator then parseParam grandparent.info.text
    else paramListPair
  kfreeScore + sharedParamScore paramListEhc paramListPair

/-- `score_unique_possible_database_pairs`. -/
def scoreUniquePossibleDatabasePairs (Body : Stmt) (outerEHC : OuterEHC) : OuterEHC :=
  { outerEHC with
    uniquePossiblePairs := outerEHC.uniquePossiblePairs.map fun Sstmt =>
      { Sstmt with score := scoreDatabasePair Body outerEHC.stmt Sstmt.stmt } }

/-- The loop of `find_most_possible_database_pair`: later candidates win ties. -/
def maxScoredStmt (maxStmt : Stmt) (maxScore : Int) : List ScoredStmt → Stmt
  | [] => maxStmt
  | Sstmt :: rest =>
      if Sstmt.score ≥ maxScore then maxScoredStmt Sstmt.stmt Sstmt.score rest
      else maxScoredStmt maxStmt maxScore rest

/-- `find_most_possible_database_pair`. -/
def findMostPossibleDatabasePair (outerEHC : OuterEHC) : OuterEHC :=
  let maxStmt := maxScoredStmt .null 0 outerEHC.uniquePossiblePairs
  if maxStmt.isNull then outerEHC else { outerEHC with pairs := outerEHC.pairs ++ [maxStmt] }

mutual

/-- `add_all_duplicate_database_pairs`. -/
def addAllDuplicateDatabasePairs (sm : SourceManager) (pair : Stmt) : Stmt → OuterEHC → OuterEHC
  | .null, outerEhc => outerEhc
  | .node _ _ children, outerEhc => addAllDuplicateLoop sm pair children outerEhc

/-- Its loop over the children. -/
def addAllDuplicateLoop (sm : SourceManager) (pair : Stmt) : List Stmt → OuterEHC → OuterEHC
  | [], outerEhc => outerEhc
  | currStmt :: rest, outerEhc =>
      if currStmt.isNull then addAllDuplicateLoop sm pair rest outerEhc
      else
        let outerEhc :=
          if currStmt.info.printed = pair.info.printed ∧
              sm.recursiveGetEnd currStmt ≠ sm.recursiveGetEnd pair then
            { outerEhc with pairs := outerEhc.pairs ++ [currStmt] }
          else outerEhc
        addAllDuplicateLoop sm pair rest (addAllDuplicateDatabasePairs sm pair currStmt outerEhc)

end

/-- `outer_pair_database`. -/
def outerPairDatabase (db : Database) (sm : SourceManager) (Body : Stmt) (outerEhc : OuterEHC) :
    OuterEHC :=
  let outerEhc := findAllPossibleDatabasePairs db Body outerEhc
  let outerEhc := makePossibleDatabasePairsUnique outerEhc
  let outerEhc := scoreUniquePossibleDatabasePairs Body outerEhc
  let outerEhc := findMostPossibleDatabasePair outerEhc
  match outerEhc.pairs with
  | [] => outerEhc
  | pair :: _ => addAllDuplicateDatabasePairs sm pair Body outerEhc

/-! ## What is collected -/

variable {db : Database} {sm : SourceManager} {Body : Stmt}

/-- What `is_possible_outer_pair` pushes for one statement. -/
def pushedPairs (db : Database) (indexes : List Nat) (stmt2 : Stmt) : List Stmt :=
  match stmt2.directCallee with
  | none => []
  | some fncname => (indexes.filter (isCandidateBy db stmt2 fncname)).map fun _ => stmt2

theorem isPossibleOuterPair_eq (outerEHC : OuterEHC) (stmt2 : Stmt) :
    isPossibleOuterPair db outerEHC stmt2 =
      (false, { outerEHC with
        possiblePairs :=
          outerEHC.possiblePairs ++ pushedPairs db outerEHC.databaseIndexes stmt2 }) := by
  cases callee : stmt2.directCallee with
  | none => simp [isPossibleOuterPair, pushedPairs, callee]
  | some fncname => simp [isPossibleOuterPair, pushedPairs, callee]

theorem mem_pushedPairs {indexes : List Nat} {stmt2 pushed : Stmt} :
    pushed ∈ pushedPairs db indexes stmt2 ↔
      pushed = stmt2 ∧ ∃ fncname, stmt2.directCallee = some fncname ∧
        ∃ index ∈ indexes, isCandidateBy db stmt2 fncname index = true := by
  cases callee : stmt2.directCallee with
  | none => simp [pushedPairs, callee]
  | some fncname =>
      simp only [pushedPairs, callee, List.mem_map, List.mem_filter, Option.some.injEq,
        exists_eq_left']
      constructor
      · rintro ⟨index, isIndex, rfl⟩
        exact ⟨rfl, index, isIndex⟩
      · rintro ⟨rfl, index, isIndex⟩
        exact ⟨index, isIndex, rfl⟩

/-- The visit collects the candidates among the nodes below. -/
theorem possibleDatabasePairVisit_eq (s : Stmt) (outerEhc : OuterEHC) :
    possibleDatabasePairVisit db s outerEhc =
      { outerEhc with
        possiblePairs := outerEhc.possiblePairs ++
          s.descendants.flatMap (pushedPairs db outerEhc.databaseIndexes) } := by
  induction s using Stmt.tree_induction generalizing outerEhc with
  | null => simp [possibleDatabasePairVisit, Stmt.descendants, Stmt.children]
  | node info cls children ih =>
      simp only [possibleDatabasePairVisit, Stmt.descendants, Stmt.children]
      clear info cls
      induction children generalizing outerEhc with
      | nil => simp [possibleDatabasePairLoop]
      | cons currStmt rest ihRest =>
          have inRest := ihRest fun child childMem => ih child (List.mem_cons_of_mem _ childMem)
          cases currStmt with
          | null => simp [possibleDatabasePairLoop, Stmt.isNull, inRest]
          | node info cls children =>
              simp only [possibleDatabasePairLoop, Stmt.isNull, Bool.false_eq_true, if_false,
                isPossibleOuterPair_eq]
              rw [ih _ List.mem_cons_self, inRest]
              simp [Stmt.descendants, Stmt.children]

theorem findAllPossibleDatabasePairs_eq (outerEhc : OuterEHC) :
    findAllPossibleDatabasePairs db Body outerEhc =
      { outerEhc with
        possiblePairs := Body.descendants.flatMap (pushedPairs db outerEhc.databaseIndexes) } := by
  simp [findAllPossibleDatabasePairs, possibleDatabasePairVisit_eq]

theorem mem_makeUniqueLoop {unique : List ScoredStmt} {possible : List Stmt} {Sstmt : ScoredStmt}
    (member : Sstmt ∈ makeUniqueLoop unique possible) : Sstmt ∈ unique ∨ Sstmt.stmt ∈ possible := by
  induction possible generalizing unique with
  | nil => exact Or.inl member
  | cons stmt1 rest ih =>
      simp only [makeUniqueLoop] at member
      split at member
      · exact (ih member).imp_right (List.mem_cons_of_mem _)
      · split at member
        · rcases ih member with kept | inRest
          · rcases List.mem_append.mp kept with old | new
            · exact Or.inl old
            · rw [List.mem_singleton.mp new]
              exact Or.inr List.mem_cons_self
          · exact Or.inr (List.mem_cons_of_mem _ inRest)
        · exact (ih member).imp_right (List.mem_cons_of_mem _)

theorem maxScoredStmt_mem (maxStmt : Stmt) (maxScore : Int) (scored : List ScoredStmt) :
    maxScoredStmt maxStmt maxScore scored = maxStmt ∨
      ∃ Sstmt ∈ scored, maxScoredStmt maxStmt maxScore scored = Sstmt.stmt := by
  induction scored generalizing maxStmt maxScore with
  | nil => exact Or.inl rfl
  | cons Sstmt rest ih =>
      simp only [maxScoredStmt]
      split
      · rcases ih Sstmt.stmt Sstmt.score with same | ⟨best, mem, eq⟩
        · exact Or.inr ⟨Sstmt, List.mem_cons_self, same⟩
        · exact Or.inr ⟨best, List.mem_cons_of_mem _ mem, eq⟩
      · rcases ih maxStmt maxScore with same | ⟨best, mem, eq⟩
        · exact Or.inl same
        · exact Or.inr ⟨best, List.mem_cons_of_mem _ mem, eq⟩

/-- The chosen pair is one of the candidates. -/
theorem findMostPossibleDatabasePair_pairs (outerEHC : OuterEHC) :
    (findMostPossibleDatabasePair outerEHC).pairs = outerEHC.pairs ∨
      ∃ Sstmt ∈ outerEHC.uniquePossiblePairs,
        (findMostPossibleDatabasePair outerEHC).pairs = outerEHC.pairs ++ [Sstmt.stmt] := by
  simp only [findMostPossibleDatabasePair]
  split
  · exact Or.inl rfl
  · rename_i found
    rcases maxScoredStmt_mem .null 0 outerEHC.uniquePossiblePairs with none | ⟨best, mem, eq⟩
    · rw [none] at found
      exact absurd rfl found
    · exact Or.inr ⟨best, mem, by rw [eq]⟩

theorem findMostPossibleDatabasePair_possiblePairs (outerEHC : OuterEHC) :
    (findMostPossibleDatabasePair outerEHC).possiblePairs = outerEHC.possiblePairs := by
  simp only [findMostPossibleDatabasePair]
  split <;> rfl

/-- The statement prints as `pair` does and ends elsewhere. -/
def isDuplicateOf (sm : SourceManager) (pair currStmt : Stmt) : Bool :=
  currStmt.info.printed = pair.info.printed ∧
    sm.recursiveGetEnd currStmt ≠ sm.recursiveGetEnd pair

/-- The visit adds the statements that print the same. -/
theorem addAllDuplicateDatabasePairs_eq (pair s : Stmt) (outerEhc : OuterEHC) :
    addAllDuplicateDatabasePairs sm pair s outerEhc =
      { outerEhc with
        pairs := outerEhc.pairs ++ s.descendants.filter (isDuplicateOf sm pair) } := by
  induction s using Stmt.tree_induction generalizing outerEhc with
  | null => simp [addAllDuplicateDatabasePairs, Stmt.descendants, Stmt.children]
  | node info cls children ih =>
      simp only [addAllDuplicateDatabasePairs, Stmt.descendants, Stmt.children]
      clear info cls
      induction children generalizing outerEhc with
      | nil => simp [addAllDuplicateLoop]
      | cons currStmt rest ihRest =>
          have inRest := ihRest fun child childMem => ih child (List.mem_cons_of_mem _ childMem)
          cases currStmt with
          | null => simp [addAllDuplicateLoop, Stmt.isNull, inRest]
          | node info cls children =>
              simp only [addAllDuplicateLoop, Stmt.isNull, Bool.false_eq_true, if_false]
              rw [ih _ List.mem_cons_self, inRest]
              by_cases duplicate : isDuplicateOf sm pair (.node info cls children) = true
              · have holds := of_decide_eq_true duplicate
                simp [holds, duplicate, Stmt.descendants, Stmt.children]
              · have fails := of_decide_eq_false (Bool.not_eq_true _ ▸ duplicate)
                simp only [if_neg fails]
                simp [duplicate, Stmt.descendants, Stmt.children]

/-- The candidates of an outer EHC are the calls that one of its entries
accepts. -/
theorem mem_outerPairDatabase_possiblePairs {outerEhc : OuterEHC} {stmt : Stmt} :
    stmt ∈ (outerPairDatabase db sm Body outerEhc).possiblePairs ↔
      stmt ∈ Body.descendants.flatMap (pushedPairs db outerEhc.databaseIndexes) := by
  have found : (outerPairDatabase db sm Body outerEhc).possiblePairs =
      (findAllPossibleDatabasePairs db Body outerEhc).possiblePairs := by
    simp only [outerPairDatabase]
    split <;> simp [addAllDuplicateDatabasePairs_eq, findMostPossibleDatabasePair_possiblePairs,
      scoreUniquePossibleDatabasePairs, makePossibleDatabasePairsUnique]
  rw [found, findAllPossibleDatabasePairs_eq]

/-- A pair prints as some candidate does. -/
theorem mem_outerPairDatabase_pairs {outerEhc : OuterEHC} (fresh : outerEhc.pairs = [])
    {stmt : Stmt} (isPair : stmt ∈ (outerPairDatabase db sm Body outerEhc).pairs) :
    ∃ candidate ∈ Body.descendants.flatMap (pushedPairs db outerEhc.databaseIndexes),
      candidate.info.printed = stmt.info.printed := by
  simp only [outerPairDatabase, findAllPossibleDatabasePairs_eq] at isPair
  generalize scored : scoreUniquePossibleDatabasePairs Body _ = scoredEhc at isPair
  have noPairs : scoredEhc.pairs = [] := by
    rw [← scored]
    exact fresh
  have fromCandidates : ∀ Sstmt ∈ scoredEhc.uniquePossiblePairs,
      Sstmt.stmt ∈ Body.descendants.flatMap (pushedPairs db outerEhc.databaseIndexes) := by
    intro Sstmt scoredMem
    rw [← scored, scoreUniquePossibleDatabasePairs, List.mem_map] at scoredMem
    obtain ⟨unscored, uniqueMem, rfl⟩ := scoredMem
    rcases mem_makeUniqueLoop uniqueMem with inNil | isCandidate
    · simp at inNil
    · exact isCandidate
  rcases findMostPossibleDatabasePair_pairs scoredEhc with none | ⟨best, bestMem, chosen⟩
  · rw [none, noPairs] at isPair
    simp [none, noPairs] at isPair
  · rw [noPairs, List.nil_append] at chosen
    rw [chosen] at isPair
    simp only [addAllDuplicateDatabasePairs_eq, chosen, List.mem_append, List.mem_singleton,
      List.mem_filter] at isPair
    refine ⟨best.stmt, fromCandidates best bestMem, ?_⟩
    rcases isPair with rfl | ⟨_, duplicate⟩
    · rfl
    · exact (of_decide_eq_true duplicate).1.symm

/-! ## Respecting the database -/

/-- Some call in the body to the pair function of one of the entries prints as
the statement does. -/
def RespectsDatabase (db : Database) (Body : Stmt) (indexes : List Nat) (stmt : Stmt) : Prop :=
  ∃ index ∈ indexes, ∃ pairFnc, db.pairFncs[index]? = some pairFnc ∧
    ∃ call ∈ Body.descendants, call.directCallee = some pairFnc ∧
      call.info.printed = stmt.info.printed

/-- Every statement that `outer_pair_database` makes a candidate or a pair
respects the database. -/
def PairsRespectDatabase (db : Database) (sm : SourceManager) (Body : Stmt)
    (outerEhc : OuterEHC) : Prop :=
  ∀ stmt, stmt ∈ (outerPairDatabase db sm Body outerEhc).possiblePairs ∨
      stmt ∈ (outerPairDatabase db sm Body outerEhc).pairs →
    RespectsDatabase db Body outerEhc.databaseIndexes stmt

/-- The entry at `index` is its own pair, and the arguments of the call pass the
test of its function. -/
def SelfPaired (db : Database) (index : Nat) (call : Stmt) : Prop :=
  ∃ fnc, db.ehcFncs[index]? = some fnc ∧ db.pairFncs[index]? = some fnc ∧
    selectsParam "active" "1" fnc (parseParam call.info.text) = true

/-- Every direct call in the body that a self-paired entry accepts, whatever it
calls, prints as a call to a pair function of the EHC does. -/
def SelfPairsHarmless (db : Database) (Body : Stmt) (indexes : List Nat) : Prop :=
  ∀ call ∈ Body.descendants, ∀ fncname, call.directCallee = some fncname →
    ∀ index ∈ indexes, SelfPaired db index call → RespectsDatabase db Body indexes call

/-- An entry accepts the calls to its pair function, or any call when it is its
own pair. -/
theorem isCandidateBy_iff {call : Stmt} {fncname : String} {index : Nat} :
    isCandidateBy db call fncname index = true ↔
      SelfPaired db index call ∨
        (db.pairFncs[index]? = some fncname ∧ ∃ ehcFnc, db.ehcFncs[index]? = some ehcFnc ∧
          ehcFnc ≠ fncname) := by
  simp only [isCandidateBy, SelfPaired]
  cases ehcAt : db.ehcFncs[index]? with
  | none => simp
  | some ehcFnc =>
      cases pairAt : db.pairFncs[index]? with
      | none => simp
      | some pairFnc =>
          by_cases own : ehcFnc = pairFnc
          · subst own
            simp
          · have other : pairFnc ≠ ehcFnc := Ne.symm own
            simp only [own, if_false, beq_iff_eq, Option.some.injEq, exists_eq_left', other,
              false_and, false_or]
            constructor
            · rintro rfl
              exact ⟨rfl, own⟩
            · rintro ⟨rfl, _⟩
              rfl

theorem pairsRespectDatabase_iff_of (outerEhc : OuterEHC) (fresh : outerEhc.pairs = []) :
    PairsRespectDatabase db sm Body outerEhc ↔
      SelfPairsHarmless db Body outerEhc.databaseIndexes := by
  constructor
  · intro respects call callMem fncname callee index indexMem selfPaired
    apply respects call
    refine Or.inl (mem_outerPairDatabase_possiblePairs.mpr ?_)
    exact List.mem_flatMap.mpr ⟨call, callMem, mem_pushedPairs.mpr
      ⟨rfl, fncname, callee, index, indexMem, isCandidateBy_iff.mpr (Or.inl selfPaired)⟩⟩
  · intro harmless
    have candidate : ∀ stmt ∈ Body.descendants.flatMap
        (pushedPairs db outerEhc.databaseIndexes),
        RespectsDatabase db Body outerEhc.databaseIndexes stmt := by
      intro stmt stmtMem
      obtain ⟨call, callMem, pushed⟩ := List.mem_flatMap.mp stmtMem
      obtain ⟨rfl, fncname, callee, index, indexMem, accepted⟩ := mem_pushedPairs.mp pushed
      rcases isCandidateBy_iff.mp accepted with selfPaired | ⟨pairAt, _⟩
      · exact harmless stmt callMem fncname callee index indexMem selfPaired
      · exact ⟨index, indexMem, fncname, pairAt, stmt, callMem, callee, rfl⟩
    rintro stmt (isPossible | isPair)
    · exact candidate stmt (mem_outerPairDatabase_possiblePairs.mp isPossible)
    · obtain ⟨chosen, chosenMem, printed⟩ := mem_outerPairDatabase_pairs fresh isPair
      obtain ⟨index, indexMem, pairFnc, pairAt, call, callMem, callee, samePrint⟩ :=
        candidate chosen chosenMem
      exact ⟨index, indexMem, pairFnc, pairAt, call, callMem, callee, samePrint.trans printed⟩

/-- Pairing through the database respects it exactly when every call that a
self-paired entry of the EHC accepts prints as a call to one of its pair
functions. -/
theorem outerPairDatabase_respects_iff (db : Database) (sm : SourceManager) (Body : Stmt)
    (outerEhc : OuterEHC) (fresh : outerEhc.pairs = []) :
    PairsRespectDatabase db sm Body outerEhc ↔
      SelfPairsHarmless db Body outerEhc.databaseIndexes :=
  pairsRespectDatabase_iff_of outerEhc fresh

/-- `{ first(arg1); second(arg2); }` -/
def twoCalls (first arg1 second arg2 : String) : Stmt :=
  Build.block 0 0 1 100 4
    [Build.callOf 1 10 2 first arg1, Build.callOf 4 40 3 second arg2]

/-- Without self-paired entries the pairs respect the database. -/
theorem outerPairDatabase_respects_kmalloc :
    PairsRespectDatabase ⟨["kfree"], ["kmalloc"]⟩ Build.shortTokens (twoCalls "kmalloc" "n" "kfree" "p")
      { stmt := Build.callOf 4 40 3 "kfree" "p", databaseIndexes := [0] } := by
  refine (outerPairDatabase_respects_iff _ _ _ _ rfl).mpr ?_
  rintro call - fncname - index indexMem ⟨fnc, ehcAt, pairAt, -⟩
  rw [List.mem_singleton.mp indexMem] at ehcAt pairAt
  cases ehcAt
  simp at pairAt

/-- The outer EHC of `kfree(p)` as the database has it. -/
def kfreeEhc : OuterEHC where
  stmt := Build.callOf 4 40 3 "kfree" "p"
  foundWithDatabase := true
  databaseIndexes := findFnc databaseHeader.ehcFncs "kfree"

set_option maxRecDepth 8000 in
private theorem updateStats_no_pair : "update_stats" ∉ databaseHeader.pairFncs := by
  simp only [databaseHeader, headerPairFncs, List.mem_cons, String.reduceEq, List.not_mem_nil,
    or_self, not_false_eq_true]

/-- Any direct call is a candidate for `kfree`, which the database also lists
as its own pair. -/
theorem outerPairDatabase_takes_any_call :
    ¬ PairsRespectDatabase databaseHeader Build.shortTokens
        (twoCalls "update_stats" "x" "kfree" "p") kfreeEhc := by
  intro respects
  have harmless := (pairsRespectDatabase_iff_of kfreeEhc rfl).mp respects
  have selfPaired : SelfPaired databaseHeader 589 (Build.callOf 1 10 2 "update_stats" "x") :=
    ⟨"kfree", kfree_own_pair.1, kfree_own_pair.2, by decide⟩
  have listed : 589 ∈ kfreeEhc.databaseIndexes := by
    rw [kfreeEhc, mem_findFnc]
    exact kfree_own_pair.1
  obtain ⟨index, _, pairFnc, pairAt, call, callMem, callee, printed⟩ :=
    harmless (Build.callOf 1 10 2 "update_stats" "x")
      (by simp [twoCalls, Build.block, Build.callOf, Stmt.descendants, Stmt.children])
      "update_stats" rfl 589 listed selfPaired
  have notListed : pairFnc ≠ "update_stats" := by
    rintro rfl
    exact updateStats_no_pair (List.mem_of_getElem? pairAt)
  simp only [twoCalls, Build.block, Build.callOf, Build.nameRef, Stmt.descendants, Stmt.children,
    Stmt.nodesOf_cons, Stmt.nodes_node, Stmt.nodesOf_nil, List.append_nil, List.cons_append,
    List.nil_append, List.mem_cons, List.not_mem_nil, or_false] at callMem
  rcases callMem with rfl | rfl | rfl | rfl | rfl | rfl
  · exact notListed (Option.some.inj callee).symm
  all_goals
    revert printed
    decide

end Hecaton.Pass2
