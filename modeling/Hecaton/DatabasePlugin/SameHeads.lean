import Hecaton.DatabasePlugin.Lines

/-!
# The blocks that both find

The plugin and the second pass look for error-handling blocks at the same `if` statements.
The second pass takes one head for a tested branch where the plugin may push three, has
doubtful blocks besides, and stops its search for `return` at a `break`.
-/

namespace Hecaton.DatabasePlugin

open Hecaton.Clang Hecaton.Library

/-- The condition of the `if` statement tests for an error. -/
def testsError (ifStatement : Stmt) : Bool :=
  Pass2.comparesBelowZero ifStatement.ifCond || Pass2.testsForError ifStatement.ifCond

/-- The branch returns a negated value or leaves with a `goto`. -/
def Fails (branch : Stmt) : Prop := visitReturn branch = true ∨ visitGoto branch = true

/-- The branch is an error-handling block of the `if` statement. -/
def IsBlockOf (ifStatement branch : Stmt) : Prop :=
  (branch = ifStatement.ifThen ∧ (testsError ifStatement = true ∨ Fails branch)) ∨
    (ifStatement.ifElse.isNull = false ∧ branch = ifStatement.ifElse ∧ Fails branch)

/-! ## The plugin -/

theorem exists_branchHead_iff {branch other : Stmt} :
    (∃ head ∈ branchHeads other, head.headStmt = branch) ↔ branch = other ∧ Fails branch := by
  constructor
  · rintro ⟨head, member, rfl⟩
    refine ⟨(of_mem_branchHeads member).1, ?_⟩
    rw [(of_mem_branchHeads member).1]
    rcases List.mem_append.mp member with byReturn | byGoto
    · split at byReturn
      · rename_i returns
        exact Or.inl returns
      · exact absurd byReturn List.not_mem_nil
    · split at byGoto
      · rename_i leaves
        exact Or.inr leaves
      · exact absurd byGoto List.not_mem_nil
  · rintro ⟨rfl, returns | leaves⟩
    · exact ⟨{ type := .return_, headStmt := branch }, by simp [branchHeads, returns], rfl⟩
    · exact ⟨{ type := .goto, headStmt := branch }, by simp [branchHeads, leaves], rfl⟩

theorem exists_headOfIf_iff {ifStatement branch : Stmt} :
    (∃ head ∈ headsOfIf ifStatement, head.headStmt = branch) ↔ IsBlockOf ifStatement branch := by
  have inThen := @exists_branchHead_iff branch ifStatement.ifThen
  have inElse := @exists_branchHead_iff branch ifStatement.ifElse
  constructor
  · rintro ⟨head, member, same⟩
    simp only [headsOfIf] at member
    rcases List.mem_append.mp member with before | ofElse
    · rcases List.mem_append.mp before with byCondition | ofThen
      · split at byCondition
        · rename_i tests
          rw [List.mem_singleton.mp byCondition] at same
          exact Or.inl ⟨same.symm, Or.inl tests⟩
        · exact absurd byCondition List.not_mem_nil
      · obtain ⟨isThen, fails⟩ := inThen.mp ⟨head, ofThen, same⟩
        exact Or.inl ⟨isThen, Or.inr fails⟩
    · split at ofElse
      · exact absurd ofElse List.not_mem_nil
      · rename_i hasElse
        obtain ⟨isElse, fails⟩ := inElse.mp ⟨head, ofElse, same⟩
        exact Or.inr ⟨Bool.eq_false_of_not_eq_true hasElse, isElse, fails⟩
  · rintro (⟨isThen, tests | fails⟩ | ⟨hasElse, isElse, fails⟩)
    · rw [testsError] at tests
      refine ⟨{ type := .cond, headStmt := ifStatement.ifThen }, ?_, isThen.symm⟩
      simp [headsOfIf, tests]
    · obtain ⟨head, ofThen, same⟩ := inThen.mpr ⟨isThen, fails⟩
      refine ⟨head, ?_, same⟩
      simp [headsOfIf, ofThen]
    · obtain ⟨head, ofElse, same⟩ := inElse.mpr ⟨isElse, fails⟩
      refine ⟨head, ?_, same⟩
      simp [headsOfIf, hasElse, ofElse]

theorem visitGoto_null : visitGoto .null = false := rfl

theorem exists_gotoHead_iff {ifStatement branch : Stmt} :
    (∃ head ∈ headsOfIf ifStatement, head.type = .goto ∧ head.headStmt = branch) ↔
      visitGoto branch = true ∧ (branch = ifStatement.ifThen ∨ branch = ifStatement.ifElse) := by
  have ofBranch : ∀ {other : Stmt} {head : EHCHead}, head ∈ branchHeads other →
      head.type = .goto → visitGoto other = true := by
    intro other head member isGoto
    rcases List.mem_append.mp member with byReturn | byGoto
    · split at byReturn
      · rw [List.mem_singleton.mp byReturn] at isGoto
        cases isGoto
      · exact absurd byReturn List.not_mem_nil
    · split at byGoto
      · rename_i leaves
        exact leaves
      · exact absurd byGoto List.not_mem_nil
  have toBranch : ∀ {other : Stmt}, visitGoto other = true →
      { type := .goto, headStmt := other } ∈ branchHeads other := by
    intro other leaves
    simp [branchHeads, leaves]
  constructor
  · rintro ⟨head, member, isGoto, rfl⟩
    simp only [headsOfIf] at member
    rcases List.mem_append.mp member with before | ofElse
    · rcases List.mem_append.mp before with byCondition | ofThen
      · split at byCondition
        · rw [List.mem_singleton.mp byCondition] at isGoto
          cases isGoto
        · exact absurd byCondition List.not_mem_nil
      · rw [(of_mem_branchHeads ofThen).1]
        exact ⟨ofBranch ofThen isGoto, Or.inl rfl⟩
    · split at ofElse
      · exact absurd ofElse List.not_mem_nil
      · rw [(of_mem_branchHeads ofElse).1]
        exact ⟨ofBranch ofElse isGoto, Or.inr rfl⟩
  · rintro ⟨leaves, rfl | rfl⟩
    · exact ⟨{ type := .goto, headStmt := ifStatement.ifThen },
        by simp [headsOfIf, toBranch leaves], rfl, rfl⟩
    · have hasElse : ifStatement.ifElse.isNull = false := by
        cases noElse : ifStatement.ifElse with
        | null =>
            rw [noElse, visitGoto_null] at leaves
            cases leaves
        | node => rfl
      exact ⟨{ type := .goto, headStmt := ifStatement.ifElse },
        by simp [headsOfIf, hasElse, toBranch leaves], rfl, rfl⟩

/-- The cleaning leaves every head with a `goto`. -/
theorem exists_cleanedGoto_iff {Body : Stmt} {heads : List EHCHead}
    (cleaned : cleanedHeads Body = some heads) {branch : Stmt} :
    (∃ head ∈ heads, head.type = .goto ∧ head.headStmt = branch) ↔
      Pass2.HasGoto branch ∧ ∃ ifStatement ∈ Pass2.visitedIfs Body,
        branch = ifStatement.ifThen ∨ branch = ifStatement.ifElse := by
  have hasGoto : Pass2.HasGoto branch ↔ visitGoto branch = true := by
    rw [Pass2.HasGoto, visitGoto, Bool.or_eq_true, List.any_eq_true]
  rw [hasGoto]
  constructor
  · rintro ⟨head, member, isHead⟩
    obtain ⟨ifStatement, visited, ofIf⟩ :=
      List.mem_flatMap.mp (head_mem_of_cleanedHeads cleaned member)
    obtain ⟨leaves, isBranch⟩ := exists_gotoHead_iff.mp ⟨head, ofIf, isHead⟩
    exact ⟨leaves, ifStatement, visited, isBranch⟩
  · rintro ⟨leaves, ifStatement, visited, isBranch⟩
    obtain ⟨head, ofIf, isGoto, same⟩ := exists_gotoHead_iff.mpr ⟨leaves, isBranch⟩
    rw [cleanedHeads, ehcHeadCleanDuplicates_eq _ _ (Nat.le_refl _), Option.map_some,
      LinkedList.values_filter, LinkedList.values_ofList] at cleaned
    cases cleaned
    have stays : isTakenBy (recursiveVisitIf Body) head = false := by
      rw [isTakenBy, List.any_eq_false]
      intro ehc _
      simp [isDuplicateOf, isGoto]
    exact ⟨head, List.mem_filter.mpr ⟨List.mem_flatMap.mpr ⟨ifStatement, visited, ofIf⟩,
      by simp [stays]⟩, isGoto, same⟩

/-- The cleaning leaves a head of every block. -/
theorem exists_cleanedHead_iff {Body : Stmt} (distinct : Body.Distinct) {heads : List EHCHead}
    (cleaned : cleanedHeads Body = some heads) {branch : Stmt} :
    (∃ head ∈ heads, head.headStmt = branch) ↔
      ∃ ifStatement ∈ Pass2.visitedIfs Body, IsBlockOf ifStatement branch := by
  have all : (∃ head ∈ recursiveVisitIf Body, head.headStmt = branch) ↔
      ∃ ifStatement ∈ Pass2.visitedIfs Body, IsBlockOf ifStatement branch := by
    constructor
    · rintro ⟨head, member, same⟩
      obtain ⟨ifStatement, visited, ofIf⟩ := List.mem_flatMap.mp member
      exact ⟨ifStatement, visited, exists_headOfIf_iff.mp ⟨head, ofIf, same⟩⟩
    · rintro ⟨ifStatement, visited, isBlock⟩
      obtain ⟨head, ofIf, same⟩ := exists_headOfIf_iff.mpr isBlock
      exact ⟨head, List.mem_flatMap.mpr ⟨ifStatement, visited, ofIf⟩, same⟩
  rw [← all]
  constructor
  · rintro ⟨head, member, same⟩
    exact ⟨head, head_mem_of_cleanedHeads cleaned member, same⟩
  · rintro ⟨head, member, rfl⟩
    rw [cleanedHeads, ehcHeadCleanDuplicates_eq _ _ (Nat.le_refl _), Option.map_some,
      LinkedList.values_filter, LinkedList.values_ofList] at cleaned
    cases cleaned
    cases taken : isTakenBy (recursiveVisitIf Body) head with
    | false => exact ⟨head, List.mem_filter.mpr ⟨member, by simp [taken]⟩, rfl⟩
    | true =>
        -- The head that takes it out is of the same block and stays.
        obtain ⟨other, otherMem, takes⟩ := List.any_eq_true.mp taken
        rw [Bool.and_eq_true, bne_iff_ne, isDuplicateOf, Bool.and_eq_true] at takes
        obtain ⟨notCond, _, same⟩ := takes
        have otherStays : isTakenBy (recursiveVisitIf Body) other = false := by
          rw [isTakenBy, List.any_eq_false]
          intro ehc _
          simp [isDuplicateOf, notCond]
        refine ⟨other, List.mem_filter.mpr ⟨otherMem, by simp [otherStays]⟩, ?_⟩
        cases block : head.headStmt with
        | null =>
            rw [block] at same
            cases otherBlock : other.headStmt with
            | null => rfl
            | node => simp [otherBlock, Stmt.same] at same
        | node info cls children =>
            have headNonnull : head.headStmt ≠ .null := by simp [block]
            have otherNonnull : other.headStmt ≠ .null := by
              intro isNull
              rw [isNull, block] at same
              simp [Stmt.same] at same
            have headMem := Stmt.descendants_subset_nodes (headStmt_below member headNonnull)
            have otherNode := Stmt.descendants_subset_nodes (headStmt_below otherMem otherNonnull)
            rw [← block]
            exact ((distinct.same_iff_eq headMem otherNode).mp same).symm

/-! ## The second pass -/

theorem negated_of_visitReturnLoop {ret : Pass2.ReturnKind} (notYet : ret ≠ .negative)
    {children : List Stmt} (isNegative : Pass2.visitReturnLoop ret children = .negative) :
    ∃ currStmt ∈ children, currStmt.isReturn = true ∧ Pass2.returnsNegated currStmt = true := by
  induction children generalizing ret with
  | nil => exact absurd isNegative notYet
  | cons currStmt rest ih =>
      rw [Pass2.visitReturnLoop] at isNegative
      have inRest : ∀ {ret : Pass2.ReturnKind}, ret ≠ .negative →
          Pass2.visitReturnLoop ret rest = .negative → ∃ other ∈ currStmt :: rest,
            other.isReturn = true ∧ Pass2.returnsNegated other = true := by
        intro ret notYet isNegative
        obtain ⟨other, otherMem, isOther⟩ := ih notYet isNegative
        exact ⟨other, List.mem_cons_of_mem _ otherMem, isOther⟩
      split at isNegative
      · rename_i isReturn
        split at isNegative
        · rename_i negated
          exact ⟨currStmt, List.mem_cons_self, isReturn, negated⟩
        · exact inRest (by simp) isNegative
      · split at isNegative
        · cases isNegative
        · exact inRest notYet isNegative

theorem ne_none_of_negated {ret : Pass2.ReturnKind} {children : List Stmt}
    (found : ret ≠ .none ∨ ∃ currStmt ∈ children, currStmt.isReturn = true) :
    Pass2.visitReturnLoop ret children ≠ .none := by
  induction children generalizing ret with
  | nil =>
      rcases found with started | ⟨_, member, _⟩
      · exact started
      · exact absurd member List.not_mem_nil
  | cons currStmt rest ih =>
      rw [Pass2.visitReturnLoop]
      split
      · split
        · simp
        · exact ih (Or.inl (by simp))
      · rename_i notReturn
        split
        · simp
        · apply ih
          rcases found with started | ⟨other, member, isReturn⟩
          · exact Or.inl started
          · rcases List.mem_cons.mp member with rfl | inRest
            · exact absurd isReturn notReturn
            · exact Or.inr ⟨other, inRest, isReturn⟩

theorem visitReturn_of_negative {stmt : Stmt} (isNegative : Pass2.visitReturn stmt = .negative) :
    visitReturn stmt = true := by
  obtain ⟨currStmt, member, isReturn, negated⟩ := negated_of_visitReturnLoop (by simp) isNegative
  rw [visitReturn, List.any_eq_true]
  exact ⟨currStmt, member, by simp [isReturn, negated]⟩

theorem visitReturn_ne_none {stmt : Stmt} (returns : visitReturn stmt = true) :
    Pass2.visitReturn stmt ≠ .none := by
  obtain ⟨currStmt, member, isNegated⟩ := List.any_eq_true.mp returns
  exact ne_none_of_negated (Or.inr ⟨currStmt, member, (Bool.and_eq_true _ _ ▸ isNegated).1⟩)

theorem visitGoto_eq (stmt : Stmt) (gotostr : String) :
    (Pass2.visitGoto stmt gotostr).1 = visitGoto stmt := by
  rw [Bool.eq_iff_iff, Pass2.visitGoto_iff, Pass2.HasGoto, visitGoto, Bool.or_eq_true,
    List.any_eq_true]

/-- The head is one of the block, and no doubtful one of a block without a `return` of a negated
value. -/
def IsCertain (branch : Stmt) (head : Pass2.EHCHead) : Prop :=
  head.headStmt = branch ∧ (head.type = .maybe → visitReturn branch = true)

/-- The heads of a branch whose condition does not test for an error. -/
def ownHeads (gotostr text : String) (branch : Stmt) : List Pass2.EHCHead :=
  Pass2.returnHeads branch (Pass2.visitReturn branch) ++
    if (Pass2.visitGoto branch gotostr).1 then
      [{ type := Pass2.gotoType text, headStmt := branch }]
    else []

theorem gotoType_ne_maybe (text : String) : Pass2.gotoType text ≠ .maybe := by
  rw [Pass2.gotoType]
  split <;> simp

theorem exists_ownHead_iff {gotostr text : String} {branch other : Stmt} :
    (∃ head ∈ ownHeads gotostr text other, IsCertain branch head) ↔
      branch = other ∧ Fails branch := by
  rw [ownHeads, visitGoto_eq]
  constructor
  · rintro ⟨head, member, same, certain⟩
    rcases List.mem_append.mp member with byReturn | byGoto
    · have isOther := Pass2.headStmt_of_mem_returnHeads byReturn
      refine ⟨same.symm.trans isOther, Or.inl ?_⟩
      rw [← same, isOther] at certain ⊢
      cases kind : Pass2.visitReturn other with
      | none =>
          rw [kind] at byReturn
          exact absurd byReturn List.not_mem_nil
      | negative => exact visitReturn_of_negative kind
      | general =>
          rw [kind] at byReturn
          apply certain
          rw [List.mem_singleton.mp byReturn]
    · split at byGoto
      · rename_i leaves
        rw [List.mem_singleton.mp byGoto] at same
        dsimp only at same
        rw [← same]
        exact ⟨rfl, Or.inr leaves⟩
      · exact absurd byGoto List.not_mem_nil
  · rintro ⟨rfl, returns | leaves⟩
    · cases kind : Pass2.visitReturn branch with
      | none => exact absurd kind (visitReturn_ne_none returns)
      | negative =>
          exact ⟨{ type := .return_, headStmt := branch },
            List.mem_append_left _ (List.mem_singleton.mpr rfl), rfl, fun _ => returns⟩
      | general =>
          exact ⟨{ type := .maybe, headStmt := branch },
            List.mem_append_left _ (List.mem_singleton.mpr rfl), rfl, fun _ => returns⟩
    · rw [if_pos leaves]
      exact ⟨_, List.mem_append_right _ (List.mem_singleton.mpr rfl), rfl,
        fun isMaybe => absurd isMaybe (gotoType_ne_maybe text)⟩

theorem exists_certainHead_iff {gotostr : String} {ifStatement branch : Stmt} :
    (∃ head ∈ Pass2.thenHeads gotostr ifStatement ++ Pass2.elseHeads gotostr ifStatement,
      IsCertain branch head) ↔ IsBlockOf ifStatement branch := by
  have inThen : (∃ head ∈ Pass2.thenHeads gotostr ifStatement, IsCertain branch head) ↔
      branch = ifStatement.ifThen ∧ (testsError ifStatement = true ∨ Fails branch) := by
    cases tests : testsError ifStatement with
    | true =>
        rw [testsError] at tests
        rw [Pass2.thenHeads]
        simp only [tests, if_true, List.mem_singleton, exists_eq_left, true_or, and_true]
        constructor
        · rintro ⟨same, _⟩
          exact same.symm
        · rintro rfl
          refine ⟨rfl, fun isMaybe => ?_⟩
          dsimp only at isMaybe
          split at isMaybe <;> cases isMaybe
    | false =>
        have own : Pass2.thenHeads gotostr ifStatement =
            ownHeads gotostr (Pass2.visitGoto ifStatement.ifThen gotostr).2 ifStatement.ifThen := by
          rw [testsError] at tests
          rw [Pass2.thenHeads, ownHeads]
          simp only [tests, Bool.false_eq_true, if_false]
        rw [own, exists_ownHead_iff]
        simp
  have inElse : (∃ head ∈ Pass2.elseHeads gotostr ifStatement, IsCertain branch head) ↔
      ifStatement.ifElse.isNull = false ∧ branch = ifStatement.ifElse ∧ Fails branch := by
    rw [Pass2.elseHeads]
    cases noElse : ifStatement.ifElse.isNull with
    | true => simp
    | false =>
        simp only [Bool.false_eq_true, if_false, true_and]
        exact exists_ownHead_iff
  rw [IsBlockOf, ← inThen, ← inElse]
  simp only [List.mem_append, or_and_right, exists_or]

/-! ## Agreement -/

/-- For every body the plugin's blocks are those that the second pass takes too, without those
that it doubts and that return no negated value; and the plugin has a GOTO head for the blocks for
which the second pass has a GOTO or a GOTO_MAYBE head. -/
theorem cleanedHeads_agree (gotostr : Stmt → String) (Body : Stmt) (distinct : Body.Distinct) :
    ∃ heads, cleanedHeads Body = some heads ∧ ∀ branch,
      ((∃ head ∈ heads, head.headStmt = branch) ↔
        ∃ head2 ∈ Pass2.recursiveVisitIf gotostr Body, head2.headStmt = branch ∧
          (head2.type = .maybe → visitReturn branch = true)) ∧
      ((∃ head ∈ heads, head.type = .goto ∧ head.headStmt = branch) ↔
        ∃ head2 ∈ Pass2.recursiveVisitIf gotostr Body,
          Pass2.isGotoHead head2 = true ∧ head2.headStmt = branch) := by
  obtain ⟨heads, cleaned⟩ : ∃ heads, cleanedHeads Body = some heads := by
    rw [cleanedHeads, ehcHeadCleanDuplicates_eq _ _ (Nat.le_refl _)]
    exact ⟨_, rfl⟩
  refine ⟨heads, cleaned, fun branch => ⟨?_, ?_⟩⟩
  · rw [exists_cleanedHead_iff distinct cleaned, Pass2.recursiveVisitIf_eq]
    constructor
    · rintro ⟨ifStatement, visited, isBlock⟩
      obtain ⟨head2, ofIf, certain⟩ :=
        (@exists_certainHead_iff (gotostr ifStatement) ifStatement branch).mpr isBlock
      exact ⟨head2, List.mem_flatMap.mpr ⟨ifStatement, visited, ofIf⟩, certain⟩
    · rintro ⟨head2, member, certain⟩
      obtain ⟨ifStatement, visited, ofIf⟩ := List.mem_flatMap.mp member
      exact ⟨ifStatement, visited, exists_certainHead_iff.mp ⟨head2, ofIf, certain⟩⟩
  · rw [exists_cleanedGoto_iff cleaned, Pass2.gotoHead_iff]

/-- The block with the `goto err` is found by both. -/
theorem cleanedHeads_agree_err :
    ∃ heads, cleanedHeads (Pass2.twoExits "err") = some heads ∧
      ∃ head ∈ heads, head.headStmt = (Pass2.gotoHead "err").headStmt := by
  have distinct := (Pass2.wellFormed_twoExits "err").distinct
  obtain ⟨heads, cleaned, agree⟩ :=
    cleanedHeads_agree (fun _ => "") (Pass2.twoExits "err") distinct
  refine ⟨heads, cleaned, (agree _).1.mpr ?_⟩
  have heads2 : Pass2.recursiveVisitIf (fun _ => "") (Pass2.twoExits "err") =
      [Pass2.gotoHead "err"] := rfl
  rw [heads2]
  exact ⟨_, List.mem_singleton_self _, rfl, nofun⟩

end Hecaton.DatabasePlugin
