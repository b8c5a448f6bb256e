import Hecaton.Pass2.ConditionStamps

/-!
# Conditions and their texts

Whether a statement stands in the condition of the `if`, `for` or `while` above it is decided
by its text: it counts as a part of the condition when the text of the condition holds its
own.  The texts of a tree are nested, so a part of the condition is always found; a statement of
the body is taken for one when its text is repeated there.
-/

namespace Hecaton.Pass2

open Hecaton.Clang

/-- The statement is a node of the condition, of a `for` of any part of its header. -/
def InConditionOf (p s : Stmt) : Prop := ∃ part ∈ conditionParts p, s ∈ part.nodes

/-- The source text of every node of the tree holds that of each of its children. -/
def TextsNested (root : Stmt) : Prop :=
  ∀ q ∈ root.nodes, ∀ child ∈ q.children, child.isNull = false →
    contains q.info.text child.info.text = true

instance (root : Stmt) : Decidable (TextsNested root) := by
  unfold TextsNested
  infer_instance

/-- The source text of the condition; of a `for` the parts that are there, with ` ; ` between. -/
def headerText (p : Stmt) : List Char :=
  match conditionParts p with
  | [] => []
  | first :: more =>
      (if first.isNull then [] else first.info.text.toList) ++
        more.flatMap fun part => if part.isNull then [] else " ; ".toList ++ part.info.text.toList

/-! ## The text of the condition -/

theorem text_of_isNull {q : Stmt} (isNull : q.isNull = true) : q.info.text = "" := by
  cases q with
  | null => rfl
  | node => cases isNull

theorem headerText_eq (p : Stmt) : headerText p = (parentCondStr p).toList := by
  have single : ∀ q : Stmt, (if q.isNull then [] else q.info.text.toList) = q.info.text.toList := by
    intro q
    split
    · next isNull => rw [text_of_isNull isNull]; rfl
    · rfl
  by_cases isIf : p.isIf = true
  · have parts : conditionParts p = [p.ifCond] := by rw [conditionParts, if_pos isIf]
    rw [headerText, parts, parentCondStr, if_pos isIf]
    simp [single]
  · by_cases isFor : p.isFor = true
    · have parts : conditionParts p = [p.forInit, p.forCond, p.forInc] := by
        rw [conditionParts, if_neg isIf, if_pos isFor]
      rw [headerText, parts, parentCondStr, if_neg isIf, if_pos isFor]
      simp only [List.flatMap_cons, List.flatMap_nil, List.append_nil]
      cases p.forInit.isNull <;> cases p.forCond.isNull <;> cases p.forInc.isNull <;> simp
    · have parts : conditionParts p = [p.whileCond] := by
        rw [conditionParts, if_neg isIf, if_neg isFor]
      rw [headerText, parts, parentCondStr, if_neg isIf, if_neg isFor]
      simp [single]

theorem contains_trans {str sub part : String} (first : contains str sub = true)
    (second : contains sub part = true) : contains str part = true := by
  simp only [contains, decide_eq_true_eq] at first second ⊢
  exact second.trans first

/-- In nested texts that of a node holds those of all nodes below it. -/
theorem contains_of_mem_nodes {root n : Stmt} (nested : TextsNested root) (nMem : n ∈ root.nodes) :
    contains root.info.text n.info.text = true := by
  induction root using Stmt.tree_induction with
  | null => simp at nMem
  | node info cls children ih =>
      rcases Stmt.mem_nodes_iff.mp nMem with ⟨rfl, _⟩ | below
      · simp [contains]
      · obtain ⟨child, childMem, inChild⟩ := Stmt.mem_descendants_iff.mp below
        have childNonnull : child ≠ .null := by
          rintro rfl
          simp at inChild
        have isNode := Stmt.isNull_eq_false childNonnull
        have nestedChild : TextsNested child := by
          intro q qMem
          exact nested q (Stmt.descendants_subset_nodes
            (Stmt.mem_descendants_iff.mpr ⟨child, childMem, qMem⟩))
        have here := nested _ (Stmt.self_mem_nodes (by simp)) child childMem isNode
        exact contains_trans here (ih child childMem nestedChild inChild)

/-! ## The test on the texts -/

/-- A node of the condition is found. -/
theorem stmtInParentCondition_of_inConditionOf {p s : Stmt}
    (nested : ∀ part ∈ conditionParts p, TextsNested part)
    (conditional : isConditional p = true) (inCondition : InConditionOf p s) :
    stmtInParentCondition s p = true := by
  obtain ⟨part, partMem, inPart⟩ := inCondition
  have nonnull : part ≠ .null := by
    rintro rfl
    simp at inPart
  have isNode := Stmt.isNull_eq_false nonnull
  rw [stmtInParentCondition, conditional, Bool.true_and]
  exact contains_parentCondStr partMem isNode (contains_of_mem_nodes (nested part partMem) inPart)

/-- For every statement with an `if`, `for` or `while` above it the test on the texts agrees with
the tree exactly when the statement is a node of the condition or its source text stands nowhere
in that of the condition. -/
theorem stmtInParentCondition_agrees_iff {Body s p : Stmt}
    (nested : ∀ part ∈ conditionParts p, TextsNested part)
    (found : findIfstmtGrandparentRecursive s Body = p) (nonnull : p ≠ .null) :
    (stmtInParentCondition s p = true ↔ InConditionOf p s) ↔
      (InConditionOf p s ∨ ∀ before behind,
        headerText p ≠ before ++ s.info.text.toList ++ behind) := by
  have conditional := (findIfstmtGrandparentRecursive_sound found nonnull).2
  have test : stmtInParentCondition s p = true ↔
      ∃ before behind, headerText p = before ++ s.info.text.toList ++ behind := by
    rw [stmtInParentCondition, conditional, Bool.true_and, contains, decide_eq_true_eq,
      headerText_eq]
    constructor
    · rintro ⟨before, behind, split⟩
      exact ⟨before, behind, split.symm⟩
    · rintro ⟨before, behind, split⟩
      exact ⟨before, behind, split.symm⟩
  constructor
  · intro agrees
    by_cases inCondition : InConditionOf p s
    · exact Or.inl inCondition
    · right
      intro before behind split
      exact inCondition (agrees.mp (test.mpr ⟨before, behind, split⟩))
  · rintro (inCondition | notRepeated)
    · exact iff_of_true (stmtInParentCondition_of_inConditionOf nested conditional inCondition)
        inCondition
    · refine ⟨fun occurs => ?_, stmtInParentCondition_of_inConditionOf nested conditional⟩
      obtain ⟨before, behind, split⟩ := test.mp occurs
      exact absurd split (notRepeated before behind)

/-- In `if (register_netdev(d)) { report(d); }` the call of the body is none of the condition. -/
theorem stmtInParentCondition_agrees_report :
    (stmtInParentCondition (Build.callOf 6 40 3 "report" "d") registerIf = true ↔
        InConditionOf registerIf (Build.callOf 6 40 3 "report" "d")) ↔
      (InConditionOf registerIf (Build.callOf 6 40 3 "report" "d") ∨ ∀ before behind,
        headerText registerIf ≠
          before ++ (Build.callOf 6 40 3 "report" "d").info.text.toList ++ behind) :=
  @stmtInParentCondition_agrees_iff registerBody _ _ (by decide) rfl
    (by simp [registerIf, Build.ifOf])

/-! A call that is repeated. -/

/-- The call of the body of `{ if (get(d)) { get(d); } }`. -/
def repeatedCall : Stmt := Build.callOf 6 40 3 "get" "d"

/-- `if (get(d)) { get(d); }` -/
def repeatingIf : Stmt :=
  Build.ifOf 1 10 (Build.callOf 2 14 2 "get" "d") (Build.block 5 34 2 60 4 [repeatedCall])

/-- The call of the body is taken for a node of the condition. -/
theorem stmtInParentCondition_repeatedCall :
    findIfstmtGrandparentRecursive repeatedCall (Build.block 0 0 1 100 6 [repeatingIf]) =
        repeatingIf ∧
      ¬ (stmtInParentCondition repeatedCall repeatingIf = true ↔
        InConditionOf repeatingIf repeatedCall) := by
  refine ⟨rfl, fun agrees => ?_⟩
  have occurs : stmtInParentCondition repeatedCall repeatingIf = true := by decide
  obtain ⟨part, partMem, inPart⟩ := agrees.mp occurs
  have addresses : ∀ part ∈ conditionParts repeatingIf, ∀ n ∈ part.nodes,
      n.info.id ≠ repeatedCall.info.id := by decide
  exact addresses part partMem repeatedCall inPart rfl

end Hecaton.Pass2
