import Hecaton.Pass2.BranchHeads
import Hecaton.Pass2.GotoResolution

/-!
# The labels of the GOTO heads

`Visit_goto` takes a branch for a GOTO block when the branch is a `goto` or has one among its
children.  `find_ehc_stmts` looks for the `goto` among the children only, and a `goto` has none:
then the variable with the label statement is read as it was declared, without a value.
-/

namespace Hecaton.Pass2

open Hecaton.Clang

/-- A head whose `goto` is resolved. -/
def isGotoHead (head : EHCHead) : Bool := head.type == .goto || head.type == .gotoMaybe

/-- The label statement of the head comes from a `goto` of the head, and it has a parent in
the body. -/
def LabelResolved (Body : Stmt) (head : EHCHead) : Prop :=
  ∃ label, (scanHead none head.headStmt.children).1 = some label ∧
    (∃ currStmt ∈ head.headStmt.children, gotoLabel currStmt = some label) ∧
    findParentRecursive (labelStmtOf Body label) Body ≠ .null

/-- What the compiler makes sure of: the body is a block, a `goto` has no children and the body
has the statement of its label. -/
structure GotosHaveLabels (Body : Stmt) : Prop where
  compound : Body.isCompound = true
  leaf : ∀ n ∈ Body.nodes, n.isGoto = true → n.children = []
  declared : ∀ n ∈ Body.nodes, ∀ label, gotoLabel n = some label →
    labelStmtOf Body label ≠ .null

/-- Neither branch of the `if` statement is a `goto` without braces around it. -/
def gotosInBraces (ifStatement : Stmt) : Bool :=
  !ifStatement.ifThen.isGoto && !ifStatement.ifElse.isGoto

/-! ## Labels -/

theorem gotoLabel_isSome (stmt : Stmt) : (gotoLabel stmt).isSome = stmt.isGoto := by
  cases stmt with
  | null => rfl
  | node info cls children => cases cls <;> rfl

/-- The label that the scan ends with comes from a `goto`. -/
theorem scanHead_label_mem {children : List Stmt} {label : String}
    (assigned : (scanHead none children).1 = some label) :
    ∃ currStmt ∈ children, gotoLabel currStmt = some label := by
  rw [scanHead_eq, Option.or_none] at assigned
  exact List.mem_filterMap.mp (List.mem_of_getLast? assigned)

/-- With a `goto` among the children the scan ends with a label. -/
theorem exists_scanHead_label {children : List Stmt} {currStmt : Stmt}
    (member : currStmt ∈ children) (isGoto : currStmt.isGoto = true) :
    ∃ label, (scanHead none children).1 = some label := by
  obtain ⟨label, isLabel⟩ := Option.isSome_iff_exists.mp (gotoLabel_isSome currStmt ▸ isGoto)
  have labels : label ∈ children.filterMap gotoLabel := List.mem_filterMap.mpr ⟨_, member, isLabel⟩
  rw [scanHead_eq, Option.or_none]
  exact ⟨_, List.getLast?_eq_some_getLast (List.ne_nil_of_mem labels)⟩

/-- A label statement of a block lies below the block. -/
theorem labelStmtOf_mem_descendants {Body : Stmt} (compound : Body.isCompound = true)
    {label : String} (found : labelStmtOf Body label ≠ .null) :
    labelStmtOf Body label ∈ Body.descendants := by
  obtain ⟨labelMem, isLabel⟩ := labelStmtOf_spec found
  rcases Stmt.mem_nodes_iff.mp labelMem with ⟨isBody, _⟩ | below
  · rw [isBody, ← Bool.not_eq_false] at isLabel
    exact absurd (by cases Body <;> simp_all [Stmt.isLabel, Stmt.isCompound, Stmt.isa]) isLabel
  · exact below

/-- `find_ehc_stmts` makes an EHC of a GOTO head exactly when its label is resolved. -/
theorem ehcOfHead_isSome_iff {Body : Stmt} {head : EHCHead} (isGoto : isGotoHead head = true)
    (nonnull : head.headStmt ≠ .null) :
    (ehcOfHead Body head).isSome = true ↔ LabelResolved Body head := by
  have present := Stmt.isNull_eq_false nonnull
  rw [isGotoHead] at isGoto
  rw [ehcOfHead, if_pos isGoto, present, if_neg Bool.false_ne_true]
  dsimp only
  cases assigned : (scanHead none head.headStmt.children).1 with
  | none =>
      dsimp only
      refine iff_of_false (by simp) ?_
      rintro ⟨label, isLabel, _⟩
      rw [assigned] at isLabel
      cases isLabel
  | some label =>
      dsimp only
      have fromGoto := scanHead_label_mem assigned
      cases parent : findParentRecursive (labelStmtOf Body label) Body with
      | null =>
          refine iff_of_false (by simp [Stmt.isNull]) ?_
          rintro ⟨other, isLabel, _, hasParent⟩
          rw [assigned] at isLabel
          cases isLabel
          exact hasParent parent
      | node =>
          exact iff_of_true (by simp [Stmt.isNull]) ⟨label, assigned, fromGoto, by simp [parent]⟩

/-! ## The heads that are created -/

/-- The block is a `goto` or has one among its children. -/
def HasGoto (stmt : Stmt) : Prop :=
  stmt.isGoto = true ∨ ∃ currStmt ∈ stmt.children, currStmt.isGoto = true

theorem visitGoto_iff (stmt : Stmt) (gotostr : String) :
    (visitGoto stmt gotostr).1 = true ↔ HasGoto stmt := by
  rw [visitGoto]
  split
  · rename_i isGoto
    exact iff_of_true rfl (Or.inl isGoto)
  · rename_i notGoto
    cases found : stmt.children.find? Stmt.isGoto with
    | none =>
        have noneIs := List.find?_eq_none.mp found
        refine iff_of_false (by simp) ?_
        rintro (isGoto | ⟨currStmt, member, isGoto⟩)
        · exact notGoto isGoto
        · exact noneIs currStmt member isGoto
    | some currStmt =>
        exact iff_of_true rfl
          (Or.inr ⟨currStmt, List.mem_of_find?_eq_some found, List.find?_some found⟩)

theorem not_isGotoHead_of_mem_returnHeads {headStmt : Stmt} {kind : ReturnKind} {head : EHCHead}
    (member : head ∈ returnHeads headStmt kind) : isGotoHead head = false := by
  cases kind with
  | none => simp [returnHeads] at member
  | negative =>
      rw [List.mem_singleton.mp member]
      rfl
  | general =>
      rw [List.mem_singleton.mp member]
      rfl

theorem isGotoHead_gotoType (gotostring : String) (headStmt : Stmt) :
    isGotoHead { type := gotoType gotostring, headStmt := headStmt } = true := by
  rw [gotoType]
  split <;> rfl

/-- The `then` branch gets a GOTO head exactly when it has a `goto`. -/
theorem gotoHead_then (gotostr : String) (ifStatement : Stmt) :
    (∀ head ∈ thenHeads gotostr ifStatement, isGotoHead head = true →
      head.headStmt = ifStatement.ifThen ∧ HasGoto ifStatement.ifThen) ∧
    (HasGoto ifStatement.ifThen → ∃ head ∈ thenHeads gotostr ifStatement,
      isGotoHead head = true ∧ head.headStmt = ifStatement.ifThen) := by
  rw [← visitGoto_iff ifStatement.ifThen gotostr, thenHeads]
  cases visited : visitGoto ifStatement.ifThen gotostr with
  | mk hasGoto gotostring =>
      dsimp only
      constructor
      · intro head member isGoto
        split at member
        · rw [List.mem_singleton.mp member] at isGoto ⊢
          cases hasGoto with
          | true => exact ⟨rfl, rfl⟩
          | false => exact absurd isGoto Bool.false_ne_true
        · rcases List.mem_append.mp member with byReturn | byGoto
          · rw [not_isGotoHead_of_mem_returnHeads byReturn] at isGoto
            exact absurd isGoto Bool.false_ne_true
          · cases hasGoto with
            | true =>
                rw [List.mem_singleton.mp byGoto]
                exact ⟨rfl, rfl⟩
            | false => simp at byGoto
      · rintro rfl
        split
        · exact ⟨_, List.mem_singleton.mpr rfl, rfl, rfl⟩
        · exact ⟨_, List.mem_append_right _ (List.mem_singleton.mpr rfl),
            isGotoHead_gotoType _ _, rfl⟩

/-- So does the `else` branch. -/
theorem gotoHead_else (gotostr : String) (ifStatement : Stmt) :
    (∀ head ∈ elseHeads gotostr ifStatement, isGotoHead head = true →
      head.headStmt = ifStatement.ifElse ∧ HasGoto ifStatement.ifElse) ∧
    (HasGoto ifStatement.ifElse → ∃ head ∈ elseHeads gotostr ifStatement,
      isGotoHead head = true ∧ head.headStmt = ifStatement.ifElse) := by
  rw [← visitGoto_iff ifStatement.ifElse (bufferAfterThen gotostr ifStatement), elseHeads]
  cases branch : ifStatement.ifElse with
  | null => simp [Stmt.isNull, visitGoto, Stmt.isGoto, Stmt.isa, Stmt.children]
  | node info cls children =>
      have present : (Stmt.node info cls children).isNull = false := rfl
      rw [present, if_neg Bool.false_ne_true]
      constructor
      · intro head member isGoto
        rcases List.mem_append.mp member with byReturn | byGoto
        · rw [not_isGotoHead_of_mem_returnHeads byReturn] at isGoto
          exact absurd isGoto Bool.false_ne_true
        · split at byGoto
          · rename_i hasGoto
            rw [List.mem_singleton.mp byGoto]
            exact ⟨rfl, hasGoto⟩
          · simp at byGoto
      · intro hasGoto
        rw [if_pos hasGoto]
        exact ⟨_, List.mem_append_right _ (List.mem_singleton.mpr rfl),
          isGotoHead_gotoType _ _, rfl⟩

/-- The GOTO heads are the branches with a `goto` of the `if` statements that are visited. -/
theorem gotoHead_iff (gotostr : Stmt → String) (Body branch : Stmt) :
    (∃ head ∈ recursiveVisitIf gotostr Body,
      isGotoHead head = true ∧ head.headStmt = branch) ↔
    HasGoto branch ∧ ∃ ifStatement ∈ visitedIfs Body,
      branch = ifStatement.ifThen ∨ branch = ifStatement.ifElse := by
  rw [recursiveVisitIf_eq]
  constructor
  · rintro ⟨head, member, isGoto, rfl⟩
    obtain ⟨ifStatement, visited, inHeads⟩ := List.mem_flatMap.mp member
    rcases List.mem_append.mp inHeads with inThen | inElse
    · obtain ⟨isThen, hasGoto⟩ := (gotoHead_then _ ifStatement).1 head inThen isGoto
      exact ⟨isThen ▸ hasGoto, ifStatement, visited, Or.inl isThen⟩
    · obtain ⟨isElse, hasGoto⟩ := (gotoHead_else _ ifStatement).1 head inElse isGoto
      exact ⟨isElse ▸ hasGoto, ifStatement, visited, Or.inr isElse⟩
  · rintro ⟨hasGoto, ifStatement, visited, rfl | rfl⟩
    · obtain ⟨head, inThen, isHead⟩ := (gotoHead_then (gotostr ifStatement) ifStatement).2 hasGoto
      exact ⟨head, List.mem_flatMap.mpr
        ⟨ifStatement, visited, List.mem_append_left _ inThen⟩, isHead⟩
    · obtain ⟨head, inElse, isHead⟩ := (gotoHead_else (gotostr ifStatement) ifStatement).2 hasGoto
      exact ⟨head, List.mem_flatMap.mpr
        ⟨ifStatement, visited, List.mem_append_right _ inElse⟩, isHead⟩

/-! ## When the labels are resolved -/

/-- A GOTO head that is no `goto` itself has its label resolved. -/
theorem labelResolved_of_not_goto {gotostr : Stmt → String} {Body : Stmt}
    (labels : GotosHaveLabels Body) {head : EHCHead} (member : head ∈ recursiveVisitIf gotostr Body)
    (hasGoto : HasGoto head.headStmt) (notGoto : head.headStmt.isGoto = false) :
    LabelResolved Body head := by
  obtain ⟨currStmt, childMem, isGoto⟩ := hasGoto.resolve_left (by simp [notGoto])
  obtain ⟨label, assigned⟩ := exists_scanHead_label childMem isGoto
  obtain ⟨gotoStmt, gotoMem, isLabel⟩ := scanHead_label_mem assigned
  have headNonnull : head.headStmt ≠ .null := by
    intro isNull
    rw [isNull] at childMem
    simp [Stmt.children] at childMem
  have gotoNonnull : gotoStmt ≠ .null := by
    rintro rfl
    simp [gotoLabel] at isLabel
  have inBody := Stmt.mem_descendants_of_child
    (Stmt.descendants_subset_nodes (headStmt_mem_descendants member headNonnull)) gotoMem gotoNonnull
  have found := labels.declared gotoStmt (Stmt.descendants_subset_nodes inBody) label isLabel
  have below := labelStmtOf_mem_descendants labels.compound found
  exact ⟨label, assigned, ⟨gotoStmt, gotoMem, isLabel⟩,
    findParentRecursive_ne_null below (Stmt.same_self _)⟩

/-- The label of every GOTO head is resolved exactly when no branch of a visited `if` statement
is a `goto` without braces around it. -/
theorem recursiveVisitIf_labelResolved_iff (gotostr : Stmt → String) (Body : Stmt)
    (labels : GotosHaveLabels Body) :
    (∀ head ∈ recursiveVisitIf gotostr Body, isGotoHead head = true → LabelResolved Body head) ↔
      ∀ ifStatement ∈ visitedIfs Body, gotosInBraces ifStatement = true := by
  constructor
  · intro resolved ifStatement visited
    have noGoto : ∀ branch, branch = ifStatement.ifThen ∨ branch = ifStatement.ifElse →
        branch.isGoto = false := by
      intro branch isBranch
      by_contra isGoto
      rw [Bool.not_eq_false] at isGoto
      obtain ⟨head, member, isHead, rfl⟩ := (gotoHead_iff gotostr Body branch).mpr
        ⟨Or.inl isGoto, ifStatement, visited, isBranch⟩
      obtain ⟨label, _, ⟨currStmt, childMem, _⟩, _⟩ := resolved head member isHead
      have nonnull : head.headStmt ≠ .null := by
        intro isNull
        simp [isNull, Stmt.isGoto, Stmt.isa] at isGoto
      rw [labels.leaf _ (Stmt.descendants_subset_nodes (headStmt_mem_descendants member nonnull))
        isGoto] at childMem
      simp at childMem
    rw [gotosInBraces, noGoto _ (Or.inl rfl), noGoto _ (Or.inr rfl)]
    rfl
  · intro inBraces head member isHead
    obtain ⟨hasGoto, ifStatement, visited, isBranch⟩ :=
      (gotoHead_iff gotostr Body head.headStmt).mp ⟨head, member, isHead, rfl⟩
    have braces := inBraces ifStatement visited
    rw [gotosInBraces, Bool.and_eq_true, Bool.not_eq_true', Bool.not_eq_true'] at braces
    apply labelResolved_of_not_goto labels member hasGoto
    rcases isBranch with isThen | isElse
    · rw [isThen]
      exact braces.1
    · rw [isElse]
      exact braces.2

/-- `{ if (n) thenBranch  out: return; }` -/
def gotoBody (thenBranch : Stmt) : Stmt :=
  Build.block 1 0 1 90 8
    [Build.ifOf 2 10 (Build.nameRef 3 14 2 "n") thenBranch,
      Build.labelOf 10 60 "out" (Build.returnOf 11 65 7)]

/-- `{ goto out; }` -/
def blockOut : Stmt := Build.block 4 20 2 50 4 [Build.gotoOf 5 24 3 "out"]

theorem gotosHaveLabels_gotoBody : GotosHaveLabels (gotoBody blockOut) where
  compound := rfl
  leaf := by
    simp [gotoBody, blockOut, Build.block, Build.ifOf, Build.nameRef, Build.labelOf,
      Build.gotoOf, Build.returnOf, Stmt.isGoto, Stmt.isa, Stmt.children]
  declared := by
    simp [gotoBody, blockOut, Build.block, Build.ifOf, Build.nameRef, Build.labelOf,
      Build.gotoOf, Build.returnOf, gotoLabel, labelStmtOf, isLabelStmtOf, Stmt.isa]

theorem recursiveVisitIf_labelResolved_block :
    GotosHaveLabels (gotoBody blockOut) ∧
      ∀ head ∈ recursiveVisitIf (fun _ => "") (gotoBody blockOut), isGotoHead head = true →
        LabelResolved (gotoBody blockOut) head :=
  ⟨gotosHaveLabels_gotoBody,
    (recursiveVisitIf_labelResolved_iff (fun _ => "") (gotoBody blockOut)
      gotosHaveLabels_gotoBody).mpr (by decide)⟩

/-- The branch `goto out;` without braces gets a GOTO head, and its label is never set. -/
theorem recursiveVisitIf_label_unset :
    ¬ ∀ head ∈ recursiveVisitIf (fun _ => "") (gotoBody (Build.gotoOf 5 24 3 "out")),
      isGotoHead head = true → LabelResolved (gotoBody (Build.gotoOf 5 24 3 "out")) head := by
  intro resolved
  obtain ⟨head, member, isHead, isGoto⟩ := (gotoHead_iff (fun _ => "")
    (gotoBody (Build.gotoOf 5 24 3 "out")) (Build.gotoOf 5 24 3 "out")).mpr
      ⟨Or.inl rfl, _, List.mem_cons_self, Or.inl rfl⟩
  obtain ⟨_, _, ⟨currStmt, childMem, _⟩, _⟩ := resolved head member isHead
  rw [isGoto] at childMem
  simp [Build.gotoOf, Stmt.children] at childMem

end Hecaton.Pass2
