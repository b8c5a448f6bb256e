import Hecaton.Clang.Build
import Hecaton.Pass2.ParentSearch
import Hecaton.Pass2.State

/-!
# Goto resolution

`find_ehc_stmts` lists the statements of every error-handling block.  For a
block that leaves through a `goto` it appends what it finds behind the label:
the children of the label's parent, from the label up to the first `return`.
The test for the `return` looks at the child itself, so a labelled `return` does
not stop it, and a label that stands under another label has a parent with no
further children.
-/

namespace Hecaton.Pass2

open Hecaton.Clang

/-- The label of a `goto`. -/
def gotoLabel : Stmt → Option String
  | .node _ (.gotoStmt label) _ => some label
  | _ => none

/-- Whether the node is the statement of the given label. -/
def isLabelStmtOf (label : String) (s : Stmt) : Bool := s.isa (· == .labelStmt label)

/-- `labeldec->getStmt()`: the labelled statement of the function. -/
def labelStmtOf (Body : Stmt) (label : String) : Stmt :=
  (Body.nodes.find? (isLabelStmtOf label)).getD .null

mutual

/-- The statement under all labels of `stmt`; null when a label has none. -/
def stripLabels : Stmt → Stmt
  | .null => .null
  | .node info cls children =>
      if (Stmt.node info cls children).isLabel then stripFirstChild children
      else .node info cls children

/-- The same for `*(newStmt->child_begin())`. -/
def stripFirstChild : List Stmt → Stmt
  | [] => .null
  | newStmt :: _ => stripLabels newStmt

end

/-- What the loop over the label's parent pushes for one child. -/
def pushedStmts (currStmt : Stmt) : List Stmt :=
  if currStmt.isLabel then
    let newStmt := stripLabels currStmt
    if newStmt.isNull then [] else [newStmt]
  else [currStmt]

/-- The loop over the children of the label's parent. -/
def scanLabelParent (labelstm : Stmt) (start : Bool) : List Stmt → List Stmt
  | [] => []
  | currStmt :: rest =>
      let start := start || currStmt.same labelstm
      if currStmt.isNull then scanLabelParent labelstm start rest
      else
        let pushed := if start then pushedStmts currStmt else []
        let start := if currStmt.isReturn then false else start
        pushed ++ scanLabelParent labelstm start rest

/-- The loop over the children of the head: the label of the last `goto`, and
the other statements. -/
def scanHead (labelstm : Option String) : List Stmt → Option String × List Stmt
  | [] => (labelstm, [])
  | currStmt :: rest =>
      if currStmt.isNull then scanHead labelstm rest
      else
        match gotoLabel currStmt with
        | some label => scanHead (some label) rest
        | none =>
            let (labelstm, stmts) := scanHead labelstm rest
            (labelstm, currStmt :: stmts)

/-- One round of `find_ehc_stmts`: the EHC of a head, if it gets one.  `none`
where the source reads an uninitialised or a null pointer: a GOTO block without
a `goto` among its children, or a label outside the body. -/
def ehcOfHead (Body : Stmt) (head : EHCHead) : Option (List EHC) :=
  if head.type == .goto || head.type == .gotoMaybe then
    if head.headStmt.isNull then some []
    else
      let (labelstm, stmts) := scanHead none head.headStmt.children
      match labelstm with
      | none => none
      | some label =>
          let labelstm := labelStmtOf Body label
          let lableParent := findParentRecursive labelstm Body
          if lableParent.isNull then none
          else
            some [{
              head := head
              ehcStmts := stmts ++ scanLabelParent labelstm false lableParent.children }]
  else if head.headStmt.isNull then some [{ head := head }]
  else if head.headStmt.isCompound then
    some [{
      head := head
      ehcStmts := head.headStmt.children.filter fun currStmt => !currStmt.isNull }]
  else some [{ head := head, ehcStmts := [head.headStmt] }]

/-- `find_ehc_stmts`. -/
def findEhcStmts (Body : Stmt) : List EHCHead → Option (List EHC)
  | [] => some []
  | head :: rest =>
      match ehcOfHead Body head, findEhcStmts Body rest with
      | some ehcs, some others => some (ehcs ++ others)
      | _, _ => none

/-! ## The loops -/

/-- The children that are no `goto`. -/
def nonGotos (children : List Stmt) : List Stmt :=
  children.filter fun child => !child.isNull && (gotoLabel child).isNone

theorem scanHead_eq (labelstm : Option String) (children : List Stmt) :
    scanHead labelstm children =
      ((children.filterMap gotoLabel).getLast?.or labelstm, nonGotos children) := by
  induction children generalizing labelstm with
  | nil => simp [scanHead, nonGotos]
  | cons currStmt rest ih =>
      cases currStmt with
      | null => simpa [scanHead, Stmt.isNull, nonGotos, gotoLabel] using ih labelstm
      | node info cls sub =>
          cases isGoto : gotoLabel (.node info cls sub) with
          | none => simp [scanHead, Stmt.isNull, nonGotos, isGoto, ih]
          | some label =>
              simp only [scanHead, Stmt.isNull, isGoto, ih, nonGotos, Bool.false_eq_true, if_false,
                List.filterMap_cons]
              cases more : (rest.filterMap gotoLabel).getLast? with
              | none => simp_all [List.getLast?_cons]
              | some last => simp_all [List.getLast?_cons]

/-- The non-null statements of a list. -/
def nonNulls (stmts : List Stmt) : List Stmt := stmts.filter fun stmt => !stmt.isNull

theorem mem_nonNulls {stmts : List Stmt} {stmt : Stmt} :
    stmt ∈ nonNulls stmts ↔ stmt ∈ stmts ∧ stmt ≠ .null := by
  cases stmt with
  | null => simp [nonNulls, Stmt.isNull]
  | node => simp [nonNulls, Stmt.isNull]

/-- The statements up to and including the first that is a `return` itself. -/
def uptoPlainReturn : List Stmt → List Stmt
  | [] => []
  | stmt :: rest => if stmt.isReturn then [stmt] else stmt :: uptoPlainReturn rest

theorem scanLabelParent_stopped {labelstm : Stmt} {children : List Stmt}
    (absent : ∀ child ∈ children, child.same labelstm = false) :
    scanLabelParent labelstm false children = [] := by
  induction children with
  | nil => rfl
  | cons currStmt rest ih =>
      have inRest := ih fun child childMem => absent child (List.mem_cons_of_mem _ childMem)
      have here := absent currStmt List.mem_cons_self
      simp [scanLabelParent, here, inRest]

/-- Every label of the tree has exactly one statement under it. -/
def LabelsHaveStmts (s : Stmt) : Prop :=
  ∀ n ∈ s.nodes, n.isLabel = true → ∃ sub, n.children = [sub] ∧ sub ≠ .null

theorem stripLabels_of_not_label {s : Stmt} (plain : s.isLabel = false) : stripLabels s = s := by
  cases s with
  | null => simp [stripLabels]
  | node info cls children => simp [stripLabels, plain]

/-- The statement under the labels is a node of the tree and no label. -/
theorem stripLabels_mem {s : Stmt} (nonnull : s ≠ .null) (labelled : LabelsHaveStmts s) :
    stripLabels s ∈ s.nodes ∧ (stripLabels s).isLabel = false := by
  induction s using Stmt.tree_induction with
  | null => exact absurd rfl nonnull
  | node info cls children ih =>
      cases isLabel : (Stmt.node info cls children).isLabel with
      | false =>
          rw [stripLabels_of_not_label isLabel]
          exact ⟨Stmt.self_mem_nodes nonnull, isLabel⟩
      | true =>
          obtain ⟨sub, only, subNonnull⟩ := labelled _ (Stmt.self_mem_nodes nonnull) isLabel
          simp only [Stmt.children] at only
          subst only
          have inner := ih sub List.mem_cons_self subNonnull (by
            intro n nMem
            exact labelled n (by simp [nMem]))
          simp only [stripLabels, isLabel, if_true, stripFirstChild]
          exact ⟨by simp [inner.1], inner.2⟩

theorem pushedStmts_eq {s : Stmt} (nonnull : s ≠ .null) (labelled : LabelsHaveStmts s) :
    pushedStmts s = [stripLabels s] := by
  cases isLabel : s.isLabel with
  | false => simp [pushedStmts, isLabel, stripLabels_of_not_label isLabel]
  | true =>
      have present := Stmt.ne_null_of_mem_nodes (stripLabels_mem nonnull labelled).1
      cases stripped : stripLabels s with
      | null => exact absurd stripped present
      | node => simp [pushedStmts, isLabel, stripped, Stmt.isNull]

/-- Once started, the loop strips the labels of the children up to the first
plain `return`. -/
theorem scanLabelParent_started {labelstm : Stmt} {children : List Stmt}
    (absent : ∀ child ∈ children, child.same labelstm = false)
    (labelled : ∀ child ∈ children, LabelsHaveStmts child) :
    scanLabelParent labelstm true children =
      (uptoPlainReturn (nonNulls children)).map stripLabels := by
  induction children with
  | nil => rfl
  | cons currStmt rest ih =>
      have absentRest : ∀ child ∈ rest, child.same labelstm = false :=
        fun child childMem => absent child (List.mem_cons_of_mem _ childMem)
      have inRest := ih absentRest fun child childMem =>
        labelled child (List.mem_cons_of_mem _ childMem)
      cases currStmt with
      | null => simpa [scanLabelParent, Stmt.isNull, nonNulls] using inRest
      | node info cls sub =>
          have pushed := pushedStmts_eq (by simp) (labelled _ List.mem_cons_self)
          cases isReturn : (Stmt.node info cls sub).isReturn with
          | true =>
              simp [scanLabelParent, Stmt.isNull, nonNulls, uptoPlainReturn, isReturn, pushed,
                scanLabelParent_stopped absentRest]
          | false =>
              simpa [scanLabelParent, Stmt.isNull, nonNulls, uptoPlainReturn, isReturn, pushed]
                using inRest

/-! ## Straight-line flow from a label -/

/-- A body as the compiler hands it over. -/
structure WellFormedBody (Body : Stmt) : Prop where
  distinct : Body.Distinct
  compound : Body.isCompound = true
  labelled : LabelsHaveStmts Body

/-- Where a labelled statement stands: its parent, with the children around it,
and its nearest enclosing block, with the children around the one it is in. -/
structure LabelPlace (Body labelstm : Stmt) where
  parent : Stmt
  front : List Stmt
  back : List Stmt
  parentMem : parent ∈ Body.nodes
  parentSplit : parent.children = front ++ labelstm :: back
  block : Stmt
  before : List Stmt
  child : Stmt
  rest : List Stmt
  blockMem : block ∈ Body.nodes
  isBlock : block.isCompound = true
  blockSplit : block.children = before ++ child :: rest
  inChild : labelstm ∈ child.nodes
  nearest : ∀ m ∈ child.nodes, m.isCompound = true → labelstm ∉ m.descendants

mutual

/-- Whether straight-line flow may end in a statement: it holds a `return`, a
`goto`, or a `break` or `continue` that nothing in it catches. -/
def mayLeave (breaks continues : Bool) : Stmt → Bool
  | .null => false
  | .node _ cls children =>
      match cls with
      | .returnStmt | .gotoStmt _ => true
      | .breakStmt => breaks
      | .continueStmt => continues
      | .forStmt | .whileStmt | .doStmt => mayLeaveAny false false children
      | .switchStmt => mayLeaveAny false continues children
      | _ => mayLeaveAny breaks continues children

/-- The same for a list of statements. -/
def mayLeaveAny (breaks continues : Bool) : List Stmt → Bool
  | [] => false
  | s :: rest => mayLeave breaks continues s || mayLeaveAny breaks continues rest

end

mutual

/-- Whether straight-line flow never gets behind a statement: a `return` or a
jump, a block or a label that holds such a statement, or an `if` with two such
branches.  A loop or a `switch` may be passed. -/
def mustLeave : Stmt → Bool
  | .null => false
  | .node _ cls children =>
      match cls with
      | .returnStmt | .gotoStmt _ | .breakStmt | .continueStmt => true
      | .compoundStmt | .labelStmt _ | .caseStmt | .defaultStmt => mustLeaveAny children
      | .ifStmt => mustLeaveBranches children
      | _ => false

/-- One of the statements of a block is not passed. -/
def mustLeaveAny : List Stmt → Bool
  | [] => false
  | s :: rest => mustLeave s || mustLeaveAny rest

/-- Neither branch is passed. -/
def mustLeaveBranches : List Stmt → Bool
  | [_, thenBranch, elseBranch] => mustLeave thenBranch && mustLeave elseBranch
  | _ => false

end

/-- What straight-line flow may take of the statements of a block, without
labels: it goes from one to the next, and it ends behind the last one or in one
that leaves. -/
inductive StraightLine : List Stmt → List Stmt → Prop
  | nil : StraightLine [] []
  | leaves {stmt : Stmt} {rest : List Stmt} (leaving : mayLeave true true stmt = true) :
      StraightLine (stmt :: rest) [stripLabels stmt]
  | passes {stmt : Stmt} {rest taken : List Stmt} (passing : mustLeave stmt = false)
      (behind : StraightLine rest taken) :
      StraightLine (stmt :: rest) (stripLabels stmt :: taken)

/-- The first statement of a list in which flow may end is a `return` without a
label or stands last. -/
def LeavesByReturn (stmts : List Stmt) : Prop :=
  ∀ pre stmt post, stmts = pre ++ stmt :: post →
    (∀ earlier ∈ pre, mayLeave true true earlier = false) →
      mayLeave true true stmt = true → stmt.isReturn = true ∨ post = []

/-- The label is a direct child of its block and flow from it ends in a `return`
without a label or in the last statement; or it stands under another statement,
alone, and nothing follows that flow would reach. -/
def LabelPlace.Resolvable {Body labelstm : Stmt} (place : LabelPlace Body labelstm) : Prop :=
  (place.child = labelstm ∧ LeavesByReturn (labelstm :: nonNulls place.rest)) ∨
    (place.child ≠ labelstm ∧ nonNulls place.back = [] ∧
      (mustLeave labelstm = true ∨ nonNulls place.rest = []))

/-- Where flow has to leave it may leave. -/
theorem mayLeave_of_mustLeave {s : Stmt} (leaves : mustLeave s = true) :
    mayLeave true true s = true := by
  induction s using Stmt.tree_induction with
  | null => simp [mustLeave] at leaves
  | node info cls children ih =>
      have inList : ∀ stmts : List Stmt, (∀ stmt ∈ stmts, stmt ∈ children) →
          mustLeaveAny stmts = true → mayLeaveAny true true stmts = true := by
        intro stmts inside someLeaves
        induction stmts with
        | nil => simp [mustLeaveAny] at someLeaves
        | cons stmt rest restIh =>
            rw [mustLeaveAny, Bool.or_eq_true] at someLeaves
            rw [mayLeaveAny, Bool.or_eq_true]
            rcases someLeaves with here | later
            · exact Or.inl (ih stmt (inside stmt List.mem_cons_self) here)
            · exact Or.inr (restIh (fun other otherMem =>
                inside other (List.mem_cons_of_mem _ otherMem)) later)
      cases cls with
      | compoundStmt | labelStmt | caseStmt | defaultStmt =>
          simp only [mustLeave] at leaves
          simpa only [mayLeave] using inList children (fun _ => id) leaves
      | ifStmt =>
          simp only [mustLeave] at leaves
          unfold mustLeaveBranches at leaves
          split at leaves
          · rename_i cond thenBranch elseBranch
            have thenLeaves := ih thenBranch (by simp) (Bool.and_eq_true_iff.mp leaves).1
            simp [mayLeave, mayLeaveAny, thenLeaves]
          · cases leaves
      | returnStmt | gotoStmt | breakStmt | continueStmt => simp [mayLeave]
      | _ => simp [mustLeave] at leaves

/-- Straight-line flow takes something. -/
theorem exists_straightLine (stmts : List Stmt) : ∃ taken, StraightLine stmts taken := by
  induction stmts with
  | nil => exact ⟨[], .nil⟩
  | cons stmt rest ih =>
      cases must : mustLeave stmt with
      | true => exact ⟨_, .leaves (mayLeave_of_mustLeave must)⟩
      | false =>
          obtain ⟨taken, behind⟩ := ih
          exact ⟨_, .passes must behind⟩

/-- What flow takes are statements of the list without their labels. -/
theorem StraightLine.subset {stmts taken : List Stmt} (line : StraightLine stmts taken) :
    taken ⊆ stmts.map stripLabels := by
  induction line with
  | nil => simp
  | leaves => simp
  | passes _ _ ih =>
      rw [List.map_cons]
      exact List.cons_subset_cons _ ih

theorem StraightLine.eq_nil_iff {stmts taken : List Stmt} (line : StraightLine stmts taken) :
    taken = [] ↔ stmts = [] := by
  cases line <;> simp

/-- A statement in which flow cannot end is passed. -/
theorem straightLine_cons_of_stays {stmt : Stmt} {rest taken : List Stmt}
    (stays : mayLeave true true stmt = false) :
    StraightLine (stmt :: rest) taken ↔
      ∃ behind, StraightLine rest behind ∧ taken = stripLabels stmt :: behind := by
  constructor
  · intro line
    cases line with
    | leaves leaving =>
        rw [stays] at leaving
        cases leaving
    | passes _ behind => exact ⟨_, behind, rfl⟩
  · rintro ⟨behind, line, rfl⟩
    refine .passes ?_ line
    by_contra must
    rw [mayLeave_of_mustLeave (Bool.not_eq_false _ ▸ must)] at stays
    cases stays

theorem isReturn_of_label {s : Stmt} (isLabel : s.isLabel = true) : s.isReturn = false := by
  cases s with
  | null => rfl
  | node info cls children => cases cls <;> simp_all [Stmt.isLabel, Stmt.isReturn, Stmt.isa]

theorem isCompound_of_label {s : Stmt} (isLabel : s.isLabel = true) : s.isCompound = false := by
  cases s with
  | null => rfl
  | node info cls children => cases cls <;> simp_all [Stmt.isLabel, Stmt.isCompound, Stmt.isa]

theorem isLabel_of_isLabelStmtOf {label : String} {s : Stmt}
    (isStmt : isLabelStmtOf label s = true) : s.isLabel = true := by
  cases s with
  | null => simp [isLabelStmtOf, Stmt.isa] at isStmt
  | node info cls children =>
      simp only [isLabelStmtOf, Stmt.isa, beq_iff_eq] at isStmt
      simp [Stmt.isLabel, Stmt.isa, isStmt]

theorem mustLeave_of_isReturn {s : Stmt} (isReturn : s.isReturn = true) : mustLeave s = true := by
  cases s with
  | null => cases isReturn
  | node info cls children => cases cls <;> first | rfl | cases isReturn

theorem leavesByReturn_cons_of_leaves {stmt : Stmt} {rest : List Stmt}
    (leaves : mayLeave true true stmt = true) :
    LeavesByReturn (stmt :: rest) ↔ stmt.isReturn = true ∨ rest = [] := by
  constructor
  · intro byReturn
    exact byReturn [] stmt rest rfl (by simp) leaves
  · intro byReturn pre first post split earlier _
    cases pre with
    | nil =>
        cases split
        exact byReturn
    | cons head tail =>
        cases split
        rw [earlier stmt List.mem_cons_self] at leaves
        cases leaves

theorem leavesByReturn_cons_of_stays {stmt : Stmt} {rest : List Stmt}
    (stays : mayLeave true true stmt = false) :
    LeavesByReturn (stmt :: rest) ↔ LeavesByReturn rest := by
  constructor
  · intro byReturn pre first post split earlier
    exact byReturn (stmt :: pre) first post (by rw [split]; rfl) (by simpa [stays])
  · intro byReturn pre first post split earlier leaves
    cases pre with
    | nil =>
        cases split
        rw [stays] at leaves
        cases leaves
    | cons head tail =>
        cases split
        exact byReturn tail first post rfl
          (fun other otherMem => earlier other (List.mem_cons_of_mem _ otherMem)) leaves

theorem uptoPlainReturn_eq_nil_iff {stmts : List Stmt} : uptoPlainReturn stmts = [] ↔ stmts = [] := by
  cases stmts with
  | nil => simp [uptoPlainReturn]
  | cons stmt rest =>
      simp only [uptoPlainReturn]
      split <;> simp

theorem head_mem_uptoPlainReturn (stmt : Stmt) (rest : List Stmt) :
    stmt ∈ uptoPlainReturn (stmt :: rest) := by
  simp only [uptoPlainReturn]
  split <;> simp

/-- Cutting behind the first plain `return` yields what flow takes, whichever
way it goes, exactly when flow ends in that `return` or in the last statement. -/
theorem map_uptoPlainReturn_eq_iff (stmts : List Stmt) :
    (∀ taken, StraightLine stmts taken → (uptoPlainReturn stmts).map stripLabels = taken) ↔
      LeavesByReturn stmts := by
  induction stmts with
  | nil =>
      constructor
      · simp [LeavesByReturn]
      · rintro _ _ ⟨⟩
        rfl
  | cons stmt rest ih =>
      cases leaves : mayLeave true true stmt with
      | true =>
          rw [leavesByReturn_cons_of_leaves leaves]
          cases plain : stmt.isReturn with
          | true =>
              simp only [uptoPlainReturn, plain, if_true, true_or, iff_true]
              intro taken line
              cases line with
              | leaves => rfl
              | passes passing =>
                  rw [mustLeave_of_isReturn plain] at passing
                  cases passing
          | false =>
              simp only [uptoPlainReturn, plain, Bool.false_eq_true, if_false, false_or]
              constructor
              · intro all
                have equal := all _ (.leaves leaves)
                simpa [uptoPlainReturn_eq_nil_iff] using equal
              · rintro rfl taken line
                cases line with
                | leaves => rfl
                | passes _ behind =>
                    cases behind
                    rfl
      | false =>
          have plain : stmt.isReturn = false := by
            by_contra isReturn
            rw [mayLeave_of_mustLeave (mustLeave_of_isReturn (Bool.not_eq_false _ ▸ isReturn))]
              at leaves
            cases leaves
          rw [leavesByReturn_cons_of_stays leaves, ← ih]
          have unfolded : (uptoPlainReturn (stmt :: rest)).map stripLabels =
              stripLabels stmt :: (uptoPlainReturn rest).map stripLabels := by
            simp [uptoPlainReturn, plain]
          rw [unfolded]
          constructor
          · intro all behind line
            have whole := (straightLine_cons_of_stays leaves).mpr ⟨behind, line, rfl⟩
            exact (List.cons.inj (all _ whole)).2
          · intro all taken line
            obtain ⟨behind, inRest, rfl⟩ := (straightLine_cons_of_stays leaves).mp line
            rw [all behind inRest]

/-! ## Resolving one `goto` -/

section Resolution

variable {Body labelstm : Stmt}

/-- The parts of a list of children share no node. -/
theorem disjoint_of_split {s c : Stmt} (distinct : s.Distinct) {front back : List Stmt}
    (split : s.children = front ++ c :: back) :
    (Stmt.nodesOf front).Disjoint c.nodes ∧ c.nodes.Disjoint (Stmt.nodesOf back) := by
  have nodup := List.Nodup.of_map _ distinct.of_children
  rw [split, Stmt.nodesOf_append, Stmt.nodesOf_cons] at nodup
  have parts := List.nodup_append.mp nodup
  have inner := List.nodup_append.mp parts.2.1
  constructor
  · intro n inFront inChild
    exact parts.2.2 n inFront n (List.mem_append_left _ inChild) rfl
  · intro n inChild inBack
    exact inner.2.2 n inChild n inBack rfl

/-- The loop over the label's parent yields the statement of the label and the
statements behind it up to the first plain `return`. -/
theorem scanLabelParent_eq (wf : WellFormedBody Body) (isLabel : labelstm.isLabel = true)
    (place : LabelPlace Body labelstm) :
    scanLabelParent labelstm false place.parent.children =
      stripLabels labelstm :: (uptoPlainReturn (nonNulls place.back)).map stripLabels := by
  have nonnull : labelstm ≠ .null := Stmt.ne_null_of_mem_nodes place.inChild
  have disjoint := disjoint_of_split (wf.distinct.subtree place.parentMem) place.parentSplit
  have self := Stmt.self_mem_nodes nonnull
  have childNode : ∀ c ∈ place.parent.children, c ≠ .null → c ∈ Body.nodes :=
    fun c cMem cNonnull => Stmt.nodes_trans
      (Stmt.descendants_subset_nodes (Stmt.child_mem_descendants cMem cNonnull)) place.parentMem
  have labelNode : labelstm ∈ Body.nodes :=
    childNode labelstm (by simp [place.parentSplit]) nonnull
  -- Neither the children before the label nor those behind it are the label.
  have notSame : ∀ c ∈ place.parent.children, c ≠ labelstm → c.same labelstm = false := by
    intro c cMem different
    cases c with
    | null => cases labelstm with
      | null => exact absurd rfl nonnull
      | node => rfl
    | node info cls children =>
        rw [← Bool.not_eq_true, wf.distinct.same_iff_eq (childNode _ cMem (by simp)) labelNode]
        exact different
  have frontAbsent : ∀ c ∈ place.front, c.same labelstm = false := by
    intro c cMem
    apply notSame c (by simp [place.parentSplit, cMem])
    rintro rfl
    exact disjoint.1 (Stmt.mem_nodesOf.mpr ⟨c, cMem, self⟩) self
  have backAbsent : ∀ c ∈ place.back, c.same labelstm = false := by
    intro c cMem
    apply notSame c (by simp [place.parentSplit, cMem])
    rintro rfl
    exact disjoint.2 self (Stmt.mem_nodesOf.mpr ⟨c, cMem, self⟩)
  have backLabelled : ∀ c ∈ place.back, LabelsHaveStmts c := by
    intro c cMem n nMem
    have cNonnull : c ≠ .null := by
      rintro rfl
      simp at nMem
    exact wf.labelled n (Stmt.nodes_trans nMem
      (childNode c (by simp [place.parentSplit, cMem]) cNonnull))
  have labelLabelled : LabelsHaveStmts labelstm := fun n nMem =>
    wf.labelled n (Stmt.nodes_trans nMem labelNode)
  have skipFront : ∀ (front back : List Stmt), (∀ c ∈ front, c.same labelstm = false) →
      scanLabelParent labelstm false (front ++ back) = scanLabelParent labelstm false back := by
    intro front back absent
    induction front with
    | nil => rfl
    | cons c rest ih =>
        have here := absent c List.mem_cons_self
        simpa [scanLabelParent, here] using
          ih fun other otherMem => absent other (List.mem_cons_of_mem _ otherMem)
  have sameSelf : labelstm.same labelstm = true :=
    (wf.distinct.same_iff_eq labelNode labelNode).mpr rfl
  have notNull := Stmt.isNull_eq_false nonnull
  rw [place.parentSplit, skipFront _ _ frontAbsent]
  simp [scanLabelParent, sameSelf, notNull, isReturn_of_label isLabel,
    pushedStmts_eq nonnull labelLabelled, scanLabelParent_started backAbsent backLabelled]

/-- Labels under a direct child of the block: the parent is the block. -/
theorem LabelPlace.back_eq_rest (wf : WellFormedBody Body) (place : LabelPlace Body labelstm)
    (direct : place.child = labelstm) : place.back = place.rest := by
  have nonnull : labelstm ≠ .null := Stmt.ne_null_of_mem_nodes place.inChild
  have self := Stmt.self_mem_nodes nonnull
  have inBlock : place.block.children = place.before ++ labelstm :: place.rest := by
    rw [place.blockSplit, direct]
  have sameParent : place.parent = place.block :=
    wf.distinct.parent_unique place.parentMem place.blockMem nonnull
      (by simp [place.parentSplit]) (by simp [inBlock])
  have disjoint := disjoint_of_split (wf.distinct.subtree place.blockMem) inBlock
  have notBefore : labelstm ∉ place.before := fun member =>
    disjoint.1 (Stmt.mem_nodesOf.mpr ⟨_, member, self⟩) self
  have notRest : labelstm ∉ place.rest := fun member =>
    disjoint.2 self (Stmt.mem_nodesOf.mpr ⟨_, member, self⟩)
  have splits : place.front ++ labelstm :: place.back = place.before ++ labelstm :: place.rest := by
    rw [← place.parentSplit, sameParent, inBlock]
  exact ((List.append_cons_inj_of_notMem notBefore notRest).mp splits.symm).2.2.symm

theorem LabelPlace.child_ne_null (place : LabelPlace Body labelstm) : place.child ≠ .null := by
  intro isNull
  have inside := place.inChild
  rw [isNull] at inside
  simp at inside

/-- A label below a child of its block: its siblings lie in that child. -/
theorem LabelPlace.back_inside (wf : WellFormedBody Body) (place : LabelPlace Body labelstm)
    (below : place.child ≠ labelstm) {s : Stmt} (member : s ∈ place.back) (nonnull : s ≠ .null) :
    s ∈ place.child.nodes := by
  have labelNonnull : labelstm ≠ .null := Stmt.ne_null_of_mem_nodes place.inChild
  have childMem : place.child ∈ Body.nodes :=
    Stmt.nodes_trans (Stmt.descendants_subset_nodes
      (Stmt.child_mem_descendants (by simp [place.blockSplit]) place.child_ne_null)) place.blockMem
  have strictly : labelstm ∈ place.child.descendants := by
    rcases Stmt.mem_nodes_iff.mp place.inChild with ⟨equal, _⟩ | inside
    · exact absurd equal.symm below
    · exact inside
  have parentInside : place.parent ∈ place.child.nodes :=
    (wf.distinct.mem_descendants_iff_parent place.parentMem (by simp [place.parentSplit])
      labelNonnull childMem).mp strictly
  exact Stmt.nodes_trans (Stmt.descendants_subset_nodes
    (Stmt.child_mem_descendants (by simp [place.parentSplit, member]) nonnull)) parentInside

/-- A statement behind the label in its parent is no statement behind the child
of the block. -/
theorem LabelPlace.stripLabels_apart (wf : WellFormedBody Body) (place : LabelPlace Body labelstm)
    (below : place.child ≠ labelstm) {s r : Stmt} (sMem : s ∈ nonNulls place.back)
    (rMem : r ∈ nonNulls place.rest) : stripLabels s ≠ stripLabels r := by
  intro equal
  obtain ⟨sBack, sNonnull⟩ := mem_nonNulls.mp sMem
  obtain ⟨rRest, rNonnull⟩ := mem_nonNulls.mp rMem
  have inBody : ∀ c ∈ place.block.children, c ≠ .null → c ∈ Body.nodes := fun c cMem cNonnull =>
    Stmt.nodes_trans (Stmt.descendants_subset_nodes (Stmt.child_mem_descendants cMem cNonnull))
      place.blockMem
  have labelled : ∀ t ∈ Body.nodes, LabelsHaveStmts t := fun t tMem n nMem =>
    wf.labelled n (Stmt.nodes_trans nMem tMem)
  have childMem := inBody place.child (by simp [place.blockSplit]) place.child_ne_null
  have restMem := inBody r (by simp [place.blockSplit, rRest]) rNonnull
  have sInside := place.back_inside wf below sBack sNonnull
  have sStrip := (stripLabels_mem sNonnull (labelled s (Stmt.nodes_trans sInside childMem))).1
  have rStrip := (stripLabels_mem rNonnull (labelled r restMem)).1
  have disjoint := disjoint_of_split (wf.distinct.subtree place.blockMem) place.blockSplit
  rw [← equal] at rStrip
  exact disjoint.2 (Stmt.nodes_trans sStrip sInside) (Stmt.mem_nodesOf.mpr ⟨r, rRest, rStrip⟩)

/-- What the loop takes behind a label is what straight-line flow takes exactly
when the label is resolvable. -/
theorem scanLabelParent_eq_straightLine_iff (wf : WellFormedBody Body)
    (isLabel : labelstm.isLabel = true) (place : LabelPlace Body labelstm) :
    (∀ taken, StraightLine (labelstm :: nonNulls place.rest) taken →
        scanLabelParent labelstm false place.parent.children = taken) ↔ place.Resolvable := by
  rw [scanLabelParent_eq wf isLabel place]
  have plainLabel : labelstm.isReturn = false := isReturn_of_label isLabel
  by_cases direct : place.child = labelstm
  · rw [place.back_eq_rest wf direct]
    have unfolded : stripLabels labelstm ::
        (uptoPlainReturn (nonNulls place.rest)).map stripLabels =
        (uptoPlainReturn (labelstm :: nonNulls place.rest)).map stripLabels := by
      simp [uptoPlainReturn, plainLabel]
    rw [unfolded, map_uptoPlainReturn_eq_iff]
    simp [LabelPlace.Resolvable, direct]
  · have resolvable : place.Resolvable ↔ nonNulls place.back = [] ∧
        (mustLeave labelstm = true ∨ nonNulls place.rest = []) := by
      simp [LabelPlace.Resolvable, direct]
    rw [resolvable]
    constructor
    · intro all
      cases must : mustLeave labelstm with
      | true =>
          have equal := all _ (.leaves (mayLeave_of_mustLeave must))
          simpa [uptoPlainReturn_eq_nil_iff] using equal
      | false =>
          obtain ⟨behind, line⟩ := exists_straightLine (nonNulls place.rest)
          have equal := (List.cons.inj (all _ (.passes must line))).2
          -- A statement behind the label in its parent is no statement behind
          -- the block's child.
          have backEmpty : nonNulls place.back = [] := by
            by_contra nonempty
            obtain ⟨s, others, backEq⟩ := List.exists_cons_of_ne_nil nonempty
            have taken : stripLabels s ∈ behind := by
              rw [← equal, backEq]
              exact List.mem_map_of_mem (head_mem_uptoPlainReturn s others)
            obtain ⟨r, rMem, stripped⟩ := List.mem_map.mp (line.subset taken)
            exact place.stripLabels_apart wf direct (by simp [backEq]) rMem stripped.symm
          rw [backEmpty] at equal
          exact ⟨backEmpty, Or.inr (line.eq_nil_iff.mp equal.symm)⟩
    · rintro ⟨backEmpty, ends⟩ taken line
      simp only [backEmpty, uptoPlainReturn, List.map_nil]
      cases line with
      | leaves => rfl
      | passes passing behind =>
          rcases ends with must | restEmpty
          · rw [must] at passing
            cases passing
          · rw [restEmpty] at behind
            cases behind
            rfl

/-- Below a tree, a node has a nearest block around it, or no block at all. -/
theorem exists_nearest_block {s n : Stmt} (distinct : s.Distinct) (below : n ∈ s.descendants) :
    (∃ block ∈ s.nodes, block.isCompound = true ∧ ∃ child ∈ block.children, n ∈ child.nodes ∧
      ∀ m ∈ child.nodes, m.isCompound = true → n ∉ m.descendants) ∨
      ∀ m ∈ s.nodes, m.isCompound = true → n ∉ m.descendants := by
  induction s using Stmt.tree_induction with
  | null => simp [Stmt.descendants, Stmt.children] at below
  | node info cls children ih =>
      obtain ⟨child, childMem, inChild⟩ := Stmt.mem_descendants_iff.mp below
      have childDistinct := distinct.child childMem
      have inner : (∃ block ∈ child.nodes, block.isCompound = true ∧ ∃ c ∈ block.children,
          n ∈ c.nodes ∧ ∀ m ∈ c.nodes, m.isCompound = true → n ∉ m.descendants) ∨
          ∀ m ∈ child.nodes, m.isCompound = true → n ∉ m.descendants := by
        rcases Stmt.mem_nodes_iff.mp inChild with ⟨rfl, _⟩ | strictly
        · refine Or.inr ?_
          intro m mMem _ nBelow
          exact Stmt.not_mem_nodes_of_mem_descendants nBelow mMem
        · exact ih child childMem childDistinct strictly
      rcases inner with ⟨block, blockMem, isBlock, found⟩ | noneInside
      · exact Or.inl ⟨block, Stmt.descendants_subset_nodes
          (Stmt.mem_descendants_iff.mpr ⟨child, childMem, blockMem⟩), isBlock, found⟩
      · by_cases isBlock : (Stmt.node info cls children).isCompound = true
        · exact Or.inl ⟨_, Stmt.self_mem_nodes (by simp), isBlock, child, childMem, inChild,
            noneInside⟩
        · refine Or.inr ?_
          intro m mMem mBlock nBelow
          rcases Stmt.mem_nodes_iff.mp mMem with ⟨rfl, _⟩ | mBelow
          · exact isBlock mBlock
          · obtain ⟨other, otherMem, inOther⟩ := Stmt.mem_descendants_iff.mp mBelow
            have sameChild := distinct.child_unique childMem otherMem inChild
              (Stmt.nodes_trans (Stmt.descendants_subset_nodes nBelow) inOther)
            rw [← sameChild] at inOther
            exact noneInside m inOther mBlock nBelow

/-- Every label of a well-formed body has a place. -/
theorem nonempty_labelPlace (wf : WellFormedBody Body) (labelMem : labelstm ∈ Body.nodes)
    (isLabel : labelstm.isLabel = true) : Nonempty (LabelPlace Body labelstm) := by
  have below : labelstm ∈ Body.descendants := by
    rcases Stmt.mem_nodes_iff.mp labelMem with ⟨rfl, _⟩ | below
    · have compound := wf.compound
      rw [isCompound_of_label isLabel] at compound
      exact absurd compound Bool.false_ne_true
    · exact below
  obtain ⟨parent, parentMem, isChild⟩ := Stmt.exists_parent below
  obtain ⟨front, back, parentSplit⟩ := List.append_of_mem isChild
  rcases exists_nearest_block wf.distinct below with
    ⟨block, blockMem, isBlock, child, childMem, inChild, nearest⟩ | noBlock
  · obtain ⟨before, rest, blockSplit⟩ := List.append_of_mem childMem
    exact ⟨⟨parent, front, back, parentMem, parentSplit, block, before, child, rest, blockMem,
      isBlock, blockSplit, inChild, nearest⟩⟩
  · have bodyMem : Body ∈ Body.nodes := Stmt.self_mem_nodes (by
      rintro rfl
      exact absurd wf.compound Bool.false_ne_true)
    exact absurd below (noBlock Body bodyMem wf.compound)

end Resolution

/-! ## Resolving the heads -/

/-- The block leaves through exactly one `goto`, to the given label. -/
def LeavesBy (head : EHCHead) (label : String) : Prop :=
  (head.type = .goto ∨ head.type = .gotoMaybe) ∧
    head.headStmt.children.filterMap gotoLabel = [label]

/-- The EHC lists the statements of its block other than the `goto`, and then
those of the straight-line flow from the label, whichever way it goes. -/
def CollectsGoto (ehc : EHC) {Body labelstm : Stmt} (place : LabelPlace Body labelstm) : Prop :=
  ∀ taken, StraightLine (labelstm :: nonNulls place.rest) taken →
    ehc.ehcStmts = nonGotos ehc.head.headStmt.children ++ taken

variable {Body : Stmt}

theorem labelStmtOf_spec {label : String} (found : labelStmtOf Body label ≠ .null) :
    labelStmtOf Body label ∈ Body.nodes ∧ (labelStmtOf Body label).isLabel = true := by
  cases search : Body.nodes.find? (isLabelStmtOf label) with
  | none => simp [labelStmtOf, search] at found
  | some labelstm =>
      simp only [labelStmtOf, search, Option.getD_some]
      exact ⟨List.mem_of_find?_eq_some search,
        isLabel_of_isLabelStmtOf (List.find?_some search)⟩

/-- An EHC that is found belongs to a head, and every head of a `goto` block
gets one. -/
theorem ehcOfHead_of_mem {heads : List EHCHead} {ehcs : List EHC}
    (resolved : findEhcStmts Body heads = some ehcs) :
    (∀ head ∈ heads, ∃ own, ehcOfHead Body head = some own ∧ own ⊆ ehcs) ∧
      ∀ ehc ∈ ehcs, ∃ head ∈ heads, ∃ own, ehcOfHead Body head = some own ∧ ehc ∈ own := by
  induction heads generalizing ehcs with
  | nil =>
      cases resolved
      simp
  | cons head rest ih =>
      simp only [findEhcStmts] at resolved
      split at resolved
      · rename_i own others ownEq othersEq
        cases resolved
        have inRest := ih othersEq
        constructor
        · intro h hMem
          rcases List.mem_cons.mp hMem with rfl | hRest
          · exact ⟨own, ownEq, List.subset_append_left own others⟩
          · obtain ⟨found, foundEq, sub⟩ := inRest.1 h hRest
            exact ⟨found, foundEq, List.Subset.trans sub (List.subset_append_right own others)⟩
        · intro ehc ehcMem
          rcases List.mem_append.mp ehcMem with inOwn | inOthers
          · exact ⟨head, List.mem_cons_self, own, ownEq, inOwn⟩
          · obtain ⟨h, hMem, found⟩ := inRest.2 ehc inOthers
            exact ⟨h, List.mem_cons_of_mem _ hMem, found⟩
      · exact absurd resolved (by simp)

theorem ehcOfHead_head {head : EHCHead} {own : List EHC} (ownEq : ehcOfHead Body head = some own)
    {ehc : EHC} (member : ehc ∈ own) : ehc.head = head := by
  simp only [ehcOfHead] at ownEq
  split at ownEq
  · split at ownEq
    · cases ownEq
      simp at member
    · split at ownEq
      · exact absurd ownEq (by simp)
      · split at ownEq
        · exact absurd ownEq (by simp)
        · cases ownEq
          rw [List.mem_singleton.mp member]
  · split at ownEq
    · cases ownEq
      rw [List.mem_singleton.mp member]
    · split at ownEq
      · cases ownEq
        rw [List.mem_singleton.mp member]
      · cases ownEq
        rw [List.mem_singleton.mp member]

/-- The EHC of a block that leaves through one `goto`. -/
theorem ehcOfHead_of_leavesBy {head : EHCHead} {label : String} {own : List EHC}
    (leaves : LeavesBy head label) (ownEq : ehcOfHead Body head = some own) :
    findParentRecursive (labelStmtOf Body label) Body ≠ .null ∧
      own = [{
        head := head
        ehcStmts := nonGotos head.headStmt.children ++
          scanLabelParent (labelStmtOf Body label) false
            (findParentRecursive (labelStmtOf Body label) Body).children }] := by
  obtain ⟨type, only⟩ := leaves
  have isGotoType : (head.type == .goto || head.type == .gotoMaybe) = true := by
    rcases type with first | second
    · simp [first]
    · simp [second]
  have present : head.headStmt.isNull = false := by
    cases headStmt : head.headStmt with
    | null => simp [headStmt, Stmt.children] at only
    | node => rfl
  simp only [ehcOfHead, isGotoType, if_true, present, Bool.false_eq_true, if_false, scanHead_eq,
    only, List.getLast?_singleton, Option.some_or] at ownEq
  split at ownEq
  · exact absurd ownEq (by simp)
  · rename_i found
    cases ownEq
    refine ⟨?_, rfl⟩
    intro isNull
    rw [isNull] at found
    exact found rfl

/-- Goto resolution collects the code the `goto` runs exactly for resolvable
labels. -/
theorem collectsGoto_iff_of (wf : WellFormedBody Body) {heads : List EHCHead} {ehcs : List EHC}
    (resolved : findEhcStmts Body heads = some ehcs) {label : String} {ehc : EHC}
    (ehcMem : ehc ∈ ehcs) (leaves : LeavesBy ehc.head label) :
    Nonempty (LabelPlace Body (labelStmtOf Body label)) ∧
      ∀ place : LabelPlace Body (labelStmtOf Body label),
        CollectsGoto ehc place ↔ place.Resolvable := by
  obtain ⟨head, _, own, ownEq, inOwn⟩ := (ehcOfHead_of_mem resolved).2 ehc ehcMem
  have headEq := ehcOfHead_head ownEq inOwn
  rw [headEq] at leaves
  obtain ⟨parentNonnull, ownIs⟩ := ehcOfHead_of_leavesBy leaves ownEq
  rw [ownIs, List.mem_singleton] at inOwn
  have labelNonnull : labelStmtOf Body label ≠ .null := by
    intro isNull
    rw [isNull] at parentNonnull
    exact parentNonnull (findParentRecursive_null Body)
  obtain ⟨labelMem, isLabel⟩ := labelStmtOf_spec labelNonnull
  refine ⟨nonempty_labelPlace wf labelMem isLabel, ?_⟩
  intro place
  have parentEq : findParentRecursive (labelStmtOf Body label) Body = place.parent :=
    findParentRecursive_eq wf.distinct place.parentMem (by simp [place.parentSplit]) labelNonnull
  rw [← scanLabelParent_eq_straightLine_iff wf isLabel place, CollectsGoto, inOwn, parentEq]
  simp only [List.append_right_inj]

/-- A block that leaves through a `goto` has one among its children, to a label
of the body. -/
def GotoDefined (Body : Stmt) (head : EHCHead) : Prop :=
  (head.type = .goto ∨ head.type = .gotoMaybe) → head.headStmt ≠ .null →
    ∃ label, (head.headStmt.children.filterMap gotoLabel).getLast? = some label ∧
      labelStmtOf Body label ≠ .null

theorem ehcOfHead_isSome (wf : WellFormedBody Body) {head : EHCHead}
    (defined : GotoDefined Body head) : ∃ own, ehcOfHead Body head = some own := by
  by_cases isGotoType : head.type = .goto ∨ head.type = .gotoMaybe
  · have typeTest : (head.type == .goto || head.type == .gotoMaybe) = true := by
      simpa using isGotoType
    cases headStmt : head.headStmt with
    | null => exact ⟨[], by simp [ehcOfHead, typeTest, headStmt, Stmt.isNull]⟩
    | node info cls children =>
        obtain ⟨label, last, found⟩ := defined isGotoType (by simp [headStmt])
        obtain ⟨labelMem, isLabel⟩ := labelStmtOf_spec found
        have place := (nonempty_labelPlace wf labelMem isLabel).some
        have parentEq : findParentRecursive (labelStmtOf Body label) Body = place.parent :=
          findParentRecursive_eq wf.distinct place.parentMem (by simp [place.parentSplit]) found
        have parentPresent : place.parent.isNull = false :=
          Stmt.isNull_eq_false (Stmt.ne_null_of_mem_nodes place.parentMem)
        have present : head.headStmt.isNull = false := by
          rw [headStmt]
          rfl
        simp [ehcOfHead, typeTest, present, scanHead_eq, last, parentEq, parentPresent]
  · have typeTest : (head.type == .goto || head.type == .gotoMaybe) = false := by
      simpa using isGotoType
    simp only [ehcOfHead, typeTest, Bool.false_eq_true, if_false]
    split
    · exact ⟨_, rfl⟩
    · split <;> exact ⟨_, rfl⟩

theorem findEhcStmts_isSome (wf : WellFormedBody Body) {heads : List EHCHead}
    (defined : ∀ head ∈ heads, GotoDefined Body head) :
    ∃ ehcs, findEhcStmts Body heads = some ehcs := by
  induction heads with
  | nil => exact ⟨[], rfl⟩
  | cons head rest ih =>
      obtain ⟨own, ownEq⟩ := ehcOfHead_isSome wf (defined head List.mem_cons_self)
      obtain ⟨others, othersEq⟩ := ih fun h hMem => defined h (List.mem_cons_of_mem _ hMem)
      exact ⟨own ++ others, by simp [findEhcStmts, ownEq, othersEq]⟩

/-- `{ if (x) { goto label; } out: return; err: kfree(a); return; }` -/
def twoExits (label : String) : Stmt :=
  Build.block 0 0 1 200 9
    [Build.ifOf 1 10 (Build.nameRef 2 14 2 "x")
        (Build.block 3 17 2 40 4 [Build.gotoOf 4 25 3 label]),
      Build.labelOf 5 45 "out" (Build.returnOf 6 50 5),
      Build.labelOf 7 60 "err" (Build.callOf 8 65 6 "kfree" "a"),
      Build.returnOf 11 80 7]

/-- Its GOTO block. -/
def gotoHead (label : String) : EHCHead where
  type := .goto
  headStmt := Build.block 3 17 2 40 4 [Build.gotoOf 4 25 3 label]

theorem wellFormed_twoExits (label : String) : WellFormedBody (twoExits label) where
  distinct := by simp [Stmt.Distinct, twoExits, Build.block, Build.ifOf, Build.nameRef,
    Build.gotoOf, Build.labelOf, Build.returnOf, Build.callOf, Stmt.info]
  compound := rfl
  labelled := by
    simp [LabelsHaveStmts, twoExits, Build.block, Build.ifOf, Build.nameRef,
      Build.gotoOf, Build.labelOf, Build.returnOf, Build.callOf, Stmt.isLabel, Stmt.isa,
      Stmt.children]

theorem leavesBy_gotoHead (label : String) : LeavesBy (gotoHead label) label :=
  ⟨Or.inl rfl, rfl⟩

theorem labelStmtOf_twoExits (label : String) :
    labelStmtOf (twoExits label) "out" = Build.labelOf 5 45 "out" (Build.returnOf 6 50 5) ∧
      labelStmtOf (twoExits label) "err" =
        Build.labelOf 7 60 "err" (Build.callOf 8 65 6 "kfree" "a") :=
  ⟨rfl, rfl⟩

theorem gotoDefined_twoExits (label : String) (declared : label = "out" ∨ label = "err") :
    ∀ head ∈ [gotoHead label], GotoDefined (twoExits label) head := by
  intro head headMem _ _
  rw [List.mem_singleton.mp headMem]
  refine ⟨label, rfl, ?_⟩
  rcases declared with rfl | rfl
  · rw [(labelStmtOf_twoExits "out").1]
    simp [Build.labelOf]
  · rw [(labelStmtOf_twoExits "err").2]
    simp [Build.labelOf]

/-- The place of the label `out`: the second child of the body. -/
def placeOfOut : LabelPlace (twoExits "out") (labelStmtOf (twoExits "out") "out") where
  parent := twoExits "out"
  front := [_]
  back := _
  parentMem := Stmt.self_mem_nodes (by simp [twoExits, Build.block])
  parentSplit := rfl
  block := twoExits "out"
  before := [_]
  child := labelStmtOf (twoExits "out") "out"
  rest := [Build.labelOf 7 60 "err" (Build.callOf 8 65 6 "kfree" "a"), Build.returnOf 11 80 7]
  blockMem := Stmt.self_mem_nodes (by simp [twoExits, Build.block])
  isBlock := rfl
  blockSplit := rfl
  inChild := Stmt.self_mem_nodes (by simp [labelStmtOf_twoExits, Build.labelOf])
  nearest := by
    simp [labelStmtOf_twoExits, Build.labelOf, Build.returnOf, Stmt.isCompound, Stmt.isa]

end Hecaton.Pass2
