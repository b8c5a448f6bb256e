import Hecaton.DatabasePlugin.Heads
import Hecaton.Pass2.GotoHeads

/-!
# Blocks in the database plugin

The plugin has a `find_ehc_stmts` of its own.  It looks for the label of a `goto` only among
the statements of the body, takes only the first of stacked labels away, and lists the children
of every other block, whatever it is.  `delete_printks` then takes out what only reports.
-/

namespace Hecaton.DatabasePlugin

open Hecaton.Clang Hecaton.Library

/-! ## The statements of a block -/

/-- What is pushed for a statement of the body: of a labelled one, what stands behind the label. -/
def behindLabel (currStmt : Stmt) : Stmt :=
  if currStmt.isLabel then currStmt.child 0 else currStmt

/-- The loop over the children of the body, with `start`. -/
def scanBody (labelstm : Stmt) (start : Bool) : List Stmt → List Stmt
  | [] => []
  | currStmt :: rest =>
      let start := start || currStmt.same labelstm
      if currStmt.isNull then scanBody labelstm start rest
      else
        let pushed := if start then [behindLabel currStmt] else []
        let start := if currStmt.isReturn then false else start
        pushed ++ scanBody labelstm start rest

/-- The round of `find_ehc_stmts` for one head; `none` where the source reads an uninitialised
label, since no child of the block is a `goto`. -/
def ehcOfHead (Body : Stmt) (head : EHCHead) : Option EHC :=
  if head.type = .goto then
    let (labelstm, stmts) := Pass2.scanHead none head.headStmt.children
    labelstm.map fun label =>
      { head := head
        ehcStmts := stmts ++ scanBody (Pass2.labelStmtOf Body label) false Body.children }
  else some { head := head, ehcStmts := head.headStmt.children }

/-- `find_ehc_stmts`. -/
def findEhcStmts (Body : Stmt) : List EHCHead → Option (List EHC)
  | [] => some []
  | head :: rest =>
      (ehcOfHead Body head).bind fun ehc => (findEhcStmts Body rest).map fun ehcs => ehc :: ehcs

/-- The test of `delete_printks`. -/
def isReport (currStmt : Stmt) : Bool :=
  currStmt.directCallee == some "printk" || Pass2.contains currStmt.info.printed "pr_debug" ||
    Pass2.contains currStmt.info.printed "break" || Pass2.contains currStmt.info.printed "rc ="

/-- `delete_printks` for one EHC.  Null statements stay. -/
def deletePrintksEhc (ehc : EHC) : EHC :=
  { ehc with
    ehcStmts := ehc.ehcStmts.filter fun currStmt => currStmt.isNull || !isReport currStmt }

/-- `delete_printks`. -/
def deletePrintks (f : Function) : Function := { f with EHCs := f.EHCs.map deletePrintksEhc }

theorem findEhcStmts_eq_some_iff {Body : Stmt} {heads : List EHCHead} {ehcs : List EHC} :
    findEhcStmts Body heads = some ehcs ↔
      List.Forall₂ (fun head ehc => ehcOfHead Body head = some ehc) heads ehcs := by
  induction heads generalizing ehcs with
  | nil => simp [findEhcStmts, eq_comm]
  | cons head rest ih =>
      rw [findEhcStmts, Option.bind_eq_some_iff]
      constructor
      · rintro ⟨ehc, found, restFound⟩
        obtain ⟨others, othersFound, rfl⟩ := Option.map_eq_some_iff.mp restFound
        exact .cons found (ih.mp othersFound)
      · intro found
        cases found with
        | cons here later =>
            exact ⟨_, here, Option.map_eq_some_iff.mpr ⟨_, ih.mpr later, rfl⟩⟩

theorem head_of_ehcOfHead {Body : Stmt} {head : EHCHead} {ehc : EHC}
    (found : ehcOfHead Body head = some ehc) : ehc.head = head := by
  rw [ehcOfHead] at found
  split at found
  · obtain ⟨label, _, rfl⟩ := Option.map_eq_some_iff.mp found
    rfl
  · cases found
    rfl

/-! ## The two scans for a label -/

section Scans

/-- The children from the label on that the loops over the label's siblings come to. -/
def fromLabel (labelstm : Stmt) (start : Bool) : List Stmt → List Stmt
  | [] => []
  | currStmt :: rest =>
      let start := start || currStmt.same labelstm
      if currStmt.isNull then fromLabel labelstm start rest
      else (if start then [currStmt] else []) ++
        fromLabel labelstm (if currStmt.isReturn then false else start) rest

theorem scanBody_eq_map (labelstm : Stmt) (start : Bool) (children : List Stmt) :
    scanBody labelstm start children = (fromLabel labelstm start children).map behindLabel := by
  induction children generalizing start with
  | nil => rfl
  | cons currStmt rest ih =>
      rw [scanBody, fromLabel]
      dsimp only
      split
      · exact ih _
      · rw [ih, List.map_append]
        congr 1
        split <;> rfl

theorem scanLabelParent_eq_flatMap (labelstm : Stmt) (start : Bool) (children : List Stmt) :
    Pass2.scanLabelParent labelstm start children =
      (fromLabel labelstm start children).flatMap Pass2.pushedStmts := by
  induction children generalizing start with
  | nil => rfl
  | cons currStmt rest ih =>
      rw [Pass2.scanLabelParent, fromLabel]
      dsimp only
      split
      · exact ih _
      · rw [ih, List.flatMap_append]
        congr 1
        split
        · rw [List.flatMap_singleton]
        · rfl

variable {labelstm : Stmt}

/-- The loop skips what stands in front of the label. -/
theorem fromLabel_append {front back : List Stmt}
    (absent : ∀ child ∈ front, child.same labelstm = false) :
    fromLabel labelstm false (front ++ back) = fromLabel labelstm false back := by
  induction front with
  | nil => rfl
  | cons currStmt rest ih =>
      have here := absent currStmt List.mem_cons_self
      have inRest := ih fun child childMem => absent child (List.mem_cons_of_mem _ childMem)
      simp [fromLabel, here, inRest]

theorem fromLabel_of_absent {children : List Stmt}
    (absent : ∀ child ∈ children, child.same labelstm = false) :
    fromLabel labelstm false children = [] := by
  have skipped := @fromLabel_append labelstm children [] absent
  rw [List.append_nil] at skipped
  exact skipped

theorem mem_children_of_mem_fromLabel {start : Bool} {children : List Stmt} {stmt : Stmt}
    (member : stmt ∈ fromLabel labelstm start children) : stmt ∈ children ∧ stmt ≠ .null := by
  induction children generalizing start with
  | nil => exact absurd member List.not_mem_nil
  | cons currStmt rest ih =>
      rw [fromLabel] at member
      split at member
      · exact (ih member).imp_left (List.mem_cons_of_mem _)
      · rename_i nonnull
        rcases List.mem_append.mp member with here | later
        · split at here
          · rw [List.mem_singleton.mp here]
            refine ⟨List.mem_cons_self, ?_⟩
            rintro rfl
            exact nonnull rfl
          · exact absurd here List.not_mem_nil
        · exact (ih later).imp_left (List.mem_cons_of_mem _)

/-- Once started, the loop comes to the children up to the first plain `return`. -/
theorem fromLabel_started {children : List Stmt}
    (absent : ∀ child ∈ children, child.same labelstm = false) :
    fromLabel labelstm true children = Pass2.uptoPlainReturn (Pass2.nonNulls children) := by
  induction children with
  | nil => rfl
  | cons currStmt rest ih =>
      have absentRest : ∀ child ∈ rest, child.same labelstm = false :=
        fun child childMem => absent child (List.mem_cons_of_mem _ childMem)
      have inRest := ih absentRest
      cases currStmt with
      | null => simpa [fromLabel, Stmt.isNull, Pass2.nonNulls] using inRest
      | node info cls sub =>
          cases isReturn : (Stmt.node info cls sub).isReturn with
          | true =>
              simp [fromLabel, Stmt.isNull, Pass2.nonNulls, Pass2.uptoPlainReturn, isReturn,
                fromLabel_of_absent absentRest]
          | false =>
              simpa [fromLabel, Stmt.isNull, Pass2.nonNulls, Pass2.uptoPlainReturn, isReturn]
                using inRest

variable {Body parent : Stmt}

/-- The loops take no other statement of the body for the label. -/
theorem same_eq_false_of_ne {stmt : Stmt} (distinct : Body.Distinct)
    (labelMem : labelstm ∈ Body.nodes) (stmtMem : stmt ≠ .null → stmt ∈ Body.nodes)
    (different : stmt ≠ labelstm) : stmt.same labelstm = false := by
  cases stmt with
  | null =>
      cases labelstm with
      | null => exact absurd rfl different
      | node => rfl
  | node info cls children =>
      rw [← Bool.not_eq_true, distinct.same_iff_eq (stmtMem (by simp)) labelMem]
      exact different

/-- Among the children around the label, it is the only one that the loop takes for it. -/
theorem fromLabel_of_split (distinct : Body.Distinct) (parentMem : parent ∈ Body.nodes)
    {front back : List Stmt} (split : parent.children = front ++ labelstm :: back)
    (isLabel : labelstm.isLabel = true) :
    fromLabel labelstm false parent.children =
      Pass2.uptoPlainReturn (labelstm :: Pass2.nonNulls back) := by
  have nonnull : labelstm ≠ .null := by
    rintro rfl
    cases isLabel
  have disjoint := Pass2.disjoint_of_split (distinct.subtree parentMem) split
  have self := Stmt.self_mem_nodes nonnull
  have childNode : ∀ c ∈ parent.children, c ≠ .null → c ∈ Body.nodes := fun c cMem cNonnull =>
    Stmt.descendants_subset_nodes (Stmt.mem_descendants_of_child parentMem cMem cNonnull)
  have labelNode : labelstm ∈ Body.nodes := childNode labelstm (by simp [split]) nonnull
  have notSame : ∀ c ∈ parent.children, c ≠ labelstm → c.same labelstm = false :=
    fun c cMem => same_eq_false_of_ne distinct labelNode (childNode c cMem)
  have frontAbsent : ∀ c ∈ front, c.same labelstm = false := by
    intro c cMem
    apply notSame c (by simp [split, cMem])
    rintro rfl
    exact disjoint.1 (Stmt.mem_nodesOf.mpr ⟨c, cMem, self⟩) self
  have backAbsent : ∀ c ∈ back, c.same labelstm = false := by
    intro c cMem
    apply notSame c (by simp [split, cMem])
    rintro rfl
    exact disjoint.2 self (Stmt.mem_nodesOf.mpr ⟨c, cMem, self⟩)
  have started : Pass2.uptoPlainReturn (labelstm :: Pass2.nonNulls back) =
      labelstm :: Pass2.uptoPlainReturn (Pass2.nonNulls back) := by
    rw [Pass2.uptoPlainReturn, if_neg (by simp [Pass2.isReturn_of_label isLabel])]
  rw [split, fromLabel_append frontAbsent, started, ← fromLabel_started backAbsent]
  simp [fromLabel, Stmt.same_self, Stmt.isNull_eq_false nonnull, Pass2.isReturn_of_label isLabel]

end Scans

/-! ## Agreement with the second pass -/

/-- The label stands among the statements of the body, and none of those from it up to the
first plain `return` has stacked labels. -/
def LabelInBody (Body labelstm : Stmt) : Prop :=
  ∃ front back, Body.children = front ++ labelstm :: back ∧
    ∀ stmt ∈ Pass2.uptoPlainReturn (labelstm :: Pass2.nonNulls back),
      stmt.isLabel = true → (stmt.child 0).isLabel = false

/-- The block is one whose statements the plugin lists as the second pass does. -/
def ListedAlike (Body : Stmt) (head : EHCHead) : Prop :=
  if head.type = .goto then
    ∀ label, (Pass2.scanHead none head.headStmt.children).1 = some label →
      LabelInBody Body (Pass2.labelStmtOf Body label)
  else head.headStmt.isCompound = true

/-- Two heads of the same block, by the plugin and by the second pass. -/
structure SameBlock (head : EHCHead) (head2 : Pass2.EHCHead) : Prop where
  headStmt : head2.headStmt = head.headStmt
  isGoto : head.type = .goto ↔ Pass2.isGotoHead head2 = true
  nonnull : head.headStmt ≠ .null

section Agreement

variable {Body labelstm : Stmt}

/-- What stands behind one label is what stands behind all labels unless they are stacked. -/
theorem behindLabel_eq_stripLabels_iff {stmt : Stmt} (nonnull : stmt ≠ .null)
    (labelled : Pass2.LabelsHaveStmts stmt) :
    behindLabel stmt = Pass2.stripLabels stmt ↔
      (stmt.isLabel = true → (stmt.child 0).isLabel = false) := by
  cases isLabel : stmt.isLabel with
  | false => simp [behindLabel, isLabel, Pass2.stripLabels_of_not_label isLabel]
  | true =>
      rw [behindLabel, if_pos isLabel]
      obtain ⟨sub, only, subNonnull⟩ := labelled stmt (Stmt.self_mem_nodes nonnull) isLabel
      have isChild : stmt.child 0 = sub := by
        rw [Stmt.child, only]
        rfl
      have subLabelled : Pass2.LabelsHaveStmts sub := fun n nMem =>
        labelled n (Stmt.descendants_subset_nodes (Stmt.mem_descendants_iff.mpr
          ⟨sub, by simp [only], nMem⟩))
      have strips : Pass2.stripLabels stmt = Pass2.stripLabels sub := by
        cases stmt with
        | null => exact absurd rfl nonnull
        | node info cls children =>
            simp only [Stmt.children] at only
            subst only
            simp [Pass2.stripLabels, isLabel, Pass2.stripFirstChild]
      rw [isChild, strips]
      constructor
      · intro same _
        rw [same]
        exact (Pass2.stripLabels_mem subNonnull subLabelled).2
      · intro notLabel
        exact (Pass2.stripLabels_of_not_label (notLabel rfl)).symm

/-- Where the second pass finds the label's parent, both scans list the same exactly if the
label stands among the statements of the body without stacked labels from it on. -/
theorem scanBody_eq_scanLabelParent_iff (wf : Pass2.WellFormedBody Body)
    (isLabel : labelstm.isLabel = true) (below : labelstm ∈ Body.descendants) :
    scanBody labelstm false Body.children =
        Pass2.scanLabelParent labelstm false
          (Pass2.findParentRecursive labelstm Body).children ↔
      LabelInBody Body labelstm := by
  have nonnull : labelstm ≠ .null := Stmt.ne_null_of_mem_nodes (Stmt.descendants_subset_nodes below)
  obtain ⟨parentMem, c, cMem, same⟩ := Pass2.findParentRecursive_sound rfl
    (Pass2.findParentRecursive_ne_null below (Stmt.same_self labelstm))
  have labelNode := Stmt.descendants_subset_nodes below
  have cNonnull : c ≠ .null := by
    rintro rfl
    cases labelstm <;> simp_all [Stmt.same]
  have cNode := Stmt.descendants_subset_nodes
    (Stmt.mem_descendants_of_child parentMem cMem cNonnull)
  have isC : c = labelstm := (wf.distinct.same_iff_eq cNode labelNode).mp same
  subst isC
  obtain ⟨front, back, split⟩ := List.append_of_mem cMem
  have childLabelled : ∀ s ∈ Body.nodes, Pass2.LabelsHaveStmts s := fun s sMem n nMem =>
    wf.labelled n (Stmt.nodes_trans nMem sMem)
  have parentScan : Pass2.scanLabelParent c false (Pass2.findParentRecursive c Body).children =
      (fromLabel c false (Pass2.findParentRecursive c Body).children).map Pass2.stripLabels := by
    rw [scanLabelParent_eq_flatMap, List.map_eq_flatMap]
    apply List.flatMap_congr
    intro stmt stmtMem
    obtain ⟨isChild, stmtNonnull⟩ := mem_children_of_mem_fromLabel stmtMem
    exact Pass2.pushedStmts_eq stmtNonnull (childLabelled stmt
      (Stmt.descendants_subset_nodes (Stmt.mem_descendants_of_child parentMem isChild stmtNonnull)))
  rw [parentScan, scanBody_eq_map]
  by_cases direct : c ∈ Body.children
  · -- The body is the parent, so that both loops come to the same children.
    have bodyMem : Body ∈ Body.nodes := Stmt.self_mem_nodes (by
      rintro rfl
      exact absurd direct List.not_mem_nil)
    have isBody : Pass2.findParentRecursive c Body = Body :=
      Pass2.findParentRecursive_eq wf.distinct bodyMem direct nonnull
    rw [isBody] at split ⊢
    rw [List.map_inj_left]
    have reached : ∀ stmt ∈ fromLabel c false Body.children,
        (behindLabel stmt = Pass2.stripLabels stmt ↔
          (stmt.isLabel = true → (stmt.child 0).isLabel = false)) := by
      intro stmt stmtMem
      obtain ⟨isChild, stmtNonnull⟩ := mem_children_of_mem_fromLabel stmtMem
      exact behindLabel_eq_stripLabels_iff stmtNonnull (childLabelled stmt
        (Stmt.descendants_subset_nodes (Stmt.mem_descendants_of_child bodyMem isChild stmtNonnull)))
    constructor
    · intro agree
      refine ⟨front, back, split, ?_⟩
      rw [← fromLabel_of_split wf.distinct bodyMem split isLabel]
      exact fun stmt stmtMem => (reached stmt stmtMem).mp (agree stmt stmtMem)
    · rintro ⟨front, back, split, single⟩
      rw [fromLabel_of_split wf.distinct bodyMem split isLabel] at reached ⊢
      exact fun stmt stmtMem => (reached stmt stmtMem).mpr (single stmt stmtMem)
  · -- The plugin does not come to the label, but the second pass does.
    have absent : ∀ child ∈ Body.children, child.same c = false := by
      intro child childMem
      apply same_eq_false_of_ne wf.distinct cNode
      · exact fun present =>
          Stmt.descendants_subset_nodes (Stmt.child_mem_descendants childMem present)
      · rintro rfl
        exact direct childMem
    rw [fromLabel_of_absent absent, fromLabel_of_split wf.distinct parentMem split isLabel]
    have labelReached := Pass2.head_mem_uptoPlainReturn c (Pass2.nonNulls back)
    constructor
    · intro empty
      have none := List.map_eq_nil_iff.mp empty.symm
      rw [none] at labelReached
      exact absurd labelReached List.not_mem_nil
    · rintro ⟨front, back, inBody, _⟩
      exact absurd (by simp [inBody]) direct

/-- What the plugin lists for a block with a `goto` are statements. -/
theorem nonNulls_gotoStmts (wf : Pass2.WellFormedBody Body) (block : List Stmt) :
    Pass2.nonNulls ((Pass2.scanHead none block).2 ++ scanBody labelstm false Body.children) =
      (Pass2.scanHead none block).2 ++ scanBody labelstm false Body.children := by
  rw [Pass2.nonNulls, List.filter_eq_self]
  intro stmt stmtMem
  rw [Pass2.scanHead_eq] at stmtMem
  rcases List.mem_append.mp stmtMem with ofBlock | ofBody
  · exact (Bool.and_eq_true _ _ ▸ List.of_mem_filter ofBlock).1
  · rw [scanBody_eq_map] at ofBody
    obtain ⟨source, sourceMem, rfl⟩ := List.mem_map.mp ofBody
    obtain ⟨isChild, nonnull⟩ := mem_children_of_mem_fromLabel sourceMem
    rw [behindLabel]
    split
    · rename_i sourceLabel
      obtain ⟨sub, only, subNonnull⟩ := wf.labelled source
        (Stmt.descendants_subset_nodes (Stmt.child_mem_descendants isChild nonnull)) sourceLabel
      rw [Stmt.child, only]
      exact (Bool.not_eq_true' _).mpr (Stmt.isNull_eq_false subNonnull)
    · exact (Bool.not_eq_true' _).mpr (Stmt.isNull_eq_false nonnull)

/-- A statement is none of its own children. -/
theorem nonNulls_children_ne {stmt : Stmt} (nonnull : stmt ≠ .null) :
    Pass2.nonNulls stmt.children ≠ [stmt] := by
  intro equal
  have listed : stmt ∈ Pass2.nonNulls stmt.children := by
    rw [equal]
    exact List.mem_singleton_self _
  have isChild := (Pass2.mem_nonNulls.mp listed).1
  exact Stmt.not_mem_nodes_of_mem_descendants (Stmt.child_mem_descendants isChild nonnull)
    (Stmt.self_mem_nodes nonnull)

/-- For one block that both passes resolve: they list the same statements exactly if the block
is listed alike. -/
theorem ehcOfHead_agree_iff (wf : Pass2.WellFormedBody Body) {head : EHCHead}
    {head2 : Pass2.EHCHead} (same : SameBlock head head2) {ehc : EHC} {own : List Pass2.EHC}
    (found : ehcOfHead Body head = some ehc) (found2 : Pass2.ehcOfHead Body head2 = some own) :
    ∃ ehc2, own = [ehc2] ∧
      (Pass2.nonNulls ehc.ehcStmts = ehc2.ehcStmts ↔ ListedAlike Body head) := by
  have present := Stmt.isNull_eq_false same.nonnull
  rw [ehcOfHead] at found
  rw [Pass2.ehcOfHead, same.headStmt, present] at found2
  by_cases isGoto : head.type = .goto
  · have isGoto2 := same.isGoto.mp isGoto
    rw [Pass2.isGotoHead] at isGoto2
    rw [if_pos isGoto] at found
    rw [if_pos isGoto2, if_neg Bool.false_ne_true] at found2
    dsimp only at found found2
    cases assigned : (Pass2.scanHead none head.headStmt.children).1 with
    | none =>
        rw [assigned] at found
        cases found
    | some label =>
        rw [assigned] at found found2
        dsimp only [Option.map_some] at found found2
        cases found
        split at found2
        · cases found2
        · rename_i hasParent
          cases found2
          have labelFound : Pass2.labelStmtOf Body label ≠ .null := by
            intro isNull
            rw [isNull, Pass2.findParentRecursive_null] at hasParent
            exact hasParent rfl
          have isLabel := (Pass2.labelStmtOf_spec labelFound).2
          have below := Pass2.labelStmtOf_mem_descendants wf.compound labelFound
          have scans := scanBody_eq_scanLabelParent_iff wf isLabel below
          refine ⟨_, rfl, ?_⟩
          have alike : ListedAlike Body head ↔ LabelInBody Body (Pass2.labelStmtOf Body label) := by
            rw [ListedAlike, if_pos isGoto, assigned]
            constructor
            · exact fun all => all label rfl
            · rintro inBody _ ⟨⟩
              exact inBody
          rw [alike, ← scans, nonNulls_gotoStmts wf]
          exact List.append_right_inj _
  · have notGoto2 : ¬ (head2.type == .goto || head2.type == .gotoMaybe) = true := fun isGoto2 =>
      isGoto (same.isGoto.mpr isGoto2)
    rw [if_neg isGoto] at found
    rw [if_neg notGoto2, if_neg Bool.false_ne_true] at found2
    cases found
    rw [ListedAlike, if_neg isGoto]
    cases isBlock : head.headStmt.isCompound with
    | true =>
        rw [isBlock, if_pos rfl] at found2
        cases found2
        exact ⟨_, rfl, iff_of_true rfl rfl⟩
    | false =>
        rw [isBlock, if_neg Bool.false_ne_true] at found2
        cases found2
        exact ⟨_, rfl, iff_of_false (nonNulls_children_ne same.nonnull) Bool.false_ne_true⟩

end Agreement

/-- On the same blocks, where both passes resolve every `goto`, they list the same statements
exactly if every label stands among the statements of the body, with no stacked labels from it
on, and every block without a `goto` has braces. -/
theorem findEhcStmts_agree_iff (Body : Stmt) (wf : Pass2.WellFormedBody Body)
    (heads : List EHCHead) (heads2 : List Pass2.EHCHead)
    (same : List.Forall₂ SameBlock heads heads2) (ehcs : List EHC) (ehcs2 : List Pass2.EHC)
    (found : findEhcStmts Body heads = some ehcs)
    (found2 : Pass2.findEhcStmts Body heads2 = some ehcs2) :
    (ehcs.map fun ehc => Pass2.nonNulls ehc.ehcStmts) = ehcs2.map Pass2.EHC.ehcStmts ↔
      ∀ head ∈ heads, ListedAlike Body head := by
  induction same generalizing ehcs ehcs2 with
  | nil =>
      cases found
      cases found2
      simp
  | cons sameHead _ ih =>
      rw [findEhcStmts, Option.bind_eq_some_iff] at found
      obtain ⟨ehc, here, later⟩ := found
      obtain ⟨others, inRest, rfl⟩ := Option.map_eq_some_iff.mp later
      rw [Pass2.findEhcStmts] at found2
      split at found2
      · rename_i own others2 here2 inRest2
        cases found2
        obtain ⟨ehc2, rfl, atHead⟩ := ehcOfHead_agree_iff wf sameHead here here2
        rw [List.map_cons, List.singleton_append, List.map_cons, List.cons.injEq, atHead,
          ih others others2 inRest inRest2, List.forall_mem_cons]
      · cases found2

/-- The two passes find the statements of the block with the `goto err`. -/
def errHead : EHCHead := { type := .goto, headStmt := (Pass2.gotoHead "err").headStmt }

theorem findEhcStmts_agree_err :
    ∃ ehcs ehcs2, findEhcStmts (Pass2.twoExits "err") [errHead] = some ehcs ∧
      Pass2.findEhcStmts (Pass2.twoExits "err") [Pass2.gotoHead "err"] = some ehcs2 ∧
      (ehcs.map fun ehc => Pass2.nonNulls ehc.ehcStmts) = ehcs2.map Pass2.EHC.ehcStmts := by
  have wf := Pass2.wellFormed_twoExits "err"
  obtain ⟨ehcs2, found2⟩ := Pass2.findEhcStmts_isSome wf
    (Pass2.gotoDefined_twoExits "err" (Or.inr rfl))
  have same : List.Forall₂ SameBlock [errHead] [Pass2.gotoHead "err"] :=
    .cons ⟨rfl, by decide, by simp [errHead, Pass2.gotoHead, Build.block]⟩ .nil
  refine ⟨_, ehcs2, rfl, found2, ?_⟩
  refine (findEhcStmts_agree_iff (Pass2.twoExits "err") wf [errHead] [Pass2.gotoHead "err"] same
    _ ehcs2 rfl found2).mpr ?_
  rw [List.forall_mem_singleton]
  rintro _ ⟨⟩
  refine ⟨(Pass2.twoExits "err").children.take 2, (Pass2.twoExits "err").children.drop 3, rfl, ?_⟩
  decide

end Hecaton.DatabasePlugin
