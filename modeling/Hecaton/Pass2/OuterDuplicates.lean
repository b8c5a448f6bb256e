import Hecaton.Library.Groups
import Hecaton.Pass2.OuterEhcs

/-!
# The duplicates of outer EHCs

The two nested loops of `handle_outer_ehcs_duplicates`, as they move through the list while
they erase from it.  A null statement would stop them where they are, but the visit that
fills the list pushes none.  What they leave is a partition of the statements by their text.
-/

namespace Hecaton.Pass2

open Hecaton.Clang Hecaton.Library

/-! ## The loops -/

/-- The inner `while` loop: the outer EHC with what it has collected, the elements the second
iterator has passed and those before it; `none` when the steps do not bring it to the end. -/
def eraseDuplicates : Nat → OuterEHC → List OuterEHC → List OuterEHC →
    Option (OuterEHC × List OuterEHC)
  | 0, _, _, _ => none
  | _ + 1, outer1, passed, [] => some (outer1, passed)
  | steps + 1, outer1, passed, outer2 :: ahead =>
      -- `continue` goes on without moving the iterator.
      if outer2.stmt.isNull then eraseDuplicates steps outer1 passed (outer2 :: ahead)
      else if outer2.text = outer1.text then
        eraseDuplicates steps { outer1 with duplicates := outer1.duplicates ++ [outer2.stmt] }
          passed ahead
      else eraseDuplicates steps outer1 (passed ++ [outer2]) ahead

/-- The outer `while` loop: the EHCs, the elements the iterator has passed and those before
it. -/
def eraseAllDuplicates : Nat → List EHC → List OuterEHC → List OuterEHC →
    Option (List EHC × List OuterEHC)
  | 0, _, _, _ => none
  | _ + 1, ehcs, passed, [] => some (ehcs, passed)
  | steps + 1, ehcs, passed, outer1 :: ahead =>
      if outer1.stmt.isNull then eraseAllDuplicates steps ehcs passed (outer1 :: ahead)
      else do
        let (outer1, ahead) ← eraseDuplicates (steps + 1) outer1 [] ahead
        eraseAllDuplicates steps (markOuter outer1.text ehcs)
          (passed ++ [noteInnerDuplicate ehcs outer1]) ahead

/-- `handle_outer_ehcs_duplicates`, loop by loop; `none` when the steps do not bring it to the
end. -/
def handleOuterEhcsDuplicatesSteps (steps : Nat) (f : Function) : Option Function :=
  (eraseAllDuplicates steps f.EHCs [] f.outerEHCs).map fun (ehcs, outerEhcs) =>
    { f with EHCs := ehcs, outerEHCs := outerEhcs }

/-! ## What the loops compute -/

/-- The inner loop moves the equal statements and keeps the others in their order. -/
theorem eraseDuplicates_eq {steps : Nat} {ahead : List OuterEHC} (enough : ahead.length < steps)
    (nonnull : ∀ outer2 ∈ ahead, outer2.stmt.isNull = false) (outer1 : OuterEHC)
    (passed : List OuterEHC) :
    eraseDuplicates steps outer1 passed ahead =
      some ({ outer1 with
          duplicates := outer1.duplicates ++
            (ahead.filter fun outer2 => outer2.text = outer1.text).map OuterEHC.stmt },
        passed ++ ahead.filter fun outer2 => outer2.text ≠ outer1.text) := by
  induction ahead generalizing steps outer1 passed with
  | nil =>
      cases steps with
      | zero => simp at enough
      | succ steps => simp [eraseDuplicates]
  | cons outer2 ahead ih =>
      cases steps with
      | zero => simp at enough
      | succ steps =>
          have fewer : ahead.length < steps := by simpa using enough
          have here := nonnull outer2 List.mem_cons_self
          have later : ∀ other ∈ ahead, other.stmt.isNull = false := fun other otherMem =>
            nonnull other (List.mem_cons_of_mem _ otherMem)
          rw [eraseDuplicates, here]
          simp only [Bool.false_eq_true, if_false]
          by_cases sameText : outer2.text = outer1.text
          · have inGroup := List.filter_cons_of_pos (l := ahead)
              (p := fun outer2 => decide (outer2.text = outer1.text)) (decide_eq_true sameText)
            have notOther := List.filter_cons_of_neg (l := ahead) (a := outer2)
              (p := fun outer2 => decide (outer2.text ≠ outer1.text)) (by simp [sameText])
            rw [if_pos sameText, ih fewer later, inGroup, notOther]
            simp only [List.map_cons, List.append_assoc, List.singleton_append]
            rfl
          · rw [if_neg sameText, ih fewer later]
            simp [sameText]

/-- The outer loop computes what the rounds of the model compute. -/
theorem eraseAllDuplicates_eq {steps rounds : Nat} {ahead : List OuterEHC}
    (enough : ahead.length < steps) (exact : ahead.length ≤ rounds)
    (nonnull : ∀ outer ∈ ahead, outer.stmt.isNull = false) (ehcs : List EHC)
    (passed : List OuterEHC) :
    eraseAllDuplicates steps ehcs passed ahead =
      some ((handleDuplicatesLoop rounds ehcs ahead).1,
        passed ++ (handleDuplicatesLoop rounds ehcs ahead).2) := by
  induction steps generalizing rounds ahead ehcs passed with
  | zero => simp at enough
  | succ steps ih =>
      cases ahead with
      | nil => cases rounds <;> simp [eraseAllDuplicates, handleDuplicatesLoop]
      | cons outer1 ahead =>
          cases rounds with
          | zero => simp at exact
          | succ rounds =>
              have here := nonnull outer1 List.mem_cons_self
              have later : ∀ other ∈ ahead, other.stmt.isNull = false := fun other otherMem =>
                nonnull other (List.mem_cons_of_mem _ otherMem)
              have shorter := List.length_filter_le (fun outer2 => decide (outer2.text ≠ outer1.text))
                ahead
              have inner : ahead.length < steps + 1 := Nat.lt_of_succ_lt enough
              have fewer : ahead.length < steps := by simpa using enough
              have fits : ahead.length ≤ rounds := by simpa using exact
              rw [eraseAllDuplicates, here]
              simp only [Bool.false_eq_true, if_false]
              rw [eraseDuplicates_eq inner later outer1 []]
              simp only [Option.bind_eq_bind, Option.bind_some, List.nil_append]
              rw [ih (Nat.lt_of_le_of_lt shorter fewer) (Nat.le_trans shorter fits)
                fun other otherMem => later other (List.mem_filter.mp otherMem).1]
              simp [handleDuplicatesLoop, OuterEHC.text]

theorem handleOuterEhcsDuplicatesSteps_eq {steps : Nat} {f : Function}
    (enough : f.outerEHCs.length < steps)
    (nonnull : ∀ outer ∈ f.outerEHCs, outer.stmt.isNull = false) :
    handleOuterEhcsDuplicatesSteps steps f = some (handleOuterEhcsDuplicates f) := by
  rw [handleOuterEhcsDuplicatesSteps,
    eraseAllDuplicates_eq enough (Nat.le_refl _) nonnull f.EHCs []]
  simp [handleOuterEhcsDuplicates]

/-! ## The groups -/

/-- An outer EHC without what the removal of duplicates adds to it. -/
def OuterEHC.bare (outerEhc : OuterEHC) : OuterEHC :=
  { outerEhc with duplicates := [], hasInnerDuplicate := false, innerDuplicate := .null }

/-- An outer EHC and the statements it stands for. -/
def OuterEHC.stmts (outerEhc : OuterEHC) : List Stmt := outerEhc.stmt :: outerEhc.duplicates

@[simp]
theorem noteInnerDuplicate_bare (ehcs : List EHC) (outer1 : OuterEHC) :
    (noteInnerDuplicate ehcs outer1).bare = outer1.bare := by
  simp only [noteInnerDuplicate]
  split <;> rfl

@[simp]
theorem noteInnerDuplicate_stmts (ehcs : List EHC) (outer1 : OuterEHC) :
    (noteInnerDuplicate ehcs outer1).stmts = outer1.stmts := by
  simp only [noteInnerDuplicate]
  split <;> rfl

/-- Every kept outer EHC is the first of its text, and stands for the statements of that
text. -/
theorem handleDuplicatesLoop_groups {rounds : Nat} {outerEhcs : List OuterEHC}
    (enough : outerEhcs.length ≤ rounds) (bare : ∀ outer ∈ outerEhcs, outer.bare = outer)
    (ehcs : List EHC) :
    (handleDuplicatesLoop rounds ehcs outerEhcs).2.map (fun outer => (outer.bare, outer.stmts)) =
      (firstByKey OuterEHC.text outerEhcs).map fun outer =>
        (outer, (groupOf OuterEHC.text outerEhcs outer).map OuterEHC.stmt) := by
  induction rounds, outerEhcs, enough using rounds_induction generalizing ehcs with
  | done rounds => cases rounds <;> rfl
  | round rounds outer1 rest fewer ih =>
      have restBare : ∀ outer ∈ rest.filter fun outer2 => outer2.text ≠ outer1.text,
          outer.bare = outer := fun outer outerMem =>
        bare outer (List.mem_cons_of_mem _ (List.mem_filter.mp outerMem).1)
      have isBare := bare outer1 List.mem_cons_self
      have noDuplicates : outer1.duplicates = [] := by rw [← isBare]; rfl
      rw [firstByKey_cons, List.map_cons, groupOf_cons_self, handleDuplicatesLoop]
      simp only [List.map_cons, noteInnerDuplicate_bare, noteInnerDuplicate_stmts]
      rw [ih _ ((List.length_filter_le _ _).trans fewer) restBare]
      congr 1
      · rw [noDuplicates]
        exact Prod.ext isBare rfl
      · apply List.map_congr_left
        intro outer kept
        rw [groupOf_cons_of_ne (key_ne_of_mem_firstByKey kept)]

/-! ## The list of the visit -/

theorem outerEhcOf_bare {db : Database} {Body currStmt : Stmt} {outerEhc : OuterEHC}
    (taken : outerEhcOf db Body currStmt = some outerEhc) :
    outerEhc.bare = outerEhc ∧ outerEhc.stmt.isNull = false := by
  have isStmt := outerEhcOf_stmt taken
  constructor
  · simp only [outerEhcOf] at taken
    split at taken
    · cases taken
    · split at taken
      · split at taken
        · cases taken
        · cases taken
          rfl
      · split at taken
        · cases taken
        · split at taken
          · cases taken
            rfl
          · cases taken
  · rw [isStmt]
    cases currStmt with
    | null => simp [outerEhcOf, Stmt.directCallee] at taken
    | node => rfl

theorem outerEhcsVisit_bare {db : Database} {Body : Stmt} {outer : OuterEHC}
    (member : outer ∈ outerEhcsVisit db Body) :
    outer.bare = outer ∧ outer.stmt.isNull = false := by
  obtain ⟨currStmt, _, taken⟩ := List.mem_filterMap.mp member
  exact outerEhcOf_bare taken

/-! ## The partition -/

variable {outerEhcs kept : List OuterEHC}

/-- What is kept stands for the groups of the list. -/
def Partitions (kept outerEhcs : List OuterEHC) : Prop :=
  kept.map (fun outer => (outer.bare, outer.stmts)) =
    (firstByKey OuterEHC.text outerEhcs).map fun outer =>
      (outer, (groupOf OuterEHC.text outerEhcs outer).map OuterEHC.stmt)

theorem Partitions.bare (partitions : Partitions kept outerEhcs) :
    kept.map OuterEHC.bare = firstByKey OuterEHC.text outerEhcs := by
  have firsts := congrArg (List.map Prod.fst) partitions
  simpa [List.map_map, Function.comp_def] using firsts

theorem Partitions.texts_nodup (partitions : Partitions kept outerEhcs) :
    (kept.map OuterEHC.text).Nodup := by
  have texts : kept.map OuterEHC.text = (kept.map OuterEHC.bare).map OuterEHC.text := by
    rw [List.map_map]
    rfl
  rw [texts, partitions.bare]
  exact firstByKey_map_nodup outerEhcs

/-- A kept outer EHC stands for the statements of its text, in their order. -/
theorem Partitions.stmts (partitions : Partitions kept outerEhcs) {outer : OuterEHC}
    (outerMem : outer ∈ kept) :
    outer.stmts = (groupOf OuterEHC.text outerEhcs outer).map OuterEHC.stmt := by
  have inPairs : (outer.bare, outer.stmts) ∈
      kept.map fun outer => (outer.bare, outer.stmts) :=
    List.mem_map.mpr ⟨outer, outerMem, rfl⟩
  rw [partitions] at inPairs
  obtain ⟨first, _, same⟩ := List.mem_map.mp inPairs
  obtain ⟨isBare, areStmts⟩ := Prod.mk.inj same
  rw [← areStmts, isBare]
  rfl

theorem Partitions.perm (partitions : Partitions kept outerEhcs) :
    (kept.flatMap OuterEHC.stmts).Perm (outerEhcs.map OuterEHC.stmt) := by
  have seconds := congrArg (fun pairs => (pairs.map Prod.snd).flatten) partitions
  simp only [List.map_map, Function.comp_def, ← List.flatMap_def] at seconds
  rw [seconds, ← List.map_flatMap]
  exact (groups_perm outerEhcs).map OuterEHC.stmt

/-- Every statement is that of one kept outer EHC, the one with its text, or in its list of
duplicates. -/
theorem Partitions.exists_kept (partitions : Partitions kept outerEhcs) {removed : OuterEHC}
    (removedMem : removed ∈ outerEhcs) :
    ∃ outer ∈ kept, outer.text = removed.text ∧ removed.stmt ∈ outer.stmts ∧
      ∀ other ∈ kept, removed.stmt ∈ other.stmts → other = outer := by
  have hasText : HasKey OuterEHC.text (kept.map OuterEHC.bare) removed.text := by
    rw [partitions.bare, hasKey_firstByKey]
    exact ⟨removed, removedMem, rfl⟩
  obtain ⟨_, bareMem, sameText⟩ := hasText
  obtain ⟨outer, outerMem, rfl⟩ := List.mem_map.mp bareMem
  have outerText : outer.text = removed.text := sameText
  refine ⟨outer, outerMem, outerText, ?_, ?_⟩
  · rw [partitions.stmts outerMem]
    exact List.mem_map.mpr ⟨removed, mem_groupOf.mpr ⟨removedMem, outerText.symm⟩, rfl⟩
  · intro other otherMem inOther
    rw [partitions.stmts otherMem] at inOther
    obtain ⟨member, memberIn, sameStmt⟩ := List.mem_map.mp inOther
    have otherText : other.text = removed.text := by
      rw [← (mem_groupOf.mp memberIn).2, OuterEHC.text, sameStmt, OuterEHC.text]
    exact List.inj_on_of_nodup_map partitions.texts_nodup otherMem outerMem
      (otherText.trans outerText.symm)

/-- The removal of duplicates ends and leaves the first outer EHC of each text, in order.  Each
stands for the statements of its text in their order, so every statement found by the visit is
there once, with the one outer EHC of its text. -/
theorem handleOuterEhcsDuplicates_partition (db : Database) (f : Function) :
    ∃ g, (∀ steps, (outerEhcsVisit db f.body).length < steps →
        handleOuterEhcsDuplicatesSteps steps { f with outerEHCs := outerEhcsVisit db f.body } =
          some g) ∧
      g.outerEHCs.map OuterEHC.bare = firstByKey OuterEHC.text (outerEhcsVisit db f.body) ∧
      (∀ outer ∈ g.outerEHCs, outer.stmt :: outer.duplicates =
        ((outerEhcsVisit db f.body).filter fun other => other.text = outer.text).map
          OuterEHC.stmt) ∧
      (g.outerEHCs.flatMap fun outer => outer.stmt :: outer.duplicates).Perm
        ((outerEhcsVisit db f.body).map OuterEHC.stmt) ∧
      ∀ removed ∈ outerEhcsVisit db f.body, ∃ outer ∈ g.outerEHCs,
        outer.text = removed.text ∧ removed.stmt ∈ outer.stmt :: outer.duplicates ∧
        ∀ other ∈ g.outerEHCs, removed.stmt ∈ other.stmt :: other.duplicates → other = outer := by
  have partitions : Partitions
      (handleDuplicatesLoop (outerEhcsVisit db f.body).length f.EHCs
        (outerEhcsVisit db f.body)).2 (outerEhcsVisit db f.body) :=
    handleDuplicatesLoop_groups (Nat.le_refl _)
      (fun outer outerMem => (outerEhcsVisit_bare outerMem).1) f.EHCs
  refine ⟨handleOuterEhcsDuplicates { f with outerEHCs := outerEhcsVisit db f.body }, ?_,
    partitions.bare, ?_, partitions.perm, ?_⟩
  · intro steps enough
    exact handleOuterEhcsDuplicatesSteps_eq enough fun outer outerMem =>
      (outerEhcsVisit_bare outerMem).2
  · intro outer outerMem
    exact partitions.stmts outerMem
  · intro removed removedMem
    exact partitions.exists_kept removedMem

end Hecaton.Pass2
