import Hecaton.Clang.Build
import Hecaton.Pass2.DatabaseHeader

/-!
# Verifying doubtful blocks against the database

`handle_maybe` decides which blocks of type MAYBE or GOTO_MAYBE are
error-handling code.  Its two counters are declared outside the loop over the
blocks, so a block is judged on its own calls and on those of every doubtful
block before it.
-/

namespace Hecaton.Pass2

open Hecaton.Clang

/-- `total_fncs` and `verified_fncs`. -/
structure FncCounts where
  totalFncs : Nat := 0
  verifiedFncs : Nat := 0

/-- The first loop over the statements of a block. -/
def countFncs (db : Database) (counts : FncCounts) : List Stmt → FncCounts
  | [] => counts
  | currStmt :: rest =>
      match currStmt.directCallee with
      | none => countFncs db counts rest
      | some fncname =>
          let founds := findFnc db.ehcFncs fncname
          countFncs db
            { totalFncs := counts.totalFncs + 1
              verifiedFncs :=
                if founds.isEmpty then counts.verifiedFncs else counts.verifiedFncs + 1 }
            rest

/-- The types whose blocks are in doubt. -/
def EHC.inDoubt (ehc : EHC) : Bool :=
  ehc.head.type == .maybe || ehc.head.type == .gotoMaybe

/-- One round of the loop over the blocks. -/
def handleMaybeEhc (db : Database) (counts : FncCounts) (ehc : EHC) : FncCounts × EHC :=
  if ehc.head.type != .maybe && ehc.head.type != .gotoMaybe then (counts, ehc)
  else
    let counts := countFncs db counts ehc.ehcStmts
    let type :=
      if counts.verifiedFncs ≥ 1 ∨ counts.totalFncs = 0 then EHCType.verified
      else EHCType.denied
    let type := if ehc.ehcStmts.any Stmt.isLabel then EHCType.denied else type
    (counts, { ehc with head := { ehc.head with type := type } })

/-- The loop over the blocks, with the counters it has reached. -/
def handleMaybeLoop (db : Database) (counts : FncCounts) : List EHC → List EHC
  | [] => []
  | ehc :: rest =>
      let (counts, ehc) := handleMaybeEhc db counts ehc
      ehc :: handleMaybeLoop db counts rest

/-- `handle_maybe` on the blocks of a function. -/
def handleMaybeEhcs (db : Database) (ehcs : List EHC) : List EHC :=
  handleMaybeLoop db {} ehcs

/-- `handle_maybe`. -/
def handleMaybe (db : Database) (f : Function) : Function :=
  { f with EHCs := handleMaybeEhcs db f.EHCs }

/-! ## What the counters hold -/

/-- The direct callees of the call statements of a list. -/
def directCalls (stmts : List Stmt) : List String :=
  stmts.filterMap Stmt.directCallee

/-- Those of them that the database lists as undo functions. -/
def namedCalls (db : Database) (stmts : List Stmt) : List String :=
  (directCalls stmts).filter fun fncname => fncname ∈ db.ehcFncs

/-- All statements of the blocks in doubt. -/
def stmtsInDoubt (ehcs : List EHC) : List Stmt :=
  (ehcs.filter EHC.inDoubt).flatMap EHC.ehcStmts

variable {db : Database}

theorem handleMaybeEhc_of_not_inDoubt {counts : FncCounts} {ehc : EHC}
    (settled : ehc.inDoubt = false) : handleMaybeEhc db counts ehc = (counts, ehc) := by
  simp only [EHC.inDoubt, Bool.or_eq_false_iff] at settled
  simp [handleMaybeEhc, bne, settled.1, settled.2]

theorem directCalls_append (first second : List Stmt) :
    directCalls (first ++ second) = directCalls first ++ directCalls second := by
  simp [directCalls]

theorem namedCalls_append (first second : List Stmt) :
    namedCalls db (first ++ second) = namedCalls db first ++ namedCalls db second := by
  simp [namedCalls, directCalls_append]

theorem countFncs_eq (counts : FncCounts) (stmts : List Stmt) :
    countFncs db counts stmts =
      { totalFncs := counts.totalFncs + (directCalls stmts).length
        verifiedFncs := counts.verifiedFncs + (namedCalls db stmts).length } := by
  induction stmts generalizing counts with
  | nil => simp [countFncs, directCalls, namedCalls]
  | cons currStmt rest ih =>
      cases callee : currStmt.directCallee with
      | none => simp [countFncs, callee, ih, directCalls, namedCalls]
      | some fncname =>
          by_cases listed : fncname ∈ db.ehcFncs
          · have found : (findFnc db.ehcFncs fncname).isEmpty = false := by
              rw [← Bool.not_eq_true, findFnc_isEmpty]
              exact not_not_intro listed
            simp [countFncs, callee, found, ih, directCalls, namedCalls, listed]
            omega
          · have missing := (findFnc_isEmpty db.ehcFncs fncname).mpr listed
            simp [countFncs, callee, missing, ih, directCalls, namedCalls, listed]
            omega

/-- The counters count the calls of a list of statements. -/
def FncCounts.Of (db : Database) (counts : FncCounts) (stmts : List Stmt) : Prop :=
  counts.totalFncs = (directCalls stmts).length ∧
    counts.verifiedFncs = (namedCalls db stmts).length

/-- The verdict on a block when the counted calls are those of `stmts`. -/
def verdict (db : Database) (hasLabel : Bool) (stmts : List Stmt) : EHCType :=
  if hasLabel = false ∧ (namedCalls db stmts ≠ [] ∨ directCalls stmts = []) then .verified
  else .denied

/-- One round adds the block's calls to the counters and judges by their sum. -/
theorem handleMaybeEhc_spec {counts : FncCounts} {before : List EHC} (ehc : EHC)
    (counted : counts.Of db (stmtsInDoubt before)) :
    (handleMaybeEhc db counts ehc).1.Of db (stmtsInDoubt (before ++ [ehc])) ∧
      (ehc.inDoubt = true →
        (handleMaybeEhc db counts ehc).2.head.type =
          verdict db (ehc.ehcStmts.any Stmt.isLabel)
            (stmtsInDoubt before ++ ehc.ehcStmts)) := by
  cases doubt : ehc.inDoubt with
  | false =>
      rw [handleMaybeEhc_of_not_inDoubt doubt]
      simpa [stmtsInDoubt, doubt] using counted
  | true =>
      have together : stmtsInDoubt (before ++ [ehc]) = stmtsInDoubt before ++ ehc.ehcStmts := by
        simp [stmtsInDoubt, doubt]
      have enters : (ehc.head.type != .maybe && ehc.head.type != .gotoMaybe) = false := by
        simp only [EHC.inDoubt, Bool.or_eq_true] at doubt
        rcases doubt with first | second
        · simp [bne, first]
        · simp [bne, second]
      rw [together]
      simp only [handleMaybeEhc, enters, countFncs_eq, counted.1, counted.2]
      constructor
      · simp [FncCounts.Of, directCalls_append, namedCalls_append]
      · intro _
        simp only [verdict, namedCalls_append, directCalls_append, ne_eq, List.append_eq_nil_iff]
        cases ehc.ehcStmts.any Stmt.isLabel with
        | true => simp
        | false =>
            simp only [Bool.false_eq_true, if_false, true_and]
            congr 1
            simp only [← List.length_eq_zero_iff, ge_iff_le, eq_iff_iff]
            omega

/-- The verdicts of the whole loop. -/
theorem handleMaybeLoop_spec {counts : FncCounts} {before : List EHC} (ehcs : List EHC)
    (counted : counts.Of db (stmtsInDoubt before)) :
    ∀ pre ehc post, ehcs = pre ++ ehc :: post → ehc.inDoubt = true →
      ∃ judged, (handleMaybeLoop db counts ehcs)[pre.length]? = some judged ∧
        judged.head.type = verdict db (ehc.ehcStmts.any Stmt.isLabel)
          (stmtsInDoubt (before ++ pre) ++ ehc.ehcStmts) := by
  induction ehcs generalizing counts before with
  | nil => simp
  | cons first rest ih =>
      intro pre ehc post split doubt
      have step := handleMaybeEhc_spec first counted
      cases pre with
      | nil =>
          simp only [List.nil_append, List.cons.injEq] at split
          obtain ⟨rfl, -⟩ := split
          refine ⟨(handleMaybeEhc db counts first).2, by simp [handleMaybeLoop], ?_⟩
          simpa using step.2 doubt
      | cons head tail =>
          simp only [List.cons_append, List.cons.injEq] at split
          obtain ⟨rfl, split⟩ := split
          obtain ⟨judged, atIndex, judgedType⟩ := ih step.1 tail ehc post split doubt
          refine ⟨judged, ?_, ?_⟩
          · simpa [handleMaybeLoop] using atIndex
          · simpa using judgedType

/-! ## Judging each block on its own -/

/-- The verdict on a block by its own statements alone. -/
def ownVerdict (db : Database) (ehc : EHC) : EHCType :=
  verdict db (ehc.ehcStmts.any Stmt.isLabel) ehc.ehcStmts

/-- Every block in doubt gets the verdict of its own statements. -/
def JudgesEachAlone (db : Database) (ehcs : List EHC) : Prop :=
  ∀ pre ehc post, ehcs = pre ++ ehc :: post → ehc.inDoubt = true →
    ∃ judged, (handleMaybeEhcs db ehcs)[pre.length]? = some judged ∧
      judged.head.type = ownVerdict db ehc

/-- The earlier blocks in doubt do not decide for this one: a block without a
label and without a call the database lists must, if it has a direct call, stand
behind no listed call, and if it has none, behind a listed call or behind no
direct call at all. -/
def CountersHarmless (db : Database) (ehcs : List EHC) : Prop :=
  ∀ pre ehc post, ehcs = pre ++ ehc :: post → ehc.inDoubt = true →
    ehc.ehcStmts.any Stmt.isLabel = false → namedCalls db ehc.ehcStmts = [] →
      (directCalls ehc.ehcStmts ≠ [] → namedCalls db (stmtsInDoubt pre) = []) ∧
      (directCalls ehc.ehcStmts = [] →
        namedCalls db (stmtsInDoubt pre) ≠ [] ∨ directCalls (stmtsInDoubt pre) = [])

/-- Counting earlier statements leaves the verdict alone exactly when they are
harmless to it. -/
theorem verdict_append_eq_iff (hasLabel : Bool) (earlier own : List Stmt) :
    verdict db hasLabel (earlier ++ own) = verdict db hasLabel own ↔
      (hasLabel = false → namedCalls db own = [] →
        (directCalls own ≠ [] → namedCalls db earlier = []) ∧
        (directCalls own = [] → namedCalls db earlier ≠ [] ∨ directCalls earlier = [])) := by
  simp only [verdict, namedCalls_append, directCalls_append, ne_eq, List.append_eq_nil_iff]
  cases hasLabel with
  | true => simp
  | false =>
      by_cases named : namedCalls db own = []
      · by_cases direct : directCalls own = []
        · by_cases earlierNamed : namedCalls db earlier = [] <;>
            by_cases earlierDirect : directCalls earlier = [] <;>
            simp [named, direct, earlierNamed, earlierDirect]
        · by_cases earlierNamed : namedCalls db earlier = [] <;>
            simp [named, direct, earlierNamed]
      · simp [named]

theorem judgesEachAlone_iff_of (ehcs : List EHC) :
    JudgesEachAlone db ehcs ↔ CountersHarmless db ehcs := by
  have counted : ({} : FncCounts).Of db (stmtsInDoubt []) := by
    simp [FncCounts.Of, stmtsInDoubt, directCalls, namedCalls]
  have judgedBy := handleMaybeLoop_spec ehcs counted
  constructor
  · intro alone pre ehc post split doubt
    obtain ⟨judged, atIndex, judgedType⟩ := judgedBy pre ehc post split doubt
    obtain ⟨judged', atIndex', ownType⟩ := alone pre ehc post split doubt
    have same : judged = judged' := Option.some.inj (atIndex.symm.trans atIndex')
    subst same
    exact (verdict_append_eq_iff _ _ _).mp (judgedType.symm.trans ownType)
  · intro harmless pre ehc post split doubt
    obtain ⟨judged, atIndex, judgedType⟩ := judgedBy pre ehc post split doubt
    refine ⟨judged, atIndex, judgedType.trans ?_⟩
    exact (verdict_append_eq_iff _ _ _).mpr (harmless pre ehc post split doubt)

/-- `handle_maybe` judges each block on its own exactly when the counters of the
earlier blocks are harmless; and in two such lists a block gets one verdict,
whatever stands around it. -/
theorem handleMaybe_judges_each_alone_iff (db : Database) :
    (∀ ehcs, JudgesEachAlone db ehcs ↔ CountersHarmless db ehcs) ∧
      ∀ pre ehc post pre' post' judged judged', ehc.inDoubt = true →
        CountersHarmless db (pre ++ ehc :: post) → CountersHarmless db (pre' ++ ehc :: post') →
        (handleMaybeEhcs db (pre ++ ehc :: post))[pre.length]? = some judged →
        (handleMaybeEhcs db (pre' ++ ehc :: post'))[pre'.length]? = some judged' →
        judged.head.type = judged'.head.type := by
  refine ⟨judgesEachAlone_iff_of, ?_⟩
  intro pre ehc post pre' post' judged judged' doubt harmless harmless' atIndex atIndex'
  obtain ⟨own, ownIndex, ownType⟩ :=
    (judgesEachAlone_iff_of _).mpr harmless pre ehc post rfl doubt
  obtain ⟨own', ownIndex', ownType'⟩ :=
    (judgesEachAlone_iff_of _).mpr harmless' pre' ehc post' rfl doubt
  rw [Option.some.inj (atIndex.symm.trans ownIndex),
    Option.some.inj (atIndex'.symm.trans ownIndex'), ownType, ownType']

/-- The block `{ callee(arg); return; }` of type MAYBE. -/
def maybeBlock (id line : Nat) (callee arg : String) : EHC :=
  let call := Build.callOf (10 * id + 1) (100 * id + 4) (line + 1) callee arg
  let leave := Build.returnOf (10 * id + 4) (100 * id + 40) (line + 2)
  { head :=
      { type := .maybe
        headStmt :=
          Build.block (10 * id) (100 * id) line (100 * id + 50) (line + 3) [call, leave] }
    ehcStmts := [call, leave] }

theorem directCalls_maybeBlock (id line : Nat) (callee arg : String) :
    directCalls (maybeBlock id line callee arg).ehcStmts = [callee] := by
  simp [maybeBlock, directCalls, Build.callOf, Build.returnOf, Stmt.directCallee]

set_option maxRecDepth 8000 in
private theorem updateStats_unlisted : "update_stats" ∉ databaseHeader.ehcFncs := by
  simp only [databaseHeader, headerEhcFncs, List.mem_cons, String.reduceEq, List.not_mem_nil,
    or_self, not_false_eq_true]

/-- Updates of statistics before a block that frees memory are harmless. -/
theorem countersHarmless_updates (ids : List Nat) (id line : Nat) :
    CountersHarmless databaseHeader
      ((ids.map fun other => maybeBlock other (10 * other) "update_stats" "b") ++
        [maybeBlock id line "kfree" "a"]) := by
  have namedUpdate : ∀ other : Nat,
      namedCalls databaseHeader (maybeBlock other (10 * other) "update_stats" "b").ehcStmts = [] := by
    intro other
    simp [namedCalls, directCalls_maybeBlock, updateStats_unlisted]
  intro pre ehc post split _ _ unnamed
  -- The last block has a listed call, so the block at hand stands before it.
  have inFront : ∃ rest, post = rest ++ [maybeBlock id line "kfree" "a"] ∧
      ids.map (fun other => maybeBlock other (10 * other) "update_stats" "b") =
        pre ++ ehc :: rest := by
    rcases List.eq_nil_or_concat post with rfl | ⟨rest, last, rfl⟩
    · have last : ehc = maybeBlock id line "kfree" "a" :=
        (List.append_inj' split (by simp)).2 |> List.cons.inj |>.1.symm
      rw [last, namedCalls, directCalls_maybeBlock] at unnamed
      simp [kfree_kzfree_listed.1] at unnamed
    · rw [List.concat_eq_append, ← List.cons_append, ← List.append_assoc] at split
      obtain ⟨front, back⟩ := List.append_inj' split rfl
      obtain rfl := (List.cons.inj back).1
      exact ⟨rest, List.concat_eq_append, front⟩
  obtain ⟨rest, -, front⟩ := inFront
  have isUpdate : ∀ other ∈ pre ++ ehc :: rest, ∃ own,
      other = maybeBlock own (10 * own) "update_stats" "b" := by
    intro other otherMem
    rw [← front] at otherMem
    obtain ⟨own, -, rfl⟩ := List.mem_map.mp otherMem
    exact ⟨own, rfl⟩
  have earlier : namedCalls databaseHeader (stmtsInDoubt pre) = [] := by
    simp only [namedCalls, directCalls, stmtsInDoubt, List.filter_eq_nil_iff, List.mem_filterMap,
      List.mem_flatMap, List.mem_filter]
    rintro fncname ⟨stmt, ⟨other, ⟨otherMem, _⟩, stmtMem⟩, isCall⟩ listed
    obtain ⟨own, rfl⟩ := isUpdate other (List.mem_append_left _ otherMem)
    have named : fncname ∈ namedCalls databaseHeader
        (maybeBlock own (10 * own) "update_stats" "b").ehcStmts :=
      List.mem_filter.mpr ⟨List.mem_filterMap.mpr ⟨stmt, stmtMem, isCall⟩, listed⟩
    rw [namedUpdate own] at named
    cases named
  obtain ⟨own, rfl⟩ := isUpdate ehc (by simp)
  simp [earlier, directCalls_maybeBlock]

/-- A block that only updates statistics gets one verdict before a block that
frees `a`, and between another such update and that block. -/
theorem handleMaybe_one_verdict_of_two_lists :
    ∀ judged judged' : EHC,
      (handleMaybeEhcs databaseHeader
        [maybeBlock 2 20 "update_stats" "b", maybeBlock 1 10 "kfree" "a"])[0]? = some judged →
      (handleMaybeEhcs databaseHeader
        [maybeBlock 3 30 "update_stats" "b", maybeBlock 2 20 "update_stats" "b",
          maybeBlock 1 10 "kfree" "a"])[1]? = some judged' →
      judged.head.type = judged'.head.type := by
  intro judged judged'
  exact (handleMaybe_judges_each_alone_iff databaseHeader).2 []
    (maybeBlock 2 20 "update_stats" "b") [maybeBlock 1 10 "kfree" "a"]
    [maybeBlock 3 30 "update_stats" "b"] [maybeBlock 1 10 "kfree" "a"] judged judged'
    (by decide) (countersHarmless_updates [2] 1 10) (countersHarmless_updates [3, 2] 1 10)

/-- Behind a block that frees `a`, a block that only updates statistics passes
for error-handling code. -/
theorem handleMaybe_keeps_counting :
    ¬ JudgesEachAlone databaseHeader
        [maybeBlock 1 10 "kfree" "a", maybeBlock 2 20 "update_stats" "b"] := by
  rw [judgesEachAlone_iff_of]
  intro harmless
  have direct := directCalls_maybeBlock 2 20 "update_stats" "b"
  have atSecond := harmless [maybeBlock 1 10 "kfree" "a"]
    (maybeBlock 2 20 "update_stats" "b") [] rfl (by decide)
    (by simp [maybeBlock, Build.callOf, Build.returnOf, Stmt.isLabel, Stmt.isa])
    (by simp [namedCalls, direct, updateStats_unlisted])
  have noneNamed := atSecond.1 (by simp [direct])
  have inDoubt : stmtsInDoubt [maybeBlock 1 10 "kfree" "a"] =
      (maybeBlock 1 10 "kfree" "a").ehcStmts := by
    simp [stmtsInDoubt, maybeBlock, EHC.inDoubt]
  rw [inDoubt, namedCalls, directCalls_maybeBlock] at noneNamed
  simp [kfree_kzfree_listed.1] at noneNamed

end Hecaton.Pass2
