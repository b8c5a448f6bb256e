import Hecaton.Pass2.Execution

/-!
# Stamps of statements in conditions

A statement in a condition has its stamp at the start of the body that the
condition guards.  When the condition comes out false nothing is recorded.
-/

namespace Hecaton.Pass2

open Hecaton.Clang
open Hecaton.Library

/-- The parts of the condition, as the pass reads it: for a `for` all of its
header. -/
def conditionParts (q : Stmt) : List Stmt :=
  if q.isIf then [q.ifCond]
  else if q.isFor then [q.forInit, q.forCond, q.forInc]
  else [q.whileCond]

/-- The block that the condition guards. -/
def guardedBody (q : Stmt) : Stmt :=
  if q.isIf then q.ifThen else if q.isFor then q.forBody else q.whileBody

/-- `n` lies in the condition of its nearest `if`, `for` or `while`, which guards a
block; the text of a part of the condition holds that of each node below it. -/
structure InCondition (Body n q : Stmt) : Prop where
  nearest : NearestConditional Body n q
  inside : ∃ part ∈ conditionParts q, n ∈ part.nodes ∧ contains part.info.text n.info.text = true
  guardsBlock : (guardedBody q).isCompound = true

theorem contains_append_left {str sub : String} (more : String) (found : contains str sub = true) :
    contains (more ++ str) sub = true := by
  simp only [contains, decide_eq_true_eq, String.toList_append] at found ⊢
  exact found.trans (List.suffix_append _ _).isInfix

theorem contains_append_right {str sub : String} (more : String)
    (found : contains str sub = true) : contains (str ++ more) sub = true := by
  simp only [contains, decide_eq_true_eq, String.toList_append] at found ⊢
  exact found.trans (List.prefix_append _ _).isInfix

/-- A part that is added keeps the text before it. -/
theorem contains_addPart {str sub : String} (part : Stmt) (found : contains str sub = true) :
    contains (if part.isNull then str else str ++ " ; " ++ part.info.text) sub = true := by
  split
  · exact found
  · exact contains_append_right _ (contains_append_right _ found)

theorem contains_addedPart {str sub : String} {part : Stmt} (present : part.isNull = false)
    (found : contains part.info.text sub = true) :
    contains (if part.isNull then str else str ++ " ; " ++ part.info.text) sub = true := by
  rw [present]
  exact contains_append_left _ found

/-- The condition's text holds that of each of its parts. -/
theorem contains_parentCondStr {q part : Stmt} {str : String} (partMem : part ∈ conditionParts q)
    (present : part.isNull = false) (found : contains part.info.text str = true) :
    contains (parentCondStr q) str = true := by
  rw [conditionParts] at partMem
  rw [parentCondStr]
  split at partMem
  · rename_i isIf
    rw [if_pos isIf, ← List.mem_singleton.mp partMem]
    exact found
  · rename_i notIf
    rw [if_neg notIf]
    split at partMem
    · rename_i isFor
      rw [if_pos isFor]
      simp only [List.mem_cons, List.not_mem_nil, or_false] at partMem
      rcases partMem with rfl | rfl | rfl
      · apply contains_addPart
        apply contains_addPart
        rw [present]
        exact found
      · apply contains_addPart
        exact contains_addedPart present found
      · exact contains_addedPart present found
    · rename_i notFor
      rw [if_neg notFor, ← List.mem_singleton.mp partMem]
      exact found

variable {sm : SourceManager} {Body n q : Stmt}

/-- The stamp of a statement in a condition goes to the start of the block that
the condition guards. -/
theorem findProperLoc_of_inCondition (distinct : Body.Distinct) (begins : OnlyBodyBegins Body)
    (inCondition : InCondition Body n q) :
    findProperLocToInsertPairmaskStamp sm n Body = some (afterBrace (guardedBody q)) := by
  obtain ⟨part, partMem, inPart, found⟩ := inCondition.inside
  have present : part.isNull = false := by
    apply Stmt.isNull_eq_false
    rintro rfl
    simp at inPart
  have occurs : stmtInParentCondition n q = true := by
    rw [stmtInParentCondition, inCondition.nearest.conditional, Bool.true_and]
    exact contains_parentCondStr partMem present found
  have isBlock := inCondition.guardsBlock
  simp only [guardedBody] at isBlock
  simp only [findProperLocToInsertPairmaskStamp,
    findIfstmtGrandparentRecursive_eq distinct begins inCondition.nearest, occurs, if_true, isBlock,
    guardedBody]

/-! ## Evaluating a condition -/

/-- The task is about the statement, and not behind it. -/
def Task.isOf (q : Stmt) : Task → Prop
  | .stmt _ s => s = q
  | .again s => s = q
  | .behind _ _ => False

/-- Where the evaluation of a condition leads: to the guarded block, to the `else`
block, or to no place with pieces. -/
structure Evaluates (q : Stmt) (evaluation : Evaluation) (move : Move) : Prop where
  finished : evaluation.finished = true
  whenTaken : evaluation.taken = true → move.place = some (afterBrace (guardedBody q))
  whenNotTaken : evaluation.taken = false → move.place = none ∨
    (q.isIf = true ∧ q.ifElse.isCompound = true ∧ move.place = some (afterBrace q.ifElse))

section Evaluating

variable {evaluation : Evaluation} {rest : List Task} {task : Task} {move : Move} {value : Bool}

theorem seen_enter {seen : Observation} {s : Stmt} : (enter seen s rest).seen = seen := by
  rw [enter]
  split
  · rfl
  · rfl

theorem place_enter {seen : Observation} {s : Stmt} :
    (enter seen s rest).place = if s.isCompound then some (afterBrace s) else none := by
  rw [enter]
  split
  · rfl
  · rfl

/-- A header that is seen has been evaluated to its end. -/
theorem ofHeader_eq_evaluated {s : Stmt} (seen : evaluation.ofHeader s = .evaluated q value) :
    s = q ∧ evaluation.finished = true := by
  rw [Evaluation.ofHeader] at seen
  split at seen
  · rename_i finished
    cases seen
    exact ⟨rfl, finished⟩
  · cases seen

theorem evaluates_evaluateIf {listed : Bool} {s : Stmt} (isIf : s.isIf = true)
    (guardsBlock : (guardedBody q).isCompound = true)
    (seen : (evaluateIf evaluation listed s rest).seen = .evaluated q value) :
    s = q ∧ Evaluates q evaluation (evaluateIf evaluation listed s rest) := by
  rw [evaluateIf] at seen ⊢
  cases taken : evaluation.taken with
  | true =>
      simp only [taken, if_true, seen_enter] at seen ⊢
      obtain ⟨rfl, finished⟩ := ofHeader_eq_evaluated seen
      have isThen : guardedBody s = s.ifThen := by rw [guardedBody, if_pos isIf]
      refine ⟨rfl, finished, fun _ => ?_, fun isFalse => ?_⟩
      · rw [place_enter, ← isThen, if_pos guardsBlock]
      · rw [taken] at isFalse
        cases isFalse
  | false =>
      simp only [taken, Bool.false_eq_true, if_false] at seen ⊢
      have notTaken : evaluation.taken ≠ true := by simp [taken]
      split at seen
      · rename_i noElse
        obtain ⟨rfl, finished⟩ := ofHeader_eq_evaluated seen
        rw [if_pos noElse]
        exact ⟨rfl, finished, fun isTrue => absurd isTrue notTaken, fun _ => Or.inl rfl⟩
      · rename_i hasElse
        rw [seen_enter] at seen
        obtain ⟨rfl, finished⟩ := ofHeader_eq_evaluated seen
        rw [if_neg hasElse]
        refine ⟨rfl, finished, fun isTrue => absurd isTrue notTaken, fun _ => ?_⟩
        rw [place_enter]
        split
        · rename_i isBlock
          exact Or.inr ⟨isIf, isBlock, rfl⟩
        · exact Or.inl rfl

theorem guardedBody_eq_loopBody {s : Stmt} (loop : isLoop s = true)
    (conditional : isConditional s = true) : loopBody s = guardedBody s := by
  cases s with
  | null => cases loop
  | node info cls children =>
      cases cls <;>
        first
        | rfl
        | exact absurd loop Bool.false_ne_true
        | exact absurd conditional Bool.false_ne_true

theorem evaluates_evaluateLoop {s : Stmt} (loop : isLoop s = true)
    (conditional : isConditional q = true) (guardsBlock : (guardedBody q).isCompound = true)
    (moved : evaluateLoop evaluation s rest = some move)
    (seen : move.seen = .evaluated q value) : s = q ∧ Evaluates q evaluation move := by
  rw [evaluateLoop] at moved
  cases taken : evaluation.taken with
  | true =>
      rw [if_pos taken] at moved
      cases moved
      rw [seen_enter] at seen
      obtain ⟨rfl, finished⟩ := ofHeader_eq_evaluated seen
      refine ⟨rfl, finished, fun _ => ?_, fun isFalse => ?_⟩
      · rw [place_enter, guardedBody_eq_loopBody loop conditional, if_pos guardsBlock]
      · rw [taken] at isFalse
        cases isFalse
  | false =>
      have notTaken : evaluation.taken ≠ true := by simp [taken]
      rw [if_neg notTaken] at moved
      split at moved
      · cases moved
      · cases moved
        obtain ⟨rfl, finished⟩ := ofHeader_eq_evaluated seen
        exact ⟨rfl, finished, fun isTrue => absurd isTrue notTaken, fun _ => Or.inl rfl⟩

/-- A course that evaluates the condition of `q` belongs to a task of `q`. -/
theorem evaluates_course {Body : Stmt} {course : Course} (conditional : isConditional q = true)
    (guardsBlock : (guardedBody q).isCompound = true)
    (led : task.course Body evaluation rest = some course)
    (seen : course.move.seen = .evaluated q value) :
    task.isOf q ∧ Evaluates q evaluation course.move := by
  cases courseOf_of_course led with
  | goes => cases seen
  | returns => cases seen
  | moves _ move moved =>
      cases moveOf_of_move moved with
      | runs => cases seen
      | block =>
          rw [Course.move, seen_enter] at seen
          cases seen
      | branches listed s isIf => exact evaluates_evaluateIf isIf guardsBlock seen
      | does =>
          rw [Course.move, seen_enter] at seen
          cases seen
      | loops listed s loop _ moved =>
          exact evaluates_evaluateLoop loop conditional guardsBlock moved seen
      | switches listed s =>
          rw [Course.move, evaluateSwitch] at seen
          dsimp only at seen
          split at seen
          · cases seen
          · cases seen
      | marks => cases seen
      | leaves => cases seen
      | again s loop _ moved =>
          exact evaluates_evaluateLoop loop conditional guardsBlock moved seen
      | behind => cases seen

end Evaluating

/-! ## What a condition leaves in the mask -/

/-- When the condition of `q` is what was evaluated last, the bit of the entry is
set. -/
def RecordsCondition (entry : StampEntry) (q : Stmt) (config : Config) : Prop :=
  ∀ value, config.trace.head? = some (.evaluated q value) →
    BitMask.test config.mask entry.id = true

/-- No stamp that clears the bit runs at the start of the `else` block. -/
def ElseKeeps (sm : SourceManager) (Body : Stmt) (entry : StampEntry) (q : Stmt)
    (inInterrupt hf : Bool) : Prop :=
  q.isIf = true → q.ifElse.isCompound = true →
    StampsRun sm Body inInterrupt hf (afterBrace q.ifElse) →
      ∀ u ∈ entry.unsets,
        findProperLocToInsertPairmaskStamp sm u Body ≠ some (afterBrace q.ifElse)

/-- The next step, if it evaluates the condition of `q` to its end, finds it true, the entry has
a bit and the stamps of the guarded block run; or the bit was set before and is not cleared. -/
def ComesOutTrue (sm : SourceManager) (Body : Stmt) (entry : StampEntry) (q : Stmt)
    (inInterrupt : Bool) (config : Config) (event : Event) : Prop :=
  let hf := config.hf || event.hf
  ∀ task rest, config.todo = task :: rest → task.isOf q → (event.finished || !hf) = true →
    (event.taken = true ∧ entry.id ≠ 0 ∧
        StampsRun sm Body inInterrupt hf (afterBrace (guardedBody q))) ∨
      (BitMask.test config.mask entry.id = true ∧
        (event.taken = true ∨ ElseKeeps sm Body entry q inInterrupt hf))

section Steps

variable {g : Function} {entry : StampEntry} {inInterrupt : Bool} {config : Config} {event : Event}

theorem id_ne_zero_of_test {mask : BitVec 64} (isSet : BitMask.test mask entry.id = true) :
    entry.id ≠ 0 := by
  intro zero
  rw [zero, BitMask.test_zero_id] at isSet
  cases isSet

/-- One step records the condition if it comes out true. -/
theorem recordsCondition_step (notClosing : g.isClosing = false) (distinct : g.body.Distinct)
    (begins : OnlyBodyBegins g.body) (entryMem : entry ∈ stampEntries (assignPairmaskId g))
    (nMem : n ∈ entry.sets) (inCondition : InCondition g.body n q) {next : Config}
    (comesOut : ComesOutTrue sm g.body entry q inInterrupt config event)
    (stepped : (instrumented sm (assignPairmaskId g) inInterrupt).step event config = some next) :
    RecordsCondition entry q next := by
  obtain ⟨task, rest, course, todo, led, rfl⟩ := step_eq_some_iff.mp stepped
  intro value head
  rw [trace_arrive, List.head?_cons, Option.some.injEq] at head
  obtain ⟨isOf, evaluates⟩ := evaluates_course inCondition.nearest.conditional
    inCondition.guardsBlock led head
  have nonnull : n.isNull = false := Stmt.isNull_eq_false
    (Stmt.ne_null_of_mem_nodes (Stmt.descendants_subset_nodes inCondition.nearest.above))
  have sets : entry.id ≠ 0 → ∀ mask, BitMask.test (BitMask.applyAll mask (updatesAt
      (insertPairmaskStamps sm (assignPairmaskId g)) (afterBrace (guardedBody q)))) entry.id = true :=
    fun nonzero mask => test_of_set entryMem nonzero nMem nonnull
      (findProperLoc_of_inCondition distinct begins inCondition) mask
  rcases comesOut task rest todo isOf evaluates.finished with
    ⟨taken, nonzero, stampsRun⟩ | ⟨isSet, comesOut⟩
  · rw [mask_arrive (f := assignPairmaskId g) notClosing (evaluates.whenTaken taken)]
    split
    · exact sets nonzero config.mask
    · rename_i noStamps
      exact absurd stampsRun noStamps
  · cases taken : event.taken with
    | true =>
        rw [mask_arrive (f := assignPairmaskId g) notClosing (evaluates.whenTaken taken)]
        split
        · exact sets (id_ne_zero_of_test isSet) config.mask
        · exact isSet
    | false =>
        have elseKeeps := comesOut.resolve_left (by simp [taken])
        rcases evaluates.whenNotTaken taken with nowhere | ⟨isIf, isBlock, atElse⟩
        · rw [mask_arrive_of_no_place nowhere]
          exact isSet
        · rw [mask_arrive (f := assignPairmaskId g) notClosing atElse]
          split
          · rename_i stampsRun
            exact test_of_test entryMem (elseKeeps isIf isBlock stampsRun) isSet
          · exact isSet

end Steps

/-- In every execution in which the condition, whenever it is evaluated, comes out
true (or the bit was set before), the bit of a statement in the condition is set
once the condition has been evaluated. -/
theorem instrumented_records_condition (sm : SourceManager) (g : Function) (inInterrupt : Bool)
    (entry : StampEntry) (n q : Stmt) (notClosing : g.isClosing = false)
    (distinct : g.body.Distinct) (begins : OnlyBodyBegins g.body)
    (entryMem : entry ∈ stampEntries (assignPairmaskId g)) (nMem : n ∈ entry.sets)
    (inCondition : InCondition g.body n q) (events : List Event) (final : Config)
    (meets : StepsMeet (instrumented sm (assignPairmaskId g) inInterrupt).step
      (ComesOutTrue sm g.body entry q inInterrupt) events (start g.body))
    (reached : run (instrumented sm (assignPairmaskId g) inInterrupt).step events (start g.body) =
      some final) :
    RecordsCondition entry q final := by
  refine run_invariant (fun _ _ _ _ comesOut stepped => ?_) ?_ meets reached
  · exact recordsCondition_step notClosing distinct begins entryMem nMem inCondition comesOut stepped
  · rintro value ⟨⟩

/-! ## A registration that succeeds -/

/-- The call in the condition. -/
def registerCall : Stmt := Build.callOf 2 14 2 "register_netdev" "d"

/-- `if (register_netdev(d)) { report(d); }` -/
def registerIf : Stmt :=
  Build.ifOf 1 10 registerCall (Build.block 5 34 2 60 4 [Build.callOf 6 40 3 "report" "d"])

/-- `{ if (register_netdev(d)) { report(d); } unregister_netdev(d); }` -/
def registerBody : Stmt :=
  Build.block 0 0 1 100 6 [registerIf, Build.callOf 9 70 5 "unregister_netdev" "d"]

/-- A function with this body: the last call undoes the one in the condition. -/
def registerFunction : Function where
  body := registerBody
  outerEHCs := [{
    stmt := Build.callOf 9 70 5 "unregister_netdev" "d"
    pairs := [registerCall] }]
  typeStr := "void"
  name := "probe"

/-- The owner of the first mask bit of that function. -/
def registerEntry : StampEntry where
  id := 1
  unsets := [Build.callOf 9 70 5 "unregister_netdev" "d"]
  sets := [registerCall]

theorem registerEntry_mem : registerEntry ∈ stampEntries (assignPairmaskId registerFunction) :=
  List.mem_cons_self

theorem inCondition_register : InCondition registerBody registerCall registerIf where
  nearest := by
    constructor
    · simp [registerBody, Build.block, Stmt.descendants, Stmt.children, registerIf, Build.ifOf]
    · rfl
    · simp [Stmt.descendants, Stmt.children, registerIf, Build.ifOf, registerCall, Build.callOf]
    · intro r below conditional
      have none : registerIf.descendants.all (fun n => !isConditional n) = true := rfl
      have notConditional := List.all_eq_true.mp none r below
      rw [conditional] at notConditional
      cases notConditional
  inside := ⟨registerCall, List.mem_cons_self, Stmt.self_mem_nodes (by simp [registerCall, Build.callOf]),
    by decide⟩
  guardsBlock := rfl

theorem onlyBodyBegins_register : OnlyBodyBegins registerBody := by
  have begins : ∀ n ∈ registerBody.descendants, n.info.beginLoc ≠ registerBody.info.beginLoc := by
    decide
  exact begins

/-- The registration fails: the bit is set. -/
theorem instrumented_records_condition_register :
    RecordsCondition registerEntry registerIf
      { todo := [.stmt true (Build.callOf 6 40 3 "report" "d"), .behind true registerIf,
          .stmt true (Build.callOf 9 70 5 "unregister_netdev" "d")]
        mask := 1
        trace := [.evaluated registerIf true, .passed] } :=
  instrumented_records_condition Build.shortTokens registerFunction false registerEntry registerCall
    registerIf rfl (by decide) onlyBodyBegins_register registerEntry_mem List.mem_cons_self
    inCondition_register [⟨brokenOff, false⟩, ⟨brokenOff, false⟩] _
    (StepsMeet.of_forall (by
      intro event eventMem config
      simp only [List.mem_cons, List.not_mem_nil, or_self, or_false] at eventMem
      subst eventMem
      intro task rest _ _ evaluated
      have notSet : config.hf = false := by simpa [brokenOff] using evaluated
      rw [notSet]
      exact Or.inl (by decide)) _)
    rfl

/-- The registration succeeds: the condition has been evaluated, and the bit is not
set. -/
theorem instrumented_misses_registration :
    InCondition registerBody registerCall registerIf ∧
      registerEntry ∈ stampEntries (assignPairmaskId registerFunction) ∧
      registerCall ∈ registerEntry.sets ∧
      ∃ events final,
        run (instrumented Build.shortTokens (assignPairmaskId registerFunction) false).step events
          (start registerBody) = some final ∧ ¬ RecordsCondition registerEntry registerIf final := by
  refine ⟨inCondition_register, registerEntry_mem, List.mem_cons_self, [{}, { taken := false }],
    { todo := [.behind true registerIf, .stmt true (Build.callOf 9 70 5 "unregister_netdev" "d")]
      trace := [.evaluated registerIf false, .passed] }, rfl, ?_⟩
  intro records
  exact absurd (records false rfl) (by decide)

end Hecaton.Pass2
