import Hecaton.Library.Aligned
import Hecaton.Pass2.Tracking
import Hecaton.Pass2.Unwinding

/-!
# What a cleanup undoes

The cleanup code of a function whose undo statements are expression statements runs
those whose bits are set, in its order and each once.  With what the mask records
about statements that stand alone, an activation that leaves through its cleanup
code has undone exactly what was pending, whatever functions it has called, and
whatever faults have occurred in them and in the undo statements, as long as the stamps
agree with the statements that the body runs.
-/

namespace Hecaton.Pass2

open Hecaton.Clang
open Hecaton.Library

/-! ## The undo statements that run -/

/-- The undo statements of the function are expression statements. -/
def Bowknot.Simple (code : Bowknot) : Prop := ∀ entry ∈ code.entries, entry.stmt.isExpression = true

/-- Behind the label the entries before those that are left have been tested in order, and the
statements of those whose bits are set have run. -/
def Frame.Exact (frame : Frame) : Prop :=
  ∀ doing left, frame.phase = .undo doing left → doing = [] ∧
    ∃ before, frame.code.cleanup = .undo (before ++ left) ∧
      frame.undone = before.filter fun entry => BitMask.test frame.config.mask entry.pairmaskId

section Steps

variable {m : Machine} {kernel : Kernel} {frame : Frame} {outcome : Outcome Kernel Frame}

theorem exact_of_body (inBody : frame.phase = .body) : frame.Exact := by
  intro doing left phase
  rw [inBody] at phase
  cases phase

theorem exact_of_undo {left : List CleanupEntry} (phase : frame.phase = .undo [] left)
    {before : List CleanupEntry} (split : frame.code.cleanup = .undo (before ++ left))
    (undone : frame.undone =
      before.filter fun entry => BitMask.test frame.config.mask entry.pairmaskId) :
    frame.Exact := by
  intro doing left' phase'
  rw [phase] at phase'
  cases phase'
  exact ⟨rfl, before, split, undone⟩

/-- At the label nothing has been undone. -/
theorem exact_of_begins {entries : List CleanupEntry} (cleanup : frame.code.cleanup = .undo entries)
    {next : Frame} (sameCode : next.code = frame.code) (phase : next.phase = .undo [] entries)
    (undone : next.undone = []) : next.Exact := by
  have split : next.code.cleanup = .undo ([] ++ entries) := by
    rw [sameCode, cleanup]
    rfl
  exact exact_of_undo phase split undone

theorem undone_of_cleaned (exact_ : frame.Exact) (cleaned : frame.cleaned) :
    ∃ entries, frame.code.cleanup = .undo entries ∧
      frame.undone =
        entries.filter fun entry => BitMask.test frame.config.mask entry.pairmaskId := by
  obtain ⟨_, before, split, undone⟩ := exact_ [] [] cleaned
  rw [List.append_nil] at split
  exact ⟨before, split, undone⟩

/-- What an activation of a simple function does behind its label: it tests the next entry, or
leaves. -/
theorem proceedUndo_of_simple (simple : frame.code.Simple) (exact_ : frame.Exact)
    {doing : List Task} {left : List CleanupEntry} (phase : frame.phase = .undo doing left)
    {evaluation : Evaluation}
    (proceeded : m.proceedUndo evaluation kernel frame doing left = some outcome) :
    outcome = ({ kernel with hf := true } : Kernel).leave frame ∨
      ∃ next, outcome = .stays kernel next ∧ next.code = frame.code ∧
        next.config = frame.config ∧ next.Exact := by
  obtain ⟨rfl, before, split, undone⟩ := exact_ doing left phase
  cases left with
  | nil =>
      cases proceeded
      exact Or.inl rfl
  | cons entry left =>
      have splitNext : frame.code.cleanup = .undo ((before ++ [entry]) ++ left) := by
        rw [split, List.append_assoc]
        rfl
      have isExpression : entry.stmt.isExpression = true := by
        apply simple entry
        rw [Bowknot.entries, split]
        exact List.mem_append_cons_self
      rw [Machine.proceedUndo] at proceeded
      right
      split at proceeded
      · rename_i isSet
        cases proceeded
        refine ⟨_, rfl, rfl, rfl, exact_of_undo rfl splitNext ?_⟩
        simp [undone, isSet]
      · rename_i notSet
        cases proceeded
        refine ⟨_, rfl, rfl, rfl, exact_of_undo rfl splitNext ?_⟩
        simp [undone, notSet]

end Steps

/-- Functions have been entered, and nothing has happened yet. -/
structure Entered (state : CallStack Kernel Frame) : Prop where
  onStack : ∀ frame ∈ state.stack, ∃ code : PlacedBowknot, frame = code.enter
  nothingLeft : state.shared.left = []

/-! ## What is pending -/

/-- The function records the outer EHC: its statements stand alone, and the undo statements of
the function are expression statements. -/
structure Recoverable (sm : SourceManager) (g : Function) (e : OuterEHC) : Prop where
  isOuter : e ∈ (assignPairmaskId g).outerEHCs
  few : entryCount g ≤ 64
  notClosing : g.isClosing = false
  standAlone : StandAlone sm g.body e
  simple : (bowknot sm (assignPairmaskId g)).Simple

/-- If the action goes on in the body of the function, the stamps of the outer EHC agree with the
statement that it runs. -/
def RecordsAction (sm : SourceManager) (g : Function) (e : OuterEHC) (m : Machine)
    (state : CallStack Kernel Frame) (action : Action) : Prop :=
  ∀ top below evaluation, state.stack = top :: below → action = .proceed evaluation →
    top.code.toBowknot = bowknot sm (assignPairmaskId g) → top.phase = .body →
      RecordsStep sm g.body e m.inInterrupt { top.config with hf := false }
        { evaluation with hf := state.shared.hf }

section Tracking

variable {sm : SourceManager} {g : Function} {e : OuterEHC} {m : Machine} {kernel : Kernel}
  {frame : Frame}

/-- What an activation of the function keeps about the outer EHC. -/
structure KeepsRecord (sm : SourceManager) (g : Function) (e : OuterEHC) (frame : Frame) : Prop where
  tracked : Tracked sm e frame.config
  tasks : ∀ task ∈ frame.config.todo, TaskIn g.body task
  undone : frame.Exact

theorem keepsRecord_enter {code : PlacedBowknot}
    (isFunction : code.toBowknot = bowknot sm (assignPairmaskId g)) :
    KeepsRecord sm g e code.enter := by
  have started := @trackedState_start sm g e
  have sameBody : code.body = g.body := by
    rw [isFunction]
    rfl
  constructor
  · rw [PlacedBowknot.enter, sameBody]
    exact started.tracked
  · rw [PlacedBowknot.enter, sameBody]
    exact started.tasks
  · exact exact_of_body rfl

theorem keepsRecord_reachLabel {outcome : Outcome Kernel Frame} (inBody : frame.phase = .body)
    (tracked : Tracked sm e frame.config)
    (tasks : ∀ task ∈ frame.config.todo, TaskIn g.body task)
    (reached : kernel.reachLabel frame = some outcome) : outcome.All (KeepsRecord sm g e) := by
  rcases reachLabel_cases reached with rfl | ⟨entries, cleanup, rfl⟩
  · exact ⟨tracked, tasks, exact_of_body inBody⟩
  · exact ⟨tracked, tasks, exact_of_begins cleanup rfl rfl rfl⟩

theorem keepsRecord_leaveBody {outcome : Outcome Kernel Frame} (inBody : frame.phase = .body)
    (records : KeepsRecord sm g e frame) {at_ : Option Stmt}
    (left : m.leaveBody kernel frame at_ = some outcome) : outcome.All (KeepsRecord sm g e) := by
  rw [Machine.leaveBody] at left
  split at left
  · exact keepsRecord_reachLabel inBody records.tracked records.tasks left
  · cases left
    trivial

/-- Where a step of the body arrives it keeps the bit exact; the flag that the frame carries
itself is not looked at. -/
theorem tracked_arriveAt (recoverable : Recoverable sm g e)
    (code : frame.code.toBowknot = bowknot sm (assignPairmaskId g))
    (tracked : Tracked sm e frame.config) {evaluation : Evaluation} {task : Task}
    {rest : List Task} (taskIn : TaskIn g.body task) {move : Move}
    (led : task.course g.body evaluation rest = some (.moves move))
    (agree : ∀ s, task = .stmt true s →
      StampsAgree sm g.body e m.inInterrupt kernel.hf frame.config.trace evaluation s) :
    Tracked sm e (m.arriveAt kernel frame move) := by
  have arrived := tracked_course recoverable.standAlone recoverable.isOuter recoverable.few
    recoverable.notClosing tracked taskIn led agree
  rw [Machine.arriveAt, code]
  exact arrived

/-- In its body an activation keeps its records. -/
theorem keepsRecord_proceedBody (recoverable : Recoverable sm g e)
    (code : frame.code.toBowknot = bowknot sm (assignPairmaskId g)) (inBody : frame.phase = .body)
    (records : KeepsRecord sm g e frame) {evaluation : Evaluation}
    (agree : RecordsStep sm g.body e m.inInterrupt { frame.config with hf := false }
      { evaluation with hf := kernel.hf })
    {outcome : Outcome Kernel Frame}
    (proceeded : m.proceedBody evaluation kernel frame = some outcome) :
    outcome.All (KeepsRecord sm g e) := by
  rw [Machine.proceedBody] at proceeded
  split at proceeded
  · exact keepsRecord_leaveBody inBody records proceeded
  · rename_i task rest todo
    obtain ⟨course, led, proceeded⟩ := Option.bind_eq_some_iff.mp proceeded
    have taskIn := records.tasks task (todo ▸ List.mem_cons_self)
    have restIn : ∀ other ∈ rest, TaskIn g.body other := fun other otherMem =>
      records.tasks other (todo ▸ List.mem_cons_of_mem _ otherMem)
    have sameBody : frame.code.body = g.body := by
      rw [code]
      rfl
    rw [sameBody] at led
    obtain ⟨moves, goes⟩ := taskIn_course taskIn restIn led
    cases course with
    | moves move =>
        have tracked : Tracked sm e (m.arriveAt kernel frame move) := by
          apply tracked_arriveAt recoverable code records.tracked taskIn led
          rintro s rfl
          exact agree s rest todo taskIn
        have tasks : ∀ other ∈ (m.arriveAt kernel frame move).todo, TaskIn g.body other :=
          fun other otherMem => moves move rfl other (mem_todo_arriveAt otherMem)
        have arrivedInBody : ({ frame with config := m.arriveAt kernel frame move } :
            Frame).phase = .body := inBody
        dsimp only at proceeded
        split at proceeded
        · exact keepsRecord_reachLabel arrivedInBody tracked tasks proceeded
        · cases proceeded
          exact ⟨tracked, tasks, exact_of_body inBody⟩
    | goes todo =>
        cases proceeded
        exact ⟨records.tracked, goes todo rfl, exact_of_body rfl⟩
    | returns s => exact keepsRecord_leaveBody inBody records proceeded

/-- Every action whose stamps agree keeps the records. -/
theorem keepsRecord_resume (recoverable : Recoverable sm g e) {action : Action}
    {outcome : Outcome Kernel Frame} {state : CallStack Kernel Frame} {below : List Frame}
    (split : state.stack = frame :: below) (agree : RecordsAction sm g e m state action)
    (records : frame.code.toBowknot = bowknot sm (assignPairmaskId g) → KeepsRecord sm g e frame)
    (resumed : m.resume action state.shared frame = some outcome) :
    outcome.All fun frame =>
      frame.code.toBowknot = bowknot sm (assignPairmaskId g) → KeepsRecord sm g e frame := by
  have weaken : outcome.All (KeepsRecord sm g e) → outcome.All fun frame =>
      frame.code.toBowknot = bowknot sm (assignPairmaskId g) → KeepsRecord sm g e frame := by
    intro all
    cases outcome with
    | stays => exact fun _ => all
    | calls => exact ⟨fun _ => all.1, fun _ => all.2⟩
    | leaves => trivial
  -- An activation of another function stays one.
  have otherCode : frame.code.toBowknot ≠ bowknot sm (assignPairmaskId g) → ∀ next : Frame,
      next.code = frame.code → next.code.toBowknot = bowknot sm (assignPairmaskId g) →
        KeepsRecord sm g e next := by
    intro other next sameCode isFunction
    exact absurd (sameCode ▸ isFunction) other
  cases (Machine.resume_eq_some_iff.mp resumed).2 with
  | faults => exact records
  | calls callee => exact ⟨records, keepsRecord_enter⟩
  | inBody evaluation _ inBody proceeded =>
      by_cases code : frame.code.toBowknot = bowknot sm (assignPairmaskId g)
      · exact weaken (keepsRecord_proceedBody recoverable code inBody (records code)
          (agree frame below evaluation split rfl code inBody) proceeded)
      · rcases proceedBody_cases inBody proceeded with rfl | ⟨next, rfl, follows, _⟩ | reaches
        · trivial
        · exact otherCode code next follows.code
        · cases reaches with
          | restarts next follows => exact otherCode code next follows.code
          | begins next follows => exact otherCode code next follows.code
  | behindLabel evaluation _ doing left phase proceeded =>
      by_cases code : frame.code.toBowknot = bowknot sm (assignPairmaskId g)
      · have own := records code
        have simple : frame.code.Simple := code ▸ recoverable.simple
        rcases proceedUndo_of_simple simple own.undone phase proceeded with
          rfl | ⟨next, rfl, _, sameConfig, undone⟩
        · trivial
        · exact fun _ => ⟨sameConfig ▸ own.tracked, sameConfig ▸ own.tasks, undone⟩
      · rcases left_of_proceedUndo proceeded with ⟨after, rfl, _⟩ | ⟨after, next, rfl, sameCode, _⟩
        · trivial
        · exact otherCode code next sameCode

/-- In every run whose stamps agree the activations that have left have kept their records. -/
theorem keepsRecord_of_run (recoverable : Recoverable sm g e) {actions : List Action}
    {source target : CallStack Kernel Frame} (entered : Entered source)
    (meets : StepsMeet m.step (RecordsAction sm g e m) actions source)
    (reached : run m.step actions source = some target) {done : Frame}
    (hasLeft : done ∈ target.shared.left)
    (isActivation : done.code.toBowknot = bowknot sm (assignPairmaskId g)) :
    KeepsRecord sm g e done := by
  have initial : ∀ frame ∈ source.stack,
      frame.code.toBowknot = bowknot sm (assignPairmaskId g) → KeepsRecord sm g e frame := by
    intro frame frameMem isFunction
    obtain ⟨code, rfl⟩ := entered.onStack frame frameMem
    exact keepsRecord_enter isFunction
  have kept := frames_of_run
    (fun _ _ _ _ _ split agree records resumed =>
      keepsRecord_resume recoverable split agree records resumed)
    ⟨initial, by simp [entered.nothingLeft]⟩ meets reached
  exact kept.2 done hasLeft isActivation

/-- The activation has run the undo statement of the outer EHC exactly if its effect was
pending. -/
def Frame.Undid (sm : SourceManager) (g : Function) (e : OuterEHC) (index : Nat) (done : Frame) :
    Prop :=
  ∃ entry ∈ cleanupEntries (assignPairmaskId g), entry.source = .outer index ∧
    entry.stmt = e.stmt ∧ (entry ∈ done.undone ↔ Pending sm e done.config.trace)

/-- An activation with these records that has left at the end has run undo statements in the order
of the cleanup code, each at most once, and that of the outer EHC exactly if its effect was
pending. -/
theorem KeepsRecord.undoes {index : Nat} (eAt : (assignPairmaskId g).outerEHCs[index]? = some e)
    (records : KeepsRecord sm g e frame)
    (isActivation : frame.code.toBowknot = bowknot sm (assignPairmaskId g))
    (cleaned : frame.cleaned) :
    frame.undone.Sublist (cleanupEntries (assignPairmaskId g)) ∧
      (frame.undone.map CleanupEntry.source).Nodup ∧ frame.Undid sm g e index := by
  obtain ⟨entries, cleanup, undone⟩ := undone_of_cleaned records.undone cleaned
  have ownEntries : entries = cleanupEntries (assignPairmaskId g) := by
    rw [isActivation] at cleanup
    exact eq_of_cleanupOf_eq_undo cleanup
  subst ownEntries
  have inOrder : frame.undone.Sublist (cleanupEntries (assignPairmaskId g)) := by
    rw [undone]
    exact List.filter_sublist
  refine ⟨inOrder, (cleanupEntries_nodup _).sublist (inOrder.map _), ?_⟩
  have isEntry : ⟨.outer index, e.stmt, e.pairmaskId⟩ ∈ cleanupEntries (assignPairmaskId g) :=
    List.mem_append_left _ (mem_outerEntries.mpr ⟨index, e, eAt, by simp⟩)
  refine ⟨_, isEntry, rfl, rfl, ?_⟩
  rw [undone, List.mem_filter, and_iff_right isEntry]
  exact records.tracked

end Tracking

section Completion

variable {m : Machine}

/-- The activation on top goes on with these evaluations. -/
def goOnWith (evaluations : List Evaluation) : List Action := evaluations.map .proceed

/-- The entries that are left take a step each, and one more ends the cleanup code. -/
theorem run_entries {kernel : Kernel} (notRestarted : kernel.restarted = false)
    {left : List CleanupEntry} (simple : ∀ entry ∈ left, entry.stmt.isExpression = true)
    {frame : Frame} (phase : frame.phase = .undo [] left) (rest : List Frame)
    {evaluations : List Evaluation} (steps : evaluations.length = left.length + 1) :
    ∃ done : Frame, CleanedUp frame done ∧
      run m.step (goOnWith evaluations) ⟨kernel, frame :: rest⟩ =
        some ⟨{ kernel with hf := true, left := done :: kernel.left }, rest⟩ := by
  have proceeds : ∀ (frame : Frame) doing left evaluation outcome,
      frame.phase = .undo doing left →
      m.proceedUndo evaluation kernel frame doing left = some outcome →
      m.step (.proceed evaluation) ⟨kernel, frame :: rest⟩ = some (outcome.onto rest) :=
    fun frame doing left evaluation outcome phase proceeded => Machine.step_eq_some_iff.mpr
      ⟨frame, rest, outcome, rfl, notRestarted, .behindLabel _ _ doing left phase proceeded, rfl⟩
  induction left generalizing frame evaluations with
  | nil =>
      obtain ⟨evaluation, rfl⟩ := List.length_eq_one_iff.mp steps
      refine ⟨frame, ⟨⟨rfl, List.suffix_refl _⟩, phase⟩, ?_⟩
      rw [goOnWith, List.map_singleton, run, proceeds frame [] [] evaluation _ phase rfl]
      rfl
  | cons entry left ih =>
      obtain ⟨evaluation, others, rfl⟩ := List.exists_cons_of_length_eq_add_one steps
      have tested : ∃ next : Frame,
          m.proceedUndo evaluation kernel frame [] (entry :: left) = some (.stays kernel next) ∧
          Follows frame next ∧ next.phase = .undo [] left := by
        have isExpression := simple entry List.mem_cons_self
        rw [Machine.proceedUndo, if_pos isExpression]
        split
        · exact ⟨_, rfl, ⟨rfl, List.suffix_refl _⟩, rfl⟩
        · exact ⟨_, rfl, ⟨rfl, List.suffix_refl _⟩, rfl⟩
      obtain ⟨next, stepped, follows, nextPhase⟩ := tested
      have fewer : others.length = left.length + 1 := by simpa using steps
      obtain ⟨done, cleanedUp, ran⟩ :=
        ih (fun other otherMem => simple other (List.mem_cons_of_mem _ otherMem)) nextPhase fewer
      refine ⟨done, ⟨follows.trans cleanedUp.toFollows, cleanedUp.cleaned⟩, ?_⟩
      rw [goOnWith, List.map_cons, run, proceeds frame _ _ evaluation _ phase stepped]
      exact ran

/-- The activation can go on with its statement, and its cleanup code undoes expression
statements. -/
structure Frame.Ready (frame : Frame) : Prop where
  resumable : ∃ task rest, frame.config.todo = task :: rest ∧ ∀ evaluation,
    ∃ course, task.course frame.code.body evaluation rest = some course
  undoes : ∃ entries, frame.code.cleanup = .undo entries
  simple : frame.code.Simple

/-- A covered activation jumps in its first step. -/
theorem jump_of_covered (notInInterrupt : m.inInterrupt = false) {kernel : Kernel}
    (set : kernel.hf = true) (notRestarted : kernel.restarted = false) {frame : Frame}
    (covered : frame.Covered m) (ready : frame.Ready) (evaluation : Evaluation)
    (rest : List Frame) :
    ∃ next : Frame, Follows frame next ∧ next.phase = .undo [] frame.code.entries ∧
      m.step (.proceed evaluation) ⟨kernel, frame :: rest⟩ =
        some ⟨{ kernel with hf := false }, next :: rest⟩ := by
  obtain ⟨task, others, todo, leads⟩ := ready.resumable
  obtain ⟨course, led⟩ := leads (evaluation.under kernel.hf)
  obtain ⟨entries, cleanup⟩ := ready.undoes
  have ownEntries : frame.code.entries = entries := by rw [Bowknot.entries, cleanup]
  have proceeds : ∃ next : Frame,
      m.proceedBody evaluation kernel frame = some (.stays { kernel with hf := false } next) ∧
      Follows frame next ∧ next.phase = .undo [] frame.code.entries := by
    obtain ⟨_, task', others', todo', jumps⟩ := covered
    rw [todo] at todo'
    cases todo'
    obtain ⟨move, rfl, jump⟩ := jumps _ course led
    have jumped : (m.arriveAt kernel frame move).jumped = true :=
      jumped_arriveAt notInInterrupt set jump
    rw [Machine.proceedBody, todo, ownEntries]
    simp only [led, Option.bind_some, jumped, if_true, Kernel.reachLabel, cleanup]
    exact ⟨_, rfl, ⟨rfl, List.suffix_cons _ _⟩, rfl⟩
  obtain ⟨next, proceeded, follows, phase⟩ := proceeds
  refine ⟨next, follows, phase, Machine.step_eq_some_iff.mpr ?_⟩
  exact ⟨frame, rest, _, rfl, notRestarted, .inBody _ _ covered.1 proceeded, rfl⟩

/-- The steps that the activations take to leave: a jump, one for each entry, and the end. -/
def recoverySteps (frames : List Frame) : Nat :=
  (frames.map fun frame => frame.code.entries.length + 2).sum

/-- A covered activation takes a jump, a step for each entry and one more to leave. -/
theorem run_recovers_one (notInInterrupt : m.inInterrupt = false) {kernel : Kernel}
    (set : kernel.hf = true) (notRestarted : kernel.restarted = false) {frame : Frame}
    (covered : frame.Covered m) (ready : frame.Ready) (rest : List Frame)
    {evaluations : List Evaluation} (steps : evaluations.length = frame.code.entries.length + 2) :
    ∃ done : Frame, CleanedUp frame done ∧
      run m.step (goOnWith evaluations) ⟨kernel, frame :: rest⟩ =
        some ⟨{ kernel with hf := true, left := done :: kernel.left }, rest⟩ := by
  obtain ⟨evaluation, others, rfl⟩ := List.exists_cons_of_length_eq_add_one steps
  obtain ⟨next, follows, phase, jumped⟩ :=
    jump_of_covered notInInterrupt set notRestarted covered ready evaluation rest
  have goesOn : ({ kernel with hf := false } : Kernel).restarted = false := notRestarted
  have fewer : others.length = frame.code.entries.length + 1 := by simpa using steps
  obtain ⟨done, cleanedUp, ran⟩ := @run_entries m _ goesOn _ ready.simple _ phase rest _ fewer
  refine ⟨done, ⟨follows.trans cleanedUp.toFollows, cleanedUp.cleaned⟩, ?_⟩
  rw [goOnWith, List.map_cons, run, jumped]
  exact ran

theorem run_recovers_all (notInInterrupt : m.inInterrupt = false) {kernel : Kernel}
    (set : kernel.hf = true) (notRestarted : kernel.restarted = false) {frames : List Frame}
    (covered : ∀ frame ∈ frames, frame.Covered m) (ready : ∀ frame ∈ frames, frame.Ready)
    (rest : List Frame) {evaluations : List Evaluation}
    (steps : evaluations.length = recoverySteps frames) :
    ∃ dones, List.Forall₂ CleanedUp frames dones ∧
      run m.step (goOnWith evaluations) ⟨kernel, frames ++ rest⟩ =
        some ⟨{ kernel with hf := true, left := dones.reverse ++ kernel.left }, rest⟩ := by
  induction frames generalizing kernel evaluations with
  | nil =>
      obtain rfl := List.eq_nil_of_length_eq_zero steps
      refine ⟨[], .nil, ?_⟩
      rw [← set]
      rfl
  | cons frame frames ih =>
      rw [recoverySteps, List.map_cons, List.sum_cons] at steps
      obtain ⟨first, second, rfl, firstSteps⟩ : ∃ first second, evaluations = first ++ second ∧
          first.length = frame.code.entries.length + 2 := by
        refine ⟨evaluations.take (frame.code.entries.length + 2),
          evaluations.drop (frame.code.entries.length + 2), (List.take_append_drop _ _).symm, ?_⟩
        rw [List.length_take, steps]
        exact Nat.min_eq_left (Nat.le_add_right _ _)
      have secondSteps : second.length = recoverySteps frames := by
        rw [List.length_append, firstSteps] at steps
        exact Nat.add_left_cancel steps
      obtain ⟨done, cleanedUp, own⟩ := run_recovers_one notInInterrupt set notRestarted
        (covered frame List.mem_cons_self) (ready frame List.mem_cons_self) (frames ++ rest)
        firstSteps
      obtain ⟨dones, cleanedUps, ranBelow⟩ :=
        @ih { kernel with hf := true, left := done :: kernel.left } rfl notRestarted
          (fun other otherMem => covered other (List.mem_cons_of_mem _ otherMem))
          (fun other otherMem => ready other (List.mem_cons_of_mem _ otherMem)) _ secondSteps
      refine ⟨done :: dones, .cons cleanedUp cleanedUps, ?_⟩
      rw [goOnWith, List.map_append, run_append, List.cons_append,
        show run m.step (first.map .proceed) ⟨kernel, frame :: (frames ++ rest)⟩ = _ from own]
      change run m.step (goOnWith second) _ = _
      rw [ranBelow, List.reverse_cons, List.append_assoc]
      rfl

end Completion

/-! ## A fault behind the lock -/

/-- The caller calls the function with the lock, a fault happens behind the lock, and both leave. -/
def faultyActions : List Action := lockedActions ++ .fault :: goOn 5

theorem entered_caller : Entered callerEntered where
  onStack := by
    intro frame frameMem
    exact ⟨callerBowknot, List.mem_singleton.mp frameMem⟩
  nothingLeft := rfl

theorem simple_probe : probeBowknot.Simple := by
  have all : (probeBowknot.entries.all fun entry => entry.stmt.isExpression) = true := rfl
  exact fun entry entryMem => List.all_eq_true.mp all entry entryMem

theorem recoverable_probe : Recoverable Build.shortTokens (lockedFunction 3) (unlockEhc 3) where
  isOuter := List.mem_singleton_self _
  few := by decide
  notClosing := rfl
  standAlone := standAlone_locked 3
  simple := simple_probe

/-- What runs while the flag is set is broken off, so that the stamps agree. -/
theorem recordsAction_probe {actions : List Action}
    (allBroken : ∀ evaluation, .proceed evaluation ∈ actions → evaluation = brokenOff)
    (source : CallStack Kernel Frame) :
    StepsMeet taskMachine.step
      (RecordsAction Build.shortTokens (lockedFunction 3) (unlockEhc 3) taskMachine) actions
      source := by
  apply StepsMeet.of_forall
  rintro action actionMem state top below evaluation _ rfl _ _
  exact recordsStep_locked (allBroken evaluation actionMem) _

theorem brokenOff_of_mem_faulty {evaluation : Evaluation}
    (member : .proceed evaluation ∈ faultyActions) : evaluation = brokenOff := by
  simpa [faultyActions, lockedActions, goOn] using member

theorem ready_of_call {code : PlacedBowknot} {config : Config} {s : Stmt} {rest : List Task}
    (todo : config.todo = .stmt true s :: rest) (isCall : s.isCall = true)
    (undoes : ∃ entries, code.cleanup = .undo entries) (simple : code.Simple) :
    ({ code := code, config := config } : Frame).Ready where
  resumable := ⟨_, rest, todo, fun _ => ⟨_, course_of_run (isRun_of_isCall isCall)⟩⟩
  undoes := undoes
  simple := simple

end Hecaton.Pass2
