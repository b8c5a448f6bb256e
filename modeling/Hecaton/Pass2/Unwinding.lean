import Hecaton.Pass2.Activation

/-!
# How a fault unwinds the activations

Once `current->hf` is set it stays set or some activation is behind its label, and
that activation sets the flag again when it leaves.  So every activation that was
suspended when the flag was set finds it set when control comes back, and jumps
behind the statement that it was about, if there is an `hgoto`.  This is so as long
as no undo statement leaves the cleanup code by a `return` or a `goto` of its own.
-/

namespace Hecaton.Pass2

open Hecaton.Clang
open Hecaton.Library

/-! ## Cleanup code that is left at its end -/

/-- Nothing in the statement leaves it for another part of the function. -/
def IsStraight (s : Stmt) : Prop := ∀ n ∈ s.nodes, n.isReturn = false ∧ n.isGoto = false

/-- No undo statement of the function leaves the cleanup code. -/
def Bowknot.Straight (code : Bowknot) : Prop := ∀ entry ∈ code.entries, IsStraight entry.stmt

/-- The cleanup code of the activation is left at its end only: what is left of the undo
statement at work lies inside one that nothing leaves. -/
structure Frame.Straight (frame : Frame) : Prop where
  code : frame.code.Straight
  left : ∀ doing left, frame.phase = .undo doing left → ∀ entry ∈ left, IsStraight entry.stmt
  doing : ∀ doing left, frame.phase = .undo doing left →
    ∃ root, IsStraight root ∧ ∀ task ∈ doing, TaskIn root task

/-- Nothing is left of an undo statement. -/
theorem exists_straight_nil :
    ∃ root, IsStraight root ∧ ∀ task, task ∈ ([] : List Task) → TaskIn root task :=
  ⟨.null, by simp [IsStraight], by simp⟩

theorem straight_of_body {frame : Frame} (code : frame.code.Straight)
    (inBody : frame.phase = .body) : frame.Straight where
  code := code
  left := by simp [inBody]
  doing := by simp [inBody]

theorem straight_of_undo {frame : Frame} {doing : List Task} {left : List CleanupEntry}
    (code : frame.code.Straight) (phase : frame.phase = .undo doing left)
    (leftStraight : ∀ entry ∈ left, IsStraight entry.stmt)
    (doingStraight : ∃ root, IsStraight root ∧ ∀ task ∈ doing, TaskIn root task) :
    frame.Straight where
  code := code
  left := by
    intro doing' left' phase'
    rw [phase] at phase'
    cases phase'
    exact leftStraight
  doing := by
    intro doing' left' phase'
    rw [phase] at phase'
    cases phase'
    exact doingStraight

/-- Inside an undo statement that nothing leaves a task leads to tasks inside it. -/
theorem course_of_straight {Body root : Stmt} {evaluation : Evaluation} {task : Task}
    {rest : List Task} (straight : IsStraight root)
    (tasks : ∀ other ∈ task :: rest, TaskIn root other) {course : Course}
    (led : task.course Body evaluation rest = some course) :
    ∃ move, course = .moves move ∧ ∀ other ∈ move.todo, TaskIn root other := by
  have taskIn := tasks task List.mem_cons_self
  have restIn : ∀ other ∈ rest, TaskIn root other := fun other otherMem =>
    tasks other (List.mem_cons_of_mem _ otherMem)
  cases courseOf_of_course led with
  | moves _ move moved => exact ⟨move, rfl, taskIn_move taskIn restIn moved⟩
  | goes listed s isGoto label todo found =>
      have member := StmtAt.mem_nodes taskIn (ne_null_of_isa isGoto)
      rw [(straight s member).2] at isGoto
      cases isGoto
  | returns listed s isReturn =>
      have member := StmtAt.mem_nodes taskIn (ne_null_of_isa isReturn)
      rw [(straight s member).1] at isReturn
      cases isReturn

/-! ## What an activation behind its label can do -/

section Steps

variable {m : Machine} {kernel : Kernel} {frame : Frame} {outcome : Outcome Kernel Frame}

/-- An activation that reaches its label restarts the kernel, or begins its cleanup. -/
theorem reachLabel_cases (reached : kernel.reachLabel frame = some outcome) :
    outcome = .stays { kernel with restarted := true } frame ∨
      ∃ entries, frame.code.cleanup = .undo entries ∧
        outcome = .stays { kernel with hf := false }
          { frame with phase := .undo [] entries, undone := [] } := by
  rw [Kernel.reachLabel] at reached
  split at reached
  · cases reached
  · cases reached
    exact Or.inl rfl
  · rename_i entries cleanup
    cases reached
    exact Or.inr ⟨entries, cleanup, rfl⟩

/-- At the beginning of the cleanup code. -/
theorem straight_undo_entries {code : PlacedBowknot} (straight : code.Straight)
    {entries : List CleanupEntry} (cleanup : code.cleanup = .undo entries)
    {next : Frame} (sameCode : next.code = code) (phase : next.phase = .undo [] entries) :
    next.Straight := by
  refine straight_of_undo (sameCode ▸ straight) phase ?_ exists_straight_nil
  intro entry entryMem
  apply straight entry
  rw [Bowknot.entries, cleanup]
  exact entryMem

/-- The activation goes on with the same function, and does not forget what it has done. -/
structure Follows (frame next : Frame) : Prop where
  code : next.code = frame.code
  trace : frame.config.trace <:+ next.config.trace

/-- The activation goes on behind its label. -/
structure CleansOn (frame next : Frame) : Prop extends Follows frame next where
  cleans : next.cleans = true
  straight : next.Straight

theorem cleans_of_phase {doing : List Task} {left : List CleanupEntry}
    (phase : frame.phase = .undo doing left) : frame.cleans = true := by
  rw [Frame.cleans, phase]

theorem mem_todo_arriveAt {move : Move} {other : Task}
    (member : other ∈ (m.arriveAt kernel frame move).todo) : other ∈ move.todo :=
  mem_todo_arrive member

/-- An activation that is left behind its label only at the end goes on there, or leaves at
the end and sets the flag. -/
theorem proceedUndo_cases (straight : frame.Straight) {doing : List Task}
    {left : List CleanupEntry} (phase : frame.phase = .undo doing left) {evaluation : Evaluation}
    (proceeded : m.proceedUndo evaluation kernel frame doing left = some outcome) :
    (frame.cleaned ∧ outcome = ({ kernel with hf := true } : Kernel).leave frame) ∨
      ∃ after next, outcome = .stays after next ∧ after.left = kernel.left ∧
        CleansOn frame next := by
  have leftStraight := straight.left doing left phase
  have doingStraight := straight.doing doing left phase
  cases doing with
  | nil =>
      cases left with
      | nil =>
          cases proceeded
          exact Or.inl ⟨phase, rfl⟩
      | cons entry left =>
          have restStraight : ∀ other ∈ left, IsStraight other.stmt := fun other otherMem =>
            leftStraight other (List.mem_cons_of_mem _ otherMem)
          rw [Machine.proceedUndo] at proceeded
          split at proceeded
          · cases proceeded
            refine Or.inr ⟨_, _, rfl, rfl, ⟨rfl, List.suffix_refl _⟩, rfl, ?_⟩
            refine straight_of_undo straight.code rfl restStraight ?_
            refine ⟨entry.stmt, leftStraight entry List.mem_cons_self, ?_⟩
            intro task taskMem
            split at taskMem
            · exact absurd taskMem List.not_mem_nil
            · rw [List.mem_singleton.mp taskMem]
              exact .root
          · cases proceeded
            refine Or.inr ⟨_, _, rfl, rfl, ⟨rfl, List.suffix_refl _⟩, rfl, ?_⟩
            exact straight_of_undo straight.code rfl restStraight exists_straight_nil
  | cons task rest =>
      rw [Machine.proceedUndo] at proceeded
      obtain ⟨course, led, proceeded⟩ := Option.bind_eq_some_iff.mp proceeded
      right
      obtain ⟨root, rootStraight, tasks⟩ := doingStraight
      obtain ⟨move, rfl, nextTasks⟩ := course_of_straight rootStraight tasks led
      dsimp only at proceeded
      split at proceeded
      · rcases reachLabel_cases proceeded with rfl | ⟨entries, cleanup, rfl⟩
        · refine ⟨_, _, rfl, rfl, ⟨rfl, List.suffix_refl _⟩, ?_, ?_⟩
          · exact cleans_of_phase phase
          · exact straight_of_undo straight.code phase leftStraight ⟨root, rootStraight, tasks⟩
        · refine ⟨_, _, rfl, rfl, ⟨rfl, List.suffix_refl _⟩, rfl, ?_⟩
          exact straight_undo_entries straight.code cleanup rfl rfl
      · cases proceeded
        refine ⟨_, _, rfl, rfl, ⟨rfl, List.suffix_refl _⟩, rfl, ?_⟩
        refine straight_of_undo straight.code rfl leftStraight ⟨root, rootStraight, ?_⟩
        exact fun other otherMem => nextTasks other (mem_todo_arriveAt otherMem)

/-- The activation reaches its label: the kernel is restarted, or the cleanup begins. -/
inductive ReachesLabel (kernel : Kernel) (frame : Frame) : Outcome Kernel Frame → Prop
  | restarts (next : Frame) (follows : Follows frame next) (inBody : next.phase = .body) :
      ReachesLabel kernel frame (.stays { kernel with restarted := true } next)
  | begins (next : Frame) (follows : Follows frame next) (entries : List CleanupEntry)
      (cleanup : frame.code.cleanup = .undo entries) (phase : next.phase = .undo [] entries)
      (undone : next.undone = []) :
      ReachesLabel kernel frame (.stays { kernel with hf := false } next)

theorem reachesLabel_of_config (inBody : frame.phase = .body) {config : Config}
    (suffix : frame.config.trace <:+ config.trace)
    (reached : kernel.reachLabel { frame with config := config } = some outcome) :
    ReachesLabel kernel frame outcome := by
  rcases reachLabel_cases reached with rfl | ⟨entries, cleanup, rfl⟩
  · exact .restarts _ ⟨rfl, suffix⟩ inBody
  · exact .begins _ ⟨rfl, suffix⟩ entries cleanup rfl rfl

theorem leaveBody_cases (inBody : frame.phase = .body) {at_ : Option Stmt}
    (left : m.leaveBody kernel frame at_ = some outcome) :
    outcome = kernel.leave frame ∨ ReachesLabel kernel frame outcome := by
  rw [Machine.leaveBody] at left
  split at left
  · exact Or.inr (reachesLabel_of_config inBody (List.suffix_refl _) left)
  · exact Or.inl (Option.some.inj left).symm

/-- An activation in its body leaves, goes on there, or reaches its label. -/
theorem proceedBody_cases (inBody : frame.phase = .body) {evaluation : Evaluation}
    (proceeded : m.proceedBody evaluation kernel frame = some outcome) :
    outcome = kernel.leave frame ∨
      (∃ next, outcome = .stays kernel next ∧ Follows frame next ∧ next.phase = .body) ∨
      ReachesLabel kernel frame outcome := by
  rw [Machine.proceedBody] at proceeded
  split at proceeded
  · exact (leaveBody_cases inBody proceeded).imp_right Or.inr
  · rename_i task rest todo
    obtain ⟨course, _, proceeded⟩ := Option.bind_eq_some_iff.mp proceeded
    cases course with
    | moves move =>
        have suffix : frame.config.trace <:+ (m.arriveAt kernel frame move).trace :=
          List.suffix_cons _ _
        dsimp only at proceeded
        split at proceeded
        · exact Or.inr (Or.inr (reachesLabel_of_config inBody suffix proceeded))
        · cases proceeded
          exact Or.inr (Or.inl ⟨_, rfl, ⟨rfl, suffix⟩, inBody⟩)
    | goes todo =>
        cases proceeded
        exact Or.inr (Or.inl ⟨_, rfl, ⟨rfl, List.suffix_refl _⟩, rfl⟩)
    | returns s => exact (leaveBody_cases inBody proceeded).imp_right Or.inr

/-- The flag is set, the kernel is restarted, or the activation is behind its label. -/
def AlarmedAt (kernel : Kernel) (frame : Frame) : Prop :=
  kernel.hf = true ∨ kernel.restarted = true ∨ frame.cleans = true

/-- The alarm behind a step: an activation that leaves leaves the flag set. -/
def OutcomeAlarmed : Outcome Kernel Frame → Prop
  | .stays kernel frame => AlarmedAt kernel frame
  | .calls kernel caller _ => AlarmedAt kernel caller
  | .leaves kernel => kernel.hf = true

/-- Nothing that an activation does ends the alarm. -/
theorem alarmed_resume (straight : frame.Straight) (notRestarted : kernel.restarted = false)
    (alarmed : AlarmedAt kernel frame) {action : Action}
    (resumed : m.resume action kernel frame = some outcome) : OutcomeAlarmed outcome := by
  cases (Machine.resume_eq_some_iff.mp resumed).2 with
  | faults => exact Or.inl rfl
  | calls callee => exact alarmed
  | inBody evaluation _ inBody proceeded =>
      have set : kernel.hf = true := by
        rcases alarmed with set | restarted | cleans
        · exact set
        · rw [notRestarted] at restarted
          cases restarted
        · rw [Frame.cleans, inBody] at cleans
          cases cleans
      rcases proceedBody_cases inBody proceeded with rfl | ⟨next, rfl, _⟩ | reaches
      · exact set
      · exact Or.inl set
      · cases reaches with
        | restarts next => exact Or.inr (Or.inl rfl)
        | begins next _ entries _ phase => exact Or.inr (Or.inr (cleans_of_phase phase))
  | behindLabel evaluation _ doing left phase proceeded =>
      rcases proceedUndo_cases straight phase proceeded with ⟨_, rfl⟩ | ⟨after, next, rfl, _, goesOn⟩
      · rfl
      · exact Or.inr (Or.inr goesOn.cleans)

/-- An activation that can be left behind its label only at the end stays so, and so are the
functions that it calls. -/
theorem straight_resume (straight : frame.Straight) {action : Action}
    (callees : ∀ callee, action = .call callee → callee.Straight)
    (resumed : m.resume action kernel frame = some outcome) : outcome.All Frame.Straight := by
  cases (Machine.resume_eq_some_iff.mp resumed).2 with
  | faults => exact straight
  | calls callee => exact ⟨straight, straight_of_body (callees callee rfl) rfl⟩
  | inBody evaluation _ inBody proceeded =>
      rcases proceedBody_cases inBody proceeded with rfl | ⟨next, rfl, follows, phase⟩ | reaches
      · trivial
      · exact straight_of_body (follows.code ▸ straight.code) phase
      · cases reaches with
        | restarts next follows phase =>
            exact straight_of_body (follows.code ▸ straight.code) phase
        | begins next follows entries cleanup phase =>
            exact straight_undo_entries straight.code cleanup follows.code phase
  | behindLabel evaluation _ doing left phase proceeded =>
      rcases proceedUndo_cases straight phase proceeded with ⟨_, rfl⟩ | ⟨after, next, rfl, _, goesOn⟩
      · trivial
      · exact goesOn.straight

end Steps

/-! ## The alarm is never lost -/

/-- The flag is set, or an activation has yet to set it again; a restarted kernel does
nothing any more. -/
def Alarmed (state : CallStack Kernel Frame) : Prop :=
  state.shared.hf = true ∨
    ∃ frame ∈ state.stack, state.shared.restarted = true ∨ frame.cleans = true

/-- No function that is called leaves its cleanup code but at the end. -/
def CallsStraight (actions : List Action) : Prop :=
  ∀ callee, .call callee ∈ actions → callee.Straight

section Runs

variable {m : Machine}

theorem alarmed_onto {outcome : Outcome Kernel Frame} (rest : List Frame)
    (alarmed : OutcomeAlarmed outcome) : Alarmed (outcome.onto rest) := by
  cases outcome with
  | stays kernel frame =>
      exact alarmed.imp_right fun others => ⟨frame, List.mem_cons_self, others⟩
  | calls kernel caller callee =>
      exact alarmed.imp_right fun others =>
        ⟨caller, List.mem_cons_of_mem _ List.mem_cons_self, others⟩
  | leaves kernel => exact Or.inl alarmed

theorem onto_of_cleans_below {outcome : Outcome Kernel Frame} {rest : List Frame} {frame : Frame}
    (frameMem : frame ∈ rest) (cleans : frame.cleans = true) : Alarmed (outcome.onto rest) := by
  right
  refine ⟨frame, ?_, Or.inr cleans⟩
  cases outcome with
  | stays => exact List.mem_cons_of_mem _ frameMem
  | calls => exact List.mem_cons_of_mem _ (List.mem_cons_of_mem _ frameMem)
  | leaves => exact frameMem

/-- What a run keeps about the alarm. -/
structure AlarmState (state : CallStack Kernel Frame) : Prop where
  alarmed : Alarmed state
  straight : ∀ frame ∈ state.stack, frame.Straight

theorem alarmState_step {state next : CallStack Kernel Frame} {action : Action}
    (alarm : AlarmState state) (callees : ∀ callee, action = .call callee → callee.Straight)
    (stepped : m.step action state = some next) : AlarmState next := by
  obtain ⟨top, rest, outcome, split, resumed, rfl⟩ := CallStack.step_eq_some_iff.mp stepped
  have topStraight := alarm.straight top (split ▸ List.mem_cons_self)
  have notRestarted := (Machine.resume_eq_some_iff.mp resumed).1
  constructor
  · have ofTop := fun alarmed => alarmed_resume topStraight notRestarted alarmed resumed
    rcases alarm.alarmed with set | ⟨frame, frameMem, restarted | cleans⟩
    · exact alarmed_onto rest (ofTop (Or.inl set))
    · rw [notRestarted] at restarted
      cases restarted
    · rw [split] at frameMem
      rcases List.mem_cons.mp frameMem with rfl | below
      · exact alarmed_onto rest (ofTop (Or.inr (Or.inr cleans)))
      · exact onto_of_cleans_below below cleans
  · exact CallStack.all_onto (straight_resume topStraight callees resumed)
      fun frame frameMem => alarm.straight frame (split ▸ List.mem_cons_of_mem _ frameMem)

theorem alarmState_run {actions : List Action} (callees : CallsStraight actions)
    {source target : CallStack Kernel Frame} (alarm : AlarmState source)
    (reached : run m.step actions source = some target) : AlarmState target := by
  have meets : StepsMeet m.step
      (fun _ action => ∀ callee, action = .call callee → callee.Straight) actions source := by
    apply StepsMeet.of_forall
    rintro action actionMem _ callee rfl
    exact callees callee actionMem
  refine run_invariant ?_ alarm meets reached
  intro state action next alarm callees stepped
  exact alarmState_step alarm callees stepped

/-- When control comes back from activations that ran while the flag was set, it is set. -/
theorem hf_of_run_to_end {actions : List Action} (callees : CallsStraight actions)
    {kernel after : Kernel} {frames : List Frame} (straight : ∀ frame ∈ frames, frame.Straight)
    (set : kernel.hf = true) (reached : run m.step actions ⟨kernel, frames⟩ = some ⟨after, []⟩) :
    after.hf = true := by
  have alarm := alarmState_run callees ⟨Or.inl set, straight⟩ reached
  rcases alarm.alarmed with set | ⟨frame, frameMem, _⟩
  · exact set
  · exact absurd frameMem List.not_mem_nil

/-- While the activations on top of `rest` run with the flag set, it stays set or one of them is
behind its label; and when control comes back to `rest`, which is as it was, it is set. -/
theorem run_keeps_alarm (m : Machine) (actions : List Action) (callees : CallsStraight actions)
    (kernel : Kernel) (set : kernel.hf = true) (frames rest : List Frame)
    (straight : ∀ frame ∈ frames, frame.Straight) (target : CallStack Kernel Frame)
    (reached : run m.step actions ⟨kernel, frames ++ rest⟩ = some target) :
    (∃ alone : CallStack Kernel Frame, target = alone.above rest ∧ Alarmed alone) ∨
      ∃ first second after, actions = first ++ second ∧
        run m.step first ⟨kernel, frames ++ rest⟩ = some ⟨after, rest⟩ ∧ after.hf = true ∧
        run m.step second ⟨after, rest⟩ = some target := by
  have above : run m.step actions ((⟨kernel, frames⟩ : CallStack Kernel Frame).above rest) =
      some target := reached
  rcases CallStack.run_split above with
    ⟨alone, ran, atEnd⟩ | ⟨first, second, after, rfl, ran, resumed⟩
  · have alarm := alarmState_run callees ⟨Or.inl set, straight⟩ ran
    exact Or.inl ⟨alone, atEnd, alarm.alarmed⟩
  · have calleesFirst : CallsStraight first := fun callee member =>
      callees callee (List.mem_append_left _ member)
    have setAfter := hf_of_run_to_end calleesFirst straight set ran
    exact Or.inr ⟨first, second, after, rfl, CallStack.run_above ran rest, setAfter, resumed⟩

/-! ## Every suspended activation is cleaned up -/

/-- Wherever the statement leads that the activation is about, an `hgoto` stands there. -/
def Frame.Covered (m : Machine) (frame : Frame) : Prop :=
  frame.phase = .body ∧ ∃ task rest, frame.config.todo = task :: rest ∧
    ∀ evaluation course, task.course frame.code.body evaluation rest = some course →
      ∃ move, course = .moves move ∧ .hgoto ∈
        (Program.mk frame.code.body frame.code.written m.inInterrupt).piecesBehind move

theorem runPieces_jumps (mask : BitVec 64) {pieces : List Piece} (jump : .hgoto ∈ pieces) :
    (runPieces true mask pieces).2 = true := by
  induction pieces generalizing mask with
  | nil => exact absurd jump List.not_mem_nil
  | cons piece rest ih =>
      cases piece with
      | hgoto => rfl
      | stamp update =>
          rcases List.mem_cons.mp jump with same | inRest
          · cases same
          · exact ih (update.apply mask) inRest

variable {kernel : Kernel} {frame : Frame} {outcome : Outcome Kernel Frame}

theorem jumped_arriveAt (notInInterrupt : m.inInterrupt = false) (set : kernel.hf = true)
    {move : Move} (jump : .hgoto ∈
      (Program.mk frame.code.body frame.code.written m.inInterrupt).piecesBehind move) :
    (m.arriveAt kernel frame move).jumped = true := by
  simp only [Machine.arriveAt, Program.arrive, set, notInInterrupt, Bool.not_false, Bool.and_true]
  exact runPieces_jumps _ jump

/-- With the flag set a covered activation jumps. -/
theorem reachesLabel_of_covered (notInInterrupt : m.inInterrupt = false)
    (set : kernel.hf = true) (covered : frame.Covered m) {evaluation : Evaluation}
    (proceeded : m.proceedBody evaluation kernel frame = some outcome) :
    ReachesLabel kernel frame outcome := by
  obtain ⟨inBody, task, rest, todo, jumps⟩ := covered
  rw [Machine.proceedBody, todo] at proceeded
  obtain ⟨course, led, proceeded⟩ := Option.bind_eq_some_iff.mp proceeded
  obtain ⟨move, rfl, jump⟩ := jumps _ course led
  have suffix : frame.config.trace <:+ (m.arriveAt kernel frame move).trace :=
    List.suffix_cons _ _
  dsimp only at proceeded
  rw [if_pos (jumped_arriveAt notInInterrupt set jump)] at proceeded
  exact reachesLabel_of_config inBody suffix proceeded

/-- The activation has left at the end of its cleanup code, as `done`. -/
structure CleanedUp (frame done : Frame) : Prop extends Follows frame done where
  cleaned : done.cleaned

/-- An activation that is to be cleaned up: it is behind its label, or will jump to it. -/
def ToClean (m : Machine) (kernel : Kernel) (frame : Frame) : Prop :=
  frame.cleans = true ∨ (kernel.hf = true ∧ frame.Covered m)

theorem Follows.trans {first second third : Frame} (before : Follows first second)
    (behind : Follows second third) : Follows first third where
  code := behind.code.trans before.code
  trace := before.trace.trans behind.trace

/-- What an activation that is to be cleaned up can do when it goes on: it restarts the kernel,
goes on behind its label, or leaves at the end of its cleanup code. -/
theorem proceed_of_toClean (notInInterrupt : m.inInterrupt = false) (straight : frame.Straight)
    (toClean : ToClean m kernel frame) {evaluation : Evaluation}
    (resumed : m.resume (.proceed evaluation) kernel frame = some outcome) :
    (frame.cleaned ∧ outcome = ({ kernel with hf := true } : Kernel).leave frame) ∨
      ∃ after next, outcome = .stays after next ∧ after.left = kernel.left ∧
        Follows frame next ∧ next.Straight ∧ (after.restarted = true ∨ next.cleans = true) := by
  cases (Machine.resume_eq_some_iff.mp resumed).2 with
  | inBody _ _ inBody proceeded =>
      have covered : kernel.hf = true ∧ frame.Covered m := by
        apply toClean.resolve_left
        rw [Frame.cleans, inBody]
        exact Bool.false_ne_true
      cases reachesLabel_of_covered notInInterrupt covered.1 covered.2 proceeded with
      | restarts next follows phase =>
          exact Or.inr ⟨_, next, rfl, rfl, follows,
            straight_of_body (follows.code ▸ straight.code) phase, Or.inl rfl⟩
      | begins next follows entries cleanup phase =>
          exact Or.inr ⟨_, next, rfl, rfl, follows,
            straight_undo_entries straight.code cleanup follows.code phase,
            Or.inr (cleans_of_phase phase)⟩
  | behindLabel _ _ doing left phase proceeded =>
      refine (proceedUndo_cases straight phase proceeded).imp_right ?_
      rintro ⟨after, next, rfl, sameLeft, goesOn⟩
      exact ⟨after, next, rfl, sameLeft, goesOn.toFollows, goesOn.straight, Or.inr goesOn.cleans⟩

theorem CallsStraight.tail {action : Action} {actions : List Action}
    (callees : CallsStraight (action :: actions)) : CallsStraight actions :=
  fun callee member => callees callee (List.mem_cons_of_mem _ member)

theorem CallsStraight.left {first second : List Action} (callees : CallsStraight (first ++ second)) :
    CallsStraight first :=
  fun callee member => callees callee (List.mem_append_left _ member)

theorem CallsStraight.right {first second : List Action}
    (callees : CallsStraight (first ++ second)) : CallsStraight second :=
  fun callee member => callees callee (List.mem_append_right _ member)

/-- Behind a step the log of the activations that have left is as it was, or longer by the
activation that leaves. -/
def LogGrows (kernel : Kernel) (frame : Frame) : Outcome Kernel Frame → Prop
  | .stays after _ => after.left = kernel.left
  | .calls after _ _ => after.left = kernel.left
  | .leaves after => after.left = frame :: kernel.left

/-- Behind its label an activation leaves, or goes on with the same function. -/
theorem left_of_proceedUndo {evaluation : Evaluation} {doing : List Task}
    {left : List CleanupEntry}
    (proceeded : m.proceedUndo evaluation kernel frame doing left = some outcome) :
    (∃ after, outcome = .leaves after ∧ after.left = frame :: kernel.left) ∨
      ∃ after next, outcome = .stays after next ∧ next.code = frame.code ∧
        after.left = kernel.left := by
  rw [Machine.proceedUndo.eq_def] at proceeded
  split at proceeded
  · cases proceeded
    exact Or.inl ⟨_, rfl, rfl⟩
  · split at proceeded
    · cases proceeded
      exact Or.inr ⟨_, _, rfl, rfl, rfl⟩
    · cases proceeded
      exact Or.inr ⟨_, _, rfl, rfl, rfl⟩
  · obtain ⟨course, _, proceeded⟩ := Option.bind_eq_some_iff.mp proceeded
    cases course with
    | moves move =>
        dsimp only at proceeded
        split at proceeded
        · rcases reachLabel_cases proceeded with rfl | ⟨entries, _, rfl⟩
          · exact Or.inr ⟨_, _, rfl, rfl, rfl⟩
          · exact Or.inr ⟨_, _, rfl, rfl, rfl⟩
        · cases proceeded
          exact Or.inr ⟨_, _, rfl, rfl, rfl⟩
    | goes todo =>
        cases proceeded
        exact Or.inr ⟨_, _, rfl, rfl, rfl⟩
    | returns s =>
        cases proceeded
        exact Or.inl ⟨_, rfl, rfl⟩

theorem logGrows_resume {action : Action} (resumed : m.resume action kernel frame = some outcome) :
    LogGrows kernel frame outcome := by
  cases (Machine.resume_eq_some_iff.mp resumed).2 with
  | faults => rfl
  | calls callee => rfl
  | inBody evaluation _ inBody proceeded =>
      rcases proceedBody_cases inBody proceeded with rfl | ⟨next, rfl, _⟩ | reaches
      · rfl
      · rfl
      · cases reaches with
        | restarts next => rfl
        | begins next => rfl
  | behindLabel evaluation _ doing left phase proceeded =>
      rcases left_of_proceedUndo proceeded with ⟨after, rfl, grows⟩ | ⟨after, next, rfl, _, same⟩
      · exact grows
      · exact same

/-- The log of the activations that have left only grows. -/
theorem left_suffix_of_run {actions : List Action} {source target : CallStack Kernel Frame}
    (reached : run m.step actions source = some target) :
    source.shared.left <:+ target.shared.left := by
  let longer : CallStack Kernel Frame → Prop := fun state =>
    source.shared.left <:+ state.shared.left
  suffices longer target from this
  refine run_invariant ?_ (List.suffix_refl _)
    (StepsMeet.of_forall (fun _ _ _ => trivial) source : StepsMeet m.step (fun _ _ => True) _ _)
    reached
  intro state action next sofar _ stepped
  obtain ⟨top, rest, outcome, _, resumed, rfl⟩ := CallStack.step_eq_some_iff.mp stepped
  have grows := logGrows_resume resumed
  cases outcome with
  | stays after frame => exact sofar.trans ⟨[], grows.symm⟩
  | calls after caller callee => exact sofar.trans ⟨[], grows.symm⟩
  | leaves after => exact sofar.trans ⟨[top], grows.symm⟩

/-- What every action that meets the condition keeps of the activation on top, and gives to one
that it calls, holds of the activations on the stack and of those that have left. -/
theorem frames_of_run {P : Frame → Prop} {condition : CallStack Kernel Frame → Action → Prop}
    (kept : ∀ ⦃action state top rest outcome⦄, state.stack = top :: rest → condition state action →
      P top → m.resume action state.shared top = some outcome → outcome.All P)
    {actions : List Action} {source target : CallStack Kernel Frame}
    (initial : (∀ frame ∈ source.stack, P frame) ∧ ∀ frame ∈ source.shared.left, P frame)
    (meets : StepsMeet m.step condition actions source)
    (reached : run m.step actions source = some target) :
    (∀ frame ∈ target.stack, P frame) ∧ ∀ frame ∈ target.shared.left, P frame := by
  let everywhere : CallStack Kernel Frame → Prop := fun state =>
    (∀ frame ∈ state.stack, P frame) ∧ ∀ frame ∈ state.shared.left, P frame
  suffices everywhere target from this
  refine run_invariant ?_ initial meets reached
  rintro state action next ⟨onStack, inLog⟩ allowed stepped
  obtain ⟨top, rest, outcome, split, resumed, rfl⟩ := CallStack.step_eq_some_iff.mp stepped
  have topHolds := onStack top (split ▸ List.mem_cons_self)
  constructor
  · exact CallStack.all_onto (kept split allowed topHolds resumed) fun frame frameMem =>
      onStack frame (split ▸ List.mem_cons_of_mem _ frameMem)
  · have grows := logGrows_resume resumed
    intro frame frameMem
    cases outcome with
    | stays after next => exact inLog frame (grows ▸ frameMem)
    | calls after caller callee => exact inLog frame (grows ▸ frameMem)
    | leaves after =>
        have inLogNow : frame ∈ after.left := frameMem
        rw [show after.left = top :: state.shared.left from grows] at inLogNow
        rcases List.mem_cons.mp inLogNow with rfl | before
        · exact topHolds
        · exact inLog frame before

/-- An activation that is to be cleaned up is so when control comes back from a function that
it calls. -/
theorem toClean_behind_call {actions : List Action} (callees : CallsStraight actions)
    {callee : PlacedBowknot} (calleeStraight : callee.Straight) (toClean : ToClean m kernel frame)
    {after : Kernel} (reached : run m.step actions ⟨kernel, [callee.enter]⟩ = some ⟨after, []⟩) :
    ToClean m after frame := by
  refine toClean.imp_right ?_
  rintro ⟨set, covered⟩
  refine ⟨?_, covered⟩
  apply hf_of_run_to_end callees ?_ set reached
  intro other otherMem
  rw [List.mem_singleton.mp otherMem]
  exact straight_of_body calleeStraight rfl

/-- However an activation runs that is to be cleaned up, when control comes back from it it
has left at the end of its cleanup code, and the flag is set. -/
theorem cleanedUp_of_run (notInInterrupt : m.inInterrupt = false) {actions : List Action}
    (callees : CallsStraight actions) {after : Kernel} (straight : frame.Straight)
    (toClean : ToClean m kernel frame)
    (reached : run m.step actions ⟨kernel, [frame]⟩ = some ⟨after, []⟩) :
    after.hf = true ∧ ∃ done new, CleanedUp frame done ∧ after.left = done :: new ++ kernel.left := by
  induction count : actions.length using Nat.strong_induction_on generalizing actions kernel frame with
  | _ n ih =>
      cases actions with
      | nil => cases reached
      | cons action actions =>
          obtain ⟨middle, stepped, remaining⟩ := (run_cons_eq_some_iff _ _ _ _ _).mp reached
          obtain ⟨_, _, outcome, ⟨⟩, resumed, rfl⟩ := CallStack.step_eq_some_iff.mp stepped
          have led := (Machine.resume_eq_some_iff.mp resumed).2
          have fewer : actions.length < n := by
            rw [← count]
            exact Nat.lt_succ_self _
          cases action with
          | fault =>
              cases led
              have stillToClean : ToClean m { kernel with hf := true } frame :=
                toClean.imp_right fun covered => ⟨rfl, covered.2⟩
              have cleanedUp := ih _ fewer callees.tail straight stillToClean remaining rfl
              exact cleanedUp
          | call callee =>
              have calleeStraight := callees callee List.mem_cons_self
              cases led
              have above : run m.step actions
                  ((⟨kernel, [callee.enter]⟩ : CallStack Kernel Frame).above [frame]) =
                    some ⟨after, []⟩ := remaining
              obtain ⟨first, second, between, rfl, ran, resumed⟩ :=
                CallStack.run_comes_back above (Nat.zero_le _)
              have shorter : second.length < n := by
                rw [List.length_append] at fewer
                omega
              have toCleanBehind := toClean_behind_call callees.tail.left calleeStraight toClean ran
              obtain ⟨set, done, new, cleanedUp, log⟩ :=
                ih _ shorter callees.tail.right straight toCleanBehind resumed rfl
              obtain ⟨newInCall, logOfCall⟩ := left_suffix_of_run ran
              refine ⟨set, done, new ++ newInCall, cleanedUp, ?_⟩
              rw [log, ← logOfCall]
              simp
          | proceed evaluation =>
              rcases proceed_of_toClean notInInterrupt straight toClean resumed with
                ⟨cleaned, rfl⟩ | ⟨behind, next, rfl, sameLog, follows, nextStraight, restarted | cleans⟩
              · have atEnd := (CallStack.run_empty remaining).2
                cases atEnd
                exact ⟨rfl, frame, [], ⟨⟨rfl, List.suffix_refl _⟩, cleaned⟩, rfl⟩
              · cases actions with
                | nil => cases remaining
                | cons other actions =>
                    obtain ⟨_, stepped, _⟩ := (run_cons_eq_some_iff _ _ _ _ _).mp remaining
                    have going : behind.restarted = false := not_restarted_of_step stepped
                    rw [restarted] at going
                    cases going
              · obtain ⟨set, done, new, cleanedUp, log⟩ :=
                  ih _ fewer callees.tail nextStraight (Or.inl cleans) remaining rfl
                refine ⟨set, done, new, ⟨follows.trans cleanedUp.toFollows, cleanedUp.cleaned⟩, ?_⟩
                rw [log, sameLog]

/-- With the flag set, let the activations on top of `rest` be about statements behind which a
jump stands.  When control first comes back to `rest`, each of them has left at the end of its
cleanup code, the topmost first, and the flag is set. -/
theorem run_unwinds (m : Machine) (notInInterrupt : m.inInterrupt = false)
    (actions : List Action) (callees : CallsStraight actions) (kernel : Kernel)
    (set : kernel.hf = true) (frames rest : List Frame)
    (straight : ∀ frame ∈ frames, frame.Straight) (covered : ∀ frame ∈ frames, frame.Covered m)
    (target : CallStack Kernel Frame)
    (reached : run m.step actions ⟨kernel, frames ++ rest⟩ = some target)
    (below : target.stack.length ≤ rest.length) :
    ∃ first second after, actions = first ++ second ∧
      run m.step first ⟨kernel, frames ++ rest⟩ = some ⟨after, rest⟩ ∧
      run m.step second ⟨after, rest⟩ = some target ∧ after.hf = true ∧
      ∃ dones new, List.Forall₂ CleanedUp frames dones ∧ after.left = new ++ kernel.left ∧
        dones.reverse.Sublist new := by
  induction frames generalizing actions kernel with
  | nil =>
      refine ⟨[], actions, kernel, rfl, rfl, reached, set, [], [], .nil, rfl, ?_⟩
      exact List.Sublist.refl []
  | cons frame frames ih =>
      have above : run m.step actions
          ((⟨kernel, [frame]⟩ : CallStack Kernel Frame).above (frames ++ rest)) = some target :=
        reached
      have belowRest : target.stack.length ≤ (frames ++ rest).length := by
        rw [List.length_append]
        exact below.trans (Nat.le_add_left _ _)
      obtain ⟨first, second, after, rfl, ran, resumed⟩ := CallStack.run_comes_back above belowRest
      obtain ⟨setAfter, done, new, cleanedUp, log⟩ := cleanedUp_of_run notInInterrupt callees.left
        (straight frame List.mem_cons_self) (Or.inr ⟨set, covered frame List.mem_cons_self⟩) ran
      obtain ⟨third, fourth, final, rfl, ranBelow, resumedBelow, setFinal, dones, newer, cleanedUps,
        logFinal, inOrder⟩ := ih second callees.right after setAfter
          (fun other otherMem => straight other (List.mem_cons_of_mem _ otherMem))
          (fun other otherMem => covered other (List.mem_cons_of_mem _ otherMem)) resumed
      refine ⟨first ++ third, fourth, final, (List.append_assoc _ _ _).symm, ?_, resumedBelow, setFinal,
        done :: dones, newer ++ (done :: new), .cons cleanedUp cleanedUps, ?_, ?_⟩
      · rw [run_append, show run m.step first ⟨kernel, frame :: frames ++ rest⟩ =
          some ⟨after, frames ++ rest⟩ from CallStack.run_above ran (frames ++ rest)]
        exact ranBelow
      · rw [logFinal, log]
        simp
      · rw [List.reverse_cons]
        exact inOrder.append (List.singleton_sublist.mpr List.mem_cons_self)

end Runs

/-! ## A fault behind the lock -/

theorem straight_of_all {code : Bowknot}
    (all : (code.entries.all fun entry =>
      entry.stmt.nodes.all fun n => !n.isReturn && !n.isGoto) = true) : code.Straight := by
  intro entry entryMem n nMem
  have stays := List.all_eq_true.mp (List.all_eq_true.mp all entry entryMem) n nMem
  simpa using stays

theorem straight_probe : probeBowknot.Straight := straight_of_all rfl

theorem straight_caller : callerBowknot.Straight := straight_of_all rfl

/-- The function with the lock is about `work(m)`. -/
def probeAtWork : Frame where
  code := probeBowknot
  config :=
    { todo := [.stmt true (Build.callOf 7 50 4 "work" "m"), .stmt true unlockCall]
      mask := 1
      trace := [.ran (lockCall 3) true [], .ran (Build.callOf 1 10 2 "prepare" "m") true [],
        .passed] }

/-- The caller is about its call of that function. -/
def callerAtCall : Frame where
  code := callerBowknot
  config :=
    { todo := [.stmt true (Build.callOf 21 110 12 "probe" "m"),
        .stmt true (Build.callOf 24 125 13 "use" "m")]
      trace := [.passed] }

theorem isRun_of_isCall {s : Stmt} (isCall : s.isCall = true) :
    (s.isDecl || s.isExpression) = true := by
  cases s with
  | null => cases isCall
  | node info cls children => cases cls <;> first | rfl | exact absurd isCall Bool.false_ne_true

theorem covered_of_call {code : PlacedBowknot} {config : Config} {s : Stmt} {rest : List Task}
    (todo : config.todo = .stmt true s :: rest) (isCall : s.isCall = true)
    (inFile : (afterSemi s).isMacroID = false)
    (jump : .hgoto ∈ piecesAt code.written (afterSemi s)) :
    ({ code := code, config := config } : Frame).Covered taskMachine := by
  refine ⟨rfl, .stmt true s, rest, todo, ?_⟩
  intro evaluation course led
  have isRun := isRun_of_isCall isCall
  rw [course_of_run isRun] at led
  cases led
  refine ⟨_, rfl, ?_⟩
  have atPlace : placeAfter true s = some (afterSemi s) := (endPlace_of_run isRun).2
  simp only [Program.piecesBehind, atPlace, inFile, Bool.false_eq_true, if_false]
  exact jump

theorem callsStraight_goOn (n : Nat) : CallsStraight (goOn n) := by
  intro callee member
  exact absurd (List.eq_of_mem_replicate member) (by simp)

/-- Control comes back to the caller with the flag set. -/
theorem run_keeps_alarm_probe :
    ∃ target, run taskMachine.step (goOn 3) ⟨{ hf := true }, [probeAtWork] ++ [callerAtCall]⟩ =
        some target ∧
      ((∃ alone : CallStack Kernel Frame, target = alone.above [callerAtCall] ∧ Alarmed alone) ∨
        ∃ first second after, goOn 3 = first ++ second ∧
          run taskMachine.step first ⟨{ hf := true }, [probeAtWork] ++ [callerAtCall]⟩ =
            some ⟨after, [callerAtCall]⟩ ∧
          after.hf = true ∧ run taskMachine.step second ⟨after, [callerAtCall]⟩ = some target) := by
  refine ⟨_, rfl, run_keeps_alarm taskMachine (goOn 3) (callsStraight_goOn 3) _ rfl [probeAtWork]
    [callerAtCall] ?_ _ rfl⟩
  intro frame frameMem
  rw [List.mem_singleton.mp frameMem]
  exact straight_of_body straight_probe rfl

/-- Both activations leave through their cleanup code. -/
theorem run_unwinds_probe :
    ∃ target, run taskMachine.step (goOn 5) ⟨{ hf := true }, [probeAtWork, callerAtCall] ++ []⟩ =
        some target ∧
      ∃ first second after, goOn 5 = first ++ second ∧
        run taskMachine.step first ⟨{ hf := true }, [probeAtWork, callerAtCall] ++ []⟩ =
          some ⟨after, []⟩ ∧
        run taskMachine.step second ⟨after, []⟩ = some target ∧ after.hf = true ∧
        ∃ dones new, List.Forall₂ CleanedUp [probeAtWork, callerAtCall] dones ∧
          after.left = new ++ [] ∧ dones.reverse.Sublist new := by
  refine ⟨_, rfl, run_unwinds taskMachine rfl (goOn 5) (callsStraight_goOn 5) _ rfl
    [probeAtWork, callerAtCall] [] ?_ ?_ _ rfl (Nat.le_refl 0)⟩
  · intro frame frameMem
    rcases List.mem_cons.mp frameMem with rfl | inRest
    · exact straight_of_body straight_probe rfl
    · rw [List.mem_singleton.mp inRest]
      exact straight_of_body straight_caller rfl
  · intro frame frameMem
    rcases List.mem_cons.mp frameMem with rfl | inRest
    · exact covered_of_call rfl rfl rfl (by decide)
    · rw [List.mem_singleton.mp inRest]
      exact covered_of_call rfl rfl rfl (by decide)

end Hecaton.Pass2
