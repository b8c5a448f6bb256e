import Hecaton.Pass2.Transparency

/-!
# Interrupts

An interrupt can come between any two steps of a task, also while the task unwinds or is
behind a label.  Its handlers run instrumented functions too, and `current->hf` is then
the flag of the task that was interrupted.  The inserted tests ask `in_interrupt()`
first, so that the handlers take the course of the functions without insertions.  The
task goes on as if nothing had happened; only a fault in a handler is one of the task.
-/

namespace Hecaton.Pass2

open Hecaton.Clang
open Hecaton.Library

/-- The processor: the task at work with what its functions share, and the activations of
the handlers above it.  `handled` are those of them that have left. -/
structure Processor where
  kernel : Kernel
  task : List Frame
  handlers : List Frame := []
  handled : List Frame := []

/-- What happens next: an action of the task or of the handlers, or an interrupt, which
enters its handler on top of what is at work. -/
inductive Turn
  | task (action : Action)
  | interrupt (handler : PlacedBowknot)
  | handler (action : Action)

namespace Processor

/-- The task that is interrupted. -/
def ofTask (processor : Processor) : CallStack Kernel Frame :=
  ⟨processor.kernel, processor.task⟩

/-- The handlers, which share `current->hf` with the task. -/
def ofHandlers (processor : Processor) : CallStack Kernel Frame :=
  ⟨{ processor.kernel with left := processor.handled }, processor.handlers⟩

def withTask (processor : Processor) (task : CallStack Kernel Frame) : Processor :=
  { processor with kernel := task.shared, task := task.stack }

def withHandlers (processor : Processor) (handlers : CallStack Kernel Frame) : Processor :=
  { processor with
    kernel := { handlers.shared with left := processor.kernel.left }
    handlers := handlers.stack
    handled := handlers.shared.left }

/-- The processor, with handlers that run the functions as they were. -/
def plainHandlers (processor : Processor) : Processor :=
  { processor with
    handlers := processor.handlers.map Frame.plain
    handled := processor.handled.map Frame.plain }

end Processor

namespace Machine

variable (m : Machine)

/-- The surroundings of a handler. -/
def handling : Machine := { m with inInterrupt := true }

/-- One step of the processor.  Only a task at work is interrupted, and it waits for the
handlers. -/
def serve (turn : Turn) (processor : Processor) : Option Processor :=
  match turn with
  | .task action =>
      if processor.handlers.isEmpty then
        (m.step action processor.ofTask).map processor.withTask
      else none
  | .interrupt handler =>
      if processor.kernel.restarted || processor.task.isEmpty then none
      else some { processor with handlers := handler.enter :: processor.handlers }
  | .handler action => (m.handling.step action processor.ofHandlers).map processor.withHandlers

end Machine

/-- The handler runs the functions as they were. -/
def Turn.plainHandler : Turn → Turn
  | .task action => .task action
  | .interrupt code => .interrupt code.plain
  | .handler action => .handler action.plain

/-- What happens to the task: its own actions, and the faults of the handlers. -/
def Turn.ofTask : Turn → Option Action
  | .task action => some action
  | .handler .fault => some .fault
  | _ => none

def taskActions (turns : List Turn) : List Action := turns.filterMap Turn.ofTask

/-- The handlers are in their bodies, and there is a task below them. -/
structure Processor.Interrupted (processor : Processor) : Prop where
  bodies : ∀ frame ∈ processor.handlers, frame.phase = .body
  below : processor.handlers ≠ [] → processor.task ≠ []

/-! ## Steps -/

section Steps

variable {m : Machine} {processor next : Processor} {turn : Turn}

theorem quiet_ofHandlers (interrupted : processor.Interrupted) :
    Quiet m.handling processor.ofHandlers where
  flag := Or.inl rfl
  bodies := interrupted.bodies

/-- The handlers do what the functions without insertions do. -/
theorem serve_plainHandlers (checked : 0 ≤ m.hecatonGlobalCheck)
    (interrupted : processor.Interrupted) (turn : Turn) :
    (m.serve turn processor).map Processor.plainHandlers =
      m.serve turn.plainHandler processor.plainHandlers := by
  cases turn with
  | task action =>
      have sameEmpty : processor.plainHandlers.handlers.isEmpty = processor.handlers.isEmpty :=
        List.isEmpty_map
      simp only [Machine.serve, Turn.plainHandler, sameEmpty]
      split
      · rw [Option.map_map]
        rfl
      · rfl
  | interrupt handler =>
      have sameRestarted : processor.plainHandlers.kernel.restarted =
          processor.kernel.restarted := rfl
      have sameTask : processor.plainHandlers.task = processor.task := rfl
      simp only [Machine.serve, Turn.plainHandler, sameRestarted, sameTask]
      split
      · rfl
      · rfl
  | handler action =>
      have handlingChecked : 0 ≤ m.handling.hecatonGlobalCheck := checked
      have commutes := @step_plain _ _ action handlingChecked (quiet_ofHandlers interrupted)
      simp only [Machine.serve, Turn.plainHandler]
      rw [Option.map_map]
      change _ = (m.handling.step action.plain (plainState processor.ofHandlers)).map _
      rw [← commutes, Option.map_map]
      rfl

/-- A step of the handlers leaves the task alone; a fault sets its flag. -/
theorem ofTask_withHandlers (checked : 0 ≤ m.hecatonGlobalCheck)
    (interrupted : processor.Interrupted) {action : Action} {handlers : CallStack Kernel Frame}
    (stepped : m.handling.step action processor.ofHandlers = some handlers) :
    (action = .fault →
        m.step .fault processor.ofTask = some (processor.withHandlers handlers).ofTask) ∧
      (action ≠ .fault → (processor.withHandlers handlers).ofTask = processor.ofTask) := by
  obtain ⟨top, rest, outcome, split, resumed, rfl⟩ := CallStack.step_eq_some_iff.mp stepped
  have inHandlers : processor.handlers = top :: rest := split
  constructor
  · rintro rfl
    cases task : processor.task with
    | nil => exact absurd task (interrupted.below (by simp [inHandlers]))
    | cons taskTop taskRest =>
        obtain ⟨notRestarted, led⟩ := Machine.resume_eq_some_iff.mp resumed
        cases led
        refine Machine.step_eq_some_iff.mpr ⟨taskTop, taskRest, _, task, notRestarted, .faults, ?_⟩
        simp [Processor.ofTask, Processor.withHandlers, Processor.ofHandlers, Outcome.onto, task]
  · intro notFault
    have inBody : top.phase = .body := interrupted.bodies top (inHandlers ▸ List.mem_cons_self)
    have flag : m.handling.inInterrupt = true ∨ processor.ofHandlers.shared.hf = false :=
      Or.inl rfl
    have handlingChecked : 0 ≤ m.handling.hecatonGlobalCheck := checked
    obtain ⟨⟨left, sameFlags⟩, _⟩ :=
      resume_of_quiet flag handlingChecked inBody notFault resumed rest
    rw [Processor.ofTask, Processor.withHandlers, sameFlags]
    rfl

/-- A step of the processor keeps the handlers in their bodies, above a task. -/
theorem interrupted_of_serve (checked : 0 ≤ m.hecatonGlobalCheck)
    (interrupted : processor.Interrupted) (served : m.serve turn processor = some next) :
    next.Interrupted := by
  cases turn with
  | task action =>
      rw [Machine.serve] at served
      split at served
      · rename_i noHandler
        obtain ⟨_, _, rfl⟩ := Option.map_eq_some_iff.mp served
        exact ⟨interrupted.bodies, fun isThere => absurd (List.isEmpty_iff.mp noHandler) isThere⟩
      · cases served
  | interrupt handler =>
      rw [Machine.serve] at served
      split at served
      · cases served
      · rename_i atWork
        cases served
        constructor
        · intro frame frameMem
          rcases List.mem_cons.mp frameMem with rfl | inHandlers
          · rfl
          · exact interrupted.bodies frame inHandlers
        · intro _ noTask
          apply atWork
          rw [show processor.task = [] from noTask]
          simp
  | handler action =>
      obtain ⟨handlers, stepped, rfl⟩ := Option.map_eq_some_iff.mp served
      have handlingChecked : 0 ≤ m.handling.hecatonGlobalCheck := checked
      have quiet := quiet_step handlingChecked (quiet_ofHandlers interrupted) (Or.inl rfl) stepped
      refine ⟨quiet.bodies, fun _ => ?_⟩
      apply interrupted.below
      intro none
      rw [Processor.ofHandlers, none, Machine.step, CallStack.step_empty] at stepped
      cases stepped

/-- What a step does to the task is one of its actions, or nothing. -/
theorem ofTask_of_serve (checked : 0 ≤ m.hecatonGlobalCheck) (interrupted : processor.Interrupted)
    (served : m.serve turn processor = some next) :
    (∀ action, turn.ofTask = some action → m.step action processor.ofTask = some next.ofTask) ∧
      (turn.ofTask = none → next.ofTask = processor.ofTask) := by
  cases turn with
  | task own =>
      rw [Machine.serve] at served
      split at served
      · obtain ⟨task, stepped, rfl⟩ := Option.map_eq_some_iff.mp served
        constructor
        · rintro action ⟨⟩
          exact stepped
        · rintro ⟨⟩
      · cases served
  | interrupt handler =>
      rw [Machine.serve] at served
      split at served
      · cases served
      · cases served
        constructor
        · rintro action ⟨⟩
        · intro _
          rfl
  | handler own =>
      obtain ⟨handlers, stepped, rfl⟩ := Option.map_eq_some_iff.mp served
      obtain ⟨byFault, others⟩ := ofTask_withHandlers checked interrupted stepped
      cases own with
      | fault =>
          constructor
          · rintro action ⟨⟩
            exact byFault rfl
          · rintro ⟨⟩
      | call callee =>
          constructor
          · rintro action ⟨⟩
          · intro _
            exact others (by simp)
      | proceed evaluation =>
          constructor
          · rintro action ⟨⟩
          · intro _
            exact others (by simp)

end Steps

/-! ## Runs -/

/-- Wherever the interrupts come, also while the task unwinds, the handlers run as the functions
without insertions do and none gets behind its label, and the task runs as it does without
interrupts, where a fault in a handler is a fault of the task. -/
theorem run_interrupted (m : Machine) (checked : 0 ≤ m.hecatonGlobalCheck) (turns : List Turn)
    (processor : Processor) (interrupted : processor.Interrupted) :
    (run m.serve turns processor).map Processor.plainHandlers =
        run m.serve (turns.map Turn.plainHandler) processor.plainHandlers ∧
      ∀ final, run m.serve turns processor = some final → final.Interrupted ∧
        run m.step (taskActions turns) processor.ofTask = some final.ofTask := by
  have always : ∀ turn ∈ turns, (fun _ : Turn => True) turn := fun _ _ => trivial
  have kept : ∀ ⦃turn : Turn⦄ ⦃processor next : Processor⦄, processor.Interrupted → True →
      m.serve turn processor = some next → next.Interrupted :=
    fun _ _ _ interrupted _ served => interrupted_of_serve checked interrupted served
  constructor
  · exact run_map (fun turn _ interrupted _ => serve_plainHandlers checked interrupted turn) kept
      always interrupted
  · intro final reached
    -- The machine without interrupts keeps step with the task.
    let keepsStep : Processor → CallStack Kernel Frame → Prop := fun processor task =>
      processor.Interrupted ∧ processor.ofTask = task
    have followed : ∀ ⦃turn action processor next⦄ ⦃task : CallStack Kernel Frame⦄,
        keepsStep processor task → True → turn.ofTask = some action →
        m.serve turn processor = some next →
        ∃ nextTask, m.step action task = some nextTask ∧ keepsStep next nextTask := by
      rintro turn action processor next task ⟨interrupted, rfl⟩ _ isTask served
      exact ⟨next.ofTask, (ofTask_of_serve checked interrupted served).1 action isTask,
        kept interrupted trivial served, rfl⟩
    have skipped : ∀ ⦃turn processor next⦄ ⦃task : CallStack Kernel Frame⦄,
        keepsStep processor task → True → turn.ofTask = none →
        m.serve turn processor = some next → keepsStep next task := by
      rintro turn processor next task ⟨interrupted, rfl⟩ _ notTask served
      exact ⟨kept interrupted trivial served,
        (ofTask_of_serve checked interrupted served).2 notTask⟩
    obtain ⟨task, ran, interruptedAfter, rfl⟩ :=
      run_filterMap followed skipped always ⟨interrupted, rfl⟩ reached
    exact ⟨interruptedAfter, ran⟩

/-- The function with the lock is interrupted at work by a handler that calls the same function
and has a fault in it; then the function and its caller unwind. -/
def interruptedTurns : List Turn :=
  lockedActions.map .task ++ .interrupt callerBowknot :: (lockedActions.map .handler ++
    .handler .fault :: ((goOn 6).map .handler ++ (goOn 5).map .task))

theorem run_interrupted_probe :
    ∃ final, run taskMachine.serve interruptedTurns ⟨{}, [callerBowknot.enter], [], []⟩ =
        some final ∧
      final.handled.length = 2 ∧ final.task = [] ∧ final.Interrupted ∧
      run taskMachine.step (lockedActions ++ .fault :: goOn 5) callerEntered =
        some final.ofTask := by
  have reached : ∃ final, run taskMachine.serve interruptedTurns
      ⟨{}, [callerBowknot.enter], [], []⟩ = some final ∧ final.handled.length = 2 ∧
        final.task = [] :=
    ⟨_, rfl, rfl, rfl⟩
  obtain ⟨final, ran, handled, unwound⟩ := reached
  have noHandler : (⟨{}, [callerBowknot.enter], [], []⟩ : Processor).Interrupted :=
    ⟨fun _ frameMem => absurd frameMem List.not_mem_nil, fun isThere => absurd rfl isThere⟩
  obtain ⟨interrupted, ofTask⟩ := (run_interrupted taskMachine (by decide) interruptedTurns
    ⟨{}, [callerBowknot.enter], [], []⟩ noHandler).2 final ran
  exact ⟨final, ran, handled, unwound, interrupted, ofTask⟩

end Hecaton.Pass2
