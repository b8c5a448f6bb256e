import Hecaton.Pass2.Activation

/-!
# Without a fault the functions run as they were

As long as `current->hf` is not set, or in an interrupt, no `hgoto` jumps, and the
test of `hecaton_global_check` lets every activation pass its cleanup code.  The
activations then take the same courses as those of the functions without insertions:
a run of the one machine is a run of the other, with the masks forgotten.
-/

namespace Hecaton.Pass2

open Hecaton.Clang
open Hecaton.Library

/-! ## Forgetting what was inserted -/

/-- The activation of the function as it was. -/
def Frame.plain (frame : Frame) : Frame where
  code := frame.code.plain
  config := { frame.config with mask := 0, hf := false, jumped := false }

def Kernel.plain (kernel : Kernel) : Kernel := { kernel with left := kernel.left.map Frame.plain }

/-- The activations of the functions as they were. -/
def plainState (state : CallStack Kernel Frame) : CallStack Kernel Frame :=
  ⟨state.shared.plain, state.stack.map Frame.plain⟩

def Action.plain : Action → Action
  | .call callee => .call callee.plain
  | action => action

def plainOutcome : Outcome Kernel Frame → Outcome Kernel Frame
  | .stays kernel frame => .stays kernel.plain frame.plain
  | .calls kernel caller callee => .calls kernel.plain caller.plain callee.plain
  | .leaves kernel => .leaves kernel.plain

theorem plainState_onto (outcome : Outcome Kernel Frame) (rest : List Frame) :
    plainState (outcome.onto rest) = (plainOutcome outcome).onto (rest.map Frame.plain) := by
  cases outcome <;> rfl

theorem plain_leave (kernel : Kernel) (frame : Frame) :
    plainOutcome (kernel.leave frame) = kernel.plain.leave frame.plain :=
  rfl

/-! ## Steps without a fault -/

/-- The flag is not looked at or not set, and every activation is in its body. -/
structure Quiet (m : Machine) (state : CallStack Kernel Frame) : Prop where
  flag : m.inInterrupt = true ∨ state.shared.hf = false
  bodies : ∀ frame ∈ state.stack, frame.phase = .body

/-- No fault happens, or nobody looks at the flag. -/
def Action.IsQuiet (m : Machine) (action : Action) : Prop :=
  m.inInterrupt = true ∨ action ≠ .fault

theorem runPieces_of_not_set (mask : BitVec 64) (pieces : List Piece) :
    (runPieces false mask pieces).2 = false := by
  induction pieces generalizing mask with
  | nil => rfl
  | cons piece rest ih =>
      cases piece with
      | hgoto => exact ih mask
      | stamp update => exact ih (update.apply mask)

section Steps

variable {m : Machine} {kernel : Kernel} {frame : Frame}

/-- Where nobody jumps, only the mask tells what was written at a place. -/
theorem arriveAt_of_quiet (flag : m.inInterrupt = true ∨ kernel.hf = false) (move : Move) :
    m.arriveAt kernel frame move =
      { todo := move.todo
        mask := (runPieces false frame.config.mask
          ((Program.mk frame.code.body frame.code.written m.inInterrupt).piecesBehind move)).1
        hf := false
        jumped := false
        trace := move.seen :: frame.config.trace } := by
  have silent : (kernel.hf && !m.inInterrupt) = false := by
    rcases flag with inInterrupt | notSet
    · simp [inInterrupt]
    · simp [notSet]
  simp only [Machine.arriveAt, Program.arrive, silent, runPieces_of_not_set, Bool.false_eq_true,
    if_false]

theorem piecesBehind_nil (Body : Stmt) (inInterrupt : Bool) (move : Move) :
    (Program.mk Body [] inInterrupt).piecesBehind move = [] := by
  rw [Program.piecesBehind]
  split
  · split
    · rfl
    · rfl
  · rfl

/-- With the test of `hecaton_global_check` in place an activation passes its cleanup code. -/
theorem leaveBody_of_checked (checked : 0 ≤ m.hecatonGlobalCheck) (at_ : Option Stmt) :
    m.leaveBody kernel frame at_ = some (kernel.leave frame) := by
  have notNegative : decide (m.hecatonGlobalCheck < 0) = false :=
    decide_eq_false (Int.not_lt.mpr checked)
  rw [Machine.leaveBody, notNegative, Bool.and_false]
  rfl

/-- In its body an activation goes on as in the function as it was. -/
theorem proceedBody_plain (flag : m.inInterrupt = true ∨ kernel.hf = false)
    (checked : 0 ≤ m.hecatonGlobalCheck) (evaluation : Evaluation) :
    (m.proceedBody evaluation kernel frame).map plainOutcome =
      m.proceedBody evaluation kernel.plain frame.plain := by
  have sameTodo : frame.plain.config.todo = frame.config.todo := rfl
  have sameBody : frame.plain.code.body = frame.code.body := rfl
  have sameFlag : kernel.plain.hf = kernel.hf := rfl
  have plainFlag : m.inInterrupt = true ∨ kernel.plain.hf = false := flag
  rw [Machine.proceedBody, Machine.proceedBody, sameTodo, sameBody, sameFlag]
  cases frame.config.todo with
  | nil => simp only [leaveBody_of_checked checked, Option.map_some, plain_leave]
  | cons task rest =>
      dsimp only
      generalize task.course frame.code.body (evaluation.under kernel.hf) rest = course
      rcases course with _ | (move | todo | s)
      · rfl
      · have plainMask : (runPieces false frame.plain.config.mask
            ((Program.mk frame.plain.code.body frame.plain.code.written m.inInterrupt).piecesBehind
              move)).1 = 0 := by
          rw [show frame.plain.code.written = [] from rfl, piecesBehind_nil]
          rfl
        have plainArrives : m.arriveAt kernel.plain frame.plain move =
            { todo := move.todo, trace := move.seen :: frame.config.trace } := by
          rw [arriveAt_of_quiet plainFlag, plainMask]
          rfl
        simp only [Option.bind_some, arriveAt_of_quiet flag, plainArrives, Bool.false_eq_true,
          if_false, Option.map_some]
        rfl
      · rfl
      · simp only [Option.bind_some, leaveBody_of_checked checked, Option.map_some, plain_leave]

/-- An action does to an activation what it does to that of the function as it was. -/
theorem resume_plain (flag : m.inInterrupt = true ∨ kernel.hf = false)
    (checked : 0 ≤ m.hecatonGlobalCheck) (inBody : frame.phase = .body) (action : Action) :
    (m.resume action kernel frame).map plainOutcome =
      m.resume action.plain kernel.plain frame.plain := by
  have sameRestarted : kernel.plain.restarted = kernel.restarted := rfl
  have plainInBody : frame.plain.phase = .body := rfl
  unfold Machine.resume
  rw [sameRestarted]
  split
  · rfl
  · cases action with
    | fault => rfl
    | call callee =>
        have sameEvaluates : frame.plain.evaluates = frame.evaluates := by
          rw [Frame.evaluates, Frame.evaluates, inBody, plainInBody]
          rfl
        simp only [Action.plain, sameEvaluates]
        split <;> rfl
    | proceed evaluation =>
        simp only [Action.plain, inBody, plainInBody]
        exact proceedBody_plain flag checked evaluation

/-- Unless there is a fault, a step changes no more of the kernel than the list of those that
have left, and the activations stay in their bodies. -/
theorem resume_of_quiet (flag : m.inInterrupt = true ∨ kernel.hf = false)
    (checked : 0 ≤ m.hecatonGlobalCheck) (inBody : frame.phase = .body) {action : Action}
    (notFault : action ≠ .fault) {outcome : Outcome Kernel Frame}
    (resumed : m.resume action kernel frame = some outcome) (rest : List Frame) :
    (∃ left, (outcome.onto rest).shared = { kernel with left := left }) ∧
      Outcome.All (fun frame => frame.phase = .body) outcome := by
  cases (Machine.resume_eq_some_iff.mp resumed).2 with
  | faults => exact absurd rfl notFault
  | calls callee => exact ⟨⟨kernel.left, rfl⟩, inBody, rfl⟩
  | behindLabel evaluation _ doing left phase =>
      rw [inBody] at phase
      cases phase
  | inBody evaluation _ _ proceeded =>
      rw [Machine.proceedBody] at proceeded
      cases todo : frame.config.todo with
      | nil =>
          rw [todo] at proceeded
          dsimp only at proceeded
          rw [leaveBody_of_checked checked] at proceeded
          cases proceeded
          exact ⟨⟨frame :: kernel.left, rfl⟩, trivial⟩
      | cons task others =>
          rw [todo] at proceeded
          obtain ⟨course, _, proceeded⟩ := Option.bind_eq_some_iff.mp proceeded
          cases course with
          | moves move =>
              simp only [arriveAt_of_quiet flag, Bool.false_eq_true, if_false] at proceeded
              cases proceeded
              exact ⟨⟨kernel.left, rfl⟩, inBody⟩
          | goes todo =>
              cases proceeded
              exact ⟨⟨kernel.left, rfl⟩, rfl⟩
          | returns s =>
              dsimp only at proceeded
              rw [leaveBody_of_checked checked] at proceeded
              cases proceeded
              exact ⟨⟨frame :: kernel.left, rfl⟩, trivial⟩

/-- A quiet action leaves the flag alone, and the activations in their bodies. -/
theorem quiet_resume (flag : m.inInterrupt = true ∨ kernel.hf = false)
    (checked : 0 ≤ m.hecatonGlobalCheck) (inBody : frame.phase = .body) {action : Action}
    (quiet : action.IsQuiet m) {outcome : Outcome Kernel Frame}
    (resumed : m.resume action kernel frame = some outcome) (rest : List Frame) :
    (m.inInterrupt = true ∨ (outcome.onto rest).shared.hf = false) ∧
      Outcome.All (fun frame => frame.phase = .body) outcome := by
  by_cases isFault : action = .fault
  · subst isFault
    cases (Machine.resume_eq_some_iff.mp resumed).2
    exact ⟨Or.inl (quiet.resolve_right fun notFault => notFault rfl), inBody⟩
  · obtain ⟨⟨left, sameFlags⟩, bodies⟩ :=
      resume_of_quiet flag checked inBody isFault resumed rest
    rw [sameFlags]
    exact ⟨flag, bodies⟩

end Steps

/-! ## Runs without a fault -/

section Runs

variable {m : Machine} {state next : CallStack Kernel Frame} {action : Action}

theorem step_plain (checked : 0 ≤ m.hecatonGlobalCheck) (quiet : Quiet m state) :
    (m.step action state).map plainState = m.step action.plain (plainState state) := by
  rcases state with ⟨kernel, stack⟩
  cases stack with
  | nil => rfl
  | cons top rest =>
      have inBody := quiet.bodies top List.mem_cons_self
      have resumed := resume_plain quiet.flag checked inBody action
      rw [Machine.step, Machine.step, plainState, List.map_cons, CallStack.step_cons,
        CallStack.step_cons, ← resumed, Option.map_map, Option.map_map]
      congr 1
      funext outcome
      exact plainState_onto outcome rest

theorem quiet_step (checked : 0 ≤ m.hecatonGlobalCheck) (quiet : Quiet m state)
    (quietAction : action.IsQuiet m) (stepped : m.step action state = some next) :
    Quiet m next := by
  obtain ⟨top, rest, outcome, split, resumed, rfl⟩ := CallStack.step_eq_some_iff.mp stepped
  have inBody := quiet.bodies top (split ▸ List.mem_cons_self)
  obtain ⟨flag, bodies⟩ := quiet_resume quiet.flag checked inBody quietAction resumed rest
  constructor
  · exact flag
  · exact CallStack.all_onto bodies fun frame frameMem =>
      quiet.bodies frame (split ▸ List.mem_cons_of_mem _ frameMem)

/-- Without a fault, or in an interrupt, the instrumented functions run as they were: the same
actions are possible, and they lead to the same activations and observations.  No activation
gets behind its label. -/
theorem run_plain (m : Machine) (checked : 0 ≤ m.hecatonGlobalCheck) (actions : List Action)
    (quietActions : ∀ action ∈ actions, action.IsQuiet m) (state : CallStack Kernel Frame)
    (quiet : Quiet m state) :
    (run m.step actions state).map plainState =
        run m.step (actions.map Action.plain) (plainState state) ∧
      ∀ final, run m.step actions state = some final → Quiet m final := by
  constructor
  · have commutes : ∀ ⦃action state⦄, Quiet m state → action.IsQuiet m →
        (m.step action state).map plainState = m.step action.plain (plainState state) :=
      fun _ _ quiet _ => step_plain checked quiet
    have kept : ∀ ⦃action state next⦄, Quiet m state → action.IsQuiet m →
        m.step action state = some next → Quiet m next :=
      fun _ _ _ quiet quietAction stepped => quiet_step checked quiet quietAction stepped
    exact run_map commutes kept quietActions quiet
  · intro final reached
    refine run_invariant ?_ quiet
      (StepsMeet.of_forall (fun action actionMem _ => quietActions action actionMem) state) reached
    intro state action next quiet quietAction stepped
    exact quiet_step checked quiet quietAction stepped

/-- The function with the lock runs to its end below its caller. -/
theorem run_plain_caller :
    (run taskMachine.step (lockedActions ++ goOn 3) callerEntered).map plainState =
        run taskMachine.step ((lockedActions ++ goOn 3).map Action.plain)
          (plainState callerEntered) ∧
      ∀ final, run taskMachine.step (lockedActions ++ goOn 3) callerEntered = some final →
        Quiet taskMachine final := by
  apply run_plain taskMachine (by decide)
  · intro action actionMem
    right
    rintro rfl
    simp [lockedActions, goOn] at actionMem
  · constructor
    · exact Or.inr rfl
    · intro frame frameMem
      rw [List.mem_singleton.mp frameMem]
      rfl

end Runs

end Hecaton.Pass2
