import Hecaton.Library.CallStack
import Hecaton.Pass2.Tracking

/-!
# Activations of instrumented functions

The instrumented functions call each other, and all of them look at the same flag
`current->hf`, which the kernel's exception handler sets.  An `hgoto` that finds it
set jumps to the function's cleanup code.  This code clears the flag, runs the undo
statements whose bits are set, sets the flag again and returns, so that the caller
jumps in its turn.  The cleanup code of a closing function restarts the kernel.

Only functions run whose insertions stand at boundaries between statements.  Elsewhere,
before a semicolon that stands apart for instance, what is written splits a statement
and the text is no C any more.
-/

namespace Hecaton.Pass2

open Hecaton.Clang
open Hecaton.Library

/-! ## Functions -/

/-- What stands behind the label of a function. -/
inductive Cleanup
  | absent
  | restart
  | undo (entries : List CleanupEntry)

/-- The part of `generate_cleanup_str` that decides what stands there. -/
def cleanupOf (f : Function) (numberOfGotos : Nat) : Cleanup :=
  if f.isClosing then .restart
  else if numberOfGotos > 0 then .undo (cleanupEntries f)
  else .absent

theorem eq_of_cleanupOf_eq_undo {f : Function} {numberOfGotos : Nat} {entries : List CleanupEntry}
    (cleanup : cleanupOf f numberOfGotos = .undo entries) : entries = cleanupEntries f := by
  rw [cleanupOf] at cleanup
  split at cleanup
  · cases cleanup
  · split at cleanup
    · exact (Cleanup.undo.inj cleanup).symm
    · cases cleanup

/-- A function as instrumented.  A jump needs a label. -/
structure Bowknot where
  body : Stmt
  written : List Insertion
  cleanup : Cleanup
  labelled : cleanup = .absent → ∀ insertion ∈ written, insertion.piece ≠ .hgoto

/-- A function that can run: what the pass has written stands where executions of the
body arrive, as far as it is written at all. -/
structure PlacedBowknot extends Bowknot where
  placed : ∀ insertion ∈ written, insertion.loc.isMacroID = false → Arrives body insertion.loc

/-- The function as it was. -/
def PlacedBowknot.plain (code : PlacedBowknot) : PlacedBowknot where
  body := code.body
  written := []
  cleanup := .absent
  labelled := by simp
  placed := by simp

/-- `number_of_gotos` of a function that starts the count anew. -/
def numberOfGotos (sm : SourceManager) (f : Function) : Nat :=
  (insertGotosBlocks f.body).length + (insertGotos sm f.body).length

theorem piece_ne_hgoto_of_mem_stamps {sm : SourceManager} {f : Function} {insertion : Insertion}
    (written : insertion ∈ insertPairmaskStamps sm f) : insertion.piece ≠ .hgoto := by
  rw [insertPairmaskStamps_eq] at written
  obtain ⟨entry, _, inEntry⟩ := List.mem_flatMap.mp written
  rcases List.mem_append.mp inEntry with inUnsets | inSets
  · obtain ⟨stmt, _, inStamp⟩ := List.mem_flatMap.mp inUnsets
    rw [(mem_stampOf.mp inStamp).2.1]
    exact Piece.noConfusion
  · obtain ⟨stmt, _, inStamp⟩ := List.mem_flatMap.mp inSets
    rw [(mem_stampOf.mp inStamp).2.1]
    exact Piece.noConfusion

/-- The function that the pass writes for an analysed one. -/
def bowknot (sm : SourceManager) (f : Function) : Bowknot where
  body := f.body
  written := insertions sm f
  cleanup := cleanupOf f (numberOfGotos sm f)
  labelled := by
    intro absent insertion insertionMem
    rw [cleanupOf] at absent
    split at absent
    · cases absent
    · rename_i notClosing
      split at absent
      · cases absent
      · rename_i noGotos
        have noBlocks : insertGotosBlocks f.body = [] := by
          apply List.eq_nil_of_length_eq_zero
          rw [numberOfGotos] at noGotos
          omega
        have noSemis : insertGotos sm f.body = [] := by
          apply List.eq_nil_of_length_eq_zero
          rw [numberOfGotos] at noGotos
          omega
        rw [insertions, noBlocks, noSemis, if_neg notClosing] at insertionMem
        exact piece_ne_hgoto_of_mem_stamps insertionMem

/-- The statements of the cleanup code. -/
def Bowknot.entries (code : Bowknot) : List CleanupEntry :=
  match code.cleanup with
  | .undo entries => entries
  | _ => []

/-! ## Activations -/

/-- Where an activation is: in the body, or behind the label, with what is left of
the undo statement at work and the entries that follow. -/
inductive Phase
  | body
  | undo (doing : List Task) (left : List CleanupEntry)

/-- An activation of a function.  `undone` are the entries whose statements its
cleanup code has begun to run. -/
structure Frame where
  code : PlacedBowknot
  config : Config
  phase : Phase := .body
  undone : List CleanupEntry := []

/-- The activation is behind the label. -/
def Frame.cleans (frame : Frame) : Bool :=
  match frame.phase with
  | .body => false
  | .undo _ _ => true

/-- The cleanup code has been run to its end. -/
def Frame.cleaned (frame : Frame) : Prop := frame.phase = .undo [] []

/-- A function is entered. -/
def PlacedBowknot.enter (code : PlacedBowknot) : Frame where
  code := code
  config := start code.body

/-- An activation with other tasks. -/
def Frame.continueWith (frame : Frame) (todo : List Task) : Frame :=
  { frame with config := { frame.config with todo := todo }, phase := .body }

/-- The activation can call functions now. -/
def Frame.evaluates (frame : Frame) : Bool :=
  match frame.phase with
  | .body => frame.config.todo.head?.any Task.evaluates
  | .undo (task :: _) _ => task.evaluates
  | .undo [] (entry :: _) =>
      BitMask.test frame.config.mask entry.pairmaskId && entry.stmt.isExpression
  | .undo [] [] => false

/-- What the activations share: `current->hf`, whether the kernel has been
restarted, and the activations that have left, the latest first. -/
structure Kernel where
  hf : Bool := false
  restarted : Bool := false
  left : List Frame := []

/-- The surroundings: whether this is an interrupt, and `hecaton_global_check`. -/
structure Machine where
  inInterrupt : Bool
  hecatonGlobalCheck : Int

/-- What happens next: the exception handler sets `current->hf`, the activation on
top calls a function, or it goes on with what it evaluates, if it does. -/
inductive Action
  | fault
  | call (callee : PlacedBowknot)
  | proceed (evaluation : Evaluation)

/-! ## Steps -/

/-- The activation arrives at its label. -/
def Kernel.reachLabel (kernel : Kernel) (frame : Frame) : Option (Outcome Kernel Frame) :=
  match frame.code.cleanup with
  | .absent => none
  | .restart => some (.stays { kernel with restarted := true } frame)
  | .undo entries =>
      some (.stays { kernel with hf := false }
        { frame with phase := .undo [] entries, undone := [] })

/-- The activation leaves. -/
def Kernel.leave (kernel : Kernel) (frame : Frame) : Outcome Kernel Frame :=
  .leaves { kernel with left := frame :: kernel.left }

/-- The last `return` among the body's statements. -/
def lastReturn (Body : Stmt) : Option Stmt := (Body.children.filter Stmt.isReturn).getLast?

/-- The cleanup code stands in front of the given `return`, or with `none` at the end of
the body. -/
def cleanupStandsAt (Body : Stmt) (at_ : Option Stmt) : Bool :=
  match at_, lastReturn Body with
  | some s, some last => s.same last
  | none, none => true
  | _, _ => false

/-- There is cleanup code. -/
def Bowknot.hasCleanup (code : Bowknot) : Bool :=
  match code.cleanup with
  | .absent => false
  | _ => true

namespace Machine

variable (m : Machine)

/-- The activation comes to a `return`, or with `none` to the end of its body.  If the
cleanup code stands there, its test lets the activation pass unless
`hecaton_global_check` is negative. -/
def leaveBody (kernel : Kernel) (frame : Frame) (at_ : Option Stmt) :
    Option (Outcome Kernel Frame) :=
  if frame.code.hasCleanup && cleanupStandsAt frame.code.body at_ && m.hecatonGlobalCheck < 0 then
    kernel.reachLabel frame
  else some (kernel.leave frame)

/-- The state of the body behind a move; the flag is the kernel's. -/
def arriveAt (kernel : Kernel) (frame : Frame) (move : Move) : Config :=
  { (Program.mk frame.code.body frame.code.written m.inInterrupt).arrive kernel.hf frame.config
      move with hf := false }

/-- The activation goes on in its body. -/
def proceedBody (evaluation : Evaluation) (kernel : Kernel) (frame : Frame) :
    Option (Outcome Kernel Frame) :=
  match frame.config.todo with
  | [] => m.leaveBody kernel frame none
  | task :: rest =>
      (task.course frame.code.body (evaluation.under kernel.hf) rest).bind fun
        | .moves move =>
            let config := m.arriveAt kernel frame move
            if config.jumped then kernel.reachLabel { frame with config := config }
            else some (.stays kernel { frame with config := config })
        | .goes todo => some (.stays kernel (frame.continueWith todo))
        | .returns s => m.leaveBody kernel frame (some s)

/-- The activation goes on behind its label. -/
def proceedUndo (evaluation : Evaluation) (kernel : Kernel) (frame : Frame) :
    List Task → List CleanupEntry → Option (Outcome Kernel Frame)
  | [], [] => some ({ kernel with hf := true }.leave frame)
  | [], entry :: left =>
      if BitMask.test frame.config.mask entry.pairmaskId then
        some (.stays kernel
          { frame with
            phase := .undo (if entry.stmt.isExpression then [] else [.stmt false entry.stmt]) left
            undone := frame.undone ++ [entry] })
      else some (.stays kernel { frame with phase := .undo [] left })
  | task :: rest, left =>
      (task.course frame.code.body (evaluation.under kernel.hf) rest).bind fun
        | .moves move =>
            let config := m.arriveAt kernel frame move
            -- The trace is that of the body.
            let frame := { frame with config := { frame.config with mask := config.mask } }
            if config.jumped then kernel.reachLabel frame
            else some (.stays kernel { frame with phase := .undo config.todo left })
        | .goes todo => some (.stays kernel (frame.continueWith todo))
        | .returns _ => some (kernel.leave frame)

/-- One action of the activation on top. -/
def resume (action : Action) (kernel : Kernel) (frame : Frame) : Option (Outcome Kernel Frame) :=
  if kernel.restarted then none
  else
    match action with
    | .fault => some (.stays { kernel with hf := true } frame)
    | .call callee => if frame.evaluates then some (.calls kernel frame callee.enter) else none
    | .proceed evaluation =>
        match frame.phase with
        | .body => m.proceedBody evaluation kernel frame
        | .undo doing left => m.proceedUndo evaluation kernel frame doing left

/-- One action of the machine. -/
def step (action : Action) (state : CallStack Kernel Frame) : Option (CallStack Kernel Frame) :=
  CallStack.step m.resume action state

end Machine

/-! ## What an action can do -/

/-- What an action of the activation on top leads to. -/
inductive OutcomeOf (m : Machine) (kernel : Kernel) (frame : Frame) :
    Action → Outcome Kernel Frame → Prop
  | faults : OutcomeOf m kernel frame .fault (.stays { kernel with hf := true } frame)
  | calls (callee : PlacedBowknot) (evaluates : frame.evaluates = true) :
      OutcomeOf m kernel frame (.call callee) (.calls kernel frame callee.enter)
  | inBody (evaluation : Evaluation) (outcome : Outcome Kernel Frame) (phase : frame.phase = .body)
      (proceeded : m.proceedBody evaluation kernel frame = some outcome) :
      OutcomeOf m kernel frame (.proceed evaluation) outcome
  | behindLabel (evaluation : Evaluation) (outcome : Outcome Kernel Frame) (doing : List Task)
      (left : List CleanupEntry) (phase : frame.phase = .undo doing left)
      (proceeded : m.proceedUndo evaluation kernel frame doing left = some outcome) :
      OutcomeOf m kernel frame (.proceed evaluation) outcome

section Actions

variable {m : Machine} {kernel : Kernel} {frame : Frame} {action : Action}

theorem Machine.resume_eq_some_iff {outcome : Outcome Kernel Frame} :
    m.resume action kernel frame = some outcome ↔
      kernel.restarted = false ∧ OutcomeOf m kernel frame action outcome := by
  unfold Machine.resume
  constructor
  · intro resumed
    split at resumed
    · cases resumed
    · rename_i notRestarted
      refine ⟨Bool.eq_false_of_not_eq_true notRestarted, ?_⟩
      cases action with
      | fault =>
          cases resumed
          exact .faults
      | call callee =>
          dsimp only at resumed
          split at resumed
          · rename_i evaluates
            cases resumed
            exact .calls callee evaluates
          · cases resumed
      | proceed evaluation =>
          dsimp only at resumed
          split at resumed
          · rename_i phase
            exact .inBody evaluation outcome phase resumed
          · rename_i doing left phase
            exact .behindLabel evaluation outcome doing left phase resumed
  · rintro ⟨notRestarted, led⟩
    rw [if_neg (Bool.not_eq_true _ ▸ notRestarted)]
    cases led with
    | faults => rfl
    | calls callee evaluates => exact if_pos evaluates
    | inBody evaluation _ phase proceeded => simp only [phase, proceeded]
    | behindLabel evaluation _ doing left phase proceeded => simp only [phase, proceeded]

/-- A step is an action of the activation on top, in a kernel that has not been restarted. -/
theorem Machine.step_eq_some_iff {state next : CallStack Kernel Frame} :
    m.step action state = some next ↔
      ∃ top rest outcome, state.stack = top :: rest ∧ state.shared.restarted = false ∧
        OutcomeOf m state.shared top action outcome ∧ next = outcome.onto rest := by
  rw [Machine.step, CallStack.step_eq_some_iff]
  simp only [Machine.resume_eq_some_iff, and_assoc]

theorem not_restarted_of_step {state next : CallStack Kernel Frame}
    (stepped : m.step action state = some next) : state.shared.restarted = false := by
  obtain ⟨_, _, _, _, notRestarted, _⟩ := Machine.step_eq_some_iff.mp stepped
  exact notRestarted

end Actions

/-! ## Two functions -/

/-- In a block of expression statements executions arrive behind its brace and behind each of
them. -/
theorem arrives_of_exprStmts {Body : Stmt} (isBlock : Body.isCompound = true)
    (exprStmts : Body.children.all Stmt.isExpression = true) (places : List SourceLocation)
    (among : (places.all fun place =>
      decide (place ∈ afterBrace Body :: Body.children.map afterSemi)) = true) :
    ∀ place ∈ places, Arrives Body place := by
  intro place placeMem
  have isPlace := of_decide_eq_true (List.all_eq_true.mp among place placeMem)
  rcases List.mem_cons.mp isPlace with rfl | behindChild
  · exact arrives_of_isCompound .root isBlock
  · obtain ⟨s, sMem, rfl⟩ := List.mem_map.mp behindChild
    have isExpression := List.all_eq_true.mp exprStmts s sMem
    have task : TaskIn Body (.stmt true s) := taskIn_tasksOf .root isBlock
      (fun n nMem => nMem) (List.mem_map.mpr ⟨s, List.mem_filter.mpr ⟨sMem, by
        rw [Stmt.isNull_eq_false (ne_null_of_isa isExpression)]
        rfl⟩, rfl⟩)
    exact arrives_of_run task (by rw [isExpression, Bool.or_true])

/-- The function with the lock, each statement on a line of its own. -/
def probeBowknot : PlacedBowknot where
  toBowknot := bowknot Build.shortTokens (assignPairmaskId (lockedFunction 3))
  placed := fun insertion insertionMem _ =>
    arrives_of_exprStmts rfl rfl
      ((insertions Build.shortTokens (assignPairmaskId (lockedFunction 3))).map Insertion.loc)
      (by decide) _ (List.mem_map_of_mem insertionMem)

/-- `{ probe(m); use(m); }`, which has nothing to undo. -/
def callerFunction : Function where
  body := Build.block 20 100 11 140 14
    [Build.callOf 21 110 12 "probe" "m", Build.callOf 24 125 13 "use" "m"]
  typeStr := "void"
  name := "caller"

def callerBowknot : PlacedBowknot where
  toBowknot := bowknot Build.shortTokens (assignPairmaskId callerFunction)
  placed := fun insertion insertionMem _ =>
    arrives_of_exprStmts rfl rfl
      ((insertions Build.shortTokens (assignPairmaskId callerFunction)).map Insertion.loc)
      (by decide) _ (List.mem_map_of_mem insertionMem)

/-- A task of the kernel, outside of interrupts. -/
def taskMachine : Machine where
  inInterrupt := false
  hecatonGlobalCheck := 0

/-- The caller has been entered. -/
def callerEntered : CallStack Kernel Frame := ⟨{}, [callerBowknot.enter]⟩

/-- The activation on top goes on for some steps. -/
def goOn (n : Nat) : List Action := List.replicate n (.proceed brokenOff)

/-- The caller calls the function with the lock, which gets to the statement behind the lock. -/
def lockedActions : List Action :=
  .proceed brokenOff :: .call probeBowknot :: goOn 3

end Hecaton.Pass2
