import Hecaton.Library.Run
import Hecaton.Pass2.Control

/-!
# Executions of the instrumented body

An execution takes the steps of the body and runs what the pass wrote at the place
that a step arrives at.  With `current->hf` set an evaluation may be broken off, and
an `hgoto` jumps, unless the body runs in an interrupt.
-/

namespace Hecaton.Pass2

open Hecaton.Clang
open Hecaton.Library

/-- What the surroundings decide in a step: an evaluation, and whether `current->hf` is
set by its end. -/
structure Event extends Evaluation where
  hf : Bool := false

/-- An evaluation is only broken off when `current->hf` is set. -/
def Evaluation.under (evaluation : Evaluation) (hf : Bool) : Evaluation :=
  { evaluation with finished := evaluation.finished || !hf }

/-- Whatever is evaluated is broken off as soon as `current->hf` is set. -/
def brokenOff : Evaluation where
  finished := false

/-- The state between two statements. -/
structure Config where
  todo : List Task
  mask : BitVec 64 := 0
  hf : Bool := false
  jumped : Bool := false
  trace : List Observation := []

/-- The instrumented program, and whether it runs in an interrupt. -/
structure Program where
  body : Stmt
  written : List Insertion
  inInterrupt : Bool

/-! ## The pieces at a place -/

/-- Run pieces; `hf` is `current->hf` outside interrupts.  The flag returned says
that a jump was taken. -/
def runPieces (hf : Bool) (mask : BitVec 64) : List Piece → BitVec 64 × Bool
  | [] => (mask, false)
  | .hgoto :: rest => if hf then (mask, true) else runPieces hf mask rest
  | .stamp update :: rest => runPieces hf (update.apply mask) rest

/-- The pieces at the place a move arrives at.  The rewriter inserts nothing in a macro
expansion.  A piece at a place where no move arrives splits a statement; a text with one
is no C and has no executions, as `PlacedBowknot` says of whole functions. -/
def Program.piecesBehind (program : Program) (move : Move) : List Piece :=
  match move.place with
  | some place => if place.isMacroID then [] else piecesAt program.written place
  | none => []

/-- Where a course leads in the body. -/
def Course.move : Course → Move
  | .moves move => move
  | .goes todo => { todo := todo }
  | .returns _ => { todo := [] }

/-- The state after a move, at whose end `current->hf` is as given. -/
def Program.arrive (program : Program) (hf : Bool) (config : Config) (move : Move) : Config :=
  let ran := runPieces (hf && !program.inInterrupt) config.mask (program.piecesBehind move)
  { todo := if ran.2 then [] else move.todo
    mask := ran.1
    hf := hf
    jumped := ran.2
    trace := move.seen :: config.trace }

/-- One step from boundary to boundary. -/
def Program.step (program : Program) (event : Event) (config : Config) : Option Config :=
  match config.todo with
  | [] => none
  | task :: rest =>
      let hf := config.hf || event.hf
      (task.course program.body (event.toEvaluation.under hf) rest).map fun course =>
        program.arrive hf config course.move

/-- The state in which the body is entered. -/
def start (Body : Stmt) : Config where
  todo := [.stmt false Body]

/-- The body of a function as instrumented. -/
def instrumented (sm : SourceManager) (f : Function) (inInterrupt : Bool) : Program where
  body := f.body
  written := insertions sm f
  inInterrupt := inInterrupt

/-! ## Where a step arrives -/

theorem step_eq_some_iff {program : Program} {event : Event} {config next : Config} :
    program.step event config = some next ↔
      ∃ task rest course, config.todo = task :: rest ∧
        task.course program.body (event.toEvaluation.under (config.hf || event.hf)) rest =
          some course ∧
        next = program.arrive (config.hf || event.hf) config course.move := by
  rw [Program.step]
  cases config.todo with
  | nil => simp
  | cons task rest =>
      dsimp only
      rw [Option.map_eq_some_iff]
      constructor
      · rintro ⟨course, led, rfl⟩
        exact ⟨task, rest, course, rfl, led, rfl⟩
      · rintro ⟨_, _, course, same, led, rfl⟩
        cases same
        exact ⟨course, led, rfl⟩

section Course

variable {Body : Stmt} {evaluation : Evaluation} {rest : List Task} {task : Task} {course : Course}

/-- In the body every course leads to tasks of the body. -/
theorem taskIn_courseMove (taskIn : TaskIn Body task) (restIn : ∀ other ∈ rest, TaskIn Body other)
    (led : task.course Body evaluation rest = some course) :
    ∀ other ∈ course.move.todo, TaskIn Body other := by
  obtain ⟨moves, goes⟩ := taskIn_course taskIn restIn led
  cases course with
  | moves move => exact moves move rfl
  | goes todo => exact goes todo rfl
  | returns s => exact fun other otherMem => absurd otherMem List.not_mem_nil

/-- A course runs a statement and comes behind it, or it passes. -/
theorem course_cases {root : Stmt} (taskIn : TaskIn root task)
    (led : task.course Body evaluation rest = some course) :
    (∃ listed s, task = .stmt listed s ∧ (s.isDecl || s.isExpression) = true ∧ course.move =
        ⟨.ran s evaluation.finished evaluation.parts, placeAfter listed s, rest⟩) ∨
      Passes root course.move := by
  cases courseOf_of_course led with
  | moves _ move moved => exact move_cases taskIn moved
  | goes => exact Or.inr ⟨nofun, nofun⟩
  | returns => exact Or.inr ⟨nofun, nofun⟩

end Course

/-! ## What the pieces do -/

theorem runPieces_stamps (hf : Bool) (mask : BitVec 64) (updates : List (BitMask.Update 64)) :
    runPieces hf mask (updates.map .stamp) = (BitMask.applyAll mask updates, false) := by
  induction updates generalizing mask with
  | nil => rfl
  | cons update rest ih => simp [runPieces, ih]

/-- A jump leaves the mask alone; without one all stamps of the place are run. -/
theorem runPieces_gotos_stamps (hf : Bool) (mask : BitVec 64) {gotos : List Piece}
    (onlyGotos : ∀ piece ∈ gotos, piece = .hgoto) (updates : List (BitMask.Update 64)) :
    runPieces hf mask (gotos ++ updates.map .stamp) =
      if hf = true ∧ gotos ≠ [] then (mask, true)
      else (BitMask.applyAll mask updates, false) := by
  induction gotos with
  | nil => simp [runPieces_stamps]
  | cons piece rest ih =>
      have ih := ih fun other otherMem => onlyGotos other (List.mem_cons_of_mem _ otherMem)
      rw [onlyGotos piece List.mem_cons_self, List.cons_append, runPieces]
      cases hf with
      | true => simp
      | false => simpa using ih

/-- What happens at a place of the instrumented body. -/
theorem runPieces_insertions {sm : SourceManager} {f : Function} (notClosing : f.isClosing = false)
    (hf : Bool) (mask : BitVec 64) (place : SourceLocation) :
    runPieces hf mask (piecesAt (insertions sm f) place) =
      if hf = true ∧ piecesAt (insertGotosBlocks f.body ++ insertGotos sm f.body) place ≠ [] then
        (mask, true)
      else
        (BitMask.applyAll mask (updatesAt (insertPairmaskStamps sm f) place), false) := by
  rw [piecesAt_insertions notClosing]
  exact runPieces_gotos_stamps hf mask (fun _ => hgoto_of_mem_piecesAt) _

/-! ## The state a step arrives in -/

section Arrival

variable {program : Program} {hf : Bool} {config : Config} {move : Move}

theorem trace_arrive :
    (program.arrive hf config move).trace = move.seen :: config.trace :=
  rfl

theorem mem_todo_arrive {other : Task}
    (member : other ∈ (program.arrive hf config move).todo) : other ∈ move.todo := by
  simp only [Program.arrive] at member
  split at member
  · exact absurd member List.not_mem_nil
  · exact member

theorem mask_arrive_of_no_place (nowhere : move.place = none) :
    (program.arrive hf config move).mask = config.mask := by
  simp [Program.arrive, Program.piecesBehind, nowhere, runPieces]

/-- Whether the stamps of a place are run by an execution that comes there: the place is in no
macro, and no jump is taken there. -/
def StampsRun (sm : SourceManager) (Body : Stmt) (inInterrupt hf : Bool) (place : SourceLocation) :
    Prop :=
  place.isMacroID = false ∧
    ¬ ((hf && !inInterrupt) = true ∧
      piecesAt (insertGotosBlocks Body ++ insertGotos sm Body) place ≠ [])

instance (sm : SourceManager) (Body : Stmt) (inInterrupt hf : Bool) (place : SourceLocation) :
    Decidable (StampsRun sm Body inInterrupt hf place) :=
  inferInstanceAs (Decidable (_ ∧ ¬ (_ ∧ _)))

/-- The mask behind a step: the stamps of the place have run or not. -/
theorem mask_arrive {sm : SourceManager} {f : Function} {inInterrupt : Bool}
    (notClosing : f.isClosing = false) {place : SourceLocation} (atPlace : move.place = some place) :
    ((instrumented sm f inInterrupt).arrive hf config move).mask =
      if StampsRun sm f.body inInterrupt hf place then
        BitMask.applyAll config.mask (updatesAt (insertPairmaskStamps sm f) place)
      else config.mask := by
  have pieces : (instrumented sm f inInterrupt).piecesBehind move =
      if place.isMacroID then [] else piecesAt (insertions sm f) place := by
    simp only [Program.piecesBehind, atPlace, instrumented]
  change (runPieces (hf && !inInterrupt) config.mask
    ((instrumented sm f inInterrupt).piecesBehind move)).1 = _
  rw [pieces]
  cases inMacro : place.isMacroID with
  | true => simp [StampsRun, inMacro, runPieces]
  | false =>
      simp only [Bool.false_eq_true, if_false, runPieces_insertions notClosing, StampsRun, inMacro,
        true_and, ite_not]
      split
      · rfl
      · rfl

end Arrival

end Hecaton.Pass2
