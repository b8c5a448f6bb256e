import Hecaton.Pass2.GotoResolution
import Hecaton.Pass2.Stamps

/-!
# Where control goes

A body runs in steps from one boundary between statements to the next.  A step
runs an expression statement or a declaration, evaluates the header of an `if`,
a loop or a `switch` and goes into what it controls, comes behind one of these, or
follows a label, a `break`, a `continue`, a `goto` or a `return`.

An expression is one step, also a statement expression of GNU C, in which no
statement is a step of its own.  A computed `goto` counts as an expression.
-/

namespace Hecaton.Pass2

open Hecaton.Clang

/-! ## Statements and what they control -/

/-- Behind the semicolon of a statement. -/
def afterSemi (s : Stmt) : SourceLocation := s.info.semiLoc.getLocWithOffset 1

/-- A loop: only these have a next round. -/
def isLoop (s : Stmt) : Bool := s.isFor || s.isWhile || s.isDo

/-- The body of a loop. -/
def loopBody (s : Stmt) : Stmt :=
  if s.isFor then s.forBody else if s.isWhile then s.whileBody else s.doBody

def isCase (s : Stmt) : Bool := s.isa (· == .caseStmt)
def isDefault (s : Stmt) : Bool := s.isa (· == .defaultStmt)

/-- The statement is a label, a `case` or a `default` with a statement behind it. -/
def isMark (s : Stmt) : Bool := s.isLabel || isCase s || isDefault s

/-- The statement behind a mark is its last child. -/
def markedStmt (s : Stmt) : Stmt := s.child (s.children.length - 1)

def switchBody (s : Stmt) : Stmt := s.child 1

/-- The child with this number is a statement that runs under the parent. -/
def controls (parent : Stmt) (i : Nat) : Bool :=
  parent.isCompound || (parent.isIf && (i == 1 || i == 2)) || (parent.isFor && i == 4) ||
    ((parent.isWhile || parent.isSwitch) && i == 1) || (parent.isDo && i == 0) ||
    (isMark parent && i == parent.children.length - 1)

/-- Whether a statement may follow in the same block behind a child of the parent. -/
def lists (parent : Stmt) (listed : Bool) : Bool := parent.isCompound || (isMark parent && listed)

/-- The statements of a tree, those that are listed in a block with or without
marks, and the others: the root and what a header controls without braces. -/
inductive StmtAt (root : Stmt) : Bool → Stmt → Prop
  | root : StmtAt root false root
  | child {listed : Bool} {parent : Stmt} (at_ : StmtAt root listed parent) (i : Nat)
      (controlled : controls parent i = true) : StmtAt root (lists parent listed) (parent.child i)

mutual

/-- Where control arrives behind a statement: behind its last semicolon.  Nothing is
written behind the closing brace of a block. -/
def endPlace : Stmt → Option SourceLocation
  | .null => none
  | .node info cls children =>
      let s := Stmt.node info cls children
      if s.isCompound then none
      else if s.isIf || s.isFor || s.isWhile || s.isSwitch || isMark s then endPlaceOf children
      else some (afterSemi s)

/-- The same behind the last child that is there. -/
def endPlaceOf : List Stmt → Option SourceLocation
  | [] => none
  | child :: later =>
      if later.all Stmt.isNull then endPlace child else endPlaceOf later

end

/-! ## Tasks -/

/-- What is left to do: a statement, the next round of a loop, or to come behind an
`if`, a loop or a `switch`. -/
inductive Task
  | stmt (listed : Bool) (s : Stmt)
  | again (s : Stmt)
  | behind (listed : Bool) (s : Stmt)

/-- What the surroundings decide about an evaluation: the truth value of a header, the
`case` that a `switch` selects, whether the evaluation comes to its end, and which
expressions in it do. -/
structure Evaluation where
  taken : Bool := true
  choice : Nat := 0
  finished : Bool := true
  parts : List Stmt := []

/-- What a step has done: run a statement, evaluated the header of an `if` or a loop
to a truth value, selected a statement of a `switch`, broken off a header, or only
passed on. -/
inductive Observation
  | ran (s : Stmt) (finished : Bool) (parts : List Stmt)
  | evaluated (s : Stmt) (value : Bool)
  | selected (s : Stmt)
  | aborted (s : Stmt)
  | passed

/-- A step in the body: what it has done, where it arrives, and what is left to do. -/
structure Move where
  seen : Observation := .passed
  place : Option SourceLocation := none
  todo : List Task

/-- What a task does: it moves on, goes to a label, or returns. -/
inductive Course
  | moves (move : Move)
  | goes (todo : List Task)
  | returns (s : Stmt)

/-- The place behind a statement, if others can follow it there. -/
def placeAfter (listed : Bool) (s : Stmt) : Option SourceLocation :=
  if listed then endPlace s else none

/-- The statements of a block, in order. -/
def tasksOf (stmts : List Stmt) : List Task :=
  (stmts.filter fun child => !child.isNull).map (.stmt true)

/-- Go into a statement, behind the brace of a block. -/
def enter (seen : Observation) (s : Stmt) (rest : List Task) : Move :=
  if s.isCompound then
    { seen := seen
      place := some (afterBrace s)
      todo := tasksOf s.children ++ rest }
  else
    { seen := seen
      todo := .stmt false s :: rest }

/-- What is seen of the header of an `if` or a loop. -/
def Evaluation.ofHeader (evaluation : Evaluation) (s : Stmt) : Observation :=
  if evaluation.finished then .evaluated s evaluation.taken else .aborted s

/-- Evaluate the condition of an `if` and go into the branch. -/
def evaluateIf (evaluation : Evaluation) (listed : Bool) (s : Stmt) (rest : List Task) : Move :=
  if evaluation.taken then enter (evaluation.ofHeader s) s.ifThen (.behind listed s :: rest)
  else if s.ifElse.isNull then
    { seen := evaluation.ofHeader s
      todo := .behind listed s :: rest }
  else enter (evaluation.ofHeader s) s.ifElse (.behind listed s :: rest)

/-- Evaluate the header of a loop and go into its body.  A `for` without condition
does not end. -/
def evaluateLoop (evaluation : Evaluation) (s : Stmt) (rest : List Task) : Option Move :=
  if evaluation.taken then some (enter (evaluation.ofHeader s) (loopBody s) (.again s :: rest))
  else if s.isFor && s.forCond.isNull then none
  else
    some
      { seen := evaluation.ofHeader s
        todo := rest }

/-- What is left to do behind a child of the parent, when these siblings follow it. -/
def behindChild (parent : Stmt) (listed : Bool) (later : List Stmt) : List Task :=
  if parent.isCompound then tasksOf later
  else if isLoop parent then [.again parent, .behind listed parent]
  else if parent.isIf || parent.isSwitch then [.behind listed parent]
  else []

mutual

/-- What is left to do from each of the targets in a statement on, in the order of the
text, when `after` follows the statement. -/
def tasksFrom (isTarget enters : Stmt → Bool) (listed : Bool) (after : List Task) :
    Stmt → List (List Task)
  | .null => []
  | .node info cls children =>
      let s := Stmt.node info cls children
      (if isTarget s then [.stmt listed s :: after] else []) ++
        if enters s then tasksFromOf isTarget enters listed after s 0 children else []

/-- The same for the children of a statement from number `i` on. -/
def tasksFromOf (isTarget enters : Stmt → Bool) (listed : Bool) (after : List Task)
    (parent : Stmt) (i : Nat) : List Stmt → List (List Task)
  | [] => []
  | child :: later =>
      (if controls parent i then
        tasksFrom isTarget enters (lists parent listed)
          (behindChild parent listed later ++ after) child
      else []) ++ tasksFromOf isTarget enters listed after parent (i + 1) later

end

/-- What is left to do from a label of the body on. -/
def labelTasks (Body : Stmt) (label : String) : Option (List Task) :=
  (tasksFrom (isLabelStmtOf label) (fun _ => true) false [] Body).head?

/-- What is left to do from the marks of a `switch` on; those of a `switch` inside it
are not its own. -/
def switchTasks (isTarget : Stmt → Bool) (s : Stmt) (after : List Task) : List (List Task) :=
  tasksFrom isTarget (fun inner => !inner.isSwitch) false after (switchBody s)

/-- Evaluate the header of a `switch` and go to the `case` selected; when there is none,
to `default`, or behind the `switch`. -/
def evaluateSwitch (evaluation : Evaluation) (listed : Bool) (s : Stmt) (rest : List Task) : Move :=
  let behind := .behind listed s :: rest
  { seen := if evaluation.finished then .selected s else .aborted s
    todo := (switchTasks isCase s behind)[evaluation.choice]?.getD
      ((switchTasks isDefault s behind).head?.getD behind) }

/-- The task is the next round of a loop, where a `continue` leads. -/
def Task.isAgain : Task → Bool
  | .again _ => true
  | _ => false

/-- The task comes behind a loop or a `switch`, where a `break` leads. -/
def Task.isBehind : Task → Bool
  | .behind _ s => isLoop s || s.isSwitch
  | _ => false

/-- The tasks from the first target on. -/
def fromFirst (isTarget : Task → Bool) (rest : List Task) : Option (List Task) :=
  let left := rest.dropWhile fun task => !isTarget task
  if left.isEmpty then none else some left

/-- The move of a task when `rest` follows it. -/
def Task.move (evaluation : Evaluation) (rest : List Task) : Task → Option Move
  | .stmt listed s =>
      if s.isDecl || s.isExpression then
        some
          { seen := .ran s evaluation.finished evaluation.parts
            place := placeAfter listed s
            todo := rest }
      else if s.isCompound then some (enter .passed s rest)
      else if s.isIf then some (evaluateIf evaluation listed s rest)
      else if s.isDo then some (enter .passed s.doBody (.again s :: .behind listed s :: rest))
      else if s.isFor || s.isWhile then evaluateLoop evaluation s (.behind listed s :: rest)
      else if s.isSwitch then some (evaluateSwitch evaluation listed s rest)
      else if isMark s then some { todo := .stmt listed (markedStmt s) :: rest }
      else if s.isBreak then (fromFirst Task.isBehind rest).map fun todo => { todo := todo }
      else if s.isContinue then (fromFirst Task.isAgain rest).map fun todo => { todo := todo }
      else none
  | .again s => if isLoop s then evaluateLoop evaluation s rest else none
  | .behind listed s =>
      some
        { place := placeAfter listed s
          todo := rest }

/-- What a task of the body does when `rest` follows it. -/
def Task.course (Body : Stmt) (evaluation : Evaluation) (rest : List Task) : Task → Option Course
  | .stmt listed s =>
      if s.isReturn then some (.returns s)
      else if s.isGoto then ((gotoLabel s).bind (labelTasks Body)).map .goes
      else ((Task.stmt listed s).move evaluation rest).map .moves
  | task => (task.move evaluation rest).map .moves

/-- Something is evaluated in the course of the task, so that functions can be called. -/
def Task.evaluates : Task → Bool
  | .stmt _ s =>
      s.isExpression || s.isDecl || s.isIf || s.isFor || s.isWhile || s.isSwitch || s.isReturn
  | .again _ => true
  | .behind _ _ => false

/-! ## What a task can do -/

/-- The moves of a task, by what the task is. -/
inductive MoveOf (evaluation : Evaluation) (rest : List Task) : Task → Move → Prop
  | runs (listed : Bool) (s : Stmt) (isRun : (s.isDecl || s.isExpression) = true) :
      MoveOf evaluation rest (.stmt listed s)
        ⟨.ran s evaluation.finished evaluation.parts, placeAfter listed s, rest⟩
  | block (listed : Bool) (s : Stmt) (isCompound : s.isCompound = true) :
      MoveOf evaluation rest (.stmt listed s) (enter .passed s rest)
  | branches (listed : Bool) (s : Stmt) (isIf : s.isIf = true) :
      MoveOf evaluation rest (.stmt listed s) (evaluateIf evaluation listed s rest)
  | does (listed : Bool) (s : Stmt) (isDo : s.isDo = true) :
      MoveOf evaluation rest (.stmt listed s)
        (enter .passed s.doBody (.again s :: .behind listed s :: rest))
  | loops (listed : Bool) (s : Stmt) (loop : isLoop s = true) (move : Move)
      (moved : evaluateLoop evaluation s (.behind listed s :: rest) = some move) :
      MoveOf evaluation rest (.stmt listed s) move
  | switches (listed : Bool) (s : Stmt) (isSwitch : s.isSwitch = true) :
      MoveOf evaluation rest (.stmt listed s) (evaluateSwitch evaluation listed s rest)
  | marks (listed : Bool) (s : Stmt) (marked : isMark s = true) :
      MoveOf evaluation rest (.stmt listed s)
        ⟨.passed, none, .stmt listed (markedStmt s) :: rest⟩
  | leaves (listed : Bool) (s : Stmt) (isTarget : Task → Bool) (todo : List Task)
      (found : fromFirst isTarget rest = some todo) :
      MoveOf evaluation rest (.stmt listed s) ⟨.passed, none, todo⟩
  | again (s : Stmt) (loop : isLoop s = true) (move : Move)
      (moved : evaluateLoop evaluation s rest = some move) :
      MoveOf evaluation rest (.again s) move
  | behind (listed : Bool) (s : Stmt) :
      MoveOf evaluation rest (.behind listed s) ⟨.passed, placeAfter listed s, rest⟩

section Moves

variable {evaluation : Evaluation} {rest : List Task} {task : Task} {move : Move}

theorem moveOf_of_move (moved : task.move evaluation rest = some move) :
    MoveOf evaluation rest task move := by
  cases task with
  | again s =>
      rw [Task.move] at moved
      split at moved
      · rename_i loop
        exact .again s loop move moved
      · cases moved
  | behind listed s =>
      cases moved
      exact .behind listed s
  | stmt listed s =>
      rw [Task.move] at moved
      split at moved
      · rename_i isRun
        cases moved
        exact .runs listed s isRun
      · split at moved
        · rename_i isCompound
          cases moved
          exact .block listed s isCompound
        · split at moved
          · rename_i isIf
            cases moved
            exact .branches listed s isIf
          · split at moved
            · rename_i isDo
              cases moved
              exact .does listed s isDo
            · split at moved
              · rename_i isForOrWhile
                exact .loops listed s (Bool.or_eq_true_iff.mpr (Or.inl isForOrWhile)) move moved
              · split at moved
                · rename_i isSwitch
                  cases moved
                  exact .switches listed s isSwitch
                · split at moved
                  · rename_i marked
                    cases moved
                    exact .marks listed s marked
                  · split at moved
                    · obtain ⟨todo, found, rfl⟩ := Option.map_eq_some_iff.mp moved
                      exact .leaves listed s _ todo found
                    · split at moved
                      · obtain ⟨todo, found, rfl⟩ := Option.map_eq_some_iff.mp moved
                        exact .leaves listed s _ todo found
                      · cases moved

/-- The courses of a task, by what the task is. -/
inductive CourseOf (Body : Stmt) (evaluation : Evaluation) (rest : List Task) :
    Task → Course → Prop
  | moves (task : Task) (move : Move) (moved : task.move evaluation rest = some move) :
      CourseOf Body evaluation rest task (.moves move)
  | goes (listed : Bool) (s : Stmt) (isGoto : s.isGoto = true) (label : String)
      (todo : List Task) (found : labelTasks Body label = some todo) :
      CourseOf Body evaluation rest (.stmt listed s) (.goes todo)
  | returns (listed : Bool) (s : Stmt) (isReturn : s.isReturn = true) :
      CourseOf Body evaluation rest (.stmt listed s) (.returns s)

theorem courseOf_of_course {Body : Stmt} {course : Course}
    (led : task.course Body evaluation rest = some course) :
    CourseOf Body evaluation rest task course := by
  cases task with
  | again s =>
      obtain ⟨move, moved, rfl⟩ := Option.map_eq_some_iff.mp led
      exact .moves _ move moved
  | behind listed s =>
      cases led
      exact .moves _ _ rfl
  | stmt listed s =>
      rw [Task.course] at led
      split at led
      · rename_i isReturn
        cases led
        exact .returns listed s isReturn
      · split at led
        · rename_i isGoto
          obtain ⟨todo, found, rfl⟩ := Option.map_eq_some_iff.mp led
          obtain ⟨label, _, found⟩ := Option.bind_eq_some_iff.mp found
          exact .goes listed s isGoto label todo found
        · obtain ⟨move, moved, rfl⟩ := Option.map_eq_some_iff.mp led
          exact .moves _ move moved

theorem fromFirst_subset {isTarget : Task → Bool} {todo : List Task}
    (found : fromFirst isTarget rest = some todo) {other : Task} (member : other ∈ todo) :
    other ∈ rest := by
  rw [fromFirst] at found
  split at found
  · cases found
  · cases found
    exact (List.dropWhile_suffix _).subset member

end Moves

/-! ## Tasks of a tree -/

/-- The task is about a statement of the tree. -/
def TaskIn (root : Stmt) : Task → Prop
  | .stmt listed s => StmtAt root listed s
  | .again s => isLoop s = true ∧ ∃ listed, StmtAt root listed s
  | .behind listed s => StmtAt root listed s ∧ (s.isIf || isLoop s || s.isSwitch) = true

section TaskIn

variable {root : Stmt} {evaluation : Evaluation} {rest : List Task} {task : Task} {move : Move}

theorem ne_null_of_isa {test : StmtClass → Bool} {s : Stmt} (matched : s.isa test = true) :
    s ≠ .null := by
  rintro rfl
  simp [Stmt.isa] at matched

/-- A statement of a tree is one of its nodes. -/
theorem StmtAt.mem_nodes {listed : Bool} {s : Stmt} (at_ : StmtAt root listed s)
    (nonnull : s ≠ .null) : s ∈ root.nodes := by
  induction at_ with
  | root => exact Stmt.self_mem_nodes nonnull
  | @child _ parent _ i _ ih =>
      have parentNonnull : parent ≠ .null := by
        rintro rfl
        exact nonnull (by simp [Stmt.child, Stmt.children])
      exact Stmt.nodes_trans (Stmt.descendants_subset_nodes
        (Stmt.child_mem_descendants (Stmt.child_mem_children nonnull) nonnull)) (ih parentNonnull)

/-- What a header controls is not listed. -/
theorem lists_of_header {s : Stmt} {listed : Bool}
    (isHeader : (s.isIf || isLoop s || s.isSwitch) = true) : lists s listed = false := by
  cases s with
  | null => cases isHeader
  | node info cls children => cases cls <;> first | rfl | cases isHeader

theorem StmtAt.child_of_header {listed : Bool} {s : Stmt} (at_ : StmtAt root listed s)
    (isHeader : (s.isIf || isLoop s || s.isSwitch) = true) (i : Nat)
    (controlled : controls s i = true) : StmtAt root false (s.child i) := by
  rw [← @lists_of_header s listed isHeader]
  exact .child at_ i controlled

theorem StmtAt.loopBody {listed : Bool} {s : Stmt} (at_ : StmtAt root listed s)
    (loop : isLoop s = true) : StmtAt root false (loopBody s) := by
  have isHeader : (s.isIf || isLoop s || s.isSwitch) = true := by simp [loop]
  rw [Pass2.loopBody]
  split
  · rename_i isFor
    exact at_.child_of_header isHeader 4 (by simp [controls, isFor])
  · split
    · rename_i isWhile
      exact at_.child_of_header isHeader 1 (by simp [controls, isWhile])
    · rename_i notFor notWhile
      have isDo : s.isDo = true := by simpa [isLoop, notFor, notWhile] using loop
      exact at_.child_of_header isHeader 0 (by simp [controls, isDo])

/-- The statements of a block are listed. -/
theorem taskIn_tasksOf {listed : Bool} {s : Stmt} (at_ : StmtAt root listed s)
    (isCompound : s.isCompound = true) {stmts : List Stmt} (among : ∀ n ∈ stmts, n ∈ s.children)
    (taskMem : task ∈ tasksOf stmts) : TaskIn root task := by
  obtain ⟨child, childMem, rfl⟩ := List.mem_map.mp taskMem
  obtain ⟨i, bound, isChild⟩ := List.getElem_of_mem (among child (List.mem_filter.mp childMem).1)
  have sameChild : s.child i = child := by
    rw [Stmt.child, List.getD_eq_getElem _ _ bound, isChild]
  have isListed : lists s listed = true := by simp [lists, isCompound]
  rw [TaskIn, ← sameChild, ← isListed]
  exact .child at_ i (by simp [controls, isCompound])

/-- What is left to do behind going into a statement. -/
theorem taskIn_enter {seen : Observation} {s : Stmt} (at_ : StmtAt root false s)
    (restIn : ∀ other ∈ rest, TaskIn root other) :
    ∀ other ∈ (enter seen s rest).todo, TaskIn root other := by
  intro other otherMem
  rw [enter] at otherMem
  split at otherMem
  · rename_i isCompound
    rcases List.mem_append.mp otherMem with inBlock | inRest
    · exact taskIn_tasksOf at_ isCompound (fun _ member => member) inBlock
    · exact restIn other inRest
  · rcases List.mem_cons.mp otherMem with rfl | inRest
    · exact at_
    · exact restIn other inRest

theorem taskIn_cons (first : TaskIn root task) (restIn : ∀ other ∈ rest, TaskIn root other) :
    ∀ other ∈ task :: rest, TaskIn root other := by
  intro other otherMem
  rcases List.mem_cons.mp otherMem with rfl | inRest
  · exact first
  · exact restIn other inRest

theorem taskIn_behindChild {parent : Stmt} {listed : Bool} (at_ : StmtAt root listed parent)
    {later : List Stmt} (among : ∀ n ∈ later, n ∈ parent.children) :
    ∀ other ∈ behindChild parent listed later, TaskIn root other := by
  intro other otherMem
  rw [behindChild] at otherMem
  split at otherMem
  · rename_i isCompound
    exact taskIn_tasksOf at_ isCompound among otherMem
  · split at otherMem
    · rename_i loop
      refine taskIn_cons ?_ (taskIn_cons ?_ (by simp)) other otherMem
      · exact ⟨loop, listed, at_⟩
      · exact ⟨at_, by simp [loop]⟩
    · split at otherMem
      · rename_i isIfOrSwitch
        refine taskIn_cons ?_ (by simp) other otherMem
        refine ⟨at_, ?_⟩
        rw [Bool.or_assoc, Bool.or_left_comm, Bool.or_comm, isIfOrSwitch]
        rfl
      · cases otherMem

/-- From a target inside a statement of the tree on, the tasks are those of the tree. -/
theorem taskIn_tasksFrom {isTarget enters : Stmt → Bool} (s : Stmt) :
    ∀ {listed : Bool} {after : List Task}, StmtAt root listed s →
      (∀ task ∈ after, TaskIn root task) →
      ∀ todo ∈ tasksFrom isTarget enters listed after s, ∀ task ∈ todo, TaskIn root task := by
  induction s using Stmt.tree_induction with
  | null =>
      intro listed after _ _ todo todoMem
      simp [tasksFrom] at todoMem
  | node info cls children ih =>
      intro listed after at_ afterIn todo todoMem
      -- The children that are still to be searched are the last of all.
      have inChildren : ∀ later i, children.drop i = later →
          ∀ todo ∈ tasksFromOf isTarget enters listed after (.node info cls children) i later,
            ∀ task ∈ todo, TaskIn root task := by
        intro later
        induction later with
        | nil =>
            intro i _ todo todoMem
            simp [tasksFromOf] at todoMem
        | cons child later ihLater =>
            intro i split todo todoMem
            have isChild : (Stmt.node info cls children).child i = child := by
              have atHead := congrArg List.head? split
              rw [List.head?_drop] at atHead
              simp [Stmt.child, Stmt.children, List.getD_eq_getElem?_getD, atHead]
            have laterSplit : children.drop (i + 1) = later := by
              rw [← List.drop_drop, split]
              rfl
            have among : ∀ n ∈ child :: later, n ∈ children := by
              rw [← split]
              exact fun n nMem => List.mem_of_mem_drop nMem
            rw [tasksFromOf] at todoMem
            rcases List.mem_append.mp todoMem with inChild | inLater
            · split at inChild
              · rename_i controlled
                refine ih child (among child List.mem_cons_self) ?_ ?_ todo inChild
                · rw [← isChild]
                  exact .child at_ i controlled
                · intro task taskMem
                  rcases List.mem_append.mp taskMem with inBehind | inAfter
                  · exact taskIn_behindChild at_
                      (fun n nMem => among n (List.mem_cons_of_mem _ nMem)) task inBehind
                  · exact afterIn task inAfter
              · cases inChild
            · exact ihLater (i + 1) laterSplit todo inLater
      rw [tasksFrom] at todoMem
      rcases List.mem_append.mp todoMem with isHere | below
      · split at isHere
        · rw [List.mem_singleton.mp isHere]
          exact taskIn_cons at_ afterIn
        · cases isHere
      · split at below
        · exact inChildren children 0 rfl todo below
        · cases below

/-- A `goto` leads to tasks of the body. -/
theorem taskIn_labelTasks {Body : Stmt} {label : String} {todo : List Task}
    (found : labelTasks Body label = some todo) : ∀ other ∈ todo, TaskIn Body other :=
  taskIn_tasksFrom Body .root (by simp) todo (List.mem_of_head? found)

theorem taskIn_evaluateSwitch {listed : Bool} {s : Stmt} (at_ : StmtAt root listed s)
    (isSwitch : s.isSwitch = true) (restIn : ∀ other ∈ rest, TaskIn root other) :
    ∀ other ∈ (evaluateSwitch evaluation listed s rest).todo, TaskIn root other := by
  have isHeader : (s.isIf || isLoop s || s.isSwitch) = true := by simp [isSwitch]
  have behindIn : ∀ other ∈ .behind listed s :: rest, TaskIn root other :=
    taskIn_cons ⟨at_, isHeader⟩ restIn
  have body : StmtAt root false (switchBody s) :=
    at_.child_of_header isHeader 1 (by simp [controls, isSwitch])
  have marked : ∀ isTarget, ∀ todo ∈ switchTasks isTarget s (.behind listed s :: rest),
      ∀ other ∈ todo, TaskIn root other :=
    fun isTarget => taskIn_tasksFrom (switchBody s) body behindIn
  rw [evaluateSwitch]
  cases selected : (switchTasks isCase s (.behind listed s :: rest))[evaluation.choice]? with
  | some todo => exact marked isCase todo (List.mem_of_getElem? selected)
  | none =>
      cases others : (switchTasks isDefault s (.behind listed s :: rest)).head? with
      | some todo => exact marked isDefault todo (List.mem_of_head? others)
      | none => exact behindIn

theorem taskIn_evaluateLoop {listed : Bool} {s : Stmt} (at_ : StmtAt root listed s)
    (loop : isLoop s = true) (restIn : ∀ other ∈ rest, TaskIn root other)
    (moved : evaluateLoop evaluation s rest = some move) :
    ∀ other ∈ move.todo, TaskIn root other := by
  rw [evaluateLoop] at moved
  split at moved
  · cases moved
    exact taskIn_enter (at_.loopBody loop) (taskIn_cons ⟨loop, listed, at_⟩ restIn)
  · split at moved
    · cases moved
    · cases moved
      exact restIn

/-- A move leads to tasks of the tree. -/
theorem taskIn_move (taskIn : TaskIn root task) (restIn : ∀ other ∈ rest, TaskIn root other)
    (moved : task.move evaluation rest = some move) : ∀ other ∈ move.todo, TaskIn root other := by
  cases moveOf_of_move moved with
  | runs listed s isRun => exact restIn
  | block listed s isCompound =>
      intro other otherMem
      rw [enter, if_pos isCompound] at otherMem
      rcases List.mem_append.mp otherMem with inBlock | inRest
      · exact taskIn_tasksOf taskIn isCompound (fun _ member => member) inBlock
      · exact restIn other inRest
  | branches listed s isIf =>
      have isHeader : (s.isIf || isLoop s || s.isSwitch) = true := by simp [isIf]
      have behindIn : ∀ other ∈ .behind listed s :: rest, TaskIn root other :=
        taskIn_cons ⟨taskIn, isHeader⟩ restIn
      rw [evaluateIf]
      split
      · exact taskIn_enter (taskIn.child_of_header isHeader 1 (by simp [controls, isIf])) behindIn
      · split
        · exact behindIn
        · exact taskIn_enter (taskIn.child_of_header isHeader 2 (by simp [controls, isIf])) behindIn
  | does listed s isDo =>
      have isHeader : (s.isIf || isLoop s || s.isSwitch) = true := by simp [isLoop, isDo]
      have loop : isLoop s = true := by simp [isLoop, isDo]
      have behindIn : ∀ other ∈ .behind listed s :: rest, TaskIn root other :=
        taskIn_cons ⟨taskIn, isHeader⟩ restIn
      have againIn : ∀ other ∈ .again s :: .behind listed s :: rest, TaskIn root other :=
        taskIn_cons ⟨loop, listed, taskIn⟩ behindIn
      exact taskIn_enter (taskIn.child_of_header isHeader 0 (by simp [controls, isDo])) againIn
  | loops listed s loop _ moved =>
      have isHeader : (s.isIf || isLoop s || s.isSwitch) = true := by simp [loop]
      have behindIn : ∀ other ∈ .behind listed s :: rest, TaskIn root other :=
        taskIn_cons ⟨taskIn, isHeader⟩ restIn
      exact taskIn_evaluateLoop taskIn loop behindIn moved
  | switches listed s isSwitch => exact taskIn_evaluateSwitch taskIn isSwitch restIn
  | marks listed s marked =>
      have isListed : lists s listed = listed := by
        cases s with
        | null => cases marked
        | node info cls children => cases cls <;> first | rfl | cases marked
      refine taskIn_cons ?_ restIn
      rw [TaskIn, ← isListed]
      exact .child taskIn _ (by simp [controls, marked])
  | leaves listed s isTarget todo found =>
      exact fun other otherMem => restIn other (fromFirst_subset found otherMem)
  | again s loop _ moved =>
      obtain ⟨_, listed, at_⟩ := taskIn
      exact taskIn_evaluateLoop at_ loop restIn moved
  | behind listed s => exact restIn

/-- A course leads to tasks of the tree, or to a label of the body. -/
theorem taskIn_course {Body : Stmt} {course : Course} (taskIn : TaskIn root task)
    (restIn : ∀ other ∈ rest, TaskIn root other)
    (led : task.course Body evaluation rest = some course) :
    (∀ move, course = .moves move → ∀ other ∈ move.todo, TaskIn root other) ∧
      ∀ todo, course = .goes todo → ∀ other ∈ todo, TaskIn Body other := by
  cases courseOf_of_course led with
  | moves _ move moved =>
      constructor
      · rintro _ ⟨⟩
        exact taskIn_move taskIn restIn moved
      · rintro _ ⟨⟩
  | goes listed s isGoto label todo found =>
      constructor
      · rintro _ ⟨⟩
      · rintro _ ⟨⟩
        exact taskIn_labelTasks found
  | returns listed s isReturn => exact ⟨nofun, nofun⟩

/-- A step that runs no statement of its own arrives nowhere, behind the brace of a
block, or behind a listed `if`, loop or `switch`. -/
structure Passes (root : Stmt) (move : Move) : Prop where
  runsNone : ∀ s finished parts, move.seen ≠ .ran s finished parts
  place : ∀ place, move.place = some place →
    (∃ block ∈ root.nodes, block.isCompound = true ∧ place = afterBrace block) ∨
      ∃ s, StmtAt root true s ∧ (s.isIf || isLoop s || s.isSwitch) = true ∧
        endPlace s = some place

theorem passes_enter {seen : Observation} {listed : Bool} {s : Stmt} (at_ : StmtAt root listed s)
    (runsNone : ∀ s finished parts, seen ≠ .ran s finished parts) :
    Passes root (enter seen s rest) := by
  rw [enter]
  split
  · rename_i isCompound
    refine ⟨runsNone, ?_⟩
    rintro place ⟨⟩
    exact Or.inl ⟨s, at_.mem_nodes (ne_null_of_isa isCompound), isCompound, rfl⟩
  · exact ⟨runsNone, nofun⟩

theorem ofHeader_ne_ran {s other : Stmt} {finished : Bool} {parts : List Stmt} :
    evaluation.ofHeader s ≠ .ran other finished parts := by
  rw [Evaluation.ofHeader]
  split
  · exact Observation.noConfusion
  · exact Observation.noConfusion

theorem passes_evaluateLoop {listed : Bool} {s : Stmt} (at_ : StmtAt root listed s)
    (loop : isLoop s = true) (moved : evaluateLoop evaluation s rest = some move) :
    Passes root move := by
  rw [evaluateLoop] at moved
  split at moved
  · cases moved
    exact passes_enter (at_.loopBody loop) fun _ _ _ => ofHeader_ne_ran
  · split at moved
    · cases moved
    · cases moved
      exact ⟨fun _ _ _ => ofHeader_ne_ran, nofun⟩

/-- A task runs a statement and comes behind it, or it passes. -/
theorem move_cases (taskIn : TaskIn root task) (moved : task.move evaluation rest = some move) :
    (∃ listed s, task = .stmt listed s ∧ (s.isDecl || s.isExpression) = true ∧
        move = ⟨.ran s evaluation.finished evaluation.parts, placeAfter listed s, rest⟩) ∨
      Passes root move := by
  cases moveOf_of_move moved with
  | runs listed s isRun => exact Or.inl ⟨listed, s, rfl, isRun, rfl⟩
  | block listed s isCompound => exact Or.inr (passes_enter taskIn nofun)
  | branches listed s isIf =>
      right
      have isHeader : (s.isIf || isLoop s || s.isSwitch) = true := by simp [isIf]
      rw [evaluateIf]
      split
      · exact passes_enter (taskIn.child_of_header isHeader 1 (by simp [controls, isIf]))
          fun _ _ _ => ofHeader_ne_ran
      · split
        · exact ⟨fun _ _ _ => ofHeader_ne_ran, nofun⟩
        · exact passes_enter (taskIn.child_of_header isHeader 2 (by simp [controls, isIf]))
            fun _ _ _ => ofHeader_ne_ran
  | does listed s isDo =>
      have isHeader : (s.isIf || isLoop s || s.isSwitch) = true := by simp [isLoop, isDo]
      exact Or.inr
        (passes_enter (taskIn.child_of_header isHeader 0 (by simp [controls, isDo])) nofun)
  | loops listed s loop _ moved => exact Or.inr (passes_evaluateLoop taskIn loop moved)
  | switches listed s isSwitch =>
      refine Or.inr ⟨?_, nofun⟩
      intro _ _ _
      rw [evaluateSwitch]
      dsimp only
      split
      · exact Observation.noConfusion
      · exact Observation.noConfusion
  | marks listed s marked => exact Or.inr ⟨nofun, nofun⟩
  | leaves listed s isTarget todo found => exact Or.inr ⟨nofun, nofun⟩
  | again s loop _ moved =>
      obtain ⟨_, listed, at_⟩ := taskIn
      exact Or.inr (passes_evaluateLoop at_ loop moved)
  | behind listed s =>
      refine Or.inr ⟨nofun, ?_⟩
      intro place arrives
      right
      cases listed with
      | false => cases arrives
      | true => exact ⟨s, taskIn.1, taskIn.2, arrives⟩

end TaskIn

/-! ## Ways through a body -/

/-- An execution of the body can arrive at the place. -/
def Arrives (Body : Stmt) (place : SourceLocation) : Prop :=
  ∃ task evaluation rest move, TaskIn Body task ∧
    task.course Body evaluation rest = some (.moves move) ∧ move.place = some place

theorem course_of_run {Body : Stmt} {evaluation : Evaluation} {rest : List Task} {listed : Bool}
    {s : Stmt} (isRun : (s.isDecl || s.isExpression) = true) :
    (Task.stmt listed s).course Body evaluation rest =
      some (.moves ⟨.ran s evaluation.finished evaluation.parts, placeAfter listed s, rest⟩) := by
  cases s with
  | null => cases isRun
  | node info cls children => cases cls <;> first | rfl | exact absurd isRun Bool.false_ne_true

theorem arrives_of_isCompound {Body block : Stmt} {listed : Bool} (at_ : StmtAt Body listed block)
    (isCompound : block.isCompound = true) : Arrives Body (afterBrace block) := by
  refine ⟨.stmt listed block, {}, [], enter .passed block [], at_, ?_, ?_⟩
  · cases block with
    | null => cases isCompound
    | node info cls children =>
        cases cls <;> first | rfl | exact absurd isCompound Bool.false_ne_true
  · rw [enter, if_pos isCompound]

theorem arrives_of_run {Body s : Stmt} (at_ : StmtAt Body true s)
    (isRun : (s.isDecl || s.isExpression) = true) : Arrives Body (afterSemi s) := by
  refine ⟨.stmt true s, {}, [], _, at_, course_of_run isRun, ?_⟩
  cases s with
  | null => cases isRun
  | node info cls children => cases cls <;> first | rfl | exact absurd isRun Bool.false_ne_true

end Hecaton.Pass2
