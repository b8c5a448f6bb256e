import Hecaton.Library.Calls
import Hecaton.Pass1.DeclGroups
import Mathlib.Logic.Function.Basic

/-!
# Static variables

Both ways in which the pass rewrites a declaration write its type without the storage class.
A static variable that is declared anew lives for one call, and gets its initial value
whenever the call passes the assignment.  Two texts of a function are run with the same
calls, one after the other: a call passes the places of the declarations, and reads and
writes the static variables.
-/

namespace Hecaton.Pass1

open Hecaton.Library

/-! ## The static variables -/

/-- The variables that a statement declares static and initialised. -/
def DeclStmt.statics (stmt : DeclStmt) : List Nat :=
  if stmt.isStatic then stmt.initialisers.map Declarator.id else []

/-- The variables that are declared static and initialised. -/
def FunctionBody.statics (body : FunctionBody) : List Nat :=
  (stmtsOf body.groups).flatMap DeclStmt.statics

abbrev FunctionBody.Static (body : FunctionBody) : Type := { x : Nat // x ∈ body.statics }

/-- The static variables of a group that are declared anew. -/
def Group.anew (group : Group) : List Nat :=
  (group.stmts.filter group.isRewritten).flatMap DeclStmt.statics

/-- The static variables that are declared anew, each with the place at which it gets its
initial value. -/
def FunctionBody.anew (body : FunctionBody) : List (Nat × Nat) :=
  body.groups.flatMap fun group => group.anew.map fun x => (group.place, x)

/-! ## Calls -/

section Calls

variable {υ : Type}

/-- What a function keeps of its variables: the values of the static ones, the values that
the others have in the present call, and the places that this call has passed. -/
structure Memory (υ : Type) where
  static : Nat → υ
  auto : Nat → Option υ
  passed : List Nat

/-- What a piece does to the values that live for one call.  A static variable of the source
has such a value only from what the pass has written. -/
def Piece.run (initial : Nat → υ) (auto : Nat → Option υ) : Piece → Nat → Option υ
  | redeclare d => Function.update auto d.id none
  | assign d => Function.update auto d.id (some (initial d.id))
  | _ => auto

def runPieces (initial : Nat → υ) (auto : Nat → Option υ) (pieces : List Piece) :
    Nat → Option υ :=
  pieces.foldl (Piece.run initial) auto

/-- The piece declares the variable as static. -/
def Piece.declaresStatic (x : Nat) : Piece → Bool
  | declare isStatic d => isStatic && d.id == x
  | _ => false

namespace FunctionText

def isStatic (text : FunctionText) (x : Nat) : Bool := text.pieces.any (Piece.declaresStatic x)

def piecesAt (text : FunctionText) (place : Nat) : List Piece :=
  ((text.places.find? fun textAt => textAt.place == place).map TextAt.pieces).getD []

end FunctionText

/-- How a text of the function keeps its variables.  What the calls do is the same for every
text: they evaluate the initial values of the variables that are not static themselves. -/
def FunctionBody.keeping (body : FunctionBody) (text : FunctionText) (initial : Nat → υ) :
    Keeping Nat body.Static υ (Memory υ) where
  enter memory :=
    { memory with auto := runPieces initial (fun _ => none) text.opening, passed := [] }
  pass place memory :=
    { memory with
      auto := runPieces initial memory.auto (text.piecesAt place)
      passed := place :: memory.passed }
  value x memory := if text.isStatic x then some (memory.static x) else memory.auto x
  write x value memory :=
    if text.isStatic x then { memory with static := Function.update memory.static x value }
    else { memory with auto := Function.update memory.auto x (some value) }

section Keeping

variable {body : FunctionBody} {text : FunctionText} {initial : Nat → υ} {memory : Memory υ}

theorem keeping_pass_auto (place : Nat) :
    ((body.keeping text initial).pass place memory).auto =
      runPieces initial memory.auto (text.piecesAt place) := rfl

theorem keeping_value_of_isStatic {x : body.Static} (isStatic : text.isStatic x = true) :
    (body.keeping text initial).value x memory = some (memory.static x) := if_pos isStatic

theorem keeping_value_of_not_isStatic {x : body.Static} (isAuto : ¬text.isStatic x = true) :
    (body.keeping text initial).value x memory = memory.auto x := if_neg isAuto

theorem keeping_write_of_isStatic {x : body.Static} {value : υ}
    (isStatic : text.isStatic x = true) :
    (body.keeping text initial).write x value memory =
      { memory with static := Function.update memory.static x value } := if_pos isStatic

theorem keeping_write_of_not_isStatic {x : body.Static} {value : υ}
    (isAuto : ¬text.isStatic x = true) :
    (body.keeping text initial).write x value memory =
      { memory with auto := Function.update memory.auto x (some value) } := if_neg isAuto

end Keeping

/-- Before the first call every static variable has its initial value. -/
def Memory.atStart (initial : Nat → υ) : Memory υ :=
  { static := initial, auto := fun _ => none, passed := [] }

/-- The values with which the calls start: what each of them finds in a variable when it first
comes to it, if it comes to it. -/
def FunctionBody.starts (body : FunctionBody) (text : FunctionText) (initial : Nat → υ)
    (calls : List (Behaviour Nat body.Static υ)) : List (body.Static → Option (Option υ)) :=
  ((body.keeping text initial).calls (.atStart initial) calls).map fun found x => found.lookup x

/-- When a call passes the place at which a variable gets its initial value, the variable
holds that value; and when it comes to a variable that is declared anew, it has passed the
place. -/
def FunctionBody.Allowed (body : FunctionBody) (initial : Nat → υ) :
    Event Nat body.Static → Memory υ → Prop
  | .pass place, memory =>
      ∀ entry ∈ body.anew, entry.1 = place → memory.static entry.2 = initial entry.2
  | .access x, memory =>
      ∀ entry ∈ body.anew, entry.2 = x.val → memory.passed.contains entry.1 = true

instance [DecidableEq υ] (body : FunctionBody) (initial : Nat → υ) :
    ∀ event memory, Decidable (body.Allowed initial event memory)
  | .pass _, _ => inferInstanceAs (Decidable (∀ entry ∈ body.anew, _ → _))
  | .access _, _ => inferInstanceAs (Decidable (∀ entry ∈ body.anew, _ → _))

/-- The calls of the original function do only what is allowed. -/
def FunctionBody.HoldsInitial (body : FunctionBody) (initial : Nat → υ)
    (calls : List (Behaviour Nat body.Static υ)) : Prop :=
  (body.keeping body.original initial).AlongCalls (body.Allowed initial) (.atStart initial) calls

instance [DecidableEq υ] (body : FunctionBody) (initial : Nat → υ)
    (calls : List (Behaviour Nat body.Static υ)) : Decidable (body.HoldsInitial initial calls) :=
  Keeping.AlongCalls.decidable _ calls

/-- The rewritten text is C, its first lines name no variable in their types, and at each
place it evaluates the same initial values in the same order as the original one. -/
structure FunctionBody.RunsAlike (body : FunctionBody) : Prop where
  valid : ∀ piece ∈ body.rewritten.pieces, piece.isValid = true
  opens : ∀ piece ∈ body.rewritten.opening, piece.uses = []
  order : body.rewritten.places.map (fun text => (text.place, initialisersIn text.pieces)) =
    body.original.places.map fun text => (text.place, initialisersIn text.pieces)

/-! ## What the texts do to a variable -/

variable {initial : Nat → υ} {auto : Nat → Option υ} {pieces first second : List Piece} {x : Nat}

theorem runPieces_append :
    runPieces initial auto (first ++ second) =
      runPieces initial (runPieces initial auto first) second := List.foldl_append

/-- Pieces that are about other variables leave the variable as it is. -/
theorem runPieces_of_apart (noLine : ∀ d, .redeclare d ∈ pieces → d.id ≠ x)
    (noAssignment : ∀ d, .assign d ∈ pieces → d.id ≠ x) :
    runPieces initial auto pieces x = auto x := by
  induction pieces generalizing auto with
  | nil => rfl
  | cons piece rest ih =>
      have untouched : piece.run initial auto x = auto x := by
        cases piece with
        | redeclare d => exact Function.update_of_ne (noLine d List.mem_cons_self).symm _ _
        | assign d => exact Function.update_of_ne (noAssignment d List.mem_cons_self).symm _ _
        | _ => rfl
      have ofRest : runPieces initial (piece.run initial auto) rest x = piece.run initial auto x :=
        ih (fun d dMem => noLine d (List.mem_cons_of_mem piece dMem))
          fun d dMem => noAssignment d (List.mem_cons_of_mem piece dMem)
      exact ofRest.trans untouched

/-- Behind an assignment of its initial value, with no new line for it, the variable has that
value. -/
theorem runPieces_of_assigned (noLine : ∀ d, .redeclare d ∉ pieces)
    (assigned : auto x = some (initial x) ∨ ∃ d, .assign d ∈ pieces ∧ d.id = x) :
    runPieces initial auto pieces x = some (initial x) := by
  induction pieces generalizing auto with
  | nil =>
      rcases assigned with holds | ⟨d, dMem, _⟩
      · exact holds
      · exact absurd dMem List.not_mem_nil
  | cons piece rest ih =>
      apply ih fun d dMem => noLine d (List.mem_cons_of_mem piece dMem)
      cases piece with
      | redeclare d => exact absurd List.mem_cons_self (noLine d)
      | assign e =>
          by_cases same : e.id = x
          · left
            rw [Piece.run, same, Function.update_self]
          · rcases assigned with holds | ⟨d, dMem, isVar⟩
            · left
              rw [Piece.run, Function.update_of_ne (Ne.symm same), holds]
            · rcases List.mem_cons.mp dMem with isHere | inRest
              · cases isHere
                exact absurd isVar same
              · exact Or.inr ⟨d, inRest, isVar⟩
      | _ =>
          rcases assigned with holds | ⟨d, dMem, isVar⟩
          · exact Or.inl holds
          · rcases List.mem_cons.mp dMem with isHere | inRest
            · cases isHere
            · exact Or.inr ⟨d, inRest, isVar⟩

/-! ## The rewritten text -/

variable {body : FunctionBody} {group other : Group}

theorem DeclStmt.mem_statics {stmt : DeclStmt} :
    x ∈ stmt.statics ↔ stmt.isStatic = true ∧ ∃ d ∈ stmt.initialisers, d.id = x := by
  rw [DeclStmt.statics]
  cases stmt.isStatic <;> simp

theorem DeclStmt.mem_vars_of_mem_statics {stmt : DeclStmt} (xMem : x ∈ stmt.statics) :
    x ∈ stmt.vars := by
  obtain ⟨_, d, dMem, rfl⟩ := DeclStmt.mem_statics.mp xMem
  exact List.mem_map_of_mem (List.mem_filter.mp dMem).1

theorem Group.mem_anew :
    x ∈ group.anew ↔ ∃ stmt ∈ group.stmts, group.isRewritten stmt = true ∧ x ∈ stmt.statics := by
  rw [Group.anew, List.mem_flatMap]
  simp only [List.mem_filter, and_assoc]

theorem FunctionBody.mem_anew {place : Nat} :
    (place, x) ∈ body.anew ↔ ∃ group ∈ body.groups, group.place = place ∧ x ∈ group.anew := by
  rw [FunctionBody.anew, List.mem_flatMap]
  simp [and_comm]

theorem mem_stmtsOf_of_mem {stmt : DeclStmt} (groupMem : group ∈ body.groups)
    (stmtMem : stmt ∈ group.stmts) : stmt ∈ stmtsOf body.groups :=
  List.mem_flatMap.mpr ⟨group, groupMem, stmtMem⟩

/-- A variable is declared in one statement of one group. -/
theorem FunctionBody.declared_once (body : FunctionBody) {stmt otherStmt : DeclStmt}
    (groupMem : group ∈ body.groups) (otherMem : other ∈ body.groups)
    (stmtMem : stmt ∈ group.stmts) (otherStmtMem : otherStmt ∈ other.stmts)
    (inStmt : x ∈ stmt.vars) (inOther : x ∈ otherStmt.vars) : other = group ∧ otherStmt = stmt := by
  have sameStmt : otherStmt = stmt := eq_of_mem_vars body.distinctVars
    (mem_stmtsOf_of_mem otherMem otherStmtMem) (mem_stmtsOf_of_mem groupMem stmtMem) inOther inStmt
  have distinct : (body.groups.flatMap Group.stmts).Nodup := body.distinctStmts.of_map
  rw [sameStmt] at otherStmtMem
  exact ⟨eq_of_mem_flatMap distinct otherMem groupMem otherStmtMem stmtMem, sameStmt⟩

/-- The text at the place of a group. -/
theorem FunctionBody.Rewritable.piecesAt_eq (rewritable : body.Rewritable)
    (groupMem : group ∈ body.groups) : body.rewritten.piecesAt group.place = group.rewrittenText := by
  rw [FunctionText.piecesAt, rewritable.rewritten_places]
  cases found : (body.groups.map Group.rewrittenAt).find? fun textAt =>
      textAt.place == group.place with
  | none =>
      rw [List.find?_eq_none] at found
      exact absurd (beq_self_eq_true group.place) (found _ (List.mem_map_of_mem groupMem))
  | some textAt =>
      obtain ⟨own, ownMem, rfl⟩ := List.mem_map.mp (List.mem_of_find?_eq_some found)
      have isAt := List.find?_some found
      have samePlace : own.place = group.place := beq_iff_eq.mp isAt
      rw [List.inj_on_of_nodup_map body.distinctPlaces ownMem groupMem samePlace]
      rfl

/-- A text at a place is that of a group. -/
theorem FunctionBody.Rewritable.mem_piecesAt (rewritable : body.Rewritable) {place : Nat}
    {piece : Piece} (pieceMem : piece ∈ body.rewritten.piecesAt place) :
    ∃ group ∈ body.groups, group.place = place ∧ piece ∈ group.rewrittenText := by
  rw [FunctionText.piecesAt, rewritable.rewritten_places] at pieceMem
  cases found : (body.groups.map Group.rewrittenAt).find? fun textAt => textAt.place == place with
  | none =>
      rw [found] at pieceMem
      exact absurd pieceMem List.not_mem_nil
  | some textAt =>
      rw [found] at pieceMem
      obtain ⟨group, groupMem, rfl⟩ := List.mem_map.mp (List.mem_of_find?_eq_some found)
      have isAt := List.find?_some found
      exact ⟨group, groupMem, beq_iff_eq.mp isAt, pieceMem⟩

/-- What the pass writes for a variable belongs to a statement that it rewrites. -/
theorem Group.SplitsInto.declarators (splits : group.SplitsInto first second) {d : Declarator}
    (written : .redeclare d ∈ group.rewrittenText ∨ .assign d ∈ group.rewrittenText) :
    ∃ stmt ∈ group.stmts, group.isRewritten stmt = true ∧ d ∈ stmt.declarators := by
  rcases written with redeclared | assigned
  · rcases splits.only _ redeclared with ⟨stmt, _, _, ofStmt⟩ | ⟨stmt, stmtMem, anew, ofStmt⟩
    · exact absurd ofStmt redeclare_notMem_pieces
    · rcases List.mem_append.mp ofStmt with isLine | isAssignment
      · obtain ⟨e, eMem, same⟩ := List.mem_map.mp isLine
        cases same
        exact ⟨stmt, stmtMem, anew, eMem⟩
      · exact absurd isAssignment redeclare_notMem_initializations
  · rcases splits.only _ assigned with ⟨stmt, _, _, ofStmt⟩ | ⟨stmt, stmtMem, anew, ofStmt⟩
    · exact absurd ofStmt assign_notMem_pieces
    · rcases List.mem_append.mp ofStmt with isLine | isAssignment
      · obtain ⟨e, _, same⟩ := List.mem_map.mp isLine
        cases same
      · obtain ⟨e, eMem, same⟩ := List.mem_map.mp isAssignment
        cases same
        exact ⟨stmt, stmtMem, anew, (List.mem_filter.mp eMem).1⟩

/-- At its place a variable that is declared anew gets its initial value. -/
theorem FunctionBody.Rewritable.run_atPlace (rewritable : body.Rewritable)
    (groupMem : group ∈ body.groups) (anew : x ∈ group.anew) :
    runPieces initial auto (body.rewritten.piecesAt group.place) x = some (initial x) := by
  obtain ⟨first, second, splits⟩ := rewritable.splitsInto groupMem
  obtain ⟨stmt, stmtMem, isRewritten, ofStmt⟩ := Group.mem_anew.mp anew
  obtain ⟨_, d, dMem, rfl⟩ := DeclStmt.mem_statics.mp ofStmt
  rw [rewritable.piecesAt_eq groupMem, splits.text, runPieces_append]
  apply runPieces_of_assigned splits.noLine
  exact Or.inr ⟨d, splits.assigned stmt stmtMem isRewritten _ (List.mem_map_of_mem dMem), rfl⟩

/-- Elsewhere it keeps the value that it has. -/
theorem FunctionBody.Rewritable.run_elsewhere (rewritable : body.Rewritable)
    (groupMem : group ∈ body.groups) (anew : x ∈ group.anew) {place : Nat}
    (elsewhere : group.place ≠ place) :
    runPieces initial auto (body.rewritten.piecesAt place) x = auto x := by
  obtain ⟨stmt, stmtMem, _, ofStmt⟩ := Group.mem_anew.mp anew
  have apart : ∀ d : Declarator, .redeclare d ∈ body.rewritten.piecesAt place ∨
      .assign d ∈ body.rewritten.piecesAt place → d.id ≠ x := by
    rintro d written rfl
    have atGroup : ∃ other ∈ body.groups, other.place = place ∧
        (.redeclare d ∈ other.rewrittenText ∨ .assign d ∈ other.rewrittenText) := by
      rcases written with redeclared | assigned
      · obtain ⟨other, otherMem, atPlace, inText⟩ := rewritable.mem_piecesAt redeclared
        exact ⟨other, otherMem, atPlace, Or.inl inText⟩
      · obtain ⟨other, otherMem, atPlace, inText⟩ := rewritable.mem_piecesAt assigned
        exact ⟨other, otherMem, atPlace, Or.inr inText⟩
    obtain ⟨other, otherMem, atPlace, inText⟩ := atGroup
    obtain ⟨first, second, splits⟩ := rewritable.splitsInto otherMem
    obtain ⟨otherStmt, otherStmtMem, _, dMem⟩ := splits.declarators inText
    obtain ⟨sameGroup, _⟩ := body.declared_once groupMem otherMem stmtMem otherStmtMem
      (DeclStmt.mem_vars_of_mem_statics ofStmt) (List.mem_map_of_mem dMem)
    rw [sameGroup] at atPlace
    exact elsewhere atPlace
  exact runPieces_of_apart (fun d dMem => apart d (Or.inl dMem))
    fun d dMem => apart d (Or.inr dMem)

/-- Lines of type and name give no value. -/
theorem runPieces_of_lines (lines : ∀ piece ∈ pieces, ∃ d : Declarator, piece = .redeclare d)
    (unset : auto x = none) : runPieces initial auto pieces x = none := by
  induction pieces generalizing auto with
  | nil => exact unset
  | cons piece rest ih =>
      obtain ⟨d, rfl⟩ := lines piece List.mem_cons_self
      apply ih fun other otherMem => lines other (List.mem_cons_of_mem _ otherMem)
      by_cases same : x = d.id
      · rw [Piece.run, same, Function.update_self]
      · rw [Piece.run, Function.update_of_ne same, unset]

theorem isStatic_of_declare {text : FunctionText} {d : Declarator}
    (declares : .declare true d ∈ text.pieces) : text.isStatic d.id = true := by
  rw [FunctionText.isStatic, List.any_eq_true]
  exact ⟨_, declares, by rw [Piece.declaresStatic, Bool.true_and, beq_self_eq_true]⟩

theorem exists_of_isStatic {text : FunctionText} (isStatic : text.isStatic x = true) :
    ∃ d : Declarator, .declare true d ∈ text.pieces ∧ d.id = x := by
  rw [FunctionText.isStatic, List.any_eq_true] at isStatic
  obtain ⟨piece, pieceMem, declares⟩ := isStatic
  cases piece with
  | declare static d =>
      rw [Piece.declaresStatic, Bool.and_eq_true, beq_iff_eq] at declares
      obtain ⟨rfl, isVar⟩ := declares
      exact ⟨d, pieceMem, isVar⟩
  | _ => exact absurd declares Bool.false_ne_true

/-- A static variable is declared in a statement of a group. -/
theorem FunctionBody.exists_of_mem_statics (xMem : x ∈ body.statics) :
    ∃ group ∈ body.groups, ∃ stmt ∈ group.stmts, x ∈ stmt.statics ∧
      ∃ d : Declarator, .declare true d ∈ stmt.pieces ∧ d.id = x := by
  obtain ⟨stmt, inAll, ofStmt⟩ := List.mem_flatMap.mp xMem
  obtain ⟨group, groupMem, stmtMem⟩ := List.mem_flatMap.mp inAll
  obtain ⟨isStatic, d, dMem, isVar⟩ := DeclStmt.mem_statics.mp ofStmt
  refine ⟨group, groupMem, stmt, stmtMem, ofStmt, d, ?_, isVar⟩
  exact DeclStmt.mem_pieces.mpr ⟨d, (List.mem_filter.mp dMem).1, Or.inl (by rw [isStatic])⟩

/-- In the original text a static variable is static. -/
theorem FunctionBody.original_isStatic (xMem : x ∈ body.statics) :
    body.original.isStatic x = true := by
  obtain ⟨group, groupMem, stmt, stmtMem, _, d, declares, rfl⟩ :=
    FunctionBody.exists_of_mem_statics xMem
  apply isStatic_of_declare
  rw [FunctionText.pieces, body.original_places]
  exact List.mem_append_right _ (List.mem_flatMap.mpr ⟨_, List.mem_map_of_mem groupMem,
    List.mem_flatMap.mpr ⟨stmt, stmtMem, declares⟩⟩)

/-- In the rewritten text it is so only if it is not declared anew. -/
theorem FunctionBody.Rewritable.isStatic_iff (rewritable : body.Rewritable)
    (xMem : x ∈ body.statics) :
    body.rewritten.isStatic x = true ↔ ∀ place, (place, x) ∉ body.anew := by
  obtain ⟨group, groupMem, stmt, stmtMem, ofStmt, d, declares, rfl⟩ :=
    FunctionBody.exists_of_mem_statics xMem
  constructor
  · intro isStatic place anew
    obtain ⟨e, eMem, sameId⟩ := exists_of_isStatic isStatic
    rw [FunctionText.pieces, rewritable.rewritten_places, List.mem_append] at eMem
    rcases eMem with inOpening | inPlaces
    · obtain ⟨_, isLine, _⟩ := rewritable.opening inOpening
      cases isLine
    · obtain ⟨_, inMap, inText⟩ := List.mem_flatMap.mp inPlaces
      obtain ⟨other, otherMem, rfl⟩ := List.mem_map.mp inMap
      obtain ⟨first, second, splits⟩ := rewritable.splitsInto otherMem
      rcases splits.only _ inText with ⟨own, ownMem, stays, ofOwn⟩ | ⟨own, _, _, ofOwn⟩
      · -- The statement that declares it stays, but it is the one that is rewritten.
        obtain ⟨f, fMem, same | ⟨_, same⟩⟩ := DeclStmt.mem_pieces.mp ofOwn
        · obtain ⟨_, rfl⟩ := Piece.declare.inj same
          obtain ⟨anewGroup, anewGroupMem, _, inAnew⟩ := FunctionBody.mem_anew.mp anew
          obtain ⟨anewStmt, anewStmtMem, isRewritten, ofAnew⟩ := Group.mem_anew.mp inAnew
          have inOwn : d.id ∈ own.vars := sameId ▸ List.mem_map_of_mem fMem
          obtain ⟨rfl, rfl⟩ := body.declared_once anewGroupMem otherMem anewStmtMem ownMem
            (DeclStmt.mem_vars_of_mem_statics ofAnew) inOwn
          rw [stays] at isRewritten
          exact Bool.noConfusion isRewritten
        · cases same
      · rcases List.mem_append.mp ofOwn with isLine | isAssignment
        · obtain ⟨_, _, same⟩ := List.mem_map.mp isLine
          cases same
        · obtain ⟨_, _, same⟩ := List.mem_map.mp isAssignment
          cases same
  · intro notAnew
    have stays : group.isRewritten stmt = false := by
      by_contra isRewritten
      rw [Bool.not_eq_false] at isRewritten
      exact notAnew group.place (FunctionBody.mem_anew.mpr
        ⟨group, groupMem, rfl, Group.mem_anew.mpr ⟨stmt, stmtMem, isRewritten, ofStmt⟩⟩)
    obtain ⟨first, second, splits⟩ := rewritable.splitsInto groupMem
    apply isStatic_of_declare
    rw [FunctionText.pieces, rewritable.rewritten_places]
    exact List.mem_append_right _ (List.mem_flatMap.mpr ⟨_, List.mem_map_of_mem groupMem,
      splits.kept stmt stmtMem stays _ declares⟩)

/-! ## Runs -/

/-- Between calls the two texts hold the same in the variables that stay static. -/
def FunctionBody.Between (body : FunctionBody) (memory other : Memory υ) : Prop :=
  ∀ x : body.Static, (∀ place, (place, x.val) ∉ body.anew) → memory.static x = other.static x

/-- Within a call a variable that is declared anew has the value of the static one, once it
has one, and it has one from the place on where it gets its initial value. -/
structure FunctionBody.InCall (body : FunctionBody) (memory other : Memory υ) : Prop where
  between : body.Between memory other
  same : ∀ place x value, (place, x) ∈ body.anew → other.auto x = some value →
    memory.static x = value
  isSet : ∀ place x, (place, x) ∈ body.anew → place ∈ memory.passed → other.auto x ≠ none

section Alike

variable {memory otherMemory : Memory υ}

/-- A variable that is not static in the rewritten text is declared anew. -/
theorem FunctionBody.Rewritable.exists_anew (rewritable : body.Rewritable)
    (xMem : x ∈ body.statics) (isAuto : ¬body.rewritten.isStatic x = true) :
    ∃ place, (place, x) ∈ body.anew := by
  rw [rewritable.isStatic_iff xMem, not_forall] at isAuto
  obtain ⟨place, anew⟩ := isAuto
  exact ⟨place, not_not.mp anew⟩

theorem FunctionBody.Rewritable.inCall_enter (rewritable : body.Rewritable)
    (between : body.Between memory otherMemory) :
    body.InCall ((body.keeping body.original initial).enter memory)
      ((body.keeping body.rewritten initial).enter otherMemory) := by
  have unset : ∀ x,
      ((body.keeping body.rewritten initial).enter otherMemory).auto x = none := by
    intro x
    apply runPieces_of_lines _ rfl
    intro piece pieceMem
    obtain ⟨d, isLine, _⟩ := rewritable.opening pieceMem
    exact ⟨d, isLine⟩
  constructor
  · exact between
  · intro place x value _ isValue
    rw [unset x] at isValue
    cases isValue
  · intro place x _ passed
    exact absurd passed List.not_mem_nil

/-- Where a variable gets its initial value, it holds that value in the original text. -/
theorem FunctionBody.Rewritable.inCall_pass (rewritable : body.Rewritable) {place : Nat}
    (allowed : body.Allowed initial (.pass place) memory)
    (inCall : body.InCall memory otherMemory) :
    body.InCall ((body.keeping body.original initial).pass place memory)
      ((body.keeping body.rewritten initial).pass place otherMemory) := by
  constructor
  · exact inCall.between
  · intro own x value anew isValue
    obtain ⟨group, groupMem, rfl, inGroup⟩ := FunctionBody.mem_anew.mp anew
    rw [keeping_pass_auto] at isValue
    by_cases here : group.place = place
    · subst here
      rw [rewritable.run_atPlace groupMem inGroup] at isValue
      rw [← Option.some.inj isValue]
      exact allowed _ anew rfl
    · rw [rewritable.run_elsewhere groupMem inGroup here] at isValue
      exact inCall.same _ x value anew isValue
  · intro own x anew passed
    obtain ⟨group, groupMem, rfl, inGroup⟩ := FunctionBody.mem_anew.mp anew
    rw [keeping_pass_auto]
    by_cases here : group.place = place
    · subst here
      rw [rewritable.run_atPlace groupMem inGroup]
      exact Option.some_ne_none _
    · rw [rewritable.run_elsewhere groupMem inGroup here]
      exact inCall.isSet _ x anew ((List.mem_cons.mp passed).resolve_left here)

theorem FunctionBody.Rewritable.value_eq (rewritable : body.Rewritable) {x : body.Static}
    (allowed : body.Allowed initial (.access x) memory)
    (inCall : body.InCall memory otherMemory) :
    (body.keeping body.original initial).value x memory =
      (body.keeping body.rewritten initial).value x otherMemory := by
  rw [keeping_value_of_isStatic (FunctionBody.original_isStatic x.property)]
  by_cases isStatic : body.rewritten.isStatic x = true
  · rw [keeping_value_of_isStatic isStatic,
      inCall.between x ((rewritable.isStatic_iff x.property).mp isStatic)]
  · obtain ⟨place, anew⟩ := rewritable.exists_anew x.property isStatic
    have passed := List.contains_iff_mem.mp (allowed _ anew rfl)
    obtain ⟨value, isValue⟩ := Option.ne_none_iff_exists'.mp (inCall.isSet place x anew passed)
    rw [keeping_value_of_not_isStatic isStatic, isValue,
      inCall.same place x value anew isValue]

theorem FunctionBody.Rewritable.inCall_write (rewritable : body.Rewritable) {x : body.Static}
    {value : υ} (inCall : body.InCall memory otherMemory) :
    body.InCall ((body.keeping body.original initial).write x value memory)
      ((body.keeping body.rewritten initial).write x value otherMemory) := by
  rw [keeping_write_of_isStatic (FunctionBody.original_isStatic x.property)]
  by_cases isStatic : body.rewritten.isStatic x = true
  · have notAnew := (rewritable.isStatic_iff x.property).mp isStatic
    rw [keeping_write_of_isStatic isStatic]
    constructor
    · intro y stays
      by_cases same : y.val = x.val
      · simp [same]
      · simpa [same] using inCall.between y stays
    · intro place y other anew isValue
      have differ : y ≠ x.val := fun same => notAnew place (same ▸ anew)
      simpa [differ] using inCall.same place y other anew isValue
    · exact inCall.isSet
  · obtain ⟨own, ownAnew⟩ := rewritable.exists_anew x.property isStatic
    rw [keeping_write_of_not_isStatic isStatic]
    constructor
    · intro y stays
      have differ : y.val ≠ x.val := fun same => stays own (same ▸ ownAnew)
      simpa [differ] using inCall.between y stays
    · intro place y other anew isValue
      by_cases same : y = x.val
      · subst same
        simpa using isValue
      · have untouched := Function.update_of_ne same (some value) otherMemory.auto
        have before := inCall.same place y other anew (untouched.symm.trans isValue)
        exact (Function.update_of_ne same value memory.static).trans before
    · intro place y anew passed
      by_cases same : y = x.val
      · subst same
        simp
      · have untouched := Function.update_of_ne same (some value) otherMemory.auto
        exact fun unset => inCall.isSet place y anew passed (untouched.symm.trans unset)

/-- As long as the calls do what is allowed, the two texts hold the same. -/
theorem FunctionBody.Rewritable.staysAlike (rewritable : body.Rewritable) (initial : Nat → υ) :
    (body.keeping body.original initial).StaysAlike (body.keeping body.rewritten initial)
      (body.Allowed initial) body.Between body.InCall where
  enter _ _ between := rewritable.inCall_enter between
  leave _ _ inCall := inCall.between
  pass _ _ _ allowed inCall := rewritable.inCall_pass allowed inCall
  value _ _ _ allowed inCall := rewritable.value_eq allowed inCall
  write _ _ _ _ _ inCall := rewritable.inCall_write inCall

end Alike

/-- What the pass writes is C and runs alike. -/
theorem FunctionBody.Rewritable.runsAlike (rewritable : body.Rewritable) : body.RunsAlike := by
  constructor
  · intro piece pieceMem
    rw [FunctionText.pieces, rewritable.rewritten_places, List.mem_append] at pieceMem
    rcases pieceMem with inOpening | inPlaces
    · obtain ⟨d, rfl, simple, _⟩ := rewritable.opening inOpening
      exact simple
    · obtain ⟨_, inMap, inText⟩ := List.mem_flatMap.mp inPlaces
      obtain ⟨group, groupMem, rfl⟩ := List.mem_map.mp inMap
      exact rewritable.valid groupMem piece inText
  · intro piece pieceMem
    obtain ⟨d, rfl, _, alone⟩ := rewritable.opening pieceMem
    exact alone
  · rw [rewritable.rewritten_places, body.original_places, List.map_map, List.map_map]
    apply List.map_congr_left
    intro group groupMem
    exact Prod.ext rfl (rewritable.order groupMem)

end Calls

/-- `COUNTER(m) static int n = 5; int x = 1;`, where the macro declares a static variable. -/
def mixedDecls : List DeclStmt :=
  [{ beginLoc := 0, inMacro := true, isStatic := true, text := "COUNTER(m)",
     declarators := [{ id := 0, init := some [] }] },
    { beginLoc := 1, isStatic := true, text := "static int n = 5;",
      declarators := [{ id := 1, init := some [] }] },
    { beginLoc := 2, text := "int x = 1;", declarators := [{ id := 2, init := some [] }] }]

/-- `static int k = 7;` -/
def nestedDecl : DeclStmt :=
  { beginLoc := 3, isStatic := true, text := "static int k = 7;",
    declarators := [{ id := 3, init := some [] }] }

/-- The outermost block has the first declarations, one below it the last. -/
def mixedBody : FunctionBody where
  items := [.decls 0 mixedDecls, .block false [.decls 3 [nestedDecl]]]
  distinctPlaces := by decide
  distinctStmts := by decide
  distinctVars := by decide

/-- A call that counts itself in `m` and reads `n`. -/
def mixedCall : Behaviour Nat mixedBody.Static Nat :=
  .passes 0 (.reads ⟨0, by decide +kernel⟩ fun m => .writes ⟨0, by decide +kernel⟩ (m + 1)
    (.reads ⟨1, by decide +kernel⟩ fun _ => .returns))

/-- A call that goes into the block. -/
def nestedCall : Behaviour Nat mixedBody.Static Nat :=
  .passes 0 (.reads ⟨0, by decide +kernel⟩ fun _ =>
    .passes 3 (.reads ⟨3, by decide +kernel⟩ fun _ => .returns))

def mixedInitial : Nat → Nat
  | 1 => 5
  | 3 => 7
  | _ => 0

/-- `static int n = 0;` -/
def counterDecl : DeclStmt :=
  { beginLoc := 0, isStatic := true, text := "static int n = 0;",
    declarators := [{ id := 0, init := some [] }] }

def counterBody : FunctionBody where
  items := [.decls 0 [counterDecl]]
  distinctPlaces := by decide
  distinctStmts := by decide
  distinctVars := by decide

def counterVar : counterBody.Static := ⟨0, by decide +kernel⟩

/-- The call counts itself in `n`. -/
def countCall : Behaviour Nat counterBody.Static Nat :=
  .passes 0 (.reads counterVar fun n => .writes counterVar (n + 1) .returns)

end Hecaton.Pass1
