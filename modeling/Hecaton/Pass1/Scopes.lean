import Hecaton.Library.Lookup
import Mathlib.Data.List.Infix

/-!
# Names and scopes

The text of a function as its declarations and uses of identifiers, in order,
each with the blocks that enclose it.  A use means the declaration of its name
that stands before it in the innermost block that has one; without one it means
a parameter, or what the name is bound to outside of the function.
-/

namespace Hecaton.Pass1

open Hecaton.Library

/-- What the first pass does with a declaration: it lists it among those of the
function's outermost block, moves it to that block, comments it out for good, or
leaves it alone. -/
inductive Status
  | listed | moved | dropped | kept
  deriving DecidableEq

/-- A declaration with that status leaves its place. -/
def Status.leaves : Status → Bool
  | .moved => true
  | .dropped => true
  | .listed => false
  | .kept => false

/-- A use of an identifier: a reference, or the assignment of a declaration's
initial value. -/
inductive Use
  | ref (id : Nat)
  | init (decl : Nat)
  deriving DecidableEq

/-- A use in the type of a declaration: in the bound of an array, in the operand of
`typeof`, or as the name of a type.  It is `written` when the name stands in the text
of the function itself and not in the body of a macro. -/
structure TypeUse where
  id : Nat
  name : String
  written : Bool
  deriving DecidableEq

/-- What an identifier is written for.  A declaration that leaves its place takes the
uses in its type with it; `declares` says whether its type in front of its name is a
declaration of the name, and `hidden` whether it is hidden when it is commented out. -/
inductive Role
  | decl (id : Nat) (status : Status) (uses : List TypeUse) (declares hidden : Bool)
  | init (decl : Nat) (status : Status)
  | use (use : Use)
  deriving DecidableEq

/-- An identifier in the text.  `path` says which blocks enclose it, from the
outermost to the innermost; it is empty in the function's outermost block. -/
structure Occurrence where
  path : List Nat
  name : String
  written : Bool
  role : Role
  deriving DecidableEq

namespace Occurrence

/-- The declaration that the identifier declares. -/
def declId? (t : Occurrence) : Option Nat :=
  match t.role with
  | .decl id _ _ _ _ => some id
  | _ => none

def isDecl (t : Occurrence) : Bool := t.declId?.isSome

/-- The uses at the identifier, with the names that they have. -/
def uses (t : Occurrence) : List (Use × String) :=
  match t.role with
  | .decl _ _ uses _ _ => uses.map fun use => (.ref use.id, use.name)
  | .init decl _ => [(.init decl, t.name)]
  | .use use => [(use, t.name)]

/-- The identifier declares a variable that is treated as `status` says. -/
def declares (status : Status) (t : Occurrence) : Bool :=
  match t.role with
  | .decl _ own _ _ _ => own == status
  | _ => false

/-- The identifier stays where it is. -/
def stays (t : Occurrence) : Bool :=
  match t.role with
  | .decl _ status _ _ _ => !status.leaves
  | .init _ status => status != .dropped
  | .use _ => true

/-- The identifier declares what leaves its place and is not hidden there. -/
def isTorn (t : Occurrence) : Bool :=
  match t.role with
  | .decl _ status _ _ hidden => status.leaves && !hidden
  | _ => false

end Occurrence

/-- What a use means. -/
inductive Target
  | decl (id : Nat)
  | param (name : String)
  | outside (name : String)
  deriving DecidableEq

/-- The blocks below the outermost one that enclose a place, the innermost first. -/
def nestedScopes (path : List Nat) : List (List Nat) :=
  (path.inits.filter fun scope => scope != []).reverse

theorem mem_nestedScopes {path scope : List Nat} :
    scope ∈ nestedScopes path ↔ scope <+: path ∧ scope ≠ [] := by
  simp [nestedScopes]

/-- The declarations of a name in one block. -/
def declsIn (before : List Occurrence) (name : String) (scope : List Nat) : List Occurrence :=
  before.filter fun t => t.isDecl && t.name == name && t.path == scope

/-- The declaration a use means. -/
def declOf (before : List Occurrence) (name : String) (path : List Nat) : Option Occurrence :=
  lookup (nestedScopes path ++ [[]]) (declsIn before name)

/-- What the use of a name at a place means, given the text before it. -/
def resolve (params : List String) (before : List Occurrence) (name : String) (path : List Nat) :
    Target :=
  match (declOf before name path).bind Occurrence.declId? with
  | some id => .decl id
  | none => if name ∈ params then .param name else .outside name

/-- What the uses of a text mean, in order; `before` is the text before it.  The uses
in the type of a declaration stand before the name that it declares. -/
def bindingsFrom (params : List String) (before : List Occurrence) :
    List Occurrence → List (Use × Target)
  | [] => []
  | t :: rest =>
      t.uses.map (fun use => (use.1, resolve params before use.2 t.path)) ++
        bindingsFrom params (before ++ [t]) rest

/-- What the uses of a function mean. -/
def bindings (params : List String) (text : List Occurrence) : List (Use × Target) :=
  bindingsFrom params [] text

/-- The names declared in the outermost scope of a function: its parameters and
what its outermost block declares. -/
def outermostNames (params : List String) (text : List Occurrence) : List String :=
  params ++ (text.filter fun t => t.isDecl && t.path == []).map Occurrence.name

end Hecaton.Pass1
