import Hecaton.Library.NumberedNames
import Hecaton.Pass1.DeclText
import Hecaton.Pass1.Scopes

/-!
# Moving declarations

The first pass moves the declarations of nested blocks to the start of the
function.  A declaration whose name is taken gets a numbered name, which then
replaces the old one in the text of the block it stood in.
-/

namespace Hecaton.Pass1

open Hecaton.Library

/-! ## Functions as text -/

/-- A declaration, as the pass reads it.  The pass asks whether it declares a variable
(`isa<ValueDecl>`) or a type, whether it begins in a macro, whether its text has an
opening brace and whether it has an initial value.  `written` says that its name stands
in the text and not in the body of a macro.  It is `hidden` if as a comment nothing of it is
read and all that is not part of it still is.  `uses` are those in the printed type, in
which a constant bound is a number; in `type` every bound is one, and `bracketInside` says
whether a bracket stands inside the base type or a bound. -/
structure LocalDecl where
  id : Nat
  name : String
  written : Bool := true
  isValue : Bool := true
  inMacro : Bool := false
  brace : Bool := false
  hasInit : Bool := false
  hidden : Bool := true
  type : DeclText.CType := .base []
  bracketInside : Bool := false
  uses : List TypeUse := []

/-- The line that the pass writes for it declares its name. -/
def LocalDecl.lineDeclares (decl : LocalDecl) : Bool := decl.type.lineDeclares decl.bracketInside

/-- A piece of a block.  The uses in an initial value follow the declaration; if that is
moved, they are `written` as the pass prints it.  Of a statement with a block the pass asks
whether it begins in a macro; a block in the text of a nested declaration is passed over in
the same way. -/
inductive Item
  | decl (decl : LocalDecl)
  | use (use : Use) (name : String) (written : Bool)
  | comment
  | block (inMacro : Bool) (items : List Item)

/-- A function before the pass. -/
structure SourceFunction where
  params : List String
  body : List Item

/-- A declaration behind the opening brace: the text of its type, as it was printed, and
its name. -/
structure InsertedDecl where
  id : Nat
  name : String
  uses : List TypeUse
  declares : Bool

/-- A function after the pass: `decls` are the declarations inserted behind the
opening brace.  It is `torn` if a comment of the pass does not hide a declaration, or hides
more. -/
structure HoistedFunction where
  params : List String
  torn : Bool
  decls : List InsertedDecl
  body : List Item

/-- What the pass does with a declaration at a place.  What begins in a macro is
passed over with all that is below it.  The declaration of a type is commented out
like that of a variable, but not noted. -/
def statusOf (visited : Bool) (path : List Nat) (decl : LocalDecl) : Status :=
  if !visited || decl.inMacro then .kept
  else if path = [] then (if decl.isValue then .listed else .kept)
  else if decl.brace then .kept
  else if decl.isValue then .moved
  else .dropped

/-- The identifiers of a declaration: the uses in its type, its name and the assignment of
its initial value. -/
def LocalDecl.occurrences (path : List Nat) (status : Status) (decl : LocalDecl) :
    List Occurrence :=
  (if status.leaves then []
    else decl.uses.map fun use => ⟨path, use.name, use.written, .use (.ref use.id)⟩) ++
  ⟨path, decl.name, decl.written,
    .decl decl.id status (if status.leaves then decl.uses else []) decl.lineDeclares
      decl.hidden⟩ ::
  if decl.hasInit then [⟨path, decl.name, decl.written, .init decl.id status⟩] else []

mutual

/-- The identifiers of an item, the `i`-th of the block at `path`. -/
def occurrencesOfItem (visited : Bool) (path : List Nat) (i : Nat) : Item → List Occurrence
  | .decl decl => decl.occurrences path (statusOf visited path decl)
  | .use use name written => [⟨path, name, written, .use use⟩]
  | .comment => []
  | .block inMacro items => occurrencesOf (visited && !inMacro) (path ++ [i]) 0 items

/-- The identifiers of a block from its `i`-th item on. -/
def occurrencesOf (visited : Bool) (path : List Nat) (i : Nat) : List Item → List Occurrence
  | [] => []
  | item :: rest => occurrencesOfItem visited path i item ++ occurrencesOf visited path (i + 1) rest

end

/-- The identifiers of a function. -/
def SourceFunction.text (f : SourceFunction) : List Occurrence := occurrencesOf true [] 0 f.body

/-- A declaration behind the opening brace. -/
def insertedDecl (decl : InsertedDecl) : Occurrence :=
  ⟨[], decl.name, true, .decl decl.id .listed decl.uses decl.declares true⟩

/-- The identifiers of a function after the pass. -/
def HoistedFunction.text (f : HoistedFunction) : List Occurrence :=
  f.decls.map insertedDecl ++ occurrencesOf true [] 0 f.body

/-! ## The pass -/

/-- `varDecl`: a declaration that is moved.  `oldName` is there when it gets a new
name. -/
structure VarDecl where
  decl : Occurrence
  name : String
  oldName : Option String := none
  deriving DecidableEq

/-- `varDecls` and `var_suffix`. -/
structure MoveState where
  varDecls : List VarDecl := []
  varSuffix : Nat := 1

/-- What the pass puts between a name and its number. -/
def separator : String := "_hecaton" ++ "_"

/-- `fnc_declVisit`: the names of the variables declared in the outermost block. -/
def fncDeclVisit : List Item → List String
  | [] => []
  | .decl decl :: rest =>
      if decl.inMacro || !decl.isValue then fncDeclVisit rest else decl.name :: fncDeclVisit rest
  | _ :: rest => fncDeclVisit rest

/-- What `var_declVisit` does with one declarator: note it under its name, or under
a numbered one when the name is taken. -/
def MoveState.push (fncDecls : List String) (decl : Occurrence) (state : MoveState) : MoveState :=
  if decl.name ∈ fncDecls ∨ decl.name ∈ state.varDecls.map VarDecl.name then
    { varDecls := state.varDecls ++
        [⟨decl, numbered decl.name separator state.varSuffix, some decl.name⟩]
      varSuffix := state.varSuffix + 1 }
  else { state with varDecls := state.varDecls ++ [⟨decl, decl.name, none⟩] }

/-- The name under which the last declarator was noted. -/
def MoveState.declName (state : MoveState) : String :=
  (state.varDecls.getLast?.map VarDecl.name).getD ""

/-- The declaration as it is noted. -/
def LocalDecl.noted (path : List Nat) (decl : LocalDecl) : Occurrence :=
  ⟨path, decl.name, decl.written,
    .decl decl.id .moved decl.uses decl.lineDeclares decl.hidden⟩

mutual

/-- `var_declVisit`, for one statement.  A declaration that is moved leaves the
assignment of its initial value. -/
def varDeclVisitItem (fncDecls : List String) (path : List Nat) (i : Nat) :
    Item → MoveState → Item × MoveState
  | .decl decl, state =>
      if decl.inMacro then (.decl decl, state)
      else if path = [] ∨ decl.brace = true then (.decl decl, state)
      else if !decl.isValue then (.comment, state)
      else
        let state := state.push fncDecls (decl.noted path)
        (if decl.hasInit then .use (.init decl.id) state.declName true else .comment, state)
  | .use use name written, state => (.use use name written, state)
  | .comment, state => (.comment, state)
  | .block inMacro items, state =>
      if inMacro then (.block inMacro items, state)
      else
        let (items, state) := varDeclVisit fncDecls (path ++ [i]) 0 items state
        (.block inMacro items, state)

/-- `var_declVisit`. -/
def varDeclVisit (fncDecls : List String) (path : List Nat) (i : Nat) :
    List Item → MoveState → List Item × MoveState
  | [], state => ([], state)
  | item :: rest, state =>
      let (item, state) := varDeclVisitItem fncDecls path i item state
      let (rest, state) := varDeclVisit fncDecls path (i + 1) rest state
      (item :: rest, state)

end

/-- `move_var_decl`. -/
def moveVarDecl (body : List Item) : List Item × MoveState :=
  varDeclVisit (fncDeclVisit body) [] 0 body {}

/-- The line of `insert_var_decl` for a declaration: the type as it was printed, and the
name. -/
def VarDecl.inserted (v : VarDecl) : InsertedDecl :=
  match v.decl.role with
  | .decl id _ uses declares _ => ⟨id, v.name, uses, declares⟩
  | _ => ⟨0, v.name, [], false⟩

/-- `insert_var_decl`. -/
def insertVarDecl (varDecls : List VarDecl) : List InsertedDecl := varDecls.map VarDecl.inserted

/-- `replace_variable` on one identifier at a place: the old name becomes the new
one within the block.  What is in the body of a macro is not in the text. -/
def replaceVariable (block : List Nat) (oldName newName : String) (path : List Nat)
    (name : String) (written : Bool) : String :=
  if written = true ∧ block <+: path ∧ name = oldName then newName else name

mutual

/-- `replace_variable`, for one item. -/
def replaceInItem (block : List Nat) (oldName newName : String) (path : List Nat) (i : Nat) :
    Item → Item
  | .decl decl =>
      .decl { decl with
        name := replaceVariable block oldName newName path decl.name decl.written
        uses := decl.uses.map fun use =>
          { use with name := replaceVariable block oldName newName path use.name use.written } }
  | .use use name written =>
      .use use (replaceVariable block oldName newName path name written) written
  | .comment => .comment
  | .block inMacro items =>
      .block inMacro (replaceInItems block oldName newName (path ++ [i]) 0 items)

/-- `replace_variable` on the text of a block, taken to rename every occurrence. -/
def replaceInItems (block : List Nat) (oldName newName : String) (path : List Nat) (i : Nat) :
    List Item → List Item
  | [] => []
  | item :: rest =>
      replaceInItem block oldName newName path i item ::
        replaceInItems block oldName newName path (i + 1) rest

end

/-- `replace_duplicate_vars`: for each declaration that got a new name, in the block
that held it. -/
def replaceDuplicateVars (body : List Item) : List VarDecl → List Item
  | [] => body
  | v :: rest =>
      match v.oldName with
      | none => replaceDuplicateVars body rest
      | some oldName =>
          replaceDuplicateVars (replaceInItems v.decl.path oldName v.name [] 0 body) rest

/-- The three steps of the pass. -/
def hoistDecls (f : SourceFunction) : HoistedFunction :=
  let (body, state) := moveVarDecl f.body
  { params := f.params
    torn := f.text.any Occurrence.isTorn
    decls := insertVarDecl state.varDecls
    body := replaceDuplicateVars body state.varDecls }

end Hecaton.Pass1
