import Hecaton.Clang.SourceManager

/-!
# Building small trees

Nodes for concrete functions: names, calls of one argument and blocks, placed at
an offset of a line, with the texts and the addresses the compiler would give
them.
-/

namespace Hecaton.Clang.Build

/-- The reference `name` at an offset of a line. -/
def nameRef (id offset line : Nat) (name : String) : Stmt :=
  .node
    { id := id
      beginLoc := ⟨offset, line, false⟩
      endLoc := ⟨offset, line, false⟩
      printed := name
      text := name
      textSemi := name }
    (.declRefExpr name) []

/-- The statement `callee(arg);`.  Its node takes the addresses `id`, `id + 1`
and `id + 2`. -/
def callOf (id offset line : Nat) (callee arg : String) : Stmt :=
  let close := offset + callee.length + 1 + arg.length
  let text := callee ++ "(" ++ arg ++ ")"
  .node
    { id := id
      beginLoc := ⟨offset, line, false⟩
      endLoc := ⟨close, line, false⟩
      semiLoc := ⟨close + 1, line, false⟩
      printed := text
      text := text
      textSemi := text ++ ";" }
    (.callExpr (some callee))
    [nameRef (id + 1) offset line callee, nameRef (id + 2) (offset + callee.length + 1) line arg]

/-- The statement `return;`. -/
def returnOf (id offset line : Nat) : Stmt :=
  .node
    { id := id
      beginLoc := ⟨offset, line, false⟩
      endLoc := ⟨offset, line, false⟩
      semiLoc := ⟨offset + 6, line, false⟩
      printed := "return"
      text := "return"
      textSemi := "return" }
    .returnStmt []

/-- The statement `goto label;`. -/
def gotoOf (id offset line : Nat) (label : String) : Stmt :=
  .node
    { id := id
      beginLoc := ⟨offset, line, false⟩
      endLoc := ⟨offset + 5, line, false⟩
      semiLoc := ⟨offset + 5 + label.length, line, false⟩
      printed := "goto " ++ label
      text := "goto " ++ label }
    (.gotoStmt label) []

/-- The labelled statement `label: stmt`, on the line of the statement. -/
def labelOf (id offset : Nat) (label : String) (stmt : Stmt) : Stmt :=
  .node
    { id := id
      beginLoc := ⟨offset, stmt.info.beginLoc.line, false⟩
      endLoc := stmt.info.endLoc
      semiLoc := stmt.info.semiLoc
      printed := label ++ ":" ++ stmt.info.printed
      text := label ++ ": " ++ stmt.info.text }
    (.labelStmt label) [stmt]

/-- The statement `if (cond) thenBlock`, on the line of the condition. -/
def ifOf (id offset : Nat) (cond thenBlock : Stmt) : Stmt :=
  .node
    { id := id
      beginLoc := ⟨offset, cond.info.beginLoc.line, false⟩
      endLoc := thenBlock.info.endLoc
      printed := "if (" ++ cond.info.printed ++ ") " ++ thenBlock.info.printed
      text := "if (" ++ cond.info.text ++ ") " ++ thenBlock.info.text }
    .ifStmt [cond, thenBlock, .null]

/-- The condition `name < 0`. -/
def lessZero (id offset line : Nat) (name : String) : Stmt :=
  .node
    { id := id
      beginLoc := ⟨offset, line, false⟩
      endLoc := ⟨offset + name.length + 3, line, false⟩
      printed := name ++ " < 0"
      text := name ++ " < 0" }
    (.binaryOperator .lt)
    [nameRef (id + 1) offset line name,
      .node
        { id := id + 2
          beginLoc := ⟨offset + name.length + 3, line, false⟩
          endLoc := ⟨offset + name.length + 3, line, false⟩
          printed := "0"
          text := "0" }
        (.integerLiteral 0) []]

/-- A source without macros in which the last tokens of all statements are one
character long. -/
def shortTokens : SourceManager where
  expansionEnd := id
  locForEndOfToken := fun loc => some (loc.getLocWithOffset 1)
  isInMainFile := fun _ => true

/-- A block with its braces at two places. -/
def block (id offset line endOffset endLine : Nat) (children : List Stmt) : Stmt :=
  .node
    { id := id
      beginLoc := ⟨offset, line, false⟩
      endLoc := ⟨endOffset, endLine, false⟩
      printed := "\x7b\x7d"
      text := "\x7b\x7d" }
    .compoundStmt children

end Hecaton.Clang.Build
