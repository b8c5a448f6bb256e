import Hecaton.Clang.Stmt

/-!
# The compiler's source manager

What the passes ask the compiler about locations: where the expansion that a
location lies in ends, where the token at a location ends, and whether a
location lies in the file that is compiled.
-/

namespace Hecaton.Clang

/-- The answers of the source manager and the lexer.  `locForEndOfToken` is
`none` where the compiler returns an invalid location. -/
structure SourceManager where
  expansionEnd : SourceLocation → SourceLocation
  locForEndOfToken : SourceLocation → Option SourceLocation
  isInMainFile : SourceLocation → Bool

namespace SourceManager

variable (sm : SourceManager)

/-- Where the last token of a statement stands in the file. -/
def spelledEnd (stmt : Stmt) : SourceLocation :=
  if stmt.info.endLoc.isMacroID then sm.expansionEnd stmt.info.endLoc else stmt.info.endLoc

/-- `recursiveGetEnd`: behind the token that follows the statement's last token.
`none` stands for an invalid location. -/
def recursiveGetEnd (stmt : Stmt) : Option SourceLocation :=
  match sm.locForEndOfToken (sm.spelledEnd stmt) with
  | none => some stmt.info.endLoc
  | some loc => sm.locForEndOfToken loc

end SourceManager

end Hecaton.Clang
