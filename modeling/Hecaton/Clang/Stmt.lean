import Mathlib.Data.List.Nodup
import Mathlib.Data.List.Infix

/-!
# Statement trees

The part of the compiler's syntax tree that the passes read.  A `Stmt` stands
for a `Stmt *`: the null pointer, or a node with its address, its locations,
its printed and its source text, its class and its children.  Children may be
null, as the absent parts of a `for` statement are.

The strings are what the compiler returns for a node: `printed` is
`printPretty`, `text` the source text from the node's first to its last token,
`textSemi` the same text read up to the token one character behind the start of
the last one.  They are the texts before any insertion of the pass at hand.
-/

namespace Hecaton.Clang

/-- A source location: an offset, the line the location expands to, and
whether it lies in a macro expansion. -/
structure SourceLocation where
  offset : Nat
  line : Nat
  macroID : Bool := false
  deriving DecidableEq, Inhabited

namespace SourceLocation

/-- `isMacroID`. -/
def isMacroID (loc : SourceLocation) : Bool := loc.macroID

/-- `getLocWithOffset`, for the offsets of one character the passes use. -/
def getLocWithOffset (loc : SourceLocation) (n : Nat) : SourceLocation :=
  { loc with offset := loc.offset + n }

end SourceLocation

/-- Opcodes of binary operators in C. -/
inductive BinaryOpcode
  | mul | div | rem | add | sub | shl | shr
  | lt | gt | le | ge | eq | ne
  | and | xor | or | land | lor
  | assign | mulAssign | divAssign | remAssign | addAssign | subAssign
  | shlAssign | shrAssign | andAssign | xorAssign | orAssign
  | comma
  deriving DecidableEq

namespace BinaryOpcode

/-- `isAssignmentOp`: plain and compound assignments. -/
def isAssignmentOp : BinaryOpcode → Bool
  | assign | mulAssign | divAssign | remAssign | addAssign | subAssign
  | shlAssign | shrAssign | andAssign | xorAssign | orAssign => true
  | _ => false

end BinaryOpcode

/-- Opcodes of unary operators, as far as the passes tell them apart. -/
inductive UnaryOpcode
  | minus | other
  deriving DecidableEq

/-- The statement classes that the passes test with `isa`, with the data they
read from such a node, and the further classes that say where control goes.
Every other class is `other`. -/
inductive StmtClass
  | compoundStmt
  | ifStmt
  | forStmt
  | whileStmt
  | doStmt
  | switchStmt
  | caseStmt
  | defaultStmt
  | labelStmt (label : String)
  | gotoStmt (label : String)
  | returnStmt
  | breakStmt
  | continueStmt
  | declStmt
  | callExpr (directCallee : Option String)
  | binaryOperator (opcode : BinaryOpcode)
  | unaryOperator (opcode : UnaryOpcode)
  | integerLiteral (value : Nat)
  | declRefExpr (name : String)
  | implicitCastExpr
  | other
  deriving DecidableEq

/-- What the compiler knows about one node.  `semiLoc` is where the semicolon
starts that closes an expression statement; for other nodes it means nothing. -/
structure NodeInfo where
  id : Nat
  beginLoc : SourceLocation
  endLoc : SourceLocation
  semiLoc : SourceLocation := default
  printed : String
  text : String
  textSemi : String := ""
  deriving Inhabited

/-- A pointer to a statement. -/
inductive Stmt
  | null
  | node (info : NodeInfo) (cls : StmtClass) (children : List Stmt)
  deriving Inhabited

namespace Stmt

/-- A fact about every tree follows from the null pointer and from the children
of a node. -/
@[elab_as_elim]
theorem tree_induction {P : Stmt → Prop} (null : P .null)
    (node : ∀ info cls children, (∀ child ∈ children, P child) →
      P (.node info cls children)) (s : Stmt) : P s := by
  refine @Stmt.rec P (fun children => ∀ child ∈ children, P child) null node ?_ ?_ s
  · simp
  · intro head tail headHolds tailHolds
    simpa using ⟨headHolds, tailHolds⟩

/-! ## Reading a node -/

/-- `stmt == NULL`. -/
def isNull : Stmt → Bool
  | null => true
  | node .. => false

theorem isNull_eq_false {s : Stmt} (nonnull : s ≠ .null) : s.isNull = false := by
  cases s with
  | null => exact absurd rfl nonnull
  | node => rfl

/-- The data of the node pointed to.  The passes never read it through null. -/
def info : Stmt → NodeInfo
  | null => default
  | node info _ _ => info

/-- The child range of the node, nulls included. -/
def children : Stmt → List Stmt
  | null => []
  | node _ _ children => children

/-- `isa<...>`, as a test of the statement class. -/
def isa (test : StmtClass → Bool) : Stmt → Bool
  | null => false
  | node _ cls _ => test cls

def isCompound : Stmt → Bool := isa (· == .compoundStmt)
def isIf : Stmt → Bool := isa (· == .ifStmt)
def isFor : Stmt → Bool := isa (· == .forStmt)
def isWhile : Stmt → Bool := isa (· == .whileStmt)
def isDo : Stmt → Bool := isa (· == .doStmt)
def isSwitch : Stmt → Bool := isa (· == .switchStmt)
def isReturn : Stmt → Bool := isa (· == .returnStmt)
def isBreak : Stmt → Bool := isa (· == .breakStmt)
def isContinue : Stmt → Bool := isa (· == .continueStmt)
def isDecl : Stmt → Bool := isa (· == .declStmt)

def isLabel : Stmt → Bool :=
  isa fun cls => match cls with | .labelStmt _ => true | _ => false

def isGoto : Stmt → Bool :=
  isa fun cls => match cls with | .gotoStmt _ => true | _ => false

def isCall : Stmt → Bool :=
  isa fun cls => match cls with | .callExpr _ => true | _ => false

def isBinaryOperator : Stmt → Bool :=
  isa fun cls => match cls with | .binaryOperator _ => true | _ => false

def isUnaryOperator : Stmt → Bool :=
  isa fun cls => match cls with | .unaryOperator _ => true | _ => false

/-- An expression: none of the classes of statements. -/
def isExpression : Stmt → Bool :=
  isa fun cls => match cls with
    | .callExpr _ | .binaryOperator _ | .unaryOperator _ | .integerLiteral _
    | .declRefExpr _ | .implicitCastExpr | .other => true
    | _ => false

/-- The name of the direct callee of a call; `none` when the node is no call or
the call has no direct callee. -/
def directCallee : Stmt → Option String
  | node _ (.callExpr callee) _ => callee
  | _ => none

theorem ne_null_of_directCallee {s : Stmt} {fncname : String}
    (isCall : s.directCallee = some fncname) : s ≠ .null := by
  rintro rfl
  simp [directCallee] at isCall

/-- The opcode of a binary operator. -/
def binaryOpcode : Stmt → Option BinaryOpcode
  | node _ (.binaryOperator opcode) _ => some opcode
  | _ => none

/-- The opcode of a unary operator. -/
def unaryOpcode : Stmt → Option UnaryOpcode
  | node _ (.unaryOperator opcode) _ => some opcode
  | _ => none

/-- `getSubExprAsWritten`: the expression below all implicit casts. -/
def subExprAsWritten : Stmt → Stmt
  | .node _ .implicitCastExpr (operand :: _) => subExprAsWritten operand
  | s => s

/-- The child at a position, null when there is none. -/
def child (s : Stmt) (n : Nat) : Stmt := s.children.getD n .null

/-- `callexpr->getArg(n)`: the arguments stand behind the callee. -/
def getArg (s : Stmt) (n : Nat) : Stmt := s.child (n + 1)

/-- The parts of an `if` statement; no `else` branch is a null one. -/
def ifCond (s : Stmt) : Stmt := s.child 0
def ifThen (s : Stmt) : Stmt := s.child 1
def ifElse (s : Stmt) : Stmt := s.child 2

/-- The parts of a `for` statement.  Child 1 is the condition variable, which
C does not have. -/
def forInit (s : Stmt) : Stmt := s.child 0
def forCond (s : Stmt) : Stmt := s.child 2
def forInc (s : Stmt) : Stmt := s.child 3
def forBody (s : Stmt) : Stmt := s.child 4

def whileCond (s : Stmt) : Stmt := s.child 0
def whileBody (s : Stmt) : Stmt := s.child 1

def doBody (s : Stmt) : Stmt := s.child 0

/-- `getLBracLoc` of a compound statement: it begins with its brace. -/
def lBracLoc (s : Stmt) : SourceLocation := s.info.beginLoc

/-- Two pointers are equal when both are null or both point to the node at one
address. -/
def same : Stmt → Stmt → Bool
  | null, null => true
  | node first _ _, node second _ _ => first.id == second.id
  | _, _ => false

/-! ## Nodes of a tree -/

mutual

/-- Every node of the tree, the root first, in visiting order. -/
def nodes : Stmt → List Stmt
  | null => []
  | node info cls children => node info cls children :: nodesOf children

/-- The nodes of a list of trees. -/
def nodesOf : List Stmt → List Stmt
  | [] => []
  | child :: rest => nodes child ++ nodesOf rest

end

/-- The nodes strictly below the root. -/
def descendants (s : Stmt) : List Stmt := nodesOf s.children

@[simp]
theorem nodes_null : nodes null = [] := by
  simp [nodes]

@[simp]
theorem nodes_node (info : NodeInfo) (cls : StmtClass) (children : List Stmt) :
    nodes (node info cls children) = node info cls children :: nodesOf children := by
  simp [nodes]

@[simp]
theorem nodesOf_nil : nodesOf [] = [] := by
  simp [nodesOf]

@[simp]
theorem nodesOf_cons (child : Stmt) (rest : List Stmt) :
    nodesOf (child :: rest) = child.nodes ++ nodesOf rest := by
  simp [nodesOf]

theorem nodesOf_append (first second : List Stmt) :
    nodesOf (first ++ second) = nodesOf first ++ nodesOf second := by
  induction first with
  | nil => simp
  | cons child rest ih => simp [ih]

theorem mem_nodesOf {children : List Stmt} {n : Stmt} :
    n ∈ nodesOf children ↔ ∃ child ∈ children, n ∈ child.nodes := by
  induction children with
  | nil => simp
  | cons child rest ih => simp [ih]

theorem mem_nodes_iff {s n : Stmt} :
    n ∈ s.nodes ↔ (n = s ∧ s ≠ .null) ∨ n ∈ s.descendants := by
  cases s <;> simp [descendants, children]

theorem mem_descendants_iff {s n : Stmt} :
    n ∈ s.descendants ↔ ∃ child ∈ s.children, n ∈ child.nodes :=
  mem_nodesOf

theorem self_mem_nodes {s : Stmt} (nonnull : s ≠ .null) : s ∈ s.nodes :=
  mem_nodes_iff.mpr (Or.inl ⟨rfl, nonnull⟩)

theorem descendants_subset_nodes {s n : Stmt} (below : n ∈ s.descendants) : n ∈ s.nodes :=
  mem_nodes_iff.mpr (Or.inr below)

theorem ne_null_of_mem_nodes {s n : Stmt} (member : n ∈ s.nodes) : n ≠ .null := by
  induction s using tree_induction with
  | null => simp at member
  | node info cls children ih =>
      rcases mem_nodes_iff.mp member with ⟨rfl, nonnull⟩ | below
      · exact nonnull
      · obtain ⟨child, childMem, inChild⟩ := mem_descendants_iff.mp below
        exact ih child childMem inChild

theorem child_mem_descendants {s c : Stmt} (childMem : c ∈ s.children)
    (nonnull : c ≠ .null) : c ∈ s.descendants :=
  mem_descendants_iff.mpr ⟨c, childMem, self_mem_nodes nonnull⟩

/-- The nodes below a node of a tree are nodes of the tree. -/
theorem nodes_trans {s m n : Stmt} (inner : n ∈ m.nodes) (outer : m ∈ s.nodes) :
    n ∈ s.nodes := by
  induction s using tree_induction with
  | null => simp at outer
  | node info cls children ih =>
      rcases mem_nodes_iff.mp outer with ⟨rfl, _⟩ | below
      · exact inner
      · obtain ⟨child, childMem, inChild⟩ := mem_descendants_iff.mp below
        exact descendants_subset_nodes
          (mem_descendants_iff.mpr ⟨child, childMem, ih child childMem inChild⟩)

theorem descendants_trans {s m n : Stmt} (inner : n ∈ m.descendants) (outer : m ∈ s.nodes) :
    n ∈ s.descendants := by
  rcases mem_nodes_iff.mp outer with ⟨rfl, _⟩ | below
  · exact inner
  · obtain ⟨child, childMem, inChild⟩ := mem_descendants_iff.mp below
    exact mem_descendants_iff.mpr
      ⟨child, childMem, nodes_trans (descendants_subset_nodes inner) inChild⟩

/-- A node strictly below the root is a child of some node. -/
theorem exists_parent {s n : Stmt} (below : n ∈ s.descendants) :
    ∃ p ∈ s.nodes, n ∈ p.children := by
  induction s using tree_induction with
  | null => simp [descendants, children] at below
  | node info cls children ih =>
      obtain ⟨child, childMem, inChild⟩ := mem_descendants_iff.mp below
      rcases mem_nodes_iff.mp inChild with ⟨rfl, _⟩ | inner
      · exact ⟨_, self_mem_nodes (by simp), childMem⟩
      · obtain ⟨p, pMem, isChild⟩ := ih child childMem inner
        exact ⟨p, descendants_subset_nodes
          (mem_descendants_iff.mpr ⟨child, childMem, pMem⟩), isChild⟩

theorem mem_descendants_of_child {s p n : Stmt} (parentMem : p ∈ s.nodes)
    (isChild : n ∈ p.children) (nonnull : n ≠ .null) : n ∈ s.descendants :=
  descendants_trans (child_mem_descendants isChild nonnull) parentMem

end Stmt

end Hecaton.Clang
