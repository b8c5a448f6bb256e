import Mathlib.Data.List.Infix
import Hecaton.Clang.Code

/-!
# Braces around single statements

The first pass puts braces around every branch of an `if` and every body of a loop that is no
block.  The closing brace goes to the end of the token that begins at the end of the branch's
node: this is the place behind the branch when white space follows a branch that takes in its
end, and when the semicolon of another one stands directly behind its node.

The code is that of the file; statements that begin in a macro, which the pass leaves alone, are
no `if`, `for` or `while` here.
-/

namespace Hecaton.Pass1.Braces

open Hecaton.Clang
open Hecaton.Library

/-! ## What the pass writes -/

/-- A branch that the pass wraps. -/
structure Branch where
  offset : Nat
  role : Role
  body : Code

/-- `is_ifelse`: the statement of an `else` is an `if`, or its first child is one. -/
def isIfelse (body : Code) : Bool :=
  body.isIf || body.children.head?.any Code.isIf

/-- `verify_for`: the first line of the text opens a `for`, or names a macro that does. -/
def verifyFor (str : List Char) : Bool :=
  let line := str.takeWhile (· != '\n')
  "for (".toList <:+: line || "for(".toList <:+: line || "_for_".toList <:+: line

/-- Whether `recursiveVisit` wraps a branch. -/
def wraps (body : Code) : Role → Bool
  | .thenBranch => !body.isCompound
  | .elseBranch => !body.isCompound && !isIfelse body
  | .forBody forstring => !body.isCompound && verifyFor forstring
  | .whileBody => !body.isCompound

/-- The part, when it is a branch that the pass wraps. -/
def ownBranch (o : Nat) : Code → List Branch
  | .branch role body => if wraps body role then [⟨o, role, body⟩] else []
  | _ => []

def ownBranches (o : Nat) : List Code → List Branch
  | [] => []
  | part :: parts => ownBranch o part ++ ownBranches (o + width part.tokens) parts

/-- The branches of a statement that the pass wraps. -/
def branchesOf (o : Nat) : Code → List Branch
  | .token _ => []
  | .branch _ body => branchesOf o body
  | .node _ first rest | .ended _ first rest _ => ownBranches o (first :: rest)

mutual

/-- `recursiveVisit`: the branches in the order in which it wraps them. -/
def recursiveVisit (o : Nat) : Code → List Branch
  | .token _ => []
  | .branch _ body => recursiveVisit o body
  | .node _ first rest | .ended _ first rest _ =>
      branchesOf o first ++ recursiveVisit o first ++
        recursiveVisitLoop (o + width first.tokens) rest

/-- The loop of `recursiveVisit` over the children. -/
def recursiveVisitLoop (o : Nat) : List Code → List Branch
  | [] => []
  | currStmt :: rest =>
      branchesOf o currStmt ++ recursiveVisit o currStmt ++
        recursiveVisitLoop (o + width currStmt.tokens) rest

end

/-- `recursiveGetStart`: where the first token of the branch begins. -/
def recursiveGetStart (b : Branch) : Nat := b.offset

/-- `recursiveGetEnd`; a location of the file is always valid. -/
def recursiveGetEnd (endOfToken : Nat → Nat) (b : Branch) : Nat :=
  endOfToken (endOfToken (b.body.endLoc b.offset))

/-- The name of a branch in the comments that stand at its braces. -/
def roleName : Role → String
  | .thenBranch => "Then"
  | .elseBranch => "Else"
  | .forBody _ => "For"
  | .whileBody => "While"

/-- A text that is written at an offset. -/
structure Insertion where
  offset : Nat
  text : List Char

def startText (name : String) : List Char :=
  "\n//'".toList ++ name.toList ++ "' Single start\n\x7b\n".toList

def endText (name : String) : List Char :=
  "\n\x7d\n// '".toList ++ name.toList ++ "' Single end\n".toList

/-- What is written for a branch. -/
def insertionsFor (endOfToken : Nat → Nat) (b : Branch) : List Insertion :=
  [⟨recursiveGetStart b, startText (roleName b.role)⟩,
    ⟨recursiveGetEnd endOfToken b, endText (roleName b.role)⟩]

/-! ## The text that comes out -/

/-- A token of the rewritten text.  What is written at an offset stands before the token that
begins there. -/
structure Item where
  key : Nat
  text : List Char
  deriving DecidableEq

def PlacedToken.item (t : PlacedToken) : Item := ⟨2 * t.start + 1, t.token.text⟩

/-- The code in a text: what comments and white space leave. -/
def codeIn (text : List Char) : List Char :=
  (Reading.uncommented id .code text).filter fun c => !isBlank c

def Insertion.item (insertion : Insertion) : Item :=
  ⟨2 * insertion.offset, codeIn insertion.text⟩

def openItem (p : Nat) : Item := ⟨2 * p, ['\x7b']⟩

def closeItem (p : Nat) : Item := ⟨2 * p, ['\x7d']⟩

theorem roleName_mem (role : Role) : roleName role ∈ ["Then", "Else", "For", "While"] := by
  cases role <;> simp [roleName]

/-- Outside comments only the braces are written. -/
theorem codeIn_startText (role : Role) : codeIn (startText (roleName role)) = ['\x7b'] := by
  have onlyBrace : ∀ name ∈ ["Then", "Else", "For", "While"],
      codeIn (startText name) = ['\x7b'] := by decide
  exact onlyBrace _ (roleName_mem role)

theorem codeIn_endText (role : Role) : codeIn (endText (roleName role)) = ['\x7d'] := by
  have onlyBrace : ∀ name ∈ ["Then", "Else", "For", "While"],
      codeIn (endText name) = ['\x7d'] := by decide
  exact onlyBrace _ (roleName_mem role)

/-- The text of a body that begins at an offset, after all insertions. -/
def rewritten (endOfToken : Nat → Nat) (o : Nat) (body : Code) : List Item :=
  (((recursiveVisit o body).flatMap (insertionsFor endOfToken)).map Insertion.item ++
      (placedTokens o body.tokens).map PlacedToken.item).mergeSort
    fun first second => first.key ≤ second.key

/-! ## The bodies of functions -/

mutual

/-- A branch stands directly behind a token: the parenthesis that closes the head, or `else`. -/
def wellFormed : Code → Bool
  | .token _ => true
  | .branch _ body => !body.isBranch && wellFormed body
  | .node _ first rest | .ended _ first rest _ =>
      !first.isBranch && wellFormed first && wellFormedParts first.isToken rest

def wellFormedParts (behindToken : Bool) : List Code → Bool
  | [] => true
  | part :: parts =>
      (!part.isBranch || behindToken) && wellFormed part && wellFormedParts part.isToken parts

end

/-- The body of a function: statements between braces. -/
structure FunctionBody where
  openGap : Gap
  statements : List Code
  closeGap : Gap
  wellFormed : statements.all (fun s => !s.isBranch && Braces.wellFormed s) = true

/-- A block. -/
def blockOf (openGap : Gap) (statements : List Code) (closeGap : Gap) : Code :=
  .node .compoundStmt (.token (Token.ofChar '\x7b' openGap))
    (statements ++ [.token (Token.ofChar '\x7d' closeGap)])

def FunctionBody.code (f : FunctionBody) : Code := blockOf f.openGap f.statements f.closeGap

mutual

/-- The code with every branch that the pass wraps in a block of its own. -/
def wrapped : Code → Code
  | .token t => .token t
  | .branch role body =>
      .branch role
        (if wraps body role then blockOf Gap.none [wrapped body] Gap.none else wrapped body)
  | .node kind first rest => .node kind (wrapped first) (wrappedParts rest)
  | .ended withSemicolon first rest gap =>
      .ended withSemicolon (wrapped first) (wrappedParts rest) gap

def wrappedParts : List Code → List Code
  | [] => []
  | part :: parts => wrapped part :: wrappedParts parts

end

/-- The closing brace of the branch stands behind its last token, with the semicolon that ends it,
and before the next token. -/
def ClosedBehind (endOfToken : Nat → Nat) (b : Branch) : Prop :=
  stopOf b.offset b.body.tokens ≤ recursiveGetEnd endOfToken b ∧
    recursiveGetEnd endOfToken b ≤ b.offset + width b.body.tokens

/-- Every branch gets its braces where it begins and ends, and the tokens that come out are those
of the code in which it is a block. -/
structure WrapsBranches (endOfToken : Nat → Nat) (o : Nat) (body : Code) : Prop where
  opened : ∀ b ∈ recursiveVisit o body,
    (placedTokens b.offset b.body.tokens).head?.map PlacedToken.start = some (recursiveGetStart b)
  closed : ∀ b ∈ recursiveVisit o body, ClosedBehind endOfToken b
  result : (rewritten endOfToken o body).map Item.text =
    (wrapped body).tokens.map Token.text

/-- White space follows the node of the branch exactly when the node takes in the end of the
branch: the semicolon of another branch stands directly behind its node. -/
def EndsWell (b : Branch) : Prop :=
  ∀ t, b.body.rangeTokens.getLast? = some t → (t.gap.text = [] ↔ b.body.endsShort = true)

/-! ## The wrapped code in order -/

mutual

/-- The tokens of the code with the braces of its wrapped branches, where the closing ones stand
directly behind the branches. -/
def itemsOf (o : Nat) : Code → List Item
  | .token t => [PlacedToken.item ⟨t, o⟩]
  | .branch role body =>
      if wraps body role then
        [openItem o] ++ itemsOf o body ++ [closeItem (stopOf o body.tokens)]
      else itemsOf o body
  | .node _ first rest => itemsOf o first ++ itemsOfParts (o + width first.tokens) rest
  | .ended _ first rest gap =>
      itemsOf o first ++ itemsOfParts (o + width first.tokens) rest ++
        [PlacedToken.item ⟨Token.ofChar ';' gap, o + width (first.tokens ++ Code.tokensOf rest)⟩]

def itemsOfParts (o : Nat) : List Code → List Item
  | [] => []
  | part :: parts => itemsOf o part ++ itemsOfParts (o + width part.tokens) parts

end

theorem map_text_itemsOfParts {parts : List Code}
    (partHolds : ∀ part ∈ parts, ∀ o,
      (itemsOf o part).map Item.text = (wrapped part).tokens.map Token.text) (o : Nat) :
    (itemsOfParts o parts).map Item.text =
      (Code.tokensOf (wrappedParts parts)).map Token.text := by
  induction parts generalizing o with
  | nil => rfl
  | cons part parts ih =>
      rw [itemsOfParts, wrappedParts, Code.tokensOf, List.map_append, List.map_append,
        partHolds part List.mem_cons_self,
        ih fun part partMem => partHolds part (List.mem_cons_of_mem _ partMem)]

/-- They are the tokens of the wrapped code. -/
theorem map_text_itemsOf (code : Code) (o : Nat) :
    (itemsOf o code).map Item.text = (wrapped code).tokens.map Token.text := by
  induction code using Code.code_induction generalizing o with
  | token t => rfl
  | branch role body ih =>
      rw [itemsOf, wrapped, Code.tokens]
      cases wraps body role with
      | true =>
          simp only [if_true, List.map_append, List.map_cons, List.map_nil, ih, blockOf,
            List.cons_append, List.nil_append, Code.tokens, Code.tokensOf, List.append_nil]
          rfl
      | false => simpa using ih o
  | node kind first rest ihFirst ihRest =>
      rw [itemsOf, wrapped, Code.tokens, List.map_append, List.map_append, ihFirst,
        map_text_itemsOfParts ihRest]
  | ended withSemicolon first rest gap ihFirst ihRest =>
      rw [itemsOf, wrapped, Code.tokens, List.map_append, List.map_append, List.map_append,
        List.map_append, ihFirst, map_text_itemsOfParts ihRest]
      rfl

/-! ### The same items -/

/-- What holds for every well formed piece of code holds for the parts of such a node. -/
theorem forall_parts {P : Code → Prop} {first : Code} {rest : List Code}
    (isWellFormed : (!first.isBranch && wellFormed first &&
      wellFormedParts first.isToken rest) = true)
    (firstHolds : wellFormed first = true → P first)
    (restHolds : ∀ part ∈ rest, wellFormed part = true → P part) :
    ∀ part ∈ first :: rest, P part := by
  have inRest : ∀ {behindToken : Bool} {parts : List Code},
      wellFormedParts behindToken parts = true → ∀ part ∈ parts, wellFormed part = true := by
    intro behindToken parts isWellFormed
    induction parts generalizing behindToken with
    | nil => simp
    | cons part parts ih =>
        simp only [wellFormedParts, Bool.and_eq_true] at isWellFormed
        exact List.forall_mem_cons.mpr ⟨isWellFormed.1.2, ih isWellFormed.2⟩
  simp only [Bool.and_eq_true] at isWellFormed
  exact List.forall_mem_cons.mpr ⟨firstHolds isWellFormed.1.2,
    fun part partMem => restHolds part partMem (inRest isWellFormed.2 part partMem)⟩

/-- The braces of a branch that is closed directly behind its end. -/
def bracesOf (b : Branch) : List Item :=
  [openItem b.offset, closeItem (stopOf b.offset b.body.tokens)]

/-- The tokens of a text as they are. -/
def tokenItems (o : Nat) (tokens : List Token) : List Item :=
  (placedTokens o tokens).map PlacedToken.item

theorem tokenItems_append (o : Nat) (tokens rest : List Token) :
    tokenItems o (tokens ++ rest) =
      tokenItems o tokens ++ tokenItems (o + width tokens) rest := by
  rw [tokenItems, placedTokens_append, List.map_append, tokenItems, tokenItems]

theorem ownBranch_eq_nil {part : Code} (notBranch : part.isBranch = false) (o : Nat) :
    ownBranch o part = [] := by
  cases part with
  | branch => cases notBranch
  | token | node | ended => rfl

/-- The braces that a piece of code brings along, each as often as the items have it. -/
def CountsItems (x : Item) (o : Nat) (code : Code) : Prop :=
  (itemsOf o code).count x = (tokenItems o code.tokens).count x +
    ((ownBranch o code ++ branchesOf o code ++ recursiveVisit o code).flatMap bracesOf).count x

theorem count_itemsOfParts {x : Item} {parts : List Code}
    (partHolds : ∀ part ∈ parts, ∀ o, CountsItems x o part) (o : Nat) :
    (itemsOfParts o parts).count x = (tokenItems o (Code.tokensOf parts)).count x +
      ((ownBranches o parts ++ recursiveVisitLoop o parts).flatMap bracesOf).count x := by
  induction parts generalizing o with
  | nil => rfl
  | cons part parts ih =>
      have here := partHolds part List.mem_cons_self o
      have inRest := ih (fun part partMem => partHolds part (List.mem_cons_of_mem _ partMem))
        (o + width part.tokens)
      simp only [CountsItems, List.flatMap_append, List.count_append] at here inRest
      simp only [itemsOfParts, Code.tokensOf, tokenItems_append, ownBranches, recursiveVisitLoop,
        List.flatMap_append, List.count_append]
      omega

theorem countsItems_of_wellFormed (x : Item) {code : Code} (isWellFormed : wellFormed code = true)
    (o : Nat) : CountsItems x o code := by
  induction code using Code.code_induction generalizing o with
  | token t => rfl
  | branch role body ih =>
      simp only [wellFormed, Bool.and_eq_true, Bool.not_eq_true'] at isWellFormed
      have inBody := ih isWellFormed.2 o
      simp only [CountsItems, ownBranch_eq_nil isWellFormed.1, List.nil_append, List.flatMap_append,
        List.count_append] at inBody
      simp only [CountsItems, itemsOf, ownBranch, branchesOf, recursiveVisit, Code.tokens,
        List.flatMap_append, List.count_append]
      cases wraps body role with
      | true =>
          have braces : (List.flatMap bracesOf [⟨o, role, body⟩]).count x =
              [openItem o].count x + [closeItem (stopOf o body.tokens)].count x := by
            rw [← List.count_append]
            rfl
          simp only [if_true, List.count_append, braces]
          omega
      | false =>
          simp only [Bool.false_eq_true, if_false, List.flatMap_nil, List.count_nil]
          omega
  | node kind first rest ihFirst ihRest =>
      have counted := count_itemsOfParts (x := x) (forall_parts isWellFormed ihFirst ihRest) o
      simp only [CountsItems, itemsOf, ownBranch, branchesOf, recursiveVisit, Code.tokens,
        List.nil_append]
      exact counted
  | ended withSemicolon first rest gap ihFirst ihRest =>
      have counted := count_itemsOfParts (x := x) (forall_parts isWellFormed ihFirst ihRest) o
      have semicolon : tokenItems (o + width (first.tokens ++ Code.tokensOf rest))
          [Token.ofChar ';' gap] = [PlacedToken.item ⟨Token.ofChar ';' gap,
            o + width (first.tokens ++ Code.tokensOf rest)⟩] := rfl
      simp only [itemsOfParts, Code.tokensOf, recursiveVisitLoop, List.count_append] at counted
      simp only [CountsItems, itemsOf, ownBranch, branchesOf, recursiveVisit, Code.tokens,
        List.nil_append, List.count_append, tokenItems_append _ (first.tokens ++ _), semicolon]
      omega

/-! ### In order -/

/-- An item stands before another, or is the same. -/
def Before (first second : Item) : Prop := first.key < second.key ∨ first = second

/-- The items of the text of some tokens stand in order, none of them before the text or behind its
last token.  At the start a brace stands only where a branch begins, at the end only closing
braces. -/
structure InOrder (opens : Bool) (o : Nat) (tokens : List Token) (items : List Item) : Prop where
  lower : ∀ item ∈ items, 2 * o ≤ item.key
  strict : opens = false → ∀ item ∈ items, 2 * o < item.key
  upper : ∀ item ∈ items,
    item.key < 2 * stopOf o tokens ∨ item = closeItem (stopOf o tokens)
  ordered : items.Pairwise Before

variable {opens : Bool} {o : Nat} {tokens : List Token} {items : List Item}

theorem InOrder.le_stopOf (inOrder : InOrder opens o tokens items) {item : Item}
    (itemMem : item ∈ items) : item.key ≤ 2 * stopOf o tokens := by
  rcases inOrder.upper item itemMem with below | isLast
  · exact Nat.le_of_lt below
  · rw [isLast]
    exact Nat.le_refl _

theorem inOrder_token (o : Nat) (t : Token) :
    InOrder false o [t] [PlacedToken.item ⟨t, o⟩] where
  lower := by simp [PlacedToken.item]
  strict := by simp [PlacedToken.item]
  upper := by
    have positive := List.length_pos_of_ne_nil t.nonempty
    simp only [List.mem_singleton, forall_eq, PlacedToken.item, stopOf_singleton]
    omega
  ordered := List.pairwise_singleton _ _

/-- Texts that stand one behind the other are in order when no brace opens at the border, or a
token alone stands before it. -/
theorem InOrder.append {opens' : Bool} {rest : List Token} {items' : List Item}
    (inOrder : InOrder opens o tokens items) (nonempty : tokens ≠ []) (restNonempty : rest ≠ [])
    (inOrder' : InOrder opens' (o + width tokens) rest items')
    (border : opens' = true → ∃ t, tokens = [t] ∧ items = [PlacedToken.item ⟨t, o⟩]) :
    InOrder opens o (tokens ++ rest) (items ++ items') := by
  have bounds := stopOf_bounds o nonempty
  have bounds' := stopOf_bounds (o + width tokens) restNonempty
  have sameStop : stopOf o (tokens ++ rest) = stopOf (o + width tokens) rest :=
    stopOf_append o tokens restNonempty
  refine ⟨?_, ?_, ?_, ?_⟩
  · intro item itemMem
    rcases List.mem_append.mp itemMem with inFirst | inRest
    · exact inOrder.lower item inFirst
    · have lower := inOrder'.lower item inRest
      omega
  · intro closed item itemMem
    rcases List.mem_append.mp itemMem with inFirst | inRest
    · exact inOrder.strict closed item inFirst
    · have lower := inOrder'.lower item inRest
      omega
  · rw [sameStop]
    intro item itemMem
    rcases List.mem_append.mp itemMem with inFirst | inRest
    · have below := inOrder.le_stopOf inFirst
      left
      omega
    · exact inOrder'.upper item inRest
  · refine List.pairwise_append.mpr ⟨inOrder.ordered, inOrder'.ordered, ?_⟩
    intro first firstMem second secondMem
    left
    cases opens' with
    | false =>
        have below := inOrder.le_stopOf firstMem
        have above := inOrder'.strict rfl second secondMem
        omega
    | true =>
        obtain ⟨t, rfl, rfl⟩ := border rfl
        have above := inOrder'.lower second secondMem
        have positive := t.width_pos
        rw [List.mem_singleton.mp firstMem, PlacedToken.item]
        rw [width_cons, width_nil] at above
        show 2 * o + 1 < second.key
        omega

/-- A branch that is wrapped. -/
theorem InOrder.wrap (inOrder : InOrder false o tokens items) (nonempty : tokens ≠ []) :
    InOrder true o tokens ([openItem o] ++ items ++ [closeItem (stopOf o tokens)]) := by
  have bounds := stopOf_bounds o nonempty
  have keys : ∀ p, (openItem p).key = 2 * p ∧ (closeItem p).key = 2 * p := fun p => ⟨rfl, rfl⟩
  refine ⟨?_, by simp, ?_, ?_⟩
  · intro item itemMem
    simp only [List.mem_append, List.mem_singleton] at itemMem
    rcases itemMem with (rfl | inside) | rfl
    · exact Nat.le_of_eq (keys o).1.symm
    · exact inOrder.lower item inside
    · rw [(keys _).2]
      omega
  · intro item itemMem
    simp only [List.mem_append, List.mem_singleton] at itemMem
    rcases itemMem with (rfl | inside) | rfl
    · left
      rw [(keys o).1]
      omega
    · exact inOrder.upper item inside
    · exact Or.inr rfl
  · simp only [List.pairwise_append, List.pairwise_singleton, List.mem_append, List.mem_singleton,
      true_and]
    refine ⟨⟨inOrder.ordered, ?_⟩, ?_⟩
    · rintro _ rfl second secondMem
      exact Or.inl (inOrder.strict rfl second secondMem)
    · rintro first (rfl | inside) _ rfl
      · left
        rw [(keys o).1, (keys _).2]
        omega
      · exact (inOrder.upper first inside).imp_left fun below => below

/-- The parts begin with a branch. -/
def opensWith : List Code → Bool
  | [] => false
  | part :: _ => part.isBranch

theorem inOrder_itemsOfParts {behindToken : Bool} {parts : List Code}
    (isWellFormed : wellFormedParts behindToken parts = true)
    (partHolds : ∀ part ∈ parts, ∀ o, InOrder part.isBranch o part.tokens (itemsOf o part))
    (nonempty : parts ≠ []) (o : Nat) :
    InOrder (opensWith parts) o (Code.tokensOf parts) (itemsOfParts o parts) := by
  induction parts generalizing behindToken o with
  | nil => exact absurd rfl nonempty
  | cons part parts ih =>
      have here := partHolds part List.mem_cons_self o
      cases parts with
      | nil => simpa [itemsOfParts, Code.tokensOf, opensWith] using here
      | cons next more =>
          rw [wellFormedParts, Bool.and_eq_true] at isWellFormed
          have inRest := ih isWellFormed.2
            (fun part partMem => partHolds part (List.mem_cons_of_mem _ partMem))
            (List.cons_ne_nil _ _) (o + width part.tokens)
          have restNonempty : Code.tokensOf (next :: more) ≠ [] := by
            simp [Code.tokensOf, next.tokens_ne_nil]
          rw [itemsOfParts, Code.tokensOf]
          refine here.append part.tokens_ne_nil restNonempty inRest ?_
          intro opens
          have isBranch : next.isBranch = true := opens
          have isToken : part.isToken = true := by
            have allowed := isWellFormed.2
            simp only [wellFormedParts, Bool.and_eq_true, isBranch] at allowed
            simpa using allowed.1.1
          cases part with
          | token t => exact ⟨t, by simp [Code.tokens], by simp [itemsOf]⟩
          | branch | node | ended => cases isToken

theorem inOrder_parts {first : Code} {rest : List Code}
    (isWellFormed : (!first.isBranch && wellFormed first &&
      wellFormedParts first.isToken rest) = true)
    (partHolds : ∀ part ∈ first :: rest, ∀ o,
      InOrder part.isBranch o part.tokens (itemsOf o part)) (o : Nat) :
    InOrder false o (first.tokens ++ Code.tokensOf rest)
      (itemsOf o first ++ itemsOfParts (o + width first.tokens) rest) := by
  have isParts : wellFormedParts false (first :: rest) = true := by
    simpa [wellFormedParts] using isWellFormed
  have notBranch : opensWith (first :: rest) = false := by
    simp only [Bool.and_eq_true, Bool.not_eq_true'] at isWellFormed
    exact isWellFormed.1.1
  rw [← notBranch]
  exact inOrder_itemsOfParts isParts partHolds (List.cons_ne_nil _ _) o

/-- The items of well formed code stand in order. -/
theorem inOrder_itemsOf {code : Code} (isWellFormed : wellFormed code = true) (o : Nat) :
    InOrder code.isBranch o code.tokens (itemsOf o code) := by
  induction code using Code.code_induction generalizing o with
  | token t => exact inOrder_token o t
  | branch role body ih =>
      simp only [wellFormed, Bool.and_eq_true, Bool.not_eq_true'] at isWellFormed
      have inBody := ih isWellFormed.2 o
      rw [isWellFormed.1] at inBody
      rw [itemsOf, Code.tokens]
      cases wraps body role with
      | true => exact inBody.wrap body.tokens_ne_nil
      | false => exact ⟨inBody.lower, by simp [Code.isBranch], inBody.upper, inBody.ordered⟩
  | node kind first rest ihFirst ihRest =>
      exact inOrder_parts isWellFormed (forall_parts isWellFormed ihFirst ihRest) o
  | ended withSemicolon first rest gap ihFirst ihRest =>
      have inParts := inOrder_parts isWellFormed (forall_parts isWellFormed ihFirst ihRest) o
      have semicolon := inOrder_token (o + width (first.tokens ++ Code.tokensOf rest))
        (Token.ofChar ';' gap)
      refine inParts.append ?_ (List.cons_ne_nil _ _) semicolon (by simp)
      simp [first.tokens_ne_nil]

/-! ### What the rewriter makes -/

theorem Before.le {first second : Item} (before : Before first second) :
    first.key ≤ second.key := by
  rcases before with less | rfl
  · exact Nat.le_of_lt less
  · exact Nat.le_refl _

/-- Items in order that stand at one place are the same. -/
theorem eq_of_key_eq {items : List Item} (ordered : items.Pairwise Before) {first second : Item}
    (firstMem : first ∈ items) (secondMem : second ∈ items) (sameKey : first.key = second.key) :
    first = second := by
  induction items with
  | nil => exact absurd firstMem List.not_mem_nil
  | cons item items ih =>
      rw [List.pairwise_cons] at ordered
      have same : ∀ later ∈ items, item.key = later.key → item = later := by
        intro later laterMem sameKey
        exact (ordered.1 later laterMem).resolve_left (Nat.ne_of_lt · sameKey)
      rcases List.mem_cons.mp firstMem with rfl | firstLater
      · rcases List.mem_cons.mp secondMem with rfl | secondLater
        · rfl
        · exact same second secondLater sameKey
      · rcases List.mem_cons.mp secondMem with rfl | secondLater
        · exact (same first firstLater sameKey.symm).symm
        · exact ih ordered.2 firstLater secondLater

/-- When every branch is closed directly behind its end, the rewriter makes the wrapped code. -/
theorem rewritten_eq_itemsOf {endOfToken : Nat → Nat} {o : Nat} {body : Code}
    (isWellFormed : wellFormed body = true) (noOwn : ownBranch o body ++ branchesOf o body = [])
    (closed : ∀ b ∈ recursiveVisit o body,
      recursiveGetEnd endOfToken b = stopOf b.offset b.body.tokens) :
    rewritten endOfToken o body = itemsOf o body := by
  have written : ((recursiveVisit o body).flatMap (insertionsFor endOfToken)).map Insertion.item =
      (recursiveVisit o body).flatMap bracesOf := by
    rw [List.map_flatMap]
    apply List.flatMap_congr
    intro b bMem
    rw [insertionsFor, closed b bMem, bracesOf, List.map_cons, List.map_cons, List.map_nil,
      Insertion.item, Insertion.item, codeIn_startText, codeIn_endText]
    rfl
  have inOrder := inOrder_itemsOf isWellFormed o
  have perm : (rewritten endOfToken o body).Perm (itemsOf o body) := by
    rw [rewritten, written]
    refine (List.mergeSort_perm _ _).trans (List.perm_iff_count.mpr ?_)
    intro x
    have counted := countsItems_of_wellFormed x isWellFormed o
    rw [CountsItems, noOwn, List.nil_append, Nat.add_comm] at counted
    rw [counted, List.count_append]
    rfl
  have sorted : (rewritten endOfToken o body).Pairwise fun first second =>
      first.key ≤ second.key := by
    refine (List.pairwise_mergeSort ?_ ?_ _).imp of_decide_eq_true
    · intro first second third
      simp only [decide_eq_true_eq]
      exact Nat.le_trans
    · intro first second
      simp only [Bool.or_eq_true, decide_eq_true_eq]
      exact Nat.le_total _ _
  apply perm.eq_of_pairwise _ sorted (inOrder.ordered.imp Before.le)
  intro first second firstMem secondMem below above
  exact eq_of_key_eq inOrder.ordered (perm.mem_iff.mp firstMem) secondMem
    (Nat.le_antisymm below above)

/-! ## Where the closing braces stand -/

/-- The branch stands among the tokens. -/
def StandsIn (o : Nat) (tokens : List Token) (b : Branch) : Prop :=
  ∃ before behind, tokens = before ++ b.body.tokens ++ behind ∧ b.offset = o + width before

theorem StandsIn.append_left {b : Branch} (standsIn : StandsIn o tokens b) (rest : List Token) :
    StandsIn o (tokens ++ rest) b := by
  obtain ⟨before, behind, split, place⟩ := standsIn
  exact ⟨before, behind ++ rest, by rw [split, List.append_assoc _ behind], place⟩

theorem StandsIn.append_right {rest : List Token} {b : Branch}
    (standsIn : StandsIn (o + width tokens) rest b) : StandsIn o (tokens ++ rest) b := by
  obtain ⟨before, behind, split, place⟩ := standsIn
  refine ⟨tokens ++ before, behind, ?_, ?_⟩
  · rw [split, List.append_assoc, List.append_assoc, List.append_assoc]
  · rw [place, width_append, Nat.add_assoc]

theorem standsIn_ownBranches {parts : List Code} {b : Branch} (bMem : b ∈ ownBranches o parts) :
    StandsIn o (Code.tokensOf parts) b := by
  induction parts generalizing o with
  | nil => exact absurd bMem List.not_mem_nil
  | cons part parts ih =>
      rw [ownBranches, List.mem_append] at bMem
      rw [Code.tokensOf]
      rcases bMem with own | inRest
      · apply StandsIn.append_left
        cases part with
        | branch role body =>
            rw [ownBranch] at own
            split at own
            · rw [List.mem_singleton.mp own]
              exact ⟨[], [], by simp [Code.tokens], rfl⟩
            · exact absurd own List.not_mem_nil
        | token | node | ended => exact absurd own List.not_mem_nil
      · exact (ih inRest).append_right

theorem standsIn_branchesOf {code : Code} {b : Branch} (bMem : b ∈ branchesOf o code) :
    StandsIn o code.tokens b := by
  induction code using Code.code_induction with
  | token t => exact absurd bMem List.not_mem_nil
  | branch role body ih =>
      rw [Code.tokens]
      exact ih bMem
  | node kind first rest _ _ =>
      rw [Code.tokens]
      exact standsIn_ownBranches bMem
  | ended withSemicolon first rest gap _ _ =>
      rw [Code.tokens]
      exact (standsIn_ownBranches bMem).append_left _

theorem standsIn_recursiveVisitLoop (parts : List Code) {b : Branch}
    (partHolds : ∀ part ∈ parts, ∀ o, b ∈ recursiveVisit o part → StandsIn o part.tokens b)
    (bMem : b ∈ recursiveVisitLoop o parts) : StandsIn o (Code.tokensOf parts) b := by
  induction parts generalizing o with
  | nil => exact absurd bMem List.not_mem_nil
  | cons part parts ih =>
      rw [recursiveVisitLoop, List.mem_append, List.mem_append] at bMem
      rw [Code.tokensOf]
      rcases bMem with (own | below) | inRest
      · exact (standsIn_branchesOf own).append_left _
      · exact (partHolds part List.mem_cons_self o below).append_left _
      · apply StandsIn.append_right
        exact ih (fun part partMem => partHolds part (List.mem_cons_of_mem _ partMem)) inRest

/-- The wrapped branches of a piece of code stand in it. -/
theorem standsIn_recursiveVisit {code : Code} {b : Branch} (bMem : b ∈ recursiveVisit o code) :
    StandsIn o code.tokens b := by
  induction code using Code.code_induction generalizing o with
  | token t => exact absurd bMem List.not_mem_nil
  | branch role body ih =>
      rw [Code.tokens]
      exact ih bMem
  | node kind first rest ihFirst ihRest =>
      rw [Code.tokens]
      apply standsIn_recursiveVisitLoop (first :: rest) _ bMem
      exact List.forall_mem_cons.mpr ⟨fun o => ihFirst, fun part partMem o => ihRest part partMem⟩
  | ended withSemicolon first rest gap ihFirst ihRest =>
      rw [Code.tokens]
      apply StandsIn.append_left
      apply standsIn_recursiveVisitLoop (first :: rest) _ bMem
      exact List.forall_mem_cons.mpr ⟨fun o => ihFirst, fun part partMem o => ihRest part partMem⟩

theorem recursiveVisitLoop_append (o : Nat) (parts more : List Code) :
    recursiveVisitLoop o (parts ++ more) =
      recursiveVisitLoop o parts ++ recursiveVisitLoop (o + width (Code.tokensOf parts)) more := by
  induction parts generalizing o with
  | nil => rfl
  | cons part parts ih =>
      rw [List.cons_append, recursiveVisitLoop, ih, recursiveVisitLoop, Code.tokensOf, width_append,
        Nat.add_assoc]
      simp only [List.append_assoc]

/-- In the body of a function a token stands behind every branch. -/
theorem exists_behind (f : FunctionBody) {b : Branch} (bMem : b ∈ recursiveVisit o f.code) :
    ∃ before next behind, f.code.tokens = before ++ b.body.tokens ++ next :: behind ∧
      b.offset = o + width before := by
  have inStatements : b ∈ recursiveVisitLoop (o + width [Token.ofChar '\x7b' f.openGap])
      f.statements := by
    rw [FunctionBody.code, blockOf, recursiveVisit, Code.tokens, recursiveVisitLoop_append] at bMem
    simpa [branchesOf, recursiveVisit, recursiveVisitLoop] using bMem
  obtain ⟨before, behind, split, place⟩ :=
    (standsIn_recursiveVisitLoop _ (fun _ _ _ => standsIn_recursiveVisit) inStatements).append_right
  have tokens : f.code.tokens = [Token.ofChar '\x7b' f.openGap] ++ Code.tokensOf f.statements ++
      [Token.ofChar '\x7d' f.closeGap] := by
    simp [FunctionBody.code, blockOf, Code.tokens, Code.tokensOf, Code.tokensOf_append]
  rw [split, List.append_assoc] at tokens
  cases behind with
  | nil => exact ⟨before, _, [], tokens, place⟩
  | cons next behind => exact ⟨before, next, _, tokens, place⟩

/-- What the lexer finds at the end of a token: the next token, or the white space before it. -/
theorem endOfToken_stop {endOfToken : Nat → Nat} {front behind : List Token} {t next : Token}
    (lexes : LexesTokens endOfToken (placedTokens o (front ++ [t] ++ next :: behind))) :
    endOfToken (endOfToken (o + width front)) =
      if t.gap.text = [] then o + width front + t.width + next.text.length
      else o + width front + t.text.length := by
  have split : placedTokens o (front ++ [t] ++ next :: behind) = placedTokens o front ++
      ⟨t, o + width front⟩ :: ⟨next, o + width front + t.width⟩ ::
        placedTokens (o + width front + t.width + next.width) behind := by
    simp [placedTokens_append, placedTokens]
  rw [split] at lexes
  have atFirst := lexes.atToken ⟨t, o + width front⟩ (by simp)
  have atNext := lexes.atToken ⟨next, o + width front + t.width⟩ (by simp)
  have atBlank := lexes.atBlank ⟨t, o + width front⟩ (by simp) (o + width front + t.text.length)
    (Nat.le_refl _)
  simp only [PlacedToken.stop, PlacedToken.next] at atFirst atNext atBlank
  rw [atFirst]
  split
  · next noGap =>
    have sameWidth : t.text.length = t.width := by simp [Token.width, noGap]
    rw [sameWidth, atNext]
  · next gap =>
    have positive := List.length_pos_of_ne_nil gap
    apply atBlank
    rw [Token.width]
    omega

section Closing

variable {endOfToken : Nat → Nat} {f : FunctionBody} {b : Branch}

theorem endsWell_iff {front : List Token} {last : Token}
    (range : b.body.rangeTokens = front ++ [last]) :
    EndsWell b ↔ (last.gap.text = [] ↔ b.body.endsShort = true) := by
  simp [EndsWell, range]

/-- The closing brace of a branch, by what follows the last token of its node. -/
theorem recursiveGetEnd_cases (lexes : LexesTokens endOfToken (placedTokens o f.code.tokens))
    (bMem : b ∈ recursiveVisit o f.code) :
    (EndsWell b ∧ recursiveGetEnd endOfToken b = stopOf b.offset b.body.tokens) ∨
      (¬ EndsWell b ∧ ¬ ClosedBehind endOfToken b) := by
  obtain ⟨before, next, behind, split, place⟩ := exists_behind f bMem
  obtain ⟨front, last, range, tokens⟩ := b.body.exists_rangeTokens
  have atEnd : recursiveGetEnd endOfToken b =
      endOfToken (endOfToken (o + width (before ++ front))) := by
    rw [recursiveGetEnd, Code.endLoc_eq b.offset range, place, width_append, Nat.add_assoc]
  rw [endsWell_iff range]
  cases short : b.body.endsShort with
  | true =>
      rw [short, if_pos rfl] at tokens
      obtain ⟨semi, tokens⟩ := tokens
      have atSemi : f.code.tokens = before ++ front ++ [last] ++ semi :: next :: behind := by
        simp [split, tokens]
      rw [atSemi] at lexes
      rw [endOfToken_stop lexes] at atEnd
      have stop : stopOf b.offset b.body.tokens =
          o + width (before ++ front) + last.width + semi.text.length := by
        rw [tokens, place, List.append_cons, stopOf_concat, width_append, width_append, width_cons,
          width_nil]
        omega
      by_cases noGap : last.gap.text = []
      · rw [if_pos noGap] at atEnd
        exact Or.inl ⟨by simp [noGap], atEnd.trans stop.symm⟩
      · rw [if_neg noGap] at atEnd
        refine Or.inr ⟨by simp [noGap], ?_⟩
        rintro ⟨atLeast, -⟩
        have positive := List.length_pos_of_ne_nil semi.nonempty
        rw [stop, atEnd, Token.width] at atLeast
        omega
  | false =>
      rw [short, if_neg (by simp)] at tokens
      have atNext : f.code.tokens = before ++ front ++ [last] ++ next :: behind := by
        simp [split, tokens]
      rw [atNext] at lexes
      rw [endOfToken_stop lexes] at atEnd
      have stop : stopOf b.offset b.body.tokens =
          o + width (before ++ front) + last.text.length := by
        rw [tokens, place, stopOf_concat, width_append, Nat.add_assoc o]
      by_cases noGap : last.gap.text = []
      · rw [if_pos noGap] at atEnd
        refine Or.inr ⟨by simp [noGap], ?_⟩
        rintro ⟨-, atMost⟩
        have positive := List.length_pos_of_ne_nil next.nonempty
        rw [atEnd, tokens, place, width_append, width_append, width_cons, width_nil] at atMost
        omega
      · rw [if_neg noGap] at atEnd
        exact Or.inl ⟨by simp [noGap], atEnd.trans stop.symm⟩

/-- The closing brace is in its place exactly when the branch ends well. -/
theorem closedBehind_iff (lexes : LexesTokens endOfToken (placedTokens o f.code.tokens))
    (bMem : b ∈ recursiveVisit o f.code) : ClosedBehind endOfToken b ↔ EndsWell b := by
  rcases recursiveGetEnd_cases lexes bMem with ⟨endsWell, atStop⟩ | ⟨endsBadly, notClosed⟩
  · refine iff_of_true ?_ endsWell
    rw [ClosedBehind, atStop]
    exact ⟨Nat.le_refl _, (stopOf_bounds b.offset b.body.tokens_ne_nil).2⟩
  · exact iff_of_false notClosed endsBadly

end Closing

/-- The body of a function is well formed code. -/
theorem FunctionBody.wellFormed_code (f : FunctionBody) : Braces.wellFormed f.code = true := by
  have ofStatements : ∀ {behindToken : Bool} {parts : List Code},
      parts.all (fun s => !s.isBranch && Braces.wellFormed s) = true →
      wellFormedParts behindToken parts = true := by
    intro behindToken parts
    induction parts generalizing behindToken with
    | nil => exact fun _ => rfl
    | cons part parts ih =>
        intro allWellFormed
        simp only [List.all_cons, Bool.and_eq_true] at allWellFormed
        simp [wellFormedParts, allWellFormed.1, ih allWellFormed.2]
  rw [code, blockOf, Braces.wellFormed]
  simp only [Code.isBranch, Code.isToken, Braces.wellFormed, Bool.not_false, Bool.and_self,
    Bool.true_and]
  apply ofStatements
  rw [List.all_append, f.wellFormed]
  rfl

/-- It is no branch and has none of its own. -/
theorem FunctionBody.no_own_branch (f : FunctionBody) (o : Nat) :
    ownBranch o f.code ++ branchesOf o f.code = [] := by
  have none_own : ∀ {parts : List Code} {o : Nat},
      parts.all (fun s => !s.isBranch && Braces.wellFormed s) = true →
      ownBranches o parts = [] := by
    intro parts
    induction parts with
    | nil => exact fun _ => rfl
    | cons part parts ih =>
        intro o allWellFormed
        simp only [List.all_cons, Bool.and_eq_true, Bool.not_eq_true'] at allWellFormed
        rw [ownBranches, ownBranch_eq_nil allWellFormed.1.1, List.nil_append]
        exact ih (List.all_eq_true.mpr (by simpa using allWellFormed.2))
  rw [ownBranch_eq_nil rfl, List.nil_append, code, blockOf, branchesOf]
  apply none_own
  rw [List.all_cons, List.all_append, f.wellFormed]
  rfl

/-- For every function the braces wrap exactly the branches if and only if each wrapped branch ends
well: the semicolon that ends it stands directly behind its node, and white space stands behind
a branch that its node takes in to the end. -/
theorem recursiveVisit_wraps_iff {endOfToken : Nat → Nat} {o : Nat} (f : FunctionBody)
    (lexes : LexesTokens endOfToken (placedTokens o f.code.tokens)) :
    WrapsBranches endOfToken o f.code ↔ ∀ b ∈ recursiveVisit o f.code, EndsWell b := by
  constructor
  · intro wrapsBranches b bMem
    exact (closedBehind_iff lexes bMem).mp (wrapsBranches.closed b bMem)
  · intro endsWell
    have closed : ∀ b ∈ recursiveVisit o f.code,
        recursiveGetEnd endOfToken b = stopOf b.offset b.body.tokens := by
      intro b bMem
      rcases recursiveGetEnd_cases lexes bMem with ⟨_, atStop⟩ | ⟨endsBadly, _⟩
      · exact atStop
      · exact absurd (endsWell b bMem) endsBadly
    refine ⟨?_, fun b bMem => (closedBehind_iff lexes bMem).mpr (endsWell b bMem), ?_⟩
    · intro b bMem
      cases tokens : b.body.tokens with
      | nil => exact absurd tokens b.body.tokens_ne_nil
      | cons t rest => rfl
    · rw [rewritten_eq_itemsOf f.wellFormed_code (f.no_own_branch o) closed, map_text_itemsOf]

/-! A call as a branch. -/

/-- `f(a);` with white space before the semicolon. -/
def callStatement (gap : Gap) : Code :=
  .ended false
    (.node (.expression true)
      (.node (.expression false) (.token (Token.ofChar 'f' Gap.none)) [])
      [.token (Token.ofChar '(' Gap.none),
        .node (.expression false) (.token (Token.ofChar 'a' Gap.none)) [],
        .token (Token.ofChar ')' gap)])
    [] Gap.none

/-- `{if(x)f(a);}`, with white space before the semicolon. -/
def ifBody (gap : Gap) : FunctionBody where
  openGap := Gap.none
  statements := [.node .ifStmt (.token ⟨['i', 'f'], Gap.none, by simp⟩)
    [.token (Token.ofChar '(' Gap.none),
      .node (.expression false) (.token (Token.ofChar 'x' Gap.none)) [],
      .token (Token.ofChar ')' Gap.none),
      .branch .thenBranch (callStatement gap)]]
  closeGap := Gap.none
  wellFormed := rfl

/-- Without white space the call is wrapped with its semicolon. -/
theorem recursiveVisit_wraps_call :
    WrapsBranches (endOfTokenIn (placedTokens 0 (ifBody Gap.none).code.tokens)) 0
        (ifBody Gap.none).code ↔
      ∀ b ∈ recursiveVisit 0 (ifBody Gap.none).code, EndsWell b :=
  recursiveVisit_wraps_iff (ifBody Gap.none) (lexesTokens_endOfTokenIn 0 _)

/-- In `{if(x)f(a) ;}` the closing brace goes to the offset 10, before the semicolon. -/
theorem recursiveVisit_leaves_semicolon :
    recursiveVisit 0 (ifBody Gap.space).code = [⟨6, .thenBranch, callStatement Gap.space⟩] ∧
      recursiveGetEnd (endOfTokenIn (placedTokens 0 (ifBody Gap.space).code.tokens))
        ⟨6, .thenBranch, callStatement Gap.space⟩ = 10 ∧
      ¬ WrapsBranches (endOfTokenIn (placedTokens 0 (ifBody Gap.space).code.tokens)) 0
        (ifBody Gap.space).code := by
  refine ⟨rfl, by decide, ?_⟩
  intro wrapsBranches
  have closed := wrapsBranches.closed ⟨6, .thenBranch, callStatement Gap.space⟩ List.mem_cons_self
  exact absurd closed.1 (by decide)

end Hecaton.Pass1.Braces
