import Mathlib.Data.List.Basic
import Hecaton.Library.Comments

/-!
# Functions as tokens

The body of a function as the sequence of its tokens, with any white space between them, and
the statements and expressions that the tokens form.  A node of the compiler's tree ends with
its last token; that is not the semicolon of a statement such as `return x;`, which stands
behind the node.
-/

namespace Hecaton.Clang

open Hecaton.Library

/-! ## Tokens -/

/-- White space. -/
structure Gap where
  text : List Char
  blank : text.all isBlank = true

/-- No white space. -/
def Gap.none : Gap := ⟨[], rfl⟩

/-- A space. -/
def Gap.space : Gap := ⟨[' '], by decide⟩

/-- A token and the white space behind it. -/
structure Token where
  text : List Char
  gap : Gap
  nonempty : text ≠ []

namespace Token

/-- How far the next token is. -/
def width (t : Token) : Nat := t.text.length + t.gap.text.length

/-- A token of one character. -/
def ofChar (c : Char) (gap : Gap) : Token := ⟨[c], gap, by simp⟩

end Token

/-- How far the first token behind a sequence is. -/
def width : List Token → Nat
  | [] => 0
  | t :: rest => t.width + width rest

/-- A token and the offset at which it begins. -/
structure PlacedToken where
  token : Token
  start : Nat

namespace PlacedToken

/-- Where the token ends. -/
def stop (t : PlacedToken) : Nat := t.start + t.token.text.length

/-- Where the next token begins. -/
def next (t : PlacedToken) : Nat := t.start + t.token.width

end PlacedToken

/-- The tokens of a text that begins at an offset. -/
def placedTokens : Nat → List Token → List PlacedToken
  | _, [] => []
  | o, t :: rest => ⟨t, o⟩ :: placedTokens (o + t.width) rest

/-- Where the last token ends. -/
def stopOf (o : Nat) (tokens : List Token) : Nat :=
  match (placedTokens o tokens).getLast? with
  | some t => t.stop
  | none => o

/-- `Lexer::getLocForEndOfToken` on the offsets of the file: the end of the token that begins
there, and white space itself. -/
structure LexesTokens (endOfToken : Nat → Nat) (tokens : List PlacedToken) : Prop where
  atToken : ∀ t ∈ tokens, endOfToken t.start = t.stop
  atBlank : ∀ t ∈ tokens, ∀ p, t.stop ≤ p → p < t.next → endOfToken p = p

theorem Token.width_pos (t : Token) : 0 < t.width := by
  have positive := List.length_pos_of_ne_nil t.nonempty
  rw [Token.width]
  omega

theorem PlacedToken.start_lt_stop (t : PlacedToken) : t.start < t.stop := by
  have positive := List.length_pos_of_ne_nil t.token.nonempty
  rw [PlacedToken.stop]
  omega

theorem PlacedToken.stop_le_next (t : PlacedToken) : t.stop ≤ t.next := by
  rw [PlacedToken.stop, PlacedToken.next, Token.width]
  omega

@[simp]
theorem width_nil : width [] = 0 := rfl

@[simp]
theorem width_cons (t : Token) (rest : List Token) : width (t :: rest) = t.width + width rest := rfl

theorem width_append (tokens rest : List Token) :
    width (tokens ++ rest) = width tokens + width rest := by
  induction tokens with
  | nil => exact (Nat.zero_add _).symm
  | cons t tokens ih => rw [List.cons_append, width_cons, ih, width_cons, Nat.add_assoc]

theorem placedTokens_append (o : Nat) (tokens rest : List Token) :
    placedTokens o (tokens ++ rest) =
      placedTokens o tokens ++ placedTokens (o + width tokens) rest := by
  induction tokens generalizing o with
  | nil => rfl
  | cons t tokens ih =>
      rw [List.cons_append, placedTokens, ih, placedTokens, width_cons, Nat.add_assoc,
        List.cons_append]

/-- A token lies in the text it is a token of. -/
theorem bounds_of_mem_placedTokens {o : Nat} {tokens : List Token} {t : PlacedToken}
    (tMem : t ∈ placedTokens o tokens) : o ≤ t.start ∧ t.next ≤ o + width tokens := by
  induction tokens generalizing o with
  | nil => exact absurd tMem List.not_mem_nil
  | cons first tokens ih =>
      rw [placedTokens] at tMem
      rw [width_cons]
      rcases List.mem_cons.mp tMem with rfl | inRest
      · rw [PlacedToken.next]
        exact ⟨Nat.le_refl o, by simp⟩
      · have bounds := ih inRest
        omega

/-- Two tokens of a text are the same, or one of them lies before the other. -/
theorem eq_or_apart {o : Nat} {tokens : List Token} {s t : PlacedToken}
    (sMem : s ∈ placedTokens o tokens) (tMem : t ∈ placedTokens o tokens) :
    s = t ∨ s.next ≤ t.start ∨ t.next ≤ s.start := by
  induction tokens generalizing o with
  | nil => exact absurd sMem List.not_mem_nil
  | cons first tokens ih =>
      rw [placedTokens] at sMem tMem
      rcases List.mem_cons.mp sMem with rfl | sRest
      · rcases List.mem_cons.mp tMem with rfl | tRest
        · exact Or.inl rfl
        · exact Or.inr (Or.inl (bounds_of_mem_placedTokens tRest).1)
      · rcases List.mem_cons.mp tMem with rfl | tRest
        · exact Or.inr (Or.inr (bounds_of_mem_placedTokens sRest).1)
        · exact ih sRest tRest

/-- A token that does not begin behind the end of another and does not end before its start is the
other one. -/
theorem eq_of_overlap {o : Nat} {tokens : List Token} {s t : PlacedToken}
    (sMem : s ∈ placedTokens o tokens) (tMem : t ∈ placedTokens o tokens)
    (before : s.start < t.next) (behind : t.start < s.next) : s = t := by
  rcases eq_or_apart sMem tMem with same | sFirst | tFirst
  · exact same
  · exact absurd behind (Nat.not_lt.mpr sFirst)
  · exact absurd before (Nat.not_lt.mpr tFirst)

/-- Tokens with one end are the same. -/
theorem eq_of_stop_eq {o : Nat} {tokens : List Token} {s t : PlacedToken}
    (sMem : s ∈ placedTokens o tokens) (tMem : t ∈ placedTokens o tokens)
    (sameStop : s.stop = t.stop) : s = t := by
  have sPositive := s.start_lt_stop
  have tPositive := t.start_lt_stop
  have sReaches := s.stop_le_next
  have tReaches := t.stop_le_next
  exact eq_of_overlap sMem tMem (by omega) (by omega)

/-- Behind a token that is not the last one the next token begins. -/
theorem exists_next {o : Nat} {tokens : List Token} {t s : PlacedToken}
    (tMem : t ∈ placedTokens o tokens) (sMem : s ∈ placedTokens o tokens)
    (later : t.start < s.start) : ∃ next ∈ placedTokens o tokens, next.start = t.next := by
  induction tokens generalizing o with
  | nil => exact absurd tMem List.not_mem_nil
  | cons first tokens ih =>
      rw [placedTokens] at tMem sMem ⊢
      have sRest : s ∈ placedTokens (o + first.width) tokens := by
        rcases List.mem_cons.mp sMem with rfl | inRest
        · have atLeast : o ≤ t.start := by
            rcases List.mem_cons.mp tMem with rfl | tRest
            · exact Nat.le_refl o
            · exact Nat.le_trans (Nat.le_add_right o _) (bounds_of_mem_placedTokens tRest).1
          exact absurd later (Nat.not_lt.mpr atLeast)
        · exact inRest
      rcases List.mem_cons.mp tMem with rfl | tRest
      · cases tokens with
        | nil => exact absurd sRest List.not_mem_nil
        | cons second tokens =>
            rw [placedTokens]
            exact ⟨⟨second, o + first.width⟩, by simp, rfl⟩
      · obtain ⟨next, nextMem, atNext⟩ := ih tRest sRest
        exact ⟨next, List.mem_cons_of_mem _ nextMem, atNext⟩

/-- The lexer on a text: it finds the token that begins at an offset, if one does. -/
def endOfTokenIn (tokens : List PlacedToken) (p : Nat) : Nat :=
  match tokens.find? fun t => t.start == p with
  | some t => t.stop
  | none => p

theorem lexesTokens_endOfTokenIn (o : Nat) (tokens : List Token) :
    LexesTokens (endOfTokenIn (placedTokens o tokens)) (placedTokens o tokens) where
  atToken := by
    intro t tMem
    rw [endOfTokenIn]
    cases search : (placedTokens o tokens).find? fun s => s.start == t.start with
    | none =>
        have missed := List.find?_eq_none.mp search t tMem
        simp at missed
    | some s =>
        have sMem := List.mem_of_find?_eq_some search
        have sameStart : s.start = t.start := by simpa using List.find?_some search
        have sReaches := Nat.lt_of_lt_of_le s.start_lt_stop s.stop_le_next
        have tReaches := Nat.lt_of_lt_of_le t.start_lt_stop t.stop_le_next
        rw [eq_of_overlap sMem tMem (by omega) (by omega)]
  atBlank := by
    intro t tMem p atLeast below
    rw [endOfTokenIn]
    cases search : (placedTokens o tokens).find? fun s => s.start == p with
    | none => rfl
    | some s =>
        have sMem := List.mem_of_find?_eq_some search
        have atPlace : s.start = p := by simpa using List.find?_some search
        have sReaches := Nat.lt_of_lt_of_le s.start_lt_stop s.stop_le_next
        have tPositive := t.start_lt_stop
        have same := eq_of_overlap sMem tMem (by omega) (by omega)
        rw [same] at atPlace
        omega

theorem stopOf_append (o : Nat) (tokens : List Token) {rest : List Token} (nonempty : rest ≠ []) :
    stopOf o (tokens ++ rest) = stopOf (o + width tokens) rest := by
  have present : placedTokens (o + width tokens) rest ≠ [] := by
    cases rest with
    | nil => exact absurd rfl nonempty
    | cons t rest => simp [placedTokens]
  rw [stopOf, placedTokens_append, List.getLast?_append_of_ne_nil _ present, stopOf,
    List.getLast?_eq_some_getLast present]

theorem stopOf_singleton (o : Nat) (t : Token) : stopOf o [t] = o + t.text.length := rfl

/-- The end of the last token, for tokens that end with it. -/
theorem stopOf_concat (o : Nat) (tokens : List Token) (t : Token) :
    stopOf o (tokens ++ [t]) = o + width tokens + t.text.length := by
  rw [stopOf_append o tokens (by simp), stopOf_singleton]

theorem stopOf_bounds (o : Nat) {tokens : List Token} (nonempty : tokens ≠ []) :
    o < stopOf o tokens ∧ stopOf o tokens ≤ o + width tokens := by
  obtain ⟨front, last, rfl⟩ := (List.eq_nil_or_concat tokens).resolve_left nonempty
  have positive := List.length_pos_of_ne_nil last.nonempty
  rw [List.concat_eq_append, stopOf_concat, width_append, width_cons, width_nil, Token.width]
  omega

/-! ## Statements and expressions -/

/-- Where a statement stands in the statement it belongs to.  The body of a `for` comes with the
text of that statement, as the rewriter has it when it is visited. -/
inductive Role
  | thenBranch
  | elseBranch
  | forBody (forstring : List Char)
  | whileBody
  deriving DecidableEq

/-- The kinds of nodes, as far as they matter for where a node ends. -/
inductive NodeKind
  | expression (isCall : Bool)
  | compoundStmt
  | nullStmt
  | ifStmt
  | forStmt
  | whileStmt
  | switchStmt
  | labelStmt
  deriving DecidableEq

/-- A node of this kind ends as its last part does. -/
def NodeKind.endsWithPart : NodeKind → Bool
  | ifStmt | forStmt | whileStmt | switchStmt | labelStmt => true
  | _ => false

/-- A statement with a head: an `if`, a `for` or a `while`. -/
def NodeKind.hasHead : NodeKind → Bool
  | ifStmt | forStmt | whileStmt => true
  | _ => false

/-- The code of a function.  A node has tokens and nodes as its parts, and every expression is a
node; the branches of an `if` and the bodies of `for` and `while` statements are marked.  A
statement with a semicolon at its end is written apart: the flag says that the node takes in the
semicolon, as that of a declaration does. -/
inductive Code
  | token (t : Token)
  | branch (role : Role) (body : Code)
  | node (kind : NodeKind) (first : Code) (rest : List Code)
  | ended (withSemicolon : Bool) (first : Code) (rest : List Code) (gap : Gap)

namespace Code

mutual

/-- The tokens of a piece of code. -/
def tokens : Code → List Token
  | token t => [t]
  | branch _ body => body.tokens
  | node _ first rest => first.tokens ++ tokensOf rest
  | ended _ first rest gap => first.tokens ++ tokensOf rest ++ [Token.ofChar ';' gap]

def tokensOf : List Code → List Token
  | [] => []
  | part :: parts => part.tokens ++ tokensOf parts

end

/-- A fact about all code follows for a node from its parts. -/
@[elab_as_elim]
theorem code_induction {P : Code → Prop} (token : ∀ t, P (.token t))
    (branch : ∀ role body, P body → P (.branch role body))
    (node : ∀ kind first rest, P first → (∀ part ∈ rest, P part) → P (.node kind first rest))
    (ended : ∀ withSemicolon first rest gap, P first → (∀ part ∈ rest, P part) →
      P (.ended withSemicolon first rest gap)) (code : Code) : P code := by
  refine @Code.rec P (fun parts => ∀ part ∈ parts, P part) token branch ?_ ?_ ?_ ?_ code
  · exact fun kind first rest firstHolds restHolds => node kind first rest firstHolds restHolds
  · exact fun withSemicolon first rest gap firstHolds restHolds =>
      ended withSemicolon first rest gap firstHolds restHolds
  · simp
  · intro head tail headHolds tailHolds
    simpa using ⟨headHolds, tailHolds⟩

theorem tokensOf_append (parts more : List Code) :
    tokensOf (parts ++ more) = tokensOf parts ++ tokensOf more := by
  induction parts with
  | nil => rfl
  | cons part parts ih => rw [List.cons_append, tokensOf, ih, tokensOf, List.append_assoc]

theorem tokens_ne_nil (code : Code) : code.tokens ≠ [] := by
  induction code using code_induction with
  | token t => simp [tokens]
  | branch role body ih => rwa [tokens]
  | node kind first rest ih _ => simp [tokens, ih]
  | ended withSemicolon first rest gap ih _ => simp [tokens]

def isToken : Code → Bool
  | token _ => true
  | _ => false

/-- The part is the branch or the body of a statement with a head. -/
def isBranch : Code → Bool
  | branch .. => true
  | _ => false

/-- The statement that is marked as a branch. -/
def unmarked : Code → Code
  | branch _ body => body
  | code => code

/-- The children of a node: the parts that are no tokens. -/
def children : Code → List Code
  | node _ first rest | ended _ first rest _ =>
      ((first :: rest).filter fun part => !part.isToken).map unmarked
  | _ => []

/-- A compound statement. -/
def isCompound : Code → Bool
  | node .compoundStmt _ _ => true
  | _ => false

def isIf : Code → Bool
  | node .ifStmt _ _ => true
  | _ => false

mutual

/-- The node of a statement ends before the semicolon of the statement. -/
def endsShort : Code → Bool
  | token _ => false
  | branch _ body => body.endsShort
  | node kind first rest => kind.endsWithPart && lastEndsShort first.endsShort rest
  | ended withSemicolon _ _ _ => !withSemicolon

/-- The last part does, or what stands before them when there is none. -/
def lastEndsShort (before : Bool) : List Code → Bool
  | [] => before
  | part :: parts => lastEndsShort part.endsShort parts

end

/-- A statement that ends short has another token before its semicolon. -/
theorem two_le_length_of_endsShort {code : Code} (short : code.endsShort = true) :
    2 ≤ code.tokens.length := by
  have ofParts : ∀ {parts : List Code} {before : Bool} {n : Nat},
      (∀ part ∈ parts, part.endsShort = true → 2 ≤ part.tokens.length) →
      (before = true → 2 ≤ n) → lastEndsShort before parts = true →
      2 ≤ n + (tokensOf parts).length := by
    intro parts
    induction parts with
    | nil => exact fun _ beforeHolds short => beforeHolds short
    | cons part parts ih =>
        intro before n partHolds _ short
        rw [lastEndsShort] at short
        have inRest := ih (fun part partMem => partHolds part (List.mem_cons_of_mem _ partMem))
          (partHolds part List.mem_cons_self) short
        rw [tokensOf, List.length_append]
        omega
  induction code using code_induction with
  | token t => cases short
  | branch role body ih => exact ih short
  | node kind first rest ihFirst ihRest =>
      rw [endsShort, Bool.and_eq_true] at short
      rw [tokens, List.length_append]
      exact ofParts ihRest ihFirst short.2
  | ended withSemicolon first rest gap _ _ =>
      have nonempty := List.length_pos_of_ne_nil first.tokens_ne_nil
      rw [tokens, List.length_append, List.length_append, List.length_singleton]
      omega

/-- The tokens of the node. -/
def rangeTokens (code : Code) : List Token :=
  if code.endsShort then code.tokens.dropLast else code.tokens

/-- `getEndLoc`: where the last token of the node begins. -/
def endLoc (o : Nat) (code : Code) : Nat :=
  match (placedTokens o code.rangeTokens).getLast? with
  | some t => t.start
  | none => o

theorem endLoc_eq {code : Code} {front : List Token} {last : Token} (o : Nat)
    (range : code.rangeTokens = front ++ [last]) : code.endLoc o = o + width front := by
  rw [endLoc, range, placedTokens_append, List.getLast?_append_of_ne_nil _ (by simp [placedTokens])]
  rfl

/-- The node of a statement that ends short leaves out its last token, and that of another one
nothing. -/
theorem exists_rangeTokens (code : Code) : ∃ front last,
    code.rangeTokens = front ++ [last] ∧
      if code.endsShort then ∃ semi, code.tokens = front ++ [last, semi]
      else code.tokens = front ++ [last] := by
  obtain ⟨front, last, split⟩ := (List.eq_nil_or_concat code.tokens).resolve_left code.tokens_ne_nil
  rw [List.concat_eq_append] at split
  cases short : code.endsShort with
  | false => exact ⟨front, last, by simp [rangeTokens, short, split], by simpa using split⟩
  | true =>
      have long := two_le_length_of_endsShort short
      have nonempty : front ≠ [] := by
        rintro rfl
        rw [split] at long
        simp at long
      obtain ⟨front', last', split'⟩ := (List.eq_nil_or_concat front).resolve_left nonempty
      rw [List.concat_eq_append] at split'
      refine ⟨front', last', ?_, ?_⟩
      · rw [rangeTokens, if_pos short, split, List.dropLast_concat, split']
      · rw [if_pos rfl]
        exact ⟨last, by rw [split, split', List.append_assoc, List.cons_append, List.nil_append]⟩

end Code

end Hecaton.Clang
