import Hecaton.Library.Comments
import Hecaton.Library.Pieces
import Hecaton.Library.Tokens
import Hecaton.Pass1.BlockText

/-!
# The text of a declaration

A declaration that is moved or separated is written anew from the printed form of its type:
the first bracket of the type goes behind the name.  A C type is written around the name, so
what the new text declares is found by reading it as a declarator.
-/

namespace Hecaton.Pass1.DeclText

open Hecaton.Library
open Hecaton.Pass1.BlockText

/-! ## Types and their printed form -/

/-- A C type over a base type, which is given by its words. -/
inductive CType
  | base (words : List (List Char))
  | pointer (pointee : CType)
  | array (element : CType) (size : Nat)
  | function (result : CType) (params : List CType) (variadic : Bool)

namespace CType

/-- The words of the base type. -/
def words : CType → List (List Char)
  | base words => words
  | pointer pointee => pointee.words
  | array element _ => element.words
  | function result _ _ => result.words

def isFunction : CType → Bool
  | function _ _ _ => true
  | _ => false

def isArray : CType → Bool
  | array _ _ => true
  | _ => false

/-- A pointer to it is written in parentheses. -/
def hasSuffix : CType → Bool
  | array _ _ => true
  | function _ _ _ => true
  | _ => false

/-- What is written between the base type and the name. -/
def printBefore : CType → List Char
  | base _ => []
  | pointer pointee => pointee.printBefore ++ (if pointee.hasSuffix then ['(', '*'] else ['*'])
  | array element _ => element.printBefore
  | function result _ _ => result.printBefore

/-- The base type, a space and what is around the name, if anything is. -/
def around (type : CType) (declarator : List Char) : List Char :=
  [' '].intercalate type.words ++ (if declarator = [] then [] else ' ' :: declarator)

mutual

/-- What is written behind the name. -/
def printAfter : CType → List Char
  | base _ => []
  | pointer pointee => if pointee.hasSuffix then ')' :: pointee.printAfter else pointee.printAfter
  | array element size => '[' :: ((toString size).toList ++ ']' :: element.printAfter)
  | function result params variadic =>
      '(' :: (printParams variadic params ++ ')' :: result.printAfter)

/-- The types of the parameters. -/
def printParams (variadic : Bool) : List CType → List Char
  | [] => if variadic then "...".toList else "void".toList
  | param :: params =>
      param.around (param.printBefore ++ param.printAfter) ++ printMoreParams variadic params

def printMoreParams (variadic : Bool) : List CType → List Char
  | [] => if variadic then ", ...".toList else []
  | param :: params =>
      ',' :: ' ' :: (param.around (param.printBefore ++ param.printAfter) ++
        printMoreParams variadic params)

end

/-- `QualType::getAsString`: the type written around no name. -/
def getAsString (type : CType) : List Char := type.around (type.printBefore ++ type.printAfter)

mutual

/-- No array of functions, and no function that returns an array or a function. -/
def wellFormed : CType → Bool
  | base words => !words.isEmpty && words.all fun word => !word.isEmpty && word.all isIdentChar
  | pointer pointee => pointee.wellFormed
  | array element _ => element.wellFormed && !element.isFunction
  | function result params _ =>
      result.wellFormed && !result.hasSuffix && paramsWellFormed params

/-- Parameters that are arrays or functions count as pointers. -/
def paramsWellFormed : List CType → Bool
  | [] => true
  | param :: params => param.wellFormed && !param.hasSuffix && paramsWellFormed params

end

/-- Pointers over the base type. -/
def isPointers : CType → Bool
  | base _ => true
  | pointer pointee => pointee.isPointers
  | _ => false

/-- Pointers over the base type, or an array of such. -/
def isSimple : CType → Bool
  | array element _ => element.isPointers
  | type => type.isPointers

/-- A line of type and name declares the name if the type is simple, unless a bracket stands
inside the base type or a bound, as in `typeof (a[0])`: the pass takes the first ones that it
finds for those of the array. -/
def lineDeclares (type : CType) (bracketInside : Bool) : Bool := type.isSimple && !bracketInside

end CType

/-- A type that a variable may have. -/
structure IsObjectType (type : CType) : Prop where
  wellFormed : type.wellFormed = true
  notFunction : type.isFunction = false

/-! ## Declarations -/

mutual

/-- What is written around a name to declare it; the name may be left out of a parameter. -/
inductive Declarator
  | hole (name : Option (List Char))
  | pointer (inner : Declarator)
  | array (inner : Declarator) (size : Nat)
  | function (inner : Declarator) (params : Params)
  | paren (inner : Declarator)

/-- The parameters of a function, each with the words of its base type. -/
inductive Params
  | nil (variadic : Bool)
  | cons (words : List (List Char)) (declarator : Declarator) (rest : Params)

end

def Declarator.isPointer : Declarator → Bool
  | .pointer _ => true
  | _ => false

def Declarator.isEmpty : Declarator → Bool
  | .hole none => true
  | _ => false

/-- The name that is declared. -/
def Declarator.declared : Declarator → Option (List Char)
  | .hole name => name
  | .pointer inner => inner.declared
  | .array inner _ => inner.declared
  | .function inner _ => inner.declared
  | .paren inner => inner.declared

mutual

/-- The tokens of a declarator. -/
def Declarator.tokens : Declarator → List (List Char)
  | .hole name => name.toList
  | .pointer inner => ['*'] :: inner.tokens
  | .array inner size => inner.tokens ++ [['['], (toString size).toList, [']']]
  | .function inner params => inner.tokens ++ ['('] :: (params.tokens ++ [[')']])
  | .paren inner => ['('] :: (inner.tokens ++ [[')']])

/-- No parameters are written as `void`. -/
def Params.tokens : Params → List (List Char)
  | .nil variadic => if variadic then [['.'], ['.'], ['.']] else ["void".toList]
  | .cons words declarator rest => words ++ declarator.tokens ++ rest.moreTokens

def Params.moreTokens : Params → List (List Char)
  | .nil variadic => if variadic then [[','], ['.'], ['.'], ['.']] else []
  | .cons words declarator rest => [','] :: (words ++ declarator.tokens ++ rest.moreTokens)

end

mutual

/-- Brackets and parameters bind closer than a star. -/
def Declarator.valid : Declarator → Bool
  | .hole _ => true
  | .pointer inner => inner.valid
  | .array inner _ => inner.valid && !inner.isPointer
  | .function inner params => inner.valid && !inner.isPointer && params.valid
  | .paren inner => inner.valid && !inner.isEmpty

def Params.valid : Params → Bool
  | .nil _ => true
  | .cons words declarator rest => !words.isEmpty && declarator.valid && rest.valid

end

def Params.variadic : Params → Bool
  | .nil variadic => variadic
  | .cons _ _ rest => rest.variadic

mutual

/-- The type that a declarator gives its name over the type it stands behind. -/
def Declarator.typeOf : Declarator → CType → CType
  | .hole _, type => type
  | .pointer inner, type => inner.typeOf (.pointer type)
  | .array inner size, type => inner.typeOf (.array type size)
  | .function inner params, type => inner.typeOf (.function type params.types params.variadic)
  | .paren inner, type => inner.typeOf type

def Params.types : Params → List CType
  | .nil _ => []
  | .cons words declarator rest => declarator.typeOf (.base words) :: rest.types

end

/-- The tokens of a C text. -/
def declTokens (text : List Char) : List (List Char) := tokensOf isIdentChar isBlank text

/-- The text is a declaration that gives the name the type. -/
def Declares (text name : List Char) (type : CType) : Prop :=
  ∃ words declarator, Declarator.valid declarator = true ∧ declarator.declared = some name ∧
    declTokens text = words ++ declarator.tokens ++ [[';']] ∧
    declarator.typeOf (.base words) = type

/-! ## The new text -/

/-- The lines about arrays that `insert_var_decl` and `seperate_decl_init` share: the type
without its first bracket, and the part of it from the first bracket on. -/
def splitArray (type : List Char) : List Char × List Char :=
  match findFrom ['['] type 0 with
  | none => (type, [])
  | some startpos =>
      let behind :=
        match findFrom [']'] type 0 with
        -- The length that is cut out wraps around when it is negative.
        | some endpos => if startpos ≤ endpos + 1 then type.drop (endpos + 1) else []
        | none => []
      (type.take startpos ++ behind, type.drop startpos)

/-- The line that `insert_var_decl` writes for a variable. -/
def insertVarDecl (type name : List Char) : List Char :=
  let (type, arrayStr) := splitArray type
  '\t' :: (type ++ ' ' :: (name ++ arrayStr ++ [';', '\n']))

/-- The line that `seperate_decl_init` writes for a variable. -/
def separateDeclInit (type name : List Char) : List Char :=
  let (type, arrayStr) := splitArray type
  type ++ ' ' :: (name ++ arrayStr ++ [';', '\n'])

/-! ## What stands before the name -/

/-- Induction along the types a type is built on, its parameters left out. -/
@[elab_as_elim]
theorem CType.chain {P : CType → Prop} (base : ∀ words, P (.base words))
    (pointer : ∀ pointee, P pointee → P (.pointer pointee))
    (array : ∀ element size, P element → P (.array element size))
    (function : ∀ result params variadic, P result → P (.function result params variadic)) :
    ∀ type, P type
  | .base words => base words
  | .pointer pointee => pointer pointee (CType.chain base pointer array function pointee)
  | .array element size => array element size (CType.chain base pointer array function element)
  | .function result params variadic =>
      function result params variadic (CType.chain base pointer array function result)

/-- Induction along a declarator to its name, the parameters left out. -/
@[elab_as_elim]
theorem Declarator.chain {P : Declarator → Prop} (hole : ∀ name, P (.hole name))
    (pointer : ∀ inner, P inner → P (.pointer inner))
    (array : ∀ inner size, P inner → P (.array inner size))
    (function : ∀ inner params, P inner → P (.function inner params))
    (paren : ∀ inner, P inner → P (.paren inner)) : ∀ declarator, P declarator
  | .hole name => hole name
  | .pointer inner => pointer inner (Declarator.chain hole pointer array function paren inner)
  | .array inner size => array inner size (Declarator.chain hole pointer array function paren inner)
  | .function inner params =>
      function inner params (Declarator.chain hole pointer array function paren inner)
  | .paren inner => paren inner (Declarator.chain hole pointer array function paren inner)

/-- A star or an opening parenthesis. -/
def isLead (ch : Char) : Bool := ch == '*' || ch == '('

theorem isLead_printBefore (type : CType) : ∀ ch ∈ type.printBefore, isLead ch = true := by
  induction type using CType.chain with
  | base words => simp [CType.printBefore]
  | pointer pointee ih =>
      intro ch chMem
      rw [CType.printBefore] at chMem
      rcases List.mem_append.mp chMem with inRest | inLast
      · exact ih ch inRest
      · split at inLast
        · have both : ∀ ch ∈ ['(', '*'], isLead ch = true := List.all_eq_true.mp (by decide)
          exact both ch inLast
        · have star : ∀ ch ∈ ['*'], isLead ch = true := List.all_eq_true.mp (by decide)
          exact star ch inLast
  | array element size ih => exact ih
  | function result params variadic ih => exact ih

/-- In the tokens of a declarator only stars and opening parentheses stand before the name. -/
theorem tokens_of_declared {declarator : Declarator} {name : List Char}
    (declared : declarator.declared = some name) :
    ∃ (lead : List Char) (behind : List (List Char)), (∀ ch ∈ lead, isLead ch = true) ∧
      declarator.tokens = lead.map (fun ch => [ch]) ++ name :: behind := by
  induction declarator using Declarator.chain with
  | hole given =>
      rw [Declarator.declared] at declared
      exact ⟨[], [], by simp, by rw [declared]; rfl⟩
  | pointer inner ih =>
      obtain ⟨lead, behind, leads, isTokens⟩ := ih declared
      refine ⟨'*' :: lead, behind, ?_, by rw [Declarator.tokens, isTokens]; rfl⟩
      intro ch chMem
      rcases List.mem_cons.mp chMem with rfl | inLead
      · rfl
      · exact leads ch inLead
  | array inner size ih =>
      obtain ⟨lead, behind, leads, isTokens⟩ := ih declared
      exact ⟨lead, _, leads, by rw [Declarator.tokens, isTokens, List.append_assoc]; rfl⟩
  | function inner params ih =>
      obtain ⟨lead, behind, leads, isTokens⟩ := ih declared
      exact ⟨lead, _, leads, by rw [Declarator.tokens, isTokens, List.append_assoc]; rfl⟩
  | paren inner ih =>
      obtain ⟨lead, behind, leads, isTokens⟩ := ih declared
      refine ⟨'(' :: lead, behind ++ [[')']], ?_, by rw [Declarator.tokens, isTokens]; simp⟩
      intro ch chMem
      rcases List.mem_cons.mp chMem with rfl | inLead
      · rfl
      · exact leads ch inLead

theorem words_typeOf (declarator : Declarator) (type : CType) :
    (declarator.typeOf type).words = type.words := by
  induction declarator using Declarator.chain generalizing type with
  | hole given => rfl
  | pointer inner ih => exact ih _
  | array inner size ih => exact ih _
  | function inner params ih => exact ih _
  | paren inner ih => exact ih _

/-- A text with another token before the name declares nothing of the type. -/
theorem not_declares {text name : List Char} {type : CType} (isName : IsName name)
    {lead : List Char} (leads : ∀ ch ∈ lead, isLead ch = true) {other : Char}
    (notLead : isLead other = false) (notLetter : isIdentChar other = false)
    {behind : List (List Char)}
    (isText : declTokens text = type.words ++ (lead.map (fun ch => [ch]) ++ [other] :: behind)) :
    ¬ Declares text name type := by
  rintro ⟨words, declarator, _, declared, isTokens, isType⟩
  have sameWords : words = type.words := by rw [← isType, words_typeOf, CType.words]
  obtain ⟨lead', behind', leads', isDeclarator⟩ := tokens_of_declared declared
  rw [isText, sameWords, isDeclarator, List.append_assoc] at isTokens
  have sameTokens := List.append_cancel_left isTokens
  rw [List.append_assoc, List.cons_append] at sameTokens
  -- The first token that is neither a star nor a parenthesis.
  let isLeadToken : List Char → Bool := fun token => token.all isLead && token.length == 1
  have leadTokens : ∀ {run : List Char}, (∀ ch ∈ run, isLead ch = true) →
      ∀ token ∈ run.map (fun ch => [ch]), isLeadToken token = true := by
    intro run isRun token tokenMem
    obtain ⟨ch, chMem, rfl⟩ := List.mem_map.mp tokenMem
    simp [isLeadToken, isRun ch chMem]
  have nameNot : isLeadToken name = false := by
    obtain ⟨first, more, rfl⟩ := List.exists_cons_of_ne_nil isName.nonempty
    have isIdent := isName.letters first List.mem_cons_self
    have firstNot : isLead first = false := by
      by_contra isLeadFirst
      rw [Bool.not_eq_false, isLead, Bool.or_eq_true, beq_iff_eq, beq_iff_eq] at isLeadFirst
      rcases isLeadFirst with rfl | rfl
      · revert isIdent
        decide
      · revert isIdent
        decide
    simp [isLeadToken, firstNot]
  have otherNot : isLeadToken [other] = false := by simp [isLeadToken, notLead]
  have rests := congrArg (List.dropWhile isLeadToken) sameTokens
  rw [List.dropWhile_append_of_pos (leadTokens leads), List.dropWhile_append_of_pos (leadTokens leads'),
    List.dropWhile_cons_of_neg (by simp [otherNot]), List.dropWhile_cons_of_neg (by simp [nameNot])]
    at rests
  have isOther : name = [other] := (List.cons.inj rests).1.symm
  have isIdent := isName.letters other (by simp [isOther])
  rw [isIdent] at notLetter
  cases notLetter

/-! ## What stands behind the name -/

/-- Behind the name of a variable stands nothing, or first a closing parenthesis or a bracket. -/
theorem printAfter_cases (type : CType) (notFunction : type.isFunction = false) :
    type.printAfter = [] ∧ type.isPointers = true ∨
      (∃ more, type.printAfter = ')' :: more) ∧ type.isSimple = false ∨
      ∃ element size, type = .array element size := by
  induction type using CType.chain with
  | base words => exact Or.inl ⟨rfl, rfl⟩
  | pointer pointee ih =>
      cases suffix : pointee.hasSuffix with
      | true =>
          right
          left
          refine ⟨⟨pointee.printAfter, by rw [CType.printAfter, if_pos suffix]⟩, ?_⟩
          cases pointee with
          | base words => cases suffix
          | pointer inner => cases suffix
          | array element size => rfl
          | function result params variadic => rfl
      | false =>
          have notFunctionHere : pointee.isFunction = false := by
            cases pointee with
            | function result params variadic => cases suffix
            | base words => rfl
            | pointer inner => rfl
            | array element size => rfl
          have same : (CType.pointer pointee).printAfter = pointee.printAfter := by
            rw [CType.printAfter, if_neg (by simp [suffix])]
          rcases ih notFunctionHere with ⟨isNil, pointers⟩ | ⟨paren, notSimple⟩ | ⟨element, size, rfl⟩
          · exact Or.inl ⟨same.trans isNil, pointers⟩
          · right
            left
            rw [same]
            refine ⟨paren, ?_⟩
            cases pointee with
            | array element size => cases suffix
            | base words => exact notSimple
            | pointer inner => exact notSimple
            | function result params variadic => rfl
          · cases suffix
  | array element size ih => exact Or.inr (Or.inr ⟨element, size, rfl⟩)
  | function result params variadic ih => cases notFunction

/-! ## The first bracket -/

theorem splitArray_of_not_mem {type : List Char} (noBracket : '[' ∉ type) :
    splitArray type = (type, []) := by
  have absent := findFrom_singleton_eq_none [] noBracket
  rw [List.nil_append, List.length_nil] at absent
  simp only [splitArray, absent]

/-- What stands before the first bracket stays before the name. -/
theorem splitArray_append {front : List Char} (noBracket : '[' ∉ front) (rest : List Char) :
    ∃ more, splitArray (front ++ '[' :: rest) = (front ++ more, '[' :: rest) := by
  have found := findFrom_singleton [] noBracket rest
  rw [List.nil_append, List.length_nil, Nat.zero_add] at found
  simp only [splitArray, found, List.take_left, List.drop_left]
  exact ⟨_, rfl⟩

theorem splitArray_brackets {front inside : List Char} (noBracket : '[' ∉ front)
    (noClosing : ']' ∉ front ++ '[' :: inside) (rest : List Char) :
    splitArray (front ++ '[' :: (inside ++ ']' :: rest)) =
      (front ++ rest, '[' :: (inside ++ ']' :: rest)) := by
  have found := findFrom_singleton [] noBracket (inside ++ ']' :: rest)
  rw [List.nil_append, List.length_nil, Nat.zero_add] at found
  have closing := findFrom_singleton [] noClosing rest
  rw [List.nil_append, List.length_nil, Nat.zero_add, List.append_assoc, List.cons_append] at closing
  have inOrder : front.length ≤ (front ++ '[' :: inside).length + 1 := by
    rw [List.length_append]
    omega
  have behind : (front ++ '[' :: (inside ++ ']' :: rest)).drop ((front ++ '[' :: inside).length + 1) =
      rest := by
    have split : front ++ '[' :: (inside ++ ']' :: rest) = front ++ '[' :: inside ++ ']' :: rest := by
      simp
    rw [split, ← List.drop_drop, List.drop_left]
    rfl
  simp only [splitArray, found, closing, List.take_left, List.drop_left, if_pos inOrder, behind]

/-! ## The tokens of the new text -/

theorem isSymbol_of_isLead {ch : Char} (lead : isLead ch = true) :
    isBlank ch = false ∧ isIdentChar ch = false := by
  rw [isLead, Bool.or_eq_true, beq_iff_eq, beq_iff_eq] at lead
  rcases lead with rfl | rfl <;> decide

/-- The words of a type are names. -/
theorem isName_of_mem_words {type : CType} (wellFormed : type.wellFormed = true) :
    ∀ word ∈ type.words, IsName word := by
  induction type using CType.chain with
  | base words =>
      intro word wordMem
      rw [CType.wellFormed, Bool.and_eq_true, List.all_eq_true] at wellFormed
      have isWord := wellFormed.2 word wordMem
      rw [Bool.and_eq_true, List.all_eq_true] at isWord
      exact ⟨by simpa using isWord.1, isWord.2⟩
  | pointer pointee ih => exact ih wellFormed
  | array element size ih =>
      rw [CType.wellFormed, Bool.and_eq_true] at wellFormed
      exact ih wellFormed.1
  | function result params variadic ih =>
      rw [CType.wellFormed, Bool.and_eq_true, Bool.and_eq_true] at wellFormed
      exact ih wellFormed.1.1

section Emitted

variable {type : CType} (isObject : IsObjectType type)
include isObject

theorem declTokens_words (rest : List Char) :
    declTokens ([' '].intercalate type.words ++ ' ' :: rest) = type.words ++ declTokens rest := by
  have isNames := isName_of_mem_words isObject.wellFormed
  rw [declTokens, tokensOf_append_blank isBlank_of_isIdentChar (by decide),
    tokensOf_intercalate isBlank_of_isIdentChar (by decide)
      (fun word wordMem => (isNames word wordMem).nonempty)
      fun word wordMem => (isNames word wordMem).letters, declTokens]

theorem not_mem_words {ch : Char} (notIdent : isIdentChar ch = false) (notSpace : ch ≠ ' ') :
    ch ∉ [' '].intercalate type.words := by
  intro chMem
  rcases mem_intercalate chMem with isSpace | ⟨word, wordMem, inWord⟩
  · exact notSpace isSpace
  · rw [(isName_of_mem_words isObject.wellFormed word wordMem).letters ch inWord] at notIdent
    cases notIdent

/-- The base type and what stands before the name hold no bracket. -/
theorem not_mem_printBefore (ch : Char) (isBracket : ch = '[' ∨ ch = ']') :
    ch ∉ [' '].intercalate type.words ++ ' ' :: type.printBefore := by
  have notIdent : isIdentChar ch = false := by rcases isBracket with rfl | rfl <;> decide
  have notSpace : ch ≠ ' ' := by rcases isBracket with rfl | rfl <;> decide
  have notLead : isLead ch = false := by rcases isBracket with rfl | rfl <;> decide
  rw [List.mem_append, List.mem_cons]
  rintro (inWords | isSpace | inBefore)
  · exact not_mem_words isObject notIdent notSpace inWords
  · exact notSpace isSpace
  · rw [isLead_printBefore type ch inBefore] at notLead
    cases notLead

omit isObject in
theorem declTokens_printBefore (rest : List Char) :
    declTokens (type.printBefore ++ rest) =
      type.printBefore.map (fun ch => [ch]) ++ declTokens rest :=
  tokensOf_symbols (fun ch chMem => isSymbol_of_isLead (isLead_printBefore type ch chMem)) rest

/-- With another character left before the name the new text does not declare the type. -/
theorem not_declares_of_split {name : List Char} (isName : IsName name) {text array : List Char}
    (more : List Char) {other : Char} (isParenOrBracket : other = ')' ∨ other = '[')
    (split : splitArray text =
      ([' '].intercalate type.words ++ ' ' :: (type.printBefore ++ other :: more), array)) :
    ¬ Declares (separateDeclInit text name) name type := by
  have notLead : isLead other = false := by rcases isParenOrBracket with rfl | rfl <;> decide
  have notBlank : isBlank other = false := by rcases isParenOrBracket with rfl | rfl <;> decide
  have notLetter : isIdentChar other = false := by rcases isParenOrBracket with rfl | rfl <;> decide
  apply not_declares isName (isLead_printBefore type) notLead notLetter
  rw [separateDeclInit, split]
  simp only [List.append_assoc, List.cons_append]
  rw [declTokens_words isObject, declTokens_printBefore, declTokens,
    tokensOf_symbol notBlank notLetter]

end Emitted

/-! ## Simple types -/

theorem CType.isSimple_of_isPointers {type : CType} (pointers : type.isPointers = true) :
    type.isSimple = true := by
  cases type with
  | array element size => cases pointers
  | base words => exact pointers
  | pointer pointee => exact pointers
  | function result params variadic => exact pointers

/-- The declarator of a type that is written without parentheses. -/
def plainDeclarator : CType → Declarator → Declarator
  | .pointer pointee, declarator => plainDeclarator pointee (.pointer declarator)
  | _, declarator => declarator

theorem plainDeclarator_spec {type : CType} (pointers : type.isPointers = true)
    (declarator : Declarator) :
    (plainDeclarator type declarator).valid = declarator.valid ∧
      (plainDeclarator type declarator).declared = declarator.declared ∧
      (plainDeclarator type declarator).tokens =
        type.printBefore.map (fun ch => [ch]) ++ declarator.tokens ∧
      (plainDeclarator type declarator).typeOf (.base type.words) = declarator.typeOf type := by
  induction type using CType.chain generalizing declarator with
  | base words => exact ⟨rfl, rfl, rfl, rfl⟩
  | pointer pointee ih =>
      have noSuffix : pointee.hasSuffix = false := by
        cases pointee with
        | base words => rfl
        | pointer inner => rfl
        | array element size => cases pointers
        | function result params variadic => cases pointers
      obtain ⟨valid, declared, tokens, typeOf⟩ := ih pointers (.pointer declarator)
      refine ⟨valid, declared, ?_, typeOf⟩
      rw [plainDeclarator, tokens, CType.printBefore, noSuffix]
      simp [Declarator.tokens]
  | array element size ih => cases pointers
  | function result params variadic ih => cases pointers

theorem declTokens_name {name : List Char} (isName : IsName name) {rest : List Char}
    (noLetter : rest.head?.any isIdentChar = false) :
    declTokens (name ++ rest) = name :: declTokens rest :=
  tokensOf_word isBlank_of_isIdentChar isName.nonempty isName.letters noLetter

theorem declTokens_semicolon : declTokens [';', '\n'] = [[';']] := by decide

/-- Both functions write the same tokens. -/
theorem declares_insertVarDecl_iff (text name : List Char) (type : CType) :
    Declares (insertVarDecl text name) name type ↔
      Declares (separateDeclInit text name) name type := by
  have same : declTokens (insertVarDecl text name) = declTokens (separateDeclInit text name) :=
    tokensOf_blank (by decide) _
  rw [Declares, Declares, same]

theorem declares_pointers {type : CType} (isObject : IsObjectType type) {name : List Char}
    (isName : IsName name) (pointers : type.isPointers = true) (isNil : type.printAfter = []) :
    Declares (separateDeclInit type.getAsString name) name type := by
  obtain ⟨valid, declared, tokens, typeOf⟩ := plainDeclarator_spec pointers (.hole (some name))
  refine ⟨type.words, plainDeclarator type (.hole (some name)), valid.trans rfl,
    declared.trans rfl, ?_, typeOf⟩
  have noBracket : '[' ∉ type.getAsString := by
    intro inText
    apply not_mem_printBefore isObject _ (Or.inl rfl)
    rw [CType.getAsString, CType.around, isNil, List.append_nil] at inText
    rcases List.mem_append.mp inText with inWords | inRest
    · exact List.mem_append_left _ inWords
    · split at inRest
      · exact absurd inRest List.not_mem_nil
      · exact List.mem_append_right _ inRest
  have named : declTokens (name ++ [';', '\n']) = [name, [';']] := by
    rw [declTokens_name isName (by decide), declTokens_semicolon]
  rw [separateDeclInit, splitArray_of_not_mem noBracket, tokens, CType.getAsString, CType.around,
    isNil, List.append_nil]
  simp only [List.append_nil, List.append_assoc]
  split
  · next isEmpty =>
    rw [isEmpty, List.nil_append, declTokens_words isObject, named]
    rfl
  · rw [List.cons_append, declTokens_words isObject, declTokens_printBefore]
    have spaced : declTokens (' ' :: (name ++ [';', '\n'])) = [name, [';']] := by
      rw [← named]
      exact tokensOf_blank (by decide) _
    rw [spaced]
    simp [Declarator.tokens]

/-- An array of pointers over the base type keeps its brackets behind the name. -/
theorem declares_array {element : CType} {size : Nat}
    (isObject : IsObjectType (.array element size)) {name : List Char} (isName : IsName name)
    (pointers : element.isPointers = true) {text : List Char}
    (split : splitArray text = ([' '].intercalate element.words ++ ' ' :: element.printBefore,
      '[' :: ((toString size).toList ++ [']']))) :
    Declares (separateDeclInit text name) name (.array element size) := by
  obtain ⟨valid, declared, tokens, typeOf⟩ :=
    plainDeclarator_spec pointers (.array (.hole (some name)) size)
  refine ⟨element.words, plainDeclarator element (.array (.hole (some name)) size),
    valid.trans rfl, declared.trans rfl, ?_, typeOf⟩
  have wellFormed : element.wellFormed = true := by
    have both := isObject.wellFormed
    rw [CType.wellFormed, Bool.and_eq_true] at both
    exact both.1
  have notFunction : element.isFunction = false := by
    cases element with
    | function result params variadic => cases pointers
    | base words => rfl
    | pointer pointee => rfl
    | array inner size => rfl
  have digits : declTokens ((toString size).toList ++ [']', ';', '\n']) =
      [(toString size).toList, [']'], [';']] := by
    rw [declTokens_name (isName_toString size) (by decide)]
    rfl
  have bracket : declTokens ('[' :: ((toString size).toList ++ [']', ';', '\n'])) =
      [['['], (toString size).toList, [']'], [';']] := by
    rw [declTokens, tokensOf_symbol (by decide) (by decide), ← declTokens, digits]
  have named : declTokens (' ' :: (name ++ '[' :: ((toString size).toList ++ [']', ';', '\n']))) =
      [name, ['['], (toString size).toList, [']'], [';']] := by
    rw [declTokens, tokensOf_blank (by decide), ← declTokens,
      declTokens_name isName (by rw [List.head?_cons]; decide), bracket]
  rw [separateDeclInit, split, tokens]
  simp only [List.append_assoc, List.cons_append, List.nil_append]
  rw [declTokens_words ⟨wellFormed, notFunction⟩, declTokens_printBefore, named]
  simp [Declarator.tokens]

/-- Where something is written around the name, it stands behind the base type and a space. -/
theorem getAsString_of_ne_nil {type : CType} (nonempty : type.printAfter ≠ []) :
    type.getAsString =
      [' '].intercalate type.words ++ ' ' :: (type.printBefore ++ type.printAfter) := by
  rw [CType.getAsString, CType.around, if_neg]
  intro isNil
  exact nonempty (List.append_eq_nil_iff.mp isNil).2

section Emitted

variable {type : CType} (isObject : IsObjectType type) {name : List Char} (isName : IsName name)
include isObject isName

/-- A pointer to an array or a function leaves its parenthesis before the name. -/
theorem not_declares_paren {more : List Char} (paren : type.printAfter = ')' :: more) :
    ¬ Declares (separateDeclInit type.getAsString name) name type := by
  have isText : type.getAsString = ([' '].intercalate type.words ++
      ' ' :: (type.printBefore ++ [')'])) ++ more := by
    rw [getAsString_of_ne_nil (by rw [paren]; simp), paren]
    simp
  have notInFront : '[' ∉ [' '].intercalate type.words ++ ' ' :: (type.printBefore ++ [')']) := by
    have notBefore := not_mem_printBefore isObject '[' (Or.inl rfl)
    simp only [List.mem_append, List.mem_cons, List.not_mem_nil, or_false, not_or] at notBefore ⊢
    exact ⟨notBefore.1, notBefore.2.1, notBefore.2.2, by decide⟩
  by_cases inMore : '[' ∈ more
  · obtain ⟨first, rest, rfl, notInFirst⟩ := List.eq_append_cons_of_mem inMore
    have noBracket : '[' ∉ [' '].intercalate type.words ++ ' ' :: (type.printBefore ++ [')']) ++
        first := by
      rw [List.mem_append]
      exact fun inEither => inEither.elim notInFront notInFirst
    obtain ⟨left, isSplit⟩ := splitArray_append noBracket rest
    apply not_declares_of_split isObject isName (first ++ left) (Or.inl rfl)
    rw [isText, ← List.append_assoc, isSplit]
    simp only [List.append_assoc, List.cons_append, List.nil_append]
    rfl
  · apply not_declares_of_split isObject isName more (Or.inl rfl)
    rw [splitArray_of_not_mem, isText]
    · simp only [List.append_assoc, List.cons_append, List.nil_append]
      rfl
    · rw [isText, List.mem_append]
      exact fun inEither => inEither.elim notInFront inMore

end Emitted

/-- Of an array only the first bracket goes behind the name. -/
theorem splitArray_array {element : CType} {size : Nat}
    (isObject : IsObjectType (.array element size)) :
    splitArray (CType.array element size).getAsString =
      ([' '].intercalate element.words ++ ' ' :: (element.printBefore ++ element.printAfter),
        '[' :: ((toString size).toList ++ ']' :: element.printAfter)) := by
  have isText : (CType.array element size).getAsString =
      ([' '].intercalate element.words ++ ' ' :: element.printBefore) ++
        '[' :: ((toString size).toList ++ ']' :: element.printAfter) := by
    rw [getAsString_of_ne_nil (by rw [CType.printAfter]; simp), CType.words, CType.printBefore,
      CType.printAfter]
    simp
  have noBracket := not_mem_printBefore isObject '[' (Or.inl rfl)
  have noClosing := not_mem_printBefore isObject ']' (Or.inr rfl)
  have notDigit : ']' ∉ (toString size).toList := by
    intro inSize
    have isIdent := (isName_toString size).letters _ inSize
    revert isIdent
    decide
  rw [CType.words, CType.printBefore] at noBracket noClosing
  rw [isText, splitArray_brackets noBracket]
  · simp
  · rw [List.mem_append, List.mem_cons]
    rintro (inFront | isBracket | inSize)
    · exact noClosing inFront
    · revert isBracket
      decide
    · exact notDigit inSize

theorem declares_array_iff {element : CType} {size : Nat}
    (isObject : IsObjectType (.array element size)) {name : List Char} (isName : IsName name) :
    Declares (separateDeclInit (CType.array element size).getAsString name) name
        (.array element size) ↔ element.isPointers = true := by
  have notFunction : element.isFunction = false := by
    have both := isObject.wellFormed
    rw [CType.wellFormed, Bool.and_eq_true, Bool.not_eq_true'] at both
    exact both.2
  have isSplit := splitArray_array isObject
  -- What is left of the type of the elements behind its name decides.
  rcases printAfter_cases element notFunction with
    ⟨isNil, pointers⟩ | ⟨⟨more, paren⟩, notSimple⟩ | ⟨inner, innerSize, rfl⟩
  · rw [isNil, List.append_nil] at isSplit
    exact iff_of_true (declares_array isObject isName pointers isSplit) pointers
  · rw [paren] at isSplit
    apply iff_of_false (not_declares_of_split isObject isName _ (Or.inl rfl) isSplit)
    intro pointers
    rw [CType.isSimple_of_isPointers pointers] at notSimple
    cases notSimple
  · have bracket : (CType.array inner innerSize).printAfter =
        '[' :: ((toString innerSize).toList ++ ']' :: inner.printAfter) := by
      rw [CType.printAfter]
    rw [bracket] at isSplit
    exact iff_of_false (not_declares_of_split isObject isName _ (Or.inr rfl) isSplit)
      (by simp [CType.isPointers])

/-- For every type of a variable and every name, the line that either function writes declares
the name with the type exactly when the type is a pointer type over the base type, to any
depth, or a one-dimensional array of such. -/
theorem declares_iff_isSimple {type : CType} (isObject : IsObjectType type) {name : List Char}
    (isName : IsName name) :
    (Declares (insertVarDecl type.getAsString name) name type ↔ type.isSimple = true) ∧
      (Declares (separateDeclInit type.getAsString name) name type ↔ type.isSimple = true) := by
  rw [declares_insertVarDecl_iff, and_self]
  rcases printAfter_cases type isObject.notFunction with
    ⟨isNil, pointers⟩ | ⟨⟨more, paren⟩, notSimple⟩ | ⟨element, size, rfl⟩
  · exact iff_of_true (declares_pointers isObject isName pointers isNil)
      (CType.isSimple_of_isPointers pointers)
  · exact iff_of_false (not_declares_paren isObject isName paren) (by simp [notSimple])
  · exact declares_array_iff isObject isName

/-! An array of pointers, and an array of arrays. -/

/-- `int *[4]`. -/
def pointerArray : CType := .array (.pointer (.base ["int".toList])) 4

/-- `int [2][3]`. -/
def matrix : CType := .array (.array (.base ["int".toList]) 3) 2

example : String.ofList pointerArray.getAsString = "int *[4]" := by decide +kernel

example : String.ofList matrix.getAsString = "int [2][3]" := by decide +kernel

theorem declares_iff_isSimple_pointerArray :
    (Declares (insertVarDecl pointerArray.getAsString ['a']) ['a'] pointerArray ↔
        pointerArray.isSimple = true) ∧
      (Declares (separateDeclInit pointerArray.getAsString ['a']) ['a'] pointerArray ↔
        pointerArray.isSimple = true) :=
  declares_iff_isSimple ⟨by decide +kernel, rfl⟩ (isName_of_all (by decide) (by decide))

/-- Of the array of arrays `int [3] a[2][3];` is left, which declares nothing. -/
theorem not_declares_matrix :
    ¬ Declares (insertVarDecl matrix.getAsString ['a']) ['a'] matrix ∧
      ¬ Declares (separateDeclInit matrix.getAsString ['a']) ['a'] matrix := by
  rw [declares_insertVarDecl_iff, and_self, matrix,
    declares_array_iff ⟨by decide +kernel, rfl⟩ (isName_of_all (by decide) (by decide))]
  decide

end Hecaton.Pass1.DeclText
