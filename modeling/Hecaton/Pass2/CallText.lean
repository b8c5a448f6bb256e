import Hecaton.Library.Pieces
import Hecaton.Pass2.Text

/-!
# The text of a call

`parse_param` cuts the text of a call at the first `=`, the first opening and the last closing
parenthesis and at every comma.  Here the text comes from the parts of the call, where a
part may hold brackets with parts of its own, to any depth.
-/

namespace Hecaton.Pass2

open Hecaton.Library

/-! ## Expressions as text -/

/-- Brackets. -/
inductive Bracket
  | round
  | square
  | curly

def Bracket.opening : Bracket → Char
  | round => '('
  | square => '['
  | curly => '\x7b'

def Bracket.closing : Bracket → Char
  | round => ')'
  | square => ']'
  | curly => '\x7d'

/-- A part of an expression: a name, a number, an operator or white space; a literal between
quotes; or what stands between brackets, which commas divide. -/
inductive Part
  | token (text : List Char)
  | literal (quote : Char) (body : List Char)
  | group (bracket : Bracket) (items : List (List Part))

mutual

/-- The text of a part. -/
def Part.text : Part → List Char
  | .token text => text
  | .literal quote body => quote :: (body ++ [quote])
  | .group bracket items => bracket.opening :: (itemsText items ++ [bracket.closing])

/-- The text of an expression. -/
def partsText : List Part → List Char
  | [] => []
  | part :: parts => part.text ++ partsText parts

/-- The text of what commas divide. -/
def itemsText : List (List Part) → List Char
  | [] => []
  | item :: items => partsText item ++ moreItemsText items

/-- Every further item stands behind a comma. -/
def moreItemsText : List (List Part) → List Char
  | [] => []
  | item :: items => ',' :: (partsText item ++ moreItemsText items)

end

/-- Neither a bracket, a comma nor a quote. -/
def isPlain (ch : Char) : Bool :=
  !(['(', ')', '[', ']', '\x7b', '\x7d', ',', '"', '\''].contains ch)

mutual

/-- Brackets, commas and quotes stand where the parts have them. -/
def Part.wellFormed : Part → Bool
  | .token text => text.all isPlain
  | .literal quote _ => quote == '"' || quote == '\''
  | .group _ items => itemsWellFormed items

def partsWellFormed : List Part → Bool
  | [] => true
  | part :: parts => part.wellFormed && partsWellFormed parts

def itemsWellFormed : List (List Part) → Bool
  | [] => true
  | item :: items => partsWellFormed item && itemsWellFormed items

end

/-- A call `f(a1,...,an)`, or an assignment `x = f(a1,...,an)` when there is a left-hand side.
The name of the function may be any expression. -/
structure Call where
  lhs : Option (List Part)
  callee : List Part
  arguments : List (List Part)
  behind : List Char
  lhsWellFormed : ∀ parts ∈ lhs, partsWellFormed parts = true
  calleeWellFormed : partsWellFormed callee = true
  wellFormed : itemsWellFormed arguments = true
  noAssignment : (removeSpaces (partsText callee)).head? ≠ some '='
  nonblank : ∀ argument ∈ arguments, removeSpaces (partsText argument) ≠ []
  behindBlank : removeSpaces behind = []

namespace Call

/-- The left-hand side with its `=`. -/
def assigned (call : Call) : List Char :=
  match call.lhs with
  | some parts => partsText parts ++ ['=']
  | none => []

/-- The text of a call. -/
def text (call : Call) : List Char :=
  call.assigned ++ partsText call.callee ++ '(' :: (itemsText call.arguments ++ ')' :: call.behind)

/-- What is read from a call: the left-hand side, or nothing, and the arguments, without white
space. -/
def params (call : Call) : List (List Char) :=
  removeSpaces (partsText (call.lhs.getD [])) ::
    call.arguments.map fun argument => removeSpaces (partsText argument)

/-- Nothing in the call looks like the marks of another call or assignment around it. -/
structure Flat (call : Call) : Prop where
  lhsNoEquals : ∀ parts ∈ call.lhs, '=' ∉ partsText parts
  noEquals : call.lhs = none → '=' ∉ partsText call.callee ∧ '=' ∉ itemsText call.arguments
  lhsNoParen : ∀ parts ∈ call.lhs, '(' ∉ partsText parts
  calleeNoParen : '(' ∉ partsText call.callee
  noComma : ∀ argument ∈ call.arguments, ',' ∉ partsText argument

end Call

/-! ## The pieces of the text -/

theorem getTokens_eq (text : List Char) : getTokens text = piecesOf ',' text := by
  induction text with
  | nil => rfl
  | cons ch rest ih =>
      rw [getTokens, piecesOf, ih]
      split
      · rfl
      · cases piecesOf ',' rest <;> rfl

theorem mem_removeSpaces {text : List Char} {ch : Char} (notBlank : removeSpaces [ch] = [ch]) :
    ch ∈ removeSpaces text ↔ ch ∈ text := by
  rw [removeSpaces, List.filter_cons] at notBlank
  have kept : (ch != ' ' && ch != '\n' && ch != '\t') = true := by
    by_contra dropped
    rw [if_neg dropped] at notBlank
    cases notBlank
  rw [removeSpaces, List.mem_filter, kept]
  simp

theorem removeSpaces_append (text rest : List Char) :
    removeSpaces (text ++ rest) = removeSpaces text ++ removeSpaces rest :=
  List.filter_append text rest

theorem removeSpaces_cons {ch : Char} (notBlank : removeSpaces [ch] = [ch]) (text : List Char) :
    removeSpaces (ch :: text) = ch :: removeSpaces text := by
  rw [← List.singleton_append, removeSpaces_append, notBlank, List.singleton_append]

theorem removeSpaces_moreItemsText (items : List (List Part)) (first : List Char) :
    first ++ removeSpaces (moreItemsText items) =
      [','].intercalate (first :: items.map fun item => removeSpaces (partsText item)) := by
  induction items generalizing first with
  | nil => simp [moreItemsText, removeSpaces]
  | cons item items ih =>
      rw [moreItemsText, removeSpaces_cons (by decide), removeSpaces_append, ih, List.map_cons,
        List.intercalate_cons_cons, List.append_assoc, List.singleton_append]

theorem removeSpaces_itemsText (items : List (List Part)) :
    removeSpaces (itemsText items) =
      [','].intercalate (items.map fun item => removeSpaces (partsText item)) := by
  cases items with
  | nil => rfl
  | cons item items =>
      rw [itemsText, removeSpaces_append, removeSpaces_moreItemsText, List.map_cons]

/-! ## The marks in the text -/

theorem findFirst_append {front : List Char} {ch : Char} (notInFront : ch ∉ front)
    (rest : List Char) : findFirst (front ++ ch :: rest) ch = some front.length := by
  have none : front.findIdx? (· == ch) = none := by
    rw [List.findIdx?_eq_none_iff]
    intro other otherMem
    rw [beq_eq_false_iff_ne]
    rintro rfl
    exact notInFront otherMem
  rw [findFirst, List.findIdx?_append, none]
  simp [List.findIdx?_cons]

theorem findFirst_eq_none {str : List Char} {ch : Char} (notIn : ch ∉ str) :
    findFirst str ch = none := by
  rw [findFirst, List.findIdx?_eq_none_iff]
  intro other otherMem
  rw [beq_eq_false_iff_ne]
  rintro rfl
  exact notIn otherMem

theorem findLast_concat (front : List Char) (ch : Char) :
    findLast (front ++ [ch]) ch = some front.length := by
  simp [findLast, List.findIdx?_cons]

/-- What stands before the first `=`. -/
def leftOf (str : List Char) : List Char :=
  match findFirst str '=' with
  | some pos => str.take pos
  | none => []

theorem leftOf_append {front : List Char} (notInFront : '=' ∉ front) (rest : List Char) :
    leftOf (front ++ '=' :: rest) = front := by
  simp only [leftOf, findFirst_append notInFront, List.take_left]

theorem leftOf_append_iff (front rest : List Char) :
    leftOf (front ++ '=' :: rest) = front ↔ '=' ∉ front := by
  constructor
  · intro isFront inFront
    obtain ⟨first, more, split, notInFirst⟩ := List.eq_append_cons_of_mem inFront
    rw [split, List.append_assoc, List.cons_append, leftOf_append notInFirst] at isFront
    have lengths := congrArg List.length isFront
    rw [List.length_append, List.length_cons] at lengths
    omega
  · exact fun notInFront => leftOf_append notInFront rest

theorem leftOf_eq_nil_iff {str : List Char} (notAtStart : str.head? ≠ some '=') :
    leftOf str = [] ↔ '=' ∉ str := by
  constructor
  · intro isNil inStr
    obtain ⟨first, more, rfl, notInFirst⟩ := List.eq_append_cons_of_mem inStr
    rw [leftOf_append notInFirst] at isNil
    rw [isNil] at notAtStart
    exact notAtStart rfl
  · intro notIn
    rw [leftOf, findFirst_eq_none notIn]

/-- What the function returns for a text that ends with its last closing parenthesis. -/
theorem parseParam_eq {text front middle : List Char} (notInFront : '(' ∉ front)
    (squeezed : removeSpaces text = front ++ '(' :: (middle ++ [')'])) :
    parseParam (String.ofList text) =
      (leftOf (removeSpaces text) :: piecesOf ',' middle).map String.ofList := by
  have closing : findLast (front ++ '(' :: (middle ++ [')'])) ')' =
      some (front.length + 1 + middle.length) := by
    have last := findLast_concat (front ++ '(' :: middle) ')'
    rw [List.append_assoc, List.cons_append] at last
    rw [last, List.length_append, List.length_cons]
    congr 1
    omega
  have cut : (front ++ '(' :: (middle ++ [')'])).drop (front.length + 1) = middle ++ [')'] := by
    rw [← List.drop_drop, List.drop_left]
    rfl
  have wide : front.length + 1 + middle.length - front.length - 1 = middle.length := by omega
  have inOrder : ¬ front.length + 1 + middle.length < front.length := by omega
  simp only [parseParam, String.toList_ofList, leftOf]
  rw [squeezed, findFirst_append notInFront, closing]
  simp only [if_neg inOrder, cut, wide, List.take_left, getTokens_eq, List.map_cons]
  cases findFirst (front ++ '(' :: (middle ++ [')'])) '=' <;> rfl

/-- With another parenthesis before it, what follows the call's own one is not cut out alone. -/
theorem piecesOf_ne_of_paren {more joined : List Char} {arguments : List (List Char)}
    (isJoined : [','].intercalate arguments = joined) :
    piecesOf ',' (more ++ '(' :: joined) ≠ arguments := by
  intro same
  rcases intercalate_piecesOf ',' (more ++ '(' :: joined) with whole | lastComma
  · rw [same, isJoined] at whole
    have lengths := congrArg List.length whole
    rw [List.length_append, List.length_cons] at lengths
    omega
  · rw [same, isJoined] at lastComma
    have commas := congrArg (List.count '(') lastComma
    rw [List.count_append, List.count_append, List.count_cons_self] at commas
    have noParen : [','].count '(' = 0 := by decide
    omega

/-! ## Reading a call -/

theorem removeSpaces_text (call : Call) :
    removeSpaces call.text =
      removeSpaces call.assigned ++ removeSpaces (partsText call.callee) ++
        '(' :: ([','].intercalate (call.arguments.map fun item => removeSpaces (partsText item)) ++
          [')']) := by
  rw [Call.text, removeSpaces_append, removeSpaces_append, removeSpaces_cons (by decide),
    removeSpaces_append, removeSpaces_cons (by decide), removeSpaces_itemsText, call.behindBlank]

/-- The text between two parentheses divides into the arguments exactly when none of them holds
a comma. -/
theorem piecesOf_arguments_iff (call : Call) :
    piecesOf ',' ([','].intercalate
        (call.arguments.map fun item => removeSpaces (partsText item))) =
      (call.arguments.map fun item => removeSpaces (partsText item)) ↔
      ∀ argument ∈ call.arguments, ',' ∉ partsText argument := by
  have commaKept : removeSpaces [','] = [','] := by decide
  constructor
  · intro same argument argumentMem inArgument
    have isPiece : removeSpaces (partsText argument) ∈ piecesOf ',' ([','].intercalate
        (call.arguments.map fun item => removeSpaces (partsText item))) := by
      rw [same]
      exact List.mem_map_of_mem argumentMem
    exact not_mem_of_mem_piecesOf isPiece ((mem_removeSpaces commaKept).mpr inArgument)
  · intro noComma
    apply piecesOf_intercalate
    · intro piece pieceMem inPiece
      obtain ⟨argument, argumentMem, rfl⟩ := List.mem_map.mp pieceMem
      exact noComma argument argumentMem ((mem_removeSpaces commaKept).mp inPiece)
    · intro piece pieceMem
      obtain ⟨argument, argumentMem, rfl⟩ := List.mem_map.mp pieceMem
      exact call.nonblank argument argumentMem

/-- What is read from the text of a call: the part before the first `=`, and the pieces between
the first opening parenthesis and the last closing one. -/
theorem parseParam_text (call : Call) :
    ∃ pieces, parseParam (String.ofList call.text) =
        (leftOf (removeSpaces call.text) :: pieces).map String.ofList ∧
      (pieces = (call.arguments.map fun item => removeSpaces (partsText item)) ↔
        '(' ∉ call.assigned ++ partsText call.callee ∧
          ∀ argument ∈ call.arguments, ',' ∉ partsText argument) := by
  have parenKept : removeSpaces ['('] = ['('] := by decide
  have squeezed := removeSpaces_text call
  have sameHead : '(' ∈ removeSpaces (call.assigned ++ partsText call.callee) ↔
      '(' ∈ call.assigned ++ partsText call.callee := mem_removeSpaces parenKept
  rw [removeSpaces_append] at sameHead
  by_cases inHead : '(' ∈ removeSpaces call.assigned ++ removeSpaces (partsText call.callee)
  · obtain ⟨first, more, split, notInFirst⟩ := List.eq_append_cons_of_mem inHead
    have cut : removeSpaces call.text = first ++ '(' :: (more ++ '(' ::
        [','].intercalate (call.arguments.map fun item => removeSpaces (partsText item)) ++
          [')']) := by
      rw [squeezed, split]
      simp
    refine ⟨_, parseParam_eq notInFirst cut, ?_⟩
    constructor
    · intro same
      exact absurd same (piecesOf_ne_of_paren rfl)
    · rintro ⟨notInHead, _⟩
      exact absurd (sameHead.mp inHead) notInHead
  · refine ⟨_, parseParam_eq inHead squeezed, ?_⟩
    rw [piecesOf_arguments_iff, ← sameHead]
    simp [inHead]

theorem leftOf_text_iff (call : Call) :
    leftOf (removeSpaces call.text) = removeSpaces (partsText (call.lhs.getD [])) ↔
      (∀ parts ∈ call.lhs, '=' ∉ partsText parts) ∧
        (call.lhs = none → '=' ∉ partsText call.callee ∧ '=' ∉ itemsText call.arguments) := by
  have equalsKept : removeSpaces ['='] = ['='] := by decide
  cases isLhs : call.lhs with
  | some parts =>
      have assigned : removeSpaces call.assigned = removeSpaces (partsText parts) ++ ['='] := by
        rw [Call.assigned, isLhs, removeSpaces_append, equalsKept]
      rw [removeSpaces_text, assigned, List.append_assoc, List.append_assoc, List.singleton_append,
        Option.getD_some, leftOf_append_iff, mem_removeSpaces equalsKept]
      simp
  | none =>
      have assigned : removeSpaces call.assigned = [] := by
        rw [Call.assigned, isLhs]
        rfl
      have squeezed := removeSpaces_text call
      rw [assigned, List.nil_append, ← removeSpaces_itemsText] at squeezed
      have notAtStart : (removeSpaces call.text).head? ≠ some '=' := by
        rw [squeezed]
        have calleeHead := call.noAssignment
        cases callee : removeSpaces (partsText call.callee) with
        | nil => simp
        | cons ch rest =>
            rw [callee] at calleeHead
            exact calleeHead
      rw [Option.getD_none, partsText]
      have isNil : removeSpaces [] = [] := rfl
      rw [isNil, leftOf_eq_nil_iff notAtStart, squeezed]
      simp [mem_removeSpaces equalsKept]

theorem flat_iff (call : Call) :
    call.Flat ↔
      ((∀ parts ∈ call.lhs, '=' ∉ partsText parts) ∧
        (call.lhs = none → '=' ∉ partsText call.callee ∧ '=' ∉ itemsText call.arguments)) ∧
        '(' ∉ call.assigned ++ partsText call.callee ∧
          ∀ argument ∈ call.arguments, ',' ∉ partsText argument := by
  have head : '(' ∉ call.assigned ++ partsText call.callee ↔
      (∀ parts ∈ call.lhs, '(' ∉ partsText parts) ∧ '(' ∉ partsText call.callee := by
    cases isLhs : call.lhs <;> simp [Call.assigned, isLhs]
  rw [head]
  constructor
  · intro flat
    exact ⟨⟨flat.lhsNoEquals, flat.noEquals⟩, ⟨flat.lhsNoParen, flat.calleeNoParen⟩, flat.noComma⟩
  · rintro ⟨⟨lhsNoEquals, noEquals⟩, ⟨lhsNoParen, calleeNoParen⟩, noComma⟩
    exact ⟨lhsNoEquals, noEquals, lhsNoParen, calleeNoParen, noComma⟩

/-- From the text of a call the function reads the left-hand side and the arguments exactly when
no `=` stands in the left-hand side, or in the whole call when there is none, no parenthesis opens
before that of the call, and no argument holds a comma. -/
theorem parseParam_call_iff (call : Call) :
    parseParam (String.ofList call.text) = call.params.map String.ofList ↔ call.Flat := by
  obtain ⟨pieces, returned, whenPieces⟩ := parseParam_text call
  rw [returned, List.map_inj_right fun _ _ => String.ofList_injective, Call.params,
    List.cons.injEq, leftOf_text_iff, whenPieces, flat_iff]

/-! A call of which an argument is a call with two arguments. -/

/-- `f(g(a, b))`. -/
def nestedCall : Call where
  lhs := none
  callee := [.token ['f']]
  arguments := [[.token ['g'], .group .round [[.token ['a']], [.token [' ', 'b']]]]]
  behind := []
  lhsWellFormed := by simp
  calleeWellFormed := by decide
  wellFormed := by decide
  noAssignment := by decide
  nonblank := by decide
  behindBlank := by decide

example : String.ofList nestedCall.text = "f(g(a, b))" := by decide

/-- Its one argument is read as two. -/
theorem parseParam_nestedCall :
    parseParam (String.ofList nestedCall.text) ≠ nestedCall.params.map String.ofList := by
  decide

end Hecaton.Pass2
