import Hecaton.Scripts.DataHeader
import Hecaton.Library.Aligned

/-!
# Reading the generated header

Read back at its commas, every array of the header is the column that was written,
whatever its length.
-/

namespace Hecaton.Scripts

open Hecaton.Library

/-! ## Elements -/

/-- A character that an element may have: no white space, comma, bracket, brace or
semicolon. -/
def isPlain (c : Char) : Bool := !isSpace c && c != ',' && !(";\x7b\x7d[]".toList.contains c)

/-- A text that can stand as an element. -/
def IsElement (s : Str) : Prop := s ≠ [] ∧ ∀ c ∈ s, isPlain c = true

instance (s : Str) : Decidable (IsElement s) := inferInstanceAs (Decidable (_ ∧ _))

theorem isPlain_of_isDigit {c : Char} (digit : c.isDigit = true) : isPlain c = true := by
  rw [Char.isDigit, Bool.and_eq_true, decide_eq_true_eq, decide_eq_true_eq] at digit
  have low : 48 ≤ c.toNat := digit.1
  have high : c.toNat ≤ 57 := digit.2
  have ofNat : c = Char.ofNat c.toNat := (Char.ofNat_toNat c).symm
  have digits : ∀ n, n < 10 → isPlain (Char.ofNat (48 + n)) = true := by decide
  have offset : 48 + (c.toNat - 48) = c.toNat := by omega
  rw [ofNat, ← offset]
  exact digits (c.toNat - 48) (by omega)

theorem noMark_of_isPlain {c : Char} (plain : isPlain c = true) :
    c ∉ [';', '{', '}', '[', ']'] := by
  intro isMark
  have marks : ∀ d ∈ [';', '{', '}', '[', ']'], isPlain d = false := by decide
  rw [marks c isMark] at plain
  exact Bool.false_ne_true plain

theorem repr_toList (n : Nat) : n.repr.toList = Nat.toDigits 10 n := by
  simp [Nat.repr]

theorem isDigit_of_mem_repr {n : Nat} {c : Char} (cMem : c ∈ n.repr.toList) : c.isDigit = true := by
  rw [repr_toList] at cMem
  exact Nat.isDigit_of_mem_toDigits (by decide) (by decide) cMem

theorem isElement_repr (n : Nat) : IsElement n.repr.toList := by
  constructor
  · rw [repr_toList]
    exact Nat.toDigits_ne_nil
  · intro c cMem
    exact isPlain_of_isDigit (isDigit_of_mem_repr cMem)

theorem isDigit_of_mem_str {n : Nat} {c : Char} (cMem : c ∈ str n) : c.isDigit = true := by
  rw [str, Int.toString_eq_repr, Int.repr_eq_if, if_pos (Int.natCast_nonneg n)] at cMem
  exact isDigit_of_mem_repr cMem

/-- A number is written without any of the characters that end an element. -/
theorem isElement_str (n : Int) : IsElement (str n) := by
  rw [str, Int.toString_eq_repr, Int.repr_eq_if]
  split
  · exact isElement_repr _
  · obtain ⟨_, plain⟩ := isElement_repr (-n).toNat
    rw [String.toList_append]
    constructor
    · simp
    · intro c cMem
      rcases List.mem_append.mp cMem with isMinus | isDigit
      · have minus : ∀ d ∈ "-".toList, isPlain d = true := by decide
        exact minus c isMinus
      · exact plain c isDigit

theorem isElement_hexText {addr : Str} (plain : ∀ c ∈ addr, isPlain c = true) :
    IsElement (hexText addr) := by
  constructor
  · simp [hexText]
  · intro c cMem
    rcases List.mem_append.mp cMem with isPrefix | inAddr
    · have zero : ∀ d ∈ "0x".toList, isPlain d = true := by decide
      exact zero c isPrefix
    · exact plain c inAddr

/-! ## Writing and stripping -/

/-- What the loop writes. -/
def written (index : Nat) : List Str → Str
  | [] => []
  | element :: rest =>
      element ++ ',' :: ' ' :: (if index % 5 = 0 then ['\n'] else []) ++ written (index + 1) rest

theorem writeElements_eq (defstr : Str) (index : Nat) (elements : List Str) :
    writeElements defstr index elements = defstr ++ written index elements := by
  induction elements generalizing defstr index with
  | nil => simp [writeElements, written]
  | cons element rest ih =>
      rw [writeElements, ih, written]
      split <;> simp

theorem written_append (index : Nat) (first second : List Str) :
    written index (first ++ second) =
      written index first ++ written (index + first.length) second := by
  induction first generalizing index with
  | nil => rfl
  | cons element rest ih =>
      have indices : index + 1 + rest.length = index + (element :: rest).length := by
        rw [List.length_cons]
        omega
      simp [written, ih, indices]

/-- Stripping takes exactly what stands behind the last element. -/
theorem closeList_writeElements {last : Str} (isElement : IsElement last) (defstr : Str)
    (front : List Str) :
    closeList (writeElements defstr 0 (front ++ [last])) =
      defstr ++ (written 0 front ++ last) ++ "\x7d;\n".toList := by
  have newlines : ∀ c ∈ (if (0 + front.length) % 5 = 0 then ['\n'] else []),
      (c == '\n') = true := by
    intro c cMem
    split at cMem
    · rw [List.mem_singleton.mp cMem]
      decide
    · exact absurd cMem List.not_mem_nil
  have shape : writeElements defstr 0 (front ++ [last]) =
      (defstr ++ written 0 front ++ last ++ [',']) ++ [' '] ++
        (if (0 + front.length) % 5 = 0 then ['\n'] else []) := by
    rw [writeElements_eq, written_append, written, written]
    simp
  obtain ⟨begin, final, isLast⟩ := (List.eq_nil_or_concat last).resolve_left isElement.1
  have finalPlain := isElement.2 final (by simp [isLast])
  have keeps : (final == ',') = false := by
    by_contra isComma
    have same : final = ',' := by simpa using isComma
    rw [same] at finalPlain
    revert finalPlain
    decide
  rw [closeList, shape, rstripChar, rstripChar, rstripChar, rdropWhile_append_of_all _ newlines,
    List.rdropWhile_concat_neg _ _ _ (by decide),
    rdropWhile_append_of_all _ (by decide : ∀ c ∈ [' '], (c == ' ') = true),
    List.rdropWhile_concat_neg _ _ _ (by decide),
    rdropWhile_append_of_all _ (by decide : ∀ c ∈ [','], (c == ',') = true), isLast,
    List.concat_eq_append, ← List.append_assoc, List.rdropWhile_concat_neg _ _ _ (by simp [keeps])]
  simp

/-- Of an empty list nothing is stripped. -/
theorem closeList_nil (kind name size : Str) :
    closeList (writeElements (arrayHead kind name size) 0 []) =
      arrayHead kind name size ++ "\x7d;\n".toList := by
  have shape : arrayHead kind name size =
      (kind ++ ' ' :: name ++ '[' :: size ++ "] = ".toList) ++ ['{'] := by simp [arrayHead]
  rw [closeList, writeElements, shape, rstripChar, rstripChar, rstripChar,
    List.rdropWhile_concat_neg _ _ _ (by decide), List.rdropWhile_concat_neg _ _ _ (by decide),
    List.rdropWhile_concat_neg _ _ _ (by decide)]

/-! ## Reading elements -/

/-- Without white space, the elements stand between commas. -/
theorem filter_written {elements : List Str} (areElements : ∀ element ∈ elements, IsElement element)
    {last : Str} (isElement : IsElement last) (index : Nat) :
    ((written index elements ++ last).filter fun c => !isSpace c) =
      [','].intercalate (elements ++ [last]) := by
  have keepsAll : ∀ {element : Str}, IsElement element →
      (element.filter fun c => !isSpace c) = element := by
    intro element isElement
    apply List.filter_eq_self.mpr
    intro c cMem
    have plain := isElement.2 c cMem
    rw [isPlain, Bool.and_eq_true, Bool.and_eq_true] at plain
    exact plain.1.1
  induction elements generalizing index with
  | nil => simpa [written] using keepsAll isElement
  | cons element rest ih =>
      have restElements : ∀ other ∈ rest, IsElement other := fun other otherMem =>
        areElements other (List.mem_cons_of_mem element otherMem)
      have comma : isSpace ',' = false := by decide
      have space : isSpace ' ' = true := by decide
      have newline : isSpace '\n' = true := by decide
      have breaks : ((if index % 5 = 0 then ['\n'] else []).filter fun c => !isSpace c) = [] := by
        split
        · simp [newline]
        · rfl
      rw [List.cons_append, List.intercalate_cons_of_ne_nil (by simp), ← ih restElements (index + 1),
        written]
      simp [keepsAll (areElements element List.mem_cons_self), comma, space, breaks]

theorem readElements_written {front : List Str} (areElements : ∀ element ∈ front, IsElement element)
    {last : Str} (isElement : IsElement last) :
    readElements (written 0 front ++ last) = front ++ [last] := by
  have noComma : ∀ element ∈ front ++ [last], ',' ∉ element := by
    intro element elementMem comma
    have isElement : IsElement element := by
      rcases List.mem_append.mp elementMem with inFront | isLast
      · exact areElements element inFront
      · rwa [List.mem_singleton.mp isLast]
    have plain := isElement.2 ',' comma
    revert plain
    decide
  have nonempty : [','].intercalate (front ++ [last]) ≠ [] := by
    intro empty
    have split := List.splitOn_intercalate ',' noComma (by simp)
    rw [empty, List.splitOn_nil] at split
    have isLast : last ∈ [([] : Str)] := by
      rw [split]
      simp
    exact isElement.1 (List.mem_singleton.mp isLast)
  rw [readElements, filter_written areElements isElement 0, if_neg nonempty]
  exact List.splitOn_intercalate ',' noComma (by simp)

/-- No mark stands between the elements. -/
theorem noMark_written {front : List Str} (areElements : ∀ element ∈ front, IsElement element)
    (index : Nat) : ∀ c ∈ written index front, c ∉ [';', '{', '}', '[', ']'] := by
  induction front generalizing index with
  | nil =>
      intro c cMem
      exact absurd cMem List.not_mem_nil
  | cons element rest ih =>
      intro c cMem
      have inBreak : ∀ c ∈ (if index % 5 = 0 then ['\n'] else []), c ∉ [';', '{', '}', '[', ']'] := by
        split <;> decide
      rw [written] at cMem
      rcases List.mem_append.mp cMem with inHead | inRest
      · rcases List.mem_append.mp inHead with inElement | inSeparator
        · exact noMark_of_isPlain ((areElements element List.mem_cons_self).2 c inElement)
        · rcases List.mem_cons.mp inSeparator with rfl | inTail
          · decide
          · rcases List.mem_cons.mp inTail with rfl | isBreak
            · decide
            · exact inBreak c isBreak
      · exact ih (fun other otherMem => areElements other (List.mem_cons_of_mem element otherMem))
          (index + 1) c inRest

/-! ## Reading a declaration -/

theorem before_append {c : Char} {front : Str} (absent : c ∉ front) (rest : Str) :
    before c (front ++ c :: rest) = front := by
  have passes : ∀ d ∈ front, (d != c) = true := by
    intro d dMem
    simp only [bne_iff_ne]
    rintro rfl
    exact absent dMem
  rw [before, List.takeWhile_append_of_pos passes, List.takeWhile_cons_of_neg (by simp),
    List.append_nil]

theorem behind_append {c : Char} {front : Str} (absent : c ∉ front) (rest : Str) :
    behind c (front ++ c :: rest) = rest := by
  have passes : ∀ d ∈ front, (d != c) = true := by
    intro d dMem
    simp only [bne_iff_ne]
    rintro rfl
    exact absent dMem
  rw [behind, List.dropWhile_append_of_pos passes, List.dropWhile_cons_of_neg (by simp)]
  rfl

/-- A text is the declaration of an array: the names have no marks, and the initialiser
list reads as the elements. -/
structure IsArrayText (text : Str) (declaration : Declaration) : Prop where
  isName : IsWord declaration.name
  isText : ∃ kind body : Str,
    text = arrayHead kind declaration.name declaration.size ++ body ++ "\x7d;\n".toList ∧
    (∀ c ∈ kind ++ declaration.name ++ declaration.size ++ body, c ∉ [';', '{', '}', '[', ']']) ∧
    readElements body = declaration.elements

/-- In front of a declaration there may be a text without marks. -/
theorem readDeclaration_arrayHead {front kind name size body : Str} (isName : IsWord name)
    (noMark : ∀ c ∈ front ++ kind ++ name ++ size ++ body, c ∉ [';', '{', '}', '[', ']']) :
    readDeclaration (front ++ arrayHead kind name size ++ body ++ ['}']) =
      some { name := name, size := size, elements := readElements body } := by
  have absent : ∀ {part : Str}, (∀ c ∈ part, c ∈ front ++ kind ++ name ++ size ++ body) →
      ∀ mark ∈ [';', '{', '}', '[', ']'], mark ∉ part := by
    intro part isPart mark isMark inPart
    exact noMark mark (isPart mark inPart) isMark
  have bracket : '[' ∉ front ++ kind ++ ' ' :: name := by
    have parts : '[' ∉ front ++ kind ++ name := absent (by simp; tauto) '[' (by simp)
    simp at parts ⊢
    tauto
  have closing : ']' ∉ size := absent (by simp; tauto) ']' (by simp)
  have opening : '{' ∉ front ++ kind ++ ' ' :: name ++ '[' :: size ++ "] = ".toList := by
    have parts : '{' ∉ front ++ kind ++ name ++ size := absent (by simp; tauto) '{' (by simp)
    simp at parts ⊢
    tauto
  have ending : '}' ∉ body := absent (by simp; tauto) '}' (by simp)
  have atBracket : front ++ arrayHead kind name size ++ body ++ ['}'] =
      (front ++ kind ++ ' ' :: name) ++
        '[' :: (size ++ ']' :: (" = \x7b".toList ++ body ++ ['}'])) := by
    simp [arrayHead]
  have atBrace : front ++ arrayHead kind name size ++ body ++ ['}'] =
      (front ++ kind ++ ' ' :: name ++ '[' :: size ++ "] = ".toList) ++ '{' :: (body ++ ['}']) := by
    simp [arrayHead]
  have hasBrace : '{' ∈ front ++ arrayHead kind name size ++ body ++ ['}'] := by
    rw [atBrace]
    simp
  have readName : (split (front ++ kind ++ ' ' :: name)).getLastD [] = name := by
    rw [split, words_append_cons _ _ (by decide), words_of_no_sep isName.1 isName.2]
    simp
  rw [readDeclaration, if_pos hasBrace, Option.some_inj]
  congr 1
  · rw [atBracket, before_append bracket, readName]
  · rw [atBracket, behind_append bracket, before_append closing]
  · rw [atBrace, behind_append opening, before_append ending]

/-- A text without a brace declares nothing. -/
theorem readDeclarations_of_no_mark {tail : Str} (noSemicolon : ';' ∉ tail) (noBrace : '{' ∉ tail) :
    readDeclarations tail = [] := by
  rw [readDeclarations, List.splitOn_eq_singleton noSemicolon, List.filterMap_cons,
    readDeclaration, if_neg noBrace, List.filterMap_nil]

/-- The texts of arrays, one behind the other, are read as their declarations. -/
theorem readDeclarations_texts {texts : List Str} {declarations : List Declaration}
    (areTexts : List.Forall₂ IsArrayText texts declarations) {front tail : Str}
    (noMarkFront : ∀ c ∈ front, c ∉ [';', '{', '}', '[', ']'])
    (noSemicolon : ';' ∉ tail) (noBrace : '{' ∉ tail) :
    readDeclarations (front ++ (texts.flatten ++ tail)) = declarations := by
  induction areTexts generalizing front with
  | nil =>
      apply readDeclarations_of_no_mark
      · intro inText
        rcases List.mem_append.mp inText with inFront | inTail
        · exact noMarkFront _ inFront (by simp)
        · exact noSemicolon inTail
      · intro inText
        rcases List.mem_append.mp inText with inFront | inTail
        · exact noMarkFront _ inFront (by simp)
        · exact noBrace inTail
  | @cons text declaration texts declarations isText _ ih =>
      obtain ⟨isName, kind, body, rfl, noMark, reads⟩ := isText
      have noMarkAll : ∀ c ∈ front ++ kind ++ declaration.name ++ declaration.size ++ body,
          c ∉ [';', '{', '}', '[', ']'] := by
        intro c cMem
        simp only [List.mem_append] at cMem
        by_cases inFront : c ∈ front
        · exact noMarkFront c inFront
        · apply noMark c
          simp only [List.mem_append]
          tauto
      have noEnd :
          ';' ∉ front ++ arrayHead kind declaration.name declaration.size ++ body ++ ['}'] := by
        intro inText
        have parts := noMarkAll ';'
        simp [arrayHead] at inText parts
        tauto
      have atEnd : front ++
            ((arrayHead kind declaration.name declaration.size ++ body ++ "\x7d;\n".toList) ::
              texts).flatten ++ tail =
          (front ++ arrayHead kind declaration.name declaration.size ++ body ++ ['}']) ++
            ';' :: (['\n'] ++ (texts.flatten ++ tail)) := by
        simp
      have rest : readDeclarations (['\n'] ++ (texts.flatten ++ tail)) = declarations :=
        ih (by decide)
      rw [readDeclarations] at rest
      rw [← List.append_assoc, atEnd, readDeclarations,
        List.splitOn_append_cons_self_of_not_mem noEnd, List.filterMap_cons,
        readDeclaration_arrayHead isName noMarkAll, rest, reads]

/-! ## The arrays of the table -/

/-- A column is written as the declaration of an array with its elements. -/
theorem isArrayText_closeList {kind name size : Str} (isName : IsWord name)
    (noMark : ∀ c ∈ kind ++ name ++ size, c ∉ [';', '{', '}', '[', ']']) {column : List Str}
    (areElements : ∀ element ∈ column, IsElement element) :
    IsArrayText (closeList (writeElements (arrayHead kind name size) 0 column))
      { name := name, size := size, elements := column } := by
  rcases List.eq_nil_or_concat column with rfl | ⟨front, last, rfl⟩
  · constructor
    · exact isName
    · refine ⟨kind, [], ?_⟩
      constructor
      · rw [closeList_nil, List.append_nil]
      · constructor
        · simpa using noMark
        · rfl
  · rw [List.concat_eq_append] at areElements ⊢
    have isElement : IsElement last := areElements last (by simp)
    have inFront : ∀ element ∈ front, IsElement element := fun element elementMem =>
      areElements element (List.mem_append_left _ elementMem)
    constructor
    · exact isName
    · refine ⟨kind, written 0 front ++ last, ?_⟩
      constructor
      · rw [closeList_writeElements isElement]
      · constructor
        · intro c cMem
          rcases List.mem_append.mp cMem with inNames | inBody
          · exact noMark c inNames
          · rcases List.mem_append.mp inBody with inWritten | inLast
            · exact noMark_written inFront 0 c inWritten
            · exact noMark_of_isPlain (isElement.2 c inLast)
        · exact readElements_written inFront isElement

/-- The functions with a cold part, each with its position in the list. -/
def coldEntries (functions : List FuncClass) : List (FuncClass × Nat) :=
  functions.zipIdx.filter fun entry => entry.1.hasCold

/-- The loop writes two columns over the same functions. -/
theorem writeColdElements_eq (addr : FuncClass → Str) (defstr defstrIndex : Str)
    (index coldIndex : Nat) (functions : List FuncClass) :
    writeColdElements addr defstr defstrIndex index coldIndex functions =
      (writeElements defstr coldIndex
          (((functions.zipIdx index).filter fun entry => entry.1.hasCold).map fun entry =>
            hexText (addr entry.1)),
        writeElements defstrIndex coldIndex
          (((functions.zipIdx index).filter fun entry => entry.1.hasCold).map fun entry =>
            str entry.2)) := by
  induction functions generalizing defstr defstrIndex index coldIndex with
  | nil => rfl
  | cons function rest ih =>
      rw [writeColdElements, List.zipIdx_cons, List.filter_cons]
      by_cases hasCold : function.hasCold = true
      · rw [if_pos hasCold, if_pos hasCold, List.map_cons, List.map_cons, writeElements,
          writeElements]
        by_cases atBreak : coldIndex % 5 = 0
        · rw [if_pos atBreak]
          simp only [if_pos atBreak, ih]
        · rw [if_neg atBreak]
          simp only [if_neg atBreak, ih]
      · rw [if_neg hasCold, if_neg hasCold, ih]

theorem coldEntries_fst (functions : List FuncClass) :
    (coldEntries functions).map Prod.fst = functions.filter FuncClass.hasCold := by
  have mapped : (functions.zipIdx.map Prod.fst).filter FuncClass.hasCold =
      (functions.zipIdx.filter (FuncClass.hasCold ∘ Prod.fst)).map Prod.fst := List.filter_map ..
  rw [List.zipIdx_map_fst] at mapped
  exact mapped.symm

/-- The `k`-th entry has the position of the `k`-th function with a cold part. -/
theorem position_of_coldEntries {functions : List FuncClass} {index k : Nat}
    {entry : FuncClass × Nat}
    (isEntry : ((functions.zipIdx index).filter fun entry => entry.1.hasCold)[k]? = some entry) :
    ∃ position, entry.2 = index + position ∧ functions[position]? = some entry.1 ∧
      ((functions.take position).filter FuncClass.hasCold).length = k := by
  induction functions generalizing index k with
  | nil => simp at isEntry
  | cons function rest ih =>
      rw [List.zipIdx_cons, List.filter_cons] at isEntry
      by_cases hasCold : function.hasCold = true
      · rw [if_pos hasCold] at isEntry
        cases k with
        | zero =>
            rw [List.getElem?_cons_zero, Option.some_inj] at isEntry
            subst isEntry
            exists 0
        | succ k =>
            rw [List.getElem?_cons_succ] at isEntry
            obtain ⟨position, isPosition, isFunction, count⟩ := ih isEntry
            exists position + 1
            constructor
            · omega
            · constructor
              · rwa [List.getElem?_cons_succ]
              · simp [hasCold, count]
      · rw [if_neg hasCold] at isEntry
        obtain ⟨position, isPosition, isFunction, count⟩ := ih isEntry
        exists position + 1
        constructor
        · omega
        · constructor
          · rwa [List.getElem?_cons_succ]
          · simp [hasCold, count]

/-- The addresses of a function are texts without white space, commas and brackets. -/
structure HasPlainAddrs (function : FuncClass) : Prop where
  baseAddr : ∀ c ∈ function.baseAddr, isPlain c = true
  endAddr : ∀ c ∈ function.endAddr, isPlain c = true
  baseAddrCold : ∀ c ∈ function.baseAddrCold, isPlain c = true
  endAddrCold : ∀ c ∈ function.endAddrCold, isPlain c = true

/-- The declarations of the table: the columns in list order. -/
def tableDeclarations (suppLines : List Str) (functions : List FuncClass) : List Declaration :=
  [ ⟨"hecaton_fnc_begin_addrs".toList, arraySize, functions.map fun f => hexText f.baseAddr⟩,
    ⟨"hecaton_fnc_end_addrs".toList, arraySize, functions.map fun f => hexText f.endAddr⟩,
    ⟨"hecaton_cold_begin_addrs".toList, coldArraySize,
      (coldEntries functions).map fun entry => hexText entry.1.baseAddrCold⟩,
    ⟨"hecaton_cold_begin_index".toList, coldArraySize,
      (coldEntries functions).map fun entry => str entry.2⟩,
    ⟨"hecaton_cold_end_addrs".toList, coldArraySize,
      (coldEntries functions).map fun entry => hexText entry.1.endAddrCold⟩,
    ⟨"hecaton_r15".toList, arraySize, functions.map fun f => str f.r15⟩,
    ⟨"hecaton_r14".toList, arraySize, functions.map fun f => str f.r14⟩,
    ⟨"hecaton_r13".toList, arraySize, functions.map fun f => str f.r13⟩,
    ⟨"hecaton_r12".toList, arraySize, functions.map fun f => str f.r12⟩,
    ⟨"hecaton_rbx".toList, arraySize, functions.map fun f => str f.rbx⟩,
    ⟨"hecaton_supported".toList, arraySize,
      functions.map fun f => str (supportedFlag suppLines f)⟩ ]

/-- The texts of the arrays, in the order of the file. -/
def tableTexts (suppLines : List Str) (functions : List FuncClass) : List Str :=
  [fncBeginAddrs functions, fncEndAddrs functions,
    columnArray uint64 "hecaton_cold_begin_addrs".toList coldArraySize
      ((coldEntries functions).map fun entry => hexText entry.1.baseAddrCold),
    columnArray uint64 "hecaton_cold_begin_index".toList coldArraySize
      ((coldEntries functions).map fun entry => str entry.2),
    columnArray uint64 "hecaton_cold_end_addrs".toList coldArraySize
      ((coldEntries functions).map fun entry => hexText entry.1.endAddrCold),
    r15Array functions, r14Array functions, r13Array functions, r12Array functions,
    rbxArray functions, supportedArray suppLines functions]

theorem coldBegins_eq (functions : List FuncClass) :
    coldBegins functions =
      columnArray uint64 "hecaton_cold_begin_addrs".toList coldArraySize
          ((coldEntries functions).map fun entry => hexText entry.1.baseAddrCold) ++
        columnArray uint64 "hecaton_cold_begin_index".toList coldArraySize
          ((coldEntries functions).map fun entry => str entry.2) := by
  have columns := writeColdElements_eq FuncClass.baseAddrCold
    (arrayHead uint64 "hecaton_cold_begin_addrs".toList coldArraySize)
    (arrayHead uint64 "hecaton_cold_begin_index".toList coldArraySize) 0 0 functions
  have bothLists : coldBegins functions =
      (fun lists : Str × Str => closeList lists.1 ++ closeList lists.2)
        (writeColdElements FuncClass.baseAddrCold
          (arrayHead uint64 "hecaton_cold_begin_addrs".toList coldArraySize)
          (arrayHead uint64 "hecaton_cold_begin_index".toList coldArraySize) 0 0 functions) := rfl
  rw [bothLists, columns]
  rfl

/-- The second list of the loop is left out. -/
theorem coldEndAddrs_eq (functions : List FuncClass) :
    coldEndAddrs functions =
      columnArray uint64 "hecaton_cold_end_addrs".toList coldArraySize
        ((coldEntries functions).map fun entry => hexText entry.1.endAddrCold) := by
  have columns := writeColdElements_eq FuncClass.endAddrCold
    (arrayHead uint64 "hecaton_cold_end_addrs".toList coldArraySize)
    (arrayHead uint64 "hecaton_cold_end_index".toList coldArraySize) 0 0 functions
  have firstList : coldEndAddrs functions =
      (fun lists : Str × Str => closeList lists.1)
        (writeColdElements FuncClass.endAddrCold
          (arrayHead uint64 "hecaton_cold_end_addrs".toList coldArraySize)
          (arrayHead uint64 "hecaton_cold_end_index".toList coldArraySize) 0 0 functions) := rfl
  rw [firstList, columns]
  rfl

theorem isArrayText_strColumn {α : Type} {kind name size : Str} (isName : IsWord name)
    (noMark : ∀ c ∈ kind ++ name ++ size, c ∉ [';', '{', '}', '[', ']']) (value : α → Int)
    (rows : List α) :
    IsArrayText (columnArray kind name size (rows.map fun row => str (value row)))
      { name := name, size := size, elements := rows.map fun row => str (value row) } := by
  apply isArrayText_closeList isName noMark
  intro element elementMem
  obtain ⟨row, _, rfl⟩ := List.mem_map.mp elementMem
  exact isElement_str (value row)

theorem isArrayText_hexColumn {α : Type} {kind name size : Str} (isName : IsWord name)
    (noMark : ∀ c ∈ kind ++ name ++ size, c ∉ [';', '{', '}', '[', ']']) {addr : α → Str}
    {rows : List α} (plain : ∀ row ∈ rows, ∀ c ∈ addr row, isPlain c = true) :
    IsArrayText (columnArray kind name size (rows.map fun row => hexText (addr row)))
      { name := name, size := size, elements := rows.map fun row => hexText (addr row) } := by
  apply isArrayText_closeList isName noMark
  intro element elementMem
  obtain ⟨row, rowMem, rfl⟩ := List.mem_map.mp elementMem
  exact isElement_hexText (plain row rowMem)

theorem isArrayText_table {suppLines : List Str} {functions : List FuncClass}
    (plain : ∀ function ∈ functions, HasPlainAddrs function) :
    List.Forall₂ IsArrayText (tableTexts suppLines functions)
      (tableDeclarations suppLines functions) := by
  have isFunction : ∀ entry ∈ coldEntries functions, entry.1 ∈ functions := by
    intro entry entryMem
    exact List.fst_mem_of_mem_zipIdx (List.mem_filter.mp entryMem).1
  have coldBegin : ∀ entry ∈ coldEntries functions, ∀ c ∈ entry.1.baseAddrCold, isPlain c = true :=
    fun entry entryMem => (plain entry.1 (isFunction entry entryMem)).baseAddrCold
  have coldEnd : ∀ entry ∈ coldEntries functions, ∀ c ∈ entry.1.endAddrCold, isPlain c = true :=
    fun entry entryMem => (plain entry.1 (isFunction entry entryMem)).endAddrCold
  constructor
  · exact isArrayText_hexColumn (by decide +kernel) (by decide +kernel) fun function functionMem =>
      (plain function functionMem).baseAddr
  constructor
  · exact isArrayText_hexColumn (by decide +kernel) (by decide +kernel) fun function functionMem =>
      (plain function functionMem).endAddr
  constructor
  · exact isArrayText_hexColumn (by decide +kernel) (by decide +kernel) coldBegin
  constructor
  · exact isArrayText_strColumn (by decide +kernel) (by decide +kernel)
      (fun entry : FuncClass × Nat => (entry.2 : Int)) (coldEntries functions)
  constructor
  · exact isArrayText_hexColumn (by decide +kernel) (by decide +kernel) coldEnd
  constructor
  · exact isArrayText_strColumn (by decide +kernel) (by decide +kernel) FuncClass.r15 functions
  constructor
  · exact isArrayText_strColumn (by decide +kernel) (by decide +kernel) FuncClass.r14 functions
  constructor
  · exact isArrayText_strColumn (by decide +kernel) (by decide +kernel) FuncClass.r13 functions
  constructor
  · exact isArrayText_strColumn (by decide +kernel) (by decide +kernel) FuncClass.r12 functions
  constructor
  · exact isArrayText_strColumn (by decide +kernel) (by decide +kernel) FuncClass.rbx functions
  constructor
  · exact isArrayText_strColumn (by decide +kernel) (by decide +kernel) (supportedFlag suppLines)
      functions
  · exact List.Forall₂.nil

/-- What stands in front of the arrays. -/
def headerFront (functions : List FuncClass) : Str :=
  "#ifndef __HECATON_DATA_FLAG\n".toList ++ "#define __HECATON_DATA_FLAG\n".toList ++
    define arraySize functions.length ++
    define coldArraySize (functions.filter FuncClass.hasCold).length

theorem dataHeader_eq (suppLines : List Str) (functions : List FuncClass) :
    dataHeader suppLines functions =
      headerFront functions ++
        ((tableTexts suppLines functions).flatten ++ "#endif\n".toList) := by
  have inOrder : dataHeader suppLines functions =
      headerFront functions ++ fncBeginAddrs functions ++ fncEndAddrs functions ++
        coldBegins functions ++ coldEndAddrs functions ++ r15Array functions ++
        r14Array functions ++ r13Array functions ++ r12Array functions ++ rbxArray functions ++
        supportedArray suppLines functions ++ "#endif\n".toList := rfl
  rw [inOrder, coldBegins_eq, coldEndAddrs_eq]
  simp only [tableTexts, List.flatten_cons, List.flatten_nil, List.append_nil, List.append_assoc]

theorem define_eq (name : Str) (n : Nat) :
    define name n = "#define ".toList ++ name ++ '\t' :: str n ++ ['\n'] :=
  rfl

theorem noMark_define {name : Str} (noMark : ∀ c ∈ name, c ∉ [';', '{', '}', '[', ']']) (n : Nat) :
    ∀ c ∈ define name n, c ∉ [';', '{', '}', '[', ']'] := by
  intro c cMem
  rcases List.mem_append.mp cMem with inLine | isNewline
  · rcases List.mem_append.mp inLine with inNames | inValue
    · rcases List.mem_append.mp inNames with inDirective | inName
      · have noMarks : ∀ d ∈ "#define ".toList, d ∉ [';', '{', '}', '[', ']'] := by decide +kernel
        exact noMarks c inDirective
      · exact noMark c inName
    · rcases List.mem_cons.mp inValue with isTab | inNumber
      · rw [isTab]
        decide
      · exact noMark_of_isPlain ((isElement_str n).2 c inNumber)
  · rw [List.mem_singleton.mp isNewline]
    decide

theorem noMark_headerFront (functions : List FuncClass) :
    ∀ c ∈ headerFront functions, c ∉ [';', '{', '}', '[', ']'] := by
  intro c cMem
  rcases List.mem_append.mp cMem with inFront | inDefine
  · rcases List.mem_append.mp inFront with inGuards | inDefine
    · rcases List.mem_append.mp inGuards with inGuard | inGuard
      · have noMarks : ∀ d ∈ "#ifndef __HECATON_DATA_FLAG\n".toList,
            d ∉ [';', '{', '}', '[', ']'] := by decide +kernel
        exact noMarks c inGuard
      · have noMarks : ∀ d ∈ "#define __HECATON_DATA_FLAG\n".toList,
            d ∉ [';', '{', '}', '[', ']'] := by decide +kernel
        exact noMarks c inGuard
    · exact noMark_define (by decide +kernel) _ c inDefine
  · exact noMark_define (by decide +kernel) _ c inDefine

/-! ## Reading the sizes -/

theorem isWord_of_isElement {text : Str} (isElement : IsElement text) : IsWord text := by
  constructor
  · exact isElement.1
  · intro c cMem
    have plain := isElement.2 c cMem
    rw [isPlain, Bool.and_eq_true, Bool.and_eq_true, Bool.not_eq_true'] at plain
    exact plain.1.1

theorem newline_not_mem_of_isWord {word : Str} (isWord : IsWord word) : '\n' ∉ word := by
  intro newline
  have noSpace := isWord.2 '\n' newline
  revert noSpace
  decide

theorem split_define {name : Str} (isName : IsWord name) (n : Nat) :
    split (define name n) = ["#define".toList, name, str n] := by
  have isNumber := isWord_of_isElement (isElement_str n)
  have shape : define name n = "#define".toList ++ ' ' :: (name ++ '\t' :: (str n ++ '\n' :: [])) := by
    rw [define_eq]
    simp
  rw [shape, split_word_append (by decide) _ (by decide), split_word_append isName _ (by decide),
    split_word_append isNumber _ (by decide), split, words_nil]

theorem readlines_line {line : Str} (oneLine : '\n' ∉ line) (rest : Str) :
    readlines (line ++ ['\n'] ++ rest) = (line ++ ['\n']) :: readlines rest := by
  rw [List.append_assoc, List.singleton_append, readlines, linesOf_append_mark oneLine, readlines]

/-- A definition is one line. -/
theorem readlines_define {name : Str} (isName : IsWord name) (n : Nat) (rest : Str) :
    readlines (define name n ++ rest) = define name n :: readlines rest := by
  have oneLine : '\n' ∉ "#define ".toList ++ name ++ '\t' :: str n := by
    intro newline
    rcases List.mem_append.mp newline with inNames | inValue
    · rcases List.mem_append.mp inNames with inDirective | inName
      · revert inDirective
        decide +kernel
      · exact newline_not_mem_of_isWord isName inName
    · rcases List.mem_cons.mp inValue with isTab | inNumber
      · revert isTab
        decide
      · exact newline_not_mem_of_isWord (isWord_of_isElement (isElement_str n)) inNumber
  rw [define_eq]
  exact readlines_line oneLine rest

theorem ifndefLine_eq :
    "#ifndef __HECATON_DATA_FLAG\n".toList = "#ifndef __HECATON_DATA_FLAG".toList ++ ['\n'] := by
  decide +kernel

theorem defineLine_eq :
    "#define __HECATON_DATA_FLAG\n".toList = "#define __HECATON_DATA_FLAG".toList ++ ['\n'] := by
  decide +kernel

theorem readlines_headerFront (functions : List FuncClass) (rest : Str) :
    readlines (headerFront functions ++ rest) =
      "#ifndef __HECATON_DATA_FLAG\n".toList :: "#define __HECATON_DATA_FLAG\n".toList ::
        define arraySize functions.length ::
        define coldArraySize (functions.filter FuncClass.hasCold).length :: readlines rest := by
  have noBreak : '\n' ∉ "#ifndef __HECATON_DATA_FLAG".toList := by decide +kernel
  have noBreak' : '\n' ∉ "#define __HECATON_DATA_FLAG".toList := by decide +kernel
  have inLines : headerFront functions ++ rest =
      "#ifndef __HECATON_DATA_FLAG".toList ++ ['\n'] ++
        ("#define __HECATON_DATA_FLAG".toList ++ ['\n'] ++
          (define arraySize functions.length ++
            (define coldArraySize (functions.filter FuncClass.hasCold).length ++ rest))) := by
    unfold headerFront
    rewrite [ifndefLine_eq, defineLine_eq]
    -- The texts of the two lines are not compared.
    generalize "#ifndef __HECATON_DATA_FLAG".toList = ifndefLine
    generalize "#define __HECATON_DATA_FLAG".toList = defineLine
    simp only [List.append_assoc]
  rw [inLines, readlines_line noBreak, readlines_line noBreak',
    readlines_define (by decide +kernel), readlines_define (by decide +kernel), ifndefLine_eq,
    defineLine_eq]

theorem readDefine_headerFront (functions : List FuncClass) (rest : Str) :
    readDefine arraySize (headerFront functions ++ rest) = some (str functions.length) ∧
      readDefine coldArraySize (headerFront functions ++ rest) =
        some (str (functions.filter FuncClass.hasCold).length) := by
  have ifndefWords : split "#ifndef __HECATON_DATA_FLAG\n".toList =
      ["#ifndef".toList, "__HECATON_DATA_FLAG".toList] := by decide +kernel
  have defineWords : split "#define __HECATON_DATA_FLAG\n".toList =
      ["#define".toList, "__HECATON_DATA_FLAG".toList] := by decide +kernel
  have differ : arraySize ≠ coldArraySize := by decide +kernel
  have sizeWords := split_define (by decide +kernel : IsWord arraySize)
  have coldWords := split_define (by decide +kernel : IsWord coldArraySize)
  rw [readDefine, readDefine, readlines_headerFront]
  constructor
  · rw [List.findSome?_cons, ifndefWords, List.findSome?_cons, defineWords, List.findSome?_cons,
      sizeWords]
    simp only [and_self, if_true]
  · rw [List.findSome?_cons, ifndefWords, List.findSome?_cons, defineWords, List.findSome?_cons,
      sizeWords, List.findSome?_cons, coldWords]
    simp only [differ, and_false, and_self, if_true, if_false]

/-! ## The header -/

/-- Read back, the header holds the table.  Every array has the size it is declared with,
and the `k`-th element of `hecaton_cold_begin_index` is the position of the `k`-th function
with a cold part. -/
theorem dataHeader_readsBack (suppLines : List Str) (functions : List FuncClass)
    (plain : ∀ function ∈ functions, HasPlainAddrs function) :
    readDeclarations (dataHeader suppLines functions) = tableDeclarations suppLines functions ∧
      readDefine arraySize (dataHeader suppLines functions) = some (str functions.length) ∧
      readDefine coldArraySize (dataHeader suppLines functions) =
        some (str (functions.filter FuncClass.hasCold).length) ∧
      (∀ declaration ∈ tableDeclarations suppLines functions,
        (declaration.size = arraySize ∧ declaration.elements.length = functions.length) ∨
          (declaration.size = coldArraySize ∧
            declaration.elements.length = (functions.filter FuncClass.hasCold).length)) ∧
      (coldEntries functions).map Prod.fst = functions.filter FuncClass.hasCold ∧
      ∀ k entry, (coldEntries functions)[k]? = some entry →
        functions[entry.2]? = some entry.1 ∧ entry.1.hasCold = true ∧
          ((functions.take entry.2).filter FuncClass.hasCold).length = k := by
  have sizes := readDefine_headerFront functions
    ((tableTexts suppLines functions).flatten ++ "#endif\n".toList)
  have coldLength : (coldEntries functions).length =
      (functions.filter FuncClass.hasCold).length := by
    rw [← coldEntries_fst, List.length_map]
  rw [← dataHeader_eq] at sizes
  constructor
  · rw [dataHeader_eq]
    exact readDeclarations_texts (isArrayText_table plain) (noMark_headerFront functions)
      (by decide) (by decide)
  constructor
  · exact sizes.1
  constructor
  · exact sizes.2
  constructor
  · simp [tableDeclarations, coldLength]
  constructor
  · exact coldEntries_fst functions
  · intro k entry isEntry
    obtain ⟨position, isPosition, isFunction, count⟩ := position_of_coldEntries isEntry
    rw [Nat.zero_add] at isPosition
    have inEntries := (List.mem_filter.mp (List.mem_of_getElem? isEntry)).2
    rw [isPosition]
    exact ⟨isFunction, inEntries, count⟩

/-- Two functions, the second with a cold part. -/
def twoFunctions : List FuncClass :=
  [{ name := ['f'], baseAddr := ['1', '0'], baseLine := 0, endAddr := ['1', 'f'] },
    { name := ['g'], baseAddr := ['2', '0'], baseLine := 4, endAddr := ['2', 'f'], hasCold := true,
      baseAddrCold := ['8', '0'], endAddrCold := ['8', '4'], rbx := -8 }]

theorem hasPlainAddrs_twoFunctions : ∀ function ∈ twoFunctions, HasPlainAddrs function := by
  intro function functionMem
  have oneOf : function = twoFunctions[0] ∨ function = twoFunctions[1] := by
    simpa [twoFunctions] using functionMem
  rcases oneOf with rfl | rfl
  · constructor <;> decide
  · constructor <;> decide

theorem dataHeader_readsTwo :
    readDeclarations (dataHeader [] twoFunctions) = tableDeclarations [] twoFunctions ∧
      readDefine arraySize (dataHeader [] twoFunctions) = some ['2'] ∧
      readDefine coldArraySize (dataHeader [] twoFunctions) = some ['1'] ∧
      twoFunctions[1]? = some twoFunctions[1] := by
  obtain ⟨declarations, size, coldSize, _, _, entries⟩ :=
    dataHeader_readsBack [] twoFunctions hasPlainAddrs_twoFunctions
  constructor
  · exact declarations
  constructor
  · rw [size]
    decide
  constructor
  · rw [coldSize]
    decide
  · exact (entries 0 (twoFunctions[1], 1) (by decide)).1

end Hecaton.Scripts
