import Hecaton.Scripts.HeaderReading

/-!
# The white list of the plugins

`generate_fnc_headers.py` makes the white list of the plugins from the same file of names
that `parse_vmlinux.py` reads.  The one strips white space from the end of a line, the
other compares the line as it stands.
-/

namespace Hecaton.Scripts

open Hecaton.Library

/-! ## The text of the list -/

/-- The double quote. -/
def quote : Char := '\x22'

/-- `"#define DATA_SIZE " + str(len(lines)) + '\n'`. -/
def sizeStr (lines : List Str) : Str :=
  "#define DATA_SIZE ".toList ++ str lines.length ++ ['\n']

/-- The line of one entry. -/
def entryLine (line : Str) : Str := quote :: rstrip line ++ [quote, ',', '\n']

/-- The loop that writes the entries. -/
def writeEntries (fnStr : Str) : List Str → Str
  | [] => fnStr
  | line :: rest => writeEntries (fnStr ++ entryLine line) rest

def whiteListHead : Str := "std::string white_list[DATA_SIZE] = \x7b\n".toList

/-- The array of the names. -/
def fnStr (lines : List Str) : Str :=
  rstripChar ',' (rstripChar '\n' (writeEntries whiteListHead lines)) ++ "\x7d;\n".toList

/-- What the script writes to `fncs_header.h`. -/
def fncsHeader (content : Str) : Str :=
  sizeStr (readlines content) ++ fnStr (readlines content)

/-! ## Reading the list -/

/-- The entry of a line: what stands between the first quote and the last.  A quote or a backslash
in between is taken as it is, where C++ would end the string or read an escape. -/
def readEntry (line : Str) : Option Str :=
  if quote ∈ line then some ((behind quote line).rdropWhile (· != quote)).dropLast else none

/-- The entries of the list. -/
def whiteList (header : Str) : List Str := (readlines header).filterMap readEntry

/-- The test of a plugin: the loop over `white_list`. -/
def isWhiteListed (header funcName : Str) : Bool :=
  (whiteList header).any fun entry => funcName == entry

/-! ## The text of the list in its parts -/

theorem sizeStr_eq (lines : List Str) :
    sizeStr lines = "#define DATA_SIZE ".toList ++ str lines.length ++ ['\n'] :=
  rfl

theorem writeEntries_eq (fnStr : Str) (lines : List Str) :
    writeEntries fnStr lines = fnStr ++ lines.flatMap entryLine := by
  induction lines generalizing fnStr with
  | nil => simp [writeEntries]
  | cons line rest ih => rw [writeEntries, ih, List.flatMap_cons, List.append_assoc]

theorem fnStr_nil : fnStr [] = "std::string white_list[DATA_SIZE] = \x7b\x7d;\n".toList := by
  decide +kernel

/-- The closing quote of the last entry ends the stripping. -/
theorem fnStr_concat (front : List Str) (last : Str) :
    fnStr (front ++ [last]) =
      whiteListHead ++
        (front.flatMap entryLine ++ (quote :: rstrip last ++ quote :: "\x7d;\n".toList)) := by
  have shape : writeEntries whiteListHead (front ++ [last]) =
      (whiteListHead ++ front.flatMap entryLine ++ quote :: rstrip last ++ [quote]) ++ [','] ++
        ['\n'] := by
    rw [writeEntries_eq, List.flatMap_append, List.flatMap_singleton, entryLine]
    simp only [List.append_assoc, List.cons_append, List.nil_append]
  rw [fnStr, shape, rstripChar, rstripChar, List.rdropWhile_concat_pos _ _ _ (by decide),
    List.rdropWhile_concat_neg _ _ _ (by decide), List.rdropWhile_concat_pos _ _ _ (by decide),
    List.rdropWhile_concat_neg _ _ _ (by decide)]
  simp only [List.append_assoc, List.cons_append, List.nil_append]

theorem exists_rstrip_append (s : Str) :
    ∃ tail, (∀ c ∈ tail, isSpace c = true) ∧ s = rstrip s ++ tail := by
  induction s using List.reverseRecOn with
  | nil => exists []
  | append_singleton s c ih =>
      by_cases space : isSpace c = true
      · obtain ⟨tail, allSpace, shape⟩ := ih
        have stripped : rstrip (s ++ [c]) = rstrip s := List.rdropWhile_concat_pos _ _ _ space
        exists tail ++ [c]
        constructor
        · intro d dMem
          rcases List.mem_append.mp dMem with inTail | isLast
          · exact allSpace d inTail
          · rwa [List.mem_singleton.mp isLast]
        · rw [stripped, ← List.append_assoc, ← shape]
      · exists []
        constructor
        · intro d dMem
          exact absurd dMem List.not_mem_nil
        · rw [List.append_nil]
          exact (List.rdropWhile_concat_neg _ _ _ space).symm

theorem newline_not_mem_rstrip {content line : Str} (isLine : line ∈ readlines content) :
    '\n' ∉ rstrip line := by
  intro newline
  obtain ⟨text, noNewline, shape⟩ := line_of_mem_linesOf isLine
  have sameText : rstrip line = rstrip text := by
    rcases shape with rfl | rfl
    · exact List.rdropWhile_concat_pos _ _ _ (by decide)
    · rfl
  rw [sameText] at newline
  exact noNewline ((List.rdropWhile_prefix isSpace text).subset newline)

/-! ## Reading the entries back -/

theorem readEntry_quoted (text : Str) {tail : Str} (noQuote : quote ∉ tail) :
    readEntry (quote :: text ++ quote :: tail) = some text := by
  have passes : ∀ c ∈ tail, (c != quote) = true := by
    intro c cMem
    simp only [bne_iff_ne]
    rintro rfl
    exact noQuote cMem
  have behindQuote : behind quote (quote :: text ++ quote :: tail) = text ++ [quote] ++ tail := by
    rw [List.append_assoc]
    exact behind_append List.not_mem_nil _
  rw [readEntry, if_pos (by simp), behindQuote, rdropWhile_append_of_all _ passes,
    List.rdropWhile_concat_neg _ _ _ (by simp), List.dropLast_concat]

theorem readEntry_of_no_quote {line : Str} (noQuote : quote ∉ line) : readEntry line = none :=
  if_neg noQuote

theorem readlines_append_line {line : Str} (noNewline : '\n' ∉ line) (rest : Str) :
    readlines (line ++ '\n' :: rest) = (line ++ ['\n']) :: readlines rest :=
  linesOf_append_mark noNewline rest

/-- Every entry has a line of its own. -/
theorem readlines_entryLines {lines : List Str} (noNewline : ∀ line ∈ lines, '\n' ∉ rstrip line)
    (rest : Str) :
    readlines (lines.flatMap entryLine ++ rest) = lines.map entryLine ++ readlines rest := by
  induction lines with
  | nil => rfl
  | cons line lines ih =>
      have notInEntry : '\n' ∉ quote :: rstrip line ++ [quote, ','] := by
        have notInText := noNewline line List.mem_cons_self
        have notQuote : ('\n' : Char) ≠ quote := by decide
        simp [notInText, notQuote]
      have shape : (line :: lines).flatMap entryLine ++ rest =
          (quote :: rstrip line ++ [quote, ',']) ++ '\n' :: (lines.flatMap entryLine ++ rest) := by
        simp [entryLine]
      rw [shape, readlines_append_line notInEntry,
        ih fun other otherMem => noNewline other (List.mem_cons_of_mem line otherMem)]
      simp [entryLine]

theorem readEntry_entryLine (line : Str) : readEntry (entryLine line) = some (rstrip line) :=
  readEntry_quoted (rstrip line) (by decide)

theorem whiteList_fnStr {lines : List Str} (noNewline : ∀ line ∈ lines, '\n' ∉ rstrip line) :
    whiteList (fnStr lines) = lines.map rstrip := by
  rcases List.eq_nil_or_concat lines with rfl | ⟨front, last, rfl⟩
  · rw [fnStr_nil]
    decide +kernel
  · rw [List.concat_eq_append] at noNewline ⊢
    have headLine : whiteListHead = "std::string white_list[DATA_SIZE] = \x7b".toList ++ ['\n'] := rfl
    have headNewline : '\n' ∉ "std::string white_list[DATA_SIZE] = \x7b".toList := by decide +kernel
    have headQuote : quote ∉ "std::string white_list[DATA_SIZE] = \x7b".toList ++ ['\n'] := by
      decide +kernel
    have inFront : ∀ line ∈ front, '\n' ∉ rstrip line := fun line lineMem =>
      noNewline line (List.mem_append_left _ lineMem)
    have lastLine : readlines (quote :: rstrip last ++ quote :: "\x7d;\n".toList) =
        [quote :: rstrip last ++ quote :: "\x7d;\n".toList] := by
      have notInEntry : '\n' ∉ quote :: rstrip last ++ [quote, '}', ';'] := by
        have notInText := noNewline last (by simp)
        have notQuote : ('\n' : Char) ≠ quote := by decide
        simp [notInText, notQuote]
      have oneLine := readlines_append_line notInEntry []
      have noMore : readlines [] = [] := rfl
      simpa [noMore] using oneLine
    have entries : (front.map entryLine).filterMap readEntry = front.map rstrip := by
      rw [List.filterMap_map]
      simp [readEntry_entryLine]
    rw [whiteList, fnStr_concat, headLine, List.append_assoc, List.singleton_append,
      readlines_append_line headNewline, readlines_entryLines inFront, lastLine,
      List.filterMap_cons_none (readEntry_of_no_quote headQuote), List.filterMap_append, entries,
      List.filterMap_cons_some (readEntry_quoted (rstrip last) (by decide)), List.filterMap_nil,
      List.map_append]
    rfl

/-- The entries of the white list are the lines of the file, stripped at their ends. -/
theorem whiteList_fncsHeader (content : Str) :
    whiteList (fncsHeader content) = (readlines content).map rstrip := by
  have isNumber := isElement_str (readlines content).length
  have oneLine : '\n' ∉ "#define DATA_SIZE ".toList ++ str (readlines content).length := by
    intro newline
    rcases List.mem_append.mp newline with inDirective | inNumber
    · revert inDirective
      decide +kernel
    · exact newline_not_mem_of_isWord (isWord_of_isElement isNumber) inNumber
  have noQuote : quote ∉ "#define DATA_SIZE ".toList ++ str (readlines content).length ++ ['\n'] := by
    intro inLine
    rcases List.mem_append.mp inLine with inText | inNewline
    · rcases List.mem_append.mp inText with inDirective | inNumber
      · revert inDirective
        decide +kernel
      · have digit := isDigit_of_mem_str inNumber
        revert digit
        decide
    · revert inNewline
      decide
  have sizeLine : fncsHeader content =
      ("#define DATA_SIZE ".toList ++ str (readlines content).length) ++
        '\n' :: fnStr (readlines content) := by
    rw [fncsHeader, sizeStr_eq, List.append_assoc, List.singleton_append]
  have noNewline : ∀ line ∈ readlines content, '\n' ∉ rstrip line := fun _ isLine =>
    newline_not_mem_rstrip isLine
  rw [whiteList, sizeLine, readlines_append_line oneLine,
    List.filterMap_cons_none (readEntry_of_no_quote noQuote)]
  exact whiteList_fnStr noNewline

/-- A name is on the white list if a line is the name, up to white space at the end. -/
theorem isWhiteListed_fncsHeader {content name : Str} (isName : IsWord name) :
    isWhiteListed (fncsHeader content) name = true ↔
      ∃ tail, (∀ c ∈ tail, isSpace c = true) ∧ name ++ tail ∈ readlines content := by
  rw [isWhiteListed, whiteList_fncsHeader]
  constructor
  · intro listed
    obtain ⟨entry, entryMem, isEntry⟩ := List.any_eq_true.mp listed
    obtain ⟨line, isLine, rfl⟩ := List.mem_map.mp entryMem
    obtain ⟨tail, allSpace, shape⟩ := exists_rstrip_append line
    exists tail
    constructor
    · exact allSpace
    · rwa [eq_of_beq isEntry, ← shape]
  · rintro ⟨tail, allSpace, isLine⟩
    have stripped : rstrip (name ++ tail) = name := by
      rw [rstrip, rdropWhile_append_of_all name allSpace]
      exact rdropWhile_of_none isName.2
    apply List.any_eq_true.mpr
    exists name
    constructor
    · apply List.mem_map.mpr
      exists name ++ tail
    · exact beq_self_eq_true name

theorem supportedFlag_eq_one {suppLines : List Str} {function : FuncClass} :
    supportedFlag suppLines function = 1 ↔ function.name ++ ['\n'] ∈ suppLines := by
  rw [supportedFlag]
  split
  · rename_i isLine
    exact iff_of_true rfl isLine
  · rename_i noLine
    exact iff_of_false (by decide) noLine

/-! ## Agreement -/

/-- The plugins and the table agree on a name just when the name has a line that ends with
a newline and nothing else, if it has a line at all. -/
theorem isWhiteListed_iff_supported_iff (content : Str) (function : FuncClass)
    (isName : IsWord function.name) :
    (isWhiteListed (fncsHeader content) function.name = true ↔
        supportedFlag (readlines content) function = 1) ↔
      ((∃ tail, (∀ c ∈ tail, isSpace c = true) ∧ function.name ++ tail ∈ readlines content) →
        function.name ++ ['\n'] ∈ readlines content) := by
  rw [isWhiteListed_fncsHeader isName, supportedFlag_eq_one]
  constructor
  · intro agree
    exact agree.mp
  · intro exact
    constructor
    · exact exact
    · intro isLine
      exists ['\n']

/-- A file of one name without a newline. -/
def unendedName : Str := "foo".toList

def fooFunction : FuncClass := { name := "foo".toList, baseAddr := ['1'], baseLine := 0 }

theorem isWhiteListed_iff_supported_barName :
    (isWhiteListed (fncsHeader "foo \nbar\n".toList) "bar".toList = true ↔
      supportedFlag (readlines "foo \nbar\n".toList)
        { name := "bar".toList, baseAddr := ['1'], baseLine := 0 } = 1) := by
  apply (isWhiteListed_iff_supported_iff "foo \nbar\n".toList
    { name := "bar".toList, baseAddr := ['1'], baseLine := 0 } (by decide)).mpr
  intro _
  decide +kernel

theorem isWhiteListed_unsupported_unended :
    ¬ ∀ (content : Str) (function : FuncClass), IsWord function.name →
      (isWhiteListed (fncsHeader content) function.name = true ↔
        supportedFlag (readlines content) function = 1) := by
  intro agree
  have listed : isWhiteListed (fncsHeader unendedName) fooFunction.name = true := by
    decide +kernel
  have supported := (agree unendedName fooFunction (by decide)).mp listed
  revert supported
  decide +kernel

end Hecaton.Scripts
