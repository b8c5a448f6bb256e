import Mathlib.Data.List.Nodup
import Hecaton.Library.Comments
import Hecaton.Pass1.BlockText

/-!
# Declarations that are commented out

A declaration that is moved stays in the text between `/*` and `*///`, one that is separated
between `/*` and `*/`.  What a compiler then reads depends on the comments and literals of the
declaration and of the line behind it.
-/

namespace Hecaton.Pass1.CommentedDecls

open Hecaton.Library
open Hecaton.Pass1.BlockText

/-! ## Characters with their origin -/

/-- Where a character of a rewritten text comes from. -/
inductive Origin
  | inserted
  | before
  | declaration
  | behind
  deriving DecidableEq

/-- A character with its origin and its place there. -/
structure Placed where
  char : Char
  origin : Origin
  place : Nat
  deriving DecidableEq

/-- The characters of a text with their places. -/
def placed (origin : Origin) (text : List Char) : List Placed :=
  text.zipIdx.map fun (ch, place) => ⟨ch, origin, place⟩

/-- What a text shows outside comments, white space left out. -/
def tokenChars (reading : Reading Placed) (text : List Placed) : List Placed :=
  (reading.uncommented Placed.char text).filter fun c => !isBlank c.char

/-- A character of the source outside the declaration. -/
def isOutside (c : Placed) : Bool := c.origin == .before || c.origin == .behind

/-- Outside comments no character of the declaration is left, and the others of the source are
all there in their order. -/
structure OnlyDeclarationGone (original result : List Placed) : Prop where
  gone : ∀ c ∈ tokenChars .code result, c.origin ≠ .declaration
  kept : (tokenChars .code result).filter isOutside = (tokenChars .code original).filter isOutside

/-! ## The two schemes -/

/-- A source around a declaration statement, which begins with a word, in code, and ends with its
semicolon. -/
structure Source where
  before : List Char
  body : List Char
  behind : List Char
  beforeCode : Reading.code.after id before = .code
  bodyCode : Reading.code.after id body = .code
  isWord : ∀ c ∈ body.head?, isIdentChar c = true
  nonempty : body ≠ []

/-- The declaration statement. -/
def Source.declaration (source : Source) : List Char := source.body ++ [';']

def Source.original (source : Source) : List Placed :=
  placed .before source.before ++ placed .declaration source.declaration ++
    placed .behind source.behind

/-- One name of the declaration that is moved: its name from now on, the old one when it has to
change, and the text of its initial value. -/
structure MovedName where
  name : List Char
  oldName : Option (List Char)
  init : Option (List Char)
  isName : IsName name
  isOldName : ∀ old ∈ oldName, IsName old
  initCode : ∀ text ∈ init, Reading.code.after id text = .code

/-- `assignment_string`. -/
def assignmentString (names : List MovedName) : List Char :=
  names.flatMap fun moved =>
    match moved.init with
    | some text => moved.name ++ " = ".toList ++ text ++ ";/*Inserted by Hecaton*/\n".toList
    | none => []

/-- `replace_str`, which is set anew for every name. -/
def replaceStr (names : List MovedName) : List Char :=
  match names.getLast? with
  | some moved =>
      match moved.oldName with
      | some old => "//Hecaton_replace ".toList ++ old ++ [':'] ++ moved.name ++ ['\n']
      | none => []
  | none => []

/-- The white space at the start of a line. -/
def indentOf (line : List Char) : List Char :=
  line.takeWhile fun c => [' ', '\t', '\x0b', '\x0c'].contains c

/-- `Rewriter::InsertText` with `indentNewLines`: each new line begins as the line of the source
does. -/
def indented (line text : List Char) : List Char :=
  text.flatMap fun c => if c = '\n' then c :: indentOf line else [c]

/-- What `var_declVisit` inserts at the start of the declaration. -/
def insertedBefore (line : List Char) (names : List MovedName) : List Char :=
  indented line (assignmentString names ++ replaceStr names ++
    "/*Commented by Hecaton*/ /*".toList)

/-- The text after `var_declVisit` has moved the declaration: the second insertion stands before
its semicolon. -/
def Source.hoisted (source : Source) (line : List Char) (names : List MovedName) : List Placed :=
  placed .before source.before ++
    (placed .inserted (insertedBefore line names) ++
      (placed .declaration source.declaration).take source.body.length ++
      placed .inserted " *///".toList ++
      (placed .declaration source.declaration).drop source.body.length) ++
    placed .behind source.behind

/-- The text after `seperate_decl_init` has commented out the declaration. -/
def Source.separated (source : Source) : List Placed :=
  placed .before source.before ++
    (if "/*".toList <:+: source.declaration then placed .declaration source.declaration
      else placed .inserted "/*".toList ++ placed .declaration source.declaration ++
        placed .inserted "*/".toList) ++
    placed .behind source.behind

/-! ## When they do their work -/

/-- The rest of the line behind the declaration shows nothing, and what stands behind it reads
the same without it. -/
def Source.QuietLine (source : Source) : Prop :=
  let (line, next) := Reading.splitLine Placed.char false (placed .behind source.behind)
  tokenChars .code line = [] ∧
    tokenChars (Reading.code.after Placed.char line) next = tokenChars .code next

/-- Read inside a comment the declaration shows nothing, and its line is quiet. -/
structure Source.HoistedSafe (source : Source) : Prop where
  hidden : tokenChars .block (placed .declaration source.body) = []
  quiet : source.QuietLine

/-- The declaration opens no comment and shows nothing inside one.  Where a line comment in it
stays open then, its line is quiet. -/
structure Source.SeparatedSafe (source : Source) : Prop where
  noOpening : ¬ "/*".toList <:+: source.declaration
  hidden : tokenChars .block (placed .declaration source.declaration) = []
  quiet : Reading.block.after id source.declaration = .line → source.QuietLine

/-! ## Placed characters -/

theorem map_char_placed (origin : Origin) (text : List Char) :
    (placed origin text).map Placed.char = text := by
  rw [placed, List.map_map]
  exact List.zipIdx_map_fst 0 text

theorem length_placed (origin : Origin) (text : List Char) :
    (placed origin text).length = text.length := by
  rw [placed, List.length_map, List.length_zipIdx]

theorem origin_of_mem_placed {origin : Origin} {text : List Char} {c : Placed}
    (cMem : c ∈ placed origin text) : c.origin = origin := by
  obtain ⟨_, _, rfl⟩ := List.mem_map.mp cMem
  rfl

theorem nodup_placed (origin : Origin) (text : List Char) : (placed origin text).Nodup := by
  apply List.Nodup.of_map Placed.place
  rw [placed, List.map_map]
  have places : text.zipIdx.map (Placed.place ∘ fun (ch, place) => ⟨ch, origin, place⟩) =
      List.range' 0 text.length := List.zipIdx_map_snd 0 text
  rw [places]
  exact List.nodup_range'

/-- Characters with their origin read as the text does. -/
theorem after_placed (origin : Origin) (text : List Char) (reading : Reading Placed) :
    (reading.after Placed.char (placed origin text)).map Placed.char =
      (reading.map Placed.char).after id text := by
  have mapped : (reading.after (id ∘ Placed.char) (placed origin text)).map Placed.char =
      (reading.map Placed.char).after id ((placed origin text).map Placed.char) :=
    Reading.map_after reading (placed origin text)
  rwa [map_char_placed, Function.id_comp] at mapped

theorem after_placed_code {origin : Origin} {text : List Char}
    (isCode : Reading.code.after id text = .code) :
    Reading.code.after Placed.char (placed origin text) = .code := by
  have mapped := after_placed origin text .code
  rw [Reading.map_code, isCode] at mapped
  exact Reading.map_eq_code_iff.mp mapped

/-! ## What is shown of a text -/

/-- What a part of a text shows, but for a slash that still waits. -/
def partChars (reading : Reading Placed) (text : List Placed) : List Placed :=
  (reading.shown Placed.char text).filter fun c => !isBlank c.char

theorem tokenChars_append (reading : Reading Placed) (text rest : List Placed) :
    tokenChars reading (text ++ rest) =
      partChars reading text ++ tokenChars (reading.after Placed.char text) rest := by
  rw [tokenChars, Reading.uncommented_append, List.filter_append, tokenChars, partChars]

theorem partChars_append (reading : Reading Placed) (text rest : List Placed) :
    partChars reading (text ++ rest) =
      partChars reading text ++ partChars (reading.after Placed.char text) rest := by
  rw [partChars, Reading.shown_append, List.filter_append, partChars, partChars]

theorem tokenChars_eq (reading : Reading Placed) (text : List Placed) :
    tokenChars reading text = partChars reading text ++
      (reading.after Placed.char text).waiting.filter fun c => !isBlank c.char := by
  rw [tokenChars, Reading.uncommented, List.filter_append, partChars]

theorem mem_of_mem_tokenChars {reading : Reading Placed} (noneWaits : reading.waiting = [])
    {text : List Placed} {c : Placed} (isShown : c ∈ tokenChars reading text) : c ∈ text := by
  rcases Reading.mem_uncommented (List.mem_of_mem_filter isShown) with inText | isWaiting
  · exact inText
  · rw [noneWaits] at isWaiting
    exact absurd isWaiting List.not_mem_nil

theorem mem_of_mem_partChars {reading : Reading Placed} (noneWaits : reading.waiting = [])
    {text : List Placed} {c : Placed} (isShown : c ∈ partChars reading text) : c ∈ text := by
  apply mem_of_mem_tokenChars noneWaits
  rw [tokenChars_eq]
  exact List.mem_append_left _ isShown

theorem filter_isOutside_eq_nil {chars : List Placed}
    (origins : ∀ c ∈ chars, c.origin = .inserted ∨ c.origin = .declaration) :
    chars.filter isOutside = [] := by
  rw [List.filter_eq_nil_iff]
  intro c cMem
  rcases origins c cMem with isOrigin | isOrigin <;> simp [isOutside, isOrigin]

/-- Of a text with a part in the middle the source around it shows what it did. -/
theorem outside_tokenChars {before : List Char} (behind : List Char) (middle : List Placed)
    (beforeCode : Reading.code.after id before = .code)
    (origins : ∀ c ∈ middle, c.origin = .inserted ∨ c.origin = .declaration)
    (noneWaits : (Reading.code.after Placed.char middle).waiting = []) :
    (tokenChars .code (placed .before before ++ middle ++ placed .behind behind)).filter isOutside =
      partChars .code (placed .before before) ++
        tokenChars (Reading.code.after Placed.char middle) (placed .behind behind) := by
  have beforeOutside : (partChars .code (placed .before before)).filter isOutside =
      partChars .code (placed .before before) := by
    rw [List.filter_eq_self]
    intro c cMem
    have inBefore := mem_of_mem_partChars rfl cMem
    simp [isOutside, origin_of_mem_placed inBefore]
  have behindOutside : (tokenChars (Reading.code.after Placed.char middle)
      (placed .behind behind)).filter isOutside =
      tokenChars (Reading.code.after Placed.char middle) (placed .behind behind) := by
    rw [List.filter_eq_self]
    intro c cMem
    have inBehind := mem_of_mem_tokenChars noneWaits cMem
    simp [isOutside, origin_of_mem_placed inBehind]
  have middleInside : (partChars .code middle).filter isOutside = [] :=
    filter_isOutside_eq_nil fun c cMem => origins c (mem_of_mem_partChars rfl cMem)
  rw [List.append_assoc, tokenChars_append, after_placed_code beforeCode, tokenChars_append,
    List.filter_append, List.filter_append, beforeOutside, middleInside, behindOutside,
    List.nil_append]

theorem tokenChars_middle (source : Source) (middle : List Placed) :
    tokenChars .code (placed .before source.before ++ middle ++ placed .behind source.behind) =
      partChars .code (placed .before source.before) ++ (partChars .code middle ++
        tokenChars (Reading.code.after Placed.char middle) (placed .behind source.behind)) := by
  rw [List.append_assoc, tokenChars_append, after_placed_code source.beforeCode, tokenChars_append]

theorem gone_of_middle (source : Source) (middle : List Placed)
    (only : OnlyDeclarationGone source.original
      (placed .before source.before ++ middle ++ placed .behind source.behind)) :
    ∀ c ∈ partChars .code middle, c.origin ≠ .declaration := by
  intro c cMem
  apply only.gone c
  rw [tokenChars_middle]
  exact List.mem_append_right _ (List.mem_append_left _ cMem)

/-- The declaration is gone and nothing else, when the middle shows nothing of it and the rest
reads as it did. -/
theorem onlyDeclarationGone_iff (source : Source) {middle : List Placed}
    (origins : ∀ c ∈ middle, c.origin = .inserted ∨ c.origin = .declaration)
    (noneWaits : (Reading.code.after Placed.char middle).waiting = []) :
    OnlyDeclarationGone source.original
        (placed .before source.before ++ middle ++ placed .behind source.behind) ↔
      (∀ c ∈ partChars .code middle, c.origin ≠ .declaration) ∧
        tokenChars (Reading.code.after Placed.char middle) (placed .behind source.behind) =
          tokenChars .code (placed .behind source.behind) := by
  have declarationCode : Reading.code.after Placed.char
      (placed .declaration source.declaration) = .code := by
    apply after_placed_code
    rw [Source.declaration, Reading.after_append, source.bodyCode]
    rfl
  have originalKept := outside_tokenChars source.behind (placed .declaration source.declaration)
    source.beforeCode (fun c cMem => Or.inr (origin_of_mem_placed cMem))
    (by rw [declarationCode]; rfl)
  rw [declarationCode] at originalKept
  have resultKept := outside_tokenChars source.behind middle source.beforeCode origins noneWaits
  constructor
  · intro only
    have kept := only.kept
    rw [resultKept, Source.original, originalKept] at kept
    exact ⟨gone_of_middle source middle only, List.append_cancel_left kept⟩
  · rintro ⟨hidden, same⟩
    constructor
    · intro c cMem
      rw [tokenChars_middle] at cMem
      rcases List.mem_append.mp cMem with inBefore | inRest
      · rw [origin_of_mem_placed (mem_of_mem_partChars rfl inBefore)]
        decide
      · rcases List.mem_append.mp inRest with inMiddle | inBehind
        · exact hidden c inMiddle
        · rw [origin_of_mem_placed (mem_of_mem_tokenChars noneWaits inBehind)]
          decide
    · rw [resultKept, Source.original, originalKept, same]

/-- Behind a line comment that stays open the source reads as it did exactly when its line is
quiet. -/
theorem tokenChars_line_iff (source : Source) :
    tokenChars .line (placed .behind source.behind) =
      tokenChars .code (placed .behind source.behind) ↔ source.QuietLine := by
  have whole := Reading.splitLine_append Placed.char false (placed .behind source.behind)
  have distinct := nodup_placed .behind source.behind
  rw [← whole] at distinct
  have slashShown : ∀ c : Placed, c.char = '/' → (!isBlank c.char) = true := by
    intro c isSlash
    rw [isSlash]
    decide
  have behindLine := Reading.uncommented_behind_iff slashShown distinct
    (Reading.head_splitLine false (placed .behind source.behind))
  have fromLine := Reading.uncommented_line Placed.char false
    (placed .behind source.behind)
  rw [whole] at behindLine
  rw [Source.QuietLine, tokenChars, tokenChars]
  simp only [tokenChars]
  rw [← behindLine, eq_comm]
  simp only [Bool.false_eq_true, if_false] at fromLine
  rw [fromLine]

/-! ## The inserted text -/

/-- The letters of a name leave code and line comments as they are. -/
theorem after_letters {name : List Char} (letters : ∀ c ∈ name, isIdentChar c = true) :
    Reading.code.after id name = .code ∧ Reading.line.after id name = .line := by
  induction name with
  | nil => exact ⟨rfl, rfl⟩
  | cons c name ih =>
      have isIdent := letters c List.mem_cons_self
      have other : ∀ d, isIdentChar d = false → c ≠ d := fun _ => ne_of_isIdentChar isIdent
      have inCode : (Reading.code : Reading Char).next id c = .code := by
        simp [Reading.next, Reading.behindCode, Quote.char, other '/' (by decide),
          other '"' (by decide), other '\'' (by decide)]
      have inLine : (Reading.line : Reading Char).next id c = .line := by
        simp [Reading.next, other '\n' (by decide), other '\\' (by decide)]
      rw [Reading.after_cons, Reading.after_cons, inCode, inLine]
      exact ih fun d dMem => letters d (List.mem_cons_of_mem _ dMem)

/-- White space at the start of a line does not change how it reads. -/
theorem after_indentOf (line : List Char) (reading : Reading Char) :
    (reading.next id '\n').after id (indentOf line) = reading.next id '\n' := by
  have stays : ∀ c ∈ [' ', '\t', '\x0b', '\x0c'],
      (reading.next id '\n').next id c = reading.next id '\n' := by
    intro c cMem
    simp only [List.mem_cons, List.not_mem_nil, or_false] at cMem
    cases reading with
    | literal quote => cases quote <;> rcases cMem with rfl | rfl | rfl | rfl <;> rfl
    | escape quote => cases quote <;> rcases cMem with rfl | rfl | rfl | rfl <;> rfl
    | _ => rcases cMem with rfl | rfl | rfl | rfl <;> rfl
  have blanks : ∀ c ∈ indentOf line, c ∈ [' ', '\t', '\x0b', '\x0c'] := by
    intro c cMem
    have isSpace := List.all_eq_true.mp List.all_takeWhile c cMem
    rwa [List.contains_eq_mem, decide_eq_true_eq] at isSpace
  generalize indentOf line = spaces at blanks
  induction spaces with
  | nil => rfl
  | cons c rest ih =>
      rw [Reading.after_cons, stays c (blanks c List.mem_cons_self)]
      exact ih fun d dMem => blanks d (List.mem_cons_of_mem _ dMem)

theorem after_indented (line text : List Char) (reading : Reading Char) :
    reading.after id (indented line text) = reading.after id text := by
  induction text generalizing reading with
  | nil => rfl
  | cons c text ih =>
      rw [indented, List.flatMap_cons, Reading.after_append, Reading.after_cons]
      split
      · next isNewline =>
        rw [isNewline, Reading.after_cons, after_indentOf]
        exact ih _
      · exact ih _

/-- The assignments read as code. -/
theorem after_assignmentString (names : List MovedName) :
    Reading.code.after id (assignmentString names) = .code := by
  induction names with
  | nil => rfl
  | cons moved names ih =>
      rw [assignmentString, List.flatMap_cons, Reading.after_append]
      have isCode : Reading.code.after id (match moved.init with
          | some text => moved.name ++ " = ".toList ++ text ++ ";/*Inserted by Hecaton*/\n".toList
          | none => []) = .code := by
        cases isInit : moved.init with
        | none => rfl
        | some text =>
            have equals : Reading.code.after id " = ".toList = .code := by decide +kernel
            have mark : Reading.code.after id ";/*Inserted by Hecaton*/\n".toList = .code := by
              decide +kernel
            simp only [Reading.after_append, (after_letters moved.isName.letters).1, equals,
              moved.initCode text isInit, mark]
      rw [isCode]
      exact ih

theorem after_replaceStr (names : List MovedName) :
    Reading.code.after id (replaceStr names) = .code := by
  rw [replaceStr]
  split
  · next moved _ =>
    split
    · next old isOld =>
      have opening : Reading.code.after id "//Hecaton_replace ".toList = .line := by decide +kernel
      have colon : (Reading.line : Reading Char).after id [':'] = .line := by decide
      have newline : (Reading.line : Reading Char).after id ['\n'] = .code := by decide
      simp only [Reading.after_append, opening, (after_letters (moved.isOldName old isOld).letters).2,
        colon, (after_letters moved.isName.letters).2, newline]
    · rfl
  · rfl

/-- What is inserted before the declaration leaves a comment open. -/
theorem after_insertedBefore (line : List Char) (names : List MovedName) :
    Reading.code.after id (insertedBefore line names) = .block := by
  rw [insertedBefore, after_indented, Reading.after_append, Reading.after_append,
    after_assignmentString, after_replaceStr]
  decide +kernel

/-! ## A declaration inside a comment -/

/-- Read inside a comment, a text that shows nothing leaves no literal open and no slash
waiting. -/
theorem after_hidden {text : List Placed} (hidden : tokenChars .block text = []) :
    (Reading.block.after Placed.char text).isLiteral = false ∧
      (Reading.block.after Placed.char text).waiting = [] := by
  rw [tokenChars_eq, List.append_eq_nil_iff] at hidden
  have quoteShown : ∀ (c : Placed) (quote : Quote), c.char = quote.char →
      (!isBlank c.char) = true := by
    intro c quote isQuote
    rw [isQuote]
    cases quote <;> decide
  refine ⟨Reading.isLiteral_after quoteShown rfl hidden.1, ?_⟩
  rw [List.eq_nil_iff_forall_not_mem]
  intro c isWaiting
  have isSlash := (Reading.mem_waiting_after rfl isWaiting).2
  have kept : c ∈ (Reading.block.after Placed.char text).waiting.filter
      fun c => !isBlank c.char := by
    rw [List.mem_filter, isSlash]
    exact ⟨isWaiting, by decide⟩
  rw [hidden.2] at kept
  exact absurd kept List.not_mem_nil

/-- When nothing that a text shows is its own, it shows nothing. -/
theorem partChars_eq_nil {reading : Reading Placed} (noneWaits : reading.waiting = [])
    {origin : Origin} {text : List Char}
    (gone : ∀ c ∈ partChars reading (placed origin text), c.origin ≠ origin) :
    partChars reading (placed origin text) = [] := by
  rw [List.eq_nil_iff_forall_not_mem]
  intro c shown
  exact gone c shown (origin_of_mem_placed (mem_of_mem_partChars noneWaits shown))

/-- With the declaration's own characters hidden, nothing of it is shown in a comment. -/
theorem hidden_of_gone {origin : Origin} {text : List Char} (c : Placed) (rest : List Placed)
    (notStar : c.char ≠ '*') (notSlash : c.char ≠ '/')
    (gone : ∀ d ∈ partChars .block (placed origin text ++ c :: rest), d.origin ≠ origin) :
    tokenChars .block (placed origin text) = [] := by
  rw [partChars_append] at gone
  rw [tokenChars_eq, List.append_eq_nil_iff]
  constructor
  · exact partChars_eq_nil rfl fun d shown => gone d (List.mem_append_left _ shown)
  · rw [List.eq_nil_iff_forall_not_mem]
    intro d kept
    have isWaiting := List.mem_of_mem_filter kept
    have inText := (Reading.mem_waiting_after rfl isWaiting).1
    apply gone d _ (origin_of_mem_placed inText)
    apply List.mem_append_right
    rw [partChars, List.mem_filter]
    refine ⟨?_, (List.mem_filter.mp kept).2⟩
    cases ended : Reading.block.after Placed.char (placed origin text) with
    | slash first =>
        rw [ended, Reading.waiting, List.mem_singleton] at isWaiting
        rw [Reading.shown, Reading.shows, if_neg (by simp [notStar, notSlash]), isWaiting]
        exact List.mem_append_left _ List.mem_cons_self
    | _ =>
        rw [ended] at isWaiting
        exact absurd isWaiting List.not_mem_nil

/-- What is inserted before the semicolon leaves a line comment open. -/
theorem after_insertedBehind {reading : Reading Placed} (notLiteral : reading.isLiteral = false)
    (noneWaits : reading.waiting = []) :
    reading.after Placed.char (placed .inserted " *///".toList) = .line := by
  have isText : placed .inserted " *///".toList =
      [⟨' ', .inserted, 0⟩, ⟨'*', .inserted, 1⟩, ⟨'/', .inserted, 2⟩, ⟨'/', .inserted, 3⟩,
        ⟨'/', .inserted, 4⟩] := by decide +kernel
  rw [isText]
  cases reading with
  | slash first => cases noneWaits
  | literal quote => cases notLiteral
  | escape quote => cases notLiteral
  | _ => rfl

theorem placed_declaration (source : Source) :
    placed .declaration source.declaration =
      placed .declaration source.body ++ [⟨';', .declaration, source.body.length⟩] := by
  rw [Source.declaration, placed, List.zipIdx_append, List.map_append, placed]
  simp

theorem take_declaration (source : Source) :
    (placed .declaration source.declaration).take source.body.length =
      placed .declaration source.body ∧
    (placed .declaration source.declaration).drop source.body.length =
      [⟨';', .declaration, source.body.length⟩] := by
  have bodyLength := length_placed .declaration source.body
  rw [placed_declaration, ← bodyLength, List.take_left, List.drop_left, bodyLength]
  exact ⟨rfl, rfl⟩

/-- Behind a semicolon no slash waits. -/
theorem waiting_semicolon (reading : Reading Placed) (text : List Placed) (origin : Origin)
    (place : Nat) :
    (reading.after Placed.char (text ++ [⟨';', origin, place⟩])).waiting = [] := by
  rw [Reading.after_append, Reading.after_cons, Reading.after_nil, List.eq_nil_iff_forall_not_mem]
  intro c isWaiting
  obtain ⟨rfl, isSlash⟩ := Reading.mem_waiting_next isWaiting
  have different : ';' ≠ '/' := by decide
  exact different isSlash

/-- A declaration that is moved is gone and nothing else exactly when it shows nothing inside a
comment and its line is quiet. -/
theorem hoisted_iff (source : Source) (line : List Char) (names : List MovedName) :
    OnlyDeclarationGone source.original (source.hoisted line names) ↔ source.HoistedSafe := by
  obtain ⟨bodyPart, semicolon⟩ := take_declaration source
  have opened : Reading.code.after Placed.char
      (placed .inserted (insertedBefore line names)) = .block := by
    have mapped := after_placed .inserted (insertedBefore line names) .code
    rw [Reading.map_code, after_insertedBefore] at mapped
    exact Reading.map_eq_block_iff.mp mapped
  have spaceFirst : placed .inserted " *///".toList =
      ⟨' ', .inserted, 0⟩ :: (placed .inserted " *///".toList).tail := by decide +kernel
  have origins : ∀ c ∈ placed .inserted (insertedBefore line names) ++
      placed .declaration source.body ++ placed .inserted " *///".toList ++
        [⟨';', .declaration, source.body.length⟩],
      c.origin = .inserted ∨ c.origin = .declaration := by
    intro c cMem
    simp only [List.mem_append, List.mem_singleton] at cMem
    rcases cMem with ((inFirst | inBody) | inSecond) | rfl
    · exact Or.inl (origin_of_mem_placed inFirst)
    · exact Or.inr (origin_of_mem_placed inBody)
    · exact Or.inl (origin_of_mem_placed inSecond)
    · exact Or.inr rfl
  have noneWaits := waiting_semicolon .code (placed .inserted (insertedBefore line names) ++
    placed .declaration source.body ++ placed .inserted " *///".toList) .declaration
    source.body.length
  have shown : partChars .code (placed .inserted (insertedBefore line names) ++
      placed .declaration source.body ++ placed .inserted " *///".toList ++
        [⟨';', .declaration, source.body.length⟩]) =
      partChars .code (placed .inserted (insertedBefore line names)) ++
        partChars .block (placed .declaration source.body ++ (placed .inserted " *///".toList ++
          [⟨';', .declaration, source.body.length⟩])) := by
    rw [List.append_assoc, List.append_assoc, partChars_append, opened]
  -- With the declaration hidden the line comment before the semicolon stays open.
  have ended : tokenChars .block (placed .declaration source.body) = [] →
      Reading.code.after Placed.char (placed .inserted (insertedBefore line names) ++
        placed .declaration source.body ++ placed .inserted " *///".toList ++
          [⟨';', .declaration, source.body.length⟩]) = .line := by
    intro hidden
    obtain ⟨notLiteral, noSlash⟩ := after_hidden hidden
    rw [Reading.after_append, Reading.after_append, Reading.after_append, opened,
      after_insertedBehind notLiteral noSlash]
    rfl
  rw [Source.hoisted, bodyPart, semicolon, onlyDeclarationGone_iff source origins noneWaits, shown]
  constructor
  · rintro ⟨gone, same⟩
    have hidden : tokenChars .block (placed .declaration source.body) = [] := by
      apply hidden_of_gone ⟨' ', .inserted, 0⟩ ((placed .inserted " *///".toList).tail ++
        [⟨';', .declaration, source.body.length⟩]) (by decide) (by decide)
      intro d shownInComment
      apply gone d (List.mem_append_right _ _)
      rwa [← List.cons_append, ← spaceFirst] at shownInComment
    rw [ended hidden] at same
    exact ⟨hidden, (tokenChars_line_iff source).mp same⟩
  · rintro ⟨hidden, quiet⟩
    refine ⟨?_, by rw [ended hidden]; exact (tokenChars_line_iff source).mpr quiet⟩
    intro c cMem
    obtain ⟨notLiteral, noSlash⟩ := after_hidden hidden
    rw [tokenChars_eq, List.append_eq_nil_iff] at hidden
    rw [partChars_append, hidden.1, List.nil_append, partChars_append,
      after_insertedBehind notLiteral noSlash] at cMem
    rcases List.mem_append.mp cMem with inFirst | inRest
    · rw [origin_of_mem_placed (mem_of_mem_partChars rfl inFirst)]
      decide
    · rcases List.mem_append.mp inRest with inSecond | inSemicolon
      · rw [origin_of_mem_placed (mem_of_mem_partChars noSlash inSecond)]
        decide
      · exact absurd inSemicolon List.not_mem_nil

/-- Read inside a comment, a declaration that shows nothing ends in it or in a line comment. -/
theorem after_declaration {source : Source}
    (hidden : tokenChars .block (placed .declaration source.declaration) = []) :
    Reading.block.after Placed.char (placed .declaration source.declaration) = .line ∨
      Reading.block.after Placed.char (placed .declaration source.declaration) = .block := by
  have split := placed_declaration source
  rw [tokenChars_eq, List.append_eq_nil_iff, split, partChars_append, List.append_eq_nil_iff] at hidden
  have last := hidden.1.2
  rw [split, Reading.after_append]
  cases before : Reading.block.after Placed.char (placed .declaration source.body) with
  | line => exact Or.inl rfl
  | splice => exact Or.inl rfl
  | block => exact Or.inr rfl
  | star => exact Or.inr rfl
  | code =>
      rw [before] at last
      cases last
  | slash first =>
      rw [before] at last
      have shown : (⟨';', .declaration, source.body.length⟩ : Placed) ∈
          partChars (.slash first) [⟨';', .declaration, source.body.length⟩] :=
        List.mem_filter.mpr ⟨List.mem_cons_of_mem _ List.mem_cons_self, rfl⟩
      rw [last] at shown
      exact absurd shown List.not_mem_nil
  | literal quote =>
      rw [before] at last
      cases last
  | escape quote =>
      rw [before] at last
      cases last

/-- Left as it is, the declaration is not gone. -/
theorem not_gone_original (source : Source) :
    ¬ OnlyDeclarationGone source.original source.original := by
  intro only
  have gone := gone_of_middle source (placed .declaration source.declaration) only
  obtain ⟨first, rest, isBody⟩ := List.exists_cons_of_ne_nil source.nonempty
  have isIdent := source.isWord first (by rw [isBody]; rfl)
  have other : ∀ d, isIdentChar d = false → first ≠ d := fun _ => ne_of_isIdentChar isIdent
  have notBlank := isBlank_of_isIdentChar first isIdent
  apply gone ⟨first, .declaration, 0⟩ _ rfl
  rw [partChars, List.mem_filter, Source.declaration, isBody]
  refine ⟨?_, by simp [notBlank]⟩
  rw [placed, List.cons_append, List.zipIdx_cons, List.map_cons, Reading.shown]
  apply List.mem_append_left
  simp [Reading.shows, Reading.shownInCode, other '/' (by decide), other '\\' (by decide)]

/-- A declaration that is separated is gone and nothing else exactly when it opens no comment,
shows nothing inside one and, where a line comment in it stays open, its line is quiet. -/
theorem separated_iff (source : Source) :
    OnlyDeclarationGone source.original source.separated ↔ source.SeparatedSafe := by
  by_cases opening : "/*".toList <:+: source.declaration
  · rw [Source.separated, if_pos opening]
    exact iff_of_false (not_gone_original source) fun safe => safe.noOpening opening
  · have opened : Reading.code.after Placed.char (placed .inserted "/*".toList) = .block := by
      decide +kernel
    have origins : ∀ c ∈ placed .inserted "/*".toList ++ placed .declaration source.declaration ++
        placed .inserted "*/".toList, c.origin = .inserted ∨ c.origin = .declaration := by
      intro c cMem
      simp only [List.mem_append] at cMem
      rcases cMem with (inFirst | inDeclaration) | inSecond
      · exact Or.inl (origin_of_mem_placed inFirst)
      · exact Or.inr (origin_of_mem_placed inDeclaration)
      · exact Or.inl (origin_of_mem_placed inSecond)
    have plain := after_placed .declaration source.declaration .block
    rw [Reading.map_block] at plain
    have noneWaits : (Reading.block.after Placed.char
        (placed .declaration source.declaration)).waiting = [] := by
      rw [placed_declaration]
      exact waiting_semicolon _ _ _ _
    have shown : partChars .code (placed .inserted "/*".toList ++
        placed .declaration source.declaration ++ placed .inserted "*/".toList) =
        partChars .block (placed .declaration source.declaration) ++
          partChars (Reading.block.after Placed.char (placed .declaration source.declaration))
            (placed .inserted "*/".toList) := by
      have openingHidden : partChars .code (placed .inserted "/*".toList) = [] := by decide +kernel
      rw [List.append_assoc, partChars_append, opened, openingHidden, List.nil_append,
        partChars_append]
    have ended : Reading.code.after Placed.char (placed .inserted "/*".toList ++
        placed .declaration source.declaration ++ placed .inserted "*/".toList) =
        (Reading.block.after Placed.char (placed .declaration source.declaration)).after
          Placed.char (placed .inserted "*/".toList) := by
      rw [Reading.after_append, Reading.after_append, opened]
    have lineGoesOn : (Reading.line : Reading Placed).after Placed.char
        (placed .inserted "*/".toList) = .line := by decide +kernel
    have blockEnds : (Reading.block : Reading Placed).after Placed.char
        (placed .inserted "*/".toList) = .code := by decide +kernel
    have hiddenGone : tokenChars .block (placed .declaration source.declaration) = [] →
        ∀ c ∈ partChars .code (placed .inserted "/*".toList ++
          placed .declaration source.declaration ++ placed .inserted "*/".toList),
          c.origin ≠ .declaration := by
      intro hidden c cMem
      rw [tokenChars_eq, List.append_eq_nil_iff] at hidden
      rw [shown, hidden.1, List.nil_append] at cMem
      rw [origin_of_mem_placed (mem_of_mem_partChars noneWaits cMem)]
      decide
    rw [Source.separated, if_neg opening]
    constructor
    · intro only
      have gone := gone_of_middle source _ only
      rw [shown] at gone
      have hidden : tokenChars .block (placed .declaration source.declaration) = [] := by
        rw [tokenChars_eq, noneWaits, List.filter_nil, List.append_nil]
        exact partChars_eq_nil rfl fun c cMem => gone c (List.mem_append_left _ cMem)
      refine ⟨opening, hidden, fun isLine => ?_⟩
      rw [isLine] at plain
      have staysOpen := Reading.map_eq_line_iff.mp plain
      rw [staysOpen, lineGoesOn] at ended
      have same := ((onlyDeclarationGone_iff source origins (by rw [ended]; rfl)).mp only).2
      rw [ended] at same
      exact (tokenChars_line_iff source).mp same
    · rintro ⟨_, hidden, quiet⟩
      rcases after_declaration hidden with isLine | isBlock
      · rw [isLine, lineGoesOn] at ended
        rw [onlyDeclarationGone_iff source origins (by rw [ended]; rfl), ended]
        refine ⟨hiddenGone hidden, (tokenChars_line_iff source).mpr (quiet ?_)⟩
        rw [← plain, isLine]
        rfl
      · rw [isBlock, blockEnds] at ended
        rw [onlyDeclarationGone_iff source origins (by rw [ended]; rfl), ended]
        exact ⟨hiddenGone hidden, rfl⟩

/-- For every source text and every declaration: moving it comments out it and nothing else
exactly when it shows nothing inside a comment and the rest of its line is quiet; separating it,
exactly when it opens no comment, shows nothing inside one, and its line is quiet where a line
comment in it stays open. -/
theorem commentedOut_iff (source : Source) (line : List Char) (names : List MovedName) :
    (OnlyDeclarationGone source.original (source.hoisted line names) ↔ source.HoistedSafe) ∧
      (OnlyDeclarationGone source.original source.separated ↔ source.SeparatedSafe) :=
  ⟨hoisted_iff source line names, separated_iff source⟩

/-! A call on the line of the declaration. -/

/-- `int x = 1; foo();` in a block. -/
def callBehind : Source where
  before := "\x7b ".toList
  body := "int x = 1".toList
  behind := " foo();\n\x7d".toList
  beforeCode := by decide +kernel
  bodyCode := by decide +kernel
  isWord := by
    intro c isFirst
    cases isFirst
    decide
  nonempty := by decide +kernel

/-- The name of the declaration with its initial value. -/
def movedX : MovedName where
  name := ['x']
  oldName := none
  init := some ['1']
  isName := isName_of_all (by decide) (by decide)
  isOldName := by simp
  initCode := by decide +kernel

/-- The call is lost behind `//`. -/
theorem hoisted_loses_call :
    ¬ OnlyDeclarationGone callBehind.original
      (callBehind.hoisted "\x7b int x = 1; foo();".toList [movedX]) := by
  intro only
  have kept := only.kept
  revert kept
  decide +kernel

end Hecaton.Pass1.CommentedDecls
