import Hecaton.Library.Ranges
import Hecaton.Scripts.Intervals
import Hecaton.Scripts.WholeScript
import Mathlib.Data.List.Nodup

/-!
# Looking up addresses

The table is there to tell which function an instruction belongs to.  For a disassembly in
address order every instruction of a recorded function, and of its cold part, is found in
exactly one range, that of the function's row.
-/

namespace Hecaton.Scripts

open Hecaton.Library

/-! ## The ranges of a header -/

/-- The array with a name. -/
def arrayOf (declarations : List Declaration) (name : Str) : List Str :=
  ((declarations.find? fun declaration => declaration.name = name).map Declaration.elements).getD []

/-- The value of a constant that `hexText` writes. -/
def constValue (element : Str) : Nat := hexValue (element.drop 2)

/-- Ranges from their columns. -/
def rangesOf (begins ends indices : List Str) : List (Range Nat Str) :=
  (begins.zip (ends.zip indices)).map fun entry =>
    ⟨constValue entry.1, constValue entry.2.1, entry.2.2⟩

/-- The ranges of the functions and those of their cold parts, with the index of the row. -/
def tableRanges (declarations : List Declaration) : List (Range Nat Str) :=
  let begins := arrayOf declarations "hecaton_fnc_begin_addrs".toList
  rangesOf begins (arrayOf declarations "hecaton_fnc_end_addrs".toList)
      ((List.range begins.length).map fun index : Nat => str index) ++
    rangesOf (arrayOf declarations "hecaton_cold_begin_addrs".toList)
      (arrayOf declarations "hecaton_cold_end_addrs".toList)
      (arrayOf declarations "hecaton_cold_begin_index".toList)

/-- The indices of the rows in whose ranges an address lies. -/
def rowsAt (file : Str) (addr : Nat) : List Str :=
  ownersAt (tableRanges (readDeclarations file)) addr

def Row.range (entry : Row × Nat) : Range Nat Str :=
  ⟨hexValue entry.1.beginAddr, hexValue entry.1.endAddr, str entry.2⟩

def coldRowRange (entry : (Str × Str) × Nat) : Range Nat Str :=
  ⟨hexValue entry.1.1, hexValue entry.1.2, str entry.2⟩

theorem isPlain_of_isHexDigit {c : Char} (digit : isHexDigit c = true) : isPlain c = true := by
  have noSpace := isSpace_of_isHexDigit digit
  have noMark : ∀ d ∈ ",;\x7b\x7d[]".toList, isHexDigit d = false := by decide
  have absent : c ∉ ",;\x7b\x7d[]".toList := by
    intro isMark
    rw [noMark c isMark] at digit
    exact Bool.false_ne_true digit
  simp only [isPlain, noSpace]
  simp at absent
  simp [absent]

theorem rangesOf_maps {α : Type} (begins ends : α → Str) (index : α → Nat) (rows : List α) :
    rangesOf (rows.map fun row => hexText (begins row)) (rows.map fun row => hexText (ends row))
        (rows.map fun row => str (index row)) =
      rows.map fun row => ⟨hexValue (begins row), hexValue (ends row), str (index row)⟩ := by
  induction rows with
  | nil => rfl
  | cons row rest ih =>
      rw [List.map_cons, List.map_cons, List.map_cons, List.map_cons, ← ih]
      rfl

theorem tableRanges_tableOf (rows : List Row) :
    tableRanges (tableOf rows) =
      rows.zipIdx.map Row.range ++ (coldRows rows).map coldRowRange := by
  have begins : arrayOf (tableOf rows) "hecaton_fnc_begin_addrs".toList =
      rows.map fun row => hexText row.beginAddr := rfl
  have ends : arrayOf (tableOf rows) "hecaton_fnc_end_addrs".toList =
      rows.map fun row => hexText row.endAddr := rfl
  have coldBegins : arrayOf (tableOf rows) "hecaton_cold_begin_addrs".toList =
      (coldRows rows).map fun entry => hexText entry.1.1 := rfl
  have coldEnds : arrayOf (tableOf rows) "hecaton_cold_end_addrs".toList =
      (coldRows rows).map fun entry => hexText entry.1.2 := rfl
  have coldIndices : arrayOf (tableOf rows) "hecaton_cold_begin_index".toList =
      (coldRows rows).map fun entry => str entry.2 := rfl
  have places : List.range rows.length = rows.zipIdx.map Prod.snd := by
    rw [List.zipIdx_map_snd, List.range_eq_range']
  have firsts : ∀ column : Row → Str, rows.map (fun row => hexText (column row)) =
      rows.zipIdx.map fun entry => hexText (column entry.1) := by
    intro column
    nth_rewrite 1 [← List.zipIdx_map_fst 0 rows]
    rw [List.map_map]
    rfl
  rw [tableRanges, begins, ends, coldBegins, coldEnds, coldIndices,
    rangesOf_maps (fun entry : (Str × Str) × Nat => entry.1.1) (fun entry => entry.1.2) Prod.snd]
  rw [List.length_map, places, firsts Row.beginAddr, firsts Row.endAddr, List.map_map]
  congr 1
  exact rangesOf_maps (fun entry : Row × Nat => entry.1.beginAddr) (fun entry => entry.1.endAddr)
    Prod.snd rows.zipIdx

/-! ## Code in address order -/

/-- A disassembly of code, each function that mentions a cold part with its own.  A blank line
stands behind every block, the last one included. -/
structure CodeListing where
  preamble : List Str
  ordinary : List Code
  pairs : List (Code × Code)

namespace CodeListing

variable (listing : CodeListing)

/-- All blocks, in their order. -/
def codes : List Code := listing.ordinary ++ listing.pairs.map Prod.snd

def disassembly : Disassembly where
  preamble := listing.preamble
  ordinary := listing.ordinary.map Code.block
  colds := (listing.pairs.map Prod.snd).map Code.block
  closed := true

/-- The blocks are well formed and in address order.  Each function that mentions a cold part
has one, and no two of them have the same name. -/
structure WellFormed : Prop where
  noHeader : ∀ line ∈ listing.preamble, isHeader line = false
  preambleLines : ∀ line ∈ listing.preamble, IsLine line
  codes : ∀ code ∈ listing.codes, code.WellFormed
  bodyLines : ∀ code ∈ listing.codes, ∀ line ∈ code.block.body, IsLine line
  notCold : ∀ code ∈ listing.ordinary, ¬ endsCold code.name
  owners : listing.pairs.map Prod.fst =
    listing.ordinary.filter fun code => code.block.mentionsCold
  named : ∀ pair ∈ listing.pairs, pair.2.name = coldName pair.1.name
  distinct : (listing.pairs.map fun pair => pair.1.name).Nodup
  inside : ∀ code ∈ listing.codes,
    code.addrs.Pairwise fun addr later => hexValue addr ≤ hexValue later
  across : listing.codes.Pairwise fun code later =>
    ∀ addr ∈ code.addrs, hexValue addr < hexValue later.addr

end CodeListing

/-- From the address of the block to that of its last line. -/
def Code.spans (code : Code) (range : Range Nat Str) : Prop :=
  range.first = hexValue code.addr ∧ range.last = hexValue code.block.endWord

/-- One block is wholly below the other. -/
def Code.Clear (code other : Code) : Prop :=
  (∀ addr ∈ code.addrs, hexValue addr < hexValue other.addr) ∨
    ∀ addr ∈ other.addrs, hexValue addr < hexValue code.addr

/-- The end of a block is the address of its last line. -/
theorem Code.exists_addrs_concat {code : Code} (wellFormed : code.WellFormed) :
    ∃ front, code.addrs = front ++ [code.block.endWord] := by
  rcases List.eq_nil_or_concat code.instructions with empty | ⟨front, last, isConcat⟩
  · have isLast : code.block.lastLine = code.block.header := by
      simp [Block.lastLine, Code.block, empty]
    have endWord : code.block.endWord = code.addr := by
      rw [Block.endWord, isLast, Block.split_header (Code.block_wellFormed wellFormed)]
      exact wellFormed.addr.rstripChar
    refine ⟨[], ?_⟩
    rw [Code.addrs, empty, endWord]
    rfl
  · have lastMem : last ∈ code.instructions := by simp [isConcat]
    obtain ⟨isHex, space, _⟩ := wellFormed.instructions last lastMem
    have isLast : code.block.lastLine = last.line := by
      simp [Block.lastLine, Code.block, isConcat]
    have endWord : code.block.endWord = last.addr := by
      rw [Block.endWord, isLast, split_line isHex space, List.headD_cons]
      have colon : ∀ c ∈ [':'], (c == ':') = true := by decide
      rw [rstripChar, rdropWhile_append_of_all _ colon]
      exact isHex.rstripChar
    refine ⟨code.addr :: front.map Instruction.addr, ?_⟩
    rw [Code.addrs, isConcat, endWord]
    simp

section Ranges

variable {listing : CodeListing} (wellFormed : listing.WellFormed)

include wellFormed

/-- The addresses of a block lie between the first and the last. -/
theorem has_of_spans {code : Code} (codeMem : code ∈ listing.codes) {range : Range Nat Str}
    (spans : code.spans range) {addr : Str} (addrMem : addr ∈ code.addrs) :
    range.has (hexValue addr) = true := by
  rw [Range.has_iff, spans.1, spans.2]
  have ordered := wellFormed.inside code codeMem
  constructor
  · rcases List.mem_cons.mp addrMem with rfl | inBody
    · exact Nat.le_refl _
    · exact List.rel_of_pairwise_cons ordered inBody
  · obtain ⟨front, isConcat⟩ := Code.exists_addrs_concat (wellFormed.codes code codeMem)
    rw [isConcat] at ordered addrMem
    rcases List.mem_append.mp addrMem with inFront | isLast
    · exact (List.pairwise_append.mp ordered).2.2 addr inFront _ (List.mem_singleton_self _)
    · rw [List.mem_singleton.mp isLast]

theorem endWord_mem_addrs {code : Code} (codeMem : code ∈ listing.codes) :
    code.block.endWord ∈ code.addrs := by
  obtain ⟨front, isConcat⟩ := Code.exists_addrs_concat (wellFormed.codes code codeMem)
  rw [isConcat]
  exact List.mem_append_right _ (List.mem_singleton_self _)

/-- The addresses of a block lie outside of the others. -/
theorem not_has_of_spans {code other : Code} (codeMem : code ∈ listing.codes)
    (otherMem : other ∈ listing.codes) (different : other ≠ code) {range : Range Nat Str}
    (spans : other.spans range) {addr : Str} (addrMem : addr ∈ code.addrs) :
    range.has (hexValue addr) = false := by
  cases inside : range.has (hexValue addr) with
  | false => rfl
  | true =>
      rw [Range.has_iff, spans.1, spans.2] at inside
      have atCode := wellFormed.inside code codeMem
      have below : hexValue code.addr ≤ hexValue addr := by
        rcases List.mem_cons.mp addrMem with rfl | inBody
        · exact Nat.le_refl _
        · exact List.rel_of_pairwise_cons atCode inBody
      have either : other.Clear code := by
        have both : listing.codes.Pairwise Code.Clear := wellFormed.across.imp Or.inl
        have symmetric : Std.Symm Code.Clear := ⟨fun first second => Or.symm⟩
        exact both.forall otherMem codeMem different
      rcases either with before | behind
      · have ends := before _ (endWord_mem_addrs wellFormed otherMem)
        omega
      · have begins := behind addr addrMem
        omega

/-- The ranges of blocks in their order do not meet. -/
theorem apart_of_spans {shown : List Code} (sublist : shown.Sublist listing.codes)
    {ranges : List (Range Nat Str)}
    (spans : List.Forall₂ (fun range code => Code.spans code range) ranges shown) :
    ranges.Pairwise Range.Apart := by
  have ordered : shown.Pairwise fun code later =>
      hexValue code.block.endWord < hexValue later.addr := by
    apply (wellFormed.across.sublist sublist).imp_of_mem
    intro code later codeMem _ below
    exact below _ (endWord_mem_addrs wellFormed (sublist.subset codeMem))
  apply aligned_pairwise spans ordered
  intro range code own other later otherOwn below
  apply Range.apart_of_lt
  rw [own.2, otherOwn.1]
  exact below

end Ranges

/-! ## The rows of code -/

section Rows

variable {listing : CodeListing} (wellFormed : listing.WellFormed)

include wellFormed

theorem wellFormed_disassembly : listing.disassembly.WellFormed := by
  have isBlock : ∀ b ∈ listing.disassembly.ordinary ++ listing.disassembly.colds,
      ∃ code ∈ listing.codes, b = code.block := by
    intro b bMem
    have blocks : listing.disassembly.ordinary ++ listing.disassembly.colds =
        listing.codes.map Code.block := by
      rw [CodeListing.codes, List.map_append]
      rfl
    rw [blocks] at bMem
    obtain ⟨code, codeMem, rfl⟩ := List.mem_map.mp bMem
    exact ⟨code, codeMem, rfl⟩
  have plainHex : ∀ {s : Str}, IsHex s → ∀ c ∈ s, isPlain c = true := by
    intro s isHex c cMem
    exact isPlain_of_isHexDigit (isHex.2 c cMem)
  constructor
  · exact wellFormed.noHeader
  · exact wellFormed.preambleLines
  · intro b bMem
    obtain ⟨code, codeMem, rfl⟩ := isBlock b bMem
    exact Code.block_wellFormed (wellFormed.codes code codeMem)
  · intro b bMem
    obtain ⟨code, codeMem, rfl⟩ := isBlock b bMem
    have codeWellFormed := wellFormed.codes code codeMem
    constructor
    · exact plainHex codeWellFormed.addr
    · apply plainHex
      rcases List.mem_cons.mp (endWord_mem_addrs wellFormed codeMem) with isAddr | inBody
      · rw [isAddr]
        exact codeWellFormed.addr
      · obtain ⟨instruction, instructionMem, isAddr⟩ := List.mem_map.mp inBody
        rw [← isAddr]
        exact (codeWellFormed.instructions instruction instructionMem).1
  · intro b bMem
    obtain ⟨code, codeMem, rfl⟩ := isBlock b bMem
    exact wellFormed.bodyLines code codeMem
  · intro b bMem
    obtain ⟨code, codeMem, rfl⟩ := List.mem_map.mp bMem
    exact wellFormed.notCold code codeMem
  · intro c cMem
    obtain ⟨part, partMem, rfl⟩ := List.mem_map.mp cMem
    obtain ⟨pair, pairMem, rfl⟩ := List.mem_map.mp partMem
    apply contains_of_infix
    have name : pair.2.block.name = coldName pair.1.name := wellFormed.named pair pairMem
    rw [name]
    refine ⟨pair.1.name ++ ['.'], [], ?_⟩
    simp [coldName]

/-- The search finds a function's own cold part. -/
theorem coldRange_of_pair {pair : Code × Code} (pairMem : pair ∈ listing.pairs) :
    coldRange true (coldName pair.1.name) listing.disassembly.colds =
      (pair.2.addr, pair.2.block.endWord) := by
  have named := wellFormed.named
  have distinct := wellFormed.distinct
  have colds : listing.disassembly.colds = listing.pairs.map fun pair => pair.2.block := by
    rw [CodeListing.disassembly, List.map_map]
    rfl
  rw [colds]
  generalize listing.pairs = pairs at pairMem named distinct
  induction pairs with
  | nil => exact absurd pairMem List.not_mem_nil
  | cons first rest ih =>
      obtain ⟨notInRest, distinctRest⟩ := List.nodup_cons.mp distinct
      have firstName : first.2.block.name = coldName first.1.name :=
        named first List.mem_cons_self
      rw [List.map_cons, coldRange, firstName]
      rcases List.mem_cons.mp pairMem with rfl | inRest
      · rw [if_pos rfl]
        rfl
      · have other : coldName first.1.name ≠ coldName pair.1.name := by
          intro same
          rw [coldName_inj] at same
          exact notInRest (List.mem_map.mpr ⟨pair, inRest, same.symm⟩)
        rw [if_neg other]
        exact ih inRest (fun pair pairMem => named pair (List.mem_cons_of_mem _ pairMem))
          distinctRest

/-- The pairs whose functions are recorded. -/
def CodeListing.shownPairs (listing : CodeListing) : List (Code × Code) :=
  listing.pairs.filter fun pair => !pair.1.block.isColdNamed

/-- The blocks that the table has ranges for. -/
def CodeListing.shown (listing : CodeListing) : List Code :=
  functionsOf listing.ordinary ++ listing.shownPairs.map Prod.snd

omit wellFormed in
theorem shown_sublist : listing.shown.Sublist listing.codes :=
  List.Sublist.append List.filter_sublist (List.filter_sublist.map _)

theorem rows_disassembly (suppLines : List Str) :
    listing.disassembly.rows suppLines = (functionsOf listing.ordinary).map fun code =>
      code.block.row suppLines listing.disassembly.colds true := by
  have listed : ∀ code ∈ listing.ordinary,
      code.block.isListed = !code.block.isColdNamed := by
    intro code codeMem
    exact Code.isListed_block (wellFormed.codes code (List.mem_append_left _ codeMem))
  have blocks : (listing.ordinary.map Code.block).filter Block.isListed =
      (functionsOf listing.ordinary).map Code.block := by
    rw [List.filter_map, functionsOf]
    exact congrArg _ (List.filter_congr listed)
  rw [Disassembly.rows]
  change ((listing.ordinary.map Code.block).filter Block.isListed).map _ = _
  rw [blocks, List.map_map]
  rfl

omit wellFormed in
theorem coldRows_fst (rows : List Row) : (coldRows rows).map Prod.fst = rows.filterMap Row.cold := by
  rw [coldRows]
  generalize 0 = index
  induction rows generalizing index with
  | nil => rfl
  | cons row rest ih =>
      rw [List.zipIdx_cons, List.filterMap_cons, List.filterMap_cons]
      cases row.cold with
      | none => exact ih (index + 1)
      | some range => exact congrArg _ (ih (index + 1))

/-- The rows with a cold part are those of the owners, in their order. -/
theorem coldRows_disassembly (suppLines : List Str) :
    (coldRows (listing.disassembly.rows suppLines)).map Prod.fst =
      listing.shownPairs.map fun pair => (pair.2.addr, pair.2.block.endWord) := by
  have owners : (functionsOf listing.ordinary).filter (fun code => code.block.mentionsCold) =
      listing.shownPairs.map Prod.fst := by
    have both : (functionsOf listing.ordinary).filter (fun code => code.block.mentionsCold) =
        functionsOf (listing.ordinary.filter fun code => code.block.mentionsCold) := by
      rw [functionsOf, functionsOf, List.filter_comm]
    rw [both, ← wellFormed.owners, functionsOf, List.filter_map]
    rfl
  have cold : ∀ code : Code, (code.block.row suppLines listing.disassembly.colds true).cold =
      if code.block.mentionsCold then
        some (coldRange true (coldName code.name) listing.disassembly.colds) else none :=
    fun code => rfl
  have ofOwners : ∀ codes : List Code,
      (codes.map fun code => code.block.row suppLines listing.disassembly.colds true).filterMap
        Row.cold = (codes.filter fun code => code.block.mentionsCold).map fun code =>
          coldRange true (coldName code.name) listing.disassembly.colds := by
    intro codes
    induction codes with
    | nil => rfl
    | cons code rest ih =>
        rw [List.map_cons, List.filterMap_cons, cold, List.filter_cons]
        cases code.block.mentionsCold with
        | false => exact ih
        | true => exact congrArg _ ih
  rw [coldRows_fst, rows_disassembly wellFormed, ofOwners, owners, List.map_map]
  apply List.map_congr_left
  intro pair pairMem
  exact coldRange_of_pair wellFormed (List.mem_of_mem_filter pairMem)

/-- The ranges of the table are those of the shown blocks. -/
theorem spans_tableRanges (suppLines : List Str) :
    List.Forall₂ (fun range code => Code.spans code range)
      (tableRanges (tableOf (listing.disassembly.rows suppLines))) listing.shown := by
  rw [tableRanges_tableOf, CodeListing.shown]
  apply List.rel_append
  · have firsts : (listing.disassembly.rows suppLines).zipIdx.map Prod.fst =
        (functionsOf listing.ordinary).map fun code =>
          code.block.row suppLines listing.disassembly.colds true := by
      rw [List.zipIdx_map_fst, rows_disassembly wellFormed]
    rw [List.forall₂_map_left_iff]
    have same := List.forall₂_eq_eq_eq.symm ▸ firsts
    rw [List.forall₂_map_left_iff, List.forall₂_map_right_iff] at same
    apply same.imp
    rintro ⟨row, index⟩ code isRow
    cases isRow
    exact ⟨rfl, rfl⟩
  · have firsts := coldRows_disassembly wellFormed suppLines
    rw [List.forall₂_map_left_iff, List.forall₂_map_right_iff]
    have same := List.forall₂_eq_eq_eq.symm ▸ firsts
    rw [List.forall₂_map_left_iff, List.forall₂_map_right_iff] at same
    apply same.imp
    rintro ⟨range, index⟩ pair isRange
    cases isRange
    exact ⟨rfl, rfl⟩

/-! ## Finding the row -/

omit wellFormed in
theorem functionsOf_split {front back : List Code} {code : Code}
    (split : listing.ordinary = front ++ code :: back) (shown : code.block.isColdNamed = false) :
    (functionsOf listing.ordinary)[(functionsOf front).length]? = some code := by
  have parts : functionsOf listing.ordinary = functionsOf front ++ code :: functionsOf back := by
    rw [split, functionsOf, List.filter_append, List.filter_cons, shown]
    rfl
  rw [parts, List.getElem?_append_right (Nat.le_refl _), Nat.sub_self]
  rfl

/-- A shown function and its cold part have ranges with the index of its row. -/
theorem exists_range {front back : List Code} {code : Code}
    (split : listing.ordinary = front ++ code :: back) (isShown : code.block.isColdNamed = false)
    {part : Code} (isPart : part = code ∨ (code, part) ∈ listing.pairs) (suppLines : List Str) :
    ∃ range ∈ tableRanges (tableOf (listing.disassembly.rows suppLines)),
      part.spans range ∧ range.owner = str (functionsOf front).length := by
  have place : (listing.disassembly.rows suppLines)[(functionsOf front).length]? =
      some (code.block.row suppLines listing.disassembly.colds true) := by
    rw [rows_disassembly wellFormed, List.getElem?_map, functionsOf_split split isShown]
    rfl
  have entry : (code.block.row suppLines listing.disassembly.colds true,
      (functionsOf front).length) ∈ (listing.disassembly.rows suppLines).zipIdx :=
    List.mem_zipIdx_iff_getElem?.mpr place
  rw [tableRanges_tableOf]
  rcases isPart with rfl | isPair
  · refine ⟨_, List.mem_append_left _ (List.mem_map_of_mem entry), ⟨rfl, rfl⟩, rfl⟩
  · have mentions : code.block.mentionsCold = true := by
      have owner : code ∈ listing.pairs.map Prod.fst := List.mem_map_of_mem isPair
      rw [wellFormed.owners] at owner
      exact (List.mem_filter.mp owner).2
    have cold : (code.block.row suppLines listing.disassembly.colds true).cold =
        some (part.addr, part.block.endWord) := by
      rw [← coldRange_of_pair wellFormed isPair, Block.row, mentions]
      rfl
    have coldEntry : ((part.addr, part.block.endWord), (functionsOf front).length) ∈
        coldRows (listing.disassembly.rows suppLines) := by
      rw [coldRows, List.mem_filterMap]
      refine ⟨_, entry, ?_⟩
      rw [cold]
      rfl
    refine ⟨_, List.mem_append_right _ (List.mem_map_of_mem coldEntry), ⟨rfl, rfl⟩, rfl⟩

/-- A function that is not recorded is not shown, nor is its cold part. -/
theorem not_mem_shown {code part : Code} (codeMem : code ∈ listing.ordinary)
    (notShown : code.block.isColdNamed = true)
    (isPart : part = code ∨ (code, part) ∈ listing.pairs) : part ∉ listing.shown := by
  intro partMem
  rcases List.mem_append.mp partMem with isFunction | isCold
  · rcases isPart with rfl | isPair
    · have shown := (List.mem_filter.mp isFunction).2
      rw [notShown] at shown
      exact Bool.false_ne_true shown
    · have named := wellFormed.named _ isPair
      exact ne_coldName (wellFormed.notCold part (List.mem_of_mem_filter isFunction)) _ named
  · obtain ⟨⟨owner, _⟩, ownerMem, rfl⟩ := List.mem_map.mp isCold
    obtain ⟨inPairs, shown⟩ := List.mem_filter.mp ownerMem
    rcases isPart with rfl | isPair
    · exact ne_coldName (wellFormed.notCold _ codeMem) _ (wellFormed.named _ inPairs)
    · have sameName : owner.name = code.name := by
        rw [← coldName_inj, ← wellFormed.named _ inPairs, ← wellFormed.named _ isPair]
      have samePair := List.inj_on_of_nodup_map wellFormed.distinct inPairs isPair sameName
      cases samePair
      change (!code.block.isColdNamed) = true at shown
      rw [notShown] at shown
      exact Bool.false_ne_true shown

omit wellFormed in
theorem part_mem_codes {code part : Code} (codeMem : code ∈ listing.ordinary)
    (isPart : part = code ∨ (code, part) ∈ listing.pairs) : part ∈ listing.codes := by
  rcases isPart with rfl | isPair
  · exact List.mem_append_left _ codeMem
  · exact List.mem_append_right _ (List.mem_map.mpr ⟨_, isPair, rfl⟩)

end Rows

/-- For code in address order that ends with a blank line, in which each function that mentions a
cold part has one with a name of its own, the script writes a header that finds every instruction of a recorded function
and of its cold part in exactly one range, that of the function's row.  Those of the other
functions are found in none. -/
theorem rowsAt_parseVmlinux (listing : CodeListing) (wellFormed : listing.WellFormed)
    (supp : Str) :
    ∃ file, parseVmlinux listing.disassembly.text supp = .ok file ∧
      ∀ front code back, listing.ordinary = front ++ code :: back →
        ∀ part, part = code ∨ (code, part) ∈ listing.pairs → ∀ addr ∈ part.addrs,
          rowsAt file (hexValue addr) =
            if code.block.isColdNamed then [] else [str (functionsOf front).length] := by
  obtain ⟨functions, parsed, rows, plain⟩ :=
    exists_records (wellFormed_disassembly wellFormed) supp
  have holds := @holds_dataHeader (readlines supp) functions plain
  rw [rows] at holds
  refine ⟨_, parsed, ?_⟩
  intro front code back split part isPart addr addrMem
  have spans := spans_tableRanges wellFormed (readlines supp)
  have codeMem : code ∈ listing.ordinary := by
    rw [split]
    exact List.mem_append_right _ List.mem_cons_self
  have partMem := part_mem_codes codeMem isPart
  rw [rowsAt, holds.arrays]
  cases notShown : code.block.isColdNamed with
  | false =>
      obtain ⟨range, rangeMem, ofPart, owner⟩ :=
        exists_range wellFormed split notShown isPart (readlines supp)
      rw [ownersAt_of_apart (apart_of_spans wellFormed shown_sublist spans) rangeMem
        (has_of_spans wellFormed partMem ofPart addrMem), owner]
      rfl
  | true =>
      apply ownersAt_eq_nil
      intro range rangeMem
      obtain ⟨other, otherMem, ofOther⟩ := aligned_exists spans rangeMem
      apply not_has_of_spans wellFormed partMem (shown_sublist.subset otherMem) _ ofOther addrMem
      rintro rfl
      exact not_mem_shown wellFormed codeMem notShown isPart otherMem

/-- A function that saves a register and jumps to its cold part, and another one. -/
def fooAndBar : CodeListing where
  preamble := [['\n']]
  ordinary :=
    [⟨"ff00".toList, "foo".toList,
        [⟨"ff00".toList, '\t', "55 \tpush   %rbp\n".toList⟩,
          ⟨"ff01".toList, '\t', "53 \tpush   %rbx\n".toList⟩,
          ⟨"ff02".toList, '\t', "eb \tjmp    ff20 <foo.cold>\n".toList⟩]⟩,
      ⟨"ff10".toList, "bar".toList, [⟨"ff10".toList, '\t', "c3 \tretq\n".toList⟩]⟩]
  pairs :=
    [(⟨"ff00".toList, "foo".toList,
        [⟨"ff00".toList, '\t', "55 \tpush   %rbp\n".toList⟩,
          ⟨"ff01".toList, '\t', "53 \tpush   %rbx\n".toList⟩,
          ⟨"ff02".toList, '\t', "eb \tjmp    ff20 <foo.cold>\n".toList⟩]⟩,
      ⟨"ff20".toList, "foo.cold".toList, [⟨"ff20".toList, '\t', "c3 \tretq\n".toList⟩]⟩)]

theorem wellFormed_fooAndBar : fooAndBar.WellFormed where
  noHeader := by decide
  preambleLines := by decide
  codes := by decide +kernel
  bodyLines := by decide +kernel
  notCold := by decide +kernel
  owners := by decide +kernel
  named := by decide +kernel
  distinct := by decide +kernel
  inside := by decide +kernel
  across := by decide +kernel

theorem rowsAt_parseVmlinux_fooAndBar :
    ∃ file, parseVmlinux fooAndBar.disassembly.text [] = .ok file ∧
      rowsAt file 0xff01 = [['0']] ∧ rowsAt file 0xff20 = [['0']] ∧ rowsAt file 0xff10 = [['1']] := by
  obtain ⟨file, parsed, found⟩ := rowsAt_parseVmlinux fooAndBar wellFormed_fooAndBar []
  refine ⟨file, parsed, ?_, ?_, ?_⟩
  · exact found [] _ _ rfl _ (Or.inl rfl) "ff01".toList (by decide)
  · exact found [] _ _ rfl _ (Or.inr (List.mem_singleton_self _)) "ff20".toList (by decide)
  · exact found [fooAndBar.ordinary[0]] _ _ rfl _ (Or.inl rfl) "ff10".toList (by decide)

end Hecaton.Scripts
