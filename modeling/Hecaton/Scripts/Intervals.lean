import Hecaton.Library.Aligned
import Hecaton.Scripts.Listing

/-!
# The table of address intervals

In a listing in increasing address order the recorded begin and end addresses are
intervals that do not meet.  The end of the last function is read at the blank line
that closes it; without one the script takes over the end of the function before.
-/

namespace Hecaton.Scripts

open Hecaton.Library

/-! ## Addresses -/

def isHexDigit (c : Char) : Bool := ('0' ≤ c && c ≤ '9') || ('a' ≤ c && c ≤ 'f')

def hexDigit (c : Char) : Nat := if c ≤ '9' then c.toNat - '0'.toNat else c.toNat - 'a'.toNat + 10

/-- The value of an address. -/
def hexValue (s : Str) : Nat := s.foldl (fun n c => 16 * n + hexDigit c) 0

/-- The text of an address. -/
def IsHex (s : Str) : Prop := s ≠ [] ∧ ∀ c ∈ s, isHexDigit c = true

instance (s : Str) : Decidable (IsHex s) := inferInstanceAs (Decidable (_ ∧ _))

/-- A line with an instruction: its address, a colon, white space and the rest. -/
structure Instruction where
  addr : Str
  space : Char
  text : Str
  deriving DecidableEq

def Instruction.line (instruction : Instruction) : Str :=
  instruction.addr ++ [':'] ++ instruction.space :: instruction.text

/-- A block whose lines after the header are instructions. -/
structure Code where
  addr : Str
  name : Str
  instructions : List Instruction
  deriving DecidableEq

namespace Code

def block (code : Code) : Block := ⟨code.addr, code.name, code.instructions.map Instruction.line⟩

/-- The addresses of the lines of a block. -/
def addrs (code : Code) : List Str := code.addr :: code.instructions.map Instruction.addr

/-- The addresses are hexadecimal, and no instruction looks like a header. -/
structure WellFormed (code : Code) : Prop where
  addr : IsHex code.addr
  name : ∀ c ∈ code.name, isSpace c = false
  instructions : ∀ instruction ∈ code.instructions,
    IsHex instruction.addr ∧ isSpace instruction.space = true ∧ isHeader instruction.line = false

instance (code : Code) : Decidable code.WellFormed :=
  decidable_of_iff
    (IsHex code.addr ∧ (∀ c ∈ code.name, isSpace c = false) ∧
      ∀ instruction ∈ code.instructions, IsHex instruction.addr ∧
        isSpace instruction.space = true ∧ isHeader instruction.line = false)
    ⟨fun ⟨addr, name, instructions⟩ => ⟨addr, name, instructions⟩,
      fun ⟨addr, name, instructions⟩ => ⟨addr, name, instructions⟩⟩

end Code

/-- The lines of blocks separated by blank lines; a blank line closes the last one or
the file ends with it. -/
def listing (front : List Code) (last : Code) (closed : Bool) : List Str :=
  front.flatMap (fun code => code.block.closedLines) ++
    (last.block.lines ++ if closed then [['\n']] else [])

/-- The addresses increase: no line of a block stands below its header, and every
line stands below the headers of later blocks. -/
structure Increasing (codes : List Code) : Prop where
  inside : ∀ code ∈ codes, ∀ addr ∈ code.addrs, hexValue code.addr ≤ hexValue addr
  across : codes.Pairwise fun code later => ∀ addr ∈ code.addrs, hexValue addr < hexValue later.addr

/-- The blocks that are no cold parts. -/
def functionsOf (codes : List Code) : List Code := codes.filter fun code => !code.block.isColdNamed

/-- The table has one interval for each block, from its address to the address of one
of its lines, and each interval ends below those after it. -/
def ValidIntervals (functions : List FuncClass) (codes : List Code) : Prop :=
  List.Forall₂ (fun f code => f.baseAddr = code.addr ∧ f.endAddr ∈ code.addrs ∧
      hexValue f.baseAddr ≤ hexValue f.endAddr) functions codes ∧
    functions.Pairwise fun f g => hexValue f.endAddr < hexValue g.baseAddr

/-! ## The addresses of a block -/

theorem ne_colon_of_isHexDigit {c : Char} (digit : isHexDigit c = true) : (c == ':') = false := by
  by_contra same
  have isColon : c = ':' := by simpa using same
  rw [isColon] at digit
  revert digit
  decide

theorem isSpace_of_isHexDigit {c : Char} (digit : isHexDigit c = true) : isSpace c = false := by
  rw [isHexDigit, Bool.or_eq_true, Bool.and_eq_true, Bool.and_eq_true] at digit
  simp only [decide_eq_true_eq, Char.le_def, UInt32.le_iff_toNat_le] at digit
  have range : 48 ≤ c.toNat ∧ c.toNat ≤ 57 ∨ 97 ≤ c.toNat ∧ c.toNat ≤ 102 := digit
  simp only [isSpace, Bool.or_eq_false_iff, Bool.and_eq_false_iff, decide_eq_false_iff_not,
    beq_eq_false_iff_ne]
  omega

theorem IsHex.isWord {s : Str} (isHex : IsHex s) : IsWord s :=
  ⟨isHex.1, fun c cMem => isSpace_of_isHexDigit (isHex.2 c cMem)⟩

theorem IsHex.rstripChar {s : Str} (isHex : IsHex s) : rstripChar ':' s = s :=
  rdropWhile_of_none fun c cMem => ne_colon_of_isHexDigit (isHex.2 c cMem)

theorem IsHex.ne_ellipsis {s : Str} (isHex : IsHex s) : s ≠ ellipsis := by
  rintro rfl
  have dots : ¬ IsHex ellipsis := by decide
  exact dots isHex

theorem split_line {instruction : Instruction} (isHex : IsHex instruction.addr)
    (space : isSpace instruction.space = true) :
    split instruction.line = (instruction.addr ++ [':']) :: split instruction.text := by
  apply split_word_append _ _ space
  constructor
  · simp
  · intro c cMem
    rcases List.mem_append.mp cMem with inAddr | isColon
    · exact isSpace_of_isHexDigit (isHex.2 c inAddr)
    · rw [List.mem_singleton.mp isColon]
      decide

namespace Code

variable {code : Code} (wellFormed : code.WellFormed)

include wellFormed

theorem block_wellFormed : code.block.WellFormed where
  addr := wellFormed.addr.isWord
  name := wellFormed.name
  body := by
    intro line lineMem
    obtain ⟨instruction, instructionMem, rfl⟩ := List.mem_map.mp lineMem
    obtain ⟨isHex, space, noHeader⟩ := wellFormed.instructions instruction instructionMem
    refine ⟨?_, noHeader⟩
    rw [split_line isHex space]
    simp

/-- The last line is one of the block's, and its first word is its address. -/
theorem endWord_spec : code.block.endWord ∈ code.addrs ∧ code.block.endWord ≠ ellipsis := by
  rcases List.eq_nil_or_concat code.instructions with empty | ⟨front, last, isConcat⟩
  · have isLast : code.block.lastLine = code.block.header := by
      simp [Block.lastLine, Code.block, empty]
    have endWord : code.block.endWord = code.addr := by
      rw [Block.endWord, isLast, Block.split_header (block_wellFormed wellFormed)]
      exact wellFormed.addr.rstripChar
    rw [endWord]
    exact ⟨List.mem_cons_self, wellFormed.addr.ne_ellipsis⟩
  · have lastMem : last ∈ code.instructions := by simp [isConcat]
    obtain ⟨isHex, space, _⟩ := wellFormed.instructions last lastMem
    have isLast : code.block.lastLine = last.line := by
      simp [Block.lastLine, Code.block, isConcat]
    have endWord : code.block.endWord = last.addr := by
      rw [Block.endWord, isLast, split_line isHex space, List.headD_cons]
      have colon : ∀ c ∈ [':'], (c == ':') = true := by decide
      rw [Hecaton.Scripts.rstripChar, rdropWhile_append_of_all _ colon]
      exact isHex.rstripChar
    rw [endWord]
    exact ⟨List.mem_cons_of_mem _ (List.mem_map_of_mem lastMem), isHex.ne_ellipsis⟩

theorem isListed_block : code.block.isListed = !code.block.isColdNamed := by
  simp [Block.isListed, (endWord_spec wellFormed).2]

end Code

/-! ## The table -/

theorem forall₂_recordsFrom {codes : List Code} (wellFormed : ∀ code ∈ codes, code.WellFormed)
    (i : Nat) :
    List.Forall₂ (fun f code => f.baseAddr = code.addr ∧ f.endAddr = code.block.endWord)
      (recordsFrom i (codes.map Code.block)) (functionsOf codes) := by
  induction codes generalizing i with
  | nil => exact List.Forall₂.nil
  | cons code rest ih =>
      have ih := ih fun other otherMem => wellFormed other (List.mem_cons_of_mem _ otherMem)
      rw [List.map_cons, recordsFrom, Code.isListed_block (wellFormed code List.mem_cons_self)]
      cases cold : code.block.isColdNamed with
      | true => simpa [functionsOf, cold] using ih _
      | false =>
          have head : functionsOf (code :: rest) = code :: functionsOf rest := by
            simp [functionsOf, cold]
          rw [head]
          exact List.Forall₂.cons ⟨rfl, rfl⟩ (ih _)

/-- The table of closed blocks is valid. -/
theorem validIntervals_recordsFrom {codes : List Code}
    (wellFormed : ∀ code ∈ codes, code.WellFormed) (increasing : Increasing codes) (i : Nat) :
    ValidIntervals (recordsFrom i (codes.map Code.block)) (functionsOf codes) := by
  have records := forall₂_recordsFrom wellFormed i
  have isCode : ∀ code ∈ functionsOf codes, code ∈ codes :=
    fun code codeMem => List.mem_of_mem_filter codeMem
  constructor
  · apply aligned_imp_of_mem records
    rintro f code codeMem ⟨baseAddr, endAddr⟩
    obtain ⟨isLine, _⟩ := Code.endWord_spec (wellFormed code (isCode code codeMem))
    rw [baseAddr, endAddr]
    exact ⟨rfl, isLine, increasing.inside code (isCode code codeMem) _ isLine⟩
  · have ordered : (functionsOf codes).Pairwise fun code later =>
        hexValue code.block.endWord < hexValue later.addr := by
      have across := increasing.across.filter fun code => !code.block.isColdNamed
      apply across.imp_of_mem
      intro code later codeMem _ below
      exact below _ (Code.endWord_spec (wellFormed code (isCode code codeMem))).1
    apply aligned_pairwise records ordered
    rintro f code ⟨_, endAddr⟩ g later ⟨baseAddr, _⟩ below
    rw [endAddr, baseAddr]
    exact below

/-- The shared address is an earlier one or the end of a block. -/
theorem endAddrAfter_cases {codes : List Code} {initial : Option Str} {word : Str}
    (after : endAddrAfter initial (codes.map Code.block) = some word) :
    initial = some word ∨ ∃ code ∈ codes, word = code.block.endWord := by
  induction codes generalizing initial with
  | nil => exact Or.inl after
  | cons code rest ih =>
      rw [List.map_cons, endAddrAfter] at after
      rcases ih after with own | ⟨other, otherMem, isEnd⟩
      · split at own
        · exact Or.inl own
        · cases own
          exact Or.inr ⟨code, List.mem_cons_self, rfl⟩
      · exact Or.inr ⟨other, List.mem_cons_of_mem _ otherMem, isEnd⟩

/-- The outer loop over a last function without a blank line. -/
theorem scanAll_open {b : Block} (wellFormed : b.WellFormed) (notCold : b.isColdNamed = false)
    (i : Nat) (endAddr : Option Str) (functions : List FuncClass) :
    (scanAll ⟨i, b.lines, endAddr, functions⟩).map Scan.functions =
      match endAddr with
      | none => .error .nameError
      | some endAddr =>
          .ok (if endAddr = ellipsis then functions
            else functions ++ [{ b.record i with endAddr, endLine := 0 }]) := by
  have noBlank : ∀ line ∈ b.body, line ≠ ['\n'] :=
    fun line lineMem => Block.ne_blank wellFormed (List.mem_cons_of_mem _ lineMem)
  have scanned := scanLine_function wellFormed notCold i b.body
    ⟨i, b.header :: b.body, endAddr, functions⟩
  rw [scanFunction_open noBlank] at scanned
  cases endAddr with
  | none =>
      have stopped : scanAll ⟨i, b.lines, none, functions⟩ = .error .nameError := by
        rw [scanAll, Block.lines, List.length_cons, scanLoop]
        simp only [scanned, Except.bind, bind]
      rw [stopped]
      rfl
  | some word =>
      rw [Block.lines, scanAll_cons rfl scanned, scanAll_nil rfl]
      simp [Except.map, Block.record, Block.mentionsCold]

section Table

variable {preamble : List Str} (noHeader : ∀ line ∈ preamble, isHeader line = false)
  {front : List Code} {last : Code} (wellFormed : ∀ code ∈ front ++ [last], code.WellFormed)

include wellFormed in
theorem block_wellFormed_of_mem :
    ∀ b ∈ (front ++ [last]).map Code.block, b.WellFormed := by
  intro b bMem
  obtain ⟨code, codeMem, rfl⟩ := List.mem_map.mp bMem
  exact Code.block_wellFormed (wellFormed code codeMem)

include noHeader wellFormed

/-- With a blank line behind the last block all blocks that are no cold parts are
recorded. -/
theorem findBoundaries_closed :
    findBoundaries (preamble ++ listing front last true) =
      .ok (recordsFrom preamble.length ((front ++ [last]).map Code.block)) := by
  have lines : listing front last true =
      ((front ++ [last]).map Code.block).flatMap Block.closedLines := by
    simp [listing, Block.closedLines, List.flatMap_map]
  rw [lines]
  exact findBoundaries_blocks noHeader (block_wellFormed_of_mem wellFormed)

/-- Without one the outer loop reaches the last block. -/
theorem findBoundaries_open :
    ∃ i, findBoundaries (preamble ++ listing front last false) =
      (scanAll ⟨i, last.block.lines, endAddrAfter none (front.map Code.block),
        recordsFrom preamble.length (front.map Code.block)⟩).map Scan.functions := by
  have frontWellFormed : ∀ b ∈ front.map Code.block, b.WellFormed := by
    intro b bMem
    apply block_wellFormed_of_mem wellFormed b
    rw [List.map_append]
    exact List.mem_append_left _ bMem
  have lines : listing front last false =
      (front.map Code.block).flatMap Block.closedLines ++ last.block.lines := by
    simp [listing, List.flatMap_map]
  rw [lines, findBoundaries_eq, scanAll_skip noHeader, scanAll_blocks frontWellFormed,
    Nat.zero_add, List.nil_append]
  exact ⟨_, rfl⟩

/-- The table is valid exactly when a blank line closes the last block or the last
block is a cold part. -/
theorem findBoundaries_valid_iff (increasing : Increasing (front ++ [last])) (closed : Bool) :
    (∃ functions, findBoundaries (preamble ++ listing front last closed) = .ok functions ∧
      ValidIntervals functions (functionsOf (front ++ [last]))) ↔
      closed = true ∨ last.block.isColdNamed = true := by
  have lastMem : last ∈ front ++ [last] := List.mem_append_right _ List.mem_cons_self
  have frontMem : ∀ code ∈ front, code ∈ front ++ [last] :=
    fun code codeMem => List.mem_append_left _ codeMem
  have across := List.pairwise_append.mp increasing.across
  cases closed with
  | true =>
      constructor
      · intro _
        exact Or.inl rfl
      · intro _
        exact ⟨_, findBoundaries_closed noHeader wellFormed,
          validIntervals_recordsFrom wellFormed increasing _⟩
  | false =>
      obtain ⟨i, found⟩ := findBoundaries_open noHeader wellFormed
      have lastWellFormed := Code.block_wellFormed (wellFormed last lastMem)
      cases cold : last.block.isColdNamed with
      | true =>
          have noFunction : functionsOf (front ++ [last]) = functionsOf front := by
            simp [functionsOf, cold]
          have bodyNoHeader : ∀ line ∈ last.block.body, isHeader line = false :=
            fun line lineMem => (lastWellFormed.body line lineMem).2
          have skipped := scanAll_skip bodyNoHeader (i + 1) []
            (endAddrAfter none (front.map Code.block))
            (recordsFrom preamble.length (front.map Code.block))
          rw [List.append_nil] at skipped
          rw [Block.lines, scanAll_cons rfl (scanLine_cold lastWellFormed cold _ _ _), skipped,
            scanAll_nil rfl] at found
          have frontIncreasing : Increasing front :=
            ⟨fun code codeMem => increasing.inside code (frontMem code codeMem), across.1⟩
          have valid := validIntervals_recordsFrom
            (fun code codeMem => wellFormed code (frontMem code codeMem)) frontIncreasing
            preamble.length
          rw [← noFunction] at valid
          constructor
          · intro _
            exact Or.inr rfl
          · intro _
            exact ⟨_, found, valid⟩
      | false =>
          rw [scanAll_open lastWellFormed cold] at found
          constructor
          · rintro ⟨functions, isFound, aligned, _⟩
            -- the end of the last function is that of an earlier block, or there is none
            cases after : endAddrAfter none (front.map Code.block) with
            | none =>
                rw [found, after] at isFound
                cases isFound
            | some word =>
                rcases endAddrAfter_cases after with never | ⟨code, codeMem, isEnd⟩
                · cases never
                · obtain ⟨isLine, notEllipsis⟩ :=
                    Code.endWord_spec (wellFormed code (frontMem code codeMem))
                  rw [← isEnd] at isLine notEllipsis
                  rw [found, after] at isFound
                  simp only [notEllipsis, if_false, Except.ok.injEq] at isFound
                  have isLast : functionsOf (front ++ [last]) = functionsOf front ++ [last] := by
                    simp [functionsOf, cold]
                  have inLast : word ∈ last.addrs := by
                    rw [← isFound, isLast] at aligned
                    have reversed := List.forall₂_reverse_iff.mpr aligned
                    simp only [List.reverse_append, List.reverse_singleton,
                      List.singleton_append, List.forall₂_cons] at reversed
                    exact reversed.1.2.1
                  have below := across.2.2 code codeMem last List.mem_cons_self word isLine
                  have above := increasing.inside last lastMem word inLast
                  exact absurd below (Nat.not_lt.mpr above)
          · rintro (never | never) <;> cases never

end Table

/-- Two functions, the second of which ends with the file. -/
def sampleFront : List Code :=
  [⟨"ff00".toList, "foo".toList,
    [⟨"ff00".toList, '\t', "55 \tpush   %rbp\n".toList⟩,
      ⟨"ff01".toList, '\t', "c3 \tretq\n".toList⟩]⟩]

def sampleLast : Code :=
  ⟨"ff02".toList, "bar".toList, [⟨"ff02".toList, '\t', "c3 \tretq\n".toList⟩]⟩

theorem increasing_sample : Increasing (sampleFront ++ [sampleLast]) where
  inside := by decide +kernel
  across := by decide +kernel

theorem findBoundaries_valid_sample :
    (∃ functions, findBoundaries ([['\n']] ++ listing sampleFront sampleLast true) = .ok functions ∧
      ValidIntervals functions (functionsOf (sampleFront ++ [sampleLast]))) ↔
      true = true ∨ sampleLast.block.isColdNamed = true := by
  apply findBoundaries_valid_iff
  · decide +kernel
  · decide +kernel
  · exact increasing_sample

/-- The last function gets the end address of the one before it, which lies below its
begin address. -/
theorem findBoundaries_open_sample :
    (∀ code ∈ sampleFront ++ [sampleLast], code.WellFormed) ∧
      Increasing (sampleFront ++ [sampleLast]) ∧
      ¬ ∃ functions, findBoundaries (listing sampleFront sampleLast false) = .ok functions ∧
        ValidIntervals functions (functionsOf (sampleFront ++ [sampleLast])) := by
  refine ⟨by decide +kernel, increasing_sample, ?_⟩
  rintro ⟨functions, found, aligned, _⟩
  have isTable : findBoundaries (listing sampleFront sampleLast false) =
      .ok [
        { name := "foo".toList, baseAddr := "ff00".toList, baseLine := 0, endAddr := "ff01".toList,
          endLine := 2 },
        { name := "bar".toList, baseAddr := "ff02".toList, baseLine := 4,
          endAddr := "ff01".toList }] := by
    decide +kernel
  rw [isTable] at found
  cases found
  have isFunctions : functionsOf (sampleFront ++ [sampleLast]) = sampleFront ++ [sampleLast] := by
    decide +kernel
  rw [isFunctions] at aligned
  have belongs := (List.forall₂_cons.mp (List.forall₂_cons.mp aligned).2).1.2.1
  revert belongs
  decide +kernel

end Hecaton.Scripts
