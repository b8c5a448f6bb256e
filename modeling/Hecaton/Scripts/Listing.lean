import Hecaton.Scripts.Boundaries

/-!
# Listings made of blocks

A disassembly is made of blocks: a header line, lines with something on them, and a
blank line.  The scan records each block that is no cold part and whose last line is
no ellipsis.
-/

namespace Hecaton.Scripts

open Hecaton.Library

/-- A block: the address and the name in its header line, and its other lines. -/
structure Block where
  addr : Str
  name : Str
  body : List Str
  deriving DecidableEq

namespace Block

/-- The name as the header has it. -/
def bracketed (b : Block) : Str := '<' :: (b.name ++ ['>', ':'])

/-- The header line. -/
def header (b : Block) : Str := b.addr ++ ' ' :: (b.bracketed ++ ['\n'])

def lines (b : Block) : List Str := b.header :: b.body

/-- The lines of a block and the blank line that closes it. -/
def closedLines (b : Block) : List Str := b.lines ++ [['\n']]

def lastLine (b : Block) : Str := b.body.getLastD b.header

/-- The first word of the last line without trailing colons. -/
def endWord (b : Block) : Str := rstripChar ':' ((split b.lastLine).headD [])

/-- Some line after the header contains `.cold`. -/
def mentionsCold (b : Block) : Bool := b.body.any hasColdText

/-- The name contains `cold`. -/
def isColdNamed (b : Block) : Bool := isColdName b.name

/-- The scan lists the block. -/
def isListed (b : Block) : Bool := !b.isColdNamed && b.endWord != ellipsis

/-- The record of a block whose header is the line at index `i`. -/
def record (b : Block) (i : Nat) : FuncClass where
  name := b.name
  baseAddr := b.addr
  baseLine := i
  endAddr := b.endWord
  endLine := i + b.body.length
  hasCold := b.mentionsCold

/-- The header is one line with two words, and every other line has a word and is no
header. -/
structure WellFormed (b : Block) : Prop where
  addr : IsWord b.addr
  name : ∀ c ∈ b.name, isSpace c = false
  body : ∀ line ∈ b.body, split line ≠ [] ∧ isHeader line = false

instance (b : Block) : Decidable b.WellFormed :=
  decidable_of_iff
    (IsWord b.addr ∧ (∀ c ∈ b.name, isSpace c = false) ∧
      ∀ line ∈ b.body, split line ≠ [] ∧ isHeader line = false)
    ⟨fun ⟨addr, name, body⟩ => ⟨addr, name, body⟩, fun ⟨addr, name, body⟩ => ⟨addr, name, body⟩⟩

end Block

/-- The records of the listed blocks, the first of which begins at index `i`. -/
def recordsFrom (i : Nat) : List Block → List FuncClass
  | [] => []
  | b :: rest =>
      let records := recordsFrom (i + b.body.length + 2) rest
      if b.isListed then b.record i :: records else records

/-! ## The lines of a block -/

theorem split_blank : split ['\n'] = [] := by decide

theorem bareName_bracketed (b : Block) : bareName b.bracketed = b.name := by
  have length : b.bracketed.length - 2 = b.name.length + 1 := by simp [Block.bracketed]
  rw [bareName, length, Block.bracketed, List.take_succ_cons, List.drop_succ_cons, List.drop_zero,
    List.take_left']
  rfl

namespace Block

variable {b : Block} (wellFormed : b.WellFormed)

include wellFormed

theorem split_header : split b.header = [b.addr, b.bracketed] := by
  have noSpace : ∀ c ∈ b.bracketed, isSpace c = false := by
    intro c cMem
    rcases List.mem_cons.mp cMem with rfl | inRest
    · decide
    · rcases List.mem_append.mp inRest with inName | inEnd
      · exact wellFormed.name c inName
      · have closing : ∀ c ∈ ['>', ':'], isSpace c = false := by decide
        exact closing c inEnd
  have nonempty : b.bracketed ≠ [] := List.cons_ne_nil _ _
  rw [Block.header, split_word_append wellFormed.addr _ (by decide),
    split_word_append ⟨nonempty, noSpace⟩ _ (by decide), split, words_nil]

omit wellFormed in
theorem isHeader_header (b : Block) : isHeader b.header = true := by
  apply contains_of_infix
  refine ⟨b.addr ++ ' ' :: '<' :: b.name, ['\n'], ?_⟩
  simp [Block.header, Block.bracketed]

theorem ne_blank {line : Str} (isLine : line ∈ b.lines) : line ≠ ['\n'] := by
  rcases List.mem_cons.mp isLine with rfl | inBody
  · intro blank
    have words := split_header wellFormed
    rw [blank, split_blank] at words
    cases words
  · rintro rfl
    exact (wellFormed.body _ inBody).1 split_blank

theorem firstWord_lastLine : firstWord b.lastLine = .ok b.endWord := by
  have hasWord : split b.lastLine ≠ [] := by
    rw [Block.lastLine]
    rcases List.eq_nil_or_concat b.body with empty | ⟨front, last, body⟩
    · rw [empty, List.getLastD_nil, split_header wellFormed]
      simp
    · have isLast : last ∈ b.body := by simp [body]
      rw [body]
      simpa using (wellFormed.body last isLast).1
  obtain ⟨word, rest, words⟩ := List.exists_cons_of_ne_nil hasWord
  rw [firstWord, Block.endWord, words]
  rfl

end Block

/-! ## The inner loop -/

/-- The inner loop reads a body up to the blank line. -/
theorem scanFunction_closed {body : List Str} (noBlank : ∀ line ∈ body, line ≠ ['\n'])
    (func : FuncClass) (endAddr : Option Str) (previous : Str) (i : Nat) (more : List Str)
    {word : Str} (isEnd : firstWord (body.getLastD previous) = .ok word) :
    scanFunction func endAddr previous i (body ++ ['\n'] :: more) =
      .ok ⟨{ func with
              hasCold := func.hasCold || body.any hasColdText
              endLine := i + body.length - 1 },
            some word, i + body.length + 1, more⟩ := by
  induction body generalizing func previous i with
  | nil =>
      have noCold : hasColdText ['\n'] = false := by decide
      rw [List.getLastD_nil] at isEnd
      simp [scanFunction, noCold, isEnd, bind, Except.bind, pure, Except.pure]
  | cons line rest ih =>
      have restNoBlank : ∀ other ∈ rest, other ≠ ['\n'] :=
        fun other otherMem => noBlank other (List.mem_cons_of_mem _ otherMem)
      rw [List.getLastD_cons] at isEnd
      rw [List.cons_append, scanFunction, if_neg (noBlank line List.mem_cons_self)]
      rw [ih restNoBlank _ line (i + 1) isEnd]
      have indices : i + 1 + rest.length = i + (rest.length + 1) := by omega
      cases cold : hasColdText line <;> simp [cold, indices]

/-- Without a blank line the inner loop reads to the end of the file, and leaves the
index of the last line and the address as they are. -/
theorem scanFunction_open {body : List Str} (noBlank : ∀ line ∈ body, line ≠ ['\n'])
    (func : FuncClass) (endAddr : Option Str) (previous : Str) (i : Nat) :
    scanFunction func endAddr previous i body =
      .ok ⟨{ func with
              hasCold := func.hasCold || body.any hasColdText },
            endAddr, i + body.length, []⟩ := by
  induction body generalizing func previous i with
  | nil => simp [scanFunction]
  | cons line rest ih =>
      have restNoBlank : ∀ other ∈ rest, other ≠ ['\n'] :=
        fun other otherMem => noBlank other (List.mem_cons_of_mem _ otherMem)
      rw [scanFunction, if_neg (noBlank line List.mem_cons_self), ih restNoBlank _ line (i + 1)]
      have indices : i + 1 + rest.length = i + (rest.length + 1) := by omega
      cases cold : hasColdText line <;> simp [cold, indices]

/-! ## The outer loop -/

theorem scanFunction_shrinks {func : FuncClass} {endAddr : Option Str} {previous : Str} {i : Nat}
    {lines : List Str} {found : FunctionScan}
    (scanned : scanFunction func endAddr previous i lines = .ok found) :
    found.rest.length ≤ lines.length := by
  induction lines generalizing func previous i with
  | nil =>
      cases scanned
      exact Nat.le_refl _
  | cons line rest ih =>
      rw [scanFunction] at scanned
      split at scanned
      · cases word : firstWord previous with
        | error error => simp [word, bind, Except.bind] at scanned
        | ok word' =>
            simp only [word, bind, Except.bind, pure, Except.pure, Except.ok.injEq] at scanned
            subst scanned
            exact Nat.le_succ _
      · exact Nat.le_succ_of_le (ih scanned)

theorem scanLine_shrinks {line : Str} {i : Nat} {rest : List Str} {scan scan' : Scan}
    (scanned : scanLine line i rest scan = .ok scan') : scan'.rest.length ≤ rest.length := by
  rw [scanLine] at scanned
  split at scanned
  · simp only [bind, Except.bind] at scanned
    split at scanned
    · cases scanned
    · split at scanned
      · cases scanned
      · split at scanned
        · cases scanned
          exact Nat.le_refl _
        · split at scanned
          · cases scanned
          · rename_i found isFound
            split at scanned
            · cases scanned
            · cases scanned
              exact scanFunction_shrinks isFound
  · cases scanned
    exact Nat.le_refl _

/-- As many rounds as lines are enough. -/
theorem scanLoop_enough {rounds more : Nat} {scan : Scan} (enough : scan.rest.length ≤ rounds)
    (also : scan.rest.length ≤ more) : scanLoop rounds scan = scanLoop more scan := by
  induction rounds generalizing more scan with
  | zero =>
      have noLines : scan.rest = [] := List.length_eq_zero_iff.mp (Nat.le_zero.mp enough)
      cases more with
      | zero => rfl
      | succ more => simp [scanLoop, noLines]
  | succ rounds ih =>
      cases lines : scan.rest with
      | nil =>
          cases more with
          | zero => simp [scanLoop, lines]
          | succ more => simp [scanLoop, lines]
      | cons line rest =>
          rw [lines, List.length_cons] at enough also
          cases more with
          | zero => exact absurd also (Nat.not_succ_le_zero _)
          | succ more =>
              simp only [scanLoop, lines]
              cases scanned : scanLine line scan.next rest scan with
              | error error => rfl
              | ok scan' =>
                  have shorter := scanLine_shrinks scanned
                  exact ih (Nat.le_trans shorter (Nat.le_of_succ_le_succ enough))
                    (Nat.le_trans shorter (Nat.le_of_succ_le_succ also))

/-- The outer loop to its end. -/
def scanAll (scan : Scan) : Except PyError Scan := scanLoop scan.rest.length scan

theorem scanAll_nil {scan : Scan} (noLines : scan.rest = []) : scanAll scan = .ok scan := by
  rw [scanAll, noLines, List.length_nil, scanLoop]

theorem scanAll_cons {scan scan' : Scan} {line : Str} {rest : List Str}
    (lines : scan.rest = line :: rest) (scanned : scanLine line scan.next rest scan = .ok scan') :
    scanAll scan = scanAll scan' := by
  rw [scanAll, lines, List.length_cons, scanLoop, lines]
  simp only [scanned, bind, Except.bind]
  exact scanLoop_enough (scanLine_shrinks scanned) (Nat.le_refl _)

theorem findBoundaries_eq (lines : List Str) :
    findBoundaries lines = (scanAll ⟨0, lines, none, []⟩).map Scan.functions := by
  rw [findBoundaries, scanAll]
  cases scanLoop lines.length ⟨0, lines, none, []⟩ <;> rfl

/-- Lines that are no header are passed over. -/
theorem scanAll_skip {skipped : List Str} (noHeader : ∀ line ∈ skipped, isHeader line = false)
    (next : Nat) (more : List Str) (endAddr : Option Str) (functions : List FuncClass) :
    scanAll ⟨next, skipped ++ more, endAddr, functions⟩ =
      scanAll ⟨next + skipped.length, more, endAddr, functions⟩ := by
  induction skipped generalizing next with
  | nil => rfl
  | cons line rest ih =>
      have restNoHeader : ∀ other ∈ rest, isHeader other = false :=
        fun other otherMem => noHeader other (List.mem_cons_of_mem _ otherMem)
      have scanned : scanLine line next (rest ++ more) ⟨next, line :: (rest ++ more), endAddr,
          functions⟩ = .ok ⟨next + 1, rest ++ more, endAddr, functions⟩ := by
        simp [scanLine, noHeader line List.mem_cons_self, pure, Except.pure]
      rw [List.cons_append, scanAll_cons rfl scanned, ih restNoHeader]
      congr 2
      simp
      omega

/-- What the shared `end_addr` holds after some blocks. -/
def endAddrAfter (endAddr : Option Str) : List Block → Option Str
  | [] => endAddr
  | b :: rest => endAddrAfter (if b.isColdNamed then endAddr else some b.endWord) rest

theorem noHeader_of_body {b : Block} (wellFormed : b.WellFormed) :
    ∀ line ∈ b.body ++ [['\n']], isHeader line = false := by
  intro line lineMem
  rcases List.mem_append.mp lineMem with inBody | isBlank
  · exact (wellFormed.body line inBody).2
  · rw [List.mem_singleton.mp isBlank]
    decide

/-- A header line of a cold part is passed over. -/
theorem scanLine_cold {b : Block} (wellFormed : b.WellFormed) (cold : b.isColdNamed = true)
    (i : Nat) (rest : List Str) (scan : Scan) :
    scanLine b.header i rest scan = .ok { scan with next := i + 1, rest } := by
  rw [Block.isColdNamed] at cold
  simp [scanLine, Block.isHeader_header, Block.split_header wellFormed, index, bind, Except.bind,
    pure, Except.pure, cold, bareName_bracketed]

/-- The header line of another block begins a function. -/
theorem scanLine_function {b : Block} (wellFormed : b.WellFormed) (notCold : b.isColdNamed = false)
    (i : Nat) (rest : List Str) (scan : Scan) :
    scanLine b.header i rest scan =
      (scanFunction { name := b.name, baseAddr := b.addr, baseLine := i } scan.endAddr b.header
        (i + 1) rest).bind fun found =>
          match found.endAddr with
          | none => .error .nameError
          | some endAddr =>
              .ok {
                next := found.next
                rest := found.rest
                endAddr := some endAddr
                functions :=
                  if endAddr = ellipsis then scan.functions
                  else scan.functions ++ [{ found.func with endAddr }] } := by
  rw [Block.isColdNamed] at notCold
  have unfolded := scanLine.eq_1 b.header i rest scan
  simp only [Block.isHeader_header, if_true, Block.split_header wellFormed, index, bind,
    Except.bind, pure, Except.pure, notCold, bareName_bracketed, List.getElem?_cons_zero,
    List.getElem?_cons_succ, Bool.false_eq_true, if_false] at unfolded
  exact unfolded

/-- The outer loop over a closed block. -/
theorem scanAll_block {b : Block} (wellFormed : b.WellFormed) (i : Nat) (more : List Str)
    (endAddr : Option Str) (functions : List FuncClass) :
    scanAll ⟨i, b.closedLines ++ more, endAddr, functions⟩ =
      scanAll ⟨i + b.body.length + 2, more, endAddrAfter endAddr [b],
        functions ++ recordsFrom i [b]⟩ := by
  have lines : b.closedLines ++ more = b.header :: ((b.body ++ [['\n']]) ++ more) := by
    simp [Block.closedLines, Block.lines]
  rw [lines]
  cases cold : b.isColdNamed with
  | true =>
      rw [scanAll_cons rfl (scanLine_cold wellFormed cold _ _ _),
        scanAll_skip (noHeader_of_body wellFormed)]
      have indices : i + 1 + (b.body ++ [['\n']]).length = i + b.body.length + 2 := by
        simp
        omega
      rw [indices]
      simp [endAddrAfter, recordsFrom, Block.isListed, cold]
  | false =>
      have noBlank : ∀ line ∈ b.body, line ≠ ['\n'] :=
        fun line lineMem => Block.ne_blank wellFormed (List.mem_cons_of_mem _ lineMem)
      have isEnd : firstWord (b.body.getLastD b.header) = .ok b.endWord :=
        Block.firstWord_lastLine wellFormed
      have scanned := scanLine_function wellFormed cold i ((b.body ++ [['\n']]) ++ more)
        ⟨i, b.header :: ((b.body ++ [['\n']]) ++ more), endAddr, functions⟩
      rw [List.append_assoc, List.singleton_append] at scanned ⊢
      rw [scanFunction_closed noBlank _ _ _ _ _ isEnd] at scanned
      rw [scanAll_cons rfl scanned]
      have indices : i + 1 + b.body.length + 1 = i + b.body.length + 2 := by omega
      have lastIndex : i + 1 + b.body.length - 1 = i + b.body.length := by omega
      by_cases isEllipsis : b.endWord = ellipsis
      · simp [indices, endAddrAfter, recordsFrom, Block.isListed, cold, isEllipsis]
      · simp [indices, lastIndex, endAddrAfter, recordsFrom, Block.isListed, cold, isEllipsis,
          Block.record, Block.mentionsCold]

theorem recordsFrom_cons (i : Nat) (b : Block) (rest : List Block) :
    recordsFrom i (b :: rest) = recordsFrom i [b] ++ recordsFrom (i + b.body.length + 2) rest := by
  rw [recordsFrom, recordsFrom]
  split
  · rfl
  · rfl

/-- The outer loop over closed blocks. -/
theorem scanAll_blocks {blocks : List Block} (wellFormed : ∀ b ∈ blocks, b.WellFormed) (i : Nat)
    (more : List Str) (endAddr : Option Str) (functions : List FuncClass) :
    scanAll ⟨i, blocks.flatMap Block.closedLines ++ more, endAddr, functions⟩ =
      scanAll ⟨i + (blocks.flatMap Block.closedLines).length, more, endAddrAfter endAddr blocks,
        functions ++ recordsFrom i blocks⟩ := by
  induction blocks generalizing i endAddr functions with
  | nil => simp [endAddrAfter, recordsFrom]
  | cons b rest ih =>
      have restWellFormed : ∀ other ∈ rest, other.WellFormed :=
        fun other otherMem => wellFormed other (List.mem_cons_of_mem _ otherMem)
      rw [List.flatMap_cons, List.append_assoc, scanAll_block (wellFormed b List.mem_cons_self),
        ih restWellFormed, recordsFrom_cons i b rest, List.append_assoc]
      have indices : i + b.body.length + 2 + (rest.flatMap Block.closedLines).length =
          i + (b.closedLines ++ rest.flatMap Block.closedLines).length := by
        simp [Block.closedLines, Block.lines]
        omega
      rw [indices]
      rfl

/-- The scan finds exactly the listed blocks, in order. -/
theorem findBoundaries_blocks {preamble : List Str}
    (noHeader : ∀ line ∈ preamble, isHeader line = false) {blocks : List Block}
    (wellFormed : ∀ b ∈ blocks, b.WellFormed) :
    findBoundaries (preamble ++ blocks.flatMap Block.closedLines) =
      .ok (recordsFrom preamble.length blocks) := by
  rw [findBoundaries_eq, scanAll_skip noHeader]
  have all := scanAll_blocks wellFormed (0 + preamble.length) [] none []
  rw [List.append_nil] at all
  rw [all, scanAll_nil rfl, Nat.zero_add]
  rfl

/-- A function that jumps to its cold part, a block that ends with an ellipsis, and
the cold part. -/
def sampleBlocks : List Block :=
  [⟨"ff00".toList, "foo".toList,
      ["ff00:\t55 \tpush   %rbp\n".toList, "ff01:\teb \tjmp    ff0a <foo.cold>\n".toList]⟩,
    ⟨"ff03".toList, "gap".toList, ["\t...\n".toList]⟩,
    ⟨"ff0a".toList, "foo.cold".toList, ["ff0a:\tc3 \tretq\n".toList]⟩]

theorem findBoundaries_sampleBlocks :
    findBoundaries ([['\n']] ++ sampleBlocks.flatMap Block.closedLines) =
      .ok (recordsFrom 1 sampleBlocks) := by
  apply findBoundaries_blocks
  · decide
  · decide +kernel

end Hecaton.Scripts
