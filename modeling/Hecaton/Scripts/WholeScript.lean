import Hecaton.Scripts.ColdParts
import Hecaton.Scripts.GreedySaves
import Hecaton.Scripts.HeaderReading

/-!
# The whole script

`parse_vmlinux.py` finds the functions, then their cold parts, then the registers that
they save, and writes what it has recorded.  Read back, the header has one row for each
listed block of the disassembly.
-/

namespace Hecaton.Scripts

open Hecaton.Library

/-! ## The script -/

/-- The loop that finds the saved registers of all functions. -/
def findAllRegisters (lines : List Str) : List FuncClass → Except PyError (List FuncClass)
  | [] => .ok []
  | f :: rest => do
      let f ← findRegisters lines f
      let rest ← findAllRegisters lines rest
      return f :: rest

/-- What the script writes for the disassembly and the list of supported functions. -/
def parseVmlinux (vmlinux supp : Str) : Except PyError Str := do
  let lines := readlines vmlinux
  let suppLines := readlines supp
  let functions ← findBoundaries lines
  let functions ← addColdParts lines functions
  let functions ← findAllRegisters lines functions
  return dataHeader suppLines functions

/-! ## The table -/

/-- A row of the table. -/
structure Row where
  beginAddr : Str
  endAddr : Str
  cold : Option (Str × Str)
  offset : Saved → Int
  supported : Int

/-- The row that is written for a record. -/
def FuncClass.row (suppLines : List Str) (f : FuncClass) : Row where
  beginAddr := f.baseAddr
  endAddr := f.endAddr
  cold := if f.hasCold then some (f.baseAddrCold, f.endAddrCold) else none
  offset := f.offset
  supported := supportedFlag suppLines f

/-- The cold parts of the rows, each with the position of its row. -/
def coldRows (rows : List Row) : List ((Str × Str) × Nat) :=
  rows.zipIdx.filterMap fun entry => entry.1.cold.map fun range => (range, entry.2)

/-- The arrays of a table. -/
def tableOf (rows : List Row) : List Declaration :=
  [ ⟨"hecaton_fnc_begin_addrs".toList, arraySize, rows.map fun row => hexText row.beginAddr⟩,
    ⟨"hecaton_fnc_end_addrs".toList, arraySize, rows.map fun row => hexText row.endAddr⟩,
    ⟨"hecaton_cold_begin_addrs".toList, coldArraySize,
      (coldRows rows).map fun entry => hexText entry.1.1⟩,
    ⟨"hecaton_cold_begin_index".toList, coldArraySize,
      (coldRows rows).map fun entry => str entry.2⟩,
    ⟨"hecaton_cold_end_addrs".toList, coldArraySize,
      (coldRows rows).map fun entry => hexText entry.1.2⟩,
    ⟨"hecaton_r15".toList, arraySize, rows.map fun row => str (row.offset .r15)⟩,
    ⟨"hecaton_r14".toList, arraySize, rows.map fun row => str (row.offset .r14)⟩,
    ⟨"hecaton_r13".toList, arraySize, rows.map fun row => str (row.offset .r13)⟩,
    ⟨"hecaton_r12".toList, arraySize, rows.map fun row => str (row.offset .r12)⟩,
    ⟨"hecaton_rbx".toList, arraySize, rows.map fun row => str (row.offset .rbx)⟩,
    ⟨"hecaton_supported".toList, arraySize, rows.map fun row => str row.supported⟩ ]

/-- The file holds the table. -/
structure Holds (file : Str) (rows : List Row) : Prop where
  arrays : readDeclarations file = tableOf rows
  size : readDefine arraySize file = some (str rows.length)
  coldSize : readDefine coldArraySize file = some (str (coldRows rows).length)

theorem coldRows_map_row (suppLines : List Str) (functions : List FuncClass) :
    coldRows (functions.map (FuncClass.row suppLines)) =
      (coldEntries functions).map fun entry =>
        ((entry.1.baseAddrCold, entry.1.endAddrCold), entry.2) := by
  rw [coldRows, coldEntries]
  generalize 0 = index
  induction functions generalizing index with
  | nil => rfl
  | cons f rest ih =>
      rw [List.map_cons, List.zipIdx_cons, List.zipIdx_cons, List.filterMap_cons, List.filter_cons]
      cases hasCold : f.hasCold with
      | false =>
          have noCold : (f.row suppLines).cold = none := by
            rw [FuncClass.row, hasCold]
            rfl
          rw [noCold]
          exact ih (index + 1)
      | true =>
          have cold : (f.row suppLines).cold = some (f.baseAddrCold, f.endAddrCold) := by
            rw [FuncClass.row, hasCold]
            rfl
          rw [cold]
          exact congrArg _ (ih (index + 1))

theorem tableDeclarations_eq (suppLines : List Str) (functions : List FuncClass) :
    tableDeclarations suppLines functions =
      tableOf (functions.map (FuncClass.row suppLines)) := by
  rw [tableDeclarations, tableOf, coldRows_map_row]
  simp only [List.map_map]
  rfl

/-- The header holds the rows of the records. -/
theorem holds_dataHeader {suppLines : List Str} {functions : List FuncClass}
    (plain : ∀ f ∈ functions, HasPlainAddrs f) :
    Holds (dataHeader suppLines functions) (functions.map (FuncClass.row suppLines)) := by
  have sizes := readDefine_headerFront functions
    ((tableTexts suppLines functions).flatten ++ "#endif\n".toList)
  rw [← dataHeader_eq] at sizes
  constructor
  · rw [dataHeader_eq, ← tableDeclarations_eq]
    exact readDeclarations_texts (isArrayText_table plain) (noMark_headerFront functions)
      (by decide) (by decide)
  · rw [List.length_map]
    exact sizes.1
  · rw [coldRows_map_row, List.length_map, sizes.2, ← coldEntries_fst, List.length_map]

/-! ## What the later loops leave -/

/-- The record without what the search for the cold part finds. -/
def FuncClass.withoutCold (f : FuncClass) : FuncClass :=
  { f with baseAddrCold := ['0'], baseLineCold := 0, endAddrCold := ['0'], endLineCold := 0 }

/-- The record without the offsets. -/
def FuncClass.withoutOffsets (f : FuncClass) : FuncClass :=
  { f with rbx := 100, r12 := 100, r13 := 100, r14 := 100, r15 := 100 }

theorem withoutCold_of_scanCold {lines : List Str} {f found : FuncClass} {previous : Str} {i : Nat}
    (scanned : scanCold f previous i lines = .ok found) :
    found.withoutCold = f.withoutCold := by
  induction lines generalizing previous i with
  | nil =>
      cases scanned
      rfl
  | cons line rest ih =>
      rw [scanCold] at scanned
      split at scanned
      · cases word : firstWord previous with
        | error error =>
            rw [word] at scanned
            cases scanned
        | ok word' =>
            rw [word] at scanned
            cases scanned
            rfl
      · exact ih scanned

theorem withoutCold_of_findCold {lines : List Str} {f found : FuncClass} {nameCold : Str} {i : Nat}
    (searched : findCold f nameCold i lines = .ok found) :
    found.withoutCold = f.withoutCold := by
  induction lines generalizing i with
  | nil =>
      cases searched
      rfl
  | cons line rest ih =>
      rw [findCold] at searched
      split at searched
      · cases name : index (split line) 1 with
        | error error =>
            simp [name, bind, Except.bind] at searched
        | ok name' =>
            cases addr : index (split line) 0 with
            | error error =>
                simp [name, addr, bind, Except.bind] at searched
            | ok addr' =>
                simp only [name, addr, bind, Except.bind] at searched
                split at searched
                · have same := withoutCold_of_scanCold searched
                  exact same
                · exact ih searched
      · exact ih searched

theorem withoutCold_of_addColdPart {lines : List Str} {f found : FuncClass}
    (added : addColdPart lines f = .ok found) : found.withoutCold = f.withoutCold := by
  rw [addColdPart] at added
  split at added
  · exact withoutCold_of_findCold added
  · cases added
    rfl

theorem withoutOffsets_setOffset (f : FuncClass) (offset : Int) (r : Saved) :
    (f.setOffset offset r).withoutOffsets = f.withoutOffsets := by
  cases r <;> rfl

theorem withoutOffsets_recordIf (reg : Str) (m : RegScan) (r : Saved) :
    (recordIf reg m r).func.withoutOffsets = m.func.withoutOffsets := by
  rw [recordIf]
  split
  · exact withoutOffsets_setOffset m.func m.offset r
  · rfl

theorem withoutOffsets_checkIn (state : RegState) (expected : List Saved) (reg : Str)
    (m : RegScan) : (checkIn state expected reg m).func.withoutOffsets = m.func.withoutOffsets := by
  rw [checkIn]
  split
  · rename_i inState
    clear inState
    induction expected generalizing m with
    | nil => rfl
    | cons r rest ih => exact (ih (recordIf reg m r)).trans (withoutOffsets_recordIf reg m r)
  · rfl

theorem withoutOffsets_stepPush (reg : Str) (m : RegScan) :
    (stepPush reg m).func.withoutOffsets = m.func.withoutOffsets := by
  have frame : (checkFrame reg m).func = m.func := by
    rw [checkFrame]
    split
    · split <;> rfl
    · rfl
  simp only [stepPush, withoutOffsets_checkIn, frame]

theorem withoutOffsets_of_scanPushes {code : List Str} {m found : RegScan}
    (scanned : scanPushes m code = .ok found) :
    found.func.withoutOffsets = m.func.withoutOffsets := by
  induction code generalizing m with
  | nil =>
      cases scanned
      rfl
  | cons line rest ih =>
      rw [scanPushes] at scanned
      split at scanned
      · cases word : lastWord line with
        | error error =>
            simp [word, bind, Except.bind] at scanned
        | ok reg =>
            simp only [word, bind, Except.bind] at scanned
            split at scanned
            · cases scanned
              rfl
            · exact (ih scanned).trans (withoutOffsets_stepPush reg m)
      · exact ih scanned

theorem withoutOffsets_of_findRegisters {lines : List Str} {f found : FuncClass}
    (searched : findRegisters lines f = .ok found) :
    found.withoutOffsets = f.withoutOffsets := by
  rw [findRegisters] at searched
  cases scanned : scanPushes ⟨.reset, 0, f⟩ ((lines.take f.endLine).drop f.baseLine) with
  | error error =>
      simp [scanned, bind, Except.bind] at searched
  | ok m =>
      have same := withoutOffsets_of_scanPushes scanned
      simp only [scanned, bind, Except.bind] at searched
      split at searched
      · cases searched
        exact same
      · cases searched
        exact same

/-! ## The row of a block -/

/-- The place that is recorded for a register, by its place among those that are recorded. -/
def slot (saves : List Saved) (r : Saved) : Int :=
  match saves.idxOf? r with
  | some k => -8 * ((k : Int) + 1)
  | none => 100

theorem supportedFlag_eq (suppLines : List Str) (f : FuncClass) :
    supportedFlag suppLines f = if suppLines.contains (f.name ++ ['\n']) then 1 else 0 := by
  simp [supportedFlag]

/-- The row of a block, if these are the cold parts of the disassembly. -/
def Block.row (suppLines : List Str) (colds : List Block) (closed : Bool) (b : Block) : Row where
  beginAddr := b.addr
  endAddr := b.endWord
  cold := if b.mentionsCold then some (coldRange closed (coldName b.name) colds) else none
  offset := slot (recordedSaves (pushWords b.lines.dropLast))
  supported := if suppLines.contains (b.name ++ ['\n']) then 1 else 0

/-- The addresses of a block can stand in the table. -/
structure Block.HasPlainAddrs (b : Block) : Prop where
  addr : ∀ c ∈ b.addr, isPlain c = true
  endWord : ∀ c ∈ b.endWord, isPlain c = true

theorem record_offset_eq_slot {f : FuncClass} (unset : ∀ r, f.offset r = 100) {saves : List Saved}
    (ordered : saves.Pairwise fun r later => r.rank < later.rank) (r : Saved) :
    (record ⟨.rbp, -8, f⟩ saves).func.offset r = slot saves r := by
  rw [slot]
  cases place : saves.idxOf? r with
  | none =>
      rw [List.idxOf?_eq_none_iff] at place
      rw [record_offset_of_not_mem place]
      exact unset r
  | some k =>
      obtain ⟨inside, isReg, _⟩ := List.idxOf?_eq_some_iff.mp place
      subst isReg
      exact record_offset_getElem ordered f inside

/-- Both texts can stand in the table. -/
def IsPlainRange (range : Str × Str) : Prop :=
  (∀ c ∈ range.1, isPlain c = true) ∧ ∀ c ∈ range.2, isPlain c = true

theorem isPlainRange_coldRange {colds : List Block} (plain : ∀ c ∈ colds, c.HasPlainAddrs)
    (closed : Bool) (nameCold : Str) : IsPlainRange (coldRange closed nameCold colds) := by
  have zero : ∀ c ∈ ['0'], isPlain c = true := by decide
  induction colds with
  | nil => exact ⟨zero, zero⟩
  | cons c rest ih =>
      rw [coldRange]
      split
      · have atHead := plain c List.mem_cons_self
        refine ⟨atHead.addr, ?_⟩
        dsimp only
        split
        · exact atHead.endWord
        · exact zero
      · exact ih fun other otherMem => plain other (List.mem_cons_of_mem _ otherMem)

/-- The loop for the cold parts adds to a block's record the range of the cold part of its name,
if a line of the block mentions a cold part. -/
theorem exists_addColdPart {colds : List Block} (coldsWellFormed : ∀ c ∈ colds, c.WellFormed)
    (coldsPlain : ∀ c ∈ colds, c.HasPlainAddrs) (closed : Bool) {rest : List Block}
    (wellFormed : ∀ b ∈ rest, b.WellFormed) (notCold : ∀ b ∈ rest, ¬ endsCold b.name)
    (front : List Str) (b : Block) :
    ∃ added, addColdPart ((front ++ b.closedLines) ++
        (rest.flatMap Block.closedLines ++ coldLines colds closed)) (b.record front.length) =
          .ok added ∧ added.withoutCold = (b.record front.length).withoutCold ∧
      (b.mentionsCold = true → (added.baseAddrCold, added.endAddrCold) =
        coldRange closed (coldName b.name) colds) ∧
      IsPlainRange (added.baseAddrCold, added.endAddrCold) := by
  cases mentions : b.mentionsCold with
  | false =>
      have noCold : (b.record front.length).hasCold = false := mentions
      have zero : ∀ c ∈ ['0'], isPlain c = true := by decide
      refine ⟨b.record front.length, ?_, rfl, ?_, zero, zero⟩
      · rw [addColdPart, noCold, if_neg Bool.false_ne_true]
      · rintro ⟨⟩
  | true =>
      obtain ⟨added, searched, _, _, range⟩ :=
        addColdPart_record coldsWellFormed closed wellFormed notCold front mentions
      refine ⟨added, searched, withoutCold_of_addColdPart searched, fun _ => range, ?_⟩
      rw [range]
      exact isPlainRange_coldRange coldsPlain closed _

theorem offset_of_withoutCold {added record : FuncClass}
    (same : added.withoutCold = record.withoutCold) (r : Saved) :
    added.offset r = record.offset r := by
  obtain ⟨_, _, _, _, _, _, _, _, _, _, rbx, r12, r13, r14, r15⟩ := FuncClass.mk.inj same
  cases r with
  | r15 => exact r15
  | r14 => exact r14
  | r13 => exact r13
  | r12 => exact r12
  | rbx => exact rbx

/-- The record of a block goes through the later loops and becomes its row. -/
theorem row_of_record {colds : List Block} (coldsWellFormed : ∀ c ∈ colds, c.WellFormed)
    (coldsPlain : ∀ c ∈ colds, c.HasPlainAddrs) (closed : Bool) {rest : List Block}
    (wellFormed : ∀ b ∈ rest, b.WellFormed) (notCold : ∀ b ∈ rest, ¬ endsCold b.name)
    (front : List Str) {b : Block} (plain : b.HasPlainAddrs) (suppLines : List Str) :
    ∃ added f, addColdPart ((front ++ b.closedLines) ++
        (rest.flatMap Block.closedLines ++ coldLines colds closed)) (b.record front.length) =
          .ok added ∧
      findRegisters ((front ++ b.closedLines) ++
        (rest.flatMap Block.closedLines ++ coldLines colds closed)) added = .ok f ∧
      f.row suppLines = b.row suppLines colds closed ∧ HasPlainAddrs f := by
  obtain ⟨added, searched, same, range, plainRange⟩ :=
    exists_addColdPart coldsWellFormed coldsPlain closed wellFormed notCold front b
  obtain ⟨sameName, sameBegin, baseLine, sameEnd, endLine, _, _, sameCold, _⟩ :=
    FuncClass.mk.inj same
  have unset : ∀ r, added.offset r = 100 := by
    intro r
    rw [offset_of_withoutCold same]
    cases r <;> rfl
  obtain ⟨f, scanned, offsets⟩ := findRegisters_eq ((front ++ b.closedLines) ++
    (rest.flatMap Block.closedLines ++ coldLines colds closed)) unset
  rw [baseLine, endLine, linesRead] at offsets
  obtain ⟨keptName, keptBegin, _, keptEnd, _, keptColdBegin, _, keptCold, keptColdEnd, _⟩ :=
    FuncClass.mk.inj (withoutOffsets_of_findRegisters scanned)
  refine ⟨added, f, searched, scanned, ?_, ?_⟩
  · have sameOffsets : f.offset = slot (recordedSaves (pushWords b.lines.dropLast)) := by
      funext r
      rw [offsets, record_offset_eq_slot unset (recordedSaves_pairwise _)]
    rw [FuncClass.row, Block.row, keptBegin, keptEnd, keptCold, keptColdBegin, keptColdEnd,
      sameBegin, sameEnd, sameCold, sameOffsets, supportedFlag_eq, keptName, sameName]
    congr 1
    change (if b.mentionsCold then some (added.baseAddrCold, added.endAddrCold) else none) = _
    split
    · rename_i mentions
      rw [range mentions]
    · rfl
  · constructor
    · rw [keptBegin, sameBegin]
      exact plain.addr
    · rw [keptEnd, sameEnd]
      exact plain.endWord
    · rw [keptColdBegin]
      exact plainRange.1
    · rw [keptColdEnd]
      exact plainRange.2

/-- The records of the listed blocks become their rows. -/
theorem rows_recordsFrom {colds : List Block} (coldsWellFormed : ∀ c ∈ colds, c.WellFormed)
    (coldsPlain : ∀ c ∈ colds, c.HasPlainAddrs) (closed : Bool) {blocks : List Block}
    (wellFormed : ∀ b ∈ blocks, b.WellFormed) (plain : ∀ b ∈ blocks, b.HasPlainAddrs)
    (notCold : ∀ b ∈ blocks, ¬ endsCold b.name) (front : List Str) (suppLines : List Str) :
    ∃ added functions,
      addColdParts (front ++ (blocks.flatMap Block.closedLines ++ coldLines colds closed))
        (recordsFrom front.length blocks) = .ok added ∧
      findAllRegisters (front ++ (blocks.flatMap Block.closedLines ++ coldLines colds closed))
        added = .ok functions ∧
      functions.map (FuncClass.row suppLines) =
        (blocks.filter Block.isListed).map (Block.row suppLines colds closed) ∧
      ∀ f ∈ functions, HasPlainAddrs f := by
  induction blocks generalizing front with
  | nil =>
      refine ⟨[], [], rfl, rfl, rfl, ?_⟩
      intro f fMem
      exact absurd fMem List.not_mem_nil
  | cons b rest ih =>
      have restWellFormed : ∀ other ∈ rest, other.WellFormed :=
        fun other otherMem => wellFormed other (List.mem_cons_of_mem _ otherMem)
      have restNotCold : ∀ other ∈ rest, ¬ endsCold other.name :=
        fun other otherMem => notCold other (List.mem_cons_of_mem _ otherMem)
      have indices : front.length + b.body.length + 2 = (front ++ b.closedLines).length := by
        simp [Block.closedLines, Block.lines]
        omega
      have lines : front ++ ((b :: rest).flatMap Block.closedLines ++ coldLines colds closed) =
          (front ++ b.closedLines) ++ (rest.flatMap Block.closedLines ++ coldLines colds closed) := by
        simp
      obtain ⟨added, functions, addedAll, scannedAll, rows, arePlain⟩ := ih restWellFormed
        (fun other otherMem => plain other (List.mem_cons_of_mem _ otherMem)) restNotCold
        (front ++ b.closedLines)
      rw [lines, recordsFrom, indices]
      cases listed : b.isListed with
      | false =>
          rw [List.filter_cons_of_neg (by simp [listed])]
          exact ⟨added, functions, addedAll, scannedAll, rows, arePlain⟩
      | true =>
          obtain ⟨addedHere, f, searched, scanned, row, isPlain⟩ :=
            row_of_record coldsWellFormed coldsPlain closed restWellFormed restNotCold front
              (plain b List.mem_cons_self) suppLines
          rw [List.filter_cons_of_pos listed]
          refine ⟨addedHere :: added, f :: functions, ?_, ?_, ?_, ?_⟩
          · rw [if_pos rfl, addColdParts, searched, addedAll]
            rfl
          · rw [findAllRegisters, scanned, scannedAll]
            rfl
          · rw [List.map_cons, List.map_cons, row, rows]
          · rw [List.forall_mem_cons]
            exact ⟨isPlain, arePlain⟩

/-! ## The disassembly as a text -/

/-- A line of a file: only its end is a newline. -/
def IsLine (line : Str) : Prop := ∃ text, line = text ++ ['\n'] ∧ '\n' ∉ text

theorem isLine_iff {line : Str} :
    IsLine line ↔ line.getLast? = some '\n' ∧ '\n' ∉ line.dropLast := by
  constructor
  · rintro ⟨text, rfl, oneLine⟩
    exact ⟨List.getLast?_concat, by rwa [List.dropLast_concat]⟩
  · rintro ⟨isLast, oneLine⟩
    exact ⟨line.dropLast, (List.dropLast_append_getLast? _ isLast).symm, oneLine⟩

instance (line : Str) : Decidable (IsLine line) := decidable_of_iff _ isLine_iff.symm

theorem readlines_flatten {lines : List Str} (areLines : ∀ line ∈ lines, IsLine line) :
    readlines lines.flatten = lines := by
  induction lines with
  | nil => rfl
  | cons line rest ih =>
      obtain ⟨text, rfl, oneLine⟩ := areLines line List.mem_cons_self
      rw [List.flatten_cons, readlines_line oneLine,
        ih fun other otherMem => areLines other (List.mem_cons_of_mem _ otherMem)]

theorem isLine_header {b : Block} (wellFormed : b.WellFormed) : IsLine b.header := by
  refine ⟨b.addr ++ ' ' :: b.bracketed, by simp [Block.header], ?_⟩
  have newline : isSpace '\n' = true := by decide
  intro inHeader
  simp only [Block.bracketed, List.mem_append, List.mem_cons, List.not_mem_nil, or_false] at inHeader
  rcases inHeader with inAddr | isBlank | isOpen | inName | isClose | isColon
  · have noSpace := wellFormed.addr.2 _ inAddr
    rw [newline] at noSpace
    cases noSpace
  · revert isBlank
    decide
  · revert isOpen
    decide
  · have noSpace := wellFormed.name _ inName
    rw [newline] at noSpace
    cases noSpace
  · revert isClose
    decide
  · revert isColon
    decide

theorem isLine_blank : IsLine ['\n'] := ⟨[], rfl, List.not_mem_nil⟩

theorem areLines_coldLines {colds : List Block}
    (blockLines : ∀ c ∈ colds, ∀ line ∈ c.lines, IsLine line) (closed : Bool) :
    ∀ line ∈ coldLines colds closed, IsLine line := by
  induction colds with
  | nil =>
      intro line lineMem
      rw [coldLines_nil] at lineMem
      exact absurd lineMem List.not_mem_nil
  | cons c rest ih =>
      intro line lineMem
      rw [coldLines_cons, List.mem_append, List.mem_append] at lineMem
      rcases lineMem with (inLines | inBlank) | inRest
      · exact blockLines c List.mem_cons_self line inLines
      · split at inBlank
        · rw [List.mem_singleton.mp inBlank]
          exact isLine_blank
        · exact absurd inBlank List.not_mem_nil
      · exact ih (fun other otherMem => blockLines other (List.mem_cons_of_mem _ otherMem)) line
          inRest

/-- The lines of a listing are the lines of its text. -/
theorem areLines_coldListing {preamble : List Str} {ordinary colds : List Block}
    (preambleLines : ∀ line ∈ preamble, IsLine line)
    (wellFormed : ∀ b ∈ ordinary ++ colds, b.WellFormed)
    (bodyLines : ∀ b ∈ ordinary ++ colds, ∀ line ∈ b.body, IsLine line) (closed : Bool) :
    ∀ line ∈ coldListing preamble ordinary colds closed, IsLine line := by
  have ofBlock : ∀ b ∈ ordinary ++ colds, ∀ line ∈ b.lines, IsLine line := by
    intro b bMem line lineMem
    rcases List.mem_cons.mp lineMem with rfl | inBody
    · exact isLine_header (wellFormed b bMem)
    · exact bodyLines b bMem line inBody
  intro line lineMem
  rw [coldListing, List.mem_append, List.mem_append] at lineMem
  rcases lineMem with inPreamble | inOrdinary | inColds
  · exact preambleLines line inPreamble
  · obtain ⟨b, bMem, inBlock⟩ := List.mem_flatMap.mp inOrdinary
    rcases List.mem_append.mp inBlock with inLines | isBlank
    · exact ofBlock b (List.mem_append_left _ bMem) line inLines
    · rw [List.mem_singleton.mp isBlank]
      exact isLine_blank
  · exact areLines_coldLines (fun c cMem => ofBlock c (List.mem_append_right _ cMem)) closed line
      inColds

/-! ## The header of a disassembly -/

/-- The blocks of a disassembly: functions, and after them cold parts. -/
structure Disassembly where
  preamble : List Str
  ordinary : List Block
  colds : List Block
  closed : Bool

namespace Disassembly

variable (d : Disassembly)

def text : Str := (coldListing d.preamble d.ordinary d.colds d.closed).flatten

/-- Each block is as the disassembler writes it, and only the cold parts have names of
cold parts. -/
structure WellFormed : Prop where
  noHeader : ∀ line ∈ d.preamble, isHeader line = false
  preambleLines : ∀ line ∈ d.preamble, IsLine line
  blocks : ∀ b ∈ d.ordinary ++ d.colds, b.WellFormed
  plain : ∀ b ∈ d.ordinary ++ d.colds, b.HasPlainAddrs
  bodyLines : ∀ b ∈ d.ordinary ++ d.colds, ∀ line ∈ b.body, IsLine line
  notCold : ∀ b ∈ d.ordinary, ¬ endsCold b.name
  coldNamed : ∀ c ∈ d.colds, c.isColdNamed = true

/-- One row for each listed block. -/
def rows (suppLines : List Str) : List Row :=
  (d.ordinary.filter Block.isListed).map (Block.row suppLines d.colds d.closed)

end Disassembly

theorem parse_of_loops {vmlinux supp : Str} {functions added found : List FuncClass}
    (boundaries : findBoundaries (readlines vmlinux) = .ok functions)
    (colds : addColdParts (readlines vmlinux) functions = .ok added)
    (registers : findAllRegisters (readlines vmlinux) added = .ok found) :
    parseVmlinux vmlinux supp = .ok (dataHeader (readlines supp) found) := by
  simp only [parseVmlinux, boundaries, colds, registers, bind, Except.bind, pure, Except.pure]

/-- What the script records becomes the rows of the disassembly. -/
theorem exists_records {d : Disassembly} (wellFormed : d.WellFormed) (supp : Str) :
    ∃ functions, parseVmlinux d.text supp = .ok (dataHeader (readlines supp) functions) ∧
      functions.map (FuncClass.row (readlines supp)) = d.rows (readlines supp) ∧
      ∀ f ∈ functions, HasPlainAddrs f := by
  have ofOrdinary : ∀ b ∈ d.ordinary, b ∈ d.ordinary ++ d.colds :=
    fun b bMem => List.mem_append_left _ bMem
  have ofColds : ∀ c ∈ d.colds, c ∈ d.ordinary ++ d.colds :=
    fun c cMem => List.mem_append_right _ cMem
  have lines : readlines d.text = coldListing d.preamble d.ordinary d.colds d.closed :=
    readlines_flatten (areLines_coldListing wellFormed.preambleLines wellFormed.blocks
      wellFormed.bodyLines d.closed)
  have boundaries : findBoundaries (readlines d.text) =
      .ok (recordsFrom d.preamble.length d.ordinary) := by
    rw [lines, coldListing, findBoundaries_eq, scanAll_skip wellFormed.noHeader,
      scanAll_blocks fun b bMem => wellFormed.blocks b (ofOrdinary b bMem),
      scanAll_coldLines (fun c cMem => wellFormed.blocks c (ofColds c cMem)) wellFormed.coldNamed,
      Nat.zero_add, List.nil_append]
  obtain ⟨added, functions, addedAll, scannedAll, rows, plain⟩ :=
    rows_recordsFrom (fun c cMem => wellFormed.blocks c (ofColds c cMem))
      (fun c cMem => wellFormed.plain c (ofColds c cMem)) d.closed
      (fun b bMem => wellFormed.blocks b (ofOrdinary b bMem))
      (fun b bMem => wellFormed.plain b (ofOrdinary b bMem)) wellFormed.notCold d.preamble
      (readlines supp)
  rw [← coldListing, ← lines] at addedAll scannedAll
  exact ⟨functions, parse_of_loops boundaries addedAll scannedAll, rows, plain⟩

/-- For a disassembly made of blocks the script ends with a header that, read back, has one
row for each listed block, in order: its addresses, if it mentions a cold part the range that is
recorded for that of its name, the places that are recorded for its registers, and whether its
name is in the other file. -/
theorem parseVmlinux_holds (d : Disassembly) (wellFormed : d.WellFormed) (supp : Str) :
    ∃ file, parseVmlinux d.text supp = .ok file ∧ Holds file (d.rows (readlines supp)) := by
  obtain ⟨functions, parsed, rows, plain⟩ := exists_records wellFormed supp
  refine ⟨_, parsed, ?_⟩
  rw [← rows]
  exact holds_dataHeader plain

/-- A function that saves a register and jumps to its cold part, and a block that ends with an
ellipsis. -/
def fooAndGap : Disassembly where
  preamble := [['\n']]
  ordinary :=
    [⟨"ff00".toList, "foo".toList,
        ["ff00:\t55 \tpush   %rbp\n".toList, "ff01:\t53 \tpush   %rbx\n".toList,
          "ff02:\teb \tjmp    ff0a <foo.cold>\n".toList]⟩,
      ⟨"ff04".toList, "gap".toList, ["\t...\n".toList]⟩]
  colds := [⟨"ff0a".toList, "foo.cold".toList, ["ff0a:\tc3 \tretq\n".toList]⟩]
  closed := true

theorem wellFormed_fooAndGap : fooAndGap.WellFormed where
  noHeader := by decide
  preambleLines := by decide
  blocks := by decide +kernel
  plain := by
    have addrs : ∀ b ∈ fooAndGap.ordinary ++ fooAndGap.colds, ∀ c ∈ b.addr ++ b.endWord,
        isPlain c = true := by decide +kernel
    intro b bMem
    have atBlock := addrs b bMem
    exact ⟨fun c cMem => atBlock c (List.mem_append_left _ cMem),
      fun c cMem => atBlock c (List.mem_append_right _ cMem)⟩
  bodyLines := by decide +kernel
  notCold := by decide +kernel
  coldNamed := by decide +kernel

theorem parseVmlinux_holds_fooAndGap :
    ∃ file, parseVmlinux fooAndGap.text "foo\n".toList = .ok file ∧
      readDefine arraySize file = some ['1'] ∧ readDefine coldArraySize file = some ['1'] ∧
      ⟨"hecaton_cold_begin_addrs".toList, coldArraySize, ["0xff0a".toList]⟩ ∈
        readDeclarations file ∧
      ⟨"hecaton_rbx".toList, arraySize, ["-8".toList]⟩ ∈ readDeclarations file ∧
      ⟨"hecaton_supported".toList, arraySize, [['1']]⟩ ∈ readDeclarations file := by
  obtain ⟨file, parsed, holds⟩ :=
    parseVmlinux_holds fooAndGap wellFormed_fooAndGap "foo\n".toList
  refine ⟨file, parsed, ?_⟩
  rw [holds.arrays, holds.size, holds.coldSize]
  decide +kernel

end Hecaton.Scripts
