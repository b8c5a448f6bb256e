import Hecaton.Library.Aligned
import Hecaton.Scripts.Listing

/-!
# Cold parts

The compiler moves unlikely code of a function to a block of its own, named after
the function.  The script looks for it by that name, from the end of the function
on.
-/

namespace Hecaton.Scripts

open Hecaton.Library

/-! ## The search -/

/-- The inner loop over the lines of a cold part.  `previous` is the line before the
one at index `i`. -/
def scanCold (f : FuncClass) (previous : Str) (i : Nat) : List Str → Except PyError FuncClass
  | [] => .ok f
  | line2 :: rest =>
      if line2 = ['\n'] then do
        let word ← firstWord previous
        return { f with endLineCold := i - 1, endAddrCold := word }
      else scanCold f line2 (i + 1) rest

/-- The search for a header with the name, from the line at index `i` on. -/
def findCold (f : FuncClass) (nameCold : Str) (i : Nat) : List Str → Except PyError FuncClass
  | [] => .ok f
  | line :: rest =>
      if isHeader line then do
        let x := split line
        let name ← index x 1
        let addr ← index x 0
        if bareName name = nameCold then
          scanCold { f with baseLineCold := i, baseAddrCold := addr } line (i + 1) rest
        else findCold f nameCold (i + 1) rest
      else findCold f nameCold (i + 1) rest

/-- The name of a function's cold part. -/
def coldName (name : Str) : Str := name ++ ".cold".toList

/-- The cold part of one function, if it has one. -/
def addColdPart (lines : List Str) (f : FuncClass) : Except PyError FuncClass :=
  if f.hasCold then
    findCold f (coldName f.name) (f.endLine + 1) (lines.drop (f.endLine + 1))
  else .ok f

/-- The cold parts of all functions. -/
def addColdParts (lines : List Str) : List FuncClass → Except PyError (List FuncClass)
  | [] => .ok []
  | f :: rest => do
      let f ← addColdPart lines f
      let rest ← addColdParts lines rest
      return f :: rest

/-- The functions of a listing with their cold parts. -/
def findColdParts (lines : List Str) : Except PyError (List FuncClass) := do
  let functions ← findBoundaries lines
  addColdParts lines functions

/-! ## Listings with cold parts -/

/-- The lines of blocks of which the last is not closed. -/
def openLines : List Block → List Str
  | [] => []
  | [b] => b.lines
  | b :: rest => b.closedLines ++ openLines rest

/-- The lines of the cold parts; a blank line closes the last one or the file ends
with it. -/
def coldLines (colds : List Block) (closed : Bool) : List Str :=
  if closed then colds.flatMap Block.closedLines else openLines colds

/-- The range that the search finds: from the first block with the name, whose end is
known if a blank line closes it. -/
def coldRange (closed : Bool) (nameCold : Str) : List Block → Str × Str
  | [] => (['0'], ['0'])
  | c :: rest =>
      if c.name = nameCold then (c.addr, if closed || !rest.isEmpty then c.endWord else ['0'])
      else coldRange closed nameCold rest

theorem coldLines_nil (closed : Bool) : coldLines [] closed = [] := by
  cases closed <;> rfl

/-- The first cold part is closed unless the file ends with it. -/
theorem coldLines_cons (c : Block) (rest : List Block) (closed : Bool) :
    coldLines (c :: rest) closed =
      c.lines ++ (if closed || !rest.isEmpty then [['\n']] else []) ++ coldLines rest closed := by
  cases closed with
  | true => simp [coldLines, Block.closedLines]
  | false =>
      cases rest with
      | nil => simp [coldLines, openLines]
      | cons d rest => simp [coldLines, openLines, Block.closedLines]

/-! ## The search over blocks -/

theorem findCold_skip {skipped : List Str} (noHeader : ∀ line ∈ skipped, isHeader line = false)
    (f : FuncClass) (nameCold : Str) (i : Nat) (more : List Str) :
    findCold f nameCold i (skipped ++ more) = findCold f nameCold (i + skipped.length) more := by
  induction skipped generalizing i with
  | nil => rfl
  | cons line rest ih =>
      have restNoHeader : ∀ other ∈ rest, isHeader other = false :=
        fun other otherMem => noHeader other (List.mem_cons_of_mem _ otherMem)
      have indices : i + 1 + rest.length = i + (line :: rest).length := by
        rw [List.length_cons]
        omega
      rw [List.cons_append, findCold, noHeader line List.mem_cons_self]
      simp only [Bool.false_eq_true, if_false]
      rw [ih restNoHeader, indices]

theorem findCold_header {b : Block} (wellFormed : b.WellFormed) (f : FuncClass) (nameCold : Str)
    (i : Nat) (rest : List Str) :
    findCold f nameCold i (b.header :: rest) =
      if b.name = nameCold then
        scanCold { f with baseLineCold := i, baseAddrCold := b.addr } b.header (i + 1) rest
      else findCold f nameCold (i + 1) rest := by
  simp [findCold, Block.isHeader_header, Block.split_header wellFormed, index, bind, Except.bind,
    bareName_bracketed]

/-- A block with another name is passed over. -/
theorem findCold_other {b : Block} (wellFormed : b.WellFormed) {nameCold : Str}
    (other : b.name ≠ nameCold) (f : FuncClass) (i : Nat) {blank : List Str}
    (isBlank : ∀ line ∈ blank, line = ['\n']) (more : List Str) :
    findCold f nameCold i (b.lines ++ blank ++ more) =
      findCold f nameCold (i + (b.lines ++ blank).length) more := by
  have noHeader : ∀ line ∈ b.body ++ blank, isHeader line = false := by
    intro line lineMem
    rcases List.mem_append.mp lineMem with inBody | inBlank
    · exact (wellFormed.body line inBody).2
    · rw [isBlank line inBlank]
      decide
  have lines : b.lines ++ blank ++ more = b.header :: ((b.body ++ blank) ++ more) := by
    simp [Block.lines]
  have indices : i + 1 + (b.body ++ blank).length = i + (b.lines ++ blank).length := by
    simp only [Block.lines, List.length_append, List.length_cons]
    omega
  rw [lines, findCold_header wellFormed, if_neg other, findCold_skip noHeader, indices]

theorem scanCold_closed {body : List Str} (noBlank : ∀ line ∈ body, line ≠ ['\n'])
    (f : FuncClass) (previous : Str) (i : Nat) (more : List Str) {word : Str}
    (isEnd : firstWord (body.getLastD previous) = .ok word) :
    scanCold f previous i (body ++ ['\n'] :: more) =
      .ok { f with endLineCold := i + body.length - 1, endAddrCold := word } := by
  induction body generalizing previous i with
  | nil =>
      rw [List.getLastD_nil] at isEnd
      simp [scanCold, isEnd, bind, Except.bind, pure, Except.pure]
  | cons line rest ih =>
      have restNoBlank : ∀ other ∈ rest, other ≠ ['\n'] :=
        fun other otherMem => noBlank other (List.mem_cons_of_mem _ otherMem)
      have indices : i + 1 + rest.length - 1 = i + (line :: rest).length - 1 := by
        rw [List.length_cons]
        omega
      rw [List.getLastD_cons] at isEnd
      rw [List.cons_append, scanCold, if_neg (noBlank line List.mem_cons_self),
        ih restNoBlank line (i + 1) isEnd, indices]

theorem scanCold_open {body : List Str} (noBlank : ∀ line ∈ body, line ≠ ['\n'])
    (f : FuncClass) (previous : Str) (i : Nat) : scanCold f previous i body = .ok f := by
  induction body generalizing previous i with
  | nil => rfl
  | cons line rest ih =>
      have restNoBlank : ∀ other ∈ rest, other ≠ ['\n'] :=
        fun other otherMem => noBlank other (List.mem_cons_of_mem _ otherMem)
      rw [scanCold, if_neg (noBlank line List.mem_cons_self), ih restNoBlank]

/-- What the search leaves of a record: the range is found, the rest is as before
but for the lines of the cold part. -/
def WithRange (f : FuncClass) (range : Str × Str) (f' : FuncClass) : Prop :=
  f'.baseAddr = f.baseAddr ∧ f'.hasCold = f.hasCold ∧ (f'.baseAddrCold, f'.endAddrCold) = range

/-- The search over the cold parts. -/
theorem findCold_coldLines {colds : List Block} (wellFormed : ∀ c ∈ colds, c.WellFormed)
    {f : FuncClass} (unset : f.baseAddrCold = ['0'] ∧ f.endAddrCold = ['0']) (nameCold : Str)
    (i : Nat) (closed : Bool) :
    ∃ f', findCold f nameCold i (coldLines colds closed) = .ok f' ∧
      WithRange f (coldRange closed nameCold colds) f' := by
  induction colds generalizing i with
  | nil =>
      rw [coldLines_nil]
      refine ⟨f, rfl, rfl, rfl, ?_⟩
      rw [unset.1, unset.2]
      rfl
  | cons c rest ih =>
      have cWellFormed := wellFormed c List.mem_cons_self
      rw [coldLines_cons, coldRange]
      by_cases same : c.name = nameCold
      · have noBlank : ∀ line ∈ c.body, line ≠ ['\n'] :=
          fun line lineMem => Block.ne_blank cWellFormed (List.mem_cons_of_mem _ lineMem)
        rw [if_pos same, Block.lines, List.append_assoc, List.cons_append,
          findCold_header cWellFormed, if_pos same]
        by_cases isClosed : (closed || !rest.isEmpty) = true
        · rw [if_pos isClosed, List.singleton_append,
            scanCold_closed noBlank _ _ _ _ (Block.firstWord_lastLine cWellFormed)]
          refine ⟨_, rfl, rfl, rfl, ?_⟩
          rw [if_pos isClosed]
        · have noRest : rest = [] := by
            rw [Bool.or_eq_true, not_or] at isClosed
            simpa using isClosed.2
          rw [if_neg isClosed, noRest, coldLines_nil, List.append_nil, List.append_nil,
            scanCold_open noBlank]
          refine ⟨_, rfl, rfl, rfl, ?_⟩
          rw [unset.2, ← noRest, if_neg isClosed]
      · rw [if_neg same, findCold_other cWellFormed same]
        · exact ih (fun d dMem => wellFormed d (List.mem_cons_of_mem _ dMem)) _
        · intro line lineMem
          split at lineMem
          · exact List.mem_singleton.mp lineMem
          · exact absurd lineMem List.not_mem_nil

/-- The name is that of a cold part. -/
def endsCold (name : Str) : Prop := ".cold".toList <:+ name

instance (name : Str) : Decidable (endsCold name) := inferInstanceAs (Decidable (_ <:+ _))

theorem ne_coldName {name : Str} (notCold : ¬ endsCold name) (owner : Str) :
    name ≠ coldName owner := by
  rintro rfl
  exact notCold (List.suffix_append owner _)

theorem findCold_blocks {blocks : List Block} (wellFormed : ∀ b ∈ blocks, b.WellFormed)
    (notCold : ∀ b ∈ blocks, ¬ endsCold b.name) (f : FuncClass) (owner : Str) (i : Nat)
    (more : List Str) :
    findCold f (coldName owner) i (blocks.flatMap Block.closedLines ++ more) =
      findCold f (coldName owner) (i + (blocks.flatMap Block.closedLines).length) more := by
  induction blocks generalizing i with
  | nil => rfl
  | cons b rest ih =>
      have ih := ih (fun other otherMem => wellFormed other (List.mem_cons_of_mem _ otherMem))
        (fun other otherMem => notCold other (List.mem_cons_of_mem _ otherMem))
      have indices : i + b.closedLines.length + (rest.flatMap Block.closedLines).length =
          i + (b.closedLines ++ rest.flatMap Block.closedLines).length := by
        rw [List.length_append]
        omega
      have blank : ∀ line ∈ [['\n']], line = ['\n'] := fun line isBlank =>
        List.mem_singleton.mp isBlank
      rw [List.flatMap_cons, List.append_assoc, Block.closedLines,
        findCold_other (wellFormed b List.mem_cons_self)
          (ne_coldName (notCold b List.mem_cons_self) owner) f i blank,
        ← Block.closedLines, ih, indices]

/-- The blocks that have a cold part and are recorded. -/
def isListedOwner (b : Block) : Bool := b.isListed && b.mentionsCold

/-- The search for the cold part of a recorded function. -/
theorem addColdPart_record {colds : List Block} (coldsWellFormed : ∀ c ∈ colds, c.WellFormed)
    (closed : Bool) {rest : List Block} (wellFormed : ∀ b ∈ rest, b.WellFormed)
    (notCold : ∀ b ∈ rest, ¬ endsCold b.name) (front : List Str) {b : Block}
    (mentions : b.mentionsCold = true) :
    ∃ f, addColdPart ((front ++ b.closedLines) ++
        (rest.flatMap Block.closedLines ++ coldLines colds closed)) (b.record front.length) = .ok f ∧
      WithRange (b.record front.length) (coldRange closed (coldName b.name) colds) f := by
  have behind : ((front ++ b.closedLines) ++
      (rest.flatMap Block.closedLines ++ coldLines colds closed)).drop
        ((b.record front.length).endLine + 1) =
      [['\n']] ++ (rest.flatMap Block.closedLines ++ coldLines colds closed) := by
    have split : (front ++ b.closedLines) ++
        (rest.flatMap Block.closedLines ++ coldLines colds closed) =
        (front ++ b.lines) ++
          ([['\n']] ++ (rest.flatMap Block.closedLines ++ coldLines colds closed)) := by
      simp [Block.closedLines]
    have length : (b.record front.length).endLine + 1 = (front ++ b.lines).length := by
      simp [Block.record, Block.lines]
      omega
    rw [split, length, List.drop_left]
  have blank : ∀ line ∈ [['\n']], isHeader line = false := by decide
  have hasCold : (b.record front.length).hasCold = true := mentions
  rw [addColdPart, if_pos hasCold, behind, findCold_skip blank,
    findCold_blocks wellFormed notCold]
  exact findCold_coldLines coldsWellFormed ⟨rfl, rfl⟩ _ _ closed

/-- Each recorded function with a cold part gets the first range behind it that has the
name of its cold part. -/
theorem addColdParts_recordsFrom {colds : List Block} (coldsWellFormed : ∀ c ∈ colds, c.WellFormed)
    (closed : Bool) {blocks : List Block} (wellFormed : ∀ b ∈ blocks, b.WellFormed)
    (notCold : ∀ b ∈ blocks, ¬ endsCold b.name) (front : List Str) :
    ∃ functions,
      addColdParts (front ++ (blocks.flatMap Block.closedLines ++ coldLines colds closed))
        (recordsFrom front.length blocks) = .ok functions ∧
      List.Forall₂ (fun f b => f.baseAddr = b.addr ∧
          (f.baseAddrCold, f.endAddrCold) = coldRange closed (coldName b.name) colds)
        (functions.filter FuncClass.hasCold) (blocks.filter isListedOwner) := by
  induction blocks generalizing front with
  | nil => exact ⟨[], rfl, List.Forall₂.nil⟩
  | cons b rest ih =>
      have restWellFormed : ∀ other ∈ rest, other.WellFormed :=
        fun other otherMem => wellFormed other (List.mem_cons_of_mem _ otherMem)
      have restNotCold : ∀ other ∈ rest, ¬ endsCold other.name :=
        fun other otherMem => notCold other (List.mem_cons_of_mem _ otherMem)
      have indices : front.length + b.body.length + 2 = (front ++ b.closedLines).length := by
        simp [Block.closedLines, Block.lines]
        omega
      have lines : front ++ ((b :: rest).flatMap Block.closedLines ++ coldLines colds closed) =
          (front ++ b.closedLines) ++ (rest.flatMap Block.closedLines ++ coldLines colds closed) := by
        simp
      obtain ⟨functions, found, aligned⟩ := ih restWellFormed restNotCold (front ++ b.closedLines)
      rw [lines, recordsFrom, indices]
      cases listed : b.isListed with
      | false =>
          have notOwner : isListedOwner b = false := by simp [isListedOwner, listed]
          rw [List.filter_cons_of_neg (by simp [notOwner])]
          exact ⟨functions, found, aligned⟩
      | true =>
          simp only [if_true, addColdParts, found]
          cases mentions : b.mentionsCold with
          | false =>
              have notOwner : isListedOwner b = false := by simp [isListedOwner, mentions]
              have noCold : (b.record front.length).hasCold = false := mentions
              rw [List.filter_cons_of_neg (by simp [notOwner])]
              refine ⟨b.record front.length :: functions, ?_, ?_⟩
              · simp [addColdPart, noCold, bind, Except.bind, pure, Except.pure]
              · rw [List.filter_cons_of_neg (by simp [noCold])]
                exact aligned
          | true =>
              have owner : isListedOwner b = true := by simp [isListedOwner, listed, mentions]
              have hasCold : (b.record front.length).hasCold = true := mentions
              obtain ⟨f, added, baseAddr, stillCold, range⟩ :=
                addColdPart_record coldsWellFormed closed restWellFormed restNotCold front mentions
              rw [List.filter_cons_of_pos owner]
              refine ⟨f :: functions, ?_, ?_⟩
              · rw [added]
                rfl
              · rw [List.filter_cons_of_pos (stillCold.trans hasCold)]
                exact List.Forall₂.cons ⟨baseAddr, range⟩ aligned

/-- The scan for functions passes over the cold parts. -/
theorem scanAll_coldLines {colds : List Block} (wellFormed : ∀ c ∈ colds, c.WellFormed)
    (cold : ∀ c ∈ colds, c.isColdNamed = true) (closed : Bool) (i : Nat) (endAddr : Option Str)
    (functions : List FuncClass) :
    (scanAll ⟨i, coldLines colds closed, endAddr, functions⟩).map Scan.functions =
      .ok functions := by
  induction colds generalizing i with
  | nil =>
      rw [coldLines_nil, scanAll_nil rfl]
      rfl
  | cons c rest ih =>
      have cWellFormed := wellFormed c List.mem_cons_self
      have ih := ih (fun other otherMem => wellFormed other (List.mem_cons_of_mem _ otherMem))
        (fun other otherMem => cold other (List.mem_cons_of_mem _ otherMem))
      have noHeader : ∀ line ∈ c.body ++ (if closed || !rest.isEmpty then [['\n']] else []),
          isHeader line = false := by
        intro line lineMem
        apply noHeader_of_body cWellFormed line
        rcases List.mem_append.mp lineMem with inBody | isBlank
        · exact List.mem_append_left _ inBody
        · split at isBlank
          · exact List.mem_append_right _ isBlank
          · exact absurd isBlank List.not_mem_nil
      rw [coldLines_cons, Block.lines, List.cons_append, List.cons_append,
        scanAll_cons rfl (scanLine_cold cWellFormed (cold c List.mem_cons_self) _ _ _),
        scanAll_skip noHeader]
      exact ih _

/-! ## The owners of cold parts -/

/-- A listing of functions and, after them, of cold parts. -/
def coldListing (preamble : List Str) (ordinary colds : List Block) (closed : Bool) : List Str :=
  preamble ++ (ordinary.flatMap Block.closedLines ++ coldLines colds closed)

/-- Each recorded function with a cold part has the address range of its own, and no
two cold parts begin at one address. -/
def OwnColdParts (functions : List FuncClass) (pairs : List (Block × Block)) : Prop :=
  List.Forall₂ (fun f pair => f.baseAddr = pair.1.addr ∧ f.baseAddrCold = pair.2.addr ∧
      f.endAddrCold = pair.2.endWord) (functions.filter FuncClass.hasCold) pairs ∧
    ((functions.filter FuncClass.hasCold).map FuncClass.baseAddrCold).Nodup

theorem coldRange_of_other {nameCold : Str} {front : List Block}
    (other : ∀ d ∈ front, d.name ≠ nameCold) (closed : Bool) (rest : List Block) :
    coldRange closed nameCold (front ++ rest) = coldRange closed nameCold rest := by
  induction front with
  | nil => rfl
  | cons d front ih =>
      rw [List.cons_append, coldRange, if_neg (other d List.mem_cons_self)]
      exact ih fun e eMem => other e (List.mem_cons_of_mem _ eMem)

theorem coldRange_of_mem {nameCold : Str} {front : List Block}
    (found : ∃ d ∈ front, d.name = nameCold) (closed : Bool) (rest : List Block) :
    ∃ d ∈ front, (coldRange closed nameCold (front ++ rest)).1 = d.addr := by
  induction front with
  | nil =>
      obtain ⟨d, dMem, _⟩ := found
      exact absurd dMem List.not_mem_nil
  | cons e front ih =>
      rw [List.cons_append, coldRange]
      split
      · exact ⟨e, List.mem_cons_self, rfl⟩
      · rename_i other
        obtain ⟨d, dMem, isName⟩ := found
        have inFront : d ∈ front := by
          rcases List.mem_cons.mp dMem with rfl | inFront
          · exact absurd isName other
          · exact inFront
        obtain ⟨first, firstMem, isAddr⟩ := ih ⟨d, inFront, isName⟩
        exact ⟨first, List.mem_cons_of_mem _ firstMem, isAddr⟩

theorem coldName_inj {first second : Str} : coldName first = coldName second ↔ first = second :=
  List.append_left_inj _

/-- The search finds a function's own cold part exactly when no earlier owner has its
name and the end of the cold part can be read. -/
theorem coldRange_own_iff {front back : List (Block × Block)} {b c : Block}
    (named : ∀ pair ∈ front ++ (b, c) :: back, pair.2.name = coldName pair.1.name)
    (distinct : ((front ++ (b, c) :: back).map fun pair => pair.2.addr).Nodup) (closed : Bool) :
    coldRange closed (coldName b.name) ((front ++ (b, c) :: back).map Prod.snd) =
        (c.addr, c.endWord) ↔
      (∀ pair ∈ front, pair.1.name ≠ b.name) ∧
        (closed = true ∨ back ≠ [] ∨ c.endWord = ['0']) := by
  have ownName : c.name = coldName b.name := named (b, c) (by simp)
  have frontNamed : ∀ pair ∈ front, pair.2.name = coldName b.name ↔ pair.1.name = b.name := by
    intro pair pairMem
    rw [named pair (List.mem_append_left _ pairMem)]
    exact coldName_inj
  rw [List.map_append, List.map_cons]
  by_cases namesake : ∃ pair ∈ front, pair.1.name = b.name
  · obtain ⟨pair, pairMem, sameName⟩ := namesake
    obtain ⟨d, dMem, isAddr⟩ := coldRange_of_mem
      ⟨pair.2, List.mem_map_of_mem pairMem, (frontNamed pair pairMem).mpr sameName⟩ closed
      (c :: back.map Prod.snd)
    constructor
    · intro own
      obtain ⟨other, otherMem, rfl⟩ := List.mem_map.mp dMem
      have apart := (List.nodup_append.mp (by simpa using distinct)).2.2
      rw [own] at isAddr
      exact absurd isAddr.symm
        (apart _ (List.mem_map_of_mem otherMem) _ List.mem_cons_self)
    · rintro ⟨noNamesake, _⟩
      exact absurd sameName (noNamesake pair pairMem)
  · have noNamesake : ∀ pair ∈ front, pair.1.name ≠ b.name :=
      fun pair pairMem sameName => namesake ⟨pair, pairMem, sameName⟩
    have other : ∀ d ∈ front.map Prod.snd, d.name ≠ coldName b.name := by
      intro d dMem sameName
      obtain ⟨pair, pairMem, rfl⟩ := List.mem_map.mp dMem
      exact noNamesake pair pairMem ((frontNamed pair pairMem).mp sameName)
    rw [coldRange_of_other other, coldRange, if_pos ownName]
    simp only [Prod.mk.injEq, true_and]
    constructor
    · intro isEnd
      refine ⟨noNamesake, ?_⟩
      split at isEnd
      · rename_i readable
        rcases Bool.or_eq_true_iff.mp readable with isClosed | hasBack
        · exact Or.inl isClosed
        · refine Or.inr (Or.inl ?_)
          rintro rfl
          simp at hasBack
      · exact Or.inr (Or.inr isEnd.symm)
    · rintro ⟨_, isClosed | hasBack | isZero⟩
      · simp [isClosed]
      · simp [hasBack]
      · rw [isZero, ite_self]

/-- The owners that the scan records, with their cold parts. -/
def listedPairs (pairs : List (Block × Block)) : List (Block × Block) :=
  pairs.filter fun pair => pair.1.isListed

/-- No recorded owner of a cold part has the name of an earlier owner, and the end of
each recorded owner's cold part can be read. -/
def SearchesSucceed (pairs : List (Block × Block)) (closed : Bool) : Prop :=
  ∀ front b c back, pairs = front ++ (b, c) :: back → b.isListed = true →
    (∀ pair ∈ front, pair.1.name ≠ b.name) ∧ (closed = true ∨ back ≠ [] ∨ c.endWord = ['0'])

section Owners

variable {preamble : List Str} (noHeader : ∀ line ∈ preamble, isHeader line = false)
  {ordinary : List Block} {pairs : List (Block × Block)}
  (wellFormed : ∀ b ∈ ordinary ++ pairs.map Prod.snd, b.WellFormed)
  (notCold : ∀ b ∈ ordinary, ¬ endsCold b.name)
  (owners : pairs.map Prod.fst = ordinary.filter Block.mentionsCold)
  (named : ∀ pair ∈ pairs, pair.2.name = coldName pair.1.name)
  (distinct : (pairs.map fun pair => pair.2.addr).Nodup)

include noHeader wellFormed notCold owners named

/-- What the script records: every recorded owner has the range that its search finds. -/
theorem findColdParts_eq (closed : Bool) :
    ∃ functions, findColdParts (coldListing preamble ordinary (pairs.map Prod.snd) closed) =
        .ok functions ∧
      List.Forall₂ (fun f pair => f.baseAddr = pair.1.addr ∧ (f.baseAddrCold, f.endAddrCold) =
          coldRange closed (coldName pair.1.name) (pairs.map Prod.snd))
        (functions.filter FuncClass.hasCold) (listedPairs pairs) := by
  have ordinaryWellFormed : ∀ b ∈ ordinary, b.WellFormed :=
    fun b bMem => wellFormed b (List.mem_append_left _ bMem)
  have coldsWellFormed : ∀ c ∈ pairs.map Prod.snd, c.WellFormed :=
    fun c cMem => wellFormed c (List.mem_append_right _ cMem)
  have coldNamed : ∀ c ∈ pairs.map Prod.snd, c.isColdNamed = true := by
    intro c cMem
    obtain ⟨pair, pairMem, rfl⟩ := List.mem_map.mp cMem
    apply contains_of_infix
    rw [named pair pairMem]
    refine ⟨pair.1.name ++ ['.'], [], ?_⟩
    simp [coldName]
  have found : findBoundaries (coldListing preamble ordinary (pairs.map Prod.snd) closed) =
      .ok (recordsFrom preamble.length ordinary) := by
    rw [coldListing, findBoundaries_eq, scanAll_skip noHeader, scanAll_blocks ordinaryWellFormed,
      scanAll_coldLines coldsWellFormed coldNamed, Nat.zero_add, List.nil_append]
  obtain ⟨functions, added, aligned⟩ :=
    addColdParts_recordsFrom coldsWellFormed closed ordinaryWellFormed notCold preamble
  have sameOwners : ordinary.filter isListedOwner = (listedPairs pairs).map Prod.fst := by
    have both : ordinary.filter isListedOwner =
        (ordinary.filter Block.mentionsCold).filter Block.isListed := by
      rw [List.filter_filter]
      rfl
    rw [both, ← owners, List.filter_map]
    rfl
  rw [sameOwners, List.forall₂_map_right_iff] at aligned
  refine ⟨functions, ?_, aligned⟩
  rw [findColdParts, found]
  exact added

include distinct

/-- Every recorded function has the range of its own cold part, and no two cold parts
begin at one address, exactly when the searches succeed. -/
theorem findColdParts_own_iff (closed : Bool) :
    (∃ functions, findColdParts (coldListing preamble ordinary (pairs.map Prod.snd) closed) =
        .ok functions ∧ OwnColdParts functions (listedPairs pairs)) ↔
      SearchesSucceed pairs closed := by
  obtain ⟨functions, found, aligned⟩ :=
    findColdParts_eq noHeader wellFormed notCold owners named closed
  have ownIff : ∀ {front b c back}, pairs = front ++ (b, c) :: back →
      (coldRange closed (coldName b.name) (pairs.map Prod.snd) = (c.addr, c.endWord) ↔
        (∀ pair ∈ front, pair.1.name ≠ b.name) ∧
          (closed = true ∨ back ≠ [] ∨ c.endWord = ['0'])) := by
    intro front b c back split
    subst split
    exact coldRange_own_iff named distinct closed
  constructor
  · rintro ⟨others, isFound, own, _⟩ front b c back split listed
    rw [found] at isFound
    cases isFound
    have pairMem : (b, c) ∈ listedPairs pairs := by
      rw [listedPairs, List.mem_filter, split]
      exact ⟨List.mem_append_right _ List.mem_cons_self, listed⟩
    obtain ⟨f, _, ⟨_, range⟩, _, beginsOwn, endsOwn⟩ := aligned_both aligned own pairMem
    rw [beginsOwn, endsOwn] at range
    exact (ownIff split).mp range.symm
  · intro succeed
    have own : List.Forall₂ (fun f pair => f.baseAddr = pair.1.addr ∧
        f.baseAddrCold = pair.2.addr ∧ f.endAddrCold = pair.2.endWord)
        (functions.filter FuncClass.hasCold) (listedPairs pairs) := by
      apply aligned_imp_of_mem aligned
      rintro f ⟨b, c⟩ pairMem ⟨baseAddr, range⟩
      obtain ⟨inPairs, listed⟩ := List.mem_filter.mp pairMem
      obtain ⟨front, back, split⟩ := List.append_of_mem inPairs
      rw [(ownIff split).mpr (succeed front b c back split listed), Prod.mk.injEq] at range
      exact ⟨baseAddr, range⟩
    refine ⟨functions, found, own, ?_⟩
    have begins : (functions.filter FuncClass.hasCold).map FuncClass.baseAddrCold =
        (listedPairs pairs).map fun pair => pair.2.addr :=
      aligned_map_eq (own.imp fun f pair isOwn => isOwn.2.1)
    rw [begins]
    exact distinct.sublist (List.filter_sublist.map _)

end Owners

/-- A function that jumps to its cold part, and the cold part. -/
def coldPair (name addr jump coldAddr : String) : Block × Block :=
  (⟨addr.toList, name.toList, [(addr ++ ":\teb \tjmp    " ++ jump ++ "\n").toList]⟩,
    ⟨coldAddr.toList, name.toList ++ ".cold".toList, [(coldAddr ++ ":\tc3 \tretq\n").toList]⟩)

/-- Two functions with cold parts. -/
def twoNames : List (Block × Block) :=
  [coldPair "foo" "ff00" "ff20 <foo.cold>" "ff20", coldPair "bar" "ff10" "ff30 <bar.cold>" "ff30"]

theorem findColdParts_own_twoNames :
    (∃ functions, findColdParts (coldListing [['\n']] (twoNames.map Prod.fst)
        (twoNames.map Prod.snd) true) = .ok functions ∧
      OwnColdParts functions (listedPairs twoNames)) ↔
      SearchesSucceed twoNames true := by
  apply findColdParts_own_iff
  · decide +kernel
  · decide +kernel
  · decide +kernel
  · decide +kernel
  · decide +kernel
  · decide +kernel

/-- Two static functions of one name with cold parts. -/
def oneName : List (Block × Block) :=
  [coldPair "init" "ff00" "ff20 <init.cold>" "ff20",
    coldPair "init" "ff10" "ff30 <init.cold>" "ff30"]

/-- Both get the range of the first one's cold part. -/
theorem findColdParts_shares_oneName :
    (∀ b ∈ oneName.map Prod.fst ++ oneName.map Prod.snd, b.WellFormed) ∧
      oneName.map Prod.fst = (oneName.map Prod.fst).filter Block.mentionsCold ∧
      (∀ pair ∈ oneName, pair.2.name = coldName pair.1.name) ∧
      (oneName.map fun pair => pair.2.addr).Nodup ∧
      ¬ ∃ functions, findColdParts (coldListing [] (oneName.map Prod.fst) (oneName.map Prod.snd)
          true) = .ok functions ∧ OwnColdParts functions (listedPairs oneName) := by
  refine ⟨by decide +kernel, by decide +kernel, by decide +kernel, by decide +kernel, ?_⟩
  rintro ⟨functions, found, _, distinct⟩
  have shared : (findColdParts (coldListing [] (oneName.map Prod.fst) (oneName.map Prod.snd)
      true)).map (fun functions => (functions.filter FuncClass.hasCold).map
        FuncClass.baseAddrCold) = .ok ["ff20".toList, "ff20".toList] := by
    decide +kernel
  rw [found] at shared
  have addrs : (functions.filter FuncClass.hasCold).map FuncClass.baseAddrCold =
      ["ff20".toList, "ff20".toList] := Except.ok.inj shared
  rw [addrs] at distinct
  revert distinct
  decide

end Hecaton.Scripts
