import Hecaton.Scripts.Listing

/-!
# Where registers are saved

A function that sets up a frame pushes `%rbp` and then the registers it saves for
its caller.  The script counts the pushes it recognises and records for each
register how far below `%rbp` it lies.
-/

namespace Hecaton.Scripts

/-! ## The machine -/

/-- The registers that the script looks for, in the order in which it expects them. -/
inductive Saved
  | r15 | r14 | r13 | r12 | rbx
  deriving DecidableEq

namespace Saved

def text : Saved → Str
  | r15 => "%r15".toList
  | r14 => "%r14".toList
  | r13 => "%r13".toList
  | r12 => "%r12".toList
  | rbx => "%rbx".toList

def rank : Saved → Nat
  | r15 => 0
  | r14 => 1
  | r13 => 2
  | r12 => 3
  | rbx => 4

end Saved

/-- The operand of the push that sets up a frame. -/
def rbpText : Str := "%rbp".toList

def FuncClass.offset (f : FuncClass) : Saved → Int
  | .r15 => f.r15
  | .r14 => f.r14
  | .r13 => f.r13
  | .r12 => f.r12
  | .rbx => f.rbx

def FuncClass.setOffset (f : FuncClass) (offset : Int) : Saved → FuncClass
  | .r15 => { f with r15 := offset }
  | .r14 => { f with r14 := offset }
  | .r13 => { f with r13 := offset }
  | .r12 => { f with r12 := offset }
  | .rbx => { f with rbx := offset }

/-- `STATE_RESET`, `STATE_RBP` and one state for each register. -/
inductive RegState
  | reset | rbp | saved (r : Saved)
  deriving DecidableEq

/-- The variables of the loop. -/
structure RegScan where
  state : RegState
  offset : Int
  func : FuncClass

/-- One test of the machine: is it this register that is pushed? -/
def recordIf (reg : Str) (m : RegScan) (r : Saved) : RegScan :=
  if reg = r.text then
    { state := .saved r, offset := m.offset - 8, func := m.func.setOffset m.offset r }
  else m

/-- The tests that are made in a state. -/
def checkIn (state : RegState) (expected : List Saved) (reg : Str) (m : RegScan) : RegScan :=
  if m.state = state then expected.foldl (recordIf reg) m else m

/-- The test for the push of `%rbp`. -/
def checkFrame (reg : Str) (m : RegScan) : RegScan :=
  if m.state = .reset then
    if reg = rbpText then { m with state := .rbp, offset := m.offset - 8 } else m
  else m

/-- What a push of `reg` does. -/
def stepPush (reg : Str) (m : RegScan) : RegScan :=
  let m := checkFrame reg m
  let m := checkIn .rbp [.r15, .r14, .r13, .r12, .rbx] reg m
  let m := checkIn (.saved .r15) [.r14, .r13, .r12, .rbx] reg m
  let m := checkIn (.saved .r14) [.r13, .r12, .rbx] reg m
  let m := checkIn (.saved .r13) [.r12, .rbx] reg m
  checkIn (.saved .r12) [.rbx] reg m

/-- `'\tpush ' in line`. -/
def isPlainPush (line : Str) : Bool := contains line "\tpush ".toList

/-- `words[-1]`. -/
def lastWord (line : Str) : Except PyError Str :=
  match (split line).getLast? with
  | some word => .ok word
  | none => .error .indexError

/-- The loop over the lines of a function. -/
def scanPushes (m : RegScan) : List Str → Except PyError RegScan
  | [] => .ok m
  | line :: rest =>
      if isPlainPush line then do
        let reg ← lastWord line
        if m.state = .saved .rbx then return m
        scanPushes (stepPush reg m) rest
      else scanPushes m rest

/-- The offsets of one function. -/
def findRegisters (lines : List Str) (f : FuncClass) : Except PyError FuncClass := do
  let m ← scanPushes ⟨.reset, 0, f⟩ ((lines.take f.endLine).drop f.baseLine)
  if m.state = .reset then
    return { m.func with rbx := 100, r15 := 100, r14 := 100, r13 := 100, r12 := 100 }
  return m.func

/-! ## The pushes of a function -/

/-- A push instruction, whatever its suffix. -/
def isPush (line : Str) : Bool := contains line "\tpush".toList

/-- The operand of a plain push.  Others push no register. -/
def pushed (line : Str) : Option Str :=
  if isPlainPush line then (split line).getLast? else none

/-- What the pushes in some lines push. -/
def pushes (code : List Str) : List (Option Str) := (code.filter isPush).map pushed

/-- A recorded offset is that of the push that saves the register. -/
def SlotsReal (f : FuncClass) (pushes : List (Option Str)) : Prop :=
  ∀ r, f.offset r ≠ 100 →
    ∃ k, pushes.findIdx? (fun operand => operand == some (Saved.text r)) = some k ∧
      f.offset r = -(8 * k)

/-- The registers are saved first, in the expected order: behind these saves there is
no push of a register that comes later in that order than all of them. -/
def SavesFirst (operands : List (Option Str)) : Prop :=
  ∃ (saves : List Saved) (others : List (Option Str)),
    operands = saves.map (fun r => some r.text) ++ others ∧
      saves.Pairwise (fun r later => r.rank < later.rank) ∧
      ∀ r : Saved, some r.text ∈ others → ∃ earlier ∈ saves, r.rank ≤ earlier.rank

/-! ## What a push does -/

/-- The register of an operand. -/
def Saved.ofText? (reg : Str) : Option Saved :=
  [Saved.r15, .r14, .r13, .r12, .rbx].find? fun r => reg == r.text

/-- The machine records the register in the state. -/
def RegState.accepts : RegState → Saved → Bool
  | .reset, _ => false
  | .rbp, _ => true
  | .saved last, r => last.rank < r.rank

theorem Saved.ofText?_text (r : Saved) : Saved.ofText? r.text = some r := by
  cases r <;> decide

theorem Saved.text_of_ofText? {reg : Str} {r : Saved} (isReg : Saved.ofText? reg = some r) :
    reg = r.text := by
  simpa using List.find?_some isReg

theorem Saved.text_injective {r s : Saved} (same : r.text = s.text) : r = s := by
  have found := Saved.ofText?_text r
  rw [same, Saved.ofText?_text] at found
  exact (Option.some.inj found).symm

theorem Saved.text_ne_rbp (r : Saved) : r.text ≠ rbpText := by
  cases r <;> decide

theorem stepPush_of_none {reg : Str} (other : Saved.ofText? reg = none) {m : RegScan}
    (started : m.state ≠ .reset) : stepPush reg m = m := by
  have ne : ∀ r, reg ≠ Saved.text r := by
    rintro r rfl
    rw [Saved.ofText?_text] at other
    cases other
  simp [stepPush, checkFrame, started, checkIn, recordIf, ne]

/-- In a state that waits for the register the push is recorded. -/
theorem stepPush_of_accepts {m : RegScan} {r : Saved} (accepts : m.state.accepts r = true) :
    stepPush r.text m =
      { state := .saved r, offset := m.offset - 8, func := m.func.setOffset m.offset r } := by
  obtain ⟨state, offset, func⟩ := m
  cases state with
  | reset => simp [RegState.accepts] at accepts
  | rbp => cases r <;> rfl
  | saved last =>
      cases last <;> cases r <;> first | rfl | simp [RegState.accepts, Saved.rank] at accepts

/-- In another state it is not. -/
theorem stepPush_of_not_accepts {m : RegScan} {r : Saved} (started : m.state ≠ .reset)
    (ignores : m.state.accepts r = false) : stepPush r.text m = m := by
  obtain ⟨state, offset, func⟩ := m
  cases state with
  | reset => exact absurd rfl started
  | rbp => simp [RegState.accepts] at ignores
  | saved last =>
      cases last <;> cases r <;> first | rfl | simp [RegState.accepts, Saved.rank] at ignores

/-! ## What the loop records -/

/-- The registers that are recorded from a state on. -/
def taken : RegState → List (Option Str) → List Saved
  | _, [] => []
  | state, operand :: rest =>
      match operand.bind Saved.ofText? with
      | some r => if state.accepts r then r :: taken (.saved r) rest else taken state rest
      | none => taken state rest

/-- The machine after some records. -/
def record (m : RegScan) (registers : List Saved) : RegScan :=
  registers.foldl (fun m r =>
    { state := .saved r, offset := m.offset - 8, func := m.func.setOffset m.offset r }) m

theorem taken_saved_rbx (operands : List (Option Str)) : taken (.saved .rbx) operands = [] := by
  have ignores : ∀ r, RegState.accepts (.saved .rbx) r = false := by
    intro r
    cases r <;> rfl
  induction operands with
  | nil => rfl
  | cons operand rest ih =>
      rw [taken]
      split
      · rw [ignores, ih]
        rfl
      · exact ih

theorem isPush_of_isPlainPush {line : Str} (plain : isPlainPush line = true) :
    isPush line = true := by
  obtain ⟨front, back, split⟩ := of_decide_eq_true plain
  apply contains_of_infix
  exact ⟨front, ' ' :: back, by simp [← split]⟩

/-- A line with a plain push has a last word. -/
theorem exists_lastWord {line : Str} (plain : isPlainPush line = true) :
    ∃ reg, (split line).getLast? = some reg := by
  obtain ⟨front, back, isLine⟩ := of_decide_eq_true plain
  have words : split line = split front ++ "push".toList :: split back := by
    have shape : line = front ++ '\t' :: ("push".toList ++ ' ' :: back) := by simp [← isLine]
    have isWord : IsWord "push".toList := by decide
    have tab : isSpace '\t' = true := by decide
    have behind : split ("push".toList ++ ' ' :: back) = "push".toList :: split back :=
      split_word_append isWord back (by decide)
    rw [← behind, shape]
    exact Hecaton.Library.words_append_cons front _ tab
  apply Option.isSome_iff_exists.mp
  rw [words]
  simp

theorem pushes_cons_plain {line : Str} (plain : isPlainPush line = true) {reg : Str}
    (isReg : (split line).getLast? = some reg) (rest : List Str) :
    pushes (line :: rest) = some reg :: pushes rest := by
  simp [pushes, isPush_of_isPlainPush plain, pushed, plain, isReg]

theorem pushes_cons_other {line : Str} (other : isPlainPush line = false) (rest : List Str) :
    pushes (line :: rest) = pushes rest ∨ pushes (line :: rest) = none :: pushes rest := by
  cases push : isPush line with
  | false =>
      left
      simp [pushes, push]
  | true =>
      right
      simp [pushes, push, pushed, other]

theorem taken_none (state : RegState) (rest : List (Option Str)) :
    taken state (none :: rest) = taken state rest := rfl

/-- Once the frame is set up the loop records the registers that are taken. -/
theorem scanPushes_eq (code : List Str) {m : RegScan} (started : m.state ≠ .reset) :
    scanPushes m code = .ok (record m (taken m.state (pushes code))) := by
  induction code generalizing m with
  | nil => rfl
  | cons line rest ih =>
      rw [scanPushes]
      cases plain : isPlainPush line with
      | false =>
          have sameTaken : taken m.state (pushes (line :: rest)) = taken m.state (pushes rest) := by
            rcases pushes_cons_other plain rest with same | unseen
            · rw [same]
            · rw [unseen, taken_none]
          rw [sameTaken]
          exact ih started
      | true =>
          obtain ⟨reg, isReg⟩ := exists_lastWord plain
          have word : lastWord line = .ok reg := by rw [lastWord, isReg]
          rw [pushes_cons_plain plain isReg]
          simp only [if_true, word, bind, Except.bind]
          by_cases last : m.state = .saved .rbx
          · rw [if_pos last, last, taken_saved_rbx]
            rfl
          · rw [if_neg last, taken, Option.bind_some]
            cases isSaved : Saved.ofText? reg with
            | none =>
                rw [stepPush_of_none isSaved started]
                exact ih started
            | some r =>
                rw [Saved.text_of_ofText? isSaved]
                cases accepts : m.state.accepts r with
                | true =>
                    have next : (RegScan.mk (.saved r) (m.offset - 8)
                        (m.func.setOffset m.offset r)).state ≠ .reset := by simp
                    simp only [accepts, if_true]
                    rw [stepPush_of_accepts accepts, ih next]
                    rfl
                | false =>
                    simp only [accepts, Bool.false_eq_true, if_false]
                    rw [stepPush_of_not_accepts started accepts]
                    exact ih started

theorem scanPushes_no_push (code : List Str) (noPush : pushes code = []) (m : RegScan) :
    scanPushes m code = .ok m := by
  induction code with
  | nil => rfl
  | cons line rest ih =>
      rw [scanPushes]
      cases plain : isPlainPush line with
      | false =>
          rcases pushes_cons_other plain rest with same | unseen
          · exact ih (same.symm.trans noPush)
          · rw [unseen] at noPush
            cases noPush
      | true =>
          obtain ⟨reg, isReg⟩ := exists_lastWord plain
          rw [pushes_cons_plain plain isReg] at noPush
          cases noPush

theorem stepPush_rbp (f : FuncClass) : stepPush rbpText ⟨.reset, 0, f⟩ = ⟨.rbp, -8, f⟩ := by
  have ne : ∀ r, rbpText ≠ Saved.text r := fun r => (Saved.text_ne_rbp r).symm
  have started : checkFrame rbpText ⟨.reset, 0, f⟩ = ⟨.rbp, -8, f⟩ := by
    simp [checkFrame]
  simp [stepPush, started, checkIn, recordIf, ne]

/-- The push of `%rbp` starts the machine. -/
theorem scanPushes_frame (code : List Str) {operands : List (Option Str)}
    (frame : pushes code = some rbpText :: operands) (func : FuncClass) :
    scanPushes ⟨.reset, 0, func⟩ code =
      .ok (record ⟨.rbp, -8, func⟩ (taken .rbp operands)) := by
  induction code with
  | nil => cases frame
  | cons line rest ih =>
      rw [scanPushes]
      cases plain : isPlainPush line with
      | false =>
          rcases pushes_cons_other plain rest with same | unseen
          · exact ih (same.symm.trans frame)
          · rw [unseen] at frame
            cases frame
      | true =>
          obtain ⟨reg, isReg⟩ := exists_lastWord plain
          have word : lastWord line = .ok reg := by rw [lastWord, isReg]
          rw [pushes_cons_plain plain isReg] at frame
          obtain ⟨isRbp, isRest⟩ := List.cons.inj frame
          cases isRbp
          have notLast : RegState.reset ≠ .saved .rbx := by simp
          simp only [if_true, word, bind, Except.bind]
          rw [if_neg notLast, stepPush_rbp, scanPushes_eq rest (by simp), isRest]

/-! ## The recorded registers -/

theorem RegState.accepts_of_saved {state : RegState} {r s : Saved}
    (accepts : state.accepts r = true) (later : RegState.accepts (.saved r) s = true) :
    state.accepts s = true := by
  cases state with
  | reset => cases accepts
  | rbp => rfl
  | saved last =>
      simp only [RegState.accepts, decide_eq_true_eq] at accepts later ⊢
      omega

/-- The recorded registers come in the expected order. -/
theorem taken_spec (state : RegState) (operands : List (Option Str)) :
    (taken state operands).Pairwise (fun r later => r.rank < later.rank) ∧
      ∀ r ∈ taken state operands, state.accepts r = true := by
  induction operands generalizing state with
  | nil => exact ⟨List.Pairwise.nil, nofun⟩
  | cons operand rest ih =>
      rw [taken]
      split
      · rename_i r _
        split
        · rename_i accepts
          obtain ⟨ordered, accepted⟩ := ih (.saved r)
          constructor
          · rw [List.pairwise_cons]
            refine ⟨?_, ordered⟩
            intro later laterMem
            simpa [RegState.accepts] using accepted later laterMem
          · intro s sMem
            rcases List.mem_cons.mp sMem with rfl | inRest
            · exact accepts
            · exact RegState.accepts_of_saved accepts (accepted s inRest)
        · exact ih state
      · exact ih state

theorem taken_length_le (state : RegState) (operands : List (Option Str)) :
    (taken state operands).length ≤ operands.length := by
  induction operands generalizing state with
  | nil => exact Nat.le_refl _
  | cons operand rest ih =>
      rw [taken, List.length_cons]
      split
      · split
        · exact Nat.succ_le_succ (ih _)
        · exact Nat.le_succ_of_le (ih _)
      · exact Nat.le_succ_of_le (ih _)

/-- Nothing is recorded exactly when no push is of a register that is accepted. -/
theorem taken_eq_nil_iff {state : RegState} {operands : List (Option Str)} :
    taken state operands = [] ↔
      ∀ r : Saved, some r.text ∈ operands → state.accepts r = false := by
  induction operands with
  | nil => simp [taken]
  | cons operand rest ih =>
      rw [taken]
      cases isSaved : operand.bind Saved.ofText? with
      | none =>
          have other : ∀ r, some (Saved.text r) ≠ operand := by
            rintro r rfl
            rw [Option.bind_some, Saved.ofText?_text] at isSaved
            cases isSaved
          simp [ih, other]
      | some r =>
          have isOperand : operand = some r.text := by
            obtain ⟨reg, rfl, isReg⟩ := Option.bind_eq_some_iff.mp isSaved
            rw [Saved.text_of_ofText? isReg]
          cases accepts : state.accepts r with
          | true =>
              simp only [accepts, if_true, reduceCtorEq, false_iff, not_forall]
              refine ⟨r, ?_, by simp [accepts]⟩
              rw [isOperand]
              exact List.mem_cons_self
          | false =>
              simp only [accepts, Bool.false_eq_true, if_false, ih]
              constructor
              · intro noneIn s sMem
                rcases List.mem_cons.mp sMem with same | inRest
                · rw [isOperand] at same
                  rw [Saved.text_injective (Option.some.inj same), accepts]
                · exact noneIn s inRest
              · intro noneIn s inRest
                exact noneIn s (List.mem_cons_of_mem _ inRest)

/-- The state after some records. -/
def stateAfter (state : RegState) (saves : List Saved) : RegState :=
  saves.foldl (fun _ r => .saved r) state

/-- Saves in the expected order are all recorded. -/
theorem taken_saves_append {saves : List Saved}
    (ordered : saves.Pairwise fun r later => r.rank < later.rank) {state : RegState}
    (accepted : ∀ r ∈ saves, state.accepts r = true) (others : List (Option Str)) :
    taken state (saves.map (fun r => some r.text) ++ others) =
      saves ++ taken (stateAfter state saves) others := by
  induction saves generalizing state with
  | nil => rfl
  | cons r rest ih =>
      obtain ⟨before, restOrdered⟩ := List.pairwise_cons.mp ordered
      have restAccepted : ∀ s ∈ rest, RegState.accepts (.saved r) s = true := by
        intro s sMem
        simpa [RegState.accepts] using before s sMem
      rw [List.map_cons, List.cons_append, taken, Option.bind_some, Saved.ofText?_text]
      simp only [accepted r List.mem_cons_self, if_true]
      rw [ih restOrdered restAccepted]
      rfl

/-- After saves from the frame on the machine ignores a register exactly when it does
not come after all of them. -/
theorem stateAfter_ignores_iff {saves : List Saved}
    (ordered : saves.Pairwise fun r later => r.rank < later.rank) (r : Saved) :
    (stateAfter .rbp saves).accepts r = false ↔ ∃ earlier ∈ saves, r.rank ≤ earlier.rank := by
  rcases List.eq_nil_or_concat saves with rfl | ⟨front, last, rfl⟩
  · simp [stateAfter, RegState.accepts]
  · have isLast : stateAfter .rbp (front ++ [last]) = .saved last := by simp [stateAfter]
    have isConcat : front.concat last = front ++ [last] := List.concat_eq_append
    rw [isConcat] at ordered ⊢
    have before := (List.pairwise_append.mp ordered).2.2
    rw [isLast]
    simp only [RegState.accepts, decide_eq_false_iff_not, Nat.not_lt]
    constructor
    · intro notLater
      exact ⟨last, List.mem_append_right _ List.mem_cons_self, notLater⟩
    · rintro ⟨earlier, earlierMem, notLater⟩
      rcases List.mem_append.mp earlierMem with inFront | isEarlier
      · exact Nat.le_trans notLater (Nat.le_of_lt (before earlier inFront last List.mem_cons_self))
      · rwa [List.mem_singleton.mp isEarlier] at notLater

/-- The registers are saved first exactly when the recorded ones are the operands of
the first pushes. -/
theorem savesFirst_iff (operands : List (Option Str)) :
    SavesFirst operands ↔ (taken .rbp operands).map (fun r => some r.text) <+: operands := by
  constructor
  · rintro ⟨saves, others, rfl, ordered, noLater⟩
    have noneTaken : taken (stateAfter .rbp saves) others = [] := by
      rw [taken_eq_nil_iff]
      intro r rMem
      exact (stateAfter_ignores_iff ordered r).mpr (noLater r rMem)
    rw [taken_saves_append ordered (fun _ _ => rfl), noneTaken, List.append_nil]
    exact List.prefix_append _ _
  · rintro ⟨others, split⟩
    obtain ⟨ordered, _⟩ := taken_spec .rbp operands
    refine ⟨taken .rbp operands, others, split.symm, ordered, ?_⟩
    have again := taken_saves_append ordered (fun _ _ => rfl : ∀ r ∈ taken .rbp operands,
      RegState.accepts .rbp r = true) others
    rw [split] at again
    have noneTaken := List.self_eq_append_right.mp again
    intro r rMem
    exact (stateAfter_ignores_iff ordered r).mp (taken_eq_nil_iff.mp noneTaken r rMem)

/-! ## The recorded offsets -/

theorem offset_setOffset (f : FuncClass) (offset : Int) (r s : Saved) :
    (f.setOffset offset r).offset s = if s = r then offset else f.offset s := by
  cases r <;> cases s <;> rfl

/-- A register that is not recorded keeps its offset. -/
theorem record_offset_of_not_mem {registers : List Saved} {r : Saved} (notIn : r ∉ registers)
    (m : RegScan) : (record m registers).func.offset r = m.func.offset r := by
  induction registers generalizing m with
  | nil => rfl
  | cons s rest ih =>
      have ne : r ≠ s := List.ne_of_not_mem_cons notIn
      have later := ih (List.not_mem_of_not_mem_cons notIn)
        ⟨.saved s, m.offset - 8, m.func.setOffset m.offset s⟩
      rw [offset_setOffset, if_neg ne] at later
      exact later

/-- The registers are recorded eight bytes apart. -/
theorem record_offset_of_split {front back : List Saved} {r : Saved} (last : r ∉ back)
    (m : RegScan) :
    (record m (front ++ r :: back)).func.offset r = m.offset - 8 * front.length := by
  induction front generalizing m with
  | nil =>
      have kept := record_offset_of_not_mem last
        ⟨.saved r, m.offset - 8, m.func.setOffset m.offset r⟩
      rw [offset_setOffset, if_pos rfl] at kept
      have first : m.offset - 8 * (([] : List Saved).length : Int) = m.offset := by simp
      rw [first]
      exact kept
  | cons s front ih =>
      have later := ih ⟨.saved s, m.offset - 8, m.func.setOffset m.offset s⟩
      rw [List.length_cons]
      have apart : m.offset - 8 * ((front.length + 1 : Nat) : Int) =
          m.offset - 8 - 8 * (front.length : Int) := by
        push_cast
        omega
      rw [apart]
      exact later

/-- The recorded offsets are real exactly when the recorded registers are the operands
of the first pushes. -/
theorem slotsReal_record_iff {f : FuncClass} (unset : ∀ r, f.offset r = 100)
    (operands more : List (Option Str)) :
    SlotsReal (record ⟨.rbp, -8, f⟩ (taken .rbp operands)).func
        (some rbpText :: (operands ++ more)) ↔
      (taken .rbp operands).map (fun r => some r.text) <+: operands := by
  obtain ⟨ordered, _⟩ := taken_spec .rbp operands
  have short := taken_length_le .rbp operands
  generalize taken .rbp operands = registers at ordered short
  have offsetOf : ∀ {front r back}, registers = front ++ r :: back →
      (record ⟨.rbp, -8, f⟩ registers).func.offset r = -(8 * ((front.length + 1 : Nat) : Int)) := by
    intro front r back split
    rw [split] at ordered
    have last : r ∉ back := by
      intro again
      have later := (List.pairwise_cons.mp (List.pairwise_append.mp ordered).2.1).1 r again
      exact Nat.lt_irrefl _ later
    rw [split, record_offset_of_split last]
    push_cast
    omega
  constructor
  · intro real
    rw [List.prefix_iff_getElem?]
    intro i bound
    have inRegisters : i < registers.length := by simpa using bound
    have isSplit : registers =
        registers.take i ++ registers[i] :: registers.drop (i + 1) := by simp
    have recorded := offsetOf isSplit
    rw [List.length_take_of_le (Nat.le_of_lt inRegisters)] at recorded
    obtain ⟨k, isFirst, isOffset⟩ := real registers[i] (by rw [recorded]; omega)
    have isIndex : k = i + 1 := by
      rw [recorded] at isOffset
      omega
    rw [isIndex] at isFirst
    obtain ⟨inBounds, isSave, _⟩ := List.findIdx?_eq_some_iff_getElem.mp isFirst
    have here : (operands ++ more)[i]? = some (some registers[i].text) := by
      rw [List.getElem?_eq_getElem (by simpa using inBounds)]
      simpa using isSave
    rw [List.getElem?_append_left (Nat.lt_of_lt_of_le inRegisters short)] at here
    rw [List.getElem_map, here]
  · intro isPrefix r recorded
    have rMem : r ∈ registers := by
      by_contra notIn
      rw [record_offset_of_not_mem notIn] at recorded
      exact recorded (unset r)
    obtain ⟨front, back, split⟩ := List.append_of_mem rMem
    refine ⟨front.length + 1, ?_, offsetOf split⟩
    obtain ⟨others, isPrefix⟩ := isPrefix
    rw [split] at ordered isPrefix
    have notBefore : ∀ operand ∈ some rbpText :: front.map fun r => some (Saved.text r),
        (operand == some r.text) = false := by
      intro operand operandMem
      rw [beq_eq_false_iff_ne]
      rintro rfl
      rcases List.mem_cons.mp operandMem with isRbp | inFront
      · exact Saved.text_ne_rbp r (Option.some.inj isRbp)
      · obtain ⟨s, sMem, same⟩ := List.mem_map.mp inFront
        rw [Saved.text_injective (Option.some.inj same)] at sMem
        have later := (List.pairwise_append.mp ordered).2.2 r sMem r List.mem_cons_self
        exact Nat.lt_irrefl _ later
    have shape : some rbpText :: (operands ++ more) =
        (some rbpText :: front.map fun r => some (Saved.text r)) ++
          some r.text :: (back.map (fun r => some (Saved.text r)) ++ others ++ more) := by
      rw [← isPrefix]
      simp
    have noneBefore : (some rbpText :: front.map fun r => some (Saved.text r)).findIdx?
        (fun operand => operand == some r.text) = none := by
      rw [List.findIdx?_eq_none_iff]
      exact notBefore
    rw [shape, List.findIdx?_append, noneBefore, List.findIdx?_cons]
    simp

theorem pushes_append (first second : List Str) :
    pushes (first ++ second) = pushes first ++ pushes second := by
  simp [pushes]

/-- The lines that the loop reads: all but the last. -/
theorem linesRead (front more : List Str) (b : Block) :
    ((front ++ b.closedLines ++ more).take (b.record front.length).endLine).drop
      (b.record front.length).baseLine = b.lines.dropLast := by
  have nonempty : b.lines ≠ [] := List.cons_ne_nil _ _
  have shape : front ++ b.closedLines ++ more =
      (front ++ b.lines.dropLast) ++ (b.lines.getLast nonempty :: ['\n'] :: more) := by
    have split := List.dropLast_append_getLast nonempty
    rw [Block.closedLines]
    nth_rewrite 1 [← split]
    simp
  have length : (b.record front.length).endLine = (front ++ b.lines.dropLast).length := by
    simp [Block.record, Block.lines]
  have base : (b.record front.length).baseLine = front.length := rfl
  rw [shape, length, List.take_left, base, List.drop_left]

/-- In a function that sets up a frame the recorded offsets are real exactly when the
registers are saved first.  The last line is not read. -/
theorem findRegisters_slotsReal_iff (front more : List Str) (b : Block)
    {operands : List (Option Str)} (frame : pushes b.lines = some rbpText :: operands) :
    (∃ f, findRegisters (front ++ b.closedLines ++ more) (b.record front.length) = .ok f ∧
      SlotsReal f (pushes b.lines)) ↔ SavesFirst (pushes b.lines.dropLast).tail := by
  have nonempty : b.lines ≠ [] := List.cons_ne_nil _ _
  have split : pushes b.lines =
      pushes b.lines.dropLast ++ pushes [b.lines.getLast nonempty] := by
    rw [← pushes_append, List.dropLast_append_getLast]
  have unset : ∀ r, (b.record front.length).offset r = 100 := by
    intro r
    cases r <;> rfl
  rw [findRegisters, linesRead]
  cases read : pushes b.lines.dropLast with
  | nil =>
      have scanned := scanPushes_no_push _ read ⟨.reset, 0, b.record front.length⟩
      constructor
      · intro _
        exact ⟨[], [], rfl, List.Pairwise.nil, nofun⟩
      · intro _
        refine ⟨b.record front.length, ?_, ?_⟩
        · rw [scanned]
          rfl
        · intro r recorded
          exact absurd (unset r) recorded
  | cons first rest =>
      rw [split, read, List.cons_append] at frame
      obtain ⟨isRbp, _⟩ := List.cons.inj frame
      rw [isRbp] at read
      have scanned := scanPushes_frame _ read (b.record front.length)
      have started : ∀ registers, (record ⟨.rbp, -8, b.record front.length⟩ registers).state ≠
          .reset := by
        intro registers
        rcases List.eq_nil_or_concat registers with rfl | ⟨others, last, rfl⟩
        · simp [record]
        · simp [record]
      have found : (do
          let m ← scanPushes ⟨.reset, 0, b.record front.length⟩ b.lines.dropLast
          if m.state = .reset then
            return { m.func with rbx := 100, r15 := 100, r14 := 100, r13 := 100, r12 := 100 }
          return m.func : Except PyError FuncClass) =
          .ok (record ⟨.rbp, -8, b.record front.length⟩ (taken .rbp rest)).func := by
        rw [scanned]
        simp only [bind, Except.bind]
        rw [if_neg (started _)]
        rfl
      rw [found, savesFirst_iff, List.tail_cons, ← slotsReal_record_iff unset rest
        (pushes [b.lines.getLast nonempty]), split, read]
      constructor
      · rintro ⟨f, isFound, real⟩
        cases isFound
        exact real
      · intro real
        exact ⟨_, rfl, real⟩

/-- A function that saves two registers first. -/
def savesTwo : Block :=
  ⟨"ff00".toList, "foo".toList,
    ["ff00:\t55 \tpush   %rbp\n".toList, "ff01:\t41 54 \tpush   %r12\n".toList,
      "ff03:\t53 \tpush   %rbx\n".toList, "ff04:\t6a 00 \tpushq  $0x0\n".toList,
      "ff06:\tc3 \tretq\n".toList]⟩

theorem findRegisters_slotsReal_savesTwo :
    (∃ f, findRegisters ([['\n']] ++ savesTwo.closedLines ++ []) (savesTwo.record 1) = .ok f ∧
      SlotsReal f (pushes savesTwo.lines)) ↔ SavesFirst (pushes savesTwo.lines.dropLast).tail := by
  have frame : pushes savesTwo.lines =
      some rbpText :: [some "%r12".toList, some "%rbx".toList, none] := by decide +kernel
  exact findRegisters_slotsReal_iff [['\n']] [] savesTwo frame

/-- A function that pushes an argument register between two saves. -/
def pushesBetween : Block :=
  ⟨"ff00".toList, "foo".toList,
    ["ff00:\t55 \tpush   %rbp\n".toList, "ff01:\t41 54 \tpush   %r12\n".toList,
      "ff03:\t41 52 \tpush   %r10\n".toList, "ff05:\t53 \tpush   %rbx\n".toList,
      "ff06:\tc3 \tretq\n".toList]⟩

/-- The third push saves `%rbx`, which is recorded in the slot of the second. -/
theorem findRegisters_misplaces_rbx :
    pushes pushesBetween.lines =
        some rbpText :: [some "%r12".toList, some "%r10".toList, some "%rbx".toList] ∧
      ¬ ∃ f, findRegisters pushesBetween.closedLines (pushesBetween.record 0) = .ok f ∧
        SlotsReal f (pushes pushesBetween.lines) := by
  refine ⟨by decide +kernel, ?_⟩
  rintro ⟨f, found, real⟩
  have recorded : (findRegisters pushesBetween.closedLines (pushesBetween.record 0)).map
      FuncClass.rbx = .ok (-16) := by
    decide +kernel
  rw [found] at recorded
  have isOffset : f.offset .rbx = -16 := Except.ok.inj recorded
  obtain ⟨k, isFirst, isSlot⟩ := real .rbx (by rw [isOffset]; decide)
  have third : (pushes pushesBetween.lines).findIdx?
      (fun operand => operand == some (Saved.text .rbx)) = some 3 := by
    decide +kernel
  rw [third] at isFirst
  cases isFirst
  rw [isOffset] at isSlot
  exact absurd isSlot (by decide)

end Hecaton.Scripts
