import Mathlib.Data.List.Perm.Subperm
import Hecaton.Scripts.Registers

/-!
# The register machine as a greedy scan

The machine takes, behind the push that sets up the frame, every push of a register that
comes later in the expected order than the last one it has taken.  The reference scan says
this without states: it only keeps that last register.
-/

namespace Hecaton.Scripts

/-! ## The reference -/

/-- The last words of the push lines, in order. -/
def pushWords : List Str → List Str
  | [] => []
  | line :: rest =>
      match (if isPlainPush line then (split line).getLast? else none) with
      | some reg => reg :: pushWords rest
      | none => pushWords rest

/-- The words behind the first push of `%rbp`, none when there is no such push. -/
def behindFrame : List Str → Option (List Str)
  | [] => none
  | reg :: rest => if reg = rbpText then some rest else behindFrame rest

/-- A register comes strictly later in the order r15, r14, r13, r12, rbx than the last
recorded one. -/
def isLater (last : Option Saved) (r : Saved) : Bool :=
  last.all fun recorded => recorded.rank < r.rank

/-- Every word that names a later register than the last recorded one is recorded. -/
def greedySaves (last : Option Saved) : List Str → List Saved
  | [] => []
  | reg :: rest =>
      match Saved.ofText? reg with
      | some r => if isLater last r then r :: greedySaves (some r) rest else greedySaves last rest
      | none => greedySaves last rest

/-- The registers that the scan records of some words. -/
def recordedSaves (words : List Str) : List Saved :=
  ((behindFrame words).map (greedySaves none)).getD []

/-! ## The two scans agree -/

/-- The state in which the machine has this last register. -/
def RegState.ofLast : Option Saved → RegState
  | none => .rbp
  | some r => .saved r

@[simp]
theorem RegState.ofLast_accepts (last : Option Saved) (r : Saved) :
    (RegState.ofLast last).accepts r = isLater last r := by
  cases last <;> rfl

theorem pushWords_cons_plain {line : Str} (plain : isPlainPush line = true) {reg : Str}
    (isReg : (split line).getLast? = some reg) (rest : List Str) :
    pushWords (line :: rest) = reg :: pushWords rest := by
  simp [pushWords, plain, isReg]

theorem pushWords_cons_other {line : Str} (other : isPlainPush line = false) (rest : List Str) :
    pushWords (line :: rest) = pushWords rest := by
  simp [pushWords, other]

/-- Behind the frame the machine takes what the reference records. -/
theorem taken_eq_greedySaves (last : Option Saved) (code : List Str) :
    taken (.ofLast last) (pushes code) = greedySaves last (pushWords code) := by
  induction code generalizing last with
  | nil => rfl
  | cons line rest ih =>
      cases plain : isPlainPush line with
      | false =>
          rw [pushWords_cons_other plain]
          rcases pushes_cons_other plain rest with same | unseen
          · rw [same, ih]
          · rw [unseen, taken_none, ih]
      | true =>
          obtain ⟨reg, isReg⟩ := exists_lastWord plain
          rw [pushes_cons_plain plain isReg, pushWords_cons_plain plain isReg, taken, greedySaves,
            Option.bind_some]
          cases Saved.ofText? reg with
          | none => exact ih last
          | some r =>
              simp only [RegState.ofLast_accepts]
              split
              · exact congrArg (r :: ·) (ih (some r))
              · exact ih last

/-- Before the frame no push changes anything. -/
theorem stepPush_reset {reg : Str} (other : reg ≠ rbpText) (f : FuncClass) :
    stepPush reg ⟨.reset, 0, f⟩ = ⟨.reset, 0, f⟩ := by
  simp [stepPush, checkFrame, other, checkIn]

/-- The whole loop, from the start on. -/
theorem scanPushes_reset (code : List Str) (f : FuncClass) :
    scanPushes ⟨.reset, 0, f⟩ code =
      .ok (match behindFrame (pushWords code) with
        | some words => record ⟨.rbp, -8, f⟩ (greedySaves none words)
        | none => ⟨.reset, 0, f⟩) := by
  induction code with
  | nil => rfl
  | cons line rest ih =>
      rw [scanPushes]
      cases plain : isPlainPush line with
      | false =>
          rw [pushWords_cons_other plain]
          exact ih
      | true =>
          obtain ⟨reg, isReg⟩ := exists_lastWord plain
          have word : lastWord line = .ok reg := by rw [lastWord, isReg]
          rw [pushWords_cons_plain plain isReg, behindFrame]
          have notLast : RegState.reset ≠ .saved .rbx := by simp
          simp only [if_true, word, bind, Except.bind]
          rw [if_neg notLast]
          by_cases isFrame : reg = rbpText
          · rw [if_pos isFrame, isFrame, stepPush_rbp, scanPushes_eq rest (by simp)]
            exact congrArg (fun saves => Except.ok (record ⟨.rbp, -8, f⟩ saves))
              (taken_eq_greedySaves none rest)
          · rw [if_neg isFrame, stepPush_reset isFrame]
            exact ih

/-! ## What the reference records -/

/-- The recorded registers come in the expected order, all of them later than the last one. -/
theorem greedySaves_spec (last : Option Saved) (words : List Str) :
    (greedySaves last words).Pairwise (fun r later => r.rank < later.rank) ∧
      ∀ r ∈ greedySaves last words, isLater last r = true := by
  induction words generalizing last with
  | nil => exact ⟨List.Pairwise.nil, by simp [greedySaves]⟩
  | cons reg rest ih =>
      rw [greedySaves]
      split
      · rename_i r _
        split
        · rename_i isNext
          obtain ⟨ordered, later⟩ := ih (some r)
          have behind : ∀ s ∈ greedySaves (some r) rest, r.rank < s.rank := by
            intro s sMem
            simpa [isLater] using later s sMem
          constructor
          · exact List.pairwise_cons.mpr ⟨behind, ordered⟩
          · intro s sMem
            rcases List.mem_cons.mp sMem with rfl | inRest
            · exact isNext
            · cases last with
              | none => rfl
              | some recorded =>
                  have below := behind s inRest
                  simp only [isLater, Option.all_some, decide_eq_true_eq] at isNext ⊢
                  omega
        · exact ih last
      · exact ih last

theorem recordedSaves_pairwise (words : List Str) :
    (recordedSaves words).Pairwise fun r later => r.rank < later.rank := by
  rw [recordedSaves]
  cases behindFrame words with
  | none => exact List.Pairwise.nil
  | some behind => exact (greedySaves_spec none behind).1

/-- At most five registers are recorded. -/
theorem length_le_of_ranks {saves : List Saved}
    (ordered : saves.Pairwise fun r later => r.rank < later.rank) : saves.length ≤ 5 := by
  have ranks : (saves.map Saved.rank).Nodup := by
    rw [List.Nodup, List.pairwise_map]
    exact ordered.imp fun less => Nat.ne_of_lt less
  have inside : saves.map Saved.rank ⊆ List.range 5 := by
    intro n nMem
    obtain ⟨r, _, rfl⟩ := List.mem_map.mp nMem
    cases r <;> simp [Saved.rank]
  have fits := (ranks.subperm inside).length_le
  rwa [List.length_map, List.length_range] at fits

/-- The register at a place of the record has the offset of that place. -/
theorem record_offset_getElem {saves : List Saved}
    (ordered : saves.Pairwise fun r later => r.rank < later.rank) (f : FuncClass) {k : Nat}
    (inside : k < saves.length) :
    (record ⟨.rbp, -8, f⟩ saves).func.offset saves[k] = -8 * ((k : Int) + 1) := by
  have split : saves = saves.take k ++ saves[k] :: saves.drop (k + 1) := by
    rw [← List.drop_eq_getElem_cons inside, List.take_append_drop]
  generalize saves[k] = r at split
  have last : r ∉ saves.drop (k + 1) := by
    intro again
    rw [split, List.pairwise_append] at ordered
    exact Nat.lt_irrefl _ (List.rel_of_pairwise_cons ordered.2.1 again)
  have front : (saves.take k).length = k := List.length_take_of_le (Nat.le_of_lt inside)
  rw [split, record_offset_of_split last, front]
  show (-8 : Int) - 8 * k = _
  omega

theorem record_state_ne_reset {m : RegScan} (started : m.state ≠ .reset) (saves : List Saved) :
    (record m saves).state ≠ .reset := by
  induction saves generalizing m with
  | nil => exact started
  | cons r rest ih => exact ih (by simp)

/-- The recorded offsets of a function whose offsets are unset. -/
theorem findRegisters_eq (lines : List Str) {f : FuncClass} (unset : ∀ r, f.offset r = 100) :
    ∃ g, findRegisters lines f = .ok g ∧
      ∀ r, g.offset r = (record ⟨.rbp, -8, f⟩
        (recordedSaves (pushWords ((lines.take f.endLine).drop f.baseLine)))).func.offset r := by
  have scanned := scanPushes_reset ((lines.take f.endLine).drop f.baseLine) f
  rw [findRegisters, scanned, recordedSaves]
  cases behindFrame (pushWords ((lines.take f.endLine).drop f.baseLine)) with
  | none =>
      refine ⟨_, rfl, ?_⟩
      intro r
      rw [Option.map_none, Option.getD_none]
      show _ = f.offset r
      rw [unset]
      cases r <;> rfl
  | some words =>
      have notReset := record_state_ne_reset (m := ⟨.rbp, -8, f⟩) (by simp) (greedySaves none words)
      refine ⟨_, ?_, fun r => rfl⟩
      simp only [bind, Except.bind, if_neg notReset]
      rfl

/-- The machine records the registers of the greedy scan, eight bytes apart from -8 on.  They
come in the expected order, so behind `%rbx` none follows; their offsets are distinct and lie
between -40 and -8, and every other register keeps 100. -/
theorem findRegisters_greedy (lines : List Str) (f : FuncClass) (unset : ∀ r, f.offset r = 100) :
    ∃ g saves, findRegisters lines f = .ok g ∧
      saves = recordedSaves (pushWords ((lines.take f.endLine).drop f.baseLine)) ∧
      (saves.Pairwise fun r later => r.rank < later.rank) ∧
      (∀ front back, saves = front ++ .rbx :: back → back = []) ∧
      (∀ (k : Nat) (inside : k < saves.length), g.offset saves[k] = -8 * ((k : Int) + 1)) ∧
      (∀ r ∈ saves, -40 ≤ g.offset r ∧ g.offset r ≤ -8) ∧
      (∀ r ∈ saves, ∀ s ∈ saves, g.offset r = g.offset s → r = s) ∧
      ∀ r, r ∉ saves → g.offset r = 100 := by
  obtain ⟨g, found, offsets⟩ := findRegisters_eq lines unset
  have ordered := recordedSaves_pairwise (pushWords ((lines.take f.endLine).drop f.baseLine))
  generalize recordedSaves (pushWords ((lines.take f.endLine).drop f.baseLine)) = saves
    at offsets ordered ⊢
  have atPlace : ∀ (k : Nat) (inside : k < saves.length),
      g.offset saves[k] = -8 * ((k : Int) + 1) := by
    intro k inside
    rw [offsets, record_offset_getElem ordered f inside]
  refine ⟨g, saves, found, rfl, ordered, ?_, atPlace, ?_, ?_, ?_⟩
  · rintro front back rfl
    rw [List.pairwise_append] at ordered
    cases back with
    | nil => rfl
    | cons r rest =>
        have later := List.rel_of_pairwise_cons ordered.2.1 (List.mem_cons_self (a := r) (l := rest))
        cases r <;> simp [Saved.rank] at later
  · intro r rMem
    obtain ⟨k, inside, rfl⟩ := List.getElem_of_mem rMem
    have fits := length_le_of_ranks ordered
    rw [atPlace k inside]
    omega
  · intro r rMem s sMem sameOffset
    obtain ⟨k, inside, rfl⟩ := List.getElem_of_mem rMem
    obtain ⟨l, inside', rfl⟩ := List.getElem_of_mem sMem
    rw [atPlace k inside, atPlace l inside'] at sameOffset
    have samePlace : k = l := by omega
    subst samePlace
    rfl
  · intro r notIn
    rw [offsets, record_offset_of_not_mem notIn]
    exact unset r

/-- A function that pushes before its frame and out of order behind it. -/
def pushesOutOfOrder : List Str :=
  ["ff00:\t41 57 \tpush   %r15\n".toList, "ff02:\t55 \tpush   %rbp\n".toList,
    "ff03:\t41 55 \tpush   %r13\n".toList, "ff05:\t41 56 \tpush   %r14\n".toList,
    "ff07:\t53 \tpush   %rbx\n".toList, "ff08:\tc3 \tretq\n".toList]

/-- Its record in the list of functions. -/
def pushesOutOfOrderRecord : FuncClass :=
  { name := "foo".toList, baseAddr := "ff00".toList, baseLine := 0, endLine := 6 }

theorem findRegisters_greedy_outOfOrder :
    ∃ g, findRegisters pushesOutOfOrder pushesOutOfOrderRecord = .ok g ∧
      g.offset .r13 = -8 ∧ g.offset .rbx = -16 ∧ g.offset .r15 = 100 ∧ g.offset .r14 = 100 := by
  have unset : ∀ r, pushesOutOfOrderRecord.offset r = 100 := by
    intro r
    cases r <;> rfl
  obtain ⟨g, saves, found, areSaves, _, _, offsets, _, _, others⟩ :=
    findRegisters_greedy pushesOutOfOrder pushesOutOfOrderRecord unset
  have recorded : recordedSaves (pushWords ((pushesOutOfOrder.take 6).drop 0)) = [.r13, .rbx] := by
    decide +kernel
  rw [show pushesOutOfOrderRecord.endLine = 6 from rfl,
    show pushesOutOfOrderRecord.baseLine = 0 from rfl, recorded] at areSaves
  subst areSaves
  exact ⟨g, found, offsets 0 (by decide), offsets 1 (by decide), others .r15 (by decide),
    others .r14 (by decide)⟩

end Hecaton.Scripts
