import Hecaton.Clang.Build
import Hecaton.Library.KeptApart
import Hecaton.Library.Run
import Hecaton.Pass2.Gotos

/-!
# Which gotos remain

The three loops of `insert_gotos`, round by round.  A place that is marked still marks the
places behind it, so that what remains is what shares a line with no earlier candidate and
with no excluded statement.
-/

namespace Hecaton.Pass2

open Hecaton.Clang Hecaton.Library

/-! ## The loops -/

/-- The outer `while` loop that marks later places: those the iterator has passed and those
before it.  `none` when the rounds do not bring it to the end. -/
def markLaterRounds : Nat → List GotosInsertLoc → List GotosInsertLoc →
    Option (List GotosInsertLoc)
  | _, passed, [] => some passed
  | 0, _, _ :: _ => none
  | rounds + 1, passed, gtil :: rest =>
      markLaterRounds rounds (passed ++ [gtil]) (markShared gtil rest)

/-- The `while` loop that erases the marked places.  The pointers come from `new`, none of
them is null. -/
def eraseRounds : Nat → List GotosInsertLoc → List GotosInsertLoc → Option (List GotosInsertLoc)
  | _, passed, [] => some passed
  | 0, _, _ :: _ => none
  | rounds + 1, passed, gtil :: rest =>
      if gtil.shouldErase then eraseRounds rounds passed rest
      else eraseRounds rounds (passed ++ [gtil]) rest

/-- The places that `insert_gotos` leaves in `gotos_should_insert`. -/
def remainingGotos (rounds : Nat) (lists : GotosLists) : Option (List GotosInsertLoc) :=
  (markLaterRounds rounds [] lists.shouldInsert).bind fun marked =>
    eraseRounds rounds [] (markExcluded marked lists.shouldntInsert)

/-! ## Marking -/

/-- A place, marked when it shares a line with `gtil`. -/
def markedBy (gtil gtil2 : GotosInsertLoc) : GotosInsertLoc :=
  if gtil.sharesLine gtil2 then { gtil2 with shouldErase := true } else gtil2

theorem sharesLine_markedBy (gtil gtil2 other : GotosInsertLoc) :
    gtil.sharesLine (markedBy gtil2 other) = gtil.sharesLine other := by
  rw [markedBy]
  split <;> rfl

theorem markShared_markedBy (gtil gtil2 : GotosInsertLoc) (gtils : List GotosInsertLoc) :
    markShared (markedBy gtil gtil2) gtils = markShared gtil2 gtils := by
  rw [markedBy]
  split <;> rfl

/-- Two marks may be set in any order. -/
theorem markShared_comm (gtil gtil2 : GotosInsertLoc) (gtils : List GotosInsertLoc) :
    markShared gtil (markShared gtil2 gtils) = markShared gtil2 (markShared gtil gtils) := by
  have asMap : ∀ place, markShared place = List.map (markedBy place) := fun _ => rfl
  rw [asMap, asMap, List.map_map, List.map_map]
  apply List.map_congr_left
  intro other _
  rw [Function.comp_apply, Function.comp_apply, markedBy, sharesLine_markedBy, markedBy,
    markedBy, sharesLine_markedBy, markedBy]
  split <;> split <;> rfl

theorem markLater_markShared (gtil : GotosInsertLoc) (gtils : List GotosInsertLoc) :
    markLater (markShared gtil gtils) = markShared gtil (markLater gtils) := by
  induction gtils with
  | nil => rfl
  | cons gtil2 rest ih =>
      change markedBy gtil gtil2 :: markShared (markedBy gtil gtil2) (markLater (markShared gtil rest)) =
        markedBy gtil gtil2 :: markShared gtil (markShared gtil2 (markLater rest))
      rw [markShared_markedBy, ih, markShared_comm]

theorem length_markShared (gtil : GotosInsertLoc) (gtils : List GotosInsertLoc) :
    (markShared gtil gtils).length = gtils.length :=
  List.length_map ..

theorem length_markLater (gtils : List GotosInsertLoc) :
    (markLater gtils).length = gtils.length := by
  induction gtils with
  | nil => rfl
  | cons gtil rest ih => rw [markLater, List.length_cons, length_markShared, ih, List.length_cons]

theorem length_markExcluded (gtils excluded : List GotosInsertLoc) :
    (markExcluded gtils excluded).length = gtils.length := by
  induction excluded generalizing gtils with
  | nil => rfl
  | cons gtil rest ih => rw [markExcluded, ih, length_markShared]

/-- One round for each place is enough to mark. -/
theorem markLaterRounds_eq {rounds : Nat} {gtils : List GotosInsertLoc}
    (enough : gtils.length ≤ rounds) (passed : List GotosInsertLoc) :
    markLaterRounds rounds passed gtils = some (passed ++ markLater gtils) := by
  induction rounds, gtils, enough using rounds_induction generalizing passed with
  | done rounds => cases rounds <;> simp [markLaterRounds, markLater]
  | round rounds gtil rest fewer ih =>
      have fewerMarked : (markShared gtil rest).length ≤ rounds := by rwa [length_markShared]
      rw [markLaterRounds, ih _ fewerMarked, markLater_markShared, markLater, List.append_assoc,
        List.singleton_append]

/-- One round for each place is enough to erase. -/
theorem eraseRounds_eq {rounds : Nat} {gtils : List GotosInsertLoc}
    (enough : gtils.length ≤ rounds) (passed : List GotosInsertLoc) :
    eraseRounds rounds passed gtils = some (passed ++ eraseMarked gtils) := by
  induction rounds, gtils, enough using rounds_induction generalizing passed with
  | done rounds => cases rounds <;> simp [eraseRounds, eraseMarked]
  | round rounds gtil rest fewer ih =>
      rw [eraseRounds]
      cases marked : gtil.shouldErase with
      | true => simp [ih rest fewer, eraseMarked, marked]
      | false => simp [ih rest fewer, eraseMarked, marked]

theorem remainingGotos_eq {rounds : Nat} {lists : GotosLists}
    (enough : lists.shouldInsert.length ≤ rounds) :
    remainingGotos rounds lists =
      some (eraseMarked (markExcluded (markLater lists.shouldInsert) lists.shouldntInsert)) := by
  have enoughMarked :
      (markExcluded (markLater lists.shouldInsert) lists.shouldntInsert).length ≤ rounds := by
    rwa [length_markExcluded, length_markLater]
  rw [remainingGotos, markLaterRounds_eq enough, Option.bind_some, List.nil_append,
    eraseRounds_eq enoughMarked, List.nil_append]

/-- `insert_gotos` writes a goto behind each place that remains. -/
theorem insertGotos_eq_remaining (sm : SourceManager) (FuncBody : Stmt) :
    ∃ rounds, (remainingGotos rounds (gotosVisit sm FuncBody FuncBody {})).map
      (List.map fun gtil => (⟨gtil.aftersemi, .hgoto⟩ : Insertion)) =
        some (insertGotos sm FuncBody) := by
  refine ⟨(gotosVisit sm FuncBody FuncBody {}).shouldInsert.length, ?_⟩
  rw [remainingGotos_eq (Nat.le_refl _)]
  rfl

/-! ## What remains -/

/-- The candidates that share no line with an earlier candidate. -/
theorem eraseMarked_markLater {gtils : List GotosInsertLoc} (unmarked : Unmarked gtils) :
    eraseMarked (markLater gtils) = keptApart GotosInsertLoc.sharesLine gtils := by
  induction gtils with
  | nil => rfl
  | cons gtil rest ih =>
      have isUnmarked := unmarked gtil List.mem_cons_self
      have ih := ih fun other otherMem => unmarked other (List.mem_cons_of_mem _ otherMem)
      rw [markLater, keptApart, ← ih, ← eraseMarked_markShared]
      simp [eraseMarked, isUnmarked]

/-- The place shares no line with an excluded statement. -/
def offExcluded (excluded : List GotosInsertLoc) (gtil : GotosInsertLoc) : Bool :=
  excluded.all fun other => !other.sharesLine gtil

theorem offExcluded_iff {excluded : List GotosInsertLoc} {gtil : GotosInsertLoc} :
    offExcluded excluded gtil = true ↔ ∀ other ∈ excluded, other.sharesLine gtil = false := by
  simp [offExcluded]

theorem eraseMarked_markExcluded (gtils excluded : List GotosInsertLoc) :
    eraseMarked (markExcluded gtils excluded) =
      (eraseMarked gtils).filter (offExcluded excluded) := by
  induction excluded generalizing gtils with
  | nil =>
      rw [markExcluded]
      exact (List.filter_eq_self.mpr fun _ _ => rfl).symm
  | cons first rest ih =>
      rw [markExcluded, ih, eraseMarked_markShared, List.filter_filter]
      apply List.filter_congr
      intro gtil _
      simp [offExcluded, Bool.and_comm]

/-- What remains shares no line with an earlier candidate nor with an excluded statement. -/
theorem remainingGotos_eq_filter {rounds : Nat} {lists : GotosLists}
    (unmarked : Unmarked lists.shouldInsert) (enough : lists.shouldInsert.length ≤ rounds) :
    remainingGotos rounds lists =
      some ((keptApart GotosInsertLoc.sharesLine lists.shouldInsert).filter
        (offExcluded lists.shouldntInsert)) := by
  rw [remainingGotos_eq enough, eraseMarked_markExcluded, eraseMarked_markLater unmarked]

theorem sharesLine_eq_false {gtil gtil2 : GotosInsertLoc} :
    gtil.sharesLine gtil2 = false ↔
      gtil.start.line ≠ gtil2.start.line ∧ gtil.end.line ≠ gtil2.end.line := by
  simp [GotosInsertLoc.sharesLine, and_comm]

/-- The loops end.  The places that remain stand in the order of the candidates, no two of
them begin or end on one line, and none begins or ends on a line where an excluded statement
does. -/
theorem remainingGotos_apart {lists : GotosLists} (unmarked : Unmarked lists.shouldInsert)
    {rounds : Nat} (enough : lists.shouldInsert.length ≤ rounds) :
    ∃ remaining, remainingGotos rounds lists = some remaining ∧
      remaining.Sublist lists.shouldInsert ∧
      (remaining.Pairwise fun gtil gtil2 =>
        gtil.start.line ≠ gtil2.start.line ∧ gtil.end.line ≠ gtil2.end.line) ∧
      ∀ gtil ∈ remaining, ∀ other ∈ lists.shouldntInsert,
        gtil.start.line ≠ other.start.line ∧ gtil.end.line ≠ other.end.line := by
  refine ⟨_, remainingGotos_eq_filter unmarked enough, ?_, ?_, ?_⟩
  · exact List.filter_sublist.trans (keptApart_sublist _)
  · have apart : (keptApart GotosInsertLoc.sharesLine lists.shouldInsert).Pairwise
        fun gtil gtil2 => gtil.sharesLine gtil2 = false := keptApart_pairwise _
    exact (apart.sublist List.filter_sublist).imp fun notShared => sharesLine_eq_false.mp notShared
  · intro gtil gtilMem other otherMem
    have off := offExcluded_iff.mp (List.mem_filter.mp gtilMem).2
    obtain ⟨startApart, endApart⟩ := sharesLine_eq_false.mp (off other otherMem)
    exact ⟨startApart.symm, endApart.symm⟩

/-- The statement `callee(first, second);` over the lines from `line` to `endLine`. -/
def callOver (id offset line endOffset endLine : Nat) (callee first second : String) : Stmt :=
  let text := callee ++ "(" ++ first ++ ", " ++ second ++ ")"
  .node
    { id := id
      beginLoc := ⟨offset, line, false⟩
      endLoc := ⟨endOffset, endLine, false⟩
      semiLoc := ⟨endOffset + 1, endLine, false⟩
      printed := text
      text := text
      textSemi := text ++ ";" }
    (.callExpr (some callee))
    [Build.nameRef (id + 1) offset line callee,
      Build.nameRef (id + 2) (offset + callee.length + 1) line first,
      Build.nameRef (id + 3) (endOffset - second.length) endLine second]

/-- Three calls, the first over the lines 2 and 3, the second on line 3, the third over the
lines 3 and 4. -/
def threeCalls : Stmt :=
  Build.block 1 0 1 120 5
    [callOver 2 10 2 40 3 "map" "dev" "ptr", Build.callOf 6 44 3 "start" "dev",
      callOver 9 60 3 90 4 "send" "dev" "len"]

/-- The two lists for that body. -/
def threeCallsLists : GotosLists := gotosVisit Build.shortTokens threeCalls threeCalls {}

theorem unmarked_threeCalls : Unmarked threeCallsLists.shouldInsert :=
  unmarked_gotosVisit (by simp [Unmarked])

theorem remainingGotos_apart_threeCalls :
    ∃ remaining, remainingGotos 3 threeCallsLists = some remaining ∧
      remaining.Sublist threeCallsLists.shouldInsert ∧
      (remaining.Pairwise fun gtil gtil2 =>
        gtil.start.line ≠ gtil2.start.line ∧ gtil.end.line ≠ gtil2.end.line) ∧
      ∀ gtil ∈ remaining, ∀ other ∈ threeCallsLists.shouldntInsert,
        gtil.start.line ≠ other.start.line ∧ gtil.end.line ≠ other.end.line :=
  remainingGotos_apart unmarked_threeCalls (by decide)

/-! ## Why a place is erased -/

/-- The line a place begins on. -/
def GotosInsertLoc.startLine (gtil : GotosInsertLoc) : Nat := gtil.start.line

/-- The line it ends on. -/
def GotosInsertLoc.endLine (gtil : GotosInsertLoc) : Nat := gtil.end.line

/-- Every candidate that is erased shares a line with one that remains or with an excluded
statement. -/
def ErasedForReason (lists : GotosLists) (remaining : List GotosInsertLoc) : Prop :=
  ∀ gtil ∈ lists.shouldInsert, gtil ∉ remaining →
    ∃ other ∈ remaining ++ lists.shouldntInsert, other.sharesLine gtil = true

/-- Of the candidates that begin where this one begins, the first is also the first that ends
where it ends, and no excluded statement ends there; or the same with the ends. -/
def FirstRemains (lists : GotosLists) (gtil : GotosInsertLoc) : Prop :=
  (∃ first, lists.shouldInsert.find? (fun other => other.startLine == gtil.startLine) = some first ∧
    IsFirst GotosInsertLoc.endLine lists.shouldInsert first ∧
    ∀ other ∈ lists.shouldntInsert, other.endLine ≠ first.endLine) ∨
  ∃ first, lists.shouldInsert.find? (fun other => other.endLine == gtil.endLine) = some first ∧
    IsFirst GotosInsertLoc.startLine lists.shouldInsert first ∧
    ∀ other ∈ lists.shouldntInsert, other.startLine ≠ first.startLine

theorem sharesLine_eq_shareKey :
    GotosInsertLoc.sharesLine = shareKey GotosInsertLoc.endLine GotosInsertLoc.startLine := rfl

theorem sharesLine_self (gtil : GotosInsertLoc) : gtil.sharesLine gtil = true := by
  simp [GotosInsertLoc.sharesLine]

theorem sharesLine_iff {gtil gtil2 : GotosInsertLoc} :
    gtil.sharesLine gtil2 = true ↔
      gtil.endLine = gtil2.endLine ∨ gtil.startLine = gtil2.startLine := by
  simp [GotosInsertLoc.sharesLine, GotosInsertLoc.endLine, GotosInsertLoc.startLine]

/-- A candidate on no line of an excluded statement shares a line with one that remains
exactly when the first candidate of one of its lines remains. -/
theorem exists_remaining_iff {lists : GotosLists} {gtil : GotosInsertLoc}
    (off : offExcluded lists.shouldntInsert gtil = true) :
    (∃ other ∈ (keptApart GotosInsertLoc.sharesLine lists.shouldInsert).filter
        (offExcluded lists.shouldntInsert), other.sharesLine gtil = true) ↔
      FirstRemains lists gtil := by
  have offLines : ∀ other ∈ lists.shouldntInsert,
      other.startLine ≠ gtil.startLine ∧ other.endLine ≠ gtil.endLine := by
    intro other otherMem
    exact sharesLine_eq_false.mp (offExcluded_iff.mp off other otherMem)
  have byStart := exists_kept_key₂ GotosInsertLoc.endLine GotosInsertLoc.startLine
    lists.shouldInsert gtil
    fun first => ∀ other ∈ lists.shouldntInsert, other.endLine ≠ first.endLine
  have byEnd := exists_kept_key₁ GotosInsertLoc.endLine GotosInsertLoc.startLine
    lists.shouldInsert gtil
    fun first => ∀ other ∈ lists.shouldntInsert, other.startLine ≠ first.startLine
  rw [FirstRemains, ← byStart, ← byEnd, sharesLine_eq_shareKey]
  constructor
  · rintro ⟨first, firstMem, shared⟩
    obtain ⟨kept, firstOff⟩ := List.mem_filter.mp firstMem
    have firstApart : ∀ other ∈ lists.shouldntInsert,
        other.startLine ≠ first.startLine ∧ other.endLine ≠ first.endLine := by
      intro other otherMem
      exact sharesLine_eq_false.mp (offExcluded_iff.mp firstOff other otherMem)
    rcases sharesLine_iff.mp shared with sameEnd | sameStart
    · exact Or.inr ⟨first, kept, fun other otherMem => (firstApart other otherMem).1, sameEnd⟩
    · exact Or.inl ⟨first, kept, fun other otherMem => (firstApart other otherMem).2, sameStart⟩
  · rintro (⟨first, kept, allowed, sameStart⟩ | ⟨first, kept, allowed, sameEnd⟩)
    · have firstOff : offExcluded lists.shouldntInsert first = true := by
        apply offExcluded_iff.mpr
        intro other otherMem
        exact sharesLine_eq_false.mpr
          ⟨fun same => (offLines other otherMem).1 (same.trans sameStart), allowed other otherMem⟩
      exact ⟨first, List.mem_filter.mpr ⟨kept, firstOff⟩, sharesLine_iff.mpr (Or.inr sameStart)⟩
    · have firstOff : offExcluded lists.shouldntInsert first = true := by
        apply offExcluded_iff.mpr
        intro other otherMem
        exact sharesLine_eq_false.mpr
          ⟨allowed other otherMem, fun same => (offLines other otherMem).2 (same.trans sameEnd)⟩
      exact ⟨first, List.mem_filter.mpr ⟨kept, firstOff⟩, sharesLine_iff.mpr (Or.inl sameEnd)⟩

/-- What the loops erase is erased for a reason exactly when for each candidate on no line of
an excluded statement the first candidate of one of its lines remains. -/
theorem remainingGotos_reason_iff {lists : GotosLists} (unmarked : Unmarked lists.shouldInsert)
    {rounds : Nat} (enough : lists.shouldInsert.length ≤ rounds) :
    ∃ remaining, remainingGotos rounds lists = some remaining ∧
      (ErasedForReason lists remaining ↔
        ∀ gtil ∈ lists.shouldInsert, offExcluded lists.shouldntInsert gtil = true →
          FirstRemains lists gtil) := by
  refine ⟨_, remainingGotos_eq_filter unmarked enough, ?_⟩
  constructor
  · intro reasons gtil gtilMem off
    rw [← exists_remaining_iff off]
    by_cases remains : gtil ∈ (keptApart GotosInsertLoc.sharesLine lists.shouldInsert).filter
        (offExcluded lists.shouldntInsert)
    · exact ⟨gtil, remains, sharesLine_self gtil⟩
    · obtain ⟨other, otherMem, shared⟩ := reasons gtil gtilMem remains
      rcases List.mem_append.mp otherMem with isRemaining | isExcluded
      · exact ⟨other, isRemaining, shared⟩
      · have apart := offExcluded_iff.mp off other isExcluded
        rw [shared] at apart
        cases apart
  · intro firsts gtil gtilMem _
    cases off : offExcluded lists.shouldntInsert gtil with
    | true =>
        obtain ⟨other, otherMem, shared⟩ := (exists_remaining_iff off).mpr (firsts gtil gtilMem off)
        exact ⟨other, List.mem_append_left _ otherMem, shared⟩
    | false =>
        simp only [offExcluded, List.all_eq_false, Bool.not_eq_true, Bool.not_eq_false'] at off
        obtain ⟨other, otherMem, shared⟩ := off
        exact ⟨other, List.mem_append_right _ otherMem, shared⟩

theorem remainingGotos_reason_threeCalls :
    ∃ remaining, remainingGotos 3 threeCallsLists = some remaining ∧
      (ErasedForReason threeCallsLists remaining ↔
        ∀ gtil ∈ threeCallsLists.shouldInsert,
          offExcluded threeCallsLists.shouldntInsert gtil = true →
            FirstRemains threeCallsLists gtil) :=
  remainingGotos_reason_iff unmarked_threeCalls (by decide)

/-- The place behind one of the calls. -/
def placeBehind (call : Stmt) : GotosInsertLoc where
  stmt := call
  start := call.info.beginLoc
  «end» := call.info.endLoc
  aftersemi := call.info.endLoc.getLocWithOffset 2

/-- The second call ends on a line of the first, the third begins on a line of the second:
both are erased, and the third shares no line with the one that remains. -/
theorem remainingGotos_erases_chain :
    ∃ remaining, remainingGotos 3 threeCallsLists = some remaining ∧
      ¬ ErasedForReason threeCallsLists remaining := by
  have candidates : threeCallsLists.shouldInsert = threeCalls.children.map placeBehind := rfl
  have noneExcluded : threeCallsLists.shouldntInsert = [] := rfl
  have remaining : remainingGotos 3 threeCallsLists =
      some [placeBehind (threeCalls.child 0)] := rfl
  refine ⟨_, remaining, ?_⟩
  intro reasons
  have isErased : placeBehind (threeCalls.child 2) ∉ [placeBehind (threeCalls.child 0)] := by
    intro isFirst
    have sameEnd := congrArg GotosInsertLoc.endLine (List.mem_singleton.mp isFirst)
    revert sameEnd
    decide
  have isCandidate : placeBehind (threeCalls.child 2) ∈ threeCallsLists.shouldInsert := by
    rw [candidates]
    exact List.mem_map_of_mem (by simp [threeCalls, Build.block, Stmt.child, Stmt.children])
  obtain ⟨other, otherMem, shared⟩ := reasons _ isCandidate isErased
  rw [noneExcluded, List.append_nil] at otherMem
  rw [List.mem_singleton.mp otherMem] at shared
  revert shared
  decide

end Hecaton.Pass2
