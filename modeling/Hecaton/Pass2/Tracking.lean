import Hecaton.Pass2.Cleanup
import Hecaton.Pass2.Execution

/-!
# What the mask records

The bit of an outer EHC is meant to say whether its effect is pending: whether
the statement completed last among those that cause the effect and those that
undo it is one that causes it.  For statements that stand alone the stamps keep
the bit exact, as long as such a statement comes to its end exactly when the stamps
behind it run.  They also run behind one that is aborted and whose own goto was left
out, and behind `ok && f(x);` when `f` is not called.
-/

namespace Hecaton.Pass2

open Hecaton.Clang
open Hecaton.Library

/-! ## Statements that stand alone -/

/-- `n` is the expression statement `s`, or ends it directly before its
semicolon. -/
structure Ends (sm : SourceManager) (n s : Stmt) : Prop where
  inside : n ∈ s.nodes
  isExpression : n.isExpression = true
  closed : sm.locForEndOfToken (sm.spelledEnd n) = some s.info.semiLoc

/-- One of the statements is, or ends, `s`. -/
def EndedBy (sm : SourceManager) (stmts : List Stmt) (s : Stmt) : Prop :=
  ∃ n ∈ stmts, Ends sm n s

/-- The statement is a listed expression statement of the body. -/
structure IsExprStmt (Body s : Stmt) : Prop where
  listed : StmtAt Body true s
  isExpression : s.isExpression = true

/-- A statement that control comes behind: no block, no mark, and none that jumps. -/
def comesBehind (s : Stmt) : Bool :=
  s.isDecl || s.isExpression || (s.isIf || isLoop s || s.isSwitch)

/-- The expression statement `s` has a semicolon of its own in the text: no other
statement ends there, so that it is no branch or loop body without braces. -/
structure OwnSemicolon (sm : SourceManager) (Body s : Stmt) : Prop where
  token : sm.locForEndOfToken s.info.semiLoc = some (afterSemi s)
  alone : ∀ listed t, StmtAt Body listed t → comesBehind t = true →
    endPlace t = some (afterSemi s) → t = s ∧ listed = true
  noBrace : ∀ block ∈ Body.nodes, block.isCompound = true → afterBrace block ≠ afterSemi s

/-- `n` is, or ends, an expression statement of the body, and its text does not
occur in the condition of the nearest `if`, `for` or `while`. -/
structure StandsAlone (sm : SourceManager) (Body n : Stmt) : Prop where
  closes : ∃ s, IsExprStmt Body s ∧ OwnSemicolon sm Body s ∧ Ends sm n s
  outside : stmtInParentCondition n (findIfstmtGrandparentRecursive n Body) = false

/-- The undo statements of an outer EHC. -/
def OuterEHC.undos (outerEhc : OuterEHC) : List Stmt := outerEhc.stmt :: outerEhc.duplicates

/-- The pairs and the undo statements of an outer EHC stand alone, and none of
them is both. -/
structure StandAlone (sm : SourceManager) (Body : Stmt) (outerEhc : OuterEHC) : Prop where
  pairs : ∀ n ∈ outerEhc.pairs, StandsAlone sm Body n
  undos : ∀ n ∈ outerEhc.undos, StandsAlone sm Body n
  apart : ∀ s, ¬ (EndedBy sm outerEhc.pairs s ∧ EndedBy sm outerEhc.undos s)

variable {sm : SourceManager} {Body : Stmt}

theorem ne_conditional_of_isExpression {n : Stmt} (isExpression : n.isExpression = true) :
    (n.isIf || n.isFor || n.isWhile) = false := by
  cases n with
  | null => rfl
  | node info cls children => cases cls <;> first | rfl | cases isExpression

theorem not_isHeader_of_isExpression {s : Stmt} (isExpression : s.isExpression = true) :
    (s.isIf || isLoop s || s.isSwitch) = false := by
  cases s with
  | null => rfl
  | node info cls children => cases cls <;> first | rfl | cases isExpression

/-- Control comes behind a declaration or an expression statement at its semicolon. -/
theorem endPlace_of_run {s : Stmt} (isRun : (s.isDecl || s.isExpression) = true) :
    comesBehind s = true ∧ endPlace s = some (afterSemi s) := by
  constructor
  · rw [comesBehind, isRun, Bool.true_or]
  · cases s with
    | null => cases isRun
    | node info cls children => cases cls <;> first | rfl | cases isRun

/-- The stamp of a statement that stands alone goes behind the semicolon of the
statement that it ends, and control comes there only behind this statement. -/
theorem findProperLoc_of_standsAlone {n : Stmt} (standsAlone : StandsAlone sm Body n) :
    ∃ s, IsExprStmt Body s ∧ Ends sm n s ∧
      findProperLocToInsertPairmaskStamp sm n Body = some (afterSemi s) ∧
      (∀ block ∈ Body.nodes, block.isCompound = true → afterBrace block ≠ afterSemi s) ∧
      ∀ listed t, StmtAt Body listed t → comesBehind t = true →
        endPlace t = some (afterSemi s) → t = s ∧ listed = true := by
  obtain ⟨s, isStmt, own, ends⟩ := standsAlone.closes
  refine ⟨s, isStmt, ends, ?_, own.noBrace, own.alone⟩
  simp only [findProperLocToInsertPairmaskStamp, standsAlone.outside, Bool.false_eq_true,
    if_false, ne_conditional_of_isExpression ends.isExpression, SourceManager.recursiveGetEnd,
    ends.closed]
  exact own.token

/-- Behind a statement that runs a stamp stands exactly if it is ended there. -/
theorem findProperLoc_eq_iff_ends {n : Stmt} (standsAlone : StandsAlone sm Body n) {s : Stmt}
    (at_ : StmtAt Body true s) (isRun : (s.isDecl || s.isExpression) = true) :
    findProperLocToInsertPairmaskStamp sm n Body = some (afterSemi s) ↔ Ends sm n s := by
  obtain ⟨t, _, ends, place, _, alone⟩ := findProperLoc_of_standsAlone standsAlone
  rw [place]
  constructor
  · intro same
    obtain ⟨comes, atEnd⟩ := endPlace_of_run isRun
    rw [(alone true s at_ comes (atEnd.trans same.symm)).1]
    exact ends
  · intro endsS
    have sameSemi := Option.some.inj (ends.closed.symm.trans endsS.closed)
    rw [afterSemi, afterSemi, sameSemi]

/-- Only listed statements are ended by one that stands alone. -/
theorem listed_of_ends {n : Stmt} (standsAlone : StandsAlone sm Body n) {listed : Bool} {s : Stmt}
    (at_ : StmtAt Body listed s) (isRun : (s.isDecl || s.isExpression) = true)
    (endsS : Ends sm n s) : listed = true := by
  obtain ⟨t, _, ends, _, _, alone⟩ := findProperLoc_of_standsAlone standsAlone
  have sameSemi := Option.some.inj (ends.closed.symm.trans endsS.closed)
  have samePlace : afterSemi t = afterSemi s := by rw [afterSemi, afterSemi, sameSemi]
  obtain ⟨comes, atEnd⟩ := endPlace_of_run isRun
  exact (alone listed s at_ comes (samePlace ▸ atEnd)).2

/-- No such stamp stands where a step passes. -/
theorem findProperLoc_ne_of_passes {n : Stmt} (standsAlone : StandsAlone sm Body n) {move : Move}
    (passes : Passes Body move) {place : SourceLocation} (atPlace : move.place = some place) :
    findProperLocToInsertPairmaskStamp sm n Body ≠ some place := by
  obtain ⟨s, isStmt, _, stampPlace, noBrace, alone⟩ := findProperLoc_of_standsAlone standsAlone
  rw [stampPlace]
  intro same
  obtain rfl := Option.some.inj same
  rcases passes.place _ atPlace with ⟨block, blockMem, isBlock, atBrace⟩ | ⟨t, at_, isHeader, atEnd⟩
  · exact noBrace block blockMem isBlock atBrace.symm
  · have comes : comesBehind t = true := by rw [comesBehind, isHeader, Bool.or_true]
    obtain ⟨rfl, _⟩ := alone true t at_ comes atEnd
    rw [not_isHeader_of_isExpression isStmt.isExpression] at isHeader
    cases isHeader

theorem not_isNull_of_standsAlone {n : Stmt} (standsAlone : StandsAlone sm Body n) :
    n.isNull = false := by
  obtain ⟨_, _, _, ends⟩ := standsAlone.closes
  exact Stmt.isNull_eq_false (ne_null_of_isa ends.isExpression)

/-! ## The stamps of one outer EHC -/

section Stamped

variable {g : Function} {e : OuterEHC}

theorem stampEntry_mem (eMem : e ∈ (assignPairmaskId g).outerEHCs) :
    e.stampEntry ∈ stampEntries (assignPairmaskId g) :=
  List.mem_append_right _ (List.mem_map_of_mem eMem)

/-- With at most 64 entries every outer EHC has a bit. -/
theorem pairmaskId_ne_zero (eMem : e ∈ (assignPairmaskId g).outerEHCs)
    (few : entryCount g ≤ 64) : e.pairmaskId ≠ 0 := by
  apply (separate_assigned_iff g).mpr few |>.nonzero
  exact List.mem_append_right _ (List.mem_map_of_mem eMem)

variable (standAlone : StandAlone sm g.body e)

include standAlone in
/-- The updates that an outer EHC has at a place. -/
theorem mem_updatesAt_own {place : SourceLocation} {update : BitMask.Update 64} :
    update ∈ updatesAt (e.stampEntry.stamps sm g.body) place ↔
      update.id = e.pairmaskId ∧ ∃ n ∈ if update.value then e.pairs else e.undos,
        findProperLocToInsertPairmaskStamp sm n g.body = some place := by
  have stmtNonnull := not_isNull_of_standsAlone (standAlone.undos e.stmt List.mem_cons_self)
  rw [mem_updatesAt_stamps]
  simp only [OuterEHC.stampEntry, stmtNonnull, Bool.false_eq_true, if_false]
  apply and_congr_right
  intro _
  cases update.value with
  | false =>
      simp only [Bool.false_eq_true, if_false]
      constructor
      · rintro ⟨n, nMem, _, place⟩
        exact ⟨n, nMem, place⟩
      · rintro ⟨n, nMem, place⟩
        exact ⟨n, nMem, not_isNull_of_standsAlone (standAlone.undos n nMem), place⟩
  | true =>
      simp only [if_true]
      constructor
      · rintro ⟨n, nMem, _, place⟩
        exact ⟨n, nMem, place⟩
      · rintro ⟨n, nMem, place⟩
        exact ⟨n, nMem, not_isNull_of_standsAlone (standAlone.pairs n nMem), place⟩

theorem standsAlone_of_mem {value : Bool} {n : Stmt} (standAlone : StandAlone sm g.body e)
    (nMem : n ∈ if value then e.pairs else e.undos) : StandsAlone sm g.body n := by
  cases value with
  | false => exact standAlone.undos n nMem
  | true => exact standAlone.pairs n nMem

include standAlone in
/-- Behind a statement that runs an outer EHC has an update exactly when one of its
statements ends it. -/
theorem mem_updatesAt_afterSemi {s : Stmt} (at_ : StmtAt g.body true s)
    (isRun : (s.isDecl || s.isExpression) = true) {update : BitMask.Update 64} :
    update ∈ updatesAt (e.stampEntry.stamps sm g.body) (afterSemi s) ↔
      update.id = e.pairmaskId ∧ EndedBy sm (if update.value then e.pairs else e.undos) s := by
  rw [mem_updatesAt_own standAlone]
  apply and_congr_right
  intro _
  exact exists_congr fun n => and_congr_right fun nMem =>
    findProperLoc_eq_iff_ends (standsAlone_of_mem standAlone nMem) at_ isRun

variable (eMem : e ∈ (assignPairmaskId g).outerEHCs) (few : entryCount g ≤ 64)

include standAlone eMem few in
/-- The bit behind a statement that runs, once its stamps have run. -/
theorem test_afterSemi {s : Stmt} (at_ : StmtAt g.body true s)
    (isRun : (s.isDecl || s.isExpression) = true) (mask : BitVec 64) :
    BitMask.test (BitMask.applyAll mask
        (updatesAt (insertPairmaskStamps sm (assignPairmaskId g)) (afterSemi s))) e.pairmaskId =
          true ↔
      EndedBy sm e.pairs s ∨
        (¬ EndedBy sm e.undos s ∧ BitMask.test mask e.pairmaskId = true) := by
  have nonzero := pairmaskId_ne_zero eMem few
  have entryMem := stampEntry_mem eMem
  have cases_ : ∀ update ∈ updatesAt (insertPairmaskStamps sm (assignPairmaskId g)) (afterSemi s),
      (update.id = e.pairmaskId ∧ EndedBy sm (if update.value then e.pairs else e.undos) s) ∨
        e.pairmaskId &&& update.id = 0 := by
    intro update updateMem
    exact (own_or_disjoint entryMem updateMem).imp_left
      (mem_updatesAt_afterSemi standAlone at_ isRun).mp
  have stamped : ∀ value, EndedBy sm (if value then e.pairs else e.undos) s →
      ⟨e.pairmaskId, value⟩ ∈
        updatesAt (insertPairmaskStamps sm (assignPairmaskId g)) (afterSemi s) := by
    intro value ended
    apply mem_updatesAt_of_own entryMem
    exact (mem_updatesAt_afterSemi standAlone at_ isRun).mpr ⟨rfl, ended⟩
  have agree : ∀ value, ¬ EndedBy sm (if value then e.undos else e.pairs) s →
      ∀ update ∈ updatesAt (insertPairmaskStamps sm (assignPairmaskId g)) (afterSemi s),
        update = ⟨e.pairmaskId, value⟩ ∨ e.pairmaskId &&& update.id = 0 := by
    intro value others update updateMem
    refine (cases_ update updateMem).imp_left ?_
    rintro ⟨sameId, ended⟩
    rcases update with ⟨id, updateValue⟩
    cases value <;> cases updateValue <;> simp_all
  by_cases pair : EndedBy sm e.pairs s
  · have notUndo : ¬ EndedBy sm e.undos s := fun undo => standAlone.apart s ⟨pair, undo⟩
    simp only [pair, true_or, iff_true]
    exact BitMask.test_applyAll_of_agree nonzero (agree true notUndo) (Or.inl (stamped true pair))
  · by_cases undo : EndedBy sm e.undos s
    · simp only [pair, undo, not_true_eq_false, false_and, or_self, iff_false, Bool.not_eq_true]
      exact BitMask.test_applyAll_of_agree nonzero (agree false pair) (Or.inl (stamped false undo))
    · simp only [pair, undo, not_false_eq_true, true_and, false_or]
      rw [BitMask.test_applyAll_of_disjoint]
      intro update updateMem
      apply (cases_ update updateMem).resolve_left
      rintro ⟨_, ended⟩
      cases value : update.value <;> simp_all

include standAlone eMem in
/-- The bit at a place where a step passes: only stamps of other bits stand there. -/
theorem test_of_passes {move : Move} (passes : Passes g.body move) {place : SourceLocation}
    (atPlace : move.place = some place) (mask : BitVec 64) :
    BitMask.test (BitMask.applyAll mask
        (updatesAt (insertPairmaskStamps sm (assignPairmaskId g)) place)) e.pairmaskId =
      BitMask.test mask e.pairmaskId := by
  apply BitMask.test_applyAll_of_disjoint
  intro update updateMem
  apply (own_or_disjoint (stampEntry_mem eMem) updateMem).resolve_left
  intro own
  obtain ⟨_, n, nMem, stampPlace⟩ := (mem_updatesAt_own standAlone).mp own
  exact findProperLoc_ne_of_passes (standsAlone_of_mem standAlone nMem) passes atPlace stampPlace

end Stamped

/-! ## The effect of an outer EHC along an execution -/

/-- The expressions that come to their end in a step. -/
def Observation.completed : Observation → List Stmt
  | .ran s finished parts => if finished then s :: parts else parts
  | _ => []

/-- One of the statements, which is or ends the statement that the step runs, comes to its
end.  A call that is never made, behind an `&&` for instance, or that is aborted does not. -/
def Observation.Completes (sm : SourceManager) (stmts : List Stmt) (seen : Observation) : Prop :=
  ∃ s finished parts, seen = .ran s finished parts ∧ ∃ n ∈ stmts, Ends sm n s ∧ n ∈ seen.completed

/-- The effect of the outer EHC is pending: the statement completed last among
its pairs and its undo statements is one of its pairs. -/
def Pending (sm : SourceManager) (e : OuterEHC) (trace : List Observation) : Prop :=
  ∃ after seen before, trace = after ++ seen :: before ∧ seen.Completes sm e.pairs ∧
    ∀ other ∈ after, ¬ other.Completes sm e.pairs ∧ ¬ other.Completes sm e.undos

theorem pending_cons {e : OuterEHC} {seen : Observation} {trace : List Observation} :
    Pending sm e (seen :: trace) ↔
      seen.Completes sm e.pairs ∨ (¬ seen.Completes sm e.undos ∧ Pending sm e trace) := by
  constructor
  · rintro ⟨after, first, before, split, pair, silent⟩
    cases after with
    | nil =>
        cases split
        exact Or.inl pair
    | cons _ after =>
        cases split
        refine Or.inr ⟨(silent seen List.mem_cons_self).2, after, first, before, rfl, pair, ?_⟩
        exact fun other otherMem => silent other (List.mem_cons_of_mem _ otherMem)
  · by_cases own : seen.Completes sm e.pairs
    · intro _
      exact ⟨[], seen, trace, rfl, own, fun other otherMem => absurd otherMem List.not_mem_nil⟩
    · rintro (pair | ⟨notUndo, after, first, before, rfl, pair, silent⟩)
      · exact absurd pair own
      · refine ⟨seen :: after, first, before, rfl, pair, ?_⟩
        intro other otherMem
        rcases List.mem_cons.mp otherMem with rfl | inAfter
        · exact ⟨own, notUndo⟩
        · exact silent other inAfter

/-- A step that runs no statement completes none. -/
theorem not_completes_of_passes {move : Move} (passes : Passes Body move) (stmts : List Stmt) :
    ¬ move.seen.Completes sm stmts := by
  rintro ⟨s, finished, parts, ran, _⟩
  exact passes.runsNone s finished parts ran

/-- What completes a statement runs one that it ends. -/
theorem endedBy_of_completes {stmts : List Stmt} {s : Stmt} {finished : Bool} {parts : List Stmt}
    (completes : (Observation.ran s finished parts).Completes sm stmts) : EndedBy sm stmts s := by
  obtain ⟨_, _, _, ⟨⟩, n, nMem, ends, _⟩ := completes
  exact ⟨n, nMem, ends⟩

theorem completes_append {first second : List Stmt} {seen : Observation} :
    seen.Completes sm (first ++ second) ↔
      seen.Completes sm first ∨ seen.Completes sm second := by
  constructor
  · rintro ⟨s, finished, parts, ran, n, nMem, ends⟩
    exact (List.mem_append.mp nMem).imp (fun inFirst => ⟨s, finished, parts, ran, n, inFirst, ends⟩)
      fun inSecond => ⟨s, finished, parts, ran, n, inSecond, ends⟩
  · rintro (⟨s, finished, parts, ran, n, nMem, ends⟩ | ⟨s, finished, parts, ran, n, nMem, ends⟩)
    · exact ⟨s, finished, parts, ran, n, List.mem_append_left _ nMem, ends⟩
    · exact ⟨s, finished, parts, ran, n, List.mem_append_right _ nMem, ends⟩

theorem endedBy_append {first second : List Stmt} {s : Stmt} :
    EndedBy sm (first ++ second) s ↔ EndedBy sm first s ∨ EndedBy sm second s := by
  simp only [EndedBy, List.mem_append, or_and_right, exists_or]

/-- The bit of the outer EHC says whether its effect is pending. -/
def Tracked (sm : SourceManager) (e : OuterEHC) (config : Config) : Prop :=
  BitMask.test config.mask e.pairmaskId = true ↔ Pending sm e config.trace

/-- If a statement of the outer EHC ends the statement `s` that runs next, then one completes
exactly if the stamps behind it run, or what its stamp records is so already. -/
def StampsAgree (sm : SourceManager) (Body : Stmt) (e : OuterEHC) (inInterrupt hf : Bool)
    (before : List Observation) (evaluation : Evaluation) (s : Stmt) : Prop :=
  EndedBy sm (e.pairs ++ e.undos) s →
    ((Observation.ran s evaluation.finished evaluation.parts).Completes sm (e.pairs ++ e.undos) ↔
        StampsRun sm Body inInterrupt hf (afterSemi s)) ∨
      (Pending sm e before ↔ EndedBy sm e.pairs s)

/-- The stamps of the outer EHC agree with the statement that the next step runs. -/
def RecordsStep (sm : SourceManager) (Body : Stmt) (e : OuterEHC) (inInterrupt : Bool)
    (config : Config) (event : Event) : Prop :=
  ∀ s rest, config.todo = .stmt true s :: rest → StmtAt Body true s →
    StampsAgree sm Body e inInterrupt (config.hf || event.hf) config.trace
      (event.toEvaluation.under (config.hf || event.hf)) s

/-- Tracking, with what the state keeps about its tasks. -/
structure TrackedState (sm : SourceManager) (Body : Stmt) (e : OuterEHC) (config : Config) :
    Prop where
  tracked : Tracked sm e config
  tasks : ∀ task ∈ config.todo, TaskIn Body task

section Steps

variable {g : Function} {e : OuterEHC} {inInterrupt hf : Bool} {config : Config} {event : Event}
  {evaluation : Evaluation} {rest : List Task}

/-- Where the stamps run, the bit says what is pending if a statement has come to its end or
nothing changes. -/
theorem stamped_iff {pair undo pairDone undoDone before : Prop} (notBoth : ¬ (pair ∧ undo))
    (ofPair : pairDone → pair) (ofUndo : undoDone → undo)
    (agree : pair ∨ undo → (pairDone ∨ undoDone) ∨ (before ↔ pair)) :
    pair ∨ (¬ undo ∧ before) ↔ pairDone ∨ (¬ undoDone ∧ before) := by
  by_cases isPair : pair
  · have notUndo : ¬ undo := fun isUndo => notBoth ⟨isPair, isUndo⟩
    have noUndo : ¬ undoDone := fun done => notUndo (ofUndo done)
    have agree := agree (Or.inl isPair)
    simp only [isPair, noUndo, or_false, iff_true] at agree
    simp [isPair, noUndo, agree]
  · have noPair : ¬ pairDone := fun done => isPair (ofPair done)
    by_cases isUndo : undo
    · have agree := agree (Or.inr isUndo)
      simp only [isPair, noPair, false_or, iff_false] at agree
      simp only [isPair, isUndo, noPair, false_or, not_true_eq_false, false_and, false_iff]
      rintro ⟨notDone, isPending⟩
      exact agree.elim notDone fun notPending => notPending isPending
    · have noUndo : ¬ undoDone := fun done => isUndo (ofUndo done)
      simp [isPair, isUndo, noPair, noUndo]

/-- Where they do not run, it says so if none has come to its end or nothing changes. -/
theorem unstamped_iff {pair undo pairDone undoDone before : Prop} (notBoth : ¬ (pair ∧ undo))
    (ofPair : pairDone → pair) (ofUndo : undoDone → undo)
    (agree : pair ∨ undo → ¬ (pairDone ∨ undoDone) ∨ (before ↔ pair)) :
    before ↔ pairDone ∨ (¬ undoDone ∧ before) := by
  by_cases done : pairDone ∨ undoDone
  · have ended : pair ∨ undo := done.imp ofPair ofUndo
    have same := (agree ended).resolve_left fun noneDone => noneDone done
    rw [same]
    constructor
    · intro isPair
      have noUndo : ¬ undoDone := fun undone => notBoth ⟨isPair, ofUndo undone⟩
      exact Or.inl (done.resolve_right noUndo)
    · rintro (done | ⟨_, isPair⟩)
      · exact ofPair done
      · exact isPair
  · simp [not_or.mp done]

/-- The step that runs a listed statement keeps the bit exact. -/
theorem tracked_ran (standAlone : StandAlone sm g.body e)
    (eMem : e ∈ (assignPairmaskId g).outerEHCs) (few : entryCount g ≤ 64)
    (notClosing : g.isClosing = false) {s : Stmt} (at_ : StmtAt g.body true s)
    (isRun : (s.isDecl || s.isExpression) = true) (tracked : Tracked sm e config)
    (agree : StampsAgree sm g.body e inInterrupt hf config.trace evaluation s) :
    Tracked sm e ((instrumented sm (assignPairmaskId g) inInterrupt).arrive hf config
      ⟨.ran s evaluation.finished evaluation.parts, placeAfter true s, rest⟩) := by
  have stamped := test_afterSemi standAlone eMem few at_ isRun config.mask
  have atPlace : placeAfter true s = some (afterSemi s) := (endPlace_of_run isRun).2
  rw [Tracked] at tracked
  rw [tracked] at stamped
  rw [Tracked, trace_arrive, mask_arrive (f := assignPairmaskId g) notClosing atPlace, pending_cons]
  rw [StampsAgree, endedBy_append, completes_append] at agree
  have notBoth := standAlone.apart s
  have pairCompletes := @endedBy_of_completes sm e.pairs s evaluation.finished evaluation.parts
  have undoCompletes := @endedBy_of_completes sm e.undos s evaluation.finished evaluation.parts
  have sameBody : (assignPairmaskId g).body = g.body := rfl
  rw [sameBody]
  split
  · rename_i stampsRun
    rw [stamped]
    exact stamped_iff notBoth pairCompletes undoCompletes fun ended =>
      (agree ended).imp_left fun same => same.mpr stampsRun
  · rename_i noStamps
    rw [tracked]
    exact unstamped_iff notBoth pairCompletes undoCompletes fun ended =>
      (agree ended).imp_left fun same completes => noStamps (same.mp completes)

/-- One step keeps the bit exact. -/
theorem tracked_course (standAlone : StandAlone sm g.body e)
    (eMem : e ∈ (assignPairmaskId g).outerEHCs) (few : entryCount g ≤ 64)
    (notClosing : g.isClosing = false) (tracked : Tracked sm e config) {task : Task}
    (taskIn : TaskIn g.body task) {course : Course}
    (led : task.course g.body evaluation rest = some course)
    (agree : ∀ s, task = .stmt true s →
      StampsAgree sm g.body e inInterrupt hf config.trace evaluation s) :
    Tracked sm e ((instrumented sm (assignPairmaskId g) inInterrupt).arrive hf config
      course.move) := by
  rcases course_cases taskIn led with ⟨listed, s, rfl, isRun, move⟩ | passes
  · rw [move]
    cases listed with
    | true => exact tracked_ran standAlone eMem few notClosing taskIn isRun tracked (agree s rfl)
    | false =>
        -- Nothing is written behind the statement, and none of the outer EHC ends it.
        have notEnded : ∀ value : Bool, ¬ EndedBy sm (if value then e.pairs else e.undos) s := by
          rintro value ⟨n, nMem, ends⟩
          exact absurd (listed_of_ends (standsAlone_of_mem standAlone nMem) taskIn isRun ends)
            Bool.false_ne_true
        have noPair : ¬ (Observation.ran s evaluation.finished evaluation.parts).Completes sm
            e.pairs := fun completes => notEnded true (endedBy_of_completes completes)
        have noUndo : ¬ (Observation.ran s evaluation.finished evaluation.parts).Completes sm
            e.undos := fun completes => notEnded false (endedBy_of_completes completes)
        rw [Tracked, trace_arrive, mask_arrive_of_no_place rfl, pending_cons,
          and_iff_right noUndo, or_iff_right noPair]
        exact tracked
  · rw [Tracked, trace_arrive, pending_cons, and_iff_right (not_completes_of_passes passes _),
      or_iff_right (not_completes_of_passes passes _)]
    rw [Tracked] at tracked
    rw [← tracked]
    cases atPlace : course.move.place with
    | none => rw [mask_arrive_of_no_place atPlace]
    | some place =>
        rw [mask_arrive (f := assignPairmaskId g) notClosing atPlace]
        split
        · rw [test_of_passes standAlone eMem passes atPlace]
        · rfl

/-- One step keeps tracking. -/
theorem trackedState_step (standAlone : StandAlone sm g.body e)
    (eMem : e ∈ (assignPairmaskId g).outerEHCs) (few : entryCount g ≤ 64)
    (notClosing : g.isClosing = false) {next : Config} (state : TrackedState sm g.body e config)
    (records : RecordsStep sm g.body e inInterrupt config event)
    (stepped : (instrumented sm (assignPairmaskId g) inInterrupt).step event config = some next) :
    TrackedState sm g.body e next := by
  obtain ⟨task, rest, course, todo, led, rfl⟩ := step_eq_some_iff.mp stepped
  have taskIn := state.tasks task (todo ▸ List.mem_cons_self)
  have restIn : ∀ other ∈ rest, TaskIn g.body other := fun other otherMem =>
    state.tasks other (todo ▸ List.mem_cons_of_mem _ otherMem)
  constructor
  · apply tracked_course standAlone eMem few notClosing state.tracked taskIn led
    rintro s rfl
    exact records s rest todo taskIn
  · intro other otherMem
    exact taskIn_courseMove taskIn restIn led other (mem_todo_arrive otherMem)

theorem trackedState_start : TrackedState sm g.body e (start g.body) where
  tracked := by
    simp only [Tracked, start, BitMask.test_zero_mask, Bool.false_eq_true, false_iff]
    rintro ⟨after, s, before, split, _⟩
    simp at split
  tasks := by
    intro task taskMem
    rw [List.mem_singleton.mp taskMem]
    exact .root

end Steps

/-- The guard of an entry of the cleanup code lets its undo statement run. -/
def CleanupEntry.runs (entry : CleanupEntry) (mask : BitVec 64) : Prop :=
  BitMask.test mask entry.pairmaskId = true

theorem tracked_of {g : Function} {e : OuterEHC} {inInterrupt : Bool}
    (eMem : e ∈ (assignPairmaskId g).outerEHCs) (few : entryCount g ≤ 64)
    (notClosing : g.isClosing = false) (standAlone : StandAlone sm g.body e) {events : List Event}
    {final : Config}
    (meets : StepsMeet (instrumented sm (assignPairmaskId g) inInterrupt).step
      (RecordsStep sm g.body e inInterrupt) events (start g.body))
    (reached : run (instrumented sm (assignPairmaskId g) inInterrupt).step events (start g.body) =
      some final) : Tracked sm e final := by
  have kept : TrackedState sm g.body e final := run_invariant
    (fun _ _ _ state records stepped =>
      trackedState_step standAlone eMem few notClosing state records stepped)
    trackedState_start meets reached
  exact kept.tracked

/-- The call of `mutex_lock` on the given line. -/
def lockCall (line : Nat) : Stmt := Build.callOf 4 30 line "mutex_lock" "m"

/-- The call of `mutex_unlock`. -/
def unlockCall : Stmt := Build.callOf 10 70 5 "mutex_unlock" "m"

/-- `{ prepare(m); mutex_lock(m); work(m); mutex_unlock(m); }`, the calls on lines
2, `line`, 4 and 5. -/
def lockedBody (line : Nat) : Stmt :=
  Build.block 0 0 1 100 6
    [Build.callOf 1 10 2 "prepare" "m", lockCall line, Build.callOf 7 50 4 "work" "m", unlockCall]

/-- A function with this body and the unlock call as outer EHC. -/
def lockedFunction (line : Nat) : Function where
  body := lockedBody line
  outerEHCs := [{ stmt := unlockCall, pairs := [lockCall line] }]
  typeStr := "void"
  name := "probe"

/-- The outer EHC of that function, with its mask bit. -/
def unlockEhc (line : Nat) : OuterEHC where
  stmt := unlockCall
  pairs := [lockCall line]
  pairmaskId := 1

theorem eq_lockedBody_of_isCompound {line : Nat} {block : Stmt}
    (blockMem : block ∈ (lockedBody line).nodes) (isBlock : block.isCompound = true) :
    block = lockedBody line := by
  have noBlock : (lockedBody line).descendants.all (fun n => !n.isCompound) = true := rfl
  rcases Stmt.mem_nodes_iff.mp blockMem with ⟨same, _⟩ | below
  · exact same
  · have notBlock := List.all_eq_true.mp noBlock block below
    rw [isBlock] at notBlock
    cases notBlock

/-- The statements of this body are the body and the four calls. -/
theorem stmtAt_locked {line : Nat} {listed : Bool} {s : Stmt}
    (at_ : StmtAt (lockedBody line) listed s) :
    s = lockedBody line ∨ (s ∈ (lockedBody line).children ∧ listed = true) ∨ s = .null := by
  induction at_ with
  | root => exact Or.inl rfl
  | @child listed parent at_ i controlled ih =>
      rcases ih with rfl | ⟨parentMem, rfl⟩ | rfl
      · by_cases nonnull : (lockedBody line).child i = .null
        · exact Or.inr (Or.inr nonnull)
        · exact Or.inr (Or.inl ⟨Stmt.child_mem_children nonnull, rfl⟩)
      · -- A call controls nothing.
        have none_ : (lockedBody line).children.all fun n =>
            !(n.isCompound || n.isIf || n.isFor || n.isWhile || n.isSwitch || n.isDo || isMark n) := rfl
        have isCall := List.all_eq_true.mp none_ parent parentMem
        simp_all [controls]
      · simp [Stmt.child, Stmt.children]

/-- Statements at different places of this body end at different semicolons. -/
theorem eq_of_afterSemi_eq {line : Nat} {s t : Stmt} (sMem : s ∈ (lockedBody line).children)
    (tMem : t ∈ (lockedBody line).children) (same : afterSemi t = afterSemi s) : t = s := by
  have sameOffset := congrArg SourceLocation.offset same
  have nodup : ((lockedBody line).children.map fun n => (afterSemi n).offset).Nodup := by
    change [21, 44, 58, 86].Nodup
    decide
  exact List.inj_on_of_nodup_map nodup tMem sMem sameOffset

theorem isExprStmt_locked {line : Nat} {n : Stmt} (nMem : n ∈ (lockedBody line).children) :
    IsExprStmt (lockedBody line) n := by
  obtain ⟨i, bound, isChild⟩ := List.getElem_of_mem nMem
  have sameChild : (lockedBody line).child i = n := by
    rw [Stmt.child, List.getD_eq_getElem _ _ bound, isChild]
  constructor
  · rw [← sameChild]
    exact .child .root i rfl
  · have all : (lockedBody line).children.all Stmt.isExpression := rfl
    exact List.all_eq_true.mp all n nMem

theorem standsAlone_locked {line : Nat} {n : Stmt} (nMem : n ∈ (lockedBody line).children)
    (closed : Build.shortTokens.locForEndOfToken (Build.shortTokens.spelledEnd n) =
      some n.info.semiLoc)
    (past : (afterSemi n).offset ≠ 1)
    (outside : findIfstmtGrandparentRecursive n (lockedBody line) = .null) :
    StandsAlone Build.shortTokens (lockedBody line) n where
  closes := by
    have isStmt := isExprStmt_locked nMem
    refine ⟨n, isStmt, ?_, Stmt.self_mem_nodes (ne_null_of_isa isStmt.isExpression),
      isStmt.isExpression, closed⟩
    constructor
    · rfl
    · intro listed t at_ comes atEnd
      rcases stmtAt_locked at_ with rfl | ⟨tMem, isListed⟩ | rfl
      · cases comes
      · have isExpression := (isExprStmt_locked tMem).isExpression
        have isRun : (t.isDecl || t.isExpression) = true := by rw [isExpression, Bool.or_true]
        have same := Option.some.inj ((endPlace_of_run isRun).2.symm.trans atEnd)
        exact ⟨eq_of_afterSemi_eq nMem tMem same, isListed⟩
      · cases comes
    · intro block blockMem isBlock same
      rw [eq_lockedBody_of_isCompound blockMem isBlock] at same
      exact past (congrArg SourceLocation.offset same).symm
  outside := by
    rw [outside]
    rfl

theorem afterSemi_lockCall (line : Nat) : (afterSemi (lockCall line)).offset = 44 :=
  rfl

theorem afterSemi_unlockCall : (afterSemi unlockCall).offset = 86 :=
  rfl

theorem standAlone_locked (line : Nat) :
    StandAlone Build.shortTokens (lockedBody line) (unlockEhc line) where
  pairs := by
    intro n nMem
    rw [List.mem_singleton.mp nMem]
    apply standsAlone_locked
    · simp [lockedBody, Build.block, Stmt.children]
    · rfl
    · simp [afterSemi_lockCall]
    · rfl
  undos := by
    intro n nMem
    rw [show n = unlockCall from List.mem_singleton.mp nMem]
    apply standsAlone_locked
    · simp [lockedBody, Build.block, Stmt.children]
    · rfl
    · simp [afterSemi_unlockCall]
    · rfl
  apart := by
    rintro s ⟨⟨lock, lockMem, lockEnds⟩, unlock, unlockMem, unlockEnds⟩
    rw [List.mem_singleton.mp lockMem] at lockEnds
    rw [show unlock = unlockCall from List.mem_singleton.mp unlockMem] at unlockEnds
    have same : (43 : Nat) = 85 := congrArg SourceLocation.offset
      (Option.some.inj (lockEnds.closed.trans unlockEnds.closed.symm))
    cases same

/-- On a line of its own each statement of the outer EHC keeps its goto, so that the stamps agree
if every statement is broken off that runs while the flag is set. -/
theorem stampsAgree_locked (hf : Bool) (before : List Observation) {s : Stmt}
    (at_ : StmtAt (lockedBody 3) true s) :
    StampsAgree Build.shortTokens (lockedBody 3) (unlockEhc 3) false hf before
      (brokenOff.under hf) s := by
  rintro ⟨n, nMem, ends⟩
  left
  have own : ∀ n ∈ (unlockEhc 3).pairs ++ (unlockEhc 3).undos,
      Build.shortTokens.locForEndOfToken (Build.shortTokens.spelledEnd n) =
          some n.info.semiLoc ∧
        StampsRun Build.shortTokens (lockedBody 3) false false (afterSemi n) ∧
        ¬ StampsRun Build.shortTokens (lockedBody 3) false true (afterSemi n) := by
    decide
  obtain ⟨closed, stampsRun, noStamps⟩ := own n nMem
  have sameSemi : n.info.semiLoc = s.info.semiLoc := Option.some.inj (closed.symm.trans ends.closed)
  have samePlace : afterSemi n = afterSemi s := by rw [afterSemi, afterSemi, sameSemi]
  have nChild : n ∈ (lockedBody 3).children := by
    have both : n = lockCall 3 ∨ n = unlockCall := by
      simpa [unlockEhc, OuterEHC.undos] using nMem
    rcases both with rfl | rfl
    · simp [lockedBody, Build.block, Stmt.children]
    · simp [lockedBody, Build.block, Stmt.children]
  obtain rfl : n = s := by
    rcases stmtAt_locked at_ with rfl | ⟨sChild, _⟩ | rfl
    · have past : ∀ n ∈ (lockedBody 3).children, (afterSemi n).offset ≠ 1 := by decide
      exact absurd (congrArg SourceLocation.offset samePlace) (past n nChild)
    · exact eq_of_afterSemi_eq sChild nChild samePlace
    · cases ends.inside
  cases hf with
  | true =>
      simp only [noStamps, iff_false]
      rintro ⟨_, _, _, ⟨⟩, other, _, _, done⟩
      cases done
  | false =>
      simp only [stampsRun, iff_true]
      exact ⟨n, true, [], rfl, n, nMem, ends, List.mem_cons_self⟩

theorem recordsStep_locked {event : Event} (isBrokenOff : event.toEvaluation = brokenOff)
    (config : Config) :
    RecordsStep Build.shortTokens (lockedBody 3) (unlockEhc 3) false config event := by
  intro s rest _ at_
  rw [isBrokenOff]
  exact stampsAgree_locked _ _ at_

end Hecaton.Pass2
