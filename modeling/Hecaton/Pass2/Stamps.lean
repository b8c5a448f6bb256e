import Hecaton.Pass2.Gotos
import Hecaton.Pass2.MaskIds

/-!
# Stamps

Behind each statement that changes a state or undoes the change, the pass writes
an update of the pair mask.  A statement in a condition has its stamp at the
start of the body that the condition guards.
-/

namespace Hecaton.Pass2

open Hecaton.Clang
open Hecaton.Library

/-- `find_proper_loc_to_insert_pairmask_stamp`; `none` is an invalid location. -/
def findProperLocToInsertPairmaskStamp (sm : SourceManager) (pair Body : Stmt) :
    Option SourceLocation :=
  let parent := findIfstmtGrandparentRecursive pair Body
  if stmtInParentCondition pair parent then
    let parentBody :=
      if parent.isIf then parent.ifThen
      else if parent.isFor then parent.forBody
      else parent.whileBody
    if parentBody.isCompound then some (afterBrace parentBody) else none
  else if pair.isIf || pair.isFor || pair.isWhile then
    -- The source looks for a brace only when such a statement is a compound one.
    none
  else sm.recursiveGetEnd pair

section Stamps

variable (sm : SourceManager) (Body : Stmt)

/-- The stamp of one statement, if it has a place. -/
def stampOf (update : BitMask.Update 64) (pair : Stmt) : List Insertion :=
  if pair.isNull then []
  else
    match findProperLocToInsertPairmaskStamp sm pair Body with
    | some loca => [⟨loca, .stamp update⟩]
    | none => []

/-- The first loop of `insert_pairmask_stamps`, for the new statements of an EHC. -/
def stampsOfNewStmts (newStmts : List EHCNewStmt) : List Insertion :=
  newStmts.flatMap fun newstmt =>
    if newstmt.isOuter then [] else stampOf sm Body ⟨newstmt.pairmaskId, true⟩ newstmt.pair

/-- The second loop of `insert_pairmask_stamps`, for one outer EHC. -/
def stampsOfOuterEhc (outer1 : OuterEHC) : List Insertion :=
  if outer1.stmt.isNull then []
  else
    stampOf sm Body ⟨outer1.pairmaskId, false⟩ outer1.stmt ++
      outer1.duplicates.flatMap (stampOf sm Body ⟨outer1.pairmaskId, false⟩) ++
      outer1.pairs.flatMap (stampOf sm Body ⟨outer1.pairmaskId, true⟩)

end Stamps

/-- `insert_pairmask_stamps`. -/
def insertPairmaskStamps (sm : SourceManager) (f : Function) : List Insertion :=
  (f.EHCs.flatMap fun ehc => stampsOfNewStmts sm f.body ehc.ehcNewStmts) ++
    f.outerEHCs.flatMap (stampsOfOuterEhc sm f.body)

/-- What the pass writes into the body of a function, in the order in which it
writes. -/
def insertions (sm : SourceManager) (f : Function) : List Insertion :=
  insertGotosBlocks f.body ++ insertGotos sm f.body ++
    if f.isClosing then [] else insertPairmaskStamps sm f

/-- What stands at a place after all insertions. -/
def piecesAt (written : List Insertion) (place : SourceLocation) : List Piece :=
  (written.filter fun insertion => insertion.loc = place).map Insertion.piece

/-! ## The entries of the mask -/

/-- An owner of a mask bit: the statements behind which its bit is cleared and
those behind which it is set. -/
structure StampEntry where
  id : BitVec 64
  unsets : List Stmt
  sets : List Stmt

/-- A new statement as owner of a mask bit. -/
def EHCNewStmt.stampEntry (newstmt : EHCNewStmt) : StampEntry where
  id := newstmt.pairmaskId
  unsets := []
  sets := [newstmt.pair]

/-- An outer EHC as owner of a mask bit. -/
def OuterEHC.stampEntry (outerEhc : OuterEHC) : StampEntry where
  id := outerEhc.pairmaskId
  unsets := if outerEhc.stmt.isNull then [] else outerEhc.stmt :: outerEhc.duplicates
  sets := if outerEhc.stmt.isNull then [] else outerEhc.pairs

/-- The owners of the mask bits, in the order in which they are stamped. -/
def stampEntries (f : Function) : List StampEntry :=
  f.innerStmts.map EHCNewStmt.stampEntry ++ f.outerEHCs.map OuterEHC.stampEntry

/-- The stamps of an owner. -/
def StampEntry.stamps (sm : SourceManager) (Body : Stmt) (entry : StampEntry) : List Insertion :=
  entry.unsets.flatMap (stampOf sm Body ⟨entry.id, false⟩) ++
    entry.sets.flatMap (stampOf sm Body ⟨entry.id, true⟩)

variable {sm : SourceManager}

theorem stampsOfNewStmts_eq (Body : Stmt) (newStmts : List EHCNewStmt) :
    stampsOfNewStmts sm Body newStmts =
      ((newStmts.filter fun newstmt => !newstmt.isOuter).map EHCNewStmt.stampEntry).flatMap
        (StampEntry.stamps sm Body) := by
  induction newStmts with
  | nil => rfl
  | cons newstmt rest ih =>
      simp only [stampsOfNewStmts, List.flatMap_cons] at ih ⊢
      rw [ih]
      cases outer : newstmt.isOuter with
      | true => simp [outer]
      | false => simp [outer, StampEntry.stamps, EHCNewStmt.stampEntry]

theorem stampsOfOuterEhc_eq (Body : Stmt) (outerEhc : OuterEHC) :
    stampsOfOuterEhc sm Body outerEhc = outerEhc.stampEntry.stamps sm Body := by
  cases isNull : outerEhc.stmt.isNull with
  | true => simp [stampsOfOuterEhc, StampEntry.stamps, OuterEHC.stampEntry, isNull]
  | false => simp [stampsOfOuterEhc, StampEntry.stamps, OuterEHC.stampEntry, isNull]

/-- The three loops stamp owner by owner. -/
theorem insertPairmaskStamps_eq (f : Function) :
    insertPairmaskStamps sm f = (stampEntries f).flatMap (StampEntry.stamps sm f.body) := by
  rw [insertPairmaskStamps, stampEntries, List.flatMap_append, Function.innerStmts,
    List.map_flatMap, List.flatMap_assoc]
  congr 1
  · exact List.flatMap_congr fun ehc _ => stampsOfNewStmts_eq _ _
  · rw [List.flatMap_map]
    exact List.flatMap_congr fun outerEhc _ => stampsOfOuterEhc_eq _ _

theorem stampEntries_ids (f : Function) : (stampEntries f).map StampEntry.id = maskIds f := by
  simp [stampEntries, maskIds, Function.comp_def, EHCNewStmt.stampEntry, OuterEHC.stampEntry]

/-- An owner's bit is no other owner's: the bits of the owners before and behind it
are different ones. -/
theorem stampEntries_split {g : Function} {entry : StampEntry}
    (entryMem : entry ∈ stampEntries (assignPairmaskId g)) :
    ∃ pre post, stampEntries (assignPairmaskId g) = pre ++ entry :: post ∧
      ∀ other ∈ pre ++ post, entry.id &&& other.id = 0 := by
  obtain ⟨pre, post, split⟩ := List.append_of_mem entryMem
  refine ⟨pre, post, split, ?_⟩
  have disjoint := idsFrom_pairwise_disjoint 0 (entryCount g)
  rw [← maskIds_assignPairmaskId, ← stampEntries_ids, List.pairwise_map, split,
    List.pairwise_append, List.pairwise_cons] at disjoint
  obtain ⟨_, ⟨behind, _⟩, before⟩ := disjoint
  intro other otherMem
  rcases List.mem_append.mp otherMem with inPre | inPost
  · rw [BitVec.and_comm]
    exact before other inPre entry List.mem_cons_self
  · exact behind other inPost

/-! ## What stands at one place -/

/-- The stamps at a place. -/
def updatesAt (stamps : List Insertion) (place : SourceLocation) : List (BitMask.Update 64) :=
  stamps.filterMap fun insertion =>
    match insertion.piece with
    | .hgoto => none
    | .stamp update => if insertion.loc = place then some update else none

theorem updatesAt_append (first second : List Insertion) (place : SourceLocation) :
    updatesAt (first ++ second) place = updatesAt first place ++ updatesAt second place :=
  List.filterMap_append

theorem mem_updatesAt {stamps : List Insertion} {place : SourceLocation}
    {update : BitMask.Update 64} :
    update ∈ updatesAt stamps place ↔ ⟨place, .stamp update⟩ ∈ stamps := by
  simp only [updatesAt, List.mem_filterMap]
  constructor
  · rintro ⟨⟨loc, piece⟩, insertionMem, found⟩
    cases piece with
    | hgoto => cases found
    | stamp other =>
        simp only [Option.ite_none_right_eq_some, Option.some.injEq] at found
        obtain ⟨rfl, rfl⟩ := found
        exact insertionMem
  · intro insertionMem
    exact ⟨_, insertionMem, by simp⟩

theorem mem_stampOf {Body pair : Stmt} {update : BitMask.Update 64} {insertion : Insertion} :
    insertion ∈ stampOf sm Body update pair ↔
      pair.isNull = false ∧ insertion.piece = .stamp update ∧
        findProperLocToInsertPairmaskStamp sm pair Body = some insertion.loc := by
  rcases insertion with ⟨loc, piece⟩
  rw [stampOf]
  cases isNull : pair.isNull with
  | true => simp
  | false =>
      cases place : findProperLocToInsertPairmaskStamp sm pair Body with
      | none => simp
      | some loca => simp [and_comm, eq_comm]

/-- The stamps of an owner at a place: one that sets for each statement behind
which the bit is set, and one that clears for each behind which it is cleared. -/
theorem mem_updatesAt_stamps {Body : Stmt} {entry : StampEntry} {place : SourceLocation}
    {update : BitMask.Update 64} :
    update ∈ updatesAt (entry.stamps sm Body) place ↔
      update.id = entry.id ∧ ∃ n ∈ if update.value then entry.sets else entry.unsets,
        n.isNull = false ∧ findProperLocToInsertPairmaskStamp sm n Body = some place := by
  rcases update with ⟨id, value⟩
  simp only [mem_updatesAt, StampEntry.stamps, List.mem_append, List.mem_flatMap, mem_stampOf,
    Piece.stamp.injEq, BitMask.Update.mk.injEq]
  have ofPairs : ∀ pairs : List Stmt,
      (∃ pair ∈ pairs, pair.isNull = false ∧ id = entry.id ∧
          findProperLocToInsertPairmaskStamp sm pair Body = some place) ↔
        id = entry.id ∧ ∃ pair ∈ pairs, pair.isNull = false ∧
          findProperLocToInsertPairmaskStamp sm pair Body = some place := by
    intro pairs
    constructor
    · rintro ⟨pair, pairMem, nonnull, sameId, atPlace⟩
      exact ⟨sameId, pair, pairMem, nonnull, atPlace⟩
    · rintro ⟨sameId, pair, pairMem, nonnull, atPlace⟩
      exact ⟨pair, pairMem, nonnull, sameId, atPlace⟩
  cases value with
  | false => simpa using ofPairs entry.unsets
  | true => simpa using ofPairs entry.sets

theorem id_of_mem_updatesAt {Body : Stmt} {entries : List StampEntry} {place : SourceLocation}
    {update : BitMask.Update 64}
    (updateMem : update ∈ updatesAt (entries.flatMap (StampEntry.stamps sm Body)) place) :
    ∃ entry ∈ entries, update.id = entry.id := by
  rw [mem_updatesAt, List.mem_flatMap] at updateMem
  obtain ⟨entry, entryMem, inEntry⟩ := updateMem
  exact ⟨entry, entryMem, (mem_updatesAt_stamps.mp (mem_updatesAt.mpr inEntry)).1⟩

/-- The stamps at a place are those of one owner, among stamps of other bits. -/
theorem updatesAt_split (sm : SourceManager) {g : Function} {entry : StampEntry}
    (entryMem : entry ∈ stampEntries (assignPairmaskId g)) (place : SourceLocation) :
    ∃ before after, updatesAt (insertPairmaskStamps sm (assignPairmaskId g)) place =
        before ++ updatesAt (entry.stamps sm g.body) place ++ after ∧
      ∀ update ∈ before ++ after, entry.id &&& update.id = 0 := by
  obtain ⟨pre, post, split, disjoint⟩ := stampEntries_split entryMem
  refine ⟨updatesAt (pre.flatMap (StampEntry.stamps sm g.body)) place,
    updatesAt (post.flatMap (StampEntry.stamps sm g.body)) place, ?_, ?_⟩
  · rw [insertPairmaskStamps_eq, split, List.flatMap_append, List.flatMap_cons,
      ← List.append_assoc, updatesAt_append, updatesAt_append]
    rfl
  · intro update updateMem
    rcases List.mem_append.mp updateMem with inPre | inPost
    · obtain ⟨other, otherMem, same⟩ := id_of_mem_updatesAt inPre
      rw [same]
      exact disjoint other (List.mem_append_left _ otherMem)
    · obtain ⟨other, otherMem, same⟩ := id_of_mem_updatesAt inPost
      rw [same]
      exact disjoint other (List.mem_append_right _ otherMem)

/-- A stamp at a place is one of the owner, or one of another bit. -/
theorem own_or_disjoint {g : Function} {entry : StampEntry}
    (entryMem : entry ∈ stampEntries (assignPairmaskId g)) {place : SourceLocation}
    {update : BitMask.Update 64}
    (updateMem : update ∈ updatesAt (insertPairmaskStamps sm (assignPairmaskId g)) place) :
    update ∈ updatesAt (entry.stamps sm g.body) place ∨ entry.id &&& update.id = 0 := by
  obtain ⟨before, after, split, disjoint⟩ := updatesAt_split sm entryMem place
  rw [split] at updateMem
  rcases List.mem_append.mp updateMem with inFront | inAfter
  · rcases List.mem_append.mp inFront with inBefore | own
    · exact Or.inr (disjoint update (List.mem_append_left _ inBefore))
    · exact Or.inl own
  · exact Or.inr (disjoint update (List.mem_append_right _ inAfter))

theorem mem_updatesAt_of_own {g : Function} {entry : StampEntry}
    (entryMem : entry ∈ stampEntries (assignPairmaskId g)) {place : SourceLocation}
    {update : BitMask.Update 64} (own : update ∈ updatesAt (entry.stamps sm g.body) place) :
    update ∈ updatesAt (insertPairmaskStamps sm (assignPairmaskId g)) place := by
  rw [mem_updatesAt] at own ⊢
  rw [insertPairmaskStamps_eq]
  exact List.mem_flatMap.mpr ⟨entry, entryMem, own⟩

/-- At a place at which an owner has a stamp that sets its bit, the bit is set in
the end: its stamps that clear the bit stand before those that set it. -/
theorem test_of_set {g : Function} {entry : StampEntry}
    (entryMem : entry ∈ stampEntries (assignPairmaskId g)) (nonzero : entry.id ≠ 0) {n : Stmt}
    (nMem : n ∈ entry.sets) (nonnull : n.isNull = false) {place : SourceLocation}
    (atPlace : findProperLocToInsertPairmaskStamp sm n g.body = some place) (mask : BitVec 64) :
    BitMask.test (BitMask.applyAll mask
        (updatesAt (insertPairmaskStamps sm (assignPairmaskId g)) place)) entry.id = true := by
  obtain ⟨before, after, split, disjoint⟩ := updatesAt_split sm entryMem place
  rw [split, BitMask.applyAll_append, BitMask.test_applyAll_of_disjoint fun update updateMem =>
    disjoint update (List.mem_append_right _ updateMem)]
  rw [StampEntry.stamps, updatesAt_append, ← List.append_assoc, BitMask.applyAll_append]
  apply BitMask.test_applyAll_of_agree nonzero
  · intro update updateMem
    obtain ⟨m, _, inStamp⟩ := List.mem_flatMap.mp (mem_updatesAt.mp updateMem)
    exact Or.inl (Piece.stamp.inj (mem_stampOf.mp inStamp).2.1)
  · left
    rw [mem_updatesAt, List.mem_flatMap]
    exact ⟨n, nMem, mem_stampOf.mpr ⟨nonnull, rfl, atPlace⟩⟩

/-- At a place at which an owner has no stamp that clears its bit, a set bit stays
set. -/
theorem test_of_test {g : Function} {entry : StampEntry}
    (entryMem : entry ∈ stampEntries (assignPairmaskId g)) {place : SourceLocation}
    (notCleared : ∀ n ∈ entry.unsets,
      findProperLocToInsertPairmaskStamp sm n g.body ≠ some place) {mask : BitVec 64}
    (isSet : BitMask.test mask entry.id = true) :
    BitMask.test (BitMask.applyAll mask
        (updatesAt (insertPairmaskStamps sm (assignPairmaskId g)) place)) entry.id = true := by
  have nonzero : entry.id ≠ 0 := by
    rintro zero
    rw [zero, BitMask.test_zero_id] at isSet
    cases isSet
  refine BitMask.test_applyAll_of_agree nonzero ?_ (Or.inr isSet)
  intro update updateMem
  refine (own_or_disjoint entryMem updateMem).imp_left ?_
  intro own
  obtain ⟨sameId, n, nMem, _, atPlace⟩ := mem_updatesAt_stamps.mp own
  rcases update with ⟨id, value⟩
  cases value with
  | false => exact absurd atPlace (notCleared n nMem)
  | true => exact congrArg (fun id => (⟨id, true⟩ : BitMask.Update 64)) sameId

/-- At every place the gotos stand before the stamps. -/
theorem piecesAt_insertions {f : Function} (notClosing : f.isClosing = false)
    (place : SourceLocation) :
    piecesAt (insertions sm f) place =
      piecesAt (insertGotosBlocks f.body ++ insertGotos sm f.body) place ++
        (updatesAt (insertPairmaskStamps sm f) place).map .stamp := by
  have onlyStamps : ∀ insertion ∈ insertPairmaskStamps sm f,
      ∃ update, insertion.piece = .stamp update := by
    intro insertion insertionMem
    rw [insertPairmaskStamps_eq] at insertionMem
    obtain ⟨entry, _, inEntry⟩ := List.mem_flatMap.mp insertionMem
    rcases List.mem_append.mp inEntry with inUnsets | inSets
    · obtain ⟨n, _, inStamp⟩ := List.mem_flatMap.mp inUnsets
      exact ⟨_, (mem_stampOf.mp inStamp).2.1⟩
    · obtain ⟨n, _, inStamp⟩ := List.mem_flatMap.mp inSets
      exact ⟨_, (mem_stampOf.mp inStamp).2.1⟩
  have stamps : piecesAt (insertPairmaskStamps sm f) place =
      (updatesAt (insertPairmaskStamps sm f) place).map .stamp := by
    generalize insertPairmaskStamps sm f = written at onlyStamps
    induction written with
    | nil => rfl
    | cons insertion rest ih =>
        obtain ⟨update, isStamp⟩ := onlyStamps insertion List.mem_cons_self
        have ih := ih fun other otherMem => onlyStamps other (List.mem_cons_of_mem _ otherMem)
        simp only [piecesAt, updatesAt] at ih ⊢
        by_cases here : insertion.loc = place
        · simp [here, isStamp, ih]
        · simp [here, isStamp, ih]
  rw [insertions, notClosing, ← stamps]
  simp [piecesAt]

/-- Gotos only. -/
theorem hgoto_of_mem_piecesAt {Body : Stmt} {place : SourceLocation} {piece : Piece}
    (written : piece ∈ piecesAt (insertGotosBlocks Body ++ insertGotos sm Body) place) :
    piece = .hgoto := by
  obtain ⟨insertion, insertionMem, rfl⟩ := List.mem_map.mp written
  rcases List.mem_append.mp (List.mem_filter.mp insertionMem).1 with block | statement
  · exact piece_of_mem_insertGotosBlocks block
  · exact piece_of_mem_insertGotos statement

end Hecaton.Pass2
