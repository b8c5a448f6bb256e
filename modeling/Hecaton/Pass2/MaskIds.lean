import Hecaton.Clang.Build
import Hecaton.Library.BitMask
import Hecaton.Pass2.State
import Mathlib.Data.List.Range

/-!
# Mask identifiers

`assign_pairmask_id` gives every inner new statement and every outer EHC one bit
of the 64-bit pair mask: a word that starts at one and is shifted left after
each entry.  Nothing bounds the number of entries, so from the 65th on the word
is zero.
-/

namespace Hecaton.Pass2

open Hecaton.Clang
open Hecaton.Library

/-- `id` and `index`. -/
structure IdCounter where
  id : BitVec 64 := 0x01
  index : Nat := 0

/-- `id = id << 1; index++`. -/
def IdCounter.next (counter : IdCounter) : IdCounter where
  id := counter.id <<< 1
  index := counter.index + 1

/-- The loop over the new statements of a block. -/
def assignNewStmts (counter : IdCounter) : List EHCNewStmt → IdCounter × List EHCNewStmt
  | [] => (counter, [])
  | newstmt :: rest =>
      if newstmt.isOuter then
        let (after, rest) := assignNewStmts counter rest
        (after, newstmt :: rest)
      else
        let (after, rest) := assignNewStmts counter.next rest
        (after, { newstmt with pairmaskId := counter.id } :: rest)

/-- The loop over the blocks. -/
def assignEhcs (counter : IdCounter) : List EHC → IdCounter × List EHC
  | [] => (counter, [])
  | ehc :: rest =>
      let (after, newStmts) := assignNewStmts counter ehc.ehcNewStmts
      let (after, rest) := assignEhcs after rest
      (after, { ehc with ehcNewStmts := newStmts } :: rest)

/-- The loop over the outer EHCs. -/
def assignOuterEhcs (counter : IdCounter) : List OuterEHC → IdCounter × List OuterEHC
  | [] => (counter, [])
  | outerEhc :: rest =>
      let (after, rest) := assignOuterEhcs counter.next rest
      (after, { outerEhc with pairmaskId := counter.id } :: rest)

/-- `SCORE_NUMBER_EHC`. -/
def scoreNumberEhcWeight : Int := 20

/-- `assign_pairmask_id`. -/
def assignPairmaskId (f : Function) : Function :=
  let (counter, ehcs) := assignEhcs {} f.EHCs
  let (counter, outerEhcs) := assignOuterEhcs counter f.outerEHCs
  let score := f.confidenceScore
  let score :=
    if counter.index > 5 then { score with scoreNumberEhc := -scoreNumberEhcWeight } else score
  let score :=
    if counter.index > 8 then { score with scoreNumberEhc := -2 * scoreNumberEhcWeight }
    else score
  { f with EHCs := ehcs, outerEHCs := outerEhcs, confidenceScore := score }

/-! ## The identifiers assigned -/

/-- The entries that own a bit of the mask: inner new statements and outer
EHCs. -/
def entryCount (f : Function) : Nat := f.innerStmts.length + f.outerEHCs.length

/-- The identifiers of the entries, in the order they are assigned. -/
def maskIds (f : Function) : List (BitVec 64) :=
  f.innerStmts.map EHCNewStmt.pairmaskId ++ f.outerEHCs.map OuterEHC.pairmaskId

/-- The counter after `n` entries. -/
def IdCounter.after (n : Nat) : IdCounter := ⟨BitMask.oneHot 64 n, n⟩

theorem IdCounter.after_zero : IdCounter.after 0 = {} := by
  simp [IdCounter.after]

theorem IdCounter.after_next (n : Nat) : (IdCounter.after n).next = IdCounter.after (n + 1) := by
  simp [IdCounter.after, IdCounter.next, BitMask.oneHot_succ]

/-- The identifiers of `count` entries from entry `first` on. -/
def idsFrom (first count : Nat) : List (BitVec 64) :=
  (List.range' first count).map (BitMask.oneHot 64)

theorem idsFrom_succ (first count : Nat) :
    idsFrom first (count + 1) = BitMask.oneHot 64 first :: idsFrom (first + 1) count := by
  simp [idsFrom, List.range'_succ]

theorem idsFrom_append (first count more : Nat) :
    idsFrom first count ++ idsFrom (first + count) more = idsFrom first (count + more) := by
  simp [idsFrom, ← List.map_append, List.range'_append_1]

theorem assignNewStmts_spec (newStmts : List EHCNewStmt) (n : Nat) :
    let inner := newStmts.filter fun newstmt => !newstmt.isOuter
    let result := assignNewStmts (.after n) newStmts
    result.1 = .after (n + inner.length) ∧
      (result.2.filter fun newstmt => !newstmt.isOuter).map EHCNewStmt.pairmaskId =
        idsFrom n inner.length := by
  induction newStmts generalizing n with
  | nil => simp [assignNewStmts, idsFrom]
  | cons newstmt rest ih =>
      cases outer : newstmt.isOuter with
      | true =>
          have step := ih n
          simpa [assignNewStmts, outer] using step
      | false =>
          have step := ih (n + 1)
          simp only [assignNewStmts, outer, IdCounter.after_next]
          refine ⟨?_, ?_⟩
          · simpa [outer, Nat.add_assoc, Nat.add_comm 1] using step.1
          · simp only [outer, Bool.not_false, Bool.false_eq_true, if_false,
              List.filter_cons_of_pos, List.map_cons, List.length_cons, idsFrom_succ, step.2]
            rfl

theorem assignEhcs_spec (ehcs : List EHC) (n : Nat) :
    let innerOf := fun ehc : EHC => ehc.ehcNewStmts.filter fun newstmt => !newstmt.isOuter
    let result := assignEhcs (.after n) ehcs
    result.1 = .after (n + (ehcs.flatMap innerOf).length) ∧
      (result.2.flatMap innerOf).map EHCNewStmt.pairmaskId =
        idsFrom n (ehcs.flatMap innerOf).length := by
  induction ehcs generalizing n with
  | nil => simp [assignEhcs, idsFrom]
  | cons ehc rest ih =>
      have own := assignNewStmts_spec ehc.ehcNewStmts n
      have others := ih (n + (ehc.ehcNewStmts.filter fun newstmt => !newstmt.isOuter).length)
      simp only [assignEhcs, own.1]
      refine ⟨?_, ?_⟩
      · rw [others.1]
        simp [Nat.add_assoc]
      · simp only [List.flatMap_cons, List.map_append, own.2, others.2, idsFrom_append,
          List.length_append]

theorem assignOuterEhcs_spec (outerEhcs : List OuterEHC) (n : Nat) :
    let result := assignOuterEhcs (.after n) outerEhcs
    result.1 = .after (n + outerEhcs.length) ∧
      result.2.map OuterEHC.pairmaskId = idsFrom n outerEhcs.length := by
  induction outerEhcs generalizing n with
  | nil => simp [assignOuterEhcs, idsFrom]
  | cons outerEhc rest ih =>
      have step := ih (n + 1)
      simp only [assignOuterEhcs, IdCounter.after_next]
      refine ⟨?_, ?_⟩
      · simpa [Nat.add_assoc, Nat.add_comm 1] using step.1
      · simp only [List.map_cons, List.length_cons, idsFrom_succ, step.2]
        rfl

/-- The identifiers are the successive left shifts of one, entry by entry. -/
theorem maskIds_assignPairmaskId (f : Function) :
    maskIds (assignPairmaskId f) = idsFrom 0 (entryCount f) := by
  have inner := assignEhcs_spec f.EHCs 0
  simp only [IdCounter.after_zero, Nat.zero_add] at inner
  have outer := assignOuterEhcs_spec f.outerEHCs f.innerStmts.length
  rw [maskIds, entryCount, ← idsFrom_append, Nat.zero_add]
  congr 1
  · exact inner.2
  · rw [← outer.2]
    simp only [assignPairmaskId, inner.1]
    rfl

/-! ## Nothing else changes -/

/-- A new statement without its identifier. -/
def EHCNewStmt.withoutId (newstmt : EHCNewStmt) : EHCNewStmt := { newstmt with pairmaskId := 0 }

/-- An EHC without the identifiers of its new statements. -/
def EHC.withoutIds (ehc : EHC) : EHC :=
  { ehc with ehcNewStmts := ehc.ehcNewStmts.map EHCNewStmt.withoutId }

/-- An outer EHC without its identifier. -/
def OuterEHC.withoutId (outerEhc : OuterEHC) : OuterEHC := { outerEhc with pairmaskId := 0 }

theorem assignNewStmts_withoutId (counter : IdCounter) (newStmts : List EHCNewStmt) :
    (assignNewStmts counter newStmts).2.map EHCNewStmt.withoutId =
      newStmts.map EHCNewStmt.withoutId := by
  induction newStmts generalizing counter with
  | nil => rfl
  | cons newstmt rest ih =>
      cases outer : newstmt.isOuter with
      | true => simp [assignNewStmts, outer, ih]
      | false => simp [assignNewStmts, outer, ih, EHCNewStmt.withoutId]

theorem assignEhcs_withoutIds (counter : IdCounter) (ehcs : List EHC) :
    (assignEhcs counter ehcs).2.map EHC.withoutIds = ehcs.map EHC.withoutIds := by
  induction ehcs generalizing counter with
  | nil => rfl
  | cons ehc rest ih =>
      simp [assignEhcs, ih, EHC.withoutIds, assignNewStmts_withoutId]

theorem assignOuterEhcs_withoutId (counter : IdCounter) (outerEhcs : List OuterEHC) :
    (assignOuterEhcs counter outerEhcs).2.map OuterEHC.withoutId =
      outerEhcs.map OuterEHC.withoutId := by
  induction outerEhcs generalizing counter with
  | nil => rfl
  | cons outerEhc rest ih =>
      simp [assignOuterEhcs, ih, OuterEHC.withoutId]

theorem assignPairmaskId_EHCs (f : Function) :
    (assignPairmaskId f).EHCs.map EHC.withoutIds = f.EHCs.map EHC.withoutIds :=
  assignEhcs_withoutIds _ _

theorem assignPairmaskId_outerEHCs (f : Function) :
    (assignPairmaskId f).outerEHCs.map OuterEHC.withoutId =
      f.outerEHCs.map OuterEHC.withoutId :=
  assignOuterEhcs_withoutId _ _

/-! ## When the identifiers do not alias -/

/-- Every entry has a flag of its own: no identifier is zero, no two share a
bit, every guard can come true, and no stamp of one entry changes the guard of
another. -/
structure MaskIdsSeparate (ids : List (BitVec 64)) : Prop where
  nonzero : ∀ id ∈ ids, id ≠ 0
  disjoint : ids.Pairwise fun first second => first &&& second = 0
  guardsLive : ∀ id ∈ ids, ∃ mask, BitMask.test mask id = true
  stampsApart : ids.Pairwise fun first second => ∀ mask,
    BitMask.test (BitMask.set mask first) second = BitMask.test mask second ∧
    BitMask.test (BitMask.unset mask first) second = BitMask.test mask second ∧
    BitMask.test (BitMask.set mask second) first = BitMask.test mask first ∧
    BitMask.test (BitMask.unset mask second) first = BitMask.test mask first

/-- Identifiers without zero and without common bits are separate. -/
theorem MaskIdsSeparate.of_disjoint {ids : List (BitVec 64)} (nonzero : ∀ id ∈ ids, id ≠ 0)
    (disjoint : ids.Pairwise fun first second => first &&& second = 0) :
    MaskIdsSeparate ids where
  nonzero := nonzero
  disjoint := disjoint
  guardsLive id idMem := ⟨BitMask.set 0 id, BitMask.test_set_self 0 (nonzero id idMem)⟩
  stampsApart := by
    refine disjoint.imp ?_
    intro first second apart mask
    have flipped : second &&& first = 0 := by
      rw [BitVec.and_comm]
      exact apart
    exact ⟨BitMask.test_set_of_disjoint mask flipped, BitMask.test_unset_of_disjoint mask flipped,
      BitMask.test_set_of_disjoint mask apart, BitMask.test_unset_of_disjoint mask apart⟩

theorem idsFrom_pairwise_disjoint (first count : Nat) :
    (idsFrom first count).Pairwise fun one other => one &&& other = 0 := by
  rw [idsFrom, List.pairwise_map]
  refine List.Pairwise.imp ?_ (List.pairwise_lt_range' (s := first) (n := count))
  intro i j before
  exact BitMask.oneHot_and_oneHot (Nat.ne_of_lt before)

/-- A list of successive shifts avoids zero exactly within the word width. -/
theorem idsFrom_nonzero_iff (count : Nat) : (∀ id ∈ idsFrom 0 count, id ≠ 0) ↔ count ≤ 64 := by
  simp only [idsFrom, List.mem_map, List.mem_range'_1, Nat.zero_add, Nat.zero_le, true_and,
    forall_exists_index, and_imp, forall_apply_eq_imp_iff₂, BitMask.oneHot_ne_zero_iff]
  constructor
  · intro within
    by_contra more
    exact absurd (within 64 (by omega)) (by omega)
  · intro few i bound
    omega

theorem separate_assigned_iff (f : Function) :
    MaskIdsSeparate (maskIds (assignPairmaskId f)) ↔ entryCount f ≤ 64 := by
  rw [maskIds_assignPairmaskId]
  constructor
  · intro separate
    exact (idsFrom_nonzero_iff _).mp separate.nonzero
  · intro few
    exact .of_disjoint ((idsFrom_nonzero_iff _).mpr few) (idsFrom_pairwise_disjoint _ _)

/-- The mask identifiers of a function do not alias exactly when it has at most
64 entries. -/
theorem assignPairmaskId_separate_iff (f : Function) :
    MaskIdsSeparate (maskIds (assignPairmaskId f)) ↔ entryCount f ≤ 64 :=
  separate_assigned_iff f

/-- A function that frees 65 different pointers. -/
def frees65 : Function :=
  let frees := (List.range 65).map fun i =>
    Build.callOf (3 * i + 1) (20 * i + 2) (i + 2) "kfree" ("p" ++ toString i)
  { body := Build.block 0 0 1 1400 68 frees
    typeStr := "void"
    name := "drop_pages"
    outerEHCs := frees.map fun free => { stmt := free, foundWithDatabase := true } }

/-- The 65th entry of such a function has no bit. -/
theorem assignPairmaskId_overflows :
    ¬ MaskIdsSeparate (maskIds (assignPairmaskId frees65)) := by
  rw [separate_assigned_iff]
  simp [entryCount, Function.innerStmts, frees65]

end Hecaton.Pass2
