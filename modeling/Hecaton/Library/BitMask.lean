import Mathlib.Data.BitVec

/-!
# Words used as bit masks

A mask word holds one flag for each identifier word.  Setting, clearing and
testing a flag are the usual word operations; two flags are independent as soon
as their identifiers have no bit in common.  The identifiers themselves are the
successive left shifts of one.
-/

namespace Hecaton.Library.BitMask

variable {w : Nat}

/-- Set the flag of `id`. -/
def set (mask id : BitVec w) : BitVec w := mask ||| id

/-- Clear the flag of `id`. -/
def unset (mask id : BitVec w) : BitVec w := mask &&& ~~~id

/-- Test the flag of `id`, as a C condition does. -/
def test (mask id : BitVec w) : Bool := mask &&& id != 0

theorem test_eq_true_iff {mask id : BitVec w} : test mask id = true ↔ mask &&& id ≠ 0 := by
  simp [test]

@[simp]
theorem test_zero_mask (id : BitVec w) : test 0 id = false := by
  simp [test]

@[simp]
theorem test_zero_id (mask : BitVec w) : test mask 0 = false := by
  simp [test]

theorem test_set_self (mask : BitVec w) {id : BitVec w} (nonzero : id ≠ 0) :
    test (set mask id) id = true := by
  rw [test_eq_true_iff]
  have absorbed : set mask id &&& id = id := by
    ext i
    simp only [set, BitVec.getElem_and, BitVec.getElem_or]
    cases id[i] <;> simp
  rw [absorbed]
  exact nonzero

theorem test_set_of_disjoint (mask : BitVec w) {id other : BitVec w}
    (disjoint : id &&& other = 0) : test (set mask other) id = test mask id := by
  have same : set mask other &&& id = mask &&& id := by
    ext i bound
    have bitDisjoint := congrArg (fun word => word[i]) disjoint
    simp only [BitVec.getElem_and] at bitDisjoint
    simp only [set, BitVec.getElem_and, BitVec.getElem_or]
    cases idBit : id[i] <;> cases otherBit : other[i] <;> simp_all
  simp only [test, same]

@[simp]
theorem test_unset_self (mask id : BitVec w) : test (unset mask id) id = false := by
  have empty : unset mask id &&& id = 0 := by
    ext i
    simp [unset]
  simp [test, empty]

theorem test_unset_of_disjoint (mask : BitVec w) {id other : BitVec w}
    (disjoint : id &&& other = 0) : test (unset mask other) id = test mask id := by
  have same : unset mask other &&& id = mask &&& id := by
    ext i bound
    have bitDisjoint := congrArg (fun word => word[i]) disjoint
    simp only [BitVec.getElem_and] at bitDisjoint
    simp only [unset, BitVec.getElem_and, BitVec.getElem_not]
    cases idBit : id[i] <;> cases otherBit : other[i] <;> simp_all
  simp only [test, same]

/-! ## One-bit identifiers -/

/-- The word in which only bit `i` is set; zero past the width of the word. -/
def oneHot (w i : Nat) : BitVec w := 1#w <<< i

@[simp]
theorem oneHot_zero (w : Nat) : oneHot w 0 = 1#w := by
  simp [oneHot]

theorem oneHot_succ (w i : Nat) : oneHot w (i + 1) = oneHot w i <<< 1 := by
  simp [oneHot, BitVec.shiftLeft_add]

theorem getElem_oneHot (w i j : Nat) (bound : j < w) :
    (oneHot w i)[j] = decide (i = j) := by
  simp only [oneHot, BitVec.getElem_shiftLeft, BitVec.getElem_one]
  by_cases before : j < i
  · simp [before, Nat.ne_of_gt before]
  · simp [before]
    omega

theorem oneHot_ne_zero_iff (w i : Nat) : oneHot w i ≠ 0 ↔ i < w := by
  constructor
  · intro nonzero
    by_contra past
    apply nonzero
    ext j bound
    rw [getElem_oneHot]
    simp
    omega
  · intro bound zero
    have bit := congrArg (fun word => word[i]) zero
    simp [getElem_oneHot] at bit

theorem oneHot_and_oneHot {w i j : Nat} (distinct : i ≠ j) :
    oneHot w i &&& oneHot w j = 0 := by
  ext k bound
  simp only [BitVec.getElem_and, getElem_oneHot]
  by_cases first : i = k
  · subst first
    simp [distinct.symm]
  · simp [first]

/-! ## Updates in sequence -/

/-- One update of a mask: the flag of an identifier is set or cleared. -/
structure Update (w : Nat) where
  id : BitVec w
  value : Bool
  deriving DecidableEq

/-- Perform an update. -/
def Update.apply (update : Update w) (mask : BitVec w) : BitVec w :=
  if update.value then set mask update.id else unset mask update.id

/-- Perform updates in order. -/
def applyAll (mask : BitVec w) (updates : List (Update w)) : BitVec w :=
  updates.foldl (fun mask update => update.apply mask) mask

@[simp]
theorem applyAll_nil (mask : BitVec w) : applyAll mask [] = mask :=
  rfl

@[simp]
theorem applyAll_cons (mask : BitVec w) (update : Update w) (updates : List (Update w)) :
    applyAll mask (update :: updates) = applyAll (update.apply mask) updates :=
  rfl

theorem applyAll_append (mask : BitVec w) (first second : List (Update w)) :
    applyAll mask (first ++ second) = applyAll (applyAll mask first) second :=
  List.foldl_append

theorem test_apply_self (mask : BitVec w) (update : Update w) (nonzero : update.id ≠ 0) :
    test (update.apply mask) update.id = update.value := by
  cases value : update.value with
  | false => simp [Update.apply, value]
  | true => simp [Update.apply, value, test_set_self mask nonzero]

theorem test_apply_of_disjoint (mask : BitVec w) {id : BitVec w} {update : Update w}
    (disjoint : id &&& update.id = 0) : test (update.apply mask) id = test mask id := by
  rw [Update.apply]
  split
  · exact test_set_of_disjoint mask disjoint
  · exact test_unset_of_disjoint mask disjoint

/-- Updates of other flags leave a flag alone. -/
theorem test_applyAll_of_disjoint {id : BitVec w} {updates : List (Update w)}
    (disjoint : ∀ update ∈ updates, id &&& update.id = 0) (mask : BitVec w) :
    test (applyAll mask updates) id = test mask id := by
  induction updates generalizing mask with
  | nil => rfl
  | cons update rest ih =>
      rw [applyAll_cons, ih (fun other otherMem => disjoint other (List.mem_cons_of_mem _ otherMem))]
      exact test_apply_of_disjoint mask (disjoint update List.mem_cons_self)

/-- When all updates of a flag agree, the flag has their value as soon as there is
one or it had that value before. -/
theorem test_applyAll_of_agree {id : BitVec w} (nonzero : id ≠ 0) {updates : List (Update w)}
    {value : Bool} (agree : ∀ update ∈ updates, update = ⟨id, value⟩ ∨ id &&& update.id = 0)
    {mask : BitVec w} (decided : ⟨id, value⟩ ∈ updates ∨ test mask id = value) :
    test (applyAll mask updates) id = value := by
  induction updates generalizing mask with
  | nil => exact decided.resolve_left List.not_mem_nil
  | cons update rest ih =>
      rw [applyAll_cons]
      apply ih fun other otherMem => agree other (List.mem_cons_of_mem _ otherMem)
      rcases agree update List.mem_cons_self with rfl | disjoint
      · exact Or.inr (test_apply_self mask ⟨id, value⟩ nonzero)
      · rw [test_apply_of_disjoint mask disjoint]
        rcases decided with inUpdates | before
        · rcases List.mem_cons.mp inUpdates with rfl | inRest
          · exact absurd ((BitVec.and_self).symm.trans disjoint) nonzero
          · exact Or.inl inRest
        · exact Or.inr before

end Hecaton.Library.BitMask
