import Hecaton.Library.Run
import Mathlib.Data.List.Nodup

/-!
# Linked lists that are erased from while they are walked

Every element of a linked list stands at a position of its own, and erasing an element leaves
all other positions as they are.  A loop that holds a position may therefore let another loop
erase from the same list, as long as its own position stays.  Reading, leaving or erasing a
position that is not in the list, because it has been erased or is the end, has no result.
-/

namespace Hecaton.Library

universe u v w

variable {ι : Type u} {α : Type v} {σ : Type w} [DecidableEq ι]

/-- The elements of a linked list in their order, each with its position. -/
@[ext]
structure LinkedList (ι : Type u) (α : Type v) where
  cells : List (ι × α)
  distinct : (cells.map Prod.fst).Nodup

/-- The position of the first cell; `none` is the end. -/
def firstPosition (cells : List (ι × α)) : Option ι := cells.head?.map Prod.fst

namespace LinkedList

/-- The elements. -/
def values (list : LinkedList ι α) : List α := list.cells.map Prod.snd

/-- `begin()`. -/
def first (list : LinkedList ι α) : Option ι := firstPosition list.cells

/-- `*it`. -/
def read (list : LinkedList ι α) (it : ι) : Option α :=
  (list.cells.find? fun cell => cell.1 == it).map Prod.snd

/-- `++it`: the position behind, or the end. -/
def after (list : LinkedList ι α) (it : ι) : Option (Option ι) :=
  match list.cells.dropWhile fun cell => cell.1 != it with
  | [] => none
  | _ :: behind => some (firstPosition behind)

/-- The list with the elements that meet a test, at their positions. -/
def filter (list : LinkedList ι α) (keeps : α → Bool) : LinkedList ι α where
  cells := list.cells.filter fun cell => keeps cell.2
  distinct := list.distinct.sublist (List.filter_sublist.map Prod.fst)

/-- The list without a position. -/
def without (list : LinkedList ι α) (it : ι) : LinkedList ι α where
  cells := list.cells.filter fun cell => cell.1 != it
  distinct := list.distinct.sublist (List.filter_sublist.map Prod.fst)

/-- `erase(it)`: the list without the position, and the position behind it. -/
def erase (list : LinkedList ι α) (it : ι) : Option (LinkedList ι α × Option ι) :=
  (list.after it).map fun next => (list.without it, next)

/-- A list that has been filled with the elements, one after the other. -/
def ofList (elements : List α) : LinkedList Nat α where
  cells := elements.zipIdx.map Prod.swap
  distinct := by
    have positions : (elements.zipIdx.map Prod.swap).map Prod.fst = elements.zipIdx.map Prod.snd := by
      rw [List.map_map]
      rfl
    rw [positions, List.zipIdx_map_snd]
    exact List.nodup_range'

theorem values_ofList (elements : List α) : (ofList elements).values = elements := by
  have images : (elements.zipIdx.map Prod.swap).map Prod.snd = elements.zipIdx.map Prod.fst := by
    rw [List.map_map]
    rfl
  rw [values, ofList, images, List.zipIdx_map_fst]

omit [DecidableEq ι] in
theorem cells_filter (list : LinkedList ι α) (keeps : α → Bool) :
    (list.filter keeps).cells = list.cells.filter fun cell => keeps cell.2 :=
  rfl

theorem cells_without (list : LinkedList ι α) (it : ι) :
    (list.without it).cells = list.cells.filter fun cell => cell.1 != it :=
  rfl

omit [DecidableEq ι] in
theorem filter_eq_self {list : LinkedList ι α} {keeps : α → Bool}
    (kept : ∀ cell ∈ list.cells, keeps cell.2 = true) : list.filter keeps = list := by
  ext1
  rw [cells_filter, List.filter_eq_self]
  exact kept

omit [DecidableEq ι] in
theorem filter_filter (list : LinkedList ι α) (keeps keeps' : α → Bool) :
    (list.filter keeps).filter keeps' =
      list.filter fun element => keeps' element && keeps element := by
  ext1
  rw [cells_filter, cells_filter, cells_filter, List.filter_filter]

omit [DecidableEq ι] in
theorem values_filter (list : LinkedList ι α) (keeps : α → Bool) :
    (list.filter keeps).values = list.values.filter keeps := by
  simp [values, filter, List.filter_map, Function.comp_def]

/-! ## At a position of the list -/

section AtPosition

variable {list : LinkedList ι α} {before behind : List (ι × α)} {it : ι} {element : α}

omit [DecidableEq ι] in
theorem ne_of_mem_before (split : list.cells = before ++ (it, element) :: behind)
    {cell : ι × α} (inBefore : cell ∈ before) : cell.1 ≠ it := by
  have distinct := list.distinct
  rw [split, List.map_append, List.nodup_append] at distinct
  exact distinct.2.2 cell.1 (List.mem_map_of_mem inBefore) it (by simp)

omit [DecidableEq ι] in
theorem ne_of_mem_behind (split : list.cells = before ++ (it, element) :: behind)
    {cell : ι × α} (inBehind : cell ∈ behind) : cell.1 ≠ it := by
  have distinct := list.distinct
  rw [split, List.map_append, List.nodup_append, List.map_cons, List.nodup_cons] at distinct
  intro same
  exact distinct.2.1.1 (List.mem_map.mpr ⟨cell, inBehind, same⟩)

theorem read_of_split (split : list.cells = before ++ (it, element) :: behind) :
    list.read it = some element := by
  have absent : before.find? (fun cell => cell.1 == it) = none := by
    rw [List.find?_eq_none]
    intro cell inBefore
    simpa using ne_of_mem_before split inBefore
  rw [read, split, List.find?_append, absent, Option.none_or, List.find?_cons_of_pos (by simp)]
  rfl

theorem after_of_split (split : list.cells = before ++ (it, element) :: behind) :
    list.after it = some (firstPosition behind) := by
  have passed : list.cells.dropWhile (fun cell => cell.1 != it) = (it, element) :: behind := by
    rw [split, List.dropWhile_append_of_pos, List.dropWhile_cons_of_neg (by simp)]
    intro cell inBefore
    simpa using ne_of_mem_before split inBefore
  rw [after, passed]

theorem cells_without_of_split (split : list.cells = before ++ (it, element) :: behind) :
    (list.without it).cells = before ++ behind := by
  have beforeStays : before.filter (fun cell => cell.1 != it) = before := by
    rw [List.filter_eq_self]
    intro cell inBefore
    simpa using ne_of_mem_before split inBefore
  have behindStays : behind.filter (fun cell => cell.1 != it) = behind := by
    rw [List.filter_eq_self]
    intro cell inBehind
    simpa using ne_of_mem_behind split inBehind
  rw [cells_without, split, List.filter_append, List.filter_cons_of_neg (by simp), beforeStays,
    behindStays]

theorem erase_of_split (split : list.cells = before ++ (it, element) :: behind) :
    list.erase it = some (list.without it, firstPosition behind) := by
  rw [erase, after_of_split split]
  rfl

omit [DecidableEq ι] in
/-- A position whose element meets the test stays where it is. -/
theorem cells_filter_of_split (split : list.cells = before ++ (it, element) :: behind)
    {keeps : α → Bool} (kept : keeps element = true) :
    (list.filter keeps).cells =
      (before.filter fun cell => keeps cell.2) ++
        (it, element) :: behind.filter fun cell => keeps cell.2 := by
  rw [cells_filter, split, List.filter_append, List.filter_cons_of_pos (by simpa using kept)]

/-- What the test refuses may as well be erased first. -/
theorem filter_without_of_split (split : list.cells = before ++ (it, element) :: behind)
    {keeps : α → Bool} (refused : keeps element = false) :
    (list.without it).filter keeps = list.filter keeps := by
  ext1
  rw [cells_filter, cells_without_of_split split, cells_filter, split, List.filter_append,
    List.filter_append, List.filter_cons_of_neg (by simpa using refused)]

end AtPosition

/-! ## The loop that erases -/

/-- `for (it = begin(); it != end();)`, with `it = erase(it)` for the elements that meet the
test, which are also noted, and `++it` for the others.  `none` when the rounds do not bring
it to the end or when it uses a position that is not in the list. -/
def eraseLoop (erases : α → Bool) (note : σ → α → σ) :
    Nat → LinkedList ι α → σ → Option ι → Option (LinkedList ι α × σ)
  | _, list, state, none => some (list, state)
  | 0, _, _, some _ => none
  | rounds + 1, list, state, some it =>
      (list.read it).bind fun element =>
        if erases element then
          (list.erase it).bind fun (list, next) =>
            eraseLoop erases note rounds list (note state element) next
        else (list.after it).bind fun next => eraseLoop erases note rounds list state next

/-- From any position on, the loop erases what meets the test. -/
theorem eraseLoop_of_split (erases : α → Bool) (note : σ → α → σ) {list : LinkedList ι α}
    (before behind : List (ι × α)) (split : list.cells = before ++ behind)
    (passed : ∀ cell ∈ before, erases cell.2 = false) (state : σ) (rounds : Nat)
    (enough : behind.length ≤ rounds) :
    eraseLoop erases note rounds list state (firstPosition behind) =
      some (list.filter fun element => !erases element,
        ((behind.map Prod.snd).filter erases).foldl note state) := by
  induction rounds, behind, enough using rounds_induction generalizing list before state with
  | done rounds =>
      rw [filter_eq_self (by simpa [split] using passed)]
      cases rounds <;> rfl
  | round rounds cell behind fewer ih =>
      obtain ⟨it, element⟩ := cell
      have start : firstPosition ((it, element) :: behind) = some it := rfl
      rw [start, eraseLoop, read_of_split split, Option.bind_some]
      cases erased : erases element with
      | true =>
          have erasedLater : ((list.without it).filter fun element => !erases element) =
              list.filter fun element => !erases element :=
            filter_without_of_split split (by simp [erased])
          rw [if_pos rfl, erase_of_split split, Option.bind_some]
          dsimp only
          rw [ih behind fewer before (cells_without_of_split split) passed, erasedLater]
          simp [erased]
      | false =>
          have passedToo : ∀ cell ∈ before ++ [(it, element)], erases cell.2 = false := by
            intro cell cellMem
            rcases List.mem_append.mp cellMem with inBefore | isHere
            · exact passed cell inBefore
            · rw [List.mem_singleton.mp isHere]
              exact erased
          rw [if_neg Bool.false_ne_true, after_of_split split, Option.bind_some,
            ih behind fewer (before ++ [(it, element)]) (by simp [split]) passedToo]
          simp [erased]

/-- The loop ends, uses no erased position and leaves exactly what does not meet the test. -/
theorem eraseLoop_eq (erases : α → Bool) (note : σ → α → σ) (list : LinkedList ι α) (state : σ)
    (rounds : Nat) (enough : list.cells.length ≤ rounds) :
    eraseLoop erases note rounds list state list.first =
      some (list.filter fun element => !erases element,
        (list.values.filter erases).foldl note state) :=
  eraseLoop_of_split erases note [] list.cells rfl (by simp) state rounds enough

end LinkedList

end Hecaton.Library
