import Hecaton.Library.Precedes
import Hecaton.Library.Run

/-!
# Working on the first item of each key

A step that passes over the items that are not of interest and those whose key has been worked
on.  A run of it is a run of the work alone, over the first item of interest of each key.
-/

namespace Hecaton.Library

universe u v w

variable {σ : Type u} {α : Type v} {κ : Type w} [DecidableEq κ]

/-- Work on an item of interest, unless its key has been recorded. -/
def once (eligible : α → Bool) (key : α → κ) (recorded : σ → List κ) (work : α → σ → Option σ)
    (item : α) (state : σ) : Option σ :=
  if !eligible item then some state
  else if (recorded state).any fun other => key item == other then some state
  else work item state

variable {eligible : α → Bool} {key : α → κ} {recorded : σ → List κ} {work : α → σ → Option σ}

/-- The items that are worked on from a state with the given keys. -/
def pending (eligible : α → Bool) (key : α → κ) (keys : List κ) (items : List α) : List α :=
  items.filter fun item => eligible item && !keys.any fun other => key item == other

theorem pending_append (keys : List κ) (newKey : κ) (items : List α) :
    pending eligible key (keys ++ [newKey]) items =
      (pending eligible key keys items).filter fun item => key item ≠ newKey := by
  rw [pending, pending, List.filter_filter]
  apply List.filter_congr
  intro item _
  rw [List.any_append, List.any_cons, List.any_nil, Bool.or_false, Bool.not_or]
  by_cases same : key item = newKey
  · simp [same]
  · have different : (key item == newKey) = false := beq_false_of_ne same
    simp [same, different]

/-- If the work records the key of its item, a run works on the first item of interest of each
key that is not recorded, in order, and on no other one. -/
theorem run_once (records : ∀ item state next, work item state = some next →
      recorded next = recorded state ++ [key item]) (items : List α) (state : σ) :
    run (once eligible key recorded work) items state =
      run work (firstByKey key (pending eligible key (recorded state) items)) state := by
  induction items generalizing state with
  | nil => rfl
  | cons item rest ih =>
      rw [run, once]
      cases isEligible : eligible item with
      | false =>
          rw [Bool.not_false, if_pos rfl, Option.bind_some, ih, pending, pending,
            List.filter_cons_of_neg (by simp [isEligible])]
      | true =>
          rw [Bool.not_true, if_neg Bool.false_ne_true]
          cases known : (recorded state).any fun other => key item == other with
          | true =>
              rw [if_pos rfl, Option.bind_some, ih, pending, pending,
                List.filter_cons_of_neg (by simp [known])]
          | false =>
              have here : pending eligible key (recorded state) (item :: rest) =
                  item :: pending eligible key (recorded state) rest := by
                rw [pending, List.filter_cons_of_pos (by simp [isEligible, known]), pending]
              rw [if_neg Bool.false_ne_true, here, firstByKey_cons, run]
              cases worked : work item state with
              | none => rfl
              | some next =>
                  rw [Option.bind_some, Option.bind_some, ih, records item state next worked,
                    pending_append]

end Hecaton.Library
