import Hecaton.Library.Run

/-!
# Stacks of activations

A machine runs the topmost of a stack of activations.  A step leaves that
activation at work, puts another one on top of it, or takes it away; the
activations below are suspended.  A run therefore goes on above a suspended part
of the stack as it would alone, until control comes back to that part.
-/

namespace Hecaton.Library

universe u v w

variable {γ : Type u} {φ : Type v} {ε : Type w}

/-- What the topmost activation does in a step, with the shared state behind it. -/
inductive Outcome (γ : Type u) (φ : Type v)
  | stays (shared : γ) (frame : φ)
  | calls (shared : γ) (caller callee : φ)
  | leaves (shared : γ)

/-- The shared state and the activations, the topmost first. -/
structure CallStack (γ : Type u) (φ : Type v) where
  shared : γ
  stack : List φ

/-- The stack behind a step of the activation on top of `rest`. -/
def Outcome.onto (rest : List φ) : Outcome γ φ → CallStack γ φ
  | .stays shared frame => ⟨shared, frame :: rest⟩
  | .calls shared caller callee => ⟨shared, callee :: caller :: rest⟩
  | .leaves shared => ⟨shared, rest⟩

/-- A step keeps a property of activations when the activation on top keeps it and
one that it calls has it. -/
def Outcome.All (P : φ → Prop) : Outcome γ φ → Prop
  | .stays _ frame => P frame
  | .calls _ caller callee => P caller ∧ P callee
  | .leaves _ => True

namespace CallStack

/-- One step of the topmost activation. -/
def step (resume : ε → γ → φ → Option (Outcome γ φ)) (event : ε) (state : CallStack γ φ) :
    Option (CallStack γ φ) :=
  match state.stack with
  | [] => none
  | top :: rest => (resume event state.shared top).map (Outcome.onto rest)

/-- Suspended activations below a stack. -/
def above (state : CallStack γ φ) (rest : List φ) : CallStack γ φ :=
  ⟨state.shared, state.stack ++ rest⟩

variable {resume : ε → γ → φ → Option (Outcome γ φ)}

@[simp]
theorem above_nil (state : CallStack γ φ) : state.above [] = state := by
  simp [above]

theorem step_cons (event : ε) (shared : γ) (top : φ) (rest : List φ) :
    step resume event ⟨shared, top :: rest⟩ =
      (resume event shared top).map (Outcome.onto rest) :=
  rfl

theorem step_empty (event : ε) (shared : γ) :
    step resume event (⟨shared, []⟩ : CallStack γ φ) = none :=
  rfl

/-- No step follows when all activations have left. -/
theorem run_empty {events : List ε} {shared : γ} {target : CallStack γ φ}
    (reached : run (step resume) events ⟨shared, []⟩ = some target) :
    events = [] ∧ target = ⟨shared, []⟩ := by
  cases events with
  | nil =>
      cases reached
      exact ⟨rfl, rfl⟩
  | cons event events =>
      obtain ⟨_, stepped, _⟩ := (run_cons_eq_some_iff _ event events _ _).mp reached
      rw [step_empty] at stepped
      cases stepped

/-- A step does something only to the activation on top. -/
theorem step_eq_some_iff {event : ε} {state next : CallStack γ φ} :
    step resume event state = some next ↔
      ∃ top rest outcome, state.stack = top :: rest ∧
        resume event state.shared top = some outcome ∧ next = outcome.onto rest := by
  rcases state with ⟨shared, stack⟩
  cases stack with
  | nil => simp [step_empty]
  | cons top rest =>
      rw [step_cons, Option.map_eq_some_iff]
      constructor
      · rintro ⟨outcome, resumed, rfl⟩
        exact ⟨top, rest, outcome, rfl, resumed, rfl⟩
      · rintro ⟨_, _, outcome, same, resumed, rfl⟩
        cases same
        exact ⟨outcome, resumed, rfl⟩

/-- A step above suspended activations is the step of the part above. -/
theorem step_above {event : ε} {state : CallStack γ φ} (nonempty : state.stack ≠ [])
    (rest : List φ) :
    step resume event (state.above rest) = (step resume event state).map (above · rest) := by
  rcases state with ⟨shared, stack⟩
  cases stack with
  | nil => exact absurd rfl nonempty
  | cons top below =>
      rw [above, List.cons_append, step_cons, step_cons, Option.map_map]
      congr 1
      funext outcome
      cases outcome <;> rfl

/-- A run goes on above suspended activations as it goes alone. -/
theorem run_above {events : List ε} {source target : CallStack γ φ}
    (reached : run (step resume) events source = some target) (rest : List φ) :
    run (step resume) events (source.above rest) = some (target.above rest) := by
  induction events generalizing source with
  | nil =>
      cases reached
      rfl
  | cons event events ih =>
      obtain ⟨middle, first, remaining⟩ := (run_cons_eq_some_iff _ event events _ _).mp reached
      have nonempty : source.stack ≠ [] := by
        obtain ⟨top, below, _, split, _, _⟩ := step_eq_some_iff.mp first
        rw [split]
        exact List.cons_ne_nil top below
      refine (run_cons_eq_some_iff _ event events _ _).mpr ⟨middle.above rest, ?_, ih remaining⟩
      rw [step_above nonempty, first]
      rfl

/-- A run above suspended activations is one of the part above alone, or that part
comes to its end first and the suspended activations are resumed as they were. -/
theorem run_split {events : List ε} {source target : CallStack γ φ} {rest : List φ}
    (reached : run (step resume) events (source.above rest) = some target) :
    (∃ alone, run (step resume) events source = some alone ∧ target = alone.above rest) ∨
      ∃ first second shared, events = first ++ second ∧
        run (step resume) first source = some ⟨shared, []⟩ ∧
        run (step resume) second ⟨shared, rest⟩ = some target := by
  induction events generalizing source with
  | nil =>
      cases reached
      exact Or.inl ⟨source, rfl, rfl⟩
  | cons event events ih =>
      by_cases empty : source.stack = []
      · right
        refine ⟨[], event :: events, source.shared, rfl, ?_, ?_⟩
        · rw [run_nil, ← empty]
        · rw [above, empty] at reached
          exact reached
      · obtain ⟨middle, stepped, remaining⟩ := (run_cons_eq_some_iff _ event events _ _).mp reached
        rw [step_above empty] at stepped
        obtain ⟨alone, steppedAlone, rfl⟩ := Option.map_eq_some_iff.mp stepped
        rcases ih remaining with ⟨final, ran, atEnd⟩ | ⟨first, second, shared, split, ran, resumed⟩
        · left
          exact ⟨final, (run_cons_eq_some_iff _ event events _ _).mpr ⟨alone, steppedAlone, ran⟩,
            atEnd⟩
        · right
          refine ⟨event :: first, second, shared, ?_, ?_, resumed⟩
          · rw [split, List.cons_append]
          · exact (run_cons_eq_some_iff _ event first _ _).mpr ⟨alone, steppedAlone, ran⟩

/-- A run that ends no higher than the suspended activations has come back to them. -/
theorem run_comes_back {events : List ε} {source target : CallStack γ φ} {rest : List φ}
    (reached : run (step resume) events (source.above rest) = some target)
    (below : target.stack.length ≤ rest.length) :
    ∃ first second shared, events = first ++ second ∧
      run (step resume) first source = some ⟨shared, []⟩ ∧
      run (step resume) second ⟨shared, rest⟩ = some target := by
  rcases run_split reached with ⟨⟨shared, stack⟩, ran, rfl⟩ | cameBack
  · have noneLeft : stack = [] := by
      have lengths : (stack ++ rest).length ≤ rest.length := below
      rw [List.length_append] at lengths
      exact List.eq_nil_of_length_eq_zero (by omega)
    subst noneLeft
    exact ⟨events, [], shared, (List.append_nil _).symm, ran, rfl⟩
  · exact cameBack

/-! ## Invariants of activations -/

theorem all_onto {P : φ → Prop} {outcome : Outcome γ φ} {rest : List φ}
    (all : Outcome.All P outcome) (restAll : ∀ frame ∈ rest, P frame) :
    ∀ frame ∈ (outcome.onto rest).stack, P frame := by
  intro frame frameMem
  cases outcome with
  | stays shared top =>
      rcases List.mem_cons.mp frameMem with rfl | inRest
      · exact all
      · exact restAll frame inRest
  | calls shared caller callee =>
      rcases List.mem_cons.mp frameMem with rfl | below
      · exact all.2
      · rcases List.mem_cons.mp below with rfl | inRest
        · exact all.1
        · exact restAll frame inRest
  | leaves shared => exact restAll frame frameMem

end CallStack

end Hecaton.Library
