/-!
# Runs of a labelled partial step

A step takes an event and a state and may refuse.  A run applies the step to a
finite list of events, and an invariant that every step keeps under a side
condition holds at the end of every run whose steps all meet the condition.

A loop over a list that it shortens itself is a run without events: it has a
number of rounds, and one for each element is enough.
-/

namespace Hecaton.Library

universe u v

variable {σ : Type u} {ε : Type v}

/-- Apply `step` to the events in order.  A refused event refuses the run. -/
def run (step : ε → σ → Option σ) : List ε → σ → Option σ
  | [], state => some state
  | event :: events, state => (step event state).bind (run step events)

@[simp]
theorem run_nil (step : ε → σ → Option σ) (state : σ) :
    run step [] state = some state :=
  rfl

theorem run_cons_eq_some_iff (step : ε → σ → Option σ) (event : ε)
    (events : List ε) (source target : σ) :
    run step (event :: events) source = some target ↔
      ∃ middle, step event source = some middle ∧
        run step events middle = some target := by
  simp only [run]
  exact Option.bind_eq_some_iff

/-- Every step the run takes meets the condition in the state it starts from. -/
def StepsMeet (step : ε → σ → Option σ) (condition : σ → ε → Prop) :
    List ε → σ → Prop
  | [], _ => True
  | event :: events, state =>
      condition state event ∧
        ∀ next, step event state = some next → StepsMeet step condition events next

/-- An invariant kept by every step that meets the condition holds at the end
of every run whose steps all meet it. -/
theorem run_invariant {step : ε → σ → Option σ} {condition : σ → ε → Prop}
    {invariant : σ → Prop}
    (preserved : ∀ ⦃state event next⦄, invariant state → condition state event →
      step event state = some next → invariant next)
    {events : List ε} {source target : σ}
    (initial : invariant source) (meets : StepsMeet step condition events source)
    (reached : run step events source = some target) : invariant target := by
  induction events generalizing source with
  | nil =>
      cases reached
      exact initial
  | cons event events ih =>
      obtain ⟨middle, first, rest⟩ :=
        (run_cons_eq_some_iff step event events source target).mp reached
      exact ih (preserved initial meets.1 first) (meets.2 middle first) rest

/-- A condition that the events of a run meet in every state is met along it. -/
theorem StepsMeet.of_forall {step : ε → σ → Option σ} {condition : σ → ε → Prop}
    {events : List ε} (always : ∀ event ∈ events, ∀ state, condition state event) (state : σ) :
    StepsMeet step condition events state := by
  induction events generalizing state with
  | nil => trivial
  | cons event events ih =>
      constructor
      · exact always event List.mem_cons_self state
      · intro next _
        exact ih (fun other otherMem => always other (List.mem_cons_of_mem _ otherMem)) next

theorem run_append (step : ε → σ → Option σ) (first second : List ε) (state : σ) :
    run step (first ++ second) state = (run step first state).bind (run step second) := by
  induction first generalizing state with
  | nil => rfl
  | cons event rest ih =>
      rw [List.cons_append, run, run, Option.bind_assoc]
      congr 1
      funext middle
      exact ih middle

/-- A map that commutes with the steps from states that the steps keep good commutes with
the runs. -/
theorem run_map {τ : Type u} {η : Type v} {step : ε → σ → Option σ} {image : η → τ → Option τ}
    {onState : σ → τ} {onEvent : ε → η} {good : σ → Prop} {allowed : ε → Prop}
    (commutes : ∀ ⦃event state⦄, good state → allowed event →
      (step event state).map onState = image (onEvent event) (onState state))
    (kept : ∀ ⦃event state next⦄, good state → allowed event → step event state = some next →
      good next)
    {events : List ε} (eventsAllowed : ∀ event ∈ events, allowed event) {state : σ}
    (initial : good state) :
    (run step events state).map onState = run image (events.map onEvent) (onState state) := by
  induction events generalizing state with
  | nil => rfl
  | cons event rest ih =>
      have eventAllowed := eventsAllowed event List.mem_cons_self
      rw [List.map_cons, run, run, ← commutes initial eventAllowed]
      cases stepped : step event state with
      | none => rfl
      | some next =>
          exact ih (fun other otherMem => eventsAllowed other (List.mem_cons_of_mem _ otherMem))
            (kept initial eventAllowed stepped)

/-- If related states step to related ones on the events that `select` has an image of, and the
others keep them related without a step on the other side, every run is followed by a run of the
images. -/
theorem run_filterMap {τ : Type u} {η : Type v} {step : ε → σ → Option σ}
    {other : η → τ → Option τ} {related : σ → τ → Prop} {select : ε → Option η} {allowed : ε → Prop}
    (followed : ∀ ⦃event image state next⦄ ⦃mate : τ⦄, related state mate → allowed event →
      select event = some image → step event state = some next →
      ∃ nextMate, other image mate = some nextMate ∧ related next nextMate)
    (skipped : ∀ ⦃event state next⦄ ⦃mate : τ⦄, related state mate → allowed event →
      select event = none → step event state = some next → related next mate)
    {events : List ε} (eventsAllowed : ∀ event ∈ events, allowed event) {source target : σ}
    {mate : τ} (initial : related source mate) (ran : run step events source = some target) :
    ∃ targetMate, run other (events.filterMap select) mate = some targetMate ∧
      related target targetMate := by
  induction events generalizing source mate with
  | nil =>
      cases ran
      exact ⟨mate, rfl, initial⟩
  | cons event rest ih =>
      obtain ⟨middle, stepped, later⟩ := (run_cons_eq_some_iff step event rest source target).mp ran
      have eventAllowed := eventsAllowed event List.mem_cons_self
      have restAllowed : ∀ event ∈ rest, allowed event :=
        fun other otherMem => eventsAllowed other (List.mem_cons_of_mem _ otherMem)
      cases kind : select event with
      | none =>
          rw [List.filterMap_cons_none kind]
          exact ih restAllowed (skipped initial eventAllowed kind stepped) later
      | some image =>
          obtain ⟨middleMate, mateStepped, relatedMiddle⟩ :=
            followed initial eventAllowed kind stepped
          obtain ⟨targetMate, mateRan, relatedTarget⟩ := ih restAllowed relatedMiddle later
          rw [List.filterMap_cons_some kind]
          exact ⟨targetMate, (run_cons_eq_some_iff _ _ _ _ _).mpr ⟨middleMate, mateStepped, mateRan⟩,
            relatedTarget⟩

/-- Induction along a loop that has a round for each element left: at the end of the list, and
at an element with one round less for whatever the round leaves. -/
@[elab_as_elim]
theorem rounds_induction {α : Type u}
    {motive : (rounds : Nat) → (left : List α) → left.length ≤ rounds → Prop}
    (done : ∀ rounds, motive rounds [] (Nat.zero_le rounds))
    (round : ∀ rounds element rest (fewer : rest.length ≤ rounds),
      (∀ left (enough : left.length ≤ rounds), motive rounds left enough) →
        motive (rounds + 1) (element :: rest) (Nat.succ_le_succ fewer))
    (rounds : Nat) (left : List α) (enough : left.length ≤ rounds) :
    motive rounds left enough := by
  induction rounds generalizing left with
  | zero =>
      obtain rfl : left = [] := List.eq_nil_of_length_eq_zero (Nat.le_zero.mp enough)
      exact done 0
  | succ rounds ih =>
      cases left with
      | nil => exact done (rounds + 1)
      | cons element rest => exact round rounds element rest (Nat.le_of_succ_le_succ enough) ih

end Hecaton.Library
