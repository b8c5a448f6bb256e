/-!
# Calls of a function and the variables that they find

A call passes places of the function, reads variables and writes them; what it does next
may depend on what it has read.  Two ways to keep the variables are compared along a
sequence of calls: where they stay alike at every step that the first one takes, the calls
find the same in their variables.
-/

namespace Hecaton.Library

universe u v w s t

/-- What a call does. -/
inductive Behaviour (π : Type u) (ι : Type v) (υ : Type w)
  | returns
  | passes (place : π) (next : Behaviour π ι υ)
  | reads (x : ι) (next : υ → Behaviour π ι υ)
  | writes (x : ι) (value : υ) (next : Behaviour π ι υ)

/-- A way to keep the variables.  A variable may have no value. -/
structure Keeping (π : Type u) (ι : Type v) (υ : Type w) (σ : Type s) where
  enter : σ → σ
  pass : π → σ → σ
  value : ι → σ → Option υ
  write : ι → υ → σ → σ

/-- What a call may be about to do: pass a place or come to a variable. -/
inductive Event (π : Type u) (ι : Type v)
  | pass (place : π)
  | access (x : ι)

namespace Keeping

variable {π : Type u} {ι : Type v} {υ : Type w} {σ : Type s} {τ : Type t}

/-- What a call finds in the variables that it comes to, one after the other, and the state
that it leaves.  It ends where it reads a variable that has no value. -/
def run (keeping : Keeping π ι υ σ) : Behaviour π ι υ → σ → List (ι × Option υ) × σ
  | .returns, state => ([], state)
  | .passes place next, state => keeping.run next (keeping.pass place state)
  | .reads x next, state =>
      match keeping.value x state with
      | none => ([(x, none)], state)
      | some value =>
          let (found, last) := keeping.run (next value) state
          ((x, some value) :: found, last)
  | .writes x value next, state =>
      let (found, last) := keeping.run next (keeping.write x value state)
      ((x, keeping.value x state) :: found, last)

/-- What each call finds. -/
def calls (keeping : Keeping π ι υ σ) : σ → List (Behaviour π ι υ) → List (List (ι × Option υ))
  | _, [] => []
  | state, call :: rest =>
      let (found, last) := keeping.run call (keeping.enter state)
      found :: keeping.calls last rest

/-- Everything that a call does is allowed in the state in which it does it. -/
def Along (keeping : Keeping π ι υ σ) (allowed : Event π ι → σ → Prop) :
    Behaviour π ι υ → σ → Prop
  | .returns, _ => True
  | .passes place next, state =>
      allowed (.pass place) state ∧ keeping.Along allowed next (keeping.pass place state)
  | .reads x next, state =>
      allowed (.access x) state ∧
        ∀ value, keeping.value x state = some value → keeping.Along allowed (next value) state
  | .writes x value next, state =>
      allowed (.access x) state ∧ keeping.Along allowed next (keeping.write x value state)

/-- Everything that a sequence of calls does is allowed. -/
def AlongCalls (keeping : Keeping π ι υ σ) (allowed : Event π ι → σ → Prop) :
    σ → List (Behaviour π ι υ) → Prop
  | _, [] => True
  | state, call :: rest =>
      keeping.Along allowed call (keeping.enter state) ∧
        keeping.AlongCalls allowed (keeping.run call (keeping.enter state)).2 rest

section Decidable

variable {keeping : Keeping π ι υ σ} {allowed : Event π ι → σ → Prop}
  [∀ event state, Decidable (allowed event state)]

instance Along.decidable :
    ∀ (call : Behaviour π ι υ) (state : σ), Decidable (keeping.Along allowed call state)
  | .returns, _ => .isTrue trivial
  | .passes place next, state =>
      have := Along.decidable next (keeping.pass place state)
      inferInstanceAs (Decidable (_ ∧ _))
  | .reads x next, state =>
      have : Decidable (∀ value, keeping.value x state = some value →
          keeping.Along allowed (next value) state) :=
        match keeping.value x state with
        | none => .isTrue fun _ isSome => nomatch isSome
        | some value =>
            have := Along.decidable (next value) state
            decidable_of_iff (keeping.Along allowed (next value) state)
              ⟨fun along _ same => Option.some.inj same ▸ along, fun along => along value rfl⟩
      inferInstanceAs (Decidable (_ ∧ _))
  | .writes x value next, state =>
      have := Along.decidable next (keeping.write x value state)
      inferInstanceAs (Decidable (_ ∧ _))

instance AlongCalls.decidable :
    ∀ (state : σ) (calls : List (Behaviour π ι υ)),
      Decidable (keeping.AlongCalls allowed state calls)
  | _, [] => .isTrue trivial
  | state, call :: rest =>
      have := AlongCalls.decidable (keeping.run call (keeping.enter state)).2 rest
      inferInstanceAs (Decidable (_ ∧ _))

end Decidable

/-- Two ways to keep the variables stay alike: within a call as `inCall` says and between
calls as `between` does, as long as the first one does only what is allowed. -/
structure StaysAlike (first : Keeping π ι υ σ) (second : Keeping π ι υ τ)
    (allowed : Event π ι → σ → Prop) (between inCall : σ → τ → Prop) : Prop where
  enter : ∀ state other, between state other → inCall (first.enter state) (second.enter other)
  leave : ∀ state other, inCall state other → between state other
  pass : ∀ place state other, allowed (.pass place) state → inCall state other →
    inCall (first.pass place state) (second.pass place other)
  value : ∀ x state other, allowed (.access x) state → inCall state other →
    first.value x state = second.value x other
  write : ∀ x value state other, allowed (.access x) state → inCall state other →
    inCall (first.write x value state) (second.write x value other)

variable {first : Keeping π ι υ σ} {second : Keeping π ι υ τ}
  {allowed : Event π ι → σ → Prop} {between inCall : σ → τ → Prop}

/-- A call finds the same in both, and leaves them alike. -/
theorem StaysAlike.run_eq (alike : StaysAlike first second allowed between inCall)
    (call : Behaviour π ι υ) {state : σ} {other : τ} (along : first.Along allowed call state)
    (related : inCall state other) :
    (first.run call state).1 = (second.run call other).1 ∧
      inCall (first.run call state).2 (second.run call other).2 := by
  induction call generalizing state other with
  | returns => exact ⟨rfl, related⟩
  | passes place next ih =>
      obtain ⟨isAllowed, along⟩ := along
      exact ih along (alike.pass place state other isAllowed related)
  | reads x next ih =>
      obtain ⟨isAllowed, along⟩ := along
      have sameValue := alike.value x state other isAllowed related
      rw [run, run, ← sameValue]
      cases isValue : first.value x state with
      | none => exact ⟨rfl, related⟩
      | some value =>
          obtain ⟨sameFound, stillRelated⟩ := ih value (along value isValue) related
          exact ⟨congrArg (List.cons (x, some value)) sameFound, stillRelated⟩
  | writes x value next ih =>
      obtain ⟨isAllowed, along⟩ := along
      obtain ⟨sameFound, stillRelated⟩ :=
        ih along (alike.write x value state other isAllowed related)
      refine ⟨?_, stillRelated⟩
      rw [run, run, alike.value x state other isAllowed related]
      exact congrArg (List.cons _) sameFound

/-- A sequence of calls finds the same in both. -/
theorem StaysAlike.calls_eq (alike : StaysAlike first second allowed between inCall)
    {calls : List (Behaviour π ι υ)} {state : σ} {other : τ}
    (along : first.AlongCalls allowed state calls) (related : between state other) :
    first.calls state calls = second.calls other calls := by
  induction calls generalizing state other with
  | nil => rfl
  | cons call rest ih =>
      obtain ⟨alongCall, alongRest⟩ := along
      obtain ⟨sameFound, stillRelated⟩ :=
        alike.run_eq call alongCall (alike.enter state other related)
      have sameRest := ih alongRest (alike.leave _ _ stillRelated)
      exact List.cons_eq_cons.mpr ⟨sameFound, sameRest⟩

end Keeping

end Hecaton.Library
