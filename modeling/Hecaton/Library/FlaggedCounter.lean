import Mathlib.Logic.Function.Iterate
import Mathlib.Algebra.Order.Ring.Int
import Mathlib.Tactic.Ring

/-!
# Counters that share a flag

Several counters of a state share one flag.  A step of a counter subtracts its weight when
the flag is the counter's own; otherwise it starts the counter anew and sets the flag.  Steps
of one counter in a row count down as long as no other counter takes a step between them.
-/

namespace Hecaton.Library

universe u v

variable {σ : Type u} {β : Type v} {step : σ → σ} {value : σ → Int} {flag : σ → Nat}
  {magic : Nat} {weight : Int}

/-- A step of the counter `value` with its own flag and weight. -/
structure CountsDown (step : σ → σ) (value : σ → Int) (flag : σ → Nat) (magic : Nat)
    (weight : Int) : Prop where
  again : ∀ s, flag s = magic → value (step s) = value s - weight
  anew : ∀ s, flag s ≠ magic → value (step s) = -weight
  marks : ∀ s, flag (step s) = magic

/-- While the flag is its own, every step subtracts the weight. -/
theorem CountsDown.iterate_marked (counts : CountsDown step value flag magic weight) (n : Nat)
    {s : σ} (marked : flag s = magic) : value (step^[n] s) = value s - n * weight := by
  induction n generalizing s with
  | zero => simp
  | succ n ih =>
      rw [Function.iterate_succ_apply, ih (counts.marks s), counts.again s marked]
      push_cast
      ring

/-- From zero on the steps add up, whatever the flag says before. -/
theorem CountsDown.iterate (counts : CountsDown step value flag magic weight) (n : Nat) {s : σ}
    (unmarked : flag s ≠ magic) (zero : value s = 0) : value (step^[n] s) = -(n * weight) := by
  cases n with
  | zero => simpa using zero
  | succ n =>
      rw [Function.iterate_succ_apply, counts.iterate_marked n (counts.marks s),
        counts.anew s unmarked]
      push_cast
      ring

/-- Afterwards the flag is the counter's own or what it was. -/
theorem CountsDown.flag_iterate (counts : CountsDown step value flag magic weight) (n : Nat)
    (s : σ) : flag (step^[n] s) = magic ∨ flag (step^[n] s) = flag s := by
  cases n with
  | zero => exact Or.inr rfl
  | succ n =>
      left
      rw [Function.iterate_succ_apply']
      exact counts.marks _

/-- What no step changes stays. -/
theorem iterate_unchanged {other : σ → β} (unchanged : ∀ s, other (step s) = other s) (n : Nat)
    (s : σ) : other (step^[n] s) = other s := by
  induction n generalizing s with
  | zero => rfl
  | succ n ih => rw [Function.iterate_succ_apply, ih, unchanged]

/-- A loop that takes a step for some elements takes as many steps as there are of them. -/
theorem foldl_eq_iterate {α : Type v} (p : α → Bool) (items : List α) (s : σ) :
    items.foldl (fun s item => if p item then step s else s) s =
      step^[(items.filter p).length] s := by
  induction items generalizing s with
  | nil => rfl
  | cons item rest ih =>
      rw [List.foldl_cons, ih]
      cases taken : p item with
      | true => simp [taken]
      | false => simp [taken]

end Hecaton.Library
