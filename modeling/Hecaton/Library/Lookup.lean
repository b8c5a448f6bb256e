import Mathlib.Data.List.Infix

/-!
# Looking up through scopes

A lookup goes through the scopes from the innermost to the outermost and takes
the last candidate of the first scope that has one.  Taking candidates away does
not change what is found as long as that candidate stays.
-/

namespace Hecaton.Library

universe u v w

variable {σ : Type u} {δ : Type v} {τ : Type w}

/-- The last candidate of the first scope that has one. -/
def lookup (scopes : List σ) (candidates : σ → List δ) : Option δ :=
  scopes.findSome? fun scope => (candidates scope).getLast?

theorem lookup_append (first second : List σ) (candidates : σ → List δ) :
    lookup (first ++ second) candidates =
      (lookup first candidates).or (lookup second candidates) :=
  List.findSome?_append

theorem lookup_singleton (scope : σ) (candidates : σ → List δ) :
    lookup [scope] candidates = (candidates scope).getLast? := by
  simp [lookup]

theorem lookup_congr {scopes : List σ} {candidates candidates' : σ → List δ}
    (same : ∀ scope ∈ scopes, candidates scope = candidates' scope) :
    lookup scopes candidates = lookup scopes candidates' := by
  induction scopes with
  | nil => rfl
  | cons scope rest ih =>
      have ih := ih fun other otherMem => same other (List.mem_cons_of_mem _ otherMem)
      simp only [lookup, List.findSome?_cons] at ih ⊢
      rw [same scope List.mem_cons_self, ih]

theorem lookup_map (scopes : List σ) (candidates : σ → List δ) (f : δ → τ) :
    lookup scopes (fun scope => (candidates scope).map f) = (lookup scopes candidates).map f := by
  induction scopes with
  | nil => rfl
  | cons scope rest ih =>
      simp only [lookup, List.findSome?_cons, List.getLast?_map] at ih ⊢
      cases (candidates scope).getLast? with
      | none => simpa using ih
      | some found => rfl

theorem lookup_eq_none_iff {scopes : List σ} {candidates : σ → List δ} :
    lookup scopes candidates = none ↔ ∀ scope ∈ scopes, candidates scope = [] := by
  simp [lookup]

theorem exists_of_lookup {scopes : List σ} {candidates : σ → List δ} {found : δ}
    (looked : lookup scopes candidates = some found) :
    ∃ scope ∈ scopes, found ∈ candidates scope := by
  obtain ⟨scope, scopeMem, last⟩ := List.exists_of_findSome?_eq_some looked
  exact ⟨scope, scopeMem, List.mem_of_getLast? last⟩

/-- A candidate that is found and stays is found again. -/
theorem lookup_filter_of_stays {scopes : List σ} {candidates : σ → List δ} {found : δ}
    (looked : lookup scopes candidates = some found) {stays : δ → Bool}
    (foundStays : stays found = true) :
    lookup scopes (fun scope => (candidates scope).filter stays) = some found := by
  induction scopes with
  | nil => cases looked
  | cons scope rest ih =>
      simp only [lookup, List.findSome?_cons] at looked ih ⊢
      cases last : (candidates scope).getLast? with
      | none =>
          rw [last] at looked
          rw [List.getLast?_eq_none_iff.mp last]
          exact ih looked
      | some own =>
          rw [last] at looked
          cases looked
          obtain ⟨front, split⟩ := List.getLast?_eq_some_iff.mp last
          rw [split, List.filter_append, List.filter_cons_of_pos foundStays]
          simp

end Hecaton.Library
