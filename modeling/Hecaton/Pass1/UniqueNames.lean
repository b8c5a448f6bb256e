import Mathlib.Data.List.Nodup
import Hecaton.Pass1.MoveDecls

/-!
# Distinct names behind the opening brace

A name that is taken gets a number that no other one gets.  So the declarations that are
moved have distinct names, and none of them has the name of an outermost declaration, in
whatever order names are repeated.
-/

namespace Hecaton.Pass1

open Hecaton.Library

mutual

/-- The names that an item declares, at any depth. -/
def declaredNamesOfItem : Item → List String
  | .decl decl => [decl.name]
  | .use _ _ _ => []
  | .comment => []
  | .block _ items => declaredNames items

/-- The names that some items declare, at any depth. -/
def declaredNames : List Item → List String
  | [] => []
  | item :: rest => declaredNamesOfItem item ++ declaredNames rest

end

theorem fncDeclVisit_subset (body : List Item) : fncDeclVisit body ⊆ declaredNames body := by
  induction body with
  | nil => simp [fncDeclVisit]
  | cons item rest ih =>
      rw [declaredNames]
      cases item with
      | decl decl =>
          rw [fncDeclVisit, declaredNamesOfItem]
          split
          · exact List.subset_append_of_subset_right _ ih
          · exact List.cons_subset_cons decl.name ih
      | use use name written => exact List.subset_append_of_subset_right _ ih
      | comment => exact List.subset_append_of_subset_right _ ih
      | block inMacro items => exact List.subset_append_of_subset_right _ ih

/-- What is known of the declarations that have been moved so far: each has a name of its
own that is no outermost one, and it is a name of the function or a number below the next
one. -/
structure UniqueSoFar (fncDecls : List String) (state : MoveState) : Prop where
  nodup : (state.varDecls.map VarDecl.name).Nodup
  notListed : ∀ v ∈ state.varDecls, v.name ∉ fncDecls
  shape : ∀ v ∈ state.varDecls, Unnumbered separator v.name ∨
    ∃ base n, n < state.varSuffix ∧ v.name = numbered base separator n

theorem uniqueSoFar_start (fncDecls : List String) : UniqueSoFar fncDecls {} where
  nodup := List.nodup_nil
  notListed := by simp
  shape := by simp

variable {fncDecls : List String}

/-- The next number is not in use. -/
theorem UniqueSoFar.numbered_fresh {state : MoveState} (soFar : UniqueSoFar fncDecls state)
    (base : String) :
    numbered base separator state.varSuffix ∉ state.varDecls.map VarDecl.name := by
  intro again
  obtain ⟨v, vMem, same⟩ := List.mem_map.mp again
  rcases soFar.shape v vMem with unnumbered | ⟨base', n, below, isNumbered⟩
  · exact unnumbered _ _ same
  · rw [isNumbered] at same
    have sameNumber := numbered_number_inj same
    omega

/-- One more declaration with a name of its own. -/
theorem UniqueSoFar.append {state : MoveState} (soFar : UniqueSoFar fncDecls state)
    {v : VarDecl} {varSuffix : Nat} (later : state.varSuffix ≤ varSuffix)
    (fresh : v.name ∉ state.varDecls.map VarDecl.name) (notListed : v.name ∉ fncDecls)
    (shape : Unnumbered separator v.name ∨
      ∃ base n, n < varSuffix ∧ v.name = numbered base separator n) :
    UniqueSoFar fncDecls ⟨state.varDecls ++ [v], varSuffix⟩ where
  nodup := by
    rw [List.map_append, List.map_singleton, ← List.concat_eq_append]
    exact (List.nodup_concat _ _).mpr ⟨fresh, soFar.nodup⟩
  notListed := by
    intro w wMem
    rcases List.mem_append.mp wMem with isOld | isNew
    · exact soFar.notListed w isOld
    · rwa [List.mem_singleton.mp isNew]
  shape := by
    intro w wMem
    rcases List.mem_append.mp wMem with isOld | isNew
    · rcases soFar.shape w isOld with unchanged | ⟨base, n, below, isNumbered⟩
      · exact Or.inl unchanged
      · exact Or.inr ⟨base, n, Nat.lt_of_lt_of_le below later, isNumbered⟩
    · rwa [List.mem_singleton.mp isNew]

/-- The visit of a declarator keeps the names distinct. -/
theorem UniqueSoFar.push {state : MoveState} (soFar : UniqueSoFar fncDecls state)
    (listed : ∀ name ∈ fncDecls, Unnumbered separator name) {decl : Occurrence}
    (unnumbered : Unnumbered separator decl.name) :
    UniqueSoFar fncDecls (state.push fncDecls decl) := by
  rw [MoveState.push]
  split
  · apply soFar.append (Nat.le_succ _) (soFar.numbered_fresh decl.name)
    · intro isListed
      exact listed _ isListed _ _ rfl
    · exact Or.inr ⟨decl.name, state.varSuffix, Nat.lt_succ_self _, rfl⟩
  · rename_i notTaken
    rw [not_or] at notTaken
    exact soFar.append (Nat.le_refl _) notTaken.2 notTaken.1 (Or.inl unnumbered)

mutual

/-- The visit of an item keeps the names distinct. -/
theorem UniqueSoFar.visitItem (listed : ∀ name ∈ fncDecls, Unnumbered separator name)
    (path : List Nat) (i : Nat) :
    ∀ (item : Item) {state : MoveState}, UniqueSoFar fncDecls state →
      (∀ name ∈ declaredNamesOfItem item, Unnumbered separator name) →
      UniqueSoFar fncDecls (varDeclVisitItem fncDecls path i item state).2
  | .decl decl, state, soFar, unnumbered => by
      rw [varDeclVisitItem]
      split
      · exact soFar
      · split
        · exact soFar
        · split
          · exact soFar
          · exact soFar.push listed (unnumbered decl.name (by simp [declaredNamesOfItem]))
  | .use use name written, state, soFar, _ => by
      rw [varDeclVisitItem]
      exact soFar
  | .comment, state, soFar, _ => by
      rw [varDeclVisitItem]
      exact soFar
  | .block inMacro items, state, soFar, unnumbered => by
      rw [declaredNamesOfItem] at unnumbered
      rw [varDeclVisitItem]
      split
      · exact soFar
      · exact UniqueSoFar.visit listed (path ++ [i]) 0 items soFar unnumbered

/-- The visit of some items keeps the names distinct. -/
theorem UniqueSoFar.visit (listed : ∀ name ∈ fncDecls, Unnumbered separator name)
    (path : List Nat) (i : Nat) :
    ∀ (items : List Item) {state : MoveState}, UniqueSoFar fncDecls state →
      (∀ name ∈ declaredNames items, Unnumbered separator name) →
      UniqueSoFar fncDecls (varDeclVisit fncDecls path i items state).2
  | [], state, soFar, _ => by
      rw [varDeclVisit]
      exact soFar
  | item :: rest, state, soFar, unnumbered => by
      rw [declaredNames] at unnumbered
      rw [varDeclVisit]
      have afterItem := UniqueSoFar.visitItem listed path i item soFar fun name nameMem =>
        unnumbered name (List.mem_append_left _ nameMem)
      exact UniqueSoFar.visit listed path (i + 1) rest afterItem fun name nameMem =>
        unnumbered name (List.mem_append_right _ nameMem)

end

/-- In a function that declares no numbered name, the declarations that are moved have
distinct names, and none of them has the name of an outermost declaration. -/
theorem moveVarDecl_names_unique (body : List Item)
    (unnumbered : ∀ name ∈ declaredNames body, Unnumbered separator name) :
    ((moveVarDecl body).2.varDecls.map VarDecl.name).Nodup ∧
      ∀ name ∈ (moveVarDecl body).2.varDecls.map VarDecl.name, name ∉ fncDeclVisit body := by
  have listed : ∀ name ∈ fncDeclVisit body, Unnumbered separator name := fun name nameMem =>
    unnumbered name (fncDeclVisit_subset body nameMem)
  have unique := UniqueSoFar.visit listed [] 0 body (uniqueSoFar_start _) unnumbered
  constructor
  · exact unique.nodup
  · intro name nameMem
    obtain ⟨v, vMem, rfl⟩ := List.mem_map.mp nameMem
    exact unique.notListed v vMem

/-- A function that declares `x` in the outermost block and again in two nested ones. -/
def declaresThrice : List Item :=
  [.decl { id := 0, name := "x", hasInit := true },
    .block false
      [.decl { id := 1, name := "x", hasInit := true }, .block false [.decl { id := 2, name := "x" }]]]

theorem moveVarDecl_names_unique_declaresThrice :
    ((moveVarDecl declaresThrice).2.varDecls.map VarDecl.name).Nodup ∧
      ∀ name ∈ (moveVarDecl declaresThrice).2.varDecls.map VarDecl.name,
        name ∉ fncDeclVisit declaresThrice := by
  apply moveVarDecl_names_unique
  intro name nameMem
  have isX : name = "x" := by
    simpa [declaresThrice, declaredNames, declaredNamesOfItem] using nameMem
  rw [isX]
  exact unnumbered_of_length_lt (by decide)

end Hecaton.Pass1
