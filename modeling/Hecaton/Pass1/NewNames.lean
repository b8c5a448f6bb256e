import Hecaton.Pass1.TextOfPass

/-!
# The names after the pass

A declaration that is moved gets a new name when its name is listed in the
outermost block or an earlier one that is moved has it by then.  When no new name
meets a name that stays, an identifier is renamed at most once: by the first such
declaration of its name whose block holds it.
-/

namespace Hecaton.Pass1

open Hecaton.Library

/-! ## Which declarations get a new name -/

/-- The declarations that are moved, with the names they get, given the names that are
taken: the `k`-th that gets a new one gets the number `k`. -/
def namedFrom (taken : List String) (k : Nat) : List Occurrence → List VarDecl
  | [] => []
  | t :: rest =>
      if t.declares .moved then
        if t.name ∈ taken then
          ⟨t, numbered t.name separator k, some t.name⟩ ::
            namedFrom (numbered t.name separator k :: taken) (k + 1) rest
        else ⟨t, t.name, none⟩ :: namedFrom (t.name :: taken) k rest
      else namedFrom taken k rest

/-- Those of a text that get a new one. -/
def renamings (text : List Occurrence) : List VarDecl :=
  (namedFrom (listedNames text) 1 text).filter fun v => v.oldName.isSome

/-- The declarations that get a new name. -/
def duplicates (text : List Occurrence) : List Occurrence := (renamings text).map VarDecl.decl

/-- The new names. -/
def newNames (text : List Occurrence) : List String := (renamings text).map VarDecl.name

/-- The new name of a declaration that gets one. -/
def newName (text : List Occurrence) (d : Occurrence) : String :=
  newNameOf (renamings text) (d.declId?.getD 0)

/-- The first declaration with a new name that has the identifier's name and whose
block holds it. -/
def captor (text : List Occurrence) (t : Occurrence) : Option Occurrence :=
  (duplicates text).find? fun d => d.name == t.name && decide (d.path <+: t.path)

/-- The declaration itself, if it gets a new name. -/
def own (text : List Occurrence) (id : Nat) : Option Occurrence :=
  (duplicates text).find? fun d => d.declId? == some id

/-- The declaration whose new name the identifier gets, if any.  A declaration that
is moved gets its own; the assignment of its initial value is written with that
name, and then renamed like all text.  What a macro writes is not renamed. -/
def renamer (text : List Occurrence) (t : Occurrence) : Option Occurrence :=
  match t.role with
  | .decl id .moved _ _ _ => own text id
  | .init id .moved => (own text id).or (captor text t)
  | _ => if t.written then captor text t else none

theorem renamer_of_init {text : List Occurrence} {t : Occurrence} {id : Nat}
    (role : t.role = .init id .moved) :
    renamer text t = (own text id).or (captor text t) := by
  rw [renamer, role]

theorem renamer_of_moved {text : List Occurrence} {t : Occurrence} {id : Nat}
    {uses : List TypeUse} {simple hidden : Bool} (role : t.role = .decl id .moved uses simple hidden) :
    renamer text t = own text id := by
  rw [renamer, role]

/-- No new name meets another name: no parameter has it, nor an identifier that keeps its
name, also in a type that is moved; and nothing that has got it stands in the block of
another declaration with that name that gets a new one. -/
structure FreshNames (params : List String) (text : List Occurrence) : Prop where
  params : ∀ name ∈ params, name ∉ newNames text
  unrenamed : ∀ t ∈ text, renamer text t = none → t.name ∉ newNames text
  types : ∀ t ∈ text, t.declares .moved = true → ∀ use ∈ t.uses, use.2 ∉ newNames text
  once : ∀ t ∈ text, t.stays = true → ∀ d, renamer text t = some d →
    ∀ e ∈ duplicates text, e.name = newName text d → ¬ e.path <+: t.path

theorem foldl_visitOccurrence_eq {fncDecls : List String} (taken : List String)
    {text : List Occurrence} {state : MoveState}
    (sameTaken : ∀ name,
      (name ∈ fncDecls ∨ name ∈ state.varDecls.map VarDecl.name ↔ name ∈ taken)) :
    (text.foldl (visitOccurrence fncDecls) state).varDecls =
      state.varDecls ++ namedFrom taken state.varSuffix text := by
  induction text generalizing state taken with
  | nil => simp [namedFrom]
  | cons t rest ih =>
      rw [List.foldl_cons, visitOccurrence, namedFrom]
      split
      · rw [MoveState.push]
        by_cases isTaken : t.name ∈ taken
        · rw [if_pos ((sameTaken t.name).mpr isTaken), if_pos isTaken,
            ih (numbered t.name separator state.varSuffix :: taken)]
          · simp
          · intro name
            rw [List.mem_cons, ← sameTaken name]
            simp only [List.map_append, List.map_cons, List.map_nil, List.mem_append,
              List.mem_singleton]
            tauto
        · rw [if_neg (mt (sameTaken t.name).mp isTaken), if_neg isTaken, ih (t.name :: taken)]
          · simp
          · intro name
            rw [List.mem_cons, ← sameTaken name]
            simp only [List.map_append, List.map_cons, List.map_nil, List.mem_append,
              List.mem_singleton]
            tauto
      · exact ih taken sameTaken

/-- The declarations that are moved, under their new names. -/
theorem varDeclsOf_eq (text : List Occurrence) :
    varDeclsOf text = namedFrom (listedNames text) 1 text := by
  rw [varDeclsOf, foldl_visitOccurrence_eq (listedNames text)]
  · rfl
  · simp

/-- What is known of a declaration that is moved. -/
structure Named (taken : List String) (k : Nat) (v : VarDecl) : Prop where
  renamed : ∀ oldName, v.oldName = some oldName →
    oldName = v.decl.name ∧ ∃ n ≥ k, v.name = numbered v.decl.name separator n
  unchanged : v.oldName = none → v.name = v.decl.name ∧ v.decl.name ∉ taken

theorem named_of_mem {taken : List String} {k : Nat} {text : List Occurrence} {v : VarDecl}
    (vMem : v ∈ namedFrom taken k text) : Named taken k v := by
  induction text generalizing taken k with
  | nil => exact absurd vMem List.not_mem_nil
  | cons t rest ih =>
      rw [namedFrom] at vMem
      split at vMem
      · split at vMem
        · rcases List.mem_cons.mp vMem with rfl | inRest
          · constructor
            · rintro oldName ⟨⟩
              exact ⟨rfl, k, Nat.le_refl k, rfl⟩
            · nofun
          · obtain ⟨renamed, unchanged⟩ := ih inRest
            constructor
            · intro oldName isOld
              obtain ⟨same, n, above, named⟩ := renamed oldName isOld
              exact ⟨same, n, Nat.le_of_succ_le above, named⟩
            · intro noOld
              obtain ⟨same, fresh⟩ := unchanged noOld
              exact ⟨same, fun inTaken => fresh (List.mem_cons_of_mem _ inTaken)⟩
        · rename_i notTaken
          rcases List.mem_cons.mp vMem with rfl | inRest
          · exact ⟨nofun, fun _ => ⟨rfl, notTaken⟩⟩
          · obtain ⟨renamed, unchanged⟩ := ih inRest
            refine ⟨renamed, ?_⟩
            intro noOld
            obtain ⟨same, fresh⟩ := unchanged noOld
            exact ⟨same, fun inTaken => fresh (List.mem_cons_of_mem _ inTaken)⟩
      · exact ih vMem

/-- A declaration that keeps its name has none of the names before it. -/
theorem namedFrom_pairwise (taken : List String) (k : Nat) (text : List Occurrence) :
    (namedFrom taken k text).Pairwise fun v w => w.oldName = none → v.name ≠ w.name := by
  induction text generalizing taken k with
  | nil => exact List.Pairwise.nil
  | cons t rest ih =>
      have apart : ∀ {name taken k w}, name ∈ taken → w ∈ namedFrom taken k rest →
          w.oldName = none → name ≠ w.name := by
        rintro name taken k w isTaken wMem old rfl
        obtain ⟨named, fresh⟩ := (named_of_mem wMem).unchanged old
        exact fresh (named ▸ isTaken)
      rw [namedFrom]
      split
      · split
        · exact List.pairwise_cons.mpr
            ⟨fun w wMem => apart List.mem_cons_self wMem, ih _ _⟩
        · exact List.pairwise_cons.mpr
            ⟨fun w wMem => apart List.mem_cons_self wMem, ih _ _⟩
      · exact ih _ _

/-- The new names are numbered differently. -/
theorem namedFrom_numbers (taken : List String) (k : Nat) (text : List Occurrence) :
    (((namedFrom taken k text).filter fun v => v.oldName.isSome).map VarDecl.name).Nodup := by
  induction text generalizing taken k with
  | nil => exact List.nodup_nil
  | cons t rest ih =>
      rw [namedFrom]
      split
      · split
        · rw [List.filter_cons_of_pos rfl, List.map_cons, List.nodup_cons]
          refine ⟨?_, ih _ _⟩
          intro again
          obtain ⟨v, vMem, same⟩ := List.mem_map.mp again
          obtain ⟨vMem, isOld⟩ := List.mem_filter.mp vMem
          obtain ⟨oldName, old⟩ := Option.isSome_iff_exists.mp isOld
          obtain ⟨_, n, above, named⟩ := (named_of_mem vMem).renamed oldName old
          have sameNumber := numbered_number_inj (named.symm.trans same)
          omega
        · rw [List.filter_cons_of_neg (by simp)]
          exact ih _ _
      · exact ih _ _

/-- Of the declarations of a name that is not taken and is no new name, the first that is
moved keeps it. -/
theorem exists_unchanged {taken : List String} {k : Nat} {text : List Occurrence}
    {d : Occurrence} (dMem : d ∈ text) (moved : d.declares .moved = true) (fresh : d.name ∉ taken)
    (notNew : ∀ v ∈ namedFrom taken k text, v.oldName.isSome = true → v.name ≠ d.name) :
    ∃ v ∈ namedFrom taken k text, v.oldName = none ∧ v.decl.name = d.name := by
  induction text generalizing taken k with
  | nil => exact absurd dMem List.not_mem_nil
  | cons t rest ih =>
      rw [namedFrom] at notNew ⊢
      by_cases tMoved : t.declares .moved = true
      · rw [if_pos tMoved] at notNew ⊢
        by_cases isTaken : t.name ∈ taken
        · rw [if_pos isTaken, List.forall_mem_cons] at notNew
          rw [if_pos isTaken]
          have inRest : d ∈ rest := by
            rcases List.mem_cons.mp dMem with rfl | inRest
            · exact absurd isTaken fresh
            · exact inRest
          have stillFresh : d.name ∉ numbered t.name separator k :: taken := by
            rw [List.mem_cons, not_or]
            exact ⟨(notNew.1 rfl).symm, fresh⟩
          obtain ⟨v, vMem, found⟩ := ih inRest stillFresh notNew.2
          exact ⟨v, List.mem_cons_of_mem _ vMem, found⟩
        · rw [if_neg isTaken, List.forall_mem_cons] at notNew
          rw [if_neg isTaken]
          by_cases same : d.name = t.name
          · exact ⟨_, List.mem_cons_self, rfl, same.symm⟩
          · have inRest : d ∈ rest := by
              rcases List.mem_cons.mp dMem with rfl | inRest
              · exact absurd rfl same
              · exact inRest
            have stillFresh : d.name ∉ t.name :: taken := by
              rw [List.mem_cons]
              tauto
            obtain ⟨v, vMem, found⟩ := ih inRest stillFresh notNew.2
            exact ⟨v, List.mem_cons_of_mem _ vMem, found⟩
      · rw [if_neg tMoved] at notNew ⊢
        have inRest : d ∈ rest := by
          rcases List.mem_cons.mp dMem with rfl | inRest
          · exact absurd moved tMoved
          · exact inRest
        exact ih inRest fresh notNew

end Hecaton.Pass1
