import Hecaton.Pass1.MoveDecls

/-!
# The text that the pass leaves

The pass walks over statements; what it does to the text of a function can be
said identifier by identifier.  The declarations that it moves are those of the
text that are marked so, in order, and every other identifier stays in its place
under the name that the replacements give it.
-/

namespace Hecaton.Pass1

open Hecaton.Library

/-- A fact about all lists of items follows item by item; for a block from the
items in it. -/
@[elab_as_elim]
theorem items_induction {Q : List Item → Prop} (nil : Q [])
    (decl : ∀ decl rest, Q rest → Q (.decl decl :: rest))
    (use : ∀ use name written rest, Q rest → Q (.use use name written :: rest))
    (comment : ∀ rest, Q rest → Q (.comment :: rest))
    (block : ∀ inMacro items rest, Q items → Q rest → Q (.block inMacro items :: rest))
    (items : List Item) : Q items := by
  have before : ∀ item rest, Q rest → Q (item :: rest) := by
    intro item
    refine @Item.rec (fun item => ∀ rest, Q rest → Q (item :: rest)) Q ?_ ?_ ?_ ?_ nil ?_ item
    · exact decl
    · exact use
    · exact comment
    · exact fun inMacro items inside rest => block inMacro items rest inside
    · exact fun item rest itemHolds restHolds => itemHolds rest restHolds
  induction items with
  | nil => exact nil
  | cons item rest ih => exact before item rest ih

/-! ## The pass on identifiers -/

/-- The new name of a declaration that is moved. -/
def newNameOf (varDecls : List VarDecl) (id : Nat) : String :=
  ((varDecls.find? fun v => v.decl.declId? == some id).map VarDecl.name).getD ""

/-- What `move_var_decl` leaves of an identifier. -/
def edited (varDecls : List VarDecl) (t : Occurrence) : Option Occurrence :=
  match t.role with
  | .decl _ .moved _ _ _ => none
  | .decl _ .dropped _ _ _ => none
  | .init id .moved => some ⟨t.path, newNameOf varDecls id, true, .use (.init id)⟩
  | .init _ .dropped => none
  | _ => some t

/-- What the replacement for one declaration makes of an identifier. -/
def replaced (v : VarDecl) (t : Occurrence) : Occurrence :=
  match v.oldName with
  | none => t
  | some oldName =>
      { t with name := replaceVariable v.decl.path oldName v.name t.path t.name t.written }

/-- What `replace_duplicate_vars` makes of an identifier. -/
def replacedAll (varDecls : List VarDecl) (t : Occurrence) : Occurrence :=
  varDecls.foldl (fun t v => replaced v t) t

/-- `var_declVisit` at one identifier. -/
def visitOccurrence (fncDecls : List String) (state : MoveState) (t : Occurrence) : MoveState :=
  if t.declares .moved then state.push fncDecls t else state

/-- The names of the outermost block that the pass knows. -/
def listedNames (text : List Occurrence) : List String :=
  (text.filter fun t => t.declares .listed).map Occurrence.name

/-- The declarations that the pass moves. -/
def varDeclsOf (text : List Occurrence) : List VarDecl :=
  (text.foldl (visitOccurrence (listedNames text)) {}).varDecls

/-- The text that the pass leaves. -/
def hoistedText (text : List Occurrence) : List Occurrence :=
  (insertVarDecl (varDeclsOf text)).map insertedDecl ++
    (text.filterMap (edited (varDeclsOf text))).map (replacedAll (varDeclsOf text))

/-! ## Where the identifiers of a block stand -/

theorem statusOf_nested {path : List Nat} (nested : path ≠ []) {visited : Bool} {decl : LocalDecl} :
    statusOf visited path decl ≠ .listed := by
  rw [statusOf, if_neg nested]
  split
  · simp
  · split
    · simp
    · split <;> simp

theorem statusOf_unvisited {path : List Nat} {decl : LocalDecl} :
    statusOf false path decl = .kept := by
  simp [statusOf]

theorem statusOf_outermost {visited : Bool} {decl : LocalDecl} :
    (statusOf visited [] decl).leaves = false := by
  rw [statusOf, if_pos rfl]
  split
  · rfl
  · split <;> rfl

theorem declares_eq_true_iff {t : Occurrence} {status : Status} :
    t.declares status = true ↔
      ∃ id uses simple hidden, t.role = .decl id status uses simple hidden := by
  cases role : t.role with
  | decl id own uses simple hidden => simp [Occurrence.declares, role]
  | init id own => simp [Occurrence.declares, role]
  | use use => simp [Occurrence.declares, role]

/-- What stands in the outermost block does not leave it, and what is listed stands there.  Only
a declaration that leaves has the uses in its type with it. -/
structure Placed (t : Occurrence) : Prop where
  listed : t.declares .listed = true → t.path = []
  moved : t.declares .moved = true → t.path ≠ []
  dropped : t.declares .dropped = true → t.path ≠ []
  bare : t.stays = true → t.isDecl = true → t.uses = []

theorem placed_of_not_isDecl {t : Occurrence} (notDecl : t.isDecl = false) : Placed t := by
  have noStatus : ∀ status, t.declares status = true → False := by
    intro status declares
    obtain ⟨id, uses, simple, hidden, role⟩ := declares_eq_true_iff.mp declares
    simp [Occurrence.isDecl, Occurrence.declId?, role] at notDecl
  exact ⟨fun declares => (noStatus _ declares).elim, fun declares => (noStatus _ declares).elim,
    fun declares => (noStatus _ declares).elim, fun _ isDecl => by simp [notDecl] at isDecl⟩

theorem placed_of_mem_localDecl {visited : Bool} {path : List Nat} {decl : LocalDecl}
    {t : Occurrence} (tMem : t ∈ decl.occurrences path (statusOf visited path decl)) :
    t.path = path ∧ Placed t := by
  rw [LocalDecl.occurrences, List.mem_append, List.mem_cons] at tMem
  rcases tMem with isUse | rfl | isInit
  · split at isUse
    · exact absurd isUse List.not_mem_nil
    · obtain ⟨use, _, rfl⟩ := List.mem_map.mp isUse
      exact ⟨rfl, placed_of_not_isDecl rfl⟩
  · refine ⟨rfl, ?_, ?_, ?_, ?_⟩
    · intro listed
      by_contra nested
      exact statusOf_nested nested (eq_of_beq listed)
    · rintro moved rfl
      have leaves := @statusOf_outermost visited decl
      rw [eq_of_beq moved] at leaves
      cases leaves
    · rintro dropped rfl
      have leaves := @statusOf_outermost visited decl
      rw [eq_of_beq dropped] at leaves
      cases leaves
    · intro stays _
      rw [Occurrence.stays, Bool.not_eq_true'] at stays
      simp [Occurrence.uses, stays]
  · split at isInit
    · rw [List.mem_singleton.mp isInit]
      exact ⟨rfl, placed_of_not_isDecl rfl⟩
    · exact absurd isInit List.not_mem_nil

/-- An identifier stands in or below its block. -/
theorem placed_of_mem_occurrencesOf {items : List Item} {visited : Bool} {path : List Nat} {i : Nat}
    {t : Occurrence} (tMem : t ∈ occurrencesOf visited path i items) :
    path <+: t.path ∧ Placed t := by
  induction items using items_induction generalizing visited path i with
  | nil => simp [occurrencesOf] at tMem
  | decl decl rest ih =>
      rw [occurrencesOf, occurrencesOfItem, List.mem_append] at tMem
      rcases tMem with here | inRest
      · obtain ⟨isPath, placed⟩ := placed_of_mem_localDecl here
        exact ⟨isPath ▸ List.prefix_rfl, placed⟩
      · exact ih inRest
  | use use name written rest ih =>
      rw [occurrencesOf, occurrencesOfItem, List.mem_append, List.mem_singleton] at tMem
      rcases tMem with rfl | inRest
      · exact ⟨List.prefix_rfl, placed_of_not_isDecl rfl⟩
      · exact ih inRest
  | comment rest ih =>
      rw [occurrencesOf, occurrencesOfItem, List.nil_append] at tMem
      exact ih tMem
  | block inMacro items rest inside ih =>
      rw [occurrencesOf, occurrencesOfItem, List.mem_append] at tMem
      rcases tMem with inBlock | inRest
      · obtain ⟨below, placed⟩ := inside inBlock
        exact ⟨(List.prefix_append path [i]).trans below, placed⟩
      · exact ih inRest

/-- A nested block has no listed declaration. -/
theorem not_listed_of_nested {items : List Item} {visited : Bool} {path : List Nat} {i : Nat}
    (nested : path ≠ []) {t : Occurrence} (tMem : t ∈ occurrencesOf visited path i items) :
    t.declares .listed = false := by
  obtain ⟨below, placed⟩ := placed_of_mem_occurrencesOf tMem
  by_contra listed
  rw [placed.listed (by simpa using listed), List.prefix_nil] at below
  exact nested below

theorem edited_of_stays {varDecls : List VarDecl} {t : Occurrence} (stays : t.stays = true)
    (notMoved : ∀ id, t.role ≠ .init id .moved) : edited varDecls t = some t := by
  obtain ⟨path, name, written, role⟩ := t
  cases role with
  | decl id status uses simple hidden =>
      cases status with
      | listed => rfl
      | moved => cases stays
      | dropped => cases stays
      | kept => rfl
  | init id status =>
      cases status with
      | listed => rfl
      | moved => exact absurd rfl (notMoved id)
      | dropped => cases stays
      | kept => rfl
  | use use => rfl

/-- What a declaration with a status that does not leave consists of stays as it is. -/
theorem edited_localDecl {path : List Nat} {status : Status} {decl : LocalDecl} {t : Occurrence}
    (stays : status.leaves = false) (tMem : t ∈ decl.occurrences path status)
    (varDecls : List VarDecl) : edited varDecls t = some t ∧ t.declares .moved = false := by
  rw [LocalDecl.occurrences, List.mem_append, List.mem_cons] at tMem
  rcases tMem with isUse | rfl | isInit
  · rw [stays, if_neg (by simp)] at isUse
    obtain ⟨use, _, rfl⟩ := List.mem_map.mp isUse
    exact ⟨rfl, rfl⟩
  · cases status <;> first | exact ⟨rfl, rfl⟩ | cases stays
  · split at isInit
    · rw [List.mem_singleton.mp isInit]
      cases status <;> first | exact ⟨rfl, rfl⟩ | cases stays
    · exact absurd isInit List.not_mem_nil

/-- The pass changes no identifier of a block that it does not visit. -/
theorem edited_of_unvisited {items : List Item} {path : List Nat} {i : Nat} {t : Occurrence}
    (tMem : t ∈ occurrencesOf false path i items) (varDecls : List VarDecl) :
    edited varDecls t = some t ∧ t.declares .moved = false := by
  induction items using items_induction generalizing path i with
  | nil => simp [occurrencesOf] at tMem
  | decl decl rest ih =>
      rw [occurrencesOf, occurrencesOfItem, List.mem_append, statusOf_unvisited] at tMem
      rcases tMem with here | inRest
      · exact edited_localDecl rfl here varDecls
      · exact ih inRest
  | use use name written rest ih =>
      rw [occurrencesOf, occurrencesOfItem, List.mem_append, List.mem_singleton] at tMem
      rcases tMem with rfl | inRest
      · exact ⟨rfl, rfl⟩
      · exact ih inRest
  | comment rest ih =>
      rw [occurrencesOf, occurrencesOfItem, List.nil_append] at tMem
      exact ih tMem
  | block inMacro items rest inside ih =>
      rw [occurrencesOf, occurrencesOfItem, List.mem_append, Bool.false_and] at tMem
      rcases tMem with inBlock | inRest
      · exact inside inBlock
      · exact ih inRest

/-! ## The steps of the pass -/

/-- In the outermost block a declaration is listed when the visit finds it. -/
theorem listed_localDecl (decl : LocalDecl) :
    ((decl.occurrences [] (statusOf true [] decl)).filter fun t => t.declares .listed).map
        Occurrence.name =
      if decl.inMacro || !decl.isValue then [] else [decl.name] := by
  have noUse : ((decl.uses.map fun use =>
      (⟨[], use.name, use.written, .use (.ref use.id)⟩ : Occurrence)).filter
      fun t => t.declares .listed) = [] := by
    rw [List.filter_eq_nil_iff]
    intro t tMem
    obtain ⟨use, _, rfl⟩ := List.mem_map.mp tMem
    simp [Occurrence.declares]
  obtain ⟨status, isStatus⟩ : ∃ status, statusOf true [] decl = status := ⟨_, rfl⟩
  have stays : status.leaves = false := isStatus ▸ statusOf_outermost
  have listed : (status == .listed) = !(decl.inMacro || !decl.isValue) := by
    rw [← isStatus, statusOf]
    cases decl.inMacro <;> cases decl.isValue <;> rfl
  rw [isStatus, LocalDecl.occurrences, stays, if_neg (by simp), List.filter_append, noUse,
    List.nil_append]
  cases found : decl.inMacro || !decl.isValue <;> cases decl.hasInit <;>
    simp [Occurrence.declares, listed, found]

/-- `fnc_declVisit` finds the listed declarations. -/
theorem fncDeclVisit_eq (items : List Item) (i : Nat) :
    fncDeclVisit items = listedNames (occurrencesOf true [] i items) := by
  induction items generalizing i with
  | nil => simp [fncDeclVisit, listedNames, occurrencesOf]
  | cons item rest ih =>
      have ih := ih (i + 1)
      simp only [listedNames, occurrencesOf, List.filter_append, List.map_append] at ih ⊢
      cases item with
      | decl decl =>
          rw [occurrencesOfItem, listed_localDecl, fncDeclVisit, ← ih]
          split <;> rfl
      | use use name written => simp [fncDeclVisit, occurrencesOfItem, Occurrence.declares, ih]
      | comment => simp [fncDeclVisit, occurrencesOfItem, ih]
      | block inMacro items =>
          have none : (occurrencesOf (true && !inMacro) [i] 0 items).filter
              (fun t => t.declares .listed) = [] := by
            rw [List.filter_eq_nil_iff]
            intro t tMem
            simp [not_listed_of_nested (by simp) tMem]
          simp only [fncDeclVisit, occurrencesOfItem, List.nil_append, none, List.map_nil]
          exact ih

theorem push_varDecls (fncDecls : List String) (decl : Occurrence) (state : MoveState) :
    ∃ v, (state.push fncDecls decl).varDecls = state.varDecls ++ [v] ∧ v.decl = decl ∧
      (state.push fncDecls decl).declName = v.name := by
  rw [MoveState.push]
  split
  · exact ⟨_, rfl, rfl, by simp [MoveState.declName]⟩
  · exact ⟨_, rfl, rfl, by simp [MoveState.declName]⟩

/-- Declarations are only added. -/
theorem prefix_foldl_visitOccurrence (fncDecls : List String) (text : List Occurrence)
    (state : MoveState) :
    state.varDecls <+: (text.foldl (visitOccurrence fncDecls) state).varDecls := by
  induction text generalizing state with
  | nil => exact List.prefix_rfl
  | cons t rest ih =>
      refine List.IsPrefix.trans ?_ (ih _)
      rw [visitOccurrence]
      split
      · obtain ⟨v, added, _⟩ := push_varDecls fncDecls t state
        exact added ▸ List.prefix_append _ _
      · exact List.prefix_rfl

theorem foldl_visitOccurrence_of_not_moved (fncDecls : List String) {text : List Occurrence}
    (noneMoved : ∀ t ∈ text, t.declares .moved = false) (state : MoveState) :
    text.foldl (visitOccurrence fncDecls) state = state := by
  induction text generalizing state with
  | nil => rfl
  | cons t rest ih =>
      rw [List.foldl_cons, visitOccurrence, noneMoved t List.mem_cons_self]
      exact ih (fun other otherMem => noneMoved other (List.mem_cons_of_mem _ otherMem)) state

/-- The visit of a declaration does what its status says. -/
theorem varDeclVisitItem_decl (fncDecls : List String) (path : List Nat) (i : Nat)
    (decl : LocalDecl) (state : MoveState) :
    varDeclVisitItem fncDecls path i (.decl decl) state =
      match statusOf true path decl with
      | .moved =>
          (if decl.hasInit then
              .use (.init decl.id) (state.push fncDecls (decl.noted path)).declName true
            else .comment,
            state.push fncDecls (decl.noted path))
      | .dropped => (.comment, state)
      | _ => (.decl decl, state) := by
  rw [varDeclVisitItem, statusOf]
  cases decl.inMacro with
  | true => rfl
  | false =>
      by_cases outermost : path = []
      · cases decl.isValue <;> simp [outermost]
      · cases decl.brace <;> cases decl.isValue <;> simp [outermost]

/-- A declaration that is moved is noted with its type. -/
theorem occurrences_moved (path : List Nat) (decl : LocalDecl) :
    decl.occurrences path .moved =
      decl.noted path :: if decl.hasInit then
        [⟨path, decl.name, decl.written, .init decl.id .moved⟩] else [] := rfl

theorem occurrences_dropped (path : List Nat) (decl : LocalDecl) {t : Occurrence}
    (tMem : t ∈ decl.occurrences path .dropped) (varDecls : List VarDecl) :
    edited varDecls t = none ∧ t.declares .moved = false := by
  rw [LocalDecl.occurrences, List.mem_append, List.mem_cons] at tMem
  rcases tMem with isUse | rfl | isInit
  · exact absurd isUse List.not_mem_nil
  · exact ⟨rfl, rfl⟩
  · split at isInit
    · rw [List.mem_singleton.mp isInit]
      exact ⟨rfl, rfl⟩
    · exact absurd isInit List.not_mem_nil

/-- `var_declVisit` notes the declarations that are moved, in order. -/
theorem varDeclVisit_state (fncDecls : List String) (items : List Item) (path : List Nat) (i : Nat)
    (state : MoveState) :
    (varDeclVisit fncDecls path i items state).2 =
      (occurrencesOf true path i items).foldl (visitOccurrence fncDecls) state := by
  induction items using items_induction generalizing path i state with
  | nil => simp [varDeclVisit, occurrencesOf]
  | decl decl rest ih =>
      simp only [varDeclVisit, varDeclVisitItem_decl, occurrencesOf, occurrencesOfItem,
        List.foldl_append]
      cases status : statusOf true path decl with
      | moved =>
          rw [occurrences_moved, List.foldl_cons]
          have noInit : ∀ t ∈ (if decl.hasInit then
              [(⟨path, decl.name, decl.written, .init decl.id .moved⟩ : Occurrence)] else []),
              t.declares .moved = false := by
            intro t tMem
            split at tMem
            · rw [List.mem_singleton.mp tMem]
              rfl
            · exact absurd tMem List.not_mem_nil
          rw [foldl_visitOccurrence_of_not_moved fncDecls noInit]
          exact ih path (i + 1) _
      | dropped =>
          rw [foldl_visitOccurrence_of_not_moved fncDecls
            (fun t tMem => (occurrences_dropped path decl tMem []).2)]
          exact ih path (i + 1) state
      | listed =>
          rw [foldl_visitOccurrence_of_not_moved fncDecls
            (fun t tMem => (edited_localDecl rfl tMem []).2)]
          exact ih path (i + 1) state
      | kept =>
          rw [foldl_visitOccurrence_of_not_moved fncDecls
            (fun t tMem => (edited_localDecl rfl tMem []).2)]
          exact ih path (i + 1) state
  | use use name written rest ih =>
      simp [varDeclVisit, varDeclVisitItem, occurrencesOf, occurrencesOfItem, ih, visitOccurrence,
        Occurrence.declares]
  | comment rest ih =>
      simp [varDeclVisit, varDeclVisitItem, occurrencesOf, occurrencesOfItem, ih]
  | block inMacro items rest inside ih =>
      simp only [varDeclVisit, varDeclVisitItem, occurrencesOf, occurrencesOfItem,
        List.foldl_append]
      cases inMacro with
      | true =>
          simp only [if_true, Bool.not_true, Bool.and_false]
          rw [foldl_visitOccurrence_of_not_moved fncDecls
            (fun t tMem => (edited_of_unvisited tMem []).2)]
          exact ih path (i + 1) state
      | false =>
          simp only [Bool.false_eq_true, if_false, Bool.not_false, Bool.and_self]
          rw [← inside]
          exact ih path (i + 1) _

/-- What is left of the text when the declarations have been moved. -/
theorem occurrencesOf_varDeclVisit {varDecls : List VarDecl} (fncDecls : List String)
    (items : List Item) (path : List Nat) (i : Nat) (state : MoveState)
    (agree : ∀ v ∈ (varDeclVisit fncDecls path i items state).2.varDecls, ∀ id,
      v.decl.declId? = some id → newNameOf varDecls id = v.name) :
    occurrencesOf true path i (varDeclVisit fncDecls path i items state).1 =
      (occurrencesOf true path i items).filterMap (edited varDecls) := by
  induction items using items_induction generalizing path i state with
  | nil => simp [varDeclVisit, occurrencesOf]
  | decl decl rest ih =>
      simp only [varDeclVisit, occurrencesOf, List.filterMap_append] at agree ⊢
      rw [ih _ _ _ agree]
      congr 1
      rw [varDeclVisitItem_decl] at agree ⊢
      cases status : statusOf true path decl with
      | moved =>
          rw [status] at agree
          obtain ⟨v, added, isDecl, declName⟩ := push_varDecls fncDecls (decl.noted path) state
          have named : newNameOf varDecls decl.id = v.name := by
            apply agree v _ decl.id
            · rw [isDecl]
              rfl
            · rw [varDeclVisit_state]
              apply (prefix_foldl_visitOccurrence fncDecls _ _).subset
              rw [added]
              exact List.mem_append_right _ List.mem_cons_self
          have moved : edited varDecls (decl.noted path) = none := rfl
          rw [occurrencesOfItem, status, occurrences_moved, List.filterMap_cons_none moved]
          cases decl.hasInit with
          | false => simp [occurrencesOfItem]
          | true =>
              have assigned : edited varDecls
                  ⟨path, decl.name, decl.written, .init decl.id .moved⟩ =
                  some ⟨path, v.name, true, .use (.init decl.id)⟩ := by
                simp [edited, named]
              simp only [if_true]
              rw [List.filterMap_cons_some assigned, declName]
              rfl
      | dropped =>
          rw [occurrencesOfItem, occurrencesOfItem, status, List.filterMap_eq_nil_iff.mpr]
          exact fun t tMem => (occurrences_dropped path decl tMem varDecls).1
      | listed =>
          rw [occurrencesOfItem, status, List.filterMap_congr
            (fun t tMem => (edited_localDecl rfl tMem varDecls).1)]
          exact List.filterMap_some.symm
      | kept =>
          rw [occurrencesOfItem, status, List.filterMap_congr
            (fun t tMem => (edited_localDecl rfl tMem varDecls).1)]
          exact List.filterMap_some.symm
  | use use name written rest ih =>
      simp only [varDeclVisit, varDeclVisitItem, occurrencesOf, occurrencesOfItem,
        List.filterMap_append] at agree ⊢
      rw [ih _ _ _ agree]
      rfl
  | comment rest ih =>
      simp only [varDeclVisit, varDeclVisitItem, occurrencesOf, occurrencesOfItem,
        List.filterMap_append] at agree ⊢
      rw [ih _ _ _ agree]
      rfl
  | block inMacro items rest inside ih =>
      cases inMacro with
      | true =>
          simp only [varDeclVisit, varDeclVisitItem, occurrencesOf, occurrencesOfItem,
            List.filterMap_append, if_true, Bool.not_true, Bool.and_false] at agree ⊢
          rw [ih _ _ _ agree]
          congr 1
          rw [List.filterMap_congr (fun t tMem => (edited_of_unvisited tMem varDecls).1)]
          exact List.filterMap_some.symm
      | false =>
          simp only [varDeclVisit, varDeclVisitItem, occurrencesOf, occurrencesOfItem,
            List.filterMap_append, Bool.false_eq_true, if_false, Bool.not_false,
            Bool.and_self] at agree ⊢
          rw [ih _ _ _ agree, inside]
          intro v vMem
          apply agree v
          rw [varDeclVisit_state]
          exact (prefix_foldl_visitOccurrence fncDecls _ _).subset vMem

/-- What the replacement of a name makes of an identifier. -/
def replacedName (block : List Nat) (oldName newName : String) (t : Occurrence) : Occurrence :=
  { t with name := replaceVariable block oldName newName t.path t.name t.written }

/-- A replacement goes identifier by identifier where no declaration leaves. -/
theorem occurrencesOf_replaceInItems (block : List Nat) (oldName newName : String)
    (items : List Item) (visited : Bool) (path : List Nat) (i : Nat)
    (settled : ∀ t ∈ occurrencesOf visited path i items, t.stays = true) :
    occurrencesOf visited path i (replaceInItems block oldName newName path i items) =
      (occurrencesOf visited path i items).map (replacedName block oldName newName) := by
  induction items using items_induction generalizing visited path i with
  | nil => simp [replaceInItems, occurrencesOf]
  | decl decl rest ih =>
      rw [occurrencesOf, List.forall_mem_append] at settled
      rw [replaceInItems, occurrencesOf, occurrencesOf, ih _ _ _ settled.2, List.map_append]
      congr 1
      have sameStatus : statusOf visited path decl = statusOf visited path { decl with
          name := replaceVariable block oldName newName path decl.name decl.written
          uses := decl.uses.map fun use =>
            { use with name := replaceVariable block oldName newName path use.name use.written } } :=
        rfl
      have stays := settled.1 ⟨path, decl.name, decl.written, .decl decl.id
        (statusOf visited path decl)
        (if (statusOf visited path decl).leaves then decl.uses else []) decl.lineDeclares
        decl.hidden⟩
        (by simp [occurrencesOfItem, LocalDecl.occurrences])
      rw [Occurrence.stays, Bool.not_eq_true'] at stays
      rw [replaceInItem, occurrencesOfItem, occurrencesOfItem, ← sameStatus]
      cases hasInit : decl.hasInit <;>
        simp [LocalDecl.occurrences, LocalDecl.lineDeclares, stays, hasInit, replacedName,
          Function.comp_def]
  | use use name written rest ih =>
      rw [occurrencesOf, List.forall_mem_append] at settled
      simp [replaceInItems, replaceInItem, occurrencesOf, occurrencesOfItem, replacedName,
        ih _ _ _ settled.2]
  | comment rest ih =>
      rw [occurrencesOf, List.forall_mem_append] at settled
      simp [replaceInItems, replaceInItem, occurrencesOf, occurrencesOfItem, ih _ _ _ settled.2]
  | block inMacro items rest inside ih =>
      rw [occurrencesOf, occurrencesOfItem, List.forall_mem_append] at settled
      simp [replaceInItems, replaceInItem, occurrencesOf, occurrencesOfItem, ih _ _ _ settled.2,
        inside _ _ _ settled.1]

theorem occurrencesOf_replaceDuplicateVars (varDecls : List VarDecl) (body : List Item)
    (settled : ∀ t ∈ occurrencesOf true [] 0 body, t.stays = true) :
    occurrencesOf true [] 0 (replaceDuplicateVars body varDecls) =
      (occurrencesOf true [] 0 body).map (replacedAll varDecls) := by
  induction varDecls generalizing body with
  | nil =>
      rw [replaceDuplicateVars]
      exact (List.map_id _).symm
  | cons v rest ih =>
      rw [replaceDuplicateVars]
      cases old : v.oldName with
      | none =>
          rw [ih _ settled]
          apply List.map_congr_left
          intro t _
          simp [replacedAll, replaced, old]
      | some oldName =>
          have replacedText := occurrencesOf_replaceInItems v.decl.path oldName v.name body true []
            0 settled
          rw [ih, replacedText, List.map_map]
          · apply List.map_congr_left
            intro t _
            simp [replacedAll, replaced, replacedName, old]
          · intro t tMem
            rw [replacedText] at tMem
            obtain ⟨t', tMem', rfl⟩ := List.mem_map.mp tMem
            exact settled t' tMem'

/-- What is left of the text stays. -/
theorem stays_of_edited {varDecls : List VarDecl} {t t' : Occurrence}
    (isEdited : edited varDecls t = some t') : t'.stays = true := by
  obtain ⟨path, name, written, role⟩ := t
  cases role with
  | decl id status uses simple hidden => cases status <;> cases isEdited <;> rfl
  | init id status => cases status <;> cases isEdited <;> rfl
  | use use => cases isEdited; rfl

/-! ## The whole pass -/

theorem varDecls_decls (fncDecls : List String) (text : List Occurrence) (state : MoveState) :
    (text.foldl (visitOccurrence fncDecls) state).varDecls.map VarDecl.decl =
      state.varDecls.map VarDecl.decl ++ text.filter fun t => t.declares .moved := by
  induction text generalizing state with
  | nil => simp
  | cons t rest ih =>
      rw [List.foldl_cons, ih, visitOccurrence]
      cases moved : t.declares .moved with
      | false => simp [moved]
      | true =>
          obtain ⟨v, added, isDecl, _⟩ := push_varDecls fncDecls t state
          simp [moved, added, isDecl]

/-- The declarations that the pass moves are those marked so. -/
theorem varDeclsOf_decls (text : List Occurrence) :
    (varDeclsOf text).map VarDecl.decl = text.filter fun t => t.declares .moved := by
  rw [varDeclsOf, varDecls_decls]
  rfl

/-- No two declarations are the same. -/
def DistinctDecls (text : List Occurrence) : Prop := (text.filterMap Occurrence.declId?).Nodup

theorem DistinctDecls.varDecls {text : List Occurrence} (distinct : DistinctDecls text) :
    (((varDeclsOf text).map VarDecl.decl).filterMap Occurrence.declId?).Nodup := by
  rw [varDeclsOf_decls]
  exact distinct.sublist (List.filter_sublist.filterMap _)

theorem newNameOf_eq {varDecls : List VarDecl}
    (distinct : ((varDecls.map VarDecl.decl).filterMap Occurrence.declId?).Nodup) {v : VarDecl}
    (vMem : v ∈ varDecls) {id : Nat} (isId : v.decl.declId? = some id) :
    newNameOf varDecls id = v.name := by
  induction varDecls with
  | nil => exact absurd vMem List.not_mem_nil
  | cons w rest ih =>
      rw [List.map_cons] at distinct
      by_cases first : w.decl.declId? = some id
      · have same : v = w := by
          rcases List.mem_cons.mp vMem with rfl | inRest
          · rfl
          · rw [List.filterMap_cons_some first, List.nodup_cons] at distinct
            apply absurd _ distinct.1
            exact List.mem_filterMap.mpr ⟨v.decl, List.mem_map_of_mem inRest, isId⟩
        simp [newNameOf, first, same]
      · have inRest : v ∈ rest := by
          rcases List.mem_cons.mp vMem with rfl | inRest
          · exact absurd isId first
          · exact inRest
        have restDistinct : ((rest.map VarDecl.decl).filterMap Occurrence.declId?).Nodup :=
          distinct.sublist ((List.sublist_cons_self _ _).filterMap _)
        have found := ih restDistinct inRest
        simpa [newNameOf, first] using found

/-- The declarations that the pass notes are inserted. -/
theorem varDecls_moveVarDecl (f : SourceFunction) :
    (moveVarDecl f.body).2.varDecls = varDeclsOf f.text := by
  rw [moveVarDecl, varDeclVisit_state, fncDeclVisit_eq f.body 0]
  rfl

theorem decls_hoistDecls (f : SourceFunction) :
    (hoistDecls f).decls = insertVarDecl (varDeclsOf f.text) := by
  rw [← varDecls_moveVarDecl]
  rfl

/-- The text that the pass leaves, identifier by identifier. -/
theorem text_hoistDecls {f : SourceFunction} (distinct : DistinctDecls f.text) :
    (hoistDecls f).text = hoistedText f.text := by
  have noted := varDecls_moveVarDecl f
  have moved : occurrencesOf true [] 0 (moveVarDecl f.body).1 =
      f.text.filterMap (edited (varDeclsOf f.text)) := by
    apply occurrencesOf_varDeclVisit
    intro v vMem id isId
    rw [← moveVarDecl, noted] at vMem
    exact newNameOf_eq distinct.varDecls vMem isId
  have settled : ∀ t ∈ occurrencesOf true [] 0 (moveVarDecl f.body).1, t.stays = true := by
    intro t tMem
    rw [moved] at tMem
    obtain ⟨_, _, isEdited⟩ := List.mem_filterMap.mp tMem
    exact stays_of_edited isEdited
  rw [HoistedFunction.text, hoistDecls, hoistedText]
  simp only [noted, occurrencesOf_replaceDuplicateVars _ _ settled, moved]

end Hecaton.Pass1
