import Hecaton.Pass1.NewNames
import Mathlib.Data.List.Find
import Mathlib.Data.List.Nodup

/-!
# The name of every identifier after the pass

An identifier has its own name after the pass, or the new name of one declaration.
Two identifiers have the same name after the pass exactly when they had the same
name before it and got a new name from the same declaration, if any.
-/

namespace Hecaton.Pass1

open Hecaton.Library

/-- What holds of the text of every function: no declaration occurs twice, and the
assignment of an initial value has the name of its declaration. -/
structure WellFormed (text : List Occurrence) : Prop where
  distinct : DistinctDecls text
  placed : ∀ t ∈ text, Placed t
  inits : ∀ t ∈ text, ∀ id, t.role = .init id .moved →
    ∃ d ∈ text, d.declares .moved = true ∧ d.declId? = some id ∧ d.name = t.name

theorem eq_of_nodup_filterMap {α β : Type*} {f : α → Option β} {items : List α}
    (distinct : (items.filterMap f).Nodup) {first second : α} (firstMem : first ∈ items)
    (secondMem : second ∈ items) {key : β} (firstKey : f first = some key)
    (secondKey : f second = some key) : first = second := by
  induction items with
  | nil => exact absurd firstMem List.not_mem_nil
  | cons head rest ih =>
      have apart : ∀ {other}, f head = some key → other ∈ rest → f other = some key → False := by
        intro other headKey otherMem otherKey
        rw [List.filterMap_cons_some headKey, List.nodup_cons] at distinct
        exact distinct.1 (List.mem_filterMap.mpr ⟨other, otherMem, otherKey⟩)
      rcases List.mem_cons.mp firstMem with rfl | firstIn
      · rcases List.mem_cons.mp secondMem with rfl | secondIn
        · rfl
        · exact (apart firstKey secondIn secondKey).elim
      · rcases List.mem_cons.mp secondMem with rfl | secondIn
        · exact (apart secondKey firstIn firstKey).elim
        · have restDistinct : (rest.filterMap f).Nodup :=
            distinct.sublist ((List.sublist_cons_self _ _).filterMap _)
          exact ih restDistinct firstIn secondIn

theorem inits_occurrencesOf {items : List Item} {visited : Bool} {path : List Nat} {i : Nat}
    {t : Occurrence} (tMem : t ∈ occurrencesOf visited path i items) {id : Nat}
    (role : t.role = .init id .moved) :
    ∃ d ∈ occurrencesOf visited path i items, d.declares .moved = true ∧ d.declId? = some id ∧
      d.name = t.name := by
  induction items using items_induction generalizing visited path i with
  | nil => simp [occurrencesOf] at tMem
  | decl decl rest ih =>
      rw [occurrencesOf, occurrencesOfItem] at tMem ⊢
      rcases List.mem_append.mp tMem with here | inRest
      · rw [LocalDecl.occurrences] at here
        rcases List.mem_append.mp here with isUse | here
        · split at isUse
          · exact absurd isUse List.not_mem_nil
          · obtain ⟨use, _, rfl⟩ := List.mem_map.mp isUse
            cases role
        · refine ⟨_, List.mem_append_left _ (List.mem_append_right _ List.mem_cons_self), ?_⟩
          rcases List.mem_cons.mp here with rfl | isInit
          · cases role
          · split at isInit
            · rw [List.mem_singleton.mp isInit] at role ⊢
              obtain ⟨rfl, status⟩ := Role.init.inj role
              exact ⟨by simp [Occurrence.declares, status], rfl, rfl⟩
            · exact absurd isInit List.not_mem_nil
      · obtain ⟨d, dMem, found⟩ := ih inRest
        exact ⟨d, List.mem_append_right _ dMem, found⟩
  | use use name written rest ih =>
      rw [occurrencesOf, occurrencesOfItem] at tMem ⊢
      rcases List.mem_append.mp tMem with here | inRest
      · rw [List.mem_singleton.mp here] at role
        cases role
      · obtain ⟨d, dMem, found⟩ := ih inRest
        exact ⟨d, List.mem_append_right _ dMem, found⟩
  | comment rest ih =>
      rw [occurrencesOf, occurrencesOfItem, List.nil_append] at tMem ⊢
      exact ih tMem
  | block inMacro items rest inside ih =>
      rw [occurrencesOf, occurrencesOfItem] at tMem ⊢
      rcases List.mem_append.mp tMem with inBlock | inRest
      · obtain ⟨d, dMem, found⟩ := inside inBlock
        exact ⟨d, List.mem_append_left _ dMem, found⟩
      · obtain ⟨d, dMem, found⟩ := ih inRest
        exact ⟨d, List.mem_append_right _ dMem, found⟩

theorem wellFormed_text {f : SourceFunction} (distinct : DistinctDecls f.text) :
    WellFormed f.text where
  distinct := distinct
  placed := fun _ tMem => (placed_of_mem_occurrencesOf tMem).2
  inits := fun _ tMem _ role => inits_occurrencesOf tMem role

/-! ## The declarations that are moved -/

section Moved

variable {text : List Occurrence}

theorem decl_of_mem_varDeclsOf {v : VarDecl} (vMem : v ∈ varDeclsOf text) :
    v.decl ∈ text ∧ v.decl.declares .moved = true := by
  have isDecl : v.decl ∈ (varDeclsOf text).map VarDecl.decl := List.mem_map_of_mem vMem
  rw [varDeclsOf_decls] at isDecl
  exact List.mem_filter.mp isDecl

theorem exists_varDecl {d : Occurrence} (dMem : d ∈ text) (moved : d.declares .moved = true) :
    ∃ v ∈ varDeclsOf text, v.decl = d := by
  have isDecl : d ∈ (varDeclsOf text).map VarDecl.decl := by
    rw [varDeclsOf_decls]
    exact List.mem_filter.mpr ⟨dMem, moved⟩
  exact List.mem_map.mp isDecl

theorem declId?_of_moved {d : Occurrence} (moved : d.declares .moved = true) :
    ∃ id uses simple hidden, d.role = .decl id .moved uses simple hidden ∧ d.declId? = some id := by
  obtain ⟨id, uses, simple, hidden, role⟩ := declares_eq_true_iff.mp moved
  exact ⟨id, uses, simple, hidden, role, by rw [Occurrence.declId?, role]⟩

theorem varDecl_declId? {v : VarDecl} (vMem : v ∈ varDeclsOf text) :
    ∃ id uses simple hidden, v.decl.role = .decl id .moved uses simple hidden ∧
      v.decl.declId? = some id :=
  declId?_of_moved (decl_of_mem_varDeclsOf vMem).2

theorem DistinctDecls.varDecl_eq (distinct : DistinctDecls text) {v w : VarDecl}
    (vMem : v ∈ varDeclsOf text) (wMem : w ∈ varDeclsOf text) {id : Nat}
    (vId : v.decl.declId? = some id) (wId : w.decl.declId? = some id) : v = w := by
  have ids := distinct.varDecls
  rw [List.filterMap_map] at ids
  exact eq_of_nodup_filterMap ids vMem wMem vId wId

theorem renamings_eq : renamings text = (varDeclsOf text).filter fun v => v.oldName.isSome := by
  rw [renamings, varDeclsOf_eq]

theorem mem_renamings {v : VarDecl} :
    v ∈ renamings text ↔ v ∈ varDeclsOf text ∧ v.oldName.isSome = true := by
  rw [renamings_eq, List.mem_filter]

theorem named_varDecl {v : VarDecl} (vMem : v ∈ varDeclsOf text) :
    Named (listedNames text) 1 v := by
  rw [varDeclsOf_eq] at vMem
  exact named_of_mem vMem

theorem oldName_eq {v : VarDecl} (vMem : v ∈ varDeclsOf text) (old : v.oldName.isSome = true) :
    v.oldName = some v.decl.name := by
  obtain ⟨oldName, isOld⟩ := Option.isSome_iff_exists.mp old
  rw [isOld, ((named_varDecl vMem).renamed oldName isOld).1]

theorem mem_duplicates {d : Occurrence} :
    d ∈ duplicates text ↔ ∃ v ∈ renamings text, v.decl = d := List.mem_map

theorem duplicate_mem {d : Occurrence} (dMem : d ∈ duplicates text) :
    d ∈ text ∧ d.declares .moved = true := by
  obtain ⟨v, vMem, rfl⟩ := mem_duplicates.mp dMem
  exact decl_of_mem_varDeclsOf (mem_renamings.mp vMem).1

end Moved

/-! ## The replacements -/

/-- The replacement for the declaration renames the identifier. -/
def renames (t : Occurrence) (v : VarDecl) : Bool :=
  t.written && (v.oldName == some t.name && decide (v.decl.path <+: t.path))

theorem replaced_of_renames {v : VarDecl} {t : Occurrence} (matched : renames t v = true) :
    replaced v t = { t with name := v.name } := by
  rw [renames, Bool.and_eq_true, Bool.and_eq_true, beq_iff_eq, decide_eq_true_iff] at matched
  obtain ⟨written, old, inside⟩ := matched
  simp [replaced, old, replaceVariable, written, inside]

theorem replaced_of_not_renames {v : VarDecl} {t : Occurrence} (unmatched : renames t v = false) :
    replaced v t = t := by
  rw [replaced]
  cases old : v.oldName with
  | none => rfl
  | some oldName =>
      have apart : ¬ (t.written = true ∧ v.decl.path <+: t.path ∧ t.name = oldName) := by
        rintro ⟨written, inside, rfl⟩
        simp [renames, old, written, inside] at unmatched
      simp only [replaceVariable, if_neg apart]

theorem replacedAll_of_unmatched {varDecls : List VarDecl} {t : Occurrence}
    (unmatched : ∀ v ∈ varDecls, renames t v = false) : replacedAll varDecls t = t := by
  induction varDecls with
  | nil => rfl
  | cons v rest ih =>
      rw [replacedAll, List.foldl_cons, replaced_of_not_renames (unmatched v List.mem_cons_self)]
      exact ih fun w wMem => unmatched w (List.mem_cons_of_mem _ wMem)

/-- When no replacement renames what the first one has renamed, the first one that renames an
identifier is the last. -/
theorem replacedAll_eq {varDecls : List VarDecl} {t : Occurrence}
    (once : ∀ v, varDecls.find? (renames t) = some v →
      ∀ w ∈ varDecls, renames { t with name := v.name } w = false) :
    replacedAll varDecls t =
      { t with name := ((varDecls.find? (renames t)).map VarDecl.name).getD t.name } := by
  induction varDecls with
  | nil => rfl
  | cons v rest ih =>
      rw [replacedAll, List.foldl_cons, ← replacedAll]
      cases matched : renames t v with
      | false =>
          rw [List.find?_cons_of_neg (by simp [matched])] at once ⊢
          rw [replaced_of_not_renames matched]
          exact ih fun w found other otherMem =>
            once w found other (List.mem_cons_of_mem _ otherMem)
      | true =>
          rw [List.find?_cons_of_pos matched] at once ⊢
          rw [replaced_of_renames matched]
          exact replacedAll_of_unmatched fun w wMem => once v rfl w (List.mem_cons_of_mem _ wMem)

/-! ## The name of an identifier -/

/-- The name of an identifier after the pass. -/
def finalName (text : List Occurrence) (t : Occurrence) : String :=
  ((renamer text t).map (newName text)).getD t.name

/-- An identifier after the pass. -/
def renamed (text : List Occurrence) (t : Occurrence) : Occurrence where
  path := t.path
  name := finalName text t
  written :=
    match t.role with
    | .init _ .moved => true
    | _ => t.written
  role :=
    match t.role with
    | .init id .moved => .use (.init id)
    | role => role

section Names

variable {params : List String} {text : List Occurrence}

theorem captor_eq {t : Occurrence} (written : t.written = true) :
    captor text t = ((varDeclsOf text).find? (renames t)).map VarDecl.decl := by
  rw [captor, duplicates, renamings_eq, List.find?_map, List.find?_filter]
  congr 1
  apply List.find?_congr
  intro v vMem
  cases old : v.oldName.isSome with
  | false =>
      rw [Option.isSome_eq_false_iff, Option.isNone_iff_eq_none] at old
      simp [renames, old]
  | true =>
      simp [renames, oldName_eq vMem old, written]
      rfl

variable (wellFormed : WellFormed text)

include wellFormed

theorem newName_eq {v : VarDecl} (vMem : v ∈ renamings text) : newName text v.decl = v.name := by
  obtain ⟨id, _, _, _, _, isId⟩ := varDecl_declId? (mem_renamings.mp vMem).1
  have distinct : (((renamings text).map VarDecl.decl).filterMap Occurrence.declId?).Nodup := by
    rw [renamings_eq]
    exact wellFormed.distinct.varDecls.sublist ((List.filter_sublist.map _).filterMap _)
  rw [newName, isId]
  exact newNameOf_eq distinct vMem isId

theorem own_eq {v : VarDecl} (vMem : v ∈ varDeclsOf text) {id : Nat}
    (isId : v.decl.declId? = some id) :
    own text id = if v.oldName.isSome then some v.decl else none := by
  cases found : own text id with
  | some d =>
      obtain ⟨w, wMem, rfl⟩ := mem_duplicates.mp (List.mem_of_find?_eq_some found)
      obtain ⟨wMem, old⟩ := mem_renamings.mp wMem
      have wId : w.decl.declId? = some id := by simpa using List.find?_some found
      rw [wellFormed.distinct.varDecl_eq vMem wMem isId wId, if_pos old]
  | none =>
      symm
      rw [ite_eq_right_iff]
      intro isOld
      have isDuplicate : v.decl ∈ duplicates text :=
        mem_duplicates.mpr ⟨v, mem_renamings.mpr ⟨vMem, isOld⟩, rfl⟩
      have notFound := List.find?_eq_none.mp found v.decl isDuplicate
      simp [isId] at notFound

/-- The declaration whose new name an identifier gets has the identifier's name. -/
theorem renamer_mem {t : Occurrence} (tMem : t ∈ text) {d : Occurrence}
    (isRenamer : renamer text t = some d) : d ∈ duplicates text ∧ d.name = t.name := by
  have ofCaptor : captor text t = some d → d ∈ duplicates text ∧ d.name = t.name := by
    intro found
    have matched := List.find?_some found
    rw [Bool.and_eq_true, beq_iff_eq] at matched
    exact ⟨List.mem_of_find?_eq_some found, matched.1⟩
  have ofOwn : ∀ {id} {e : Occurrence}, e ∈ text → e.declId? = some id →
      own text id = some d → d ∈ duplicates text ∧ d = e := by
    intro id e eMem isId found
    have dMem := List.mem_of_find?_eq_some found
    refine ⟨dMem, ?_⟩
    apply eq_of_nodup_filterMap wellFormed.distinct (duplicate_mem dMem).1 eMem _ isId
    simpa using List.find?_some found
  rw [renamer] at isRenamer
  split at isRenamer
  · rename_i id uses simple hidden role
    obtain ⟨dMem, rfl⟩ := ofOwn tMem (by rw [Occurrence.declId?, role]) isRenamer
    exact ⟨dMem, rfl⟩
  · rename_i id role
    rcases Option.or_eq_some_iff.mp isRenamer with found | ⟨_, found⟩
    · obtain ⟨e, eMem, _, isId, sameName⟩ := wellFormed.inits t tMem id role
      obtain ⟨dMem, rfl⟩ := ofOwn eMem isId found
      exact ⟨dMem, sameName⟩
    · exact ofCaptor found
  · split at isRenamer
    · exact ofCaptor isRenamer
    · cases isRenamer

/-- A new name is one of the list, and no other declaration has it. -/
theorem newName_spec {d : Occurrence} (dMem : d ∈ duplicates text) :
    newName text d ∈ newNames text ∧
      ∀ e ∈ duplicates text, newName text e = newName text d → e = d := by
  obtain ⟨v, vMem, rfl⟩ := mem_duplicates.mp dMem
  rw [newName_eq wellFormed vMem]
  refine ⟨List.mem_map_of_mem vMem, ?_⟩
  intro e eMem sameName
  obtain ⟨w, wMem, rfl⟩ := mem_duplicates.mp eMem
  rw [newName_eq wellFormed wMem] at sameName
  rw [List.inj_on_of_nodup_map (namedFrom_numbers _ _ _) wMem vMem sameName]

variable (fresh : FreshNames params text)

include fresh

/-- Two identifiers have one name after the pass exactly when they had one name
before it and get their names from the same declaration. -/
theorem finalName_eq_iff {first second : Occurrence} (firstMem : first ∈ text)
    (secondMem : second ∈ text) :
    finalName text first = finalName text second ↔
      first.name = second.name ∧ renamer text first = renamer text second := by
  cases isFirst : renamer text first with
  | none =>
      cases isSecond : renamer text second with
      | none => simp [finalName, isFirst, isSecond]
      | some d =>
          obtain ⟨dMem, _⟩ := renamer_mem wellFormed secondMem isSecond
          have isNew := (newName_spec wellFormed dMem).1
          have apart : first.name ≠ newName text d := fun same =>
            fresh.unrenamed first firstMem isFirst (same ▸ isNew)
          simp [finalName, isFirst, isSecond, apart]
  | some d =>
      obtain ⟨dMem, dName⟩ := renamer_mem wellFormed firstMem isFirst
      obtain ⟨isNew, onlyOne⟩ := newName_spec wellFormed dMem
      cases isSecond : renamer text second with
      | none =>
          have apart : newName text d ≠ second.name := fun same =>
            fresh.unrenamed second secondMem isSecond (same ▸ isNew)
          simp [finalName, isFirst, isSecond, apart]
      | some e =>
          obtain ⟨eMem, eName⟩ := renamer_mem wellFormed secondMem isSecond
          simp only [finalName, isFirst, isSecond, Option.map_some, Option.getD_some,
            Option.some.injEq]
          constructor
          · intro sameName
            obtain rfl := onlyOne e eMem sameName.symm
            exact ⟨dName.symm.trans eName, rfl⟩
          · rintro ⟨_, rfl⟩
            rfl

/-- No two declarations that are moved have the same new name. -/
theorem varDeclsOf_names_nodup : ((varDeclsOf text).map VarDecl.name).Nodup := by
  have pairwise := namedFrom_pairwise (listedNames text) 1 text
  rw [← varDeclsOf_eq] at pairwise
  have numbers := List.pairwise_map.mp (namedFrom_numbers (listedNames text) 1 text)
  rw [← varDeclsOf_eq, List.pairwise_filter] at numbers
  rw [List.Nodup, List.pairwise_map]
  refine (pairwise.and numbers).imp_of_mem ?_
  rintro v w vMem wMem ⟨unchanged, numbered⟩ sameName
  cases wOld : w.oldName.isSome with
  | false =>
      rw [Option.isSome_eq_false_iff, Option.isNone_iff_eq_none] at wOld
      exact unchanged wOld sameName
  | true =>
      cases vOld : v.oldName.isSome with
      | true => exact numbered vOld wOld sameName
      | false =>
          obtain ⟨id, _, _, _, role, isId⟩ := varDecl_declId? vMem
          apply fresh.unrenamed v.decl (decl_of_mem_varDeclsOf vMem).1
          · rw [renamer_of_moved role, own_eq wellFormed vMem isId, if_neg (by simp [vOld])]
          · rw [Option.isSome_eq_false_iff, Option.isNone_iff_eq_none] at vOld
            rw [← ((named_varDecl vMem).unchanged vOld).1, sameName]
            exact List.mem_map_of_mem (mem_renamings.mpr ⟨wMem, wOld⟩)

omit fresh in
/-- What the replacements make of an identifier whose name is in the text. -/
theorem replacedAll_varDeclsOf {t : Occurrence} (written : t.written = true)
    (once : ∀ d, captor text t = some d → ∀ e ∈ duplicates text, e.name = newName text d →
      ¬ e.path <+: t.path) :
    replacedAll (varDeclsOf text) t =
      { t with name := ((captor text t).map (newName text)).getD t.name } := by
  have names : ((varDeclsOf text).find? (renames t)).map VarDecl.name =
      (captor text t).map (newName text) := by
    rw [captor_eq written, Option.map_map]
    apply Option.map_congr
    intro v found
    have matched := List.find?_some found
    rw [renames, Bool.and_eq_true, Bool.and_eq_true, beq_iff_eq] at matched
    have old : v.oldName.isSome = true := by rw [matched.2.1]; rfl
    exact (newName_eq wellFormed
      (mem_renamings.mpr ⟨List.mem_of_find?_eq_some found, old⟩)).symm
  rw [replacedAll_eq, names]
  intro v found w wMem
  have isCaptor : captor text t = some v.decl := by rw [captor_eq written, found, Option.map_some]
  rw [found, isCaptor, Option.map_some, Option.map_some, Option.some.injEq] at names
  by_contra matched
  rw [Bool.not_eq_false, renames, Bool.and_eq_true, Bool.and_eq_true, beq_iff_eq,
    decide_eq_true_iff] at matched
  obtain ⟨_, old, inside⟩ := matched
  have isOld : w.oldName.isSome = true := by rw [old]; rfl
  have sameName := oldName_eq wMem isOld
  rw [old, Option.some.injEq] at sameName
  exact once v.decl isCaptor w.decl
    (mem_duplicates.mpr ⟨w, mem_renamings.mpr ⟨wMem, isOld⟩, rfl⟩)
    (sameName.symm.trans names) inside

/-- What the pass makes of the assignment of an initial value. -/
theorem edited_init {t : Occurrence} (tMem : t ∈ text) {id : Nat} (role : t.role = .init id .moved) :
    (edited (varDeclsOf text) t).map (replacedAll (varDeclsOf text)) = some (renamed text t) := by
  obtain ⟨d, dMem, moved, isId, sameName⟩ := wellFormed.inits t tMem id role
  obtain ⟨v, vMem, rfl⟩ := exists_varDecl dMem moved
  have owned := own_eq wellFormed vMem isId
  have isRenamer : renamer text t = (own text id).or (captor text t) := renamer_of_init role
  have once := fresh.once t tMem (by rw [Occurrence.stays, role]; rfl)
  have isEdited : edited (varDeclsOf text) t = some ⟨t.path, v.name, true, .use (.init id)⟩ := by
    rw [edited, role, ← newNameOf_eq wellFormed.distinct.varDecls vMem isId]
  have isRenamed : renamed text t = ⟨t.path, finalName text t, true, .use (.init id)⟩ := by
    rw [renamed, role]
  rw [isEdited, isRenamed, Option.map_some, finalName]
  cases old : v.oldName.isSome with
  | false =>
      rw [old, if_neg (by simp)] at owned
      rw [owned, Option.none_or] at isRenamer
      have unchanged := ((named_varDecl vMem).unchanged (by simpa using old)).1
      have sameCaptor : captor text ⟨t.path, v.name, true, .use (.init id)⟩ = captor text t := by
        rw [unchanged, sameName]
        rfl
      rw [replacedAll_varDeclsOf wellFormed rfl, sameCaptor, isRenamer, unchanged, sameName]
      intro e isCaptor
      rw [sameCaptor, ← isRenamer] at isCaptor
      exact once e isCaptor
  | true =>
      rw [old, if_pos rfl] at owned
      rw [owned, Option.some_or] at isRenamer
      have isNew := newName_eq wellFormed (mem_renamings.mpr ⟨vMem, old⟩)
      have uncaptured : captor text ⟨t.path, v.name, true, .use (.init id)⟩ = none := by
        rw [captor, List.find?_eq_none]
        intro e eMem matched
        rw [Bool.and_eq_true, beq_iff_eq, decide_eq_true_iff] at matched
        exact once v.decl isRenamer e eMem (matched.1.trans isNew.symm) matched.2
      rw [replacedAll_varDeclsOf wellFormed rfl, uncaptured, isRenamer]
      · simp [isNew]
      · intro e isCaptor
        rw [uncaptured] at isCaptor
        cases isCaptor

omit wellFormed fresh in
theorem renamed_of_not_init {t : Occurrence} (notInit : ∀ id, t.role ≠ .init id .moved) :
    renamed text t = { t with name := finalName text t } := by
  obtain ⟨path, name, written, role⟩ := t
  cases role with
  | decl id status uses simple hidden => rfl
  | use use => rfl
  | init id status =>
      cases status with
      | moved => exact absurd rfl (notInit id)
      | listed => rfl
      | dropped => rfl
      | kept => rfl

omit wellFormed fresh in
theorem renamer_of_stays {t : Occurrence} (stays : t.stays = true)
    (notInit : ∀ id, t.role ≠ .init id .moved) :
    renamer text t = if t.written then captor text t else none := by
  obtain ⟨path, name, written, role⟩ := t
  cases role with
  | use use => rfl
  | decl id status uses simple hidden =>
      cases status with
      | moved => cases stays
      | listed => rfl
      | dropped => rfl
      | kept => rfl
  | init id status =>
      cases status with
      | moved => exact absurd rfl (notInit id)
      | listed => rfl
      | dropped => rfl
      | kept => rfl

/-- What the pass makes of an identifier that stays. -/
theorem edited_eq {t : Occurrence} (tMem : t ∈ text) (stays : t.stays = true) :
    (edited (varDeclsOf text) t).map (replacedAll (varDeclsOf text)) = some (renamed text t) := by
  by_cases isInit : ∃ id, t.role = .init id .moved
  · obtain ⟨id, role⟩ := isInit
    exact edited_init wellFormed fresh tMem role
  · have notInit : ∀ id, t.role ≠ .init id .moved := fun id role => isInit ⟨id, role⟩
    have isRenamer : renamer text t = if t.written then captor text t else none :=
      renamer_of_stays stays notInit
    rw [edited_of_stays stays notInit, Option.map_some, renamed_of_not_init notInit, finalName,
      isRenamer]
    by_cases written : t.written = true
    · rw [if_pos written] at isRenamer ⊢
      rw [replacedAll_varDeclsOf wellFormed written]
      exact fun d isCaptor => fresh.once t tMem stays d (isRenamer.trans isCaptor)
    · rw [if_neg written, replacedAll_of_unmatched]
      · rfl
      · intro v _
        simp [renames, written]

end Names

end Hecaton.Pass1
