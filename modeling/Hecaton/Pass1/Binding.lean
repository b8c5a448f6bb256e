import Hecaton.Pass1.Renaming

/-!
# The outermost scope after the pass

The text after the pass is that of the inserted declarations, then every identifier
that stays under its final name.  From this follows which names the outermost scope
declares and when it declares none of them twice.
-/

namespace Hecaton.Pass1

open Hecaton.Library

/-! ## The text before a use -/

/-- A declaration that is moved, where the pass inserts it. -/
def onTop (text : List Occurrence) (d : Occurrence) : Occurrence where
  path := []
  name := finalName text d
  written := true
  role :=
    match d.role with
    | .decl id _ uses declares _ => .decl id .listed uses declares true
    | role => role

/-- What the pass inserts behind the opening brace for a part of the text. -/
def inserted (text part : List Occurrence) : List Occurrence :=
  (part.filter fun t => t.declares .moved).map (onTop text)

/-- What is left of a part of the text after the pass. -/
def afterPass (text part : List Occurrence) : List Occurrence :=
  (part.filter Occurrence.stays).map (renamed text)

theorem mem_inserted {text part : List Occurrence} {e : Occurrence} :
    e ∈ inserted text part ↔ ∃ d ∈ part, d.declares .moved = true ∧ e = onTop text d := by
  constructor
  · intro eMem
    obtain ⟨d, dMem, rfl⟩ := List.mem_map.mp eMem
    exact ⟨d, (List.mem_filter.mp dMem).1, (List.mem_filter.mp dMem).2, rfl⟩
  · rintro ⟨d, dMem, moved, rfl⟩
    exact List.mem_map_of_mem (List.mem_filter.mpr ⟨dMem, moved⟩)

theorem inserted_append (text first second : List Occurrence) :
    inserted text (first ++ second) = inserted text first ++ inserted text second := by
  simp [inserted]

theorem afterPass_append (text first second : List Occurrence) :
    afterPass text (first ++ second) = afterPass text first ++ afterPass text second := by
  simp [afterPass]

theorem onTop_declId? (text : List Occurrence) {d : Occurrence} (moved : d.declares .moved = true) :
    (onTop text d).declId? = d.declId? := by
  obtain ⟨id, uses, simple, hidden, role⟩ := declares_eq_true_iff.mp moved
  simp [onTop, Occurrence.declId?, role]

theorem onTop_uses (text : List Occurrence) {d : Occurrence} (moved : d.declares .moved = true) :
    (onTop text d).uses = d.uses := by
  obtain ⟨id, uses, simple, hidden, role⟩ := declares_eq_true_iff.mp moved
  simp [onTop, Occurrence.uses, role]

theorem renamed_declId? (text : List Occurrence) (t : Occurrence) :
    (renamed text t).declId? = t.declId? := by
  obtain ⟨path, name, written, role⟩ := t
  cases role with
  | init id status => cases status <;> rfl
  | decl id status uses simple hidden => rfl
  | use use => rfl

theorem renamed_isDecl (text : List Occurrence) (t : Occurrence) :
    (renamed text t).isDecl = t.isDecl := by
  rw [Occurrence.isDecl, renamed_declId?, Occurrence.isDecl]

theorem isDecl_of_declares {t : Occurrence} {status : Status}
    (declares : t.declares status = true) : t.isDecl = true := by
  obtain ⟨id, uses, simple, hidden, role⟩ := declares_eq_true_iff.mp declares
  simp [Occurrence.isDecl, Occurrence.declId?, role]

theorem not_stays_of_moved {t : Occurrence} (moved : t.declares .moved = true) :
    t.stays = false := by
  obtain ⟨id, uses, simple, hidden, role⟩ := declares_eq_true_iff.mp moved
  rw [Occurrence.stays, role]
  rfl

/-- What does not stay is taken out of its place. -/
theorem edited_of_not_stays {t : Occurrence} (leaves : t.stays = false) (varDecls : List VarDecl) :
    edited varDecls t = none := by
  obtain ⟨path, name, written, role⟩ := t
  cases role with
  | use use => cases leaves
  | decl id status uses simple hidden => cases status <;> first | rfl | cases leaves
  | init id status => cases status <;> first | rfl | cases leaves

section Text

variable {params : List String} {text : List Occurrence} (wellFormed : WellFormed text)

include wellFormed

/-- A declaration that is moved gets its own new name, if any. -/
theorem renamer_of_declares_moved {d : Occurrence} (dMem : d ∈ text)
    (moved : d.declares .moved = true) :
    renamer text d = if d ∈ duplicates text then some d else none := by
  obtain ⟨v, vMem, rfl⟩ := exists_varDecl dMem moved
  obtain ⟨id, uses, simple, hidden, role, isId⟩ := varDecl_declId? vMem
  rw [renamer_of_moved role, own_eq wellFormed vMem isId]
  have isDuplicate : v.decl ∈ duplicates text ↔ v.oldName.isSome = true := by
    rw [mem_duplicates]
    constructor
    · rintro ⟨w, wMem, sameDecl⟩
      obtain ⟨wMem, wOld⟩ := mem_renamings.mp wMem
      have same := wellFormed.distinct.varDecl_eq wMem vMem (sameDecl ▸ isId) isId
      rwa [same] at wOld
    · intro old
      exact ⟨v, mem_renamings.mpr ⟨vMem, old⟩, rfl⟩
  simp only [isDuplicate]

/-- It is declared under the name that it then has. -/
theorem finalName_varDecl {v : VarDecl} (vMem : v ∈ varDeclsOf text) :
    finalName text v.decl = v.name := by
  obtain ⟨id, uses, simple, hidden, role, isId⟩ := varDecl_declId? vMem
  rw [finalName, renamer_of_moved role, own_eq wellFormed vMem isId]
  cases old : v.oldName.isSome with
  | false =>
      rw [if_neg (by simp)]
      exact ((named_varDecl vMem).unchanged (by simpa using old)).1.symm
  | true =>
      rw [if_pos rfl, Option.map_some, newName_eq wellFormed (mem_renamings.mpr ⟨vMem, old⟩)]
      rfl

/-- The pass inserts the declarations that it moves, in order. -/
theorem insertedDecl_varDeclsOf :
    (insertVarDecl (varDeclsOf text)).map insertedDecl = inserted text text := by
  rw [inserted, ← varDeclsOf_decls, insertVarDecl, List.map_map, List.map_map]
  apply List.map_congr_left
  intro v vMem
  obtain ⟨id, uses, simple, hidden, role, _⟩ := varDecl_declId? vMem
  rw [Function.comp_apply, Function.comp_apply, onTop, finalName_varDecl wellFormed vMem,
    VarDecl.inserted, role]
  rfl

/-- An identifier of the outermost block keeps its name. -/
theorem renamer_outermost {k : Occurrence} (kMem : k ∈ text) (isDecl : k.isDecl = true)
    (outermost : k.path = []) : renamer text k = none := by
  have stays : k.stays = true := by
    by_contra leaves
    have placed := wellFormed.placed k kMem
    obtain ⟨path, name, written, role⟩ := k
    cases role with
    | use use => cases isDecl
    | init id status => cases isDecl
    | decl id status uses simple hidden =>
        cases status with
        | listed => exact leaves rfl
        | kept => exact leaves rfl
        | moved => exact placed.moved rfl outermost
        | dropped => exact placed.dropped rfl outermost
  have notInit : ∀ id, k.role ≠ .init id .moved := by
    intro id role
    simp [Occurrence.isDecl, Occurrence.declId?, role] at isDecl
  rw [renamer_of_stays stays notInit]
  split
  · rw [captor, List.find?_eq_none]
    intro d dMem matched
    obtain ⟨inText, moved⟩ := duplicate_mem dMem
    rw [outermost, Bool.and_eq_true, decide_eq_true_iff, List.prefix_nil] at matched
    exact (wellFormed.placed d inText).moved moved matched.2
  · rfl

omit wellFormed in
/-- A declaration with a listed name gets a new one. -/
theorem mem_duplicates_of_listed {d : Occurrence} (dMem : d ∈ text)
    (moved : d.declares .moved = true) (listed : d.name ∈ listedNames text) :
    d ∈ duplicates text := by
  obtain ⟨v, vMem, rfl⟩ := exists_varDecl dMem moved
  cases old : v.oldName.isSome with
  | true => exact mem_duplicates.mpr ⟨v, mem_renamings.mpr ⟨vMem, old⟩, rfl⟩
  | false => exact absurd listed ((named_varDecl vMem).unchanged (by simpa using old)).2

variable (fresh : FreshNames params text)

include fresh

/-- No two of them are declared under one name. -/
theorem moved_unique {first second : Occurrence} (firstMem : first ∈ text)
    (firstMoved : first.declares .moved = true) (secondMem : second ∈ text)
    (secondMoved : second.declares .moved = true)
    (sameName : finalName text first = finalName text second) : first = second := by
  obtain ⟨v, vMem, rfl⟩ := exists_varDecl firstMem firstMoved
  obtain ⟨w, wMem, rfl⟩ := exists_varDecl secondMem secondMoved
  rw [finalName_varDecl wellFormed vMem, finalName_varDecl wellFormed wMem] at sameName
  rw [List.inj_on_of_nodup_map (varDeclsOf_names_nodup wellFormed fresh) vMem wMem sameName]

theorem filterMap_edited {part : List Occurrence} (partOf : part ⊆ text) :
    (part.filterMap (edited (varDeclsOf text))).map (replacedAll (varDeclsOf text)) =
      afterPass text part := by
  induction part with
  | nil => rfl
  | cons t rest ih =>
      have ih := ih (List.subset_of_cons_subset partOf)
      rw [afterPass] at ih ⊢
      cases stays : t.stays with
      | false =>
          rw [List.filterMap_cons_none (edited_of_not_stays stays _), ih,
            List.filter_cons_of_neg (by simp [stays])]
      | true =>
          have isEdited := edited_eq wellFormed fresh (partOf List.mem_cons_self) stays
          obtain ⟨t', isEdited, isRenamed⟩ := Option.map_eq_some_iff.mp isEdited
          rw [List.filterMap_cons_some isEdited, List.map_cons, isRenamed, ih,
            List.filter_cons_of_pos stays, List.map_cons]

/-- The text after the pass. -/
theorem hoistedText_eq : hoistedText text = inserted text text ++ afterPass text text := by
  rw [hoistedText, filterMap_edited wellFormed fresh (List.Subset.refl text),
    insertedDecl_varDeclsOf wellFormed]

end Text

/-! ## The outermost names -/

/-- No declaration that is moved has the name of a parameter, or of a declaration
of the outermost block that the pass does not list. -/
def MeetsNoOutermost (params : List String) (text : List Occurrence) : Prop :=
  ∀ d ∈ text, d.declares .moved = true →
    d.name ∉ params ∧ ∀ k ∈ text, k.declares .kept = true → k.path = [] → k.name ≠ d.name

/-- The declarations of the outermost block. -/
def outermostDecls (text : List Occurrence) : List Occurrence :=
  text.filter fun t => t.isDecl && t.path == []

theorem mem_outermostDecls {text : List Occurrence} {t : Occurrence} :
    t ∈ outermostDecls text ↔ t ∈ text ∧ t.isDecl = true ∧ t.path = [] := by
  simp [outermostDecls]

theorem declares_of_isDecl {t : Occurrence} (isDecl : t.isDecl = true) :
    t.declares .listed = true ∨ t.declares .moved = true ∨ t.declares .dropped = true ∨
      t.declares .kept = true := by
  obtain ⟨path, name, written, role⟩ := t
  cases role with
  | init id status => simp [Occurrence.isDecl, Occurrence.declId?] at isDecl
  | use use => simp [Occurrence.isDecl, Occurrence.declId?] at isDecl
  | decl id status uses simple hidden => cases status <;> simp [Occurrence.declares]

theorem declares_unique {t : Occurrence} {first second : Status}
    (declaresFirst : t.declares first = true) (declaresSecond : t.declares second = true) :
    first = second := by
  obtain ⟨id, uses, simple, hidden, role⟩ := declares_eq_true_iff.mp declaresFirst
  simpa [Occurrence.declares, role] using declaresSecond

/-- A declaration of the outermost block is listed or kept. -/
theorem declares_of_outermost {t : Occurrence} (placed : Placed t) (isDecl : t.isDecl = true)
    (outermost : t.path = []) : t.declares .listed = true ∨ t.declares .kept = true := by
  rcases declares_of_isDecl isDecl with listed | moved | dropped | kept
  · exact Or.inl listed
  · exact absurd outermost (placed.moved moved)
  · exact absurd outermost (placed.dropped dropped)
  · exact Or.inr kept

theorem stays_of_outermost {t : Occurrence} (placed : Placed t) (isDecl : t.isDecl = true)
    (outermost : t.path = []) : t.stays = true := by
  rcases declares_of_outermost placed isDecl outermost with listed | kept
  · obtain ⟨id, uses, simple, hidden, role⟩ := declares_eq_true_iff.mp listed
    rw [Occurrence.stays, role]
    rfl
  · obtain ⟨id, uses, simple, hidden, role⟩ := declares_eq_true_iff.mp kept
    rw [Occurrence.stays, role]
    rfl

theorem mem_listedNames {text : List Occurrence} {name : String} :
    name ∈ listedNames text ↔ ∃ k ∈ text, k.declares .listed = true ∧ k.name = name := by
  simp [listedNames, and_assoc]

section Outermost

variable {params : List String} {text : List Occurrence} (wellFormed : WellFormed text)

include wellFormed

/-- A listed name belongs to no parameter and to no other outermost declaration. -/
theorem apart_of_listed (valid : (outermostNames params text).Nodup) {name : String}
    (listed : name ∈ listedNames text) :
    name ∉ params ∧ ∀ k ∈ text, k.declares .kept = true → k.path = [] → k.name ≠ name := by
  obtain ⟨l, lMem, isListed, rfl⟩ := mem_listedNames.mp listed
  have lOutermost : l ∈ outermostDecls text :=
    mem_outermostDecls.mpr
      ⟨lMem, isDecl_of_declares isListed, (wellFormed.placed l lMem).listed isListed⟩
  have apart := List.nodup_append.mp valid
  constructor
  · intro isParam
    exact apart.2.2 _ isParam _ (List.mem_map_of_mem lOutermost) rfl
  · intro k kMem kept outermost sameName
    have kOutermost : k ∈ outermostDecls text :=
      mem_outermostDecls.mpr ⟨kMem, isDecl_of_declares kept, outermost⟩
    have same := List.inj_on_of_nodup_map apart.2.1 kOutermost lOutermost sameName
    rw [same] at kept
    cases declares_unique kept isListed

variable (fresh : FreshNames params text)

include fresh

/-- The outermost names after the pass: those of the inserted declarations come
between the parameters and the rest. -/
theorem outermostNames_hoistedText :
    outermostNames params (hoistedText text) =
      params ++ ((varDeclsOf text).map VarDecl.name ++
        (outermostDecls text).map Occurrence.name) := by
  rw [hoistedText_eq wellFormed fresh, outermostNames, List.filter_append, List.map_append]
  congr 2
  · have all : ((inserted text text).filter fun t => t.isDecl && t.path == []) =
        inserted text text := by
      rw [List.filter_eq_self]
      intro e eMem
      obtain ⟨d, _, moved, rfl⟩ := mem_inserted.mp eMem
      rw [Occurrence.isDecl, onTop_declId? text moved, ← Occurrence.isDecl,
        isDecl_of_declares moved]
      rfl
    rw [all, inserted, ← varDeclsOf_decls, List.map_map, List.map_map]
    exact List.map_congr_left fun v vMem => finalName_varDecl wellFormed vMem
  · rw [afterPass, List.filter_map, List.filter_filter, List.map_map, outermostDecls]
    have sameDecls : (text.filter fun t =>
        ((fun t => t.isDecl && t.path == []) ∘ renamed text) t && t.stays) =
        text.filter fun t => t.isDecl && t.path == [] := by
      apply List.filter_congr
      intro t tMem
      have samePath : (renamed text t).path = t.path := rfl
      rw [Function.comp_apply, renamed_isDecl, samePath]
      cases outermost : t.isDecl && t.path == [] with
      | false => simp
      | true =>
          rw [Bool.and_eq_true, beq_iff_eq] at outermost
          simp [stays_of_outermost (wellFormed.placed t tMem) outermost.1 outermost.2]
    rw [sameDecls]
    apply List.map_congr_left
    intro t tMem
    obtain ⟨inText, isDecl, outermost⟩ := mem_outermostDecls.mp tMem
    have unrenamed := renamer_outermost wellFormed inText isDecl outermost
    simp [renamed, finalName, unrenamed]

/-- Where the outermost names are still distinct, no declaration that is moved has met one: the
first of its name that is moved would have kept the name. -/
theorem notOutermost_of_nodup (valid : (outermostNames params text).Nodup)
    (nodup : (outermostNames params (hoistedText text)).Nodup) : MeetsNoOutermost params text := by
  rw [outermostNames_hoistedText wellFormed fresh] at nodup
  intro d dMem moved
  have after := List.nodup_append.mp nodup
  have afterDecls := List.nodup_append.mp after.2.1
  by_cases listed : d.name ∈ listedNames text
  · exact apart_of_listed wellFormed valid listed
  by_cases isNew : d.name ∈ newNames text
  · refine ⟨fun isParam => fresh.params _ isParam isNew, ?_⟩
    intro k kMem kept outermost sameName
    have unrenamed := renamer_outermost wellFormed kMem (isDecl_of_declares kept) outermost
    exact fresh.unrenamed k kMem unrenamed (sameName ▸ isNew)
  · have first := @exists_unchanged (listedNames text) 1 text d dMem moved listed
    rw [← varDeclsOf_eq] at first
    obtain ⟨v, vMem, old, sameName⟩ := first fun v vMem isOld same => by
      apply isNew
      rw [← same]
      exact List.mem_map_of_mem (mem_renamings.mpr ⟨vMem, isOld⟩)
    have isName : d.name ∈ (varDeclsOf text).map VarDecl.name := by
      rw [← sameName, ← ((named_varDecl vMem).unchanged old).1]
      exact List.mem_map_of_mem vMem
    constructor
    · intro isParam
      exact after.2.2 _ isParam _ (List.mem_append_left _ isName) rfl
    · intro k kMem kept outermost sameName
      have kOutermost : k ∈ outermostDecls text :=
        mem_outermostDecls.mpr ⟨kMem, isDecl_of_declares kept, outermost⟩
      exact afterDecls.2.2 _ isName _ (List.mem_map_of_mem kOutermost) sameName.symm

/-- Where no declaration that is moved meets an outermost name, the inserted names are none of
the parameters' or of the outermost block's. -/
theorem inserted_apart (meetsNone : MeetsNoOutermost params text) {v : VarDecl}
    (vMem : v ∈ varDeclsOf text) :
    v.name ∉ params ∧ v.name ∉ (outermostDecls text).map Occurrence.name := by
  obtain ⟨vDecl, moved⟩ := decl_of_mem_varDeclsOf vMem
  cases old : v.oldName.isSome with
  | false =>
      obtain ⟨ownName, notListed⟩ := (named_varDecl vMem).unchanged (by simpa using old)
      rw [ownName]
      refine ⟨(meetsNone v.decl vDecl moved).1, ?_⟩
      intro isOutermost
      obtain ⟨k, kMem, sameName⟩ := List.mem_map.mp isOutermost
      obtain ⟨inText, isDecl, outermost⟩ := mem_outermostDecls.mp kMem
      rcases declares_of_outermost (wellFormed.placed k inText) isDecl outermost with listed | kept
      · exact notListed (mem_listedNames.mpr ⟨k, inText, listed, sameName⟩)
      · exact (meetsNone v.decl vDecl moved).2 k inText kept outermost sameName
  | true =>
      have isNew : v.name ∈ newNames text :=
        List.mem_map_of_mem (mem_renamings.mpr ⟨vMem, old⟩)
      refine ⟨fun isParam => fresh.params _ isParam isNew, ?_⟩
      intro isOutermost
      obtain ⟨k, kMem, sameName⟩ := List.mem_map.mp isOutermost
      obtain ⟨inText, isDecl, outermost⟩ := mem_outermostDecls.mp kMem
      exact fresh.unrenamed k inText (renamer_outermost wellFormed inText isDecl outermost)
        (sameName ▸ isNew)

/-- The outermost scope declares no name twice after the pass exactly when no
declaration that is moved meets an outermost name. -/
theorem outermostNames_nodup_iff (valid : (outermostNames params text).Nodup) :
    (outermostNames params (hoistedText text)).Nodup ↔ MeetsNoOutermost params text := by
  refine ⟨notOutermost_of_nodup wellFormed fresh valid, ?_⟩
  intro meetsNone
  rw [outermostNames_hoistedText wellFormed fresh]
  have before := List.nodup_append.mp valid
  rw [List.nodup_append]
  refine ⟨before.1, ?_, ?_⟩
  · rw [List.nodup_append]
    refine ⟨varDeclsOf_names_nodup wellFormed fresh, before.2.1, ?_⟩
    rintro name isName _ isOther rfl
    obtain ⟨v, vMem, rfl⟩ := List.mem_map.mp isName
    exact (inserted_apart wellFormed fresh meetsNone vMem).2 isOther
  · rintro name isParam _ isOther rfl
    rcases List.mem_append.mp isOther with isNew | isOld
    · obtain ⟨v, vMem, rfl⟩ := List.mem_map.mp isNew
      exact (inserted_apart wellFormed fresh meetsNone vMem).1 isParam
    · exact before.2.2 name isParam name isOld rfl

end Outermost

end Hecaton.Pass1
