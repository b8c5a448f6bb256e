import Hecaton.Pass1.Binding

/-!
# The pass and the meaning of names

A use keeps its declaration when both get their names from the same declaration and
nothing in between takes the name.  A use in a type that is moved keeps it when that is
moved before it under its own name.  For every function in which no new name meets
another one it is said here exactly when the pass keeps what all uses mean and declares
no name of the outermost scope twice.
-/

namespace Hecaton.Pass1

open Hecaton.Library

/-- The use keeps its meaning: what it means is not commented out, and the use gets its name
from the same declaration.  When that is moved, no declaration that stays in a block
around the use has the same name then; when the use means no declaration, every
declaration of its name that is moved gets a new name. -/
def KeepsUse (text before : List Occurrence) (t : Occurrence) : Prop :=
  match declOf before t.name t.path with
  | some d =>
      d.declares .dropped = false ∧ renamer text t = renamer text d ∧
        (d.declares .moved = true → ∀ k ∈ before, k.isDecl = true → k.stays = true →
          k.path ≠ [] → k.path <+: t.path → k.name = t.name → renamer text k ≠ renamer text t)
  | none =>
      renamer text t = none ∧
        ∀ d ∈ text, d.declares .moved = true → d.name = t.name → d ∈ duplicates text

/-- The use of a name in a type that is moved keeps its meaning: what it means is moved too
and keeps its name; when it means no declaration, every declaration of its name that is
moved before it gets a new name. -/
def KeepsTypeUse (text before : List Occurrence) (name : String) (path : List Nat) : Prop :=
  match declOf before name path with
  | some d => d.declares .moved = true ∧ d ∉ duplicates text
  | none => ∀ d ∈ before, d.declares .moved = true → d.name = name → d ∈ duplicates text

/-- The uses at an identifier keep their meanings. -/
def KeepsUses (text before : List Occurrence) (t : Occurrence) : Prop :=
  if t.stays then t.uses ≠ [] → KeepsUse text before t
  else if t.declares .moved then ∀ use ∈ t.uses, KeepsTypeUse text before use.2 t.path
  else t.uses = []

/-! ## What a name means -/

theorem mem_declsIn {before : List Occurrence} {name : String} {scope : List Nat} {t : Occurrence} :
    t ∈ declsIn before name scope ↔
      t ∈ before ∧ t.isDecl = true ∧ t.name = name ∧ t.path = scope := by
  simp [declsIn, and_assoc]

theorem declsIn_append (first second : List Occurrence) (name : String) (scope : List Nat) :
    declsIn (first ++ second) name scope = declsIn first name scope ++ declsIn second name scope :=
  List.filter_append ..

theorem declOf_spec {before : List Occurrence} {name : String} {path : List Nat} {d : Occurrence}
    (found : declOf before name path = some d) :
    d ∈ before ∧ d.isDecl = true ∧ d.name = name ∧ d.path <+: path := by
  obtain ⟨scope, scopeMem, dMem⟩ := exists_of_lookup found
  obtain ⟨inBefore, isDecl, sameName, rfl⟩ := mem_declsIn.mp dMem
  refine ⟨inBefore, isDecl, sameName, ?_⟩
  rcases List.mem_append.mp scopeMem with nested | outermost
  · exact (mem_nestedScopes.mp nested).1
  · rw [List.mem_singleton.mp outermost]
    exact List.nil_prefix

theorem resolve_of_declOf {params : List String} {before : List Occurrence} {name : String}
    {path : List Nat} {d : Occurrence} {id : Nat} (found : declOf before name path = some d)
    (isId : d.declId? = some id) : resolve params before name path = .decl id := by
  simp [resolve, found, isId]

theorem resolve_of_none {params : List String} {before : List Occurrence} {name : String}
    {path : List Nat} (notFound : declOf before name path = none) :
    resolve params before name path = if name ∈ params then .param name else .outside name := by
  simp [resolve, notFound]

theorem resolve_eq_decl_iff {params : List String} {before : List Occurrence} {name : String}
    {path : List Nat} {id : Nat} :
    resolve params before name path = .decl id ↔
      ∃ d, declOf before name path = some d ∧ d.declId? = some id := by
  constructor
  · intro means
    cases found : declOf before name path with
    | none =>
        rw [resolve_of_none found] at means
        split at means <;> cases means
    | some d =>
        obtain ⟨own, isId⟩ := Option.isSome_iff_exists.mp (declOf_spec found).2.1
        rw [resolve_of_declOf found isId] at means
        cases means
        exact ⟨d, rfl, isId⟩
  · rintro ⟨d, found, isId⟩
    exact resolve_of_declOf found isId

/-! ## What a use means after the pass -/

/-- The declaration stays, and gets its name from the same declaration as the use. -/
def staysWith (text : List Occurrence) (t k : Occurrence) : Bool :=
  k.stays && renamer text k == renamer text t

/-- The inserted declarations with the name that the use has after the pass. -/
def insertedFor (text : List Occurrence) (t : Occurrence) : List Occurrence :=
  (inserted text text).filter fun e => e.name == finalName text t

/-- What is inserted is declared in the outermost block. -/
theorem declsIn_inserted (text part : List Occurrence) (name : String) (scope : List Nat) :
    declsIn (inserted text part) name scope =
      if scope = [] then (inserted text part).filter fun e => e.name == name else [] := by
  split
  · rename_i outermost
    rw [declsIn, outermost]
    apply List.filter_congr
    intro e eMem
    obtain ⟨d, _, moved, rfl⟩ := mem_inserted.mp eMem
    have isDecl : (onTop text d).isDecl = true := by
      rw [Occurrence.isDecl, onTop_declId? text moved, ← Occurrence.isDecl,
        isDecl_of_declares moved]
    have onTopPath : ((onTop text d).path == []) = true := rfl
    rw [isDecl, onTopPath, Bool.true_and, Bool.and_true]
  · rename_i nested
    rw [declsIn, List.filter_eq_nil_iff]
    intro e eMem
    obtain ⟨d, _, moved, rfl⟩ := mem_inserted.mp eMem
    have notHere : ((onTop text d).path == scope) = false := by
      simpa [onTop] using Ne.symm nested
    simp [notHere]

/-- No declaration of a nested block that stays takes the name of the use. -/
theorem nested_eq_none_iff {text before : List Occurrence} {t : Occurrence} :
    (lookup (nestedScopes t.path) fun scope =>
      (declsIn before t.name scope).filter (staysWith text t)) = none ↔
      ∀ k ∈ before, k.isDecl = true → k.stays = true → k.path ≠ [] →
        k.path <+: t.path → k.name = t.name → renamer text k ≠ renamer text t := by
  rw [lookup_eq_none_iff]
  constructor
  · intro noneFound k kMem isDecl stays nested around sameName sameRenamer
    have kIn : k ∈ (declsIn before t.name k.path).filter (staysWith text t) :=
      List.mem_filter.mpr ⟨mem_declsIn.mpr ⟨kMem, isDecl, sameName, rfl⟩,
        by simp [staysWith, stays, sameRenamer]⟩
    rw [noneFound k.path (mem_nestedScopes.mpr ⟨around, nested⟩)] at kIn
    exact List.not_mem_nil kIn
  · intro noneTakes scope scopeMem
    obtain ⟨around, nested⟩ := mem_nestedScopes.mp scopeMem
    rw [List.filter_eq_nil_iff]
    intro k kMem
    obtain ⟨inBefore, isDecl, sameName, rfl⟩ := mem_declsIn.mp kMem
    intro stays
    rw [staysWith, Bool.and_eq_true, beq_iff_eq] at stays
    exact noneTakes k inBefore isDecl stays.1 nested around sameName stays.2

section Use

variable {params : List String} {text : List Occurrence} (wellFormed : WellFormed text)
  (fresh : FreshNames params text)

include wellFormed fresh

theorem declsIn_afterPass {before : List Occurrence} (partOf : before ⊆ text) {t : Occurrence}
    (tMem : t ∈ text) (scope : List Nat) :
    declsIn (afterPass text before) (finalName text t) scope =
      ((declsIn before t.name scope).filter (staysWith text t)).map (renamed text) := by
  rw [declsIn, afterPass, List.filter_map, declsIn, List.filter_filter, List.filter_filter]
  congr 1
  apply List.filter_congr
  intro k kMem
  have sameName : ((renamed text k).name == finalName text t) =
      (k.name == t.name && renamer text k == renamer text t) := by
    rw [Bool.eq_iff_iff, Bool.and_eq_true, beq_iff_eq, beq_iff_eq, beq_iff_eq]
    exact finalName_eq_iff wellFormed fresh (partOf kMem) tMem
  have samePath : (renamed text k).path = k.path := rfl
  rw [Function.comp_apply, renamed_isDecl, sameName, staysWith, samePath]
  cases k.isDecl <;> cases k.stays <;> cases (k.name == t.name) <;>
    cases (k.path == scope) <;> simp

/-- The declaration a use means after the pass: the innermost in a nested block that
stays and has its name, else the last such one of the outermost block. -/
theorem declOf_afterPass {before : List Occurrence} (partOf : before ⊆ text) {t : Occurrence}
    (tMem : t ∈ text) :
    declOf (inserted text text ++ afterPass text before) (finalName text t) t.path =
      ((lookup (nestedScopes t.path) fun scope =>
        (declsIn before t.name scope).filter (staysWith text t)).map (renamed text)).or
      (insertedFor text t ++
        ((declsIn before t.name []).filter (staysWith text t)).map (renamed text)).getLast? := by
  have nested : lookup (nestedScopes t.path)
      (declsIn (inserted text text ++ afterPass text before) (finalName text t)) =
      lookup (nestedScopes t.path) fun scope =>
        ((declsIn before t.name scope).filter (staysWith text t)).map (renamed text) := by
    apply lookup_congr
    intro scope scopeMem
    rw [declsIn_append, declsIn_inserted, if_neg (mem_nestedScopes.mp scopeMem).2,
      declsIn_afterPass wellFormed fresh partOf tMem, List.nil_append]
  rw [declOf, lookup_append, nested, lookup_map, lookup_singleton, declsIn_append,
    declsIn_inserted, if_pos rfl, declsIn_afterPass wellFormed fresh partOf tMem]
  rfl

theorem mem_insertedFor {t : Occurrence} (tMem : t ∈ text) {e : Occurrence} :
    e ∈ insertedFor text t ↔
      ∃ d ∈ text, d.declares .moved = true ∧ d.name = t.name ∧ renamer text d = renamer text t ∧
        e = onTop text d := by
  rw [insertedFor, List.mem_filter, mem_inserted, beq_iff_eq]
  constructor
  · rintro ⟨⟨d, dMem, moved, rfl⟩, sameName⟩
    obtain ⟨name, giver⟩ := (finalName_eq_iff wellFormed fresh dMem tMem).mp sameName
    exact ⟨d, dMem, moved, name, giver, rfl⟩
  · rintro ⟨d, dMem, moved, name, giver, rfl⟩
    exact ⟨⟨d, dMem, moved, rfl⟩, (finalName_eq_iff wellFormed fresh dMem tMem).mpr ⟨name, giver⟩⟩

/-- What a use may mean after the pass. -/
theorem declOf_afterPass_cases {before : List Occurrence} (partOf : before ⊆ text) {t : Occurrence}
    (tMem : t ∈ text) {e : Occurrence}
    (found : declOf (inserted text text ++ afterPass text before) (finalName text t) t.path =
      some e) :
    (∃ k ∈ before, k.stays = true ∧ renamer text k = renamer text t ∧
        e.declId? = k.declId?) ∨
      (lookup (nestedScopes t.path) fun scope =>
          (declsIn before t.name scope).filter (staysWith text t)) = none ∧
        ∃ d ∈ text, d.declares .moved = true ∧ d.name = t.name ∧
          renamer text d = renamer text t ∧ e.declId? = d.declId? := by
  have ofStays : ∀ scope, ∀ k ∈ (declsIn before t.name scope).filter (staysWith text t),
      k ∈ before ∧ k.stays = true ∧ renamer text k = renamer text t := by
    intro scope k kMem
    obtain ⟨inScope, stays⟩ := List.mem_filter.mp kMem
    rw [staysWith, Bool.and_eq_true, beq_iff_eq] at stays
    exact ⟨(mem_declsIn.mp inScope).1, stays⟩
  rw [declOf_afterPass wellFormed fresh partOf tMem, Option.or_eq_some_iff] at found
  rcases found with nested | ⟨noneNested, outermost⟩
  · obtain ⟨k, looked, rfl⟩ := Option.map_eq_some_iff.mp nested
    obtain ⟨scope, _, kMem⟩ := exists_of_lookup looked
    obtain ⟨inBefore, stays, sameRenamer⟩ := ofStays scope k kMem
    exact Or.inl ⟨k, inBefore, stays, sameRenamer, renamed_declId? text k⟩
  · rcases List.mem_append.mp (List.mem_of_getLast? outermost) with isInserted | isOld
    · obtain ⟨d, dMem, moved, sameName, sameRenamer, rfl⟩ :=
        (mem_insertedFor wellFormed fresh tMem).mp isInserted
      exact Or.inr ⟨Option.map_eq_none_iff.mp noneNested, d, dMem, moved, sameName, sameRenamer,
        onTop_declId? text moved⟩
    · obtain ⟨k, kMem, rfl⟩ := List.mem_map.mp isOld
      obtain ⟨inBefore, stays, sameRenamer⟩ := ofStays [] k kMem
      exact Or.inl ⟨k, inBefore, stays, sameRenamer, renamed_declId? text k⟩

/-- What a use means after the pass is not commented out. -/
theorem resolve_afterPass_ne_of_dropped {before : List Occurrence} (partOf : before ⊆ text)
    {t d : Occurrence} (tMem : t ∈ text) (dMem : d ∈ text) (dropped : d.declares .dropped = true)
    {id : Nat} (isId : d.declId? = some id) :
    resolve params (inserted text text ++ afterPass text before) (finalName text t) t.path ≠
      .decl id := by
  intro means
  obtain ⟨e, foundAfter, sameId⟩ := resolve_eq_decl_iff.mp means
  rcases declOf_afterPass_cases wellFormed fresh partOf tMem foundAfter with
    ⟨k, kMem, stays, _, kId⟩ | ⟨_, k, kMem, moved, _, _, kId⟩
  · have same := eq_of_nodup_filterMap wellFormed.distinct (partOf kMem) dMem
      (kId.symm.trans sameId) isId
    obtain ⟨_, _, _, _, role⟩ := declares_eq_true_iff.mp dropped
    rw [same, Occurrence.stays, role] at stays
    cases stays
  · have same := eq_of_nodup_filterMap wellFormed.distinct kMem dMem (kId.symm.trans sameId) isId
    rw [same] at moved
    cases declares_unique moved dropped

/-- A use of a declaration that stays keeps it when both get their names from the
same declaration, and only then. -/
theorem resolve_afterPass_of_stays {before : List Occurrence} (partOf : before ⊆ text)
    {t d : Occurrence} (tMem : t ∈ text) (found : declOf before t.name t.path = some d)
    (stays : d.stays = true) {id : Nat} (isId : d.declId? = some id) :
    resolve params (inserted text text ++ afterPass text before) (finalName text t) t.path =
        .decl id ↔
      renamer text t = renamer text d := by
  obtain ⟨dMem, isDecl, sameName, _⟩ := declOf_spec found
  rw [resolve_eq_decl_iff]
  constructor
  · rintro ⟨e, foundAfter, sameId⟩
    rcases declOf_afterPass_cases wellFormed fresh partOf tMem foundAfter with
      ⟨k, kMem, _, sameRenamer, kId⟩ | ⟨_, k, kMem, moved, _, _, kId⟩
    · have same := eq_of_nodup_filterMap wellFormed.distinct (partOf kMem) (partOf dMem)
        (kId.symm.trans sameId) isId
      rw [← sameRenamer, same]
    · have same := eq_of_nodup_filterMap wellFormed.distinct kMem (partOf dMem)
        (kId.symm.trans sameId) isId
      rw [not_stays_of_moved (same ▸ moved)] at stays
      cases stays
  · intro sameRenamer
    refine ⟨renamed text d, ?_, (renamed_declId? text d).trans isId⟩
    have dStays : staysWith text t d = true := by simp [staysWith, stays, sameRenamer]
    have kept := lookup_filter_of_stays found dStays
    rw [lookup_append, lookup_singleton, Option.or_eq_some_iff] at kept
    rw [declOf_afterPass wellFormed fresh partOf tMem]
    rcases kept with nested | ⟨noneNested, outermost⟩
    · rw [nested]
      rfl
    · rw [noneNested, Option.map_none, Option.none_or, List.getLast?_append, List.getLast?_map,
        outermost]
      rfl

/-- A use of a declaration that is moved keeps it when both get their names from the
same declaration and no declaration that stays takes the name, and only then. -/
theorem resolve_afterPass_of_moved (meetsNone : MeetsNoOutermost params text)
    {before : List Occurrence} (partOf : before ⊆ text) {t d : Occurrence} (tMem : t ∈ text)
    (found : declOf before t.name t.path = some d) (moved : d.declares .moved = true) {id : Nat}
    (isId : d.declId? = some id) :
    resolve params (inserted text text ++ afterPass text before) (finalName text t) t.path =
        .decl id ↔
      renamer text t = renamer text d ∧
        ∀ k ∈ before, k.isDecl = true → k.stays = true → k.path ≠ [] → k.path <+: t.path →
          k.name = t.name → renamer text k ≠ renamer text t := by
  obtain ⟨dBefore, _, sameName, _⟩ := declOf_spec found
  have dMem := partOf dBefore
  rw [resolve_eq_decl_iff, ← nested_eq_none_iff]
  constructor
  · rintro ⟨e, foundAfter, sameId⟩
    rcases declOf_afterPass_cases wellFormed fresh partOf tMem foundAfter with
      ⟨k, kMem, stays, _, kId⟩ | ⟨noneNested, k, kMem, _, _, sameRenamer, kId⟩
    · have same := eq_of_nodup_filterMap wellFormed.distinct (partOf kMem) dMem
        (kId.symm.trans sameId) isId
      rw [same, not_stays_of_moved moved] at stays
      cases stays
    · have same := eq_of_nodup_filterMap wellFormed.distinct kMem dMem
        (kId.symm.trans sameId) isId
      rw [← same]
      exact ⟨sameRenamer.symm, noneNested⟩
  · rintro ⟨sameRenamer, noneNested⟩
    -- the outermost block has only the moved declaration under this name
    have noOld : (declsIn before t.name []).filter (staysWith text t) = [] := by
      rw [List.filter_eq_nil_iff]
      intro k kMem kStays
      obtain ⟨kBefore, kDecl, kName, outermost⟩ := mem_declsIn.mp kMem
      rw [staysWith, Bool.and_eq_true, beq_iff_eq] at kStays
      have unrenamed := renamer_outermost wellFormed (partOf kBefore) kDecl outermost
      have dUnrenamed : d ∉ duplicates text := by
        intro isDuplicate
        have own := renamer_of_declares_moved wellFormed dMem moved
        rw [if_pos isDuplicate, ← sameRenamer, ← kStays.2, unrenamed] at own
        cases own
      rcases declares_of_outermost (wellFormed.placed k (partOf kBefore)) kDecl outermost with
        listed | kept
      · apply dUnrenamed
        apply mem_duplicates_of_listed dMem moved
        exact mem_listedNames.mpr ⟨k, partOf kBefore, listed, kName.trans sameName.symm⟩
      · exact (meetsNone d dMem moved).2 k (partOf kBefore) kept outermost
          (kName.trans sameName.symm)
    have isInserted : onTop text d ∈ insertedFor text t :=
      (mem_insertedFor wellFormed fresh tMem).mpr ⟨d, dMem, moved, sameName, sameRenamer.symm, rfl⟩
    have onlyD : ∀ e ∈ insertedFor text t, e.declId? = some id := by
      intro e eMem
      obtain ⟨other, otherMem, otherMoved, otherName, otherRenamer, rfl⟩ :=
        (mem_insertedFor wellFormed fresh tMem).mp eMem
      have same : other = d := by
        apply moved_unique wellFormed fresh otherMem otherMoved dMem moved
        exact (finalName_eq_iff wellFormed fresh otherMem dMem).mpr
          ⟨otherName.trans sameName.symm, otherRenamer.trans sameRenamer⟩
      rw [same, onTop_declId? text moved, isId]
    rw [declOf_afterPass wellFormed fresh partOf tMem, noneNested, noOld, Option.map_none,
      Option.none_or, List.map_nil, List.append_nil]
    obtain ⟨e, isLast⟩ := Option.isSome_iff_exists.mp
      (List.getLast?_isSome.mpr (List.ne_nil_of_mem isInserted))
    exact ⟨e, isLast, onlyD e (List.mem_of_getLast? isLast)⟩

/-- A use that means no declaration keeps its meaning when it keeps its name and every
declaration of that name that is moved gets a new one, and only then. -/
theorem resolve_afterPass_of_none {before : List Occurrence} (partOf : before ⊆ text)
    {t : Occurrence} (tMem : t ∈ text) (notFound : declOf before t.name t.path = none) :
    resolve params (inserted text text ++ afterPass text before) (finalName text t) t.path =
        resolve params before t.name t.path ↔
      renamer text t = none ∧
        ∀ d ∈ text, d.declares .moved = true → d.name = t.name → d ∈ duplicates text := by
  have noDecls : ∀ scope ∈ nestedScopes t.path ++ [[]], declsIn before t.name scope = [] :=
    lookup_eq_none_iff.mp notFound
  have declAfter : declOf (inserted text text ++ afterPass text before) (finalName text t) t.path =
      (insertedFor text t).getLast? := by
    have noneNested : (lookup (nestedScopes t.path) fun scope =>
        (declsIn before t.name scope).filter (staysWith text t)) = none := by
      rw [lookup_eq_none_iff]
      intro scope scopeMem
      rw [noDecls scope (List.mem_append_left _ scopeMem), List.filter_nil]
    rw [declOf_afterPass wellFormed fresh partOf tMem, noneNested,
      noDecls [] (List.mem_append_right _ List.mem_cons_self)]
    simp
  rw [resolve_of_none notFound]
  constructor
  · intro keeps
    have noInserted : insertedFor text t = [] := by
      cases last : (insertedFor text t).getLast? with
      | none => exact List.getLast?_eq_none_iff.mp last
      | some e =>
          obtain ⟨d, _, moved, _, _, rfl⟩ :=
            (mem_insertedFor wellFormed fresh tMem).mp (List.mem_of_getLast? last)
          obtain ⟨id, _, _, _, _, isId⟩ := declId?_of_moved moved
          rw [resolve_of_declOf (declAfter.trans last) ((onTop_declId? text moved).trans isId)]
            at keeps
          split at keeps <;> cases keeps
    have noneMoved : ∀ d ∈ text, d.declares .moved = true → d.name = t.name →
        renamer text d ≠ renamer text t := by
      intro d dMem moved sameName sameRenamer
      have isInserted := (mem_insertedFor wellFormed fresh tMem).mpr
        ⟨d, dMem, moved, sameName, sameRenamer, rfl⟩
      rw [noInserted] at isInserted
      exact List.not_mem_nil isInserted
    have unrenamed : renamer text t = none := by
      cases isRenamer : renamer text t with
      | none => rfl
      | some d =>
          obtain ⟨isDuplicate, sameName⟩ := renamer_mem wellFormed tMem isRenamer
          obtain ⟨dMem, moved⟩ := duplicate_mem isDuplicate
          apply absurd _ (noneMoved d dMem moved sameName)
          rw [renamer_of_declares_moved wellFormed dMem moved, if_pos isDuplicate, isRenamer]
    refine ⟨unrenamed, ?_⟩
    intro d dMem moved sameName
    by_contra notDuplicate
    apply noneMoved d dMem moved sameName
    rw [renamer_of_declares_moved wellFormed dMem moved, if_neg notDuplicate, unrenamed]
  · rintro ⟨unrenamed, allDuplicates⟩
    have noInserted : insertedFor text t = [] := by
      rw [List.eq_nil_iff_forall_not_mem]
      intro e eMem
      obtain ⟨d, dMem, moved, sameName, sameRenamer, _⟩ :=
        (mem_insertedFor wellFormed fresh tMem).mp eMem
      have own := renamer_of_declares_moved wellFormed dMem moved
      rw [if_pos (allDuplicates d dMem moved sameName), sameRenamer, unrenamed] at own
      cases own
    have sameName : finalName text t = t.name := by simp [finalName, unrenamed]
    have notFoundAfter :
        declOf (inserted text text ++ afterPass text before) (finalName text t) t.path = none := by
      rw [declAfter, noInserted]
      rfl
    rw [resolve_of_none notFoundAfter, sameName]

/-- What one use means is kept exactly under the condition. -/
theorem resolve_afterPass_iff (meetsNone : MeetsNoOutermost params text)
    {before : List Occurrence} (partOf : before ⊆ text) {t : Occurrence} (tMem : t ∈ text) :
    resolve params (inserted text text ++ afterPass text before) (finalName text t) t.path =
        resolve params before t.name t.path ↔
      KeepsUse text before t := by
  cases found : declOf before t.name t.path with
  | none =>
      rw [KeepsUse, found]
      exact resolve_afterPass_of_none wellFormed fresh partOf tMem found
  | some d =>
      obtain ⟨dBefore, isDecl, _, _⟩ := declOf_spec found
      obtain ⟨id, isId⟩ := Option.isSome_iff_exists.mp isDecl
      rw [KeepsUse, found, resolve_of_declOf found isId]
      have ofStays : d.stays = true → d.declares .dropped = false → d.declares .moved = false →
          (resolve params (inserted text text ++ afterPass text before) (finalName text t) t.path =
            .decl id ↔ d.declares .dropped = false ∧ renamer text t = renamer text d ∧
              (d.declares .moved = true → ∀ k ∈ before, k.isDecl = true → k.stays = true →
                k.path ≠ [] → k.path <+: t.path → k.name = t.name →
                renamer text k ≠ renamer text t)) := by
        intro stays notDropped notMoved
        rw [resolve_afterPass_of_stays wellFormed fresh partOf tMem found stays isId]
        exact ⟨fun same => ⟨notDropped, same, fun moved => by simp [notMoved] at moved⟩,
          fun keeps => keeps.2.1⟩
      rcases declares_of_isDecl isDecl with listed | moved | dropped | kept
      · obtain ⟨_, _, _, _, role⟩ := declares_eq_true_iff.mp listed
        apply ofStays <;> simp [Occurrence.stays, Occurrence.declares, Status.leaves, role]
      · have notDropped : d.declares .dropped = false := by
          by_contra dropped
          cases declares_unique moved (by simpa using dropped)
        rw [resolve_afterPass_of_moved wellFormed fresh meetsNone partOf tMem found moved isId]
        exact ⟨fun keeps => ⟨notDropped, keeps.1, fun _ => keeps.2⟩,
          fun keeps => ⟨keeps.2.1, keeps.2.2 moved⟩⟩
      · constructor
        · intro means
          exact (resolve_afterPass_ne_of_dropped wellFormed fresh partOf tMem (partOf dBefore)
            dropped isId means).elim
        · rintro ⟨notDropped, _⟩
          rw [dropped] at notDropped
          cases notDropped
      · obtain ⟨_, _, _, _, role⟩ := declares_eq_true_iff.mp kept
        apply ofStays <;> simp [Occurrence.stays, Occurrence.declares, Status.leaves, role]

omit fresh in
/-- A declaration that is moved has a name that is not new exactly when it is its own. -/
theorem finalName_eq_iff_of_not_new {d : Occurrence} (dMem : d ∈ text)
    (moved : d.declares .moved = true) {name : String} (notNew : name ∉ newNames text) :
    finalName text d = name ↔ d.name = name ∧ d ∉ duplicates text := by
  have isRenamer := renamer_of_declares_moved wellFormed dMem moved
  by_cases isDuplicate : d ∈ duplicates text
  · rw [if_pos isDuplicate] at isRenamer
    rw [finalName, isRenamer, Option.map_some, Option.getD_some]
    refine ⟨?_, fun keeps => absurd isDuplicate keeps.2⟩
    rintro rfl
    exact absurd (newName_spec wellFormed isDuplicate).1 notNew
  · rw [if_neg isDuplicate] at isRenamer
    simp [finalName, isRenamer, isDuplicate]

/-- What one use in a type that is moved means is kept exactly under the condition. -/
theorem resolve_inserted_iff {before : List Occurrence} (partOf : before ⊆ text) {name : String}
    (path : List Nat) (notNew : name ∉ newNames text) :
    resolve params (inserted text before) name [] = resolve params before name path ↔
      KeepsTypeUse text before name path := by
  have isDecl : declOf (inserted text before) name [] =
      ((inserted text before).filter fun e => e.name == name).getLast? := by
    have noneNested : nestedScopes [] = [] := rfl
    rw [declOf, noneNested, List.nil_append, lookup_singleton, declsIn_inserted, if_pos rfl]
  have memFilter : ∀ {e}, e ∈ (inserted text before).filter (fun e => e.name == name) ↔
      ∃ d ∈ before, d.declares .moved = true ∧ d.name = name ∧ d ∉ duplicates text ∧
        e = onTop text d := by
    intro e
    rw [List.mem_filter, mem_inserted, beq_iff_eq]
    constructor
    · rintro ⟨⟨d, dMem, moved, rfl⟩, sameName⟩
      obtain ⟨own, notDuplicate⟩ :=
        (finalName_eq_iff_of_not_new wellFormed (partOf dMem) moved notNew).mp sameName
      exact ⟨d, dMem, moved, own, notDuplicate, rfl⟩
    · rintro ⟨d, dMem, moved, own, notDuplicate, rfl⟩
      exact ⟨⟨d, dMem, moved, rfl⟩,
        (finalName_eq_iff_of_not_new wellFormed (partOf dMem) moved notNew).mpr
          ⟨own, notDuplicate⟩⟩
  cases found : declOf before name path with
  | none =>
      rw [KeepsTypeUse, found, resolve_of_none found]
      constructor
      · intro keeps d dMem moved sameName
        by_contra notDuplicate
        have isInserted := memFilter.mpr ⟨d, dMem, moved, sameName, notDuplicate, rfl⟩
        obtain ⟨e, isLast⟩ := Option.isSome_iff_exists.mp
          (List.getLast?_isSome.mpr (List.ne_nil_of_mem isInserted))
        obtain ⟨k, _, kMoved, _, _, rfl⟩ := memFilter.mp (List.mem_of_getLast? isLast)
        obtain ⟨id, _, _, _, _, isId⟩ := declId?_of_moved kMoved
        rw [resolve_of_declOf (isDecl.trans isLast) ((onTop_declId? text kMoved).trans isId)]
          at keeps
        split at keeps <;> cases keeps
      · intro allDuplicates
        have none : (inserted text before).filter (fun e => e.name == name) = [] := by
          rw [List.eq_nil_iff_forall_not_mem]
          intro e eMem
          obtain ⟨d, dMem, moved, sameName, notDuplicate, _⟩ := memFilter.mp eMem
          exact notDuplicate (allDuplicates d dMem moved sameName)
        rw [none] at isDecl
        rw [resolve_of_none isDecl]
  | some d =>
      obtain ⟨dBefore, isDeclaration, sameName, _⟩ := declOf_spec found
      obtain ⟨id, isId⟩ := Option.isSome_iff_exists.mp isDeclaration
      rw [KeepsTypeUse, found, resolve_of_declOf found isId, resolve_eq_decl_iff, isDecl]
      constructor
      · rintro ⟨e, isLast, sameId⟩
        obtain ⟨k, kMem, moved, _, notDuplicate, rfl⟩ := memFilter.mp (List.mem_of_getLast? isLast)
        rw [onTop_declId? text moved] at sameId
        have same := eq_of_nodup_filterMap wellFormed.distinct (partOf kMem) (partOf dBefore)
          sameId isId
        exact same ▸ ⟨moved, notDuplicate⟩
      · rintro ⟨moved, notDuplicate⟩
        have isInserted := memFilter.mpr ⟨d, dBefore, moved, sameName, notDuplicate, rfl⟩
        obtain ⟨e, isLast⟩ := Option.isSome_iff_exists.mp
          (List.getLast?_isSome.mpr (List.ne_nil_of_mem isInserted))
        obtain ⟨k, kMem, kMoved, kName, kUnrenamed, rfl⟩ :=
          memFilter.mp (List.mem_of_getLast? isLast)
        have same : k = d := by
          apply moved_unique wellFormed fresh (partOf kMem) kMoved (partOf dBefore) moved
          rw [(finalName_eq_iff_of_not_new wellFormed (partOf kMem) kMoved notNew).mpr
              ⟨kName, kUnrenamed⟩,
            (finalName_eq_iff_of_not_new wellFormed (partOf dBefore) moved notNew).mpr
              ⟨sameName, notDuplicate⟩]
        exact ⟨_, isLast, by rw [onTop_declId? text kMoved, same, isId]⟩

end Use

end Hecaton.Pass1
