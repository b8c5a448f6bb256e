import Hecaton.Pass1.Capture

/-!
# The pass and the meaning of names

Every use of a function is found again behind the pass, at the start of the function or
where it stood.  So the pass keeps what all uses mean exactly when each use keeps it.
-/

namespace Hecaton.Pass1

open Hecaton.Library

/-! ## The uses of a text -/

/-- The uses of a text, in order. -/
def usesOf (text : List Occurrence) : List Use := text.flatMap fun t => t.uses.map Prod.fst

theorem bindingsFrom_uses (params : List String) (before text : List Occurrence) :
    (bindingsFrom params before text).map Prod.fst = usesOf text := by
  induction text generalizing before with
  | nil => rfl
  | cons t rest ih =>
      rw [bindingsFrom, List.map_append, ih, List.map_map]
      rfl

theorem bindingsFrom_append (params : List String) (before first second : List Occurrence) :
    bindingsFrom params before (first ++ second) =
      bindingsFrom params before first ++ bindingsFrom params (before ++ first) second := by
  induction first generalizing before with
  | nil => simp [bindingsFrom]
  | cons t rest ih =>
      rw [List.cons_append, bindingsFrom, bindingsFrom, ih, List.append_assoc, List.append_assoc]
      rfl

/-- The uses at a place mean what they do given the text before it. -/
theorem mem_bindings_of_split (params : List String) {text front back : List Occurrence}
    {t : Occurrence} (split : text = front ++ t :: back) {use : Use × String}
    (useMem : use ∈ t.uses) :
    (use.1, resolve params front use.2 t.path) ∈ bindings params text := by
  rw [bindings, split, bindingsFrom_append, bindingsFrom, List.nil_append]
  exact List.mem_append_right _ (List.mem_append_left _ (List.mem_map_of_mem useMem))

theorem exists_split_of_mem_bindingsFrom {params : List String} {before text : List Occurrence}
    {binding : Use × Target} (isBinding : binding ∈ bindingsFrom params before text) :
    ∃ front t back, text = front ++ t :: back ∧
      ∃ use ∈ t.uses, binding = (use.1, resolve params (before ++ front) use.2 t.path) := by
  induction text generalizing before with
  | nil => cases isBinding
  | cons t rest ih =>
      rw [bindingsFrom, List.mem_append] at isBinding
      rcases isBinding with here | inRest
      · obtain ⟨use, useMem, rfl⟩ := List.mem_map.mp here
        exact ⟨[], t, rest, rfl, use, useMem, by rw [List.append_nil]⟩
      · obtain ⟨front, other, back, rfl, use, useMem, isUse⟩ := ih inRest
        exact ⟨t :: front, other, back, rfl, use, useMem, by rw [isUse, List.append_assoc]; rfl⟩

/-- No use occurs twice. -/
def DistinctUses (text : List Occurrence) : Prop := (usesOf text).Nodup

theorem target_eq_of_distinctUses {params : List String} {text : List Occurrence}
    (distinct : DistinctUses text) {use : Use} {first second : Target}
    (isFirst : (use, first) ∈ bindings params text)
    (isSecond : (use, second) ∈ bindings params text) : first = second := by
  rw [DistinctUses, ← bindingsFrom_uses params []] at distinct
  exact congrArg Prod.snd (List.inj_on_of_nodup_map distinct isFirst isSecond rfl)

/-! ## The uses behind the pass -/

theorem usesOf_inserted (text part : List Occurrence) :
    usesOf (inserted text part) = usesOf (part.filter fun t => t.declares .moved) := by
  rw [inserted, usesOf, List.flatMap_map, usesOf]
  apply List.flatMap_congr
  intro d dMem
  rw [onTop_uses text (List.mem_filter.mp dMem).2]

theorem renamed_uses (text : List Occurrence) (t : Occurrence) :
    (renamed text t).uses.map Prod.fst = t.uses.map Prod.fst := by
  obtain ⟨path, name, written, role⟩ := t
  cases role with
  | init id status => cases status <;> rfl
  | decl id status uses simple hidden => rfl
  | use use => rfl

theorem usesOf_afterPass (text part : List Occurrence) :
    usesOf (afterPass text part) = usesOf (part.filter Occurrence.stays) := by
  rw [afterPass, usesOf, List.flatMap_map, usesOf]
  exact List.flatMap_congr fun t _ => renamed_uses text t

/-- What neither stays nor is moved is commented out. -/
theorem usesOf_perm (text : List Occurrence) :
    (usesOf (text.filter fun t => t.declares .moved) ++ usesOf (text.filter Occurrence.stays) ++
      usesOf (text.filter fun t => !(t.declares .moved || t.stays))).Perm (usesOf text) := by
  have moved : text.filter (fun t => t.declares .moved) =
      (text.filter fun t => t.declares .moved || t.stays).filter fun t => t.declares .moved := by
    rw [List.filter_filter]
    exact List.filter_congr fun t _ => by cases t.declares .moved <;> simp
  have stays : text.filter Occurrence.stays =
      (text.filter fun t => t.declares .moved || t.stays).filter fun t => !t.declares .moved := by
    rw [List.filter_filter]
    apply List.filter_congr
    intro t _
    cases isMoved : t.declares .moved with
    | false => simp
    | true => simp [not_stays_of_moved isMoved]
  rw [usesOf, usesOf, usesOf, usesOf, ← List.flatMap_append, ← List.flatMap_append, moved, stays]
  apply List.Perm.flatMap_right
  exact ((List.filter_append_perm _ _).append_right _).trans (List.filter_append_perm _ text)

/-- The text behind the pass uses nothing twice, and nothing of what is commented out. -/
theorem distinctUses_afterPass {text : List Occurrence} (distinct : DistinctUses text) :
    DistinctUses (inserted text text ++ afterPass text text) ∧
      ∀ t ∈ text, t.declares .moved = false → t.stays = false → ∀ use ∈ t.uses,
        use.1 ∉ usesOf (inserted text text ++ afterPass text text) := by
  have all := (usesOf_perm text).nodup_iff.mpr distinct
  rw [List.nodup_append] at all
  have isText : usesOf (inserted text text ++ afterPass text text) =
      usesOf (text.filter fun t => t.declares .moved) ++ usesOf (text.filter Occurrence.stays) := by
    rw [← usesOf_inserted text, ← usesOf_afterPass text, usesOf, List.flatMap_append]
    rfl
  rw [DistinctUses, isText]
  refine ⟨all.1, ?_⟩
  intro t tMem notMoved leaves use useMem isUse
  refine all.2.2 _ isUse _ ?_ rfl
  apply List.mem_flatMap.mpr
  exact ⟨t, List.mem_filter.mpr ⟨tMem, by simp [notMoved, leaves]⟩, List.mem_map_of_mem useMem⟩

/-- What stays uses its own name. -/
theorem uses_of_stays (text : List Occurrence) {t : Occurrence} (placed : Placed t)
    (stays : t.stays = true) {use : Use × String} (useMem : use ∈ t.uses) :
    use.2 = t.name ∧ (use.1, finalName text t) ∈ (renamed text t).uses := by
  have bare := placed.bare stays
  obtain ⟨path, name, written, role⟩ := t
  cases role with
  | decl id status uses simple hidden =>
      rw [bare rfl] at useMem
      cases useMem
  | init id status =>
      rw [List.mem_singleton.mp useMem]
      refine ⟨rfl, ?_⟩
      cases status <;> exact List.mem_singleton.mpr rfl
  | use own =>
      rw [List.mem_singleton.mp useMem]
      exact ⟨rfl, List.mem_singleton.mpr rfl⟩

section Uses

variable {params : List String} {text : List Occurrence} (wellFormed : WellFormed text)
  (fresh : FreshNames params text)

include wellFormed fresh

/-- What the uses at one place mean is found behind the pass exactly under the condition. -/
theorem keepsUses_iff (meetsNone : MeetsNoOutermost params text) (distinct : DistinctUses text)
    {front back : List Occurrence} {t : Occurrence} (split : text = front ++ t :: back) :
    (∀ use ∈ t.uses, (use.1, resolve params front use.2 t.path) ∈
        bindings params (inserted text text ++ afterPass text text)) ↔
      KeepsUses text front t := by
  have partOf : front ⊆ text := by
    rw [split]
    exact List.subset_append_left _ _
  have tMem : t ∈ text := by
    rw [split]
    exact List.mem_append_right _ List.mem_cons_self
  obtain ⟨distinctAfter, gone⟩ := distinctUses_afterPass distinct
  -- a use is found behind the pass once, so it keeps its meaning when it has it there
  have found : ∀ {use : Use} {target own : Target},
      (use, own) ∈ bindings params (inserted text text ++ afterPass text text) →
      ((use, target) ∈ bindings params (inserted text text ++ afterPass text text) ↔
        own = target) := by
    intro use target own isOwn
    constructor
    · exact target_eq_of_distinctUses distinctAfter isOwn
    · rintro rfl
      exact isOwn
  rw [KeepsUses]
  cases stays : t.stays with
  | true =>
      have isSplit : inserted text text ++ afterPass text text =
          (inserted text text ++ afterPass text front) ++ renamed text t :: afterPass text back := by
        conv_lhs => rw [split, afterPass_append, ← split]
        simp [afterPass, stays]
      have placed := wellFormed.placed t tMem
      have keeps := resolve_afterPass_iff wellFormed fresh meetsNone partOf tMem
      rw [if_pos rfl]
      constructor
      · intro all some
        obtain ⟨use, useMem⟩ := List.exists_mem_of_ne_nil _ some
        obtain ⟨isName, isUse⟩ := uses_of_stays text placed stays useMem
        have atPlace := mem_bindings_of_split params isSplit isUse
        have means := (found atPlace).mp (all use useMem)
        rw [isName] at means
        exact keeps.mp means
      · intro keepsUse use useMem
        obtain ⟨isName, isUse⟩ := uses_of_stays text placed stays useMem
        have atPlace := mem_bindings_of_split params isSplit isUse
        rw [isName]
        exact (found atPlace).mpr (keeps.mpr (keepsUse (List.ne_nil_of_mem useMem)))
  | false =>
      rw [if_neg (by simp)]
      cases moved : t.declares .moved with
      | true =>
          have isSplit : inserted text text ++ afterPass text text =
              inserted text front ++ onTop text t :: (inserted text back ++ afterPass text text) := by
            conv_lhs => rw [split, inserted_append, ← split]
            simp [inserted, moved]
          rw [if_pos rfl]
          apply forall₂_congr
          intro use useMem
          have isUse : use ∈ (onTop text t).uses := by rwa [onTop_uses text moved]
          have atPlace := mem_bindings_of_split params isSplit isUse
          rw [found atPlace]
          exact resolve_inserted_iff wellFormed fresh partOf t.path
            (fresh.types t tMem moved use useMem)
      | false =>
          rw [if_neg (by simp), List.eq_nil_iff_forall_not_mem]
          apply forall₂_congr
          intro use useMem
          rw [iff_false]
          intro isBinding
          apply gone t tMem moved stays use useMem
          rw [← bindingsFrom_uses params []]
          exact List.mem_map_of_mem isBinding

/-- The pass keeps what all uses mean exactly when each use keeps its meaning. -/
theorem bindings_hoistedText_iff (meetsNone : MeetsNoOutermost params text)
    (distinct : DistinctUses text) :
    bindings params text ⊆ bindings params (hoistedText text) ↔
      ∀ before t after, text = before ++ t :: after → KeepsUses text before t := by
  rw [hoistedText_eq wellFormed fresh]
  constructor
  · intro keeps before t after split
    apply (keepsUses_iff wellFormed fresh meetsNone distinct split).mp
    exact fun use useMem => keeps (mem_bindings_of_split params split useMem)
  · intro keeps binding isBinding
    obtain ⟨front, t, back, split, use, useMem, rfl⟩ :=
      exists_split_of_mem_bindingsFrom isBinding
    exact (keepsUses_iff wellFormed fresh meetsNone distinct split).mpr (keeps front t back split)
      use useMem

end Uses

/-! ## The pass -/

/-- The type in front of the name declares it. -/
def Occurrence.declaresName (t : Occurrence) : Bool :=
  match t.role with
  | .decl _ _ _ declares _ => declares
  | _ => true

/-- The pass keeps what the names of a function mean: its comments hide the declarations and
nothing else, what it inserts are declarations, the outermost scope declares no name twice,
and every use means the same declaration, or still a parameter or a name from outside. -/
def KeepsBinding (f : SourceFunction) : Prop :=
  (hoistDecls f).torn = false ∧ (∀ decl ∈ (hoistDecls f).decls, decl.declares = true) ∧
    (outermostNames f.params (hoistDecls f).text).Nodup ∧
      bindings f.params f.text ⊆ bindings f.params (hoistDecls f).text

theorem declares_insertVarDecl_iff (text : List Occurrence) :
    (∀ decl ∈ insertVarDecl (varDeclsOf text), decl.declares = true) ↔
      ∀ d ∈ text, d.declares .moved = true → d.declaresName = true := by
  have same : ∀ v ∈ varDeclsOf text, v.inserted.declares = v.decl.declaresName := by
    intro v vMem
    obtain ⟨id, uses, simple, hidden, role, _⟩ := varDecl_declId? vMem
    rw [VarDecl.inserted, Occurrence.declaresName, role]
  rw [insertVarDecl, List.forall_mem_map]
  constructor
  · intro all d dMem moved
    obtain ⟨v, vMem, rfl⟩ := exists_varDecl dMem moved
    rw [← same v vMem]
    exact all v vMem
  · intro all v vMem
    obtain ⟨inText, moved⟩ := decl_of_mem_varDeclsOf vMem
    rw [same v vMem]
    exact all v.decl inText moved

theorem torn_hoistDecls_iff (f : SourceFunction) :
    (hoistDecls f).torn = false ↔ ∀ d ∈ f.text, d.isTorn = false := by
  rw [hoistDecls, List.any_eq_false]
  simp only [Bool.not_eq_true]

/-- In a function none of whose names looks like a new one no new name meets another. -/
theorem freshNames_of_unnumbered {params : List String} {text : List Occurrence}
    (wellFormed : WellFormed text) (ofParams : ∀ name ∈ params, Unnumbered separator name)
    (ofText : ∀ t ∈ text, Unnumbered separator t.name)
    (ofTypes : ∀ t ∈ text, ∀ use ∈ t.uses, Unnumbered separator use.2) :
    FreshNames params text := by
  have notNew : ∀ {name}, Unnumbered separator name → name ∉ newNames text := by
    intro name unnumbered isNew
    obtain ⟨v, vMem, rfl⟩ := List.mem_map.mp isNew
    obtain ⟨vMem, old⟩ := mem_renamings.mp vMem
    obtain ⟨oldName, isOld⟩ := Option.isSome_iff_exists.mp old
    obtain ⟨_, n, _, isNumbered⟩ := (named_varDecl vMem).renamed oldName isOld
    exact unnumbered _ _ isNumbered
  refine ⟨fun name isParam => notNew (ofParams name isParam),
    fun t tMem _ => notNew (ofText t tMem),
    fun t tMem _ use useMem => notNew (ofTypes t tMem use useMem), ?_⟩
  intro t tMem _ d isRenamer e eMem sameName
  have isNew := (newName_spec wellFormed (renamer_mem wellFormed tMem isRenamer).1).1
  exact absurd (sameName ▸ isNew) (notNew (ofText e (duplicate_mem eMem).1))

/-- Two blocks that declare variables of one name, the second also an array whose bound is
the parameter. -/
def siblingBlocks : SourceFunction where
  params := ["n"]
  body :=
    [.block false
        [.decl { id := 0, name := "i", hasInit := true, type := .base ["int".toList] },
          .use (.ref 0) "n" true, .use (.ref 1) "i" true],
      .block false
        [.decl { id := 1, name := "i", hasInit := true, type := .base ["int".toList] },
          .use (.ref 2) "n" true,
          .decl { id := 2, name := "buf", type := .array (.base ["char".toList]) 1,
                  uses := [⟨3, "n", true⟩] },
          .use (.ref 4) "i" true, .use (.ref 5) "buf" true]]

/-- A block that declares a variable of a parameter's name, which is used after it. -/
def shadowedParam : SourceFunction where
  params := ["n"]
  body :=
    [.block false
        [.decl { id := 0, name := "n", hasInit := true, type := .base ["int".toList] },
          .use (.ref 0) "n" true],
      .use (.ref 1) "n" true]

end Hecaton.Pass1
