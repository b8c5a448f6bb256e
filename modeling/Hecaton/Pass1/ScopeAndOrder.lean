import Hecaton.Pass1.SeparateDecls

/-!
# Scope and order of the initial values

What is separated moves behind the last declaration, what is not stays.  The initial values
keep their order, and with it the variables they use, exactly when no separated declaration
overtakes one that stays, and every separated one can be commented out.
-/

namespace Hecaton.Pass1

open Hecaton.Library

/-! ## Declared and initialised variables -/

/-- The declarator that the piece declares. -/
def Piece.declares? : Piece → Option Declarator
  | declare _ d => some d
  | redeclare d => if d.lineDeclares then some d else none
  | _ => none

/-- The declarator whose initial value the piece evaluates. -/
def Piece.initialises? : Piece → Option Declarator
  | init _ d => some d
  | assign d => some d
  | _ => none

/-- The variables that the piece names besides its own. -/
def Piece.uses : Piece → List Nat
  | declare _ d => d.typeUses
  | redeclare d => d.typeUses
  | init _ d => d.uses
  | assign d => d.uses
  | torn => []

/-- The variables that a text declares. -/
def declaredIn (text : List Piece) : List Nat :=
  (text.filterMap Piece.declares?).map Declarator.id

/-- The initial values that a text evaluates, in order. -/
def initialisersIn (text : List Piece) : List Declarator := text.filterMap Piece.initialises?

/-- The text of the declarations before the pass. -/
def originalText (stmts : List DeclStmt) : List Piece := stmts.flatMap DeclStmt.pieces

/-- The text that the pass leaves of the declarations. -/
def separatedText (stmts : List DeclStmt) : List Piece :=
  (seperateDeclInit [.decls 0 stmts]).flatMap TextAt.pieces

/-- The text is C, every variable is declared before an initial value or a type uses it and
has got its own initial value before an initial value uses it, and the initial values are
evaluated in their original order. -/
structure KeepsScopeAndOrder (original text : List Piece) : Prop where
  valid : ∀ piece ∈ text, piece.isValid = true
  declaredBefore : ∀ before piece after, text = before ++ piece :: after →
    ∀ x ∈ piece.uses, x ∈ declaredIn before
  initialisedBefore : ∀ before piece after d, text = before ++ piece :: after →
    piece.initialises? = some d →
      ∀ e ∈ initialisersIn original, e.id ∈ d.uses → e ∈ initialisersIn before
  order : initialisersIn text = initialisersIn original

/-- Different statements begin at different places and declare different variables, and
every initial value and every type uses only variables that are declared earlier. -/
structure WellScoped (stmts : List DeclStmt) : Prop where
  distinctPlaces : (stmts.map DeclStmt.beginLoc).Nodup
  distinctVars : ((stmts.flatMap DeclStmt.declarators).map Declarator.id).Nodup
  usesEarlier : ∀ before d after, stmts.flatMap DeclStmt.declarators = before ++ d :: after →
    ∀ x ∈ d.uses ++ d.typeUses, x ∈ before.map Declarator.id

/-- The initial values of a statement. -/
def DeclStmt.initialisers (stmt : DeclStmt) : List Declarator :=
  stmt.declarators.filter Declarator.hasInit

/-- The variables that a statement declares. -/
def DeclStmt.vars (stmt : DeclStmt) : List Nat := stmt.declarators.map Declarator.id

/-- The variables that the types of a statement name. -/
def DeclStmt.typeUses (stmt : DeclStmt) : List Nat := stmt.declarators.flatMap Declarator.typeUses

/-- The statement can be separated: as a comment it is hidden, a line of type and name
declares each of its variables, and those with an initial value can be assigned to. -/
structure DeclStmt.CanSeparate (stmt : DeclStmt) : Prop where
  uncommented : stmt.hasComment = false
  hidden : stmt.hidden = true
  simple : ∀ d ∈ stmt.declarators, d.lineDeclares = true
  assignable : ∀ d ∈ stmt.initialisers, d.canAssign = true

/-- Up to the last declaration that the pass lists no statement stays behind a separated one
if it has an initial value or its types name a variable of that one; and if anything is
separated, the text can be inserted behind the last declaration. -/
structure NothingStaysBehind (upToLast : List DeclStmt) (last : DeclStmt) : Prop where
  initialisers : NothingOvertaken DeclStmt.isSeparated DeclStmt.initialisers upToLast
  types : upToLast.Pairwise fun first second =>
    first.isSeparated = true → second.isSeparated = false →
      ∀ x ∈ second.typeUses, x ∉ first.vars
  closed : (∃ stmt ∈ upToLast, stmt.isSeparated = true) → last.closed = true

/-- Every separated statement can be separated, and nothing that stays is overtaken. -/
structure StaysInOrder (stmts : List DeclStmt) : Prop where
  canSeparate : ∀ stmt ∈ stmts, stmt.isSeparated = true → stmt.CanSeparate
  nothingStaysBehind : ∀ front last back, stmts = front ++ last :: back → last.isListed = true →
    (∀ stmt ∈ back, stmt.isListed = false) → NothingStaysBehind (front ++ [last]) last

theorem declaredIn_append (first second : List Piece) :
    declaredIn (first ++ second) = declaredIn first ++ declaredIn second := by
  simp [declaredIn]

theorem initialisersIn_append (first second : List Piece) :
    initialisersIn (first ++ second) = initialisersIn first ++ initialisersIn second :=
  List.filterMap_append

theorem initialisersIn_flatMap {α : Type} (text : α → List Piece) (items : List α) :
    initialisersIn (items.flatMap text) = items.flatMap fun item => initialisersIn (text item) := by
  induction items with
  | nil => rfl
  | cons item rest ih => rw [List.flatMap_cons, initialisersIn_append, ih, List.flatMap_cons]

theorem declaredIn_flatMap {α : Type} (text : α → List Piece) (items : List α) :
    declaredIn (items.flatMap text) = items.flatMap fun item => declaredIn (text item) := by
  induction items with
  | nil => rfl
  | cons item rest ih => rw [List.flatMap_cons, declaredIn_append, ih, List.flatMap_cons]

theorem initialisersIn_pieces (stmt : DeclStmt) :
    initialisersIn stmt.pieces = stmt.initialisers := by
  rw [DeclStmt.pieces, initialisersIn_flatMap, DeclStmt.initialisers]
  induction stmt.declarators with
  | nil => rfl
  | cons d ds ih =>
      rw [List.flatMap_cons, ih, List.filter_cons]
      cases d.hasInit <;> rfl

theorem initialisersIn_initializations (stmt : DeclStmt) :
    initialisersIn stmt.initializations = stmt.initialisers := by
  rw [DeclStmt.initializations, initialisersIn, List.filterMap_map, DeclStmt.initialisers]
  exact List.filterMap_some

theorem initialisersIn_declarations (stmt : DeclStmt) : initialisersIn stmt.declarations = [] := by
  rw [initialisersIn, List.filterMap_eq_nil_iff]
  intro piece pieceMem
  obtain ⟨d, _, rfl⟩ := List.mem_map.mp pieceMem
  rfl

theorem mem_declaredIn_pieces {stmt : DeclStmt} {d : Declarator} (dMem : d ∈ stmt.declarators) :
    d.id ∈ declaredIn stmt.pieces := by
  apply List.mem_map_of_mem
  rw [List.mem_filterMap]
  refine ⟨.declare stmt.isStatic d, ?_, rfl⟩
  exact List.mem_flatMap.mpr ⟨d, dMem, List.mem_cons_self⟩

theorem mem_declaredIn_declarations {stmt : DeclStmt} {d : Declarator}
    (simple : d.lineDeclares = true) (dMem : d ∈ stmt.declarators) :
    d.id ∈ declaredIn stmt.declarations := by
  apply List.mem_map_of_mem
  rw [List.mem_filterMap]
  exact ⟨.redeclare d, List.mem_map_of_mem dMem, if_pos simple⟩

theorem mem_vars_of_declaredIn_pieces {stmt : DeclStmt} {x : Nat}
    (declared : x ∈ declaredIn stmt.pieces) : x ∈ stmt.vars := by
  obtain ⟨d, dMem, rfl⟩ := List.mem_map.mp declared
  obtain ⟨piece, pieceMem, declares⟩ := List.mem_filterMap.mp dMem
  obtain ⟨e, eMem, rfl | ⟨_, rfl⟩⟩ := DeclStmt.mem_pieces.mp pieceMem
  · cases declares
    exact List.mem_map_of_mem eMem
  · cases declares

/-! ## What is declared before -/

/-- The piece uses only what is declared before. -/
def usesDeclared (before : List Piece) (piece : Piece) : Prop :=
  ∀ x ∈ piece.uses, x ∈ declaredIn before

/-- A declarator uses only the declarators before it. -/
def usesDeclarators (before : List Declarator) (d : Declarator) : Prop :=
  ∀ x ∈ d.uses ++ d.typeUses, x ∈ before.map Declarator.id

/-- The variables that the pieces of a statement use. -/
def DeclStmt.uses (stmt : DeclStmt) : List Nat :=
  stmt.declarators.flatMap fun d => d.uses ++ d.typeUses

/-- The text of a declarator. -/
def declaratorPieces (isStatic : Bool) (d : Declarator) : List Piece :=
  .declare isStatic d :: if d.hasInit then [.init isStatic d] else []

/-- Each declarator uses only earlier ones, and those from outside that are used are declared
before: so does the text. -/
theorem forallBefore_declarators {isStatic : Bool} {declarators seen : List Declarator}
    {before : List Piece} (earlier : ForallBefore usesDeclarators seen declarators)
    (declared : ∀ e ∈ seen, e.id ∈ declaredIn before ∨
      ∀ d ∈ declarators, e.id ∉ d.uses ++ d.typeUses) :
    ForallBefore usesDeclared before (declarators.flatMap (declaratorPieces isStatic)) := by
  induction declarators generalizing seen before with
  | nil => exact trivial
  | cons d rest ih =>
      obtain ⟨usesSeen, earlierRest⟩ := earlier
      have usesBefore : ∀ x ∈ d.uses ++ d.typeUses, x ∈ declaredIn before := by
        intro x isUsed
        obtain ⟨e, eMem, rfl⟩ := List.mem_map.mp (usesSeen x isUsed)
        rcases declared e eMem with isDeclared | unused
        · exact isDeclared
        · exact absurd isUsed (unused d List.mem_cons_self)
      have declaredHere : d.id ∈ declaredIn (before ++ declaratorPieces isStatic d) := by
        rw [declaredIn_append]
        exact List.mem_append_right _ List.mem_cons_self
      rw [List.flatMap_cons, forallBefore_append]
      constructor
      · constructor
        · intro x isUsed
          exact usesBefore x (List.mem_append_right _ isUsed)
        · split
          · constructor
            · intro x isUsed
              rw [declaredIn_append]
              exact List.mem_append_left _ (usesBefore x (List.mem_append_left _ isUsed))
            · exact trivial
          · exact trivial
      · apply ih earlierRest
        intro e eMem
        rcases List.mem_append.mp eMem with isSeen | isHere
        · rcases declared e isSeen with isDeclared | unused
          · rw [declaredIn_append]
            exact Or.inl (List.mem_append_left _ isDeclared)
          · exact Or.inr fun later laterMem => unused later (List.mem_cons_of_mem d laterMem)
        · rw [List.mem_singleton.mp isHere]
          exact Or.inl declaredHere

/-- The lines of a statement, of which each declares its variable. -/
theorem redeclare_declaredBefore {declarators seen : List Declarator} {before : List Piece}
    (earlier : ForallBefore usesDeclarators seen declarators)
    (declared : ∀ e ∈ seen, e.id ∈ declaredIn before)
    (simple : ∀ d ∈ declarators, d.lineDeclares = true) :
    ForallBefore usesDeclared before (declarators.map Piece.redeclare) := by
  induction declarators generalizing seen before with
  | nil => exact trivial
  | cons d rest ih =>
      obtain ⟨usesSeen, earlierRest⟩ := earlier
      constructor
      · intro x isUsed
        obtain ⟨e, eMem, rfl⟩ := List.mem_map.mp (usesSeen x (List.mem_append_right _ isUsed))
        exact declared e eMem
      · apply ih earlierRest _ fun other otherMem => simple other (List.mem_cons_of_mem d otherMem)
        intro e eMem
        rw [declaredIn_append, List.mem_append]
        rcases List.mem_append.mp eMem with isSeen | isHere
        · exact Or.inl (declared e isSeen)
        · right
          rw [List.mem_singleton.mp isHere]
          have declares : (Piece.redeclare d).declares? = some d :=
            if_pos (simple d List.mem_cons_self)
          simp [declaredIn, declares]

/-- What is declared before may be used everywhere in a text. -/
theorem forallBefore_of_declared {before text : List Piece}
    (declared : ∀ piece ∈ text, ∀ x ∈ piece.uses, x ∈ declaredIn before) :
    ForallBefore usesDeclared before text := by
  rw [forallBefore_iff]
  rintro front piece rest rfl x isUsed
  rw [declaredIn_append]
  exact List.mem_append_left _
    (declared piece (List.mem_append_right _ List.mem_cons_self) x isUsed)

variable {stmts : List DeclStmt}

theorem initialisersIn_originalText (stmts : List DeclStmt) :
    initialisersIn (originalText stmts) = stmts.flatMap DeclStmt.initialisers := by
  rw [originalText, initialisersIn_flatMap]
  exact List.flatMap_congr fun stmt _ => initialisersIn_pieces stmt

theorem flatMap_initialisers (stmts : List DeclStmt) :
    stmts.flatMap DeclStmt.initialisers =
      (stmts.flatMap DeclStmt.declarators).filter Declarator.hasInit := by
  rw [List.filter_flatMap]
  rfl

theorem initialisers_nodup
    (distinctVars : ((stmts.flatMap DeclStmt.declarators).map Declarator.id).Nodup) :
    (stmts.flatMap DeclStmt.initialisers).Nodup := by
  rw [flatMap_initialisers]
  exact distinctVars.of_map.filter _

/-- A variable is declared in one statement. -/
theorem eq_of_mem_vars
    (distinctVars : ((stmts.flatMap DeclStmt.declarators).map Declarator.id).Nodup)
    {first second : DeclStmt} {x : Nat} (firstMem : first ∈ stmts) (secondMem : second ∈ stmts)
    (inFirst : x ∈ first.vars) (inSecond : x ∈ second.vars) : first = second := by
  rw [List.map_flatMap] at distinctVars
  exact eq_of_mem_flatMap distinctVars firstMem secondMem inFirst inSecond

/-- Where the statements use only what is declared earlier, so does their text. -/
theorem originalText_declaredBefore {seen : List Declarator} {before : List Piece}
    (earlier : ForallBefore usesDeclarators seen (stmts.flatMap DeclStmt.declarators))
    (declared : ∀ e ∈ seen, e.id ∈ declaredIn before) :
    ForallBefore usesDeclared before (originalText stmts) := by
  induction stmts generalizing seen before with
  | nil => exact trivial
  | cons stmt rest ih =>
      rw [List.flatMap_cons, forallBefore_append] at earlier
      rw [originalText, List.flatMap_cons, forallBefore_append]
      constructor
      · exact forallBefore_declarators earlier.1 fun e eMem => Or.inl (declared e eMem)
      · apply ih earlier.2
        intro e eMem
        rw [declaredIn_append, List.mem_append]
        rcases List.mem_append.mp eMem with isSeen | ofHere
        · exact Or.inl (declared e isSeen)
        · exact Or.inr (mem_declaredIn_pieces ofHere)

theorem WellScoped.usesDeclarators (wellScoped : WellScoped stmts) :
    ForallBefore usesDeclarators [] (stmts.flatMap DeclStmt.declarators) :=
  forallBefore_iff.mpr wellScoped.usesEarlier

/-- In their original order the initial values find those that they use. -/
theorem WellScoped.initialisedBefore {text : List Piece} (wellScoped : WellScoped stmts)
    (order : initialisersIn text = initialisersIn (originalText stmts))
    {before after : List Piece} {piece : Piece} {d : Declarator}
    (split : text = before ++ piece :: after) (initialises : piece.initialises? = some d) :
    ∀ e ∈ initialisersIn (originalText stmts), e.id ∈ d.uses → e ∈ initialisersIn before := by
  have nodup := initialisers_nodup wellScoped.distinctVars
  have initialisers : stmts.flatMap DeclStmt.initialisers =
      initialisersIn before ++ d :: initialisersIn after := by
    rw [← initialisersIn_originalText, ← order, split, initialisersIn_append, initialisersIn,
      initialisersIn, initialisersIn, List.filterMap_cons, initialises]
  have filtered := flatMap_initialisers stmts
  have isInitialiser : d ∈ (stmts.flatMap DeclStmt.declarators).filter Declarator.hasInit := by
    rw [← filtered, initialisers]
    exact List.mem_append_right _ List.mem_cons_self
  obtain ⟨dMem, hasInit⟩ := List.mem_filter.mp isInitialiser
  obtain ⟨earlier, later, declarators⟩ := List.append_of_mem dMem
  rw [declarators, List.filter_append, List.filter_cons_of_pos hasInit, initialisers] at filtered
  rw [initialisers, List.nodup_middle, List.nodup_cons, List.mem_append, not_or] at nodup
  -- Every initial value stands once, so the earlier ones are those before `d`.
  have isEarlier : initialisersIn before = earlier.filter Declarator.hasInit :=
    ((List.append_cons_inj_of_notMem nodup.1.1 nodup.1.2).mp filtered).1
  intro e eMem isUsed
  rw [initialisersIn_originalText, flatMap_initialisers, List.mem_filter] at eMem
  obtain ⟨other, otherMem, sameId⟩ :=
    List.mem_map.mp (wellScoped.usesEarlier earlier d later declarators e.id
      (List.mem_append_left _ isUsed))
  have otherAll : other ∈ stmts.flatMap DeclStmt.declarators := by
    rw [declarators]
    exact List.mem_append_left _ otherMem
  have isOther : other = e :=
    List.inj_on_of_nodup_map wellScoped.distinctVars otherAll eMem.1 sameId
  rw [isEarlier, List.mem_filter, ← isOther]
  rw [← isOther] at eMem
  exact ⟨otherMem, eMem.2⟩

/-! ## The separated text -/

theorem DeclStmt.initialisers_ne_nil {stmt : DeclStmt} (separated : stmt.isSeparated = true) :
    stmt.initialisers ≠ [] := by
  rw [DeclStmt.isSeparated, Bool.and_eq_true, Bool.and_eq_true, Bool.and_eq_true] at separated
  obtain ⟨d, dMem, hasInit⟩ := List.any_eq_true.mp separated.1.1.2
  exact List.ne_nil_of_mem (List.mem_filter.mpr ⟨dMem, hasInit⟩)

theorem flatMap_leftPieces_of_stays {part : List DeclStmt}
    (stays : ∀ stmt ∈ part, stmt.isSeparated = false) :
    part.flatMap DeclStmt.leftPieces = originalText part :=
  List.flatMap_congr fun stmt stmtMem => stmt.leftPieces_of_not_isSeparated (stays stmt stmtMem)

theorem separatedText_eq (distinct : (stmts.map DeclStmt.beginLoc).Nodup) :
    separatedText stmts =
      writtenDecls (fncDeclsOf stmts) (stmts.filter DeclStmt.isSeparated) stmts := by
  have whole : declStmtsOf [.decls 0 stmts] = stmts := List.flatMap_singleton _ _
  rw [separatedText, seperateDeclInit, whole, findSeperations_eq_filter distinct]
  exact List.flatMap_singleton _ _

theorem separatedText_of_unlisted (distinct : (stmts.map DeclStmt.beginLoc).Nodup)
    (unlisted : ∀ stmt ∈ stmts, stmt.isListed = false) :
    separatedText stmts = originalText stmts := by
  rw [separatedText_eq distinct, writtenDecls_of_apart distinct fun _ stmtMem => stmtMem]
  · exact flatMap_leftPieces_of_stays fun stmt stmtMem =>
      DeclStmt.isSeparated_of_unlisted (unlisted stmt stmtMem)
  · intro stmt _
    rw [isLastDecl, fncDeclsOf_eq_nil unlisted]
    rfl

theorem initialisersIn_insertedBehind (last : DeclStmt) (separated : List DeclStmt) :
    initialisersIn (insertedBehind last separated) =
      separated.flatMap DeclStmt.initialisers := by
  have noneDeclared : (separated.flatMap fun stmt => initialisersIn stmt.declarations) = [] :=
    List.flatMap_eq_nil_iff.mpr fun stmt _ => initialisersIn_declarations stmt
  have ofInsert : initialisersIn (toInsert separated) =
      separated.flatMap DeclStmt.initialisers := by
    rw [toInsert, initialisersIn_append, initialisersIn_flatMap, initialisersIn_flatMap,
      noneDeclared, List.nil_append]
    exact List.flatMap_congr fun stmt _ => initialisersIn_initializations stmt
  rw [insertedBehind]
  cases separated with
  | nil => rfl
  | cons stmt rest =>
      rw [if_neg (by simp), initialisersIn_append, ofInsert]
      cases last.closed <;> rfl

/-- Where every separated statement is commented out, the initial values of the others are
left. -/
theorem initialisersIn_leftPieces {part : List DeclStmt}
    (uncommented : ∀ stmt ∈ part, stmt.isSeparated = true → stmt.hasComment = false) :
    initialisersIn (part.flatMap DeclStmt.leftPieces) =
      (part.filter fun stmt => !stmt.isSeparated).flatMap DeclStmt.initialisers := by
  induction part with
  | nil => rfl
  | cons stmt rest ih =>
      have ih := ih fun other otherMem => uncommented other (List.mem_cons_of_mem stmt otherMem)
      rw [List.flatMap_cons, initialisersIn_append, ih]
      by_cases separated : stmt.isSeparated = true
      · rw [List.filter_cons_of_neg (by simp [separated]), DeclStmt.leftPieces, separated,
          uncommented stmt List.mem_cons_self separated]
        cases stmt.hidden <;> rfl
      · rw [List.filter_cons_of_pos (by simpa using separated), List.flatMap_cons,
          DeclStmt.leftPieces_of_not_isSeparated (Bool.eq_false_iff.mpr separated),
          initialisersIn_pieces]

/-- Where every separated statement is commented out and hidden, the others are left. -/
theorem flatMap_leftPieces_of_canSeparate {part : List DeclStmt}
    (canSeparate : ∀ stmt ∈ part, stmt.isSeparated = true → stmt.CanSeparate) :
    part.flatMap DeclStmt.leftPieces =
      originalText (part.filter fun stmt => !stmt.isSeparated) := by
  induction part with
  | nil => rfl
  | cons stmt rest ih =>
      have ih := ih fun other otherMem => canSeparate other (List.mem_cons_of_mem stmt otherMem)
      rw [List.flatMap_cons, ih]
      by_cases separated : stmt.isSeparated = true
      · have can := canSeparate stmt List.mem_cons_self separated
        rw [List.filter_cons_of_neg (by simp [separated]), DeclStmt.leftPieces, separated,
          can.uncommented, can.hidden]
        rfl
      · rw [List.filter_cons_of_pos (by simpa using separated),
          DeclStmt.leftPieces_of_not_isSeparated (Bool.eq_false_iff.mpr separated)]
        rfl

/-- What the source says is C. -/
theorem isValid_of_mem_originalText {part : List DeclStmt} {piece : Piece}
    (pieceMem : piece ∈ originalText part) : piece.isValid = true := by
  obtain ⟨stmt, _, ofStmt⟩ := List.mem_flatMap.mp pieceMem
  obtain ⟨d, _, rfl | ⟨_, rfl⟩⟩ := DeclStmt.mem_pieces.mp ofStmt
  · rfl
  · rfl

theorem insertedBehind_of_closed {part : List DeclStmt} {last : DeclStmt}
    (closed : (∃ stmt ∈ part, stmt.isSeparated = true) → last.closed = true) :
    insertedBehind last (part.filter DeclStmt.isSeparated) =
      toInsert (part.filter DeclStmt.isSeparated) := by
  rw [insertedBehind]
  cases separated : part.filter DeclStmt.isSeparated with
  | nil => rfl
  | cons stmt rest =>
      have stmtMem : stmt ∈ part.filter DeclStmt.isSeparated := by
        rw [separated]
        exact List.mem_cons_self
      rw [closed ⟨stmt, List.mem_filter.mp stmtMem⟩, if_pos rfl, List.nil_append]
      exact if_neg (by simp)

section LastListed

variable {front back : List DeclStmt} {last : DeclStmt}

/-- Up to the last declaration that is listed, what is not separated stays; then come the
separated declarations, and what stands behind. -/
theorem separatedText_of_lastListed (split : stmts = front ++ last :: back)
    (distinct : (stmts.map DeclStmt.beginLoc).Nodup) (listed : last.isListed = true)
    (unlisted : ∀ stmt ∈ back, stmt.isListed = false) :
    separatedText stmts =
      (front ++ [last]).flatMap DeclStmt.leftPieces ++
        insertedBehind last ((front ++ [last]).filter DeclStmt.isSeparated) ++
          originalText back := by
  have isLast := lastDecl_of_lastListed split listed unlisted
  have separated : stmts.filter DeclStmt.isSeparated =
      (front ++ [last]).filter DeclStmt.isSeparated := by
    rw [split, List.append_cons, List.filter_append, filter_isSeparated_eq_nil unlisted,
      List.append_nil]
  rw [separatedText_eq distinct, ← separated]
  subst split
  rw [writtenDecls_of_lastListed distinct (fun _ stmtMem => stmtMem) distinct isLast,
    flatMap_leftPieces_of_stays fun stmt stmtMem =>
      DeclStmt.isSeparated_of_unlisted (unlisted stmt stmtMem)]

/-- Where every separated statement can be separated, what is separated stands behind what
stays up to the last declaration that is listed. -/
theorem separatedText_of_canSeparate (split : stmts = front ++ last :: back)
    (distinct : (stmts.map DeclStmt.beginLoc).Nodup) (listed : last.isListed = true)
    (unlisted : ∀ stmt ∈ back, stmt.isListed = false)
    (canSeparate : ∀ stmt ∈ front ++ [last], stmt.isSeparated = true → stmt.CanSeparate)
    (closed : (∃ stmt ∈ front ++ [last], stmt.isSeparated = true) → last.closed = true) :
    separatedText stmts =
      originalText ((front ++ [last]).filter fun stmt => !stmt.isSeparated) ++
        toInsert ((front ++ [last]).filter DeclStmt.isSeparated) ++ originalText back := by
  rw [separatedText_of_lastListed split distinct listed unlisted,
    flatMap_leftPieces_of_canSeparate canSeparate, insertedBehind_of_closed closed]

/-- The initial values keep their order exactly when nothing is overtaken. -/
theorem initialisersIn_separatedText_iff
    (distinctPlaces : (stmts.map DeclStmt.beginLoc).Nodup)
    (distinctVars : ((stmts.flatMap DeclStmt.declarators).map Declarator.id).Nodup)
    (split : stmts = front ++ last :: back) (listed : last.isListed = true)
    (unlisted : ∀ stmt ∈ back, stmt.isListed = false) :
    initialisersIn (separatedText stmts) = initialisersIn (originalText stmts) ↔
      (∀ stmt ∈ front ++ [last], stmt.isSeparated = true → stmt.hasComment = false) ∧
        NothingOvertaken DeclStmt.isSeparated DeclStmt.initialisers (front ++ [last]) := by
  have distinct := initialisers_nodup distinctVars
  have whole : stmts.flatMap DeclStmt.initialisers =
      (front ++ [last]).flatMap DeclStmt.initialisers ++ back.flatMap DeclStmt.initialisers := by
    rw [split, List.append_cons]
    exact List.flatMap_append
  rw [separatedText_of_lastListed split distinctPlaces listed unlisted,
    initialisersIn_append, initialisersIn_append, initialisersIn_insertedBehind,
    initialisersIn_originalText, initialisersIn_originalText, whole, List.append_cancel_right_eq]
  rw [whole, List.nodup_append] at distinct
  have commentedOut :
      (∀ stmt ∈ front ++ [last], stmt.isSeparated = true → stmt.hasComment = false) →
        (initialisersIn ((front ++ [last]).flatMap DeclStmt.leftPieces) ++
            ((front ++ [last]).filter DeclStmt.isSeparated).flatMap DeclStmt.initialisers =
          (front ++ [last]).flatMap DeclStmt.initialisers ↔
            NothingOvertaken DeclStmt.isSeparated DeclStmt.initialisers (front ++ [last])) := by
    intro uncommented
    rw [initialisersIn_leftPieces uncommented, ← List.flatMap_append]
    exact flatMap_movedBehind_eq_iff distinct.1 fun stmt _ => stmt.initialisers_ne_nil
  constructor
  · intro order
    -- What is not commented out would give its initial values twice.
    have uncommented : ∀ stmt ∈ front ++ [last],
        stmt.isSeparated = true → stmt.hasComment = false := by
      intro stmt stmtMem separated
      by_contra commented
      rw [Bool.not_eq_false] at commented
      obtain ⟨d, dMem⟩ := List.exists_mem_of_ne_nil _ (stmt.initialisers_ne_nil separated)
      have stays : d ∈ initialisersIn ((front ++ [last]).flatMap DeclStmt.leftPieces) := by
        rw [initialisersIn_flatMap]
        apply List.mem_flatMap.mpr ⟨stmt, stmtMem, ?_⟩
        rwa [DeclStmt.leftPieces, commented, Bool.not_true, Bool.and_false,
          if_neg Bool.false_ne_true, initialisersIn_pieces]
      have inserted : d ∈ ((front ++ [last]).filter DeclStmt.isSeparated).flatMap
          DeclStmt.initialisers :=
        List.mem_flatMap.mpr ⟨stmt, List.mem_filter.mpr ⟨stmtMem, separated⟩, dMem⟩
      have once := distinct.1
      rw [← order, List.nodup_append] at once
      exact once.2.2 d stays d inserted rfl
    exact ⟨uncommented, (commentedOut uncommented).mp order⟩
  · rintro ⟨uncommented, nothingOvertaken⟩
    exact (commentedOut uncommented).mpr nothingOvertaken

/-- What stays uses no variable of what is separated before it. -/
theorem NothingStaysBehind.uses_apart {upToLast : List DeclStmt}
    (stays : NothingStaysBehind upToLast last) :
    upToLast.Pairwise fun first second =>
      first.isSeparated = true → second.isSeparated = false → ∀ x ∈ second.uses, x ∉ first.vars := by
  refine (stays.initialisers.and stays.types).imp ?_
  rintro first second ⟨noInitialisers, apart⟩ separated kept x isUsed
  obtain ⟨d, dMem, ofDeclarator⟩ := List.mem_flatMap.mp isUsed
  rcases List.mem_append.mp ofDeclarator with inInit | inType
  · -- Only an initial value uses variables.
    have hasInit : d.hasInit = true := by
      rw [Declarator.uses] at inInit
      rw [Declarator.hasInit]
      cases isInit : d.init with
      | none =>
          rw [isInit] at inInit
          exact absurd inInit List.not_mem_nil
      | some uses => rfl
    have isInitialiser : d ∈ second.initialisers := List.mem_filter.mpr ⟨dMem, hasInit⟩
    rw [noInitialisers separated kept] at isInitialiser
    exact absurd isInitialiser List.not_mem_nil
  · exact apart separated kept x (List.mem_flatMap.mpr ⟨d, dMem, inType⟩)

/-- What stays finds what it uses among what stays. -/
theorem kept_declaredBefore {part : List DeclStmt} {seen : List Declarator} {before : List Piece}
    (earlier : ForallBefore usesDeclarators seen (part.flatMap DeclStmt.declarators))
    (declared : ∀ e ∈ seen, e.id ∈ declaredIn before ∨
      ∀ stmt ∈ part, stmt.isSeparated = false → e.id ∉ stmt.uses)
    (apart : part.Pairwise fun first second =>
      first.isSeparated = true → second.isSeparated = false →
        ∀ x ∈ second.uses, x ∉ first.vars) :
    ForallBefore usesDeclared before
      (originalText (part.filter fun stmt => !stmt.isSeparated)) := by
  induction part generalizing seen before with
  | nil => exact trivial
  | cons stmt rest ih =>
      rw [List.pairwise_cons] at apart
      rw [List.flatMap_cons, forallBefore_append] at earlier
      have unusedBehind : ∀ e ∈ seen, e.id ∈ declaredIn before ∨
          ∀ later ∈ rest, later.isSeparated = false → e.id ∉ later.uses := fun e eMem =>
        (declared e eMem).imp_right fun unused later laterMem =>
          unused later (List.mem_cons_of_mem stmt laterMem)
      by_cases separated : stmt.isSeparated = true
      · rw [List.filter_cons_of_neg (by simp [separated])]
        apply ih earlier.2 _ apart.2
        intro e eMem
        rcases List.mem_append.mp eMem with isSeen | ofHere
        · exact unusedBehind e isSeen
        · refine Or.inr fun later laterMem kept isUsed => ?_
          exact apart.1 later laterMem separated kept e.id isUsed (List.mem_map_of_mem ofHere)
      · have kept : stmt.isSeparated = false := Bool.eq_false_iff.mpr separated
        rw [List.filter_cons_of_pos (by simp [kept]), originalText, List.flatMap_cons,
          forallBefore_append]
        constructor
        · apply forallBefore_declarators earlier.1
          intro e eMem
          refine (declared e eMem).imp_right fun unused d dMem isUsed => ?_
          exact unused stmt List.mem_cons_self kept (List.mem_flatMap.mpr ⟨d, dMem, isUsed⟩)
        · apply ih earlier.2 _ apart.2
          intro e eMem
          rw [declaredIn_append, List.mem_append]
          rcases List.mem_append.mp eMem with isSeen | ofHere
          · exact (unusedBehind e isSeen).imp_left Or.inl
          · exact Or.inl (Or.inr (mem_declaredIn_pieces ofHere))

/-- The new lines find what their types use among what stays and the lines before them. -/
theorem declarations_declaredBefore {part : List DeclStmt} {seen : List Declarator}
    {before : List Piece}
    (earlier : ForallBefore usesDeclarators seen (part.flatMap DeclStmt.declarators))
    (declared : ∀ e ∈ seen, e.id ∈ declaredIn before)
    (kept : ∀ stmt ∈ part, stmt.isSeparated = false →
      ∀ d ∈ stmt.declarators, d.id ∈ declaredIn before)
    (simple : ∀ stmt ∈ part, stmt.isSeparated = true →
      ∀ d ∈ stmt.declarators, d.lineDeclares = true) :
    ForallBefore usesDeclared before
      ((part.filter DeclStmt.isSeparated).flatMap DeclStmt.declarations) := by
  induction part generalizing seen before with
  | nil => exact trivial
  | cons stmt rest ih =>
      rw [List.flatMap_cons, forallBefore_append] at earlier
      have simpleRest := fun other (otherMem : other ∈ rest) =>
        simple other (List.mem_cons_of_mem stmt otherMem)
      by_cases separated : stmt.isSeparated = true
      · have simpleHere := simple stmt List.mem_cons_self separated
        rw [List.filter_cons_of_pos separated, List.flatMap_cons, forallBefore_append]
        constructor
        · exact redeclare_declaredBefore earlier.1 declared simpleHere
        · apply ih earlier.2 _ _ simpleRest
          · intro e eMem
            rw [declaredIn_append, List.mem_append]
            rcases List.mem_append.mp eMem with isSeen | ofHere
            · exact Or.inl (declared e isSeen)
            · exact Or.inr (mem_declaredIn_declarations (simpleHere e ofHere) ofHere)
          · intro other otherMem stays d dMem
            rw [declaredIn_append]
            exact List.mem_append_left _
              (kept other (List.mem_cons_of_mem stmt otherMem) stays d dMem)
      · rw [List.filter_cons_of_neg separated]
        apply ih earlier.2 _ (fun other otherMem =>
          kept other (List.mem_cons_of_mem stmt otherMem)) simpleRest
        intro e eMem
        rcases List.mem_append.mp eMem with isSeen | ofHere
        · exact declared e isSeen
        · exact kept stmt List.mem_cons_self (Bool.eq_false_iff.mpr separated) e ofHere

/-- Where nothing that stays is overtaken, every variable is declared before it is used. -/
theorem separatedText_declaredBefore (wellScoped : WellScoped stmts)
    (split : stmts = front ++ last :: back) (listed : last.isListed = true)
    (unlisted : ∀ stmt ∈ back, stmt.isListed = false)
    (canSeparate : ∀ stmt ∈ front ++ [last], stmt.isSeparated = true → stmt.CanSeparate)
    (stays : NothingStaysBehind (front ++ [last]) last) :
    ForallBefore usesDeclared [] (separatedText stmts) := by
  have earlier := wellScoped.usesDeclarators
  rw [split, List.append_cons, List.flatMap_append, forallBefore_append, List.nil_append] at earlier
  have simple := fun stmt (stmtMem : stmt ∈ front ++ [last]) separated =>
    (canSeparate stmt stmtMem separated).simple
  have kept : ∀ stmt ∈ front ++ [last], stmt.isSeparated = false → ∀ d ∈ stmt.declarators,
      d.id ∈ declaredIn
        (originalText ((front ++ [last]).filter fun stmt => !stmt.isSeparated)) := by
    intro stmt stmtMem stays d dMem
    rw [originalText, declaredIn_flatMap]
    exact List.mem_flatMap.mpr ⟨stmt, List.mem_filter.mpr ⟨stmtMem, by simpa using stays⟩,
      mem_declaredIn_pieces dMem⟩
  -- What is kept and what is inserted declare all variables up to the last declaration.
  have declared : ∀ e ∈ (front ++ [last]).flatMap DeclStmt.declarators,
      e.id ∈ declaredIn (originalText ((front ++ [last]).filter fun stmt => !stmt.isSeparated) ++
        ((front ++ [last]).filter DeclStmt.isSeparated).flatMap DeclStmt.declarations) := by
    intro e eMem
    obtain ⟨stmt, stmtMem, ofStmt⟩ := List.mem_flatMap.mp eMem
    rw [declaredIn_append, List.mem_append]
    by_cases separated : stmt.isSeparated = true
    · right
      rw [declaredIn_flatMap]
      exact List.mem_flatMap.mpr ⟨stmt, List.mem_filter.mpr ⟨stmtMem, separated⟩,
        mem_declaredIn_declarations (simple stmt stmtMem separated e ofStmt) ofStmt⟩
    · exact Or.inl (kept stmt stmtMem (Bool.eq_false_iff.mpr separated) e ofStmt)
  rw [separatedText_of_canSeparate split wellScoped.distinctPlaces listed unlisted canSeparate
      stays.closed, toInsert, ← List.append_assoc,
    forallBefore_append, forallBefore_append, forallBefore_append, List.nil_append, List.nil_append,
    List.nil_append]
  constructor
  · constructor
    · constructor
      · exact kept_declaredBefore earlier.1 (fun e eMem => absurd eMem List.not_mem_nil)
          stays.uses_apart
      · exact declarations_declaredBefore earlier.1
          (fun e eMem => absurd eMem List.not_mem_nil) kept simple
    · apply forallBefore_of_declared
      intro piece pieceMem x isUsed
      obtain ⟨stmt, stmtMem, ofStmt⟩ := List.mem_flatMap.mp pieceMem
      obtain ⟨d, dMem, rfl⟩ := List.mem_map.mp ofStmt
      have isDeclarator : d ∈ (front ++ [last]).flatMap DeclStmt.declarators :=
        List.mem_flatMap.mpr ⟨stmt, (List.mem_filter.mp stmtMem).1, (List.mem_filter.mp dMem).1⟩
      obtain ⟨others, later, whole⟩ := List.append_of_mem isDeclarator
      obtain ⟨e, eMem, rfl⟩ := List.mem_map.mp
        (forallBefore_iff.mp earlier.1 others d later whole x (List.mem_append_left _ isUsed))
      apply declared e
      rw [whole]
      exact List.mem_append_left _ eMem
  · apply originalText_declaredBefore earlier.2
    intro e eMem
    rw [declaredIn_append]
    exact List.mem_append_left _ (declared e eMem)

/-- Where the text is C, a separated statement that is commented out can be separated, and
the text stands behind a whole statement. -/
theorem canSeparate_of_valid (distinct : (stmts.map DeclStmt.beginLoc).Nodup)
    (split : stmts = front ++ last :: back) (listed : last.isListed = true)
    (unlisted : ∀ stmt ∈ back, stmt.isListed = false)
    (valid : ∀ piece ∈ separatedText stmts, piece.isValid = true) {stmt : DeclStmt}
    (stmtMem : stmt ∈ front ++ [last]) (separated : stmt.isSeparated = true)
    (uncommented : stmt.hasComment = false) : stmt.CanSeparate ∧ last.closed = true := by
  have separatedMem := List.mem_filter.mpr ⟨stmtMem, separated⟩
  have inText := separatedText_of_lastListed split distinct listed unlisted
  have ofLeft : ∀ piece ∈ stmt.leftPieces, piece.isValid = true := by
    intro piece pieceMem
    apply valid
    rw [inText]
    exact List.mem_append_left _
      (List.mem_append_left _ (List.mem_flatMap.mpr ⟨stmt, stmtMem, pieceMem⟩))
  have ofInserted : ∀ piece ∈ insertedBehind last ((front ++ [last]).filter DeclStmt.isSeparated),
      piece.isValid = true := by
    intro piece pieceMem
    apply valid
    rw [inText]
    exact List.mem_append_left _ (List.mem_append_right _ pieceMem)
  have isSome : ¬((front ++ [last]).filter DeclStmt.isSeparated).isEmpty = true := by
    rw [List.isEmpty_iff]
    exact List.ne_nil_of_mem separatedMem
  rw [insertedBehind, if_neg isSome] at ofInserted
  have ofInsert : ∀ piece ∈ toInsert ((front ++ [last]).filter DeclStmt.isSeparated),
      piece.isValid = true :=
    fun piece pieceMem => ofInserted piece (List.mem_append_right _ pieceMem)
  refine ⟨⟨uncommented, ?_, ?_, ?_⟩, ?_⟩
  · by_contra shown
    refine absurd (ofLeft .torn ?_) Bool.false_ne_true
    rw [DeclStmt.leftPieces, separated, uncommented, Bool.eq_false_iff.mpr shown]
    exact List.mem_cons_self
  · intro d dMem
    exact ofInsert (.redeclare d) (List.mem_append_left _
      (List.mem_flatMap.mpr ⟨stmt, separatedMem, List.mem_map_of_mem dMem⟩))
  · intro d dMem
    exact ofInsert (.assign d) (List.mem_append_right _
      (List.mem_flatMap.mpr ⟨stmt, separatedMem, List.mem_map_of_mem dMem⟩))
  · by_contra isOpen
    refine absurd (ofInserted .torn (List.mem_append_left _ ?_)) Bool.false_ne_true
    rw [if_neg isOpen]
    exact List.mem_cons_self

/-- Where every variable is declared before its use, no statement stays behind a separated one
whose variables its types name. -/
theorem typeUses_apart_of_declaredBefore (wellScoped : WellScoped stmts)
    (split : stmts = front ++ last :: back) (listed : last.isListed = true)
    (unlisted : ∀ stmt ∈ back, stmt.isListed = false)
    (canSeparate : ∀ stmt ∈ front ++ [last], stmt.isSeparated = true → stmt.CanSeparate)
    (declaredBefore : ForallBefore usesDeclared [] (separatedText stmts))
    {first second : DeclStmt} (firstMem : first ∈ front ++ [last])
    (secondMem : second ∈ front ++ [last]) (separated : first.isSeparated = true)
    (kept : second.isSeparated = false) : ∀ x ∈ second.typeUses, x ∉ first.vars := by
  intro x isUsed inFirst
  have isPart : ∀ stmt ∈ front ++ [last], stmt ∈ stmts := by
    intro stmt stmtMem
    rw [split, List.append_cons]
    exact List.mem_append_left _ stmtMem
  rw [separatedText_of_lastListed split wellScoped.distinctPlaces listed unlisted,
    flatMap_leftPieces_of_canSeparate canSeparate, forallBefore_append, forallBefore_append]
    at declaredBefore
  obtain ⟨d, dMem, ofDeclarator⟩ := List.mem_flatMap.mp isUsed
  have declares : Piece.declare second.isStatic d ∈
      originalText ((front ++ [last]).filter fun stmt => !stmt.isSeparated) :=
    List.mem_flatMap.mpr ⟨second, List.mem_filter.mpr ⟨secondMem, by simpa using kept⟩,
      List.mem_flatMap.mpr ⟨d, dMem, List.mem_cons_self⟩⟩
  obtain ⟨before, after, atPiece⟩ := List.append_of_mem declares
  have declared : x ∈ declaredIn before :=
    forallBefore_iff.mp declaredBefore.1.1 before _ after atPiece x ofDeclarator
  -- Before a piece that stays only what stays is declared.
  have ofKept : x ∈ declaredIn
      (originalText ((front ++ [last]).filter fun stmt => !stmt.isSeparated)) := by
    rw [atPiece, declaredIn_append]
    exact List.mem_append_left _ declared
  rw [originalText, declaredIn_flatMap] at ofKept
  obtain ⟨other, otherMem, ofOther⟩ := List.mem_flatMap.mp ofKept
  obtain ⟨inPart, stays⟩ := List.mem_filter.mp otherMem
  have same : first = other := eq_of_mem_vars wellScoped.distinctVars (isPart first firstMem)
    (isPart other inPart) inFirst (mem_vars_of_declaredIn_pieces ofOther)
  rw [← same, separated] at stays
  exact Bool.noConfusion stays

end LastListed

/-- Where nothing is overtaken, what is separated stands together in what stays. -/
theorem StaysInOrder.separatedText_split (stays : StaysInOrder stmts)
    (distinct : (stmts.map DeclStmt.beginLoc).Nodup) :
    ∃ kept behind, kept ++ behind = stmts.filter (fun stmt => !stmt.isSeparated) ∧
      separatedText stmts = originalText kept ++
        toInsert (stmts.filter DeclStmt.isSeparated) ++ originalText behind := by
  have staysIn : ∀ {part : List DeclStmt}, (∀ stmt ∈ part, stmt.isListed = false) →
      part.filter (fun stmt => !stmt.isSeparated) = part := by
    intro part unlisted
    rw [List.filter_eq_self]
    intro stmt stmtMem
    rw [DeclStmt.isSeparated_of_unlisted (unlisted stmt stmtMem)]
    rfl
  rcases exists_lastListed stmts with unlisted | ⟨front, last, back, split, listed, unlisted⟩
  · refine ⟨stmts, [], ?_, ?_⟩
    · rw [List.append_nil, staysIn unlisted]
    · rw [separatedText_of_unlisted distinct unlisted, filter_isSeparated_eq_nil unlisted]
      exact ((List.append_nil _).trans (List.append_nil _)).symm
  · have canSeparate : ∀ stmt ∈ front ++ [last],
        stmt.isSeparated = true → stmt.CanSeparate := by
      intro stmt stmtMem
      apply stays.canSeparate stmt
      rw [split, List.append_cons]
      exact List.mem_append_left _ stmtMem
    have closed := (stays.nothingStaysBehind front last back split listed unlisted).closed
    have whole : stmts = (front ++ [last]) ++ back := by rw [split, List.append_cons]
    have keptAll : stmts.filter (fun stmt => !stmt.isSeparated) =
        (front ++ [last]).filter (fun stmt => !stmt.isSeparated) ++ back := by
      rw [whole, List.filter_append, staysIn unlisted]
    have separatedAll : stmts.filter DeclStmt.isSeparated =
        (front ++ [last]).filter DeclStmt.isSeparated := by
      rw [whole, List.filter_append, filter_isSeparated_eq_nil unlisted, List.append_nil]
    refine ⟨_, back, keptAll.symm, ?_⟩
    rw [separatedText_of_canSeparate split distinct listed unlisted canSeparate closed,
      separatedAll]

/-- What stays and what is written anew is C. -/
theorem StaysInOrder.valid (stays : StaysInOrder stmts)
    (distinct : (stmts.map DeclStmt.beginLoc).Nodup) :
    ∀ piece ∈ separatedText stmts, piece.isValid = true := by
  obtain ⟨kept, behind, _, whole⟩ := stays.separatedText_split distinct
  intro piece pieceMem
  rw [whole, toInsert, List.mem_append, List.mem_append, List.mem_append] at pieceMem
  rcases pieceMem with (inKept | declared | assigned) | inBehind
  · exact isValid_of_mem_originalText inKept
  · obtain ⟨stmt, stmtMem, ofStmt⟩ := List.mem_flatMap.mp declared
    obtain ⟨d, dMem, rfl⟩ := List.mem_map.mp ofStmt
    obtain ⟨isPart, separated⟩ := List.mem_filter.mp stmtMem
    exact (stays.canSeparate stmt isPart separated).simple d dMem
  · obtain ⟨stmt, stmtMem, ofStmt⟩ := List.mem_flatMap.mp assigned
    obtain ⟨d, dMem, rfl⟩ := List.mem_map.mp ofStmt
    obtain ⟨isPart, separated⟩ := List.mem_filter.mp stmtMem
    exact (stays.canSeparate stmt isPart separated).assignable d dMem
  · exact isValid_of_mem_originalText inBehind

/-- The initial values keep their order. -/
theorem StaysInOrder.order (stays : StaysInOrder stmts)
    (distinctPlaces : (stmts.map DeclStmt.beginLoc).Nodup)
    (distinctVars : ((stmts.flatMap DeclStmt.declarators).map Declarator.id).Nodup) :
    initialisersIn (separatedText stmts) = initialisersIn (originalText stmts) := by
  rcases exists_lastListed stmts with unlisted | ⟨front, last, back, split, listed, unlisted⟩
  · rw [separatedText_of_unlisted distinctPlaces unlisted]
  · refine (initialisersIn_separatedText_iff distinctPlaces distinctVars split listed
      unlisted).mpr ⟨?_, (stays.nothingStaysBehind front last back split listed
        unlisted).initialisers⟩
    intro stmt stmtMem separated
    refine (stays.canSeparate stmt ?_ separated).uncommented
    rw [split, List.append_cons]
    exact List.mem_append_left _ stmtMem

/-- Every variable is declared before it is used. -/
theorem StaysInOrder.declaredBefore (stays : StaysInOrder stmts) (wellScoped : WellScoped stmts) :
    ForallBefore usesDeclared [] (separatedText stmts) := by
  rcases exists_lastListed stmts with unlisted | ⟨front, last, back, split, listed, unlisted⟩
  · rw [separatedText_of_unlisted wellScoped.distinctPlaces unlisted]
    exact originalText_declaredBefore wellScoped.usesDeclarators
      fun e eMem => absurd eMem List.not_mem_nil
  · apply separatedText_declaredBefore wellScoped split listed unlisted
    · intro stmt stmtMem
      apply stays.canSeparate stmt
      rw [split, List.append_cons]
      exact List.mem_append_left _ stmtMem
    · exact stays.nothingStaysBehind front last back split listed unlisted

/-- Where all statements can be separated and name no variable in a type, only the initial
values count. -/
theorem staysInOrder_of_canSeparate (canSeparate : ∀ stmt ∈ stmts, stmt.CanSeparate)
    (noTypeUses : ∀ stmt ∈ stmts, stmt.typeUses = [])
    (closed : ∀ stmt ∈ stmts, stmt.closed = true)
    (inOrder : NothingOvertaken DeclStmt.isSeparated DeclStmt.initialisers stmts) :
    StaysInOrder stmts := by
  constructor
  · exact fun stmt stmtMem _ => canSeparate stmt stmtMem
  · intro front last back split _ _
    have isPart : ∀ stmt ∈ front ++ [last], stmt ∈ stmts := by
      intro stmt stmtMem
      rw [split, List.append_cons]
      exact List.mem_append_left _ stmtMem
    constructor
    · rw [split, List.append_cons] at inOrder
      exact inOrder.sublist (List.sublist_append_left _ _)
    · apply List.pairwise_of_forall_mem_list
      intro first _ second secondMem _ _ x isUsed
      rw [noTypeUses second (isPart second secondMem)] at isUsed
      exact absurd isUsed List.not_mem_nil
    · exact fun _ => closed last (isPart last (List.mem_append_right _ List.mem_cons_self))

/-- `const int c = 1; int a = c; int b = a;` -/
def constFirst : List DeclStmt :=
  [{ beginLoc := 0, text := "const int c = 1;", declarators := [{ id := 0, init := some [] }] },
    { beginLoc := 1, text := "int a = c;", declarators := [{ id := 1, init := some [0] }] },
    { beginLoc := 2, text := "int b = a;", declarators := [{ id := 2, init := some [1] }] }]

/-- `int a = f(); const int b = a;` -/
def constLast : List DeclStmt :=
  [{ beginLoc := 0, text := "int a = f();", declarators := [{ id := 0, init := some [] }] },
    { beginLoc := 1, text := "const int b = a;", declarators := [{ id := 1, init := some [0] }] }]

end Hecaton.Pass1
