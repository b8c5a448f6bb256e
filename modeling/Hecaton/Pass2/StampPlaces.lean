import Hecaton.Clang.Code
import Hecaton.Pass2.ConditionText
import Hecaton.Pass2.Stamps

/-!
# The places of the stamps

A stamp belongs behind the statement that the call of a pair stands in.  The pass takes the end
of the token that begins at the end of the call's last token: this is the semicolon when the call
ends its statement and no white space stands before the semicolon.  The code is that of the file;
a call that comes from a macro ends with the last token of the macro's use.
-/

namespace Hecaton.Pass2

open Hecaton.Clang

/-! ## The calls of a function -/

/-- A call: its last token, and the semicolon of the innermost statement around it, if that
statement has one. -/
structure CallSite where
  last : PlacedToken
  semi : Option PlacedToken

/-- The semicolon of the statement around the parts of a node: an expression is no statement, and
the other nodes have no semicolon of their own. -/
def semiWithin (semi : Option PlacedToken) : NodeKind → Option PlacedToken
  | .expression _ => semi
  | _ => none

/-- The node itself, when it is a call. -/
def ownSite (semi : Option PlacedToken) (o : Nat) (tokens : List Token) : NodeKind → List CallSite
  | .expression true =>
      match (placedTokens o tokens).getLast? with
      | some last => [⟨last, semi⟩]
      | none => []
  | _ => []

mutual

/-- The calls outside the heads of `if`, `for` and `while` statements. -/
def callSites (semi : Option PlacedToken) (o : Nat) : Code → List CallSite
  | .token _ => []
  | .branch _ body => callSites none o body
  | .node kind first rest =>
      ownSite semi o (first.tokens ++ Code.tokensOf rest) kind ++
        (if kind.hasHead && !first.isBranch then []
          else callSites (semiWithin semi kind) o first) ++
        callSitesOf (kind.hasHead) (semiWithin semi kind) (o + width first.tokens) rest
  | .ended _ first rest gap =>
      let tokens := first.tokens ++ Code.tokensOf rest
      let closing := some ⟨Token.ofChar ';' gap, o + width tokens⟩
      callSites closing o first ++ callSitesOf false closing (o + width first.tokens) rest

/-- The calls in parts of a node, where only branches count when the node has a head. -/
def callSitesOf (headed : Bool) (semi : Option PlacedToken) (o : Nat) : List Code → List CallSite
  | [] => []
  | part :: parts =>
      (if headed && !part.isBranch then [] else callSites semi o part) ++
        callSitesOf headed semi (o + width part.tokens) parts

end

/-- The call lies in the tokens, and the semicolon of its statement behind it in the tokens, unless
it is the given one. -/
structure SiteIn (semi : Option PlacedToken) (o : Nat) (tokens : List Token) (site : CallSite) :
    Prop where
  last : site.last ∈ placedTokens o tokens
  closing : ∀ s, site.semi = some s → semi = some s ∨
    (s ∈ placedTokens o tokens ∧ s.token.text = [';'] ∧ site.last.start < s.start)

variable {semi : Option PlacedToken} {o : Nat} {site : CallSite}

theorem SiteIn.mono {tokens more : List Token} {o' : Nat}
    (subset : ∀ t ∈ placedTokens o tokens, t ∈ placedTokens o' more)
    (siteIn : SiteIn semi o tokens site) : SiteIn semi o' more site where
  last := subset _ siteIn.last
  closing := by
    intro s isSemi
    refine (siteIn.closing s isSemi).imp_right ?_
    rintro ⟨sMem, rest⟩
    exact ⟨subset s sMem, rest⟩

theorem SiteIn.append_left {tokens : List Token} (rest : List Token)
    (siteIn : SiteIn semi o tokens site) : SiteIn semi o (tokens ++ rest) site := by
  apply siteIn.mono
  intro t tMem
  rw [placedTokens_append]
  exact List.mem_append_left _ tMem

theorem SiteIn.append_right (tokens : List Token) {rest : List Token}
    (siteIn : SiteIn semi (o + width tokens) rest site) : SiteIn semi o (tokens ++ rest) site := by
  apply siteIn.mono
  intro t tMem
  rw [placedTokens_append]
  exact List.mem_append_right _ tMem

/-- Where the parts have no semicolon around them, neither does the node matter. -/
theorem SiteIn.of_none {tokens : List Token} (siteIn : SiteIn none o tokens site)
    (semi : Option PlacedToken) : SiteIn semi o tokens site where
  last := siteIn.last
  closing := by
    intro s isSemi
    exact Or.inr ((siteIn.closing s isSemi).resolve_left (by simp))

theorem SiteIn.of_semiWithin {tokens : List Token} {kind : NodeKind}
    (siteIn : SiteIn (semiWithin semi kind) o tokens site) : SiteIn semi o tokens site := by
  cases kind with
  | expression isCall => exact siteIn
  | compoundStmt | nullStmt | ifStmt | forStmt | whileStmt | switchStmt | labelStmt =>
      exact siteIn.of_none semi

/-- The semicolon that ends a statement stands behind the calls in it. -/
theorem SiteIn.of_ended {tokens : List Token} {gap : Gap}
    (siteIn : SiteIn (some ⟨Token.ofChar ';' gap, o + width tokens⟩) o tokens site) :
    SiteIn semi o (tokens ++ [Token.ofChar ';' gap]) site where
  last := (siteIn.append_left _).last
  closing := by
    intro s isSemi
    rcases siteIn.closing s isSemi with own | inside
    · cases own
      have before := (bounds_of_mem_placedTokens siteIn.last).2
      have positive := Nat.lt_of_lt_of_le site.last.start_lt_stop site.last.stop_le_next
      refine Or.inr ⟨?_, rfl, Nat.lt_of_lt_of_le positive before⟩
      rw [placedTokens_append]
      exact List.mem_append_right _ List.mem_cons_self
    · refine Or.inr ⟨?_, inside.2⟩
      rw [placedTokens_append]
      exact List.mem_append_left _ inside.1

theorem siteIn_ownSite {tokens : List Token} {kind : NodeKind}
    (siteMem : site ∈ ownSite semi o tokens kind) : SiteIn semi o tokens site := by
  unfold ownSite at siteMem
  split at siteMem
  · split at siteMem
    · next last isLast =>
      rw [List.mem_singleton] at siteMem
      rw [siteMem]
      exact ⟨List.mem_of_getLast? isLast, fun s isSemi => Or.inl isSemi⟩
    · exact absurd siteMem List.not_mem_nil
  · exact absurd siteMem List.not_mem_nil

theorem siteIn_callSitesOf {headed : Bool} {parts : List Code}
    (partHolds : ∀ part ∈ parts, ∀ semi o, ∀ site ∈ callSites semi o part,
      SiteIn semi o part.tokens site)
    (siteMem : site ∈ callSitesOf headed semi o parts) :
    SiteIn semi o (Code.tokensOf parts) site := by
  induction parts generalizing o with
  | nil => exact absurd siteMem (by simp [callSitesOf])
  | cons part parts ih =>
      rw [callSitesOf, List.mem_append] at siteMem
      rw [Code.tokensOf]
      rcases siteMem with inPart | inParts
      · apply SiteIn.append_left
        split at inPart
        · exact absurd inPart List.not_mem_nil
        · exact partHolds part List.mem_cons_self semi o site inPart
      · apply SiteIn.append_right
        exact ih (fun part partMem => partHolds part (List.mem_cons_of_mem _ partMem)) inParts

theorem siteIn_callSites {code : Code} (siteMem : site ∈ callSites semi o code) :
    SiteIn semi o code.tokens site := by
  induction code using Code.code_induction generalizing semi o site with
  | token t => exact absurd siteMem (by simp [callSites])
  | branch role body ih =>
      rw [callSites] at siteMem
      rw [Code.tokens]
      exact (ih siteMem).of_none semi
  | node kind first rest ihFirst ihRest =>
      rw [callSites, List.mem_append, List.mem_append] at siteMem
      rw [Code.tokens]
      rcases siteMem with (own | inFirst) | inRest
      · exact siteIn_ownSite own
      · apply SiteIn.of_semiWithin
        apply SiteIn.append_left
        split at inFirst
        · exact absurd inFirst List.not_mem_nil
        · exact ihFirst inFirst
      · apply SiteIn.of_semiWithin
        apply SiteIn.append_right
        exact siteIn_callSitesOf (fun part partMem semi o site => ihRest part partMem) inRest
  | ended withSemicolon first rest gap ihFirst ihRest =>
      rw [callSites, List.mem_append] at siteMem
      rw [Code.tokens]
      apply SiteIn.of_ended
      rcases siteMem with inFirst | inRest
      · exact (ihFirst inFirst).append_left _
      · apply SiteIn.append_right
        exact siteIn_callSitesOf (fun part partMem semi o site => ihRest part partMem) inRest

/-! ## Where a stamp goes -/

/-- The lexer's answers for locations of the file. -/
structure ReadsFile (sm : SourceManager) (endOfToken : Nat → Nat) : Prop where
  locForEndOfToken : ∀ loc : SourceLocation, loc.isMacroID = false → ∃ stop,
    sm.locForEndOfToken loc = some stop ∧ stop.isMacroID = false ∧
      stop.offset = endOfToken loc.offset

/-- The blocks of a tree that stand in the file begin at their braces. -/
def BlocksAtBraces (tokens : List PlacedToken) (Body : Stmt) : Prop :=
  ∀ block ∈ Body.nodes, block.isCompound = true → block.lBracLoc.isMacroID = false →
    ∃ t ∈ tokens, t.token.text = ['\x7b'] ∧ t.start = block.lBracLoc.offset

/-- The node is the call at the site. -/
structure StandsAt (sm : SourceManager) (pair : Stmt) (site : CallSite) : Prop where
  isCall : pair.isCall = true
  inFile : (sm.spelledEnd pair).isMacroID = false
  atLast : (sm.spelledEnd pair).offset = site.last.start

/-- The location is directly behind the semicolon that ends the statement around the call. -/
def BehindStatement (loca : Option SourceLocation) (site : CallSite) : Prop :=
  ∃ loc semi, loca = some loc ∧ loc.isMacroID = false ∧ site.semi = some semi ∧
    loc.offset = semi.stop

theorem mem_nodes_of_child {Body p : Stmt} {n : Nat} (pMem : p ∈ Body.nodes)
    (isCompound : (p.child n).isCompound = true) : p.child n ∈ Body.nodes := by
  have nonnull : p.child n ≠ .null := by
    intro isNull
    rw [isNull] at isCompound
    cases isCompound
  exact Stmt.descendants_subset_nodes
    (Stmt.mem_descendants_of_child pMem (Stmt.child_mem_children nonnull) nonnull)

/-- The block that a node of the body guards is a node of the body. -/
theorem mem_nodes_of_guarded {Body p : Stmt} (pMem : p ∈ Body.nodes)
    (isCompound : (guardedBody p).isCompound = true) : guardedBody p ∈ Body.nodes := by
  rw [guardedBody] at isCompound ⊢
  split at isCompound
  · next isIf =>
    rw [if_pos isIf]
    exact mem_nodes_of_child pMem isCompound
  · next notIf =>
    rw [if_neg notIf]
    split at isCompound
    · next isFor =>
      rw [if_pos isFor]
      exact mem_nodes_of_child pMem isCompound
    · next notFor =>
      rw [if_neg notFor]
      exact mem_nodes_of_child pMem isCompound

variable {sm : SourceManager} {pair Body : Stmt}

/-- In the case of a condition the stamp goes behind the brace of a block. -/
theorem findProperLoc_of_inParentCondition
    (inCondition :
      stmtInParentCondition pair (findIfstmtGrandparentRecursive pair Body) = true)
    {loc : SourceLocation}
    (placed : findProperLocToInsertPairmaskStamp sm pair Body = some loc) :
    ∃ block ∈ Body.nodes, block.isCompound = true ∧ loc = afterBrace block := by
  have conditional : isConditional (findIfstmtGrandparentRecursive pair Body) = true := by
    rw [stmtInParentCondition, Bool.and_eq_true] at inCondition
    exact inCondition.1
  have nonnull : findIfstmtGrandparentRecursive pair Body ≠ .null := by
    intro isNull
    rw [isNull] at conditional
    cases conditional
  have parentMem := (findIfstmtGrandparentRecursive_sound rfl nonnull).1
  simp only [findProperLocToInsertPairmaskStamp, inCondition, if_true] at placed
  rw [← guardedBody] at placed
  by_cases isCompound : (guardedBody (findIfstmtGrandparentRecursive pair Body)).isCompound = true
  · rw [if_pos isCompound] at placed
    exact ⟨_, mem_nodes_of_guarded parentMem isCompound, isCompound, (Option.some.inj placed).symm⟩
  · rw [if_neg isCompound] at placed
    cases placed

theorem not_conditional_of_isCall (isCall : pair.isCall = true) :
    (pair.isIf || pair.isFor || pair.isWhile) = false := by
  rcases pair with _ | ⟨info, cls, children⟩
  · rfl
  · cases cls with
    | callExpr callee => rfl
    | _ => cases isCall

section Code

variable {endOfToken : Nat → Nat} {code : Code}

/-- Elsewhere it goes to the end of the token that begins at the end of the call. -/
theorem findProperLoc_of_standsAt (reads : ReadsFile sm endOfToken)
    (lexes : LexesTokens endOfToken (placedTokens o code.tokens))
    (lastMem : site.last ∈ placedTokens o code.tokens) (standsAt : StandsAt sm pair site)
    (outside : stmtInParentCondition pair (findIfstmtGrandparentRecursive pair Body) = false) :
    ∃ loc, findProperLocToInsertPairmaskStamp sm pair Body = some loc ∧ loc.isMacroID = false ∧
      loc.offset = endOfToken site.last.stop := by
  obtain ⟨stop, atStop, stopInFile, stopOffset⟩ := reads.locForEndOfToken _ standsAt.inFile
  rw [standsAt.atLast, lexes.atToken _ lastMem] at stopOffset
  obtain ⟨loc, atLoc, locInFile, locOffset⟩ := reads.locForEndOfToken stop stopInFile
  rw [stopOffset] at locOffset
  refine ⟨loc, ?_, locInFile, locOffset⟩
  simp only [findProperLocToInsertPairmaskStamp, outside, Bool.false_eq_true, if_false,
    not_conditional_of_isCall standsAt.isCall, SourceManager.recursiveGetEnd, atStop]
  exact atLoc

/-- The end of the token at the end of the call is that of the semicolon exactly when the semicolon
begins there. -/
theorem endOfToken_stop_iff (lexes : LexesTokens endOfToken (placedTokens o code.tokens))
    {last s : PlacedToken} (lastMem : last ∈ placedTokens o code.tokens)
    (sMem : s ∈ placedTokens o code.tokens) (before : last.start < s.start) :
    endOfToken last.stop = s.stop ↔ s.start = last.stop := by
  constructor
  · intro atStop
    by_cases adjacent : last.stop = last.next
    · obtain ⟨next, nextMem, atNext⟩ := exists_next lastMem sMem before
      rw [adjacent, ← atNext, lexes.atToken next nextMem] at atStop
      rw [adjacent, ← atNext, eq_of_stop_eq nextMem sMem atStop]
    · have inGap := Nat.lt_of_le_of_ne last.stop_le_next adjacent
      rw [lexes.atBlank last lastMem _ (Nat.le_refl _) inGap] at atStop
      rw [eq_of_stop_eq lastMem sMem atStop] at before
      exact absurd before (Nat.lt_irrefl _)
  · intro adjacent
    rw [← adjacent, lexes.atToken s sMem]

/-- For every call outside the heads of `if`, `for` and `while` statements the stamp stands directly
behind the semicolon of its statement exactly when the text of the call is not found in the head of
the nearest such statement and that semicolon stands directly behind the call. -/
theorem findProperLocToInsertPairmaskStamp_behindStatement_iff (reads : ReadsFile sm endOfToken)
    (lexes : LexesTokens endOfToken (placedTokens o code.tokens))
    (blocks : BlocksAtBraces (placedTokens o code.tokens) Body)
    (siteMem : site ∈ callSites none o code) (standsAt : StandsAt sm pair site) :
    BehindStatement (findProperLocToInsertPairmaskStamp sm pair Body) site ↔
      stmtInParentCondition pair (findIfstmtGrandparentRecursive pair Body) = false ∧
        ∃ semi, site.semi = some semi ∧ semi.start = site.last.stop := by
  have siteIn := siteIn_callSites siteMem
  have closing : ∀ s, site.semi = some s → s ∈ placedTokens o code.tokens ∧
      s.token.text = [';'] ∧ site.last.start < s.start := by
    intro s isSemi
    exact (siteIn.closing s isSemi).resolve_left (by simp)
  constructor
  · rintro ⟨loc, semi, placed, inFile, isSemi, atSemi⟩
    obtain ⟨semiMem, isSemicolon, before⟩ := closing semi isSemi
    cases inCondition : stmtInParentCondition pair (findIfstmtGrandparentRecursive pair Body) with
    | true =>
        -- Behind a brace no semicolon ends.
        obtain ⟨block, blockMem, isCompound, rfl⟩ :=
          findProperLoc_of_inParentCondition inCondition placed
        obtain ⟨brace, braceMem, isBrace, atBrace⟩ := blocks block blockMem isCompound inFile
        have sameStop : brace.stop = semi.stop := by
          rw [PlacedToken.stop, isBrace, atBrace]
          exact atSemi
        rw [eq_of_stop_eq braceMem semiMem sameStop, isSemicolon] at isBrace
        exact absurd isBrace (by decide)
    | false =>
        obtain ⟨loc', placed', _, atStop⟩ :=
          findProperLoc_of_standsAt reads lexes siteIn.last standsAt inCondition
        rw [placed] at placed'
        rw [← Option.some.inj placed', atSemi] at atStop
        exact ⟨rfl, semi, isSemi,
          (endOfToken_stop_iff lexes siteIn.last semiMem before).mp atStop.symm⟩
  · rintro ⟨outside, semi, isSemi, adjacent⟩
    obtain ⟨semiMem, _, before⟩ := closing semi isSemi
    obtain ⟨loc, placed, inFile, atStop⟩ :=
      findProperLoc_of_standsAt reads lexes siteIn.last standsAt outside
    refine ⟨loc, semi, placed, inFile, isSemi, ?_⟩
    rw [atStop]
    exact (endOfToken_stop_iff lexes siteIn.last semiMem before).mpr adjacent

end Code

/-! A function with one call. -/

/-- A file without macros that holds these tokens. -/
def fileOf (tokens : List PlacedToken) : SourceManager where
  expansionEnd := id
  locForEndOfToken := fun loc => some { loc with offset := endOfTokenIn tokens loc.offset }
  isInMainFile := fun _ => true

theorem readsFile_fileOf (tokens : List PlacedToken) :
    ReadsFile (fileOf tokens) (endOfTokenIn tokens) where
  locForEndOfToken := fun _ inFile => ⟨_, rfl, inFile, rfl⟩

/-- `{f(a);}`, with white space before the semicolon. -/
def callCode (gap : Gap) : Code :=
  .node .compoundStmt (.token (Token.ofChar '\x7b' Gap.none))
    [.ended false
      (.node (.expression true)
        (.node (.expression false) (.token (Token.ofChar 'f' Gap.none)) [])
        [.token (Token.ofChar '(' Gap.none),
          .node (.expression false) (.token (Token.ofChar 'a' Gap.none)) [],
          .token (Token.ofChar ')' gap)])
      [] Gap.none,
      .token (Token.ofChar '\x7d' Gap.none)]

/-- The call of that function. -/
def callNode : Stmt := Build.callOf 1 1 1 "f" "a"

/-- The function's tree. -/
def callBody (gap : Gap) : Stmt := Build.block 0 0 1 (6 + gap.text.length) 1 [callNode]

def callSite (gap : Gap) : CallSite where
  last := ⟨Token.ofChar ')' gap, 4⟩
  semi := some ⟨Token.ofChar ';' Gap.none, 5 + gap.text.length⟩

theorem callSites_callCode (gap : Gap) : callSites none 0 (callCode gap) = [callSite gap] := by
  simp [callCode, callSite, callSites, callSitesOf, ownSite, NodeKind.hasHead, Code.isBranch,
    Code.tokens, Code.tokensOf, placedTokens, Token.width, Token.ofChar, Gap.none]
  omega

theorem standsAt_callNode (gap : Gap) :
    StandsAt (fileOf (placedTokens 0 (callCode gap).tokens)) callNode (callSite gap) where
  isCall := rfl
  inFile := rfl
  atLast := rfl

theorem blocksAtBraces_callBody (gap : Gap) :
    BlocksAtBraces (placedTokens 0 (callCode gap).tokens) (callBody gap) := by
  intro block blockMem isCompound inFile
  have same : block = callBody gap := by
    simp only [callBody, callNode, Build.block, Build.callOf, Build.nameRef, Stmt.nodes_node,
      Stmt.nodesOf_cons, Stmt.nodesOf_nil, List.cons_append, List.nil_append, List.mem_cons,
      List.not_mem_nil, or_false] at blockMem
    rcases blockMem with rfl | rfl | rfl | rfl
    · rfl
    · cases isCompound
    · cases isCompound
    · cases isCompound
  rw [same]
  exact ⟨⟨Token.ofChar '\x7b' Gap.none, 0⟩, List.mem_cons_self, rfl, rfl⟩

/-- Without white space the stamp stands behind `f(a);`. -/
theorem findProperLocToInsertPairmaskStamp_behindStatement_f :
    BehindStatement (findProperLocToInsertPairmaskStamp
        (fileOf (placedTokens 0 (callCode Gap.none).tokens)) callNode (callBody Gap.none))
        (callSite Gap.none) ↔
      stmtInParentCondition callNode (findIfstmtGrandparentRecursive callNode (callBody Gap.none)) =
        false ∧
        ∃ semi, (callSite Gap.none).semi = some semi ∧
          semi.start = (callSite Gap.none).last.stop := by
  apply findProperLocToInsertPairmaskStamp_behindStatement_iff (readsFile_fileOf _)
    (lexesTokens_endOfTokenIn 0 _) (blocksAtBraces_callBody Gap.none) _ (standsAt_callNode Gap.none)
  rw [callSites_callCode]
  exact List.mem_singleton_self _

/-- In `{f(a) ;}` it stands between the call and the semicolon. -/
theorem findProperLocToInsertPairmaskStamp_before_semicolon :
    callSite Gap.space ∈ callSites none 0 (callCode Gap.space) ∧
      StandsAt (fileOf (placedTokens 0 (callCode Gap.space).tokens)) callNode (callSite Gap.space) ∧
      findIfstmtGrandparentRecursive callNode (callBody Gap.space) = .null ∧
      ¬ BehindStatement (findProperLocToInsertPairmaskStamp
        (fileOf (placedTokens 0 (callCode Gap.space).tokens)) callNode (callBody Gap.space))
        (callSite Gap.space) := by
  refine ⟨?_, standsAt_callNode Gap.space, rfl, ?_⟩
  · rw [callSites_callCode]
    exact List.mem_singleton_self _
  · rintro ⟨loc, semi, placed, _, isSemi, atSemi⟩
    have place : findProperLocToInsertPairmaskStamp
        (fileOf (placedTokens 0 (callCode Gap.space).tokens)) callNode (callBody Gap.space) =
          some ⟨5, 1, false⟩ := rfl
    rw [place] at placed
    cases placed
    cases isSemi
    exact absurd atSemi (by decide)

end Hecaton.Pass2
