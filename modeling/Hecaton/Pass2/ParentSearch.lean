import Hecaton.Clang.Build
import Hecaton.Clang.Tree

/-!
# Parent search and the climb to a condition

`find_parent_recursive` searches the whole body for the node that has a given
statement as a child.  Everything that asks where a statement stands rests on
it: whether it lies in a macro, and which `if`, `for` or `while` is nearest
above it.
-/

namespace Hecaton.Pass2

open Hecaton.Clang

mutual

/-- `find_parent_recursive`: null when the search fails. -/
def findParentRecursive (stmt : Stmt) : Stmt → Stmt
  | .null => .null
  | .node info cls children => findParentLoop stmt (.node info cls children) children

/-- The loop of `find_parent_recursive` over the children of `Body`. -/
def findParentLoop (stmt Body : Stmt) : List Stmt → Stmt
  | [] => .null
  | currBody :: rest =>
      if currBody.isNull then findParentLoop stmt Body rest
      else if currBody.same stmt then Body
      else
        match findParentRecursive stmt currBody with
        | .null => findParentLoop stmt Body rest
        | parent => parent

end

/-- `is_in_macro`. -/
def isInMacro (stmt Body : Stmt) : Bool :=
  match findParentRecursive stmt Body with
  | .null => false
  | parent => stmt.info.beginLoc.isMacroID && parent.info.beginLoc.isMacroID

theorem isInMacro_of_not_macroID {stmt : Stmt} (Body : Stmt)
    (spelled : stmt.info.beginLoc.isMacroID = false) : isInMacro stmt Body = false := by
  simp only [isInMacro, spelled]
  split <;> rfl

/-- The `while` loop of `find_ifstmt_grandparent_recursive`; `none` when the
loop has not ended after the given number of rounds. -/
def climbLoop (Body : Stmt) : Nat → Stmt → Option Stmt
  | _, .null => some .null
  | 0, _ => none
  | rounds + 1, parent =>
      if parent.info.beginLoc = Body.info.beginLoc then some .null
      else if parent.isIf || parent.isFor || parent.isWhile then some parent
      else climbLoop Body rounds (findParentRecursive parent Body)

/-- `find_ifstmt_grandparent_recursive`.  One round for each node of the body
is enough, as `climbLoop_ends` shows. -/
def findIfstmtGrandparentRecursive (stmt Body : Stmt) : Stmt :=
  (climbLoop Body Body.nodes.length (findParentRecursive stmt Body)).getD .null

/-! ## What the search finds -/

/-- What the loop returns is the root or an answer from below a child. -/
private theorem findParentLoop_sound {stmt Body : Stmt} {children : List Stmt}
    (below : ∀ child ∈ children, ∀ p, findParentRecursive stmt child = p → p ≠ .null →
      p ∈ child.nodes ∧ ∃ c ∈ p.children, c.same stmt = true)
    {p : Stmt} (found : findParentLoop stmt Body children = p) (nonnull : p ≠ .null) :
    (p = Body ∧ ∃ c ∈ children, c.same stmt = true) ∨
      (p ∈ Stmt.nodesOf children ∧ ∃ c ∈ p.children, c.same stmt = true) := by
  induction children with
  | nil =>
      simp only [findParentLoop] at found
      exact absurd found.symm nonnull
  | cons currBody rest ih =>
      have inRest : findParentLoop stmt Body rest = p →
          (p = Body ∧ ∃ c ∈ currBody :: rest, c.same stmt = true) ∨
            (p ∈ Stmt.nodesOf (currBody :: rest) ∧ ∃ c ∈ p.children, c.same stmt = true) := by
        intro foundRest
        rcases ih (fun child childMem => below child (List.mem_cons_of_mem _ childMem))
          foundRest with ⟨rfl, c, cMem, same⟩ | ⟨inside, hasChild⟩
        · exact Or.inl ⟨rfl, c, List.mem_cons_of_mem _ cMem, same⟩
        · exact Or.inr ⟨by simp [inside], hasChild⟩
      simp only [findParentLoop] at found
      split at found
      · exact inRest found
      · split at found
        · rename_i same
          exact Or.inl ⟨found.symm, currBody, List.mem_cons_self, same⟩
        · split at found
          · exact inRest found
          · obtain ⟨inside, hasChild⟩ :=
              below currBody List.mem_cons_self p found nonnull
            exact Or.inr ⟨by simp [inside], hasChild⟩

/-- A node that the search returns has the statement as a child. -/
theorem findParentRecursive_sound {stmt Body p : Stmt}
    (found : findParentRecursive stmt Body = p) (nonnull : p ≠ .null) :
    p ∈ Body.nodes ∧ ∃ c ∈ p.children, c.same stmt = true := by
  induction Body using Stmt.tree_induction generalizing p with
  | null =>
      simp only [findParentRecursive] at found
      exact absurd found.symm nonnull
  | node info cls children ih =>
      simp only [findParentRecursive] at found
      rcases findParentLoop_sound (fun child childMem q foundBelow => ih child childMem foundBelow)
        found nonnull with ⟨rfl, hasChild⟩ | ⟨inside, hasChild⟩
      · exact ⟨Stmt.self_mem_nodes (by simp), hasChild⟩
      · exact ⟨by simp [inside], hasChild⟩

/-- The null pointer has no parent: null children are skipped. -/
theorem findParentRecursive_null (Body : Stmt) : findParentRecursive .null Body = .null := by
  induction Body using Stmt.tree_induction with
  | null => rfl
  | node info cls children ih =>
      simp only [findParentRecursive]
      generalize Stmt.node info cls children = root
      induction children with
      | nil => rfl
      | cons currBody rest ihRest =>
          have inRest := ihRest fun child childMem => ih child (List.mem_cons_of_mem _ childMem)
          cases currBody with
          | null => simpa [findParentLoop, Stmt.isNull] using inRest
          | node info cls children =>
              simp [findParentLoop, Stmt.isNull, Stmt.same, ih _ List.mem_cons_self, inRest]

/-- The loop does not miss a child that is or holds the statement. -/
private theorem findParentLoop_ne_null {stmt Body : Stmt} {children : List Stmt}
    (root : Body ≠ .null)
    (holds : ∃ child ∈ children, child ≠ .null ∧
      (child.same stmt = true ∨ findParentRecursive stmt child ≠ .null)) :
    findParentLoop stmt Body children ≠ .null := by
  induction children with
  | nil => simp at holds
  | cons currBody rest ih =>
      have inRest : (∃ child ∈ rest, child ≠ .null ∧
          (child.same stmt = true ∨ findParentRecursive stmt child ≠ .null)) →
          findParentLoop stmt Body rest ≠ .null := ih
      obtain ⟨child, childMem, childNonnull, hit⟩ := holds
      simp only [findParentLoop]
      split
      · rename_i isNull
        apply inRest
        rcases List.mem_cons.mp childMem with rfl | inTail
        · cases child <;> simp_all [Stmt.isNull]
        · exact ⟨child, inTail, childNonnull, hit⟩
      · split
        · exact root
        · rename_i notSame
          split
          · rename_i notBelow
            apply inRest
            rcases List.mem_cons.mp childMem with rfl | inTail
            · rcases hit with same | below
              · exact absurd same notSame
              · exact absurd notBelow below
            · exact ⟨child, inTail, childNonnull, hit⟩
          · rename_i answer
            exact answer

/-- The search finds a parent for every node strictly below the root. -/
theorem findParentRecursive_ne_null {stmt Body n : Stmt} (below : n ∈ Body.descendants)
    (same : n.same stmt = true) : findParentRecursive stmt Body ≠ .null := by
  induction Body using Stmt.tree_induction with
  | null => simp [Stmt.descendants, Stmt.children] at below
  | node info cls children ih =>
      obtain ⟨child, childMem, inChild⟩ := Stmt.mem_descendants_iff.mp below
      simp only [findParentRecursive]
      apply findParentLoop_ne_null (by simp)
      have childNonnull : child ≠ .null := by
        rintro rfl
        simp at inChild
      refine ⟨child, childMem, childNonnull, ?_⟩
      rcases Stmt.mem_nodes_iff.mp inChild with ⟨rfl, _⟩ | inner
      · exact Or.inl same
      · exact Or.inr (ih child childMem inner)

/-- In a tree with distinct nodes the search returns the parent. -/
theorem findParentRecursive_eq {Body p n : Stmt} (distinct : Body.Distinct)
    (parentMem : p ∈ Body.nodes) (isChild : n ∈ p.children) (nonnull : n ≠ .null) :
    findParentRecursive n Body = p := by
  have below := Stmt.mem_descendants_of_child parentMem isChild nonnull
  have nMem := Stmt.descendants_subset_nodes below
  have found := findParentRecursive_ne_null below ((distinct.same_iff_eq nMem nMem).mpr rfl)
  obtain ⟨answerMem, c, cChild, same⟩ := findParentRecursive_sound rfl found
  have cNonnull : c ≠ .null := by
    rintro rfl
    cases n <;> simp_all [Stmt.same]
  have cMem := Stmt.descendants_subset_nodes
    (Stmt.mem_descendants_of_child answerMem cChild cNonnull)
  have equal := (distinct.same_iff_eq cMem nMem).mp same
  exact distinct.parent_unique answerMem parentMem nonnull (equal ▸ cChild) isChild

/-- The search reads nothing but the address of the statement. -/
theorem findParentRecursive_congr {stmt other : Stmt} (equal : stmt.same other = true)
    (Body : Stmt) : findParentRecursive stmt Body = findParentRecursive other Body := by
  induction Body using Stmt.tree_induction with
  | null => rfl
  | node info cls children ih =>
      simp only [findParentRecursive]
      generalize Stmt.node info cls children = root
      induction children with
      | nil => rfl
      | cons currBody rest ihRest =>
          have inRest := ihRest fun child childMem => ih child (List.mem_cons_of_mem _ childMem)
          simp only [findParentLoop, Stmt.same_congr equal, ih currBody List.mem_cons_self, inRest]

/-- No node below the root is the statement: the search fails. -/
theorem findParentRecursive_of_absent {stmt Body : Stmt}
    (absent : ∀ n ∈ Body.descendants, n.same stmt = false) :
    findParentRecursive stmt Body = .null := by
  by_contra found
  obtain ⟨parentMem, c, isChild, same⟩ := findParentRecursive_sound rfl found
  have nonnull : c ≠ .null := by
    rintro rfl
    cases stmt with
    | null => exact found (findParentRecursive_null Body)
    | node => simp [Stmt.same] at same
  rw [absent c (Stmt.mem_descendants_of_child parentMem isChild nonnull)] at same
  exact Bool.false_ne_true same

/-! ## The climb -/

/-- A statement with a condition: the climb stops at these. -/
def isConditional (s : Stmt) : Bool := s.isIf || s.isFor || s.isWhile

/-- In any tree the climb ends at a conditional node of the body or nowhere. -/
theorem climbLoop_sound {Body p answer : Stmt} {rounds : Nat}
    (inBody : p ≠ .null → p ∈ Body.nodes) (ended : climbLoop Body rounds p = some answer)
    (nonnull : answer ≠ .null) : answer ∈ Body.nodes ∧ isConditional answer = true := by
  induction rounds generalizing p with
  | zero =>
      cases p with
      | null =>
          rw [climbLoop] at ended
          exact absurd (Option.some.inj ended).symm nonnull
      | node => simp [climbLoop] at ended
  | succ rounds ih =>
      cases p with
      | null =>
          rw [climbLoop] at ended
          exact absurd (Option.some.inj ended).symm nonnull
      | node info cls children =>
          simp only [climbLoop] at ended
          split at ended
          · exact absurd (Option.some.inj ended).symm nonnull
          · split at ended
            · next conditional =>
              cases ended
              exact ⟨inBody nonnull, conditional⟩
            · exact ih (fun found => (findParentRecursive_sound rfl found).1) ended

theorem findIfstmtGrandparentRecursive_sound {Body s p : Stmt}
    (found : findIfstmtGrandparentRecursive s Body = p) (nonnull : p ≠ .null) :
    p ∈ Body.nodes ∧ isConditional p = true := by
  rw [findIfstmtGrandparentRecursive] at found
  cases ended : climbLoop Body Body.nodes.length (findParentRecursive s Body) with
  | none =>
      rw [ended] at found
      exact absurd found.symm nonnull
  | some answer =>
      rw [ended, Option.getD_some] at found
      exact climbLoop_sound (fun found => (findParentRecursive_sound rfl found).1)
        (found ▸ ended) nonnull

/-- `q` is the nearest `if`, `for` or `while` strictly between the body and the
node `n`. -/
structure NearestConditional (Body n q : Stmt) : Prop where
  mem : q ∈ Body.descendants
  conditional : isConditional q = true
  above : n ∈ q.descendants
  nearest : ∀ r ∈ q.descendants, isConditional r = true → n ∉ r.descendants

/-- No other node begins where the body begins: a body begins with its brace. -/
def OnlyBodyBegins (Body : Stmt) : Prop :=
  ∀ n ∈ Body.descendants, n.info.beginLoc ≠ Body.info.beginLoc

variable {Body : Stmt}

/-- The climb ends within one round for each node that is not below the place
it starts from. -/
theorem climbLoop_ends (distinct : Body.Distinct) (rounds : Nat) (p : Stmt)
    (member : p = .null ∨ p ∈ Body.nodes)
    (enough : p ≠ .null → Body.nodes.length < rounds + p.nodes.length) :
    climbLoop Body rounds p ≠ none := by
  induction rounds generalizing p with
  | zero =>
      rcases member with rfl | inBody
      · simp [climbLoop]
      · have bound := enough (Stmt.ne_null_of_mem_nodes inBody)
        rcases Stmt.mem_nodes_iff.mp inBody with ⟨rfl, _⟩ | below
        · omega
        · have larger := Stmt.nodes_length_lt_of_mem_descendants below
          omega
  | succ rounds ih =>
      cases p with
      | null => simp [climbLoop]
      | node info cls children =>
          have inBody := member.resolve_left (by simp)
          have bound := enough (by simp)
          simp only [climbLoop]
          split
          · simp
          · split
            · simp
            · apply ih
              · by_cases stop : findParentRecursive (.node info cls children) Body = .null
                · exact Or.inl stop
                · exact Or.inr (findParentRecursive_sound rfl stop).1
              · intro nonnull
                rcases Stmt.mem_nodes_iff.mp inBody with ⟨rfl, _⟩ | below
                · rename_i notBody _
                  exact absurd rfl notBody
                · obtain ⟨q, qMem, isChild⟩ := Stmt.exists_parent below
                  rw [findParentRecursive_eq distinct qMem isChild (by simp)]
                  have larger := Stmt.nodes_length_lt_of_mem_descendants
                    (Stmt.child_mem_descendants isChild (by simp))
                  omega

/-- From a node between `n` and the nearest conditional, the climb reaches the
conditional; from a node with no conditional at or above it, it returns null. -/
private theorem climbLoop_eq (distinct : Body.Distinct) (begins : OnlyBodyBegins Body)
    (rounds : Nat) (p answer : Stmt) (inBody : p ∈ Body.nodes)
    (ended : climbLoop Body rounds p = some answer) :
    (answer = .null ∧ ∀ r ∈ Body.descendants, isConditional r = true → p ∉ r.nodes) ∨
      (answer ∈ Body.descendants ∧ isConditional answer = true ∧ p ∈ answer.nodes ∧
        ∀ r ∈ answer.descendants, isConditional r = true → p ∉ r.nodes) := by
  induction rounds generalizing p with
  | zero =>
      cases p with
      | null => exact absurd rfl (Stmt.ne_null_of_mem_nodes inBody)
      | node => simp [climbLoop] at ended
  | succ rounds ih =>
      cases p with
      | null => exact absurd rfl (Stmt.ne_null_of_mem_nodes inBody)
      | node info cls children =>
          simp only [climbLoop] at ended
          split at ended
          · -- Only the body begins there, and no node is above the body.
            rename_i atBody
            cases ended
            refine Or.inl ⟨rfl, ?_⟩
            rcases Stmt.mem_nodes_iff.mp inBody with ⟨isBody, _⟩ | below
            · intro r rBelow _ inside
              rw [isBody] at inside
              exact Stmt.not_mem_nodes_of_mem_descendants rBelow inside
            · exact absurd atBody (begins _ below)
          · rename_i notBody
            have below : Stmt.node info cls children ∈ Body.descendants := by
              rcases Stmt.mem_nodes_iff.mp inBody with ⟨isBody, _⟩ | below
              · rw [← isBody] at notBody
                exact absurd rfl notBody
              · exact below
            split at ended
            · rename_i conditional
              cases ended
              refine Or.inr ⟨below, conditional, Stmt.self_mem_nodes (by simp), ?_⟩
              intro r rBelow _
              exact Stmt.not_mem_nodes_of_mem_descendants rBelow
            · rename_i notConditional
              obtain ⟨q, qMem, isChild⟩ := Stmt.exists_parent below
              rw [findParentRecursive_eq distinct qMem isChild (by simp)] at ended
              have step : ∀ r ∈ Body.nodes, isConditional r = true →
                  (Stmt.node info cls children ∈ r.nodes ↔ q ∈ r.nodes) := by
                intro r rMem rConditional
                rw [Stmt.mem_nodes_iff, distinct.mem_descendants_iff_parent qMem isChild
                  (by simp) rMem]
                constructor
                · rintro (⟨rfl, _⟩ | inside)
                  · exact absurd rConditional notConditional
                  · exact inside
                · exact Or.inr
              rcases ih q qMem ended with ⟨rfl, noneAbove⟩ | ⟨mem, conditional, inside, nearest⟩
              · refine Or.inl ⟨rfl, ?_⟩
                intro r rBelow rConditional inside
                exact noneAbove r rBelow rConditional
                  ((step r (Stmt.descendants_subset_nodes rBelow) rConditional).mp inside)
              · refine Or.inr ⟨mem, conditional,
                  (step answer (Stmt.descendants_subset_nodes mem) conditional).mpr inside, ?_⟩
                intro r rBelow rConditional inside'
                have rMem := Stmt.descendants_subset_nodes (Stmt.descendants_trans rBelow
                  (Stmt.descendants_subset_nodes mem))
                exact nearest r rBelow rConditional ((step r rMem rConditional).mp inside')

/-- The node has no `if`, `for` or `while` above it and below the body. -/
def NoConditionalAbove (Body n : Stmt) : Prop :=
  ∀ r ∈ Body.descendants, isConditional r = true → n ∉ r.descendants

/-- From a node of the body the climb ends, at the nearest conditional above the node or with
null when there is none. -/
theorem exists_climb (distinct : Body.Distinct) (begins : OnlyBodyBegins Body) {n : Stmt}
    (below : n ∈ Body.descendants) :
    ∃ answer, climbLoop Body Body.nodes.length (findParentRecursive n Body) = some answer ∧
      (NearestConditional Body n answer ∨ (answer = .null ∧ NoConditionalAbove Body n)) := by
  have nonnull := Stmt.ne_null_of_mem_nodes (Stmt.descendants_subset_nodes below)
  obtain ⟨p, pMem, isChild⟩ := Stmt.exists_parent below
  have parent := findParentRecursive_eq distinct pMem isChild nonnull
  have up : ∀ r ∈ Body.nodes, (n ∈ r.descendants ↔ p ∈ r.nodes) := fun r rMem =>
    distinct.mem_descendants_iff_parent pMem isChild nonnull rMem
  obtain ⟨answer, ended⟩ := Option.ne_none_iff_exists'.mp
    (climbLoop_ends distinct Body.nodes.length p (Or.inr pMem) (by
      intro pNonnull
      have := List.length_pos_of_mem (Stmt.self_mem_nodes pNonnull)
      omega))
  rw [parent]
  refine ⟨answer, ended, ?_⟩
  rcases climbLoop_eq distinct begins _ p answer pMem ended with
    ⟨isNull, noneAbove⟩ | ⟨mem, conditional, inside, nearest⟩
  · right
    refine ⟨isNull, ?_⟩
    intro r rBelow rConditional above
    exact noneAbove r rBelow rConditional
      ((up r (Stmt.descendants_subset_nodes rBelow)).mp above)
  · left
    have answerMem := Stmt.descendants_subset_nodes mem
    refine ⟨mem, conditional, (up answer answerMem).mpr inside, ?_⟩
    intro r rBelow rConditional above
    have rMem := Stmt.nodes_trans (Stmt.descendants_subset_nodes rBelow) answerMem
    exact nearest r rBelow rConditional ((up r rMem).mp above)

/-- A node has one nearest conditional. -/
theorem NearestConditional.unique (distinct : Body.Distinct) {n q r : Stmt}
    (first : NearestConditional Body n q) (second : NearestConditional Body n r) : q = r := by
  -- Both hold `n`; neither lies strictly below the other.
  rcases distinct.nested (Stmt.descendants_subset_nodes first.mem)
    (Stmt.descendants_subset_nodes second.mem) (Stmt.descendants_subset_nodes first.above)
    (Stmt.descendants_subset_nodes second.above) with below | below
  · rcases Stmt.mem_nodes_iff.mp below with ⟨equal, _⟩ | strict
    · exact equal
    · exact absurd first.above (second.nearest q strict first.conditional)
  · rcases Stmt.mem_nodes_iff.mp below with ⟨equal, _⟩ | strict
    · exact equal.symm
    · exact absurd second.above (first.nearest r strict second.conditional)

/-- The climb returns the nearest conditional above a node of the body. -/
theorem findIfstmtGrandparentRecursive_eq (distinct : Body.Distinct)
    (begins : OnlyBodyBegins Body) {n q : Stmt} (nearest : NearestConditional Body n q) :
    findIfstmtGrandparentRecursive n Body = q := by
  have below := Stmt.descendants_trans nearest.above (Stmt.descendants_subset_nodes nearest.mem)
  obtain ⟨answer, ended, isNearest | ⟨_, noneAbove⟩⟩ := exists_climb distinct begins below
  · rw [findIfstmtGrandparentRecursive, ended, Option.getD_some]
    exact isNearest.unique distinct nearest
  · exact absurd nearest.above (noneAbove q nearest.mem nearest.conditional)

/-- In a tree with distinct nodes the search returns the parent of a node below the root and
null for every other pointer.  When nothing but the body begins where the body begins, the
climb ends: at the nearest conditional above the node, or with null when there is none. -/
theorem parentSearch_exact (Body : Stmt) (distinct : Body.Distinct) (s : Stmt) :
    (∀ p ∈ Body.nodes, ∀ c ∈ p.children, c ≠ .null → c.same s = true →
      findParentRecursive s Body = p) ∧
    ((∀ n ∈ Body.descendants, n.same s = false) → findParentRecursive s Body = .null) ∧
    (OnlyBodyBegins Body →
      ∃ answer, climbLoop Body Body.nodes.length (findParentRecursive s Body) = some answer ∧
        findIfstmtGrandparentRecursive s Body = answer ∧
        ((∃ n, n.same s = true ∧ NearestConditional Body n answer) ∨
          (answer = .null ∧
            ∀ n ∈ Body.descendants, n.same s = true → NoConditionalAbove Body n))) := by
  refine ⟨?_, findParentRecursive_of_absent, ?_⟩
  · intro p pMem c isChild nonnull same
    rw [← findParentRecursive_congr same]
    exact findParentRecursive_eq distinct pMem isChild nonnull
  · intro begins
    by_cases inTree : ∃ n ∈ Body.descendants, n.same s = true
    · obtain ⟨n, below, same⟩ := inTree
      obtain ⟨answer, ended, found⟩ := exists_climb distinct begins below
      rw [findParentRecursive_congr same] at ended
      refine ⟨answer, ended, by rw [findIfstmtGrandparentRecursive, ended, Option.getD_some], ?_⟩
      rcases found with nearest | ⟨isNull, noneAbove⟩
      · exact Or.inl ⟨n, same, nearest⟩
      · refine Or.inr ⟨isNull, ?_⟩
        intro m mBelow mSame
        have equal : m = n := by
          apply (distinct.same_iff_eq (Stmt.descendants_subset_nodes mBelow)
            (Stmt.descendants_subset_nodes below)).mp
          rw [Stmt.same_congr same]
          exact mSame
        rw [equal]
        exact noneAbove
    · have absent : ∀ n ∈ Body.descendants, n.same s = false := by
        intro n below
        by_contra same
        exact inTree ⟨n, below, by simpa using same⟩
      have ended : climbLoop Body Body.nodes.length (findParentRecursive s Body) = some .null := by
        rw [findParentRecursive_of_absent absent]
        cases Body.nodes.length <;> rfl
      refine ⟨.null, ended, by rw [findIfstmtGrandparentRecursive, ended, Option.getD_some], ?_⟩
      refine Or.inr ⟨rfl, ?_⟩
      intro n below same
      rw [absent n below] at same
      exact absurd same Bool.false_ne_true

/-- `kfree(a);`, in a block. -/
def freeingBlock : Stmt := Build.block 6 20 2 40 4 [Build.callOf 7 24 3 "kfree" "a"]

/-- `{ if (rc < 0) { kfree(a); } }` -/
def freeingUnderIf : Stmt :=
  Build.block 1 0 1 60 5 [Build.ifOf 2 10 (Build.lessZero 3 14 2 "rc") freeingBlock]

theorem parentSearch_exact_freeingUnderIf :
    findParentRecursive (Build.callOf 7 24 3 "kfree" "a") freeingUnderIf = freeingBlock ∧
      ∃ answer, findIfstmtGrandparentRecursive freeingBlock freeingUnderIf = answer ∧
        climbLoop freeingUnderIf freeingUnderIf.nodes.length
          (findParentRecursive freeingBlock freeingUnderIf) = some answer := by
  have distinct : freeingUnderIf.Distinct := by decide
  have begins : OnlyBodyBegins freeingUnderIf := by
    rw [OnlyBodyBegins]
    decide
  have blockMem : freeingBlock ∈ freeingUnderIf.nodes := by
    simp [freeingUnderIf, freeingBlock, Build.block, Build.ifOf]
  obtain ⟨found, _⟩ := parentSearch_exact freeingUnderIf distinct
    (Build.callOf 7 24 3 "kfree" "a")
  obtain ⟨_, _, climb⟩ := parentSearch_exact freeingUnderIf distinct freeingBlock
  obtain ⟨answer, ended, isAnswer, _⟩ := climb begins
  exact ⟨found _ blockMem _ List.mem_cons_self (by simp [Build.callOf]) (Stmt.same_self _),
    answer, isAnswer, ended⟩

end Hecaton.Pass2
