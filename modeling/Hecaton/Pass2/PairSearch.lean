import Hecaton.Pass2.Pairs

/-!
# What the search for a known pair reports

The search carries its result in one variable.  A direct match leaves the loop over the
children, but the result of a search below a child is overwritten at the next child.  So a
match is only reported when no later sibling follows on the way down to it: from the root
one has to go to the last child, again and again, until a child of the node matches.
-/

namespace Hecaton.Pass2

open Hecaton.Clang

/-- A node that the search takes: it begins inside the window and is a pair of the
statement. -/
def isMatch (ehcStmt : Stmt) (startLine endLine : Nat) (currStmt : Stmt) : Bool :=
  !currStmt.isNull && (isBetween startLine endLine currStmt && isPair ehcStmt currStmt)

/-- The nodes on the way from the root to its last child, from there to the last child, and
so on. -/
inductive OnLastPath : Stmt → Stmt → Prop
  | root (s : Stmt) : OnLastPath s s
  | last {s lastChild p : Stmt} (isLast : s.children.getLast? = some lastChild)
      (below : OnLastPath lastChild p) : OnLastPath s p

/-- The way begins at the root and goes on below its last child. -/
theorem exists_onLastPath_iff {holds : Stmt → Prop} {s : Stmt} :
    (∃ p, OnLastPath s p ∧ holds p) ↔
      holds s ∨ ∃ lastChild, s.children.getLast? = some lastChild ∧
        ∃ p, OnLastPath lastChild p ∧ holds p := by
  constructor
  · rintro ⟨p, onPath, pHolds⟩
    cases onPath with
    | root => exact Or.inl pHolds
    | last isLast below => exact Or.inr ⟨_, isLast, p, below, pHolds⟩
  · rintro (sHolds | ⟨lastChild, isLast, p, below, pHolds⟩)
    · exact ⟨s, .root s, sHolds⟩
    · exact ⟨p, .last isLast below, pHolds⟩

/-- Some node on that way has a child that matches. -/
def MatchOnLastPath (ehcStmt : Stmt) (startLine endLine : Nat) (s : Stmt) : Prop :=
  ∃ p, OnLastPath s p ∧ ∃ c ∈ p.children, isMatch ehcStmt startLine endLine c = true

variable {ehcStmt : Stmt} {startLine endLine : Nat}

theorem not_matchOnLastPath_null : ¬ MatchOnLastPath ehcStmt startLine endLine .null := by
  rintro ⟨p, onPath, c, cMem, _⟩
  cases onPath with
  | root => simp [Stmt.children] at cMem
  | last isLast _ => simp [Stmt.children] at isLast

/-- The way begins with the children of the root and goes on below the last of them. -/
theorem matchOnLastPath_iff {s : Stmt} :
    MatchOnLastPath ehcStmt startLine endLine s ↔
      (∃ c ∈ s.children, isMatch ehcStmt startLine endLine c = true) ∨
        ∃ lastChild, s.children.getLast? = some lastChild ∧
          MatchOnLastPath ehcStmt startLine endLine lastChild :=
  exists_onLastPath_iff

theorem onLastPath_mem_nodes {s p : Stmt} (onPath : OnLastPath s p) (nonnull : p ≠ .null) :
    p ∈ s.nodes := by
  induction onPath with
  | root s => exact Stmt.self_mem_nodes nonnull
  | @last s lastChild p isLast below ih =>
      have inBelow := ih nonnull
      exact Stmt.descendants_subset_nodes
        (Stmt.mem_descendants_iff.mpr ⟨lastChild, List.mem_of_getLast? isLast, inBelow⟩)

theorem ne_null_of_isMatch {c : Stmt} (isPair : isMatch ehcStmt startLine endLine c = true) :
    c ≠ .null := by
  rintro rfl
  simp [isMatch, Stmt.isNull] at isPair

/-- A match on the way is a node strictly below the root. -/
theorem exists_match_of_matchOnLastPath {s : Stmt}
    (onPath : MatchOnLastPath ehcStmt startLine endLine s) :
    ∃ n ∈ s.descendants, isMatch ehcStmt startLine endLine n = true := by
  obtain ⟨p, isOn, c, cMem, cMatches⟩ := onPath
  have nonnull : p ≠ .null := by
    rintro rfl
    simp [Stmt.children] at cMem
  exact ⟨c, Stmt.mem_descendants_of_child (onLastPath_mem_nodes isOn nonnull) cMem
    (ne_null_of_isMatch cMatches), cMatches⟩

/-! ## The loop over the children -/

/-- The loop takes a child that matches and goes below every other one. -/
theorem recursivePairLoop_cons (found : Bool) (currStmt : Stmt) (rest : List Stmt) (pair : Stmt) :
    recursivePairLoop ehcStmt startLine endLine found (currStmt :: rest) pair =
      if isMatch ehcStmt startLine endLine currStmt then (true, currStmt)
      else
        let below := recursivePairVisit ehcStmt startLine endLine currStmt pair
        recursivePairLoop ehcStmt startLine endLine below.1 rest below.2 := by
  cases currStmt with
  | null => simp [recursivePairLoop, isMatch, Stmt.isNull, recursivePairVisit]
  | node info cls children => simp [recursivePairLoop, isMatch, Stmt.isNull]

/-- The loop reports a child that matches, or else what the search below the last child
reports. -/
theorem recursivePairLoop_found {children : List Stmt} {reports : Stmt → Prop}
    (below : ∀ child ∈ children, ∀ pair,
      (recursivePairVisit ehcStmt startLine endLine child pair).1 = true ↔ reports child)
    (found : Bool) (pair : Stmt) :
    (recursivePairLoop ehcStmt startLine endLine found children pair).1 = true ↔
      (∃ c ∈ children, isMatch ehcStmt startLine endLine c = true) ∨
        (children = [] ∧ found = true) ∨
        ∃ lastChild, children.getLast? = some lastChild ∧ reports lastChild := by
  induction children generalizing found pair with
  | nil => simp [recursivePairLoop]
  | cons currStmt rest ih =>
      rw [recursivePairLoop_cons]
      by_cases matching : isMatch ehcStmt startLine endLine currStmt = true
      · simp [matching]
      · have inRest := fun found pair =>
          ih (fun child childMem => below child (List.mem_cons_of_mem _ childMem)) found pair
        rw [if_neg matching, inRest, below currStmt List.mem_cons_self]
        cases rest with
        | nil => simp [matching]
        | cons next rest => simp [matching]

/-- What the loop reports is a match below one of the children. -/
theorem recursivePairLoop_pair {children : List Stmt}
    (below : ∀ child ∈ children, ∀ pair,
      (recursivePairVisit ehcStmt startLine endLine child pair).1 = true →
      (recursivePairVisit ehcStmt startLine endLine child pair).2 ∈ child.descendants ∧
        isMatch ehcStmt startLine endLine
          (recursivePairVisit ehcStmt startLine endLine child pair).2 = true)
    {found : Bool} {pair : Stmt}
    (reported : (recursivePairLoop ehcStmt startLine endLine found children pair).1 = true) :
    (children = [] ∧ found = true ∧
      (recursivePairLoop ehcStmt startLine endLine found children pair).2 = pair) ∨
      ((recursivePairLoop ehcStmt startLine endLine found children pair).2 ∈
          Stmt.nodesOf children ∧
        isMatch ehcStmt startLine endLine
          (recursivePairLoop ehcStmt startLine endLine found children pair).2 = true) := by
  induction children generalizing found pair with
  | nil => exact Or.inl ⟨rfl, by simpa [recursivePairLoop] using reported, by simp [recursivePairLoop]⟩
  | cons currStmt rest ih =>
      rw [recursivePairLoop_cons] at reported ⊢
      right
      rw [Stmt.nodesOf_cons]
      by_cases matching : isMatch ehcStmt startLine endLine currStmt = true
      · rw [if_pos matching]
        exact ⟨List.mem_append_left _ (Stmt.self_mem_nodes (ne_null_of_isMatch matching)), matching⟩
      · rw [if_neg matching] at reported ⊢
        rcases ih (fun child childMem => below child (List.mem_cons_of_mem _ childMem)) reported
          with ⟨rfl, belowFound, samePair⟩ | ⟨inRest, matches'⟩
        · obtain ⟨inChild, matches'⟩ := below currStmt List.mem_cons_self pair belowFound
          rw [samePair]
          exact ⟨List.mem_append_left _ (Stmt.descendants_subset_nodes inChild), matches'⟩
        · exact ⟨List.mem_append_right _ inRest, matches'⟩

/-! ## The search -/

/-- The search reports the matches on the way to the last children, and no other ones. -/
theorem recursivePairVisit_found (s pair : Stmt) :
    (recursivePairVisit ehcStmt startLine endLine s pair).1 = true ↔
      MatchOnLastPath ehcStmt startLine endLine s := by
  induction s using Stmt.tree_induction generalizing pair with
  | null => simp [recursivePairVisit, not_matchOnLastPath_null]
  | node info cls children ih =>
      rw [recursivePairVisit, recursivePairLoop_found ih, matchOnLastPath_iff]
      simp [Stmt.children]

/-- What it reports is a match strictly below the root. -/
theorem recursivePairVisit_pair {s pair : Stmt}
    (reported : (recursivePairVisit ehcStmt startLine endLine s pair).1 = true) :
    (recursivePairVisit ehcStmt startLine endLine s pair).2 ∈ s.descendants ∧
      isMatch ehcStmt startLine endLine
        (recursivePairVisit ehcStmt startLine endLine s pair).2 = true := by
  induction s using Stmt.tree_induction generalizing pair with
  | null => simp [recursivePairVisit] at reported
  | node info cls children ih =>
      rw [recursivePairVisit] at reported ⊢
      rcases recursivePairLoop_pair (fun child childMem pair => ih child childMem) reported
        with ⟨_, impossible, _⟩ | isBelow
      · exact absurd impossible Bool.false_ne_true
      · exact isBelow

/-- A new statement is left to the outer EHCs exactly when a match stands on the way to the
last children. -/
theorem findPair_isOuter_iff (Body : Stmt) (newstmt : EHCNewStmt) :
    (findPair Body startLine endLine newstmt).isOuter = true ↔
      MatchOnLastPath newstmt.stmt startLine endLine Body := by
  rw [← recursivePairVisit_found Body newstmt.pair, findPair]
  dsimp only
  split
  · rename_i reported
    exact iff_of_true rfl reported
  · rename_i notReported
    exact iff_of_false (by simp) notReported

end Hecaton.Pass2
