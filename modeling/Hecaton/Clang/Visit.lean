import Hecaton.Clang.Stmt

/-!
# Visits that carry a state

Most visits of the passes look at every node below a statement, before the nodes below that
node, and change some state on the way.  Such a visit is a loop over the nodes below.
-/

namespace Hecaton.Clang

universe u

variable {σ : Type u}

namespace Stmt

mutual

/-- Visit the nodes below a statement: each child and then what is below it. -/
def visitBelow (step : σ → Stmt → σ) : Stmt → σ → σ
  | .null, state => state
  | .node _ _ children, state => visitChildren step children state

/-- The loop over the children.  Null ones are passed over. -/
def visitChildren (step : σ → Stmt → σ) : List Stmt → σ → σ
  | [], state => state
  | currStmt :: rest, state =>
      if currStmt.isNull then visitChildren step rest state
      else visitChildren step rest (visitBelow step currStmt (step state currStmt))

end

/-- The visit takes its step for the nodes below the statement, in visiting order. -/
theorem visitBelow_eq_foldl (step : σ → Stmt → σ) (s : Stmt) (state : σ) :
    visitBelow step s state = s.descendants.foldl step state := by
  induction s using Stmt.tree_induction generalizing state with
  | null => simp [visitBelow, Stmt.descendants, Stmt.children]
  | node info cls children ih =>
      simp only [visitBelow, Stmt.descendants, Stmt.children]
      clear info cls
      induction children generalizing state with
      | nil => simp [visitChildren]
      | cons currStmt rest ihRest =>
          have later := ihRest fun child childMem => ih child (List.mem_cons_of_mem _ childMem)
          have here := ih currStmt List.mem_cons_self
          rw [nodesOf_cons, List.foldl_append, visitChildren]
          cases currStmt with
          | null => simp [isNull, later]
          | node info cls children =>
              simp only [isNull, Bool.false_eq_true, if_false]
              rw [later, here, nodes_node, List.foldl_cons]
              rfl

end Stmt

end Hecaton.Clang
