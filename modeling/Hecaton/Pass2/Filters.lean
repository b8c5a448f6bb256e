import Hecaton.Pass2.State
import Hecaton.Pass2.Text
import Mathlib.Algebra.Ring.Nat

/-!
# Filters

Before statements become undo code, calls that only log or compare, loops,
critical sections and the `return` statements themselves are taken out of the
EHCs.
-/

namespace Hecaton.Pass2

open Hecaton.Clang

/-- `erase` of the statements that meet a test; null pointers stay. -/
def eraseStmts (deleteThisStmt : Stmt → Bool) (ehc : EHC) : EHC :=
  { ehc with
    ehcStmts := ehc.ehcStmts.filter fun currStmt => currStmt.isNull || !deleteThisStmt currStmt }

/-- The text contains an entry of the list. -/
def containsAny (list : List String) (str : String) : Bool := list.any (contains str)

/-- `blacklist`. -/
def blacklist : List String :=
  ["print", "pr_", "break", "continue", "goto", "__builtin_", "rc =", "rc=", "dev_err", "dev_crit",
    "dev_info", "dev_warn", "cam_debug_log", "cam_get_module_name", "dump_stack", "ERR_CAST",
    "ERR_PTR", "IS_ERR", "netdev_err", "netdev_info", "netdev_priv", "netdev_warn",
    "pd_engine_log", "PTR_ERR", "sde_evtlog_log", "strcmp", "strlcpy", "strncasecmp", "strncmp",
    "panic", "write_seqcount_end"]

/-- `lock_list`. -/
def lockList : List String :=
  ["mutex_lock", "mutex_lock_interruptible", "_raw_read_lock", "spin_lock", "spin_lock_bh",
    "spin_lock_irq", "write_seqcount_begin"]

/-- `loop_list`. -/
def loopList : List String := ["for(", "for (", "while(", "while ("]

/-- `delete_blacklist_functions`. -/
def deleteBlacklistFunctions (f : Function) : Function :=
  { f with
    EHCs := f.EHCs.map (eraseStmts fun currStmt => containsAny blacklist currStmt.info.printed) }

/-- `handle_loops`. -/
def handleLoops (f : Function) : Function :=
  { f with
    EHCs := f.EHCs.map (eraseStmts fun currStmt => containsAny loopList currStmt.info.text) }

/-- `handle_critical_sections`. -/
def handleCriticalSections (f : Function) : Function :=
  { f with
    EHCs := f.EHCs.map (eraseStmts fun currStmt => containsAny lockList currStmt.info.printed) }

/-- The name of a variable that is read as it is: `getSubExpr` of an implicit
cast is a reference. -/
def castOfName : Stmt → Option String
  | .node _ .implicitCastExpr (.node _ (.declRefExpr name) _ :: _) => some name
  | _ => none

/-- The value of an integer literal, as an `int`. -/
def literalInt : Stmt → Option Int
  | .node _ (.integerLiteral value) _ => some (Int.bmod value (2 ^ 32))
  | _ => none

/-- The operand of a minus sign. -/
def negatedExpr : Stmt → Stmt
  | .node _ (.unaryOperator .minus) (operand :: _) => operand
  | _ => .null

/-- The value of an assignment of a negated literal to the variable. -/
def assignedLiteral (name : String) : Stmt → Option Int
  | .node _ (.binaryOperator .assign) (.node _ (.declRefExpr rcstr) _ :: rhs :: _) =>
      if rcstr = name then literalInt (negatedExpr rhs) else none
  | _ => none

/-- The loop of `handle_return` over one EHC: the statements it has passed, the
value recorded, and the statements to come.  A `return` of a variable takes all
assignments of negated literals to that variable with it, on both sides. -/
def handleReturnLoop : Nat → List Stmt → Int → List Stmt → List Stmt × Int
  | 0, passed, returnVal, rest => (passed ++ rest, returnVal)
  | _, passed, returnVal, [] => (passed, returnVal)
  | rounds + 1, passed, returnVal, currStmt :: rest =>
      if currStmt.isReturn then
        let retval := currStmt.child 0
        if retval.isNull then handleReturnLoop rounds passed returnVal rest
        else
          let keeps := fun stmt =>
            match castOfName retval with
            | some retstr => (assignedLiteral retstr stmt).isNone
            | none => true
          let assigned :=
            match castOfName retval with
            | some retstr => (passed ++ rest).filterMap (assignedLiteral retstr)
            | none => []
          let retInt := assigned.getLastD 0
          let retInt := (literalInt (negatedExpr retval.subExprAsWritten)).getD retInt
          handleReturnLoop rounds (passed.filter keeps) retInt (rest.filter keeps)
      else handleReturnLoop rounds (passed ++ [currStmt]) returnVal rest

/-- `handle_return` for one EHC.  Every round passes a statement. -/
def handleReturnEhc (ehc : EHC) : EHC :=
  let (stmts, returnVal) := handleReturnLoop ehc.ehcStmts.length [] ehc.returnVal ehc.ehcStmts
  { ehc with ehcStmts := stmts, returnVal := returnVal }

/-- `handle_return`. -/
def handleReturn (f : Function) : Function :=
  { f with EHCs := f.EHCs.map handleReturnEhc }

/-! ## Filters only take statements away -/

/-- Every EHC of the second list comes from one of the first, with the head
changed at most in its type and with fewer statements. -/
def Shrinks (before after : List EHC) : Prop :=
  ∀ ehc ∈ after, ∃ source ∈ before, ehc.ehcStmts.Sublist source.ehcStmts ∧
    ehc.ehcNewStmts = source.ehcNewStmts

theorem Shrinks.trans {first second third : List EHC} (outer : Shrinks first second)
    (inner : Shrinks second third) : Shrinks first third := by
  intro ehc ehcMem
  obtain ⟨middle, middleMem, sub, same⟩ := inner ehc ehcMem
  obtain ⟨source, sourceMem, sub', same'⟩ := outer middle middleMem
  exact ⟨source, sourceMem, sub.trans sub', same.trans same'⟩

theorem shrinks_map {change : EHC → EHC} (ehcs : List EHC)
    (shrink : ∀ ehc, (change ehc).ehcStmts.Sublist ehc.ehcStmts ∧
      (change ehc).ehcNewStmts = ehc.ehcNewStmts) : Shrinks ehcs (ehcs.map change) := by
  intro ehc ehcMem
  obtain ⟨source, sourceMem, rfl⟩ := List.mem_map.mp ehcMem
  exact ⟨source, sourceMem, shrink source⟩

theorem shrinks_eraseStmts (deleteThisStmt : Stmt → Bool) (ehcs : List EHC) :
    Shrinks ehcs (ehcs.map (eraseStmts deleteThisStmt)) :=
  shrinks_map ehcs fun _ => ⟨List.filter_sublist, rfl⟩

theorem handleReturnLoop_sublist (rounds : Nat) (passed rest : List Stmt) (returnVal : Int) :
    (handleReturnLoop rounds passed returnVal rest).1.Sublist (passed ++ rest) := by
  induction rounds generalizing passed rest returnVal with
  | zero => simp [handleReturnLoop]
  | succ rounds ih =>
      cases rest with
      | nil => simp [handleReturnLoop]
      | cons currStmt rest =>
          have shorter : (passed ++ rest).Sublist (passed ++ currStmt :: rest) :=
            (List.sublist_cons_self currStmt rest).append_left passed
          simp only [handleReturnLoop]
          split
          · split
            · exact (ih passed rest returnVal).trans shorter
            · refine (ih _ _ _).trans (List.Sublist.trans ?_ shorter)
              exact List.filter_sublist.append List.filter_sublist
          · simpa using ih (passed ++ [currStmt]) rest returnVal

theorem shrinks_handleReturn (ehcs : List EHC) : Shrinks ehcs (ehcs.map handleReturnEhc) := by
  apply shrinks_map
  intro ehc
  exact ⟨handleReturnLoop_sublist _ [] _ _, rfl⟩

end Hecaton.Pass2
