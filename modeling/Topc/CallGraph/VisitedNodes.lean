import Topc.CallGraph
import Topc.Weeding

/-! # Visited nodes

The analyses of function values see the calls and the assignments among the nodes
of a function. -/

namespace Topc

namespace AstNode

/-- What the analyses of function values see of a node. -/
def flowVisit : AstNode → Option FlowVisit
  | .expr (.funAppExpr info function actuals) => some (.funApp info function actuals)
  | .stmt (.assignStmt _ lhs rhs) => some (.assign lhs rhs)
  | _ => none

def visitsOf (nodes : List AstNode) : List FlowVisit :=
  nodes.filterMap flowVisit

theorem visitsOf_append (nodes others : List AstNode) :
    visitsOf (nodes ++ others) = visitsOf nodes ++ visitsOf others :=
  List.filterMap_append

/-- A node that is neither a call nor an assignment adds nothing. -/
theorem visitsOf_last {node : AstNode} (unseen : node.flowVisit = none) (nodes : List AstNode) :
    visitsOf (nodes ++ [node]) = visitsOf nodes := by
  rw [visitsOf_append, visitsOf, visitsOf, List.filterMap_cons_none unseen,
    List.filterMap_nil, List.append_nil]

end AstNode

open AstNode (visitsOf visitsOf_append visitsOf_last)

theorem Expr.flowVisitsOf_perm {exprs : List Expr}
    (each : ∀ expr ∈ exprs, (visitsOf expr.postOrder).Perm expr.flowVisits) :
    (visitsOf (Expr.postOrderOf exprs)).Perm (Expr.flowVisitsOf exprs) := by
  induction exprs with
  | nil => exact .refl _
  | cons expr exprs induction =>
      rw [Expr.postOrderOf, Expr.flowVisitsOf, visitsOf_append]
      exact (each expr List.mem_cons_self).append
        (induction fun other member => each other (List.mem_cons_of_mem _ member))

theorem Expr.flowVisits_perm (expr : Expr) :
    (visitsOf expr.postOrder).Perm expr.flowVisits := by
  induction expr with
  | numExpr info value => exact .refl _
  | varExpr info name => exact .refl _
  | inputExpr info => exact .refl _
  | binaryExpr info op left right leftPerm rightPerm =>
      rw [Expr.postOrder, Expr.flowVisits, visitsOf_last rfl, visitsOf_append]
      exact leftPerm.append rightPerm
  | funAppExpr info function actuals functionPerm actualsPerm =>
      rw [Expr.postOrder, Expr.flowVisits, visitsOf_append, visitsOf_append]
      apply List.perm_append_comm.trans
      exact .cons _ (functionPerm.append (Expr.flowVisitsOf_perm actualsPerm))
  | allocExpr info initializer perm =>
      rw [Expr.postOrder, Expr.flowVisits, visitsOf_last rfl]
      exact perm
  | borrowExpr info var perm =>
      rw [Expr.postOrder, Expr.flowVisits, visitsOf_last rfl]
      exact perm
  | deRefExpr info ptr perm =>
      rw [Expr.postOrder, Expr.flowVisits, visitsOf_last rfl]
      exact perm
  | sumCtorExpr info tag args argsPerm =>
      rw [Expr.postOrder, Expr.flowVisits, visitsOf_last rfl]
      exact Expr.flowVisitsOf_perm argsPerm

theorem Stmt.flowVisitsOf_perm {stmts : List Stmt}
    (each : ∀ stmt ∈ stmts, (visitsOf stmt.postOrder).Perm stmt.flowVisits) :
    (visitsOf (Stmt.postOrderOf stmts)).Perm (Stmt.flowVisitsOf stmts) := by
  induction stmts with
  | nil => exact .refl _
  | cons stmt stmts induction =>
      rw [Stmt.postOrderOf, Stmt.flowVisitsOf, visitsOf_append]
      exact (each stmt List.mem_cons_self).append
        (induction fun other member => each other (List.mem_cons_of_mem _ member))

theorem CaseArm.flowVisitsOf_perm {arms : List CaseArm}
    (each : ∀ arm ∈ arms, (visitsOf arm.getBody.postOrder).Perm arm.getBody.flowVisits) :
    (visitsOf (CaseArm.postOrderOf arms)).Perm (CaseArm.flowVisitsOf arms) := by
  induction arms with
  | nil => exact .refl _
  | cons arm arms induction =>
      have first := each arm List.mem_cons_self
      cases arm
      rw [CaseArm.postOrderOf, CaseArm.flowVisitsOf, visitsOf_append]
      exact first.append (induction fun other member => each other (List.mem_cons_of_mem _ member))

theorem Stmt.flowVisits_perm (stmt : Stmt) :
    (visitsOf stmt.postOrder).Perm stmt.flowVisits := by
  induction stmt with
  | assignStmt info lhs rhs =>
      rw [Stmt.postOrder, Stmt.flowVisits, visitsOf_append, visitsOf_append]
      apply List.perm_append_comm.trans
      exact .cons _ (lhs.flowVisits_perm.append rhs.flowVisits_perm)
  | blockStmt info stmts each =>
      rw [Stmt.postOrder, Stmt.flowVisits, visitsOf_last rfl]
      exact Stmt.flowVisitsOf_perm each
  | whileStmt info condition body bodyPerm =>
      rw [Stmt.postOrder, Stmt.flowVisits, visitsOf_last rfl, visitsOf_append]
      exact condition.flowVisits_perm.append bodyPerm
  | ifStmt info condition thenStmt elseStmt thenPerm elsePerm =>
      have first := condition.flowVisits_perm.append thenPerm
      rw [Stmt.postOrder, visitsOf_last rfl, visitsOf_append, visitsOf_append]
      cases elseStmt with
      | none =>
          rw [Stmt.flowVisits, Stmt.elsePostOrder]
          exact (List.append_nil _).symm ▸ first
      | some elseBody =>
          rw [Stmt.flowVisits, Stmt.elsePostOrder, ← List.append_assoc]
          exact first.append (elsePerm elseBody rfl)
  | outputStmt info arg =>
      rw [Stmt.postOrder, Stmt.flowVisits, visitsOf_last rfl]
      exact arg.flowVisits_perm
  | errorStmt info arg =>
      rw [Stmt.postOrder, Stmt.flowVisits, visitsOf_last rfl]
      exact arg.flowVisits_perm
  | caseStmt info caseExpr arms each =>
      rw [Stmt.postOrder, Stmt.flowVisits, visitsOf_last rfl, visitsOf_append]
      exact caseExpr.flowVisits_perm.append (CaseArm.flowVisitsOf_perm each)

/-- Both analyses visit the calls and the assignments of a function. -/
theorem Function.mem_flowVisits {function : Function} {visited : FlowVisit} :
    visited ∈ function.flowVisits ↔ ∃ node ∈ function.postOrder, node.flowVisit = some visited := by
  have perm : (visitsOf function.postOrder).Perm function.flowVisits := by
    rw [Function.postOrder, visitsOf_append]
    exact (Stmt.flowVisitsOf_perm fun stmt _ => stmt.flowVisits_perm).append
      function.returnArg.flowVisits_perm
  rw [← perm.mem_iff, visitsOf, List.mem_filterMap]

end Topc
