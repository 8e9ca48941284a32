import Topc.Weeding

/-! # Statements among the nodes of a function

A statement comes after its own nodes, which the nodes of its function include. -/

namespace Topc

/-- The nodes of expressions are expressions. -/
theorem Expr.stmt_notMem_postOrder (expr : Expr) : ∀ stmt, .stmt stmt ∉ expr.postOrder := by
  have ofAll : ∀ exprs : List Expr, (∀ expr ∈ exprs, ∀ stmt, .stmt stmt ∉ expr.postOrder) →
      ∀ stmt, .stmt stmt ∉ Expr.postOrderOf exprs := by
    intro exprs each stmt
    induction exprs with
    | nil => exact List.not_mem_nil
    | cons expr exprs induction =>
        rw [Expr.postOrderOf, List.mem_append, not_or]
        exact ⟨each expr List.mem_cons_self stmt,
          induction fun other member => each other (List.mem_cons_of_mem _ member)⟩
  induction expr with
  | numExpr | varExpr | inputExpr => simp [Expr.postOrder]
  | binaryExpr info op left right leftNodes rightNodes =>
      simp [Expr.postOrder, leftNodes, rightNodes]
  | funAppExpr info function actuals functionNodes actualsNodes =>
      simp [Expr.postOrder, functionNodes, ofAll actuals actualsNodes]
  | allocExpr info initializer nodes | borrowExpr info initializer nodes
  | deRefExpr info initializer nodes => simp [Expr.postOrder, nodes]
  | sumCtorExpr info tag args argsNodes => simp [Expr.postOrder, ofAll args argsNodes]

/-- The nodes include those of each statement among them, in their order. -/
def StmtsClosed (nodes : List AstNode) : Prop :=
  ∀ stmt, .stmt stmt ∈ nodes → stmt.postOrder.Sublist nodes

namespace StmtsClosed

variable {nodes others : List AstNode}

theorem nil : StmtsClosed [] :=
  fun _ member => absurd member List.not_mem_nil

theorem append (first : StmtsClosed nodes) (second : StmtsClosed others) :
    StmtsClosed (nodes ++ others) := by
  intro stmt member
  rcases List.mem_append.mp member with left | right
  · exact (first stmt left).trans (List.sublist_append_left _ _)
  · exact (second stmt right).trans (List.sublist_append_right _ _)

theorem expr (expr : Expr) : StmtsClosed expr.postOrder :=
  fun _ member => absurd member (expr.stmt_notMem_postOrder _)

/-- A statement is the last of its nodes. -/
theorem of_children (closed : StmtsClosed nodes) {stmt : Stmt}
    (split : stmt.postOrder = nodes ++ [.stmt stmt]) : StmtsClosed stmt.postOrder := by
  intro inner member
  rw [split] at member
  rcases List.mem_append.mp member with inside | last
  · rw [split]
    exact (closed inner inside).trans (List.sublist_append_left _ _)
  · cases List.mem_singleton.mp last
    exact List.Sublist.refl _

end StmtsClosed

theorem Stmt.postOrderOf_stmtsClosed {stmts : List Stmt}
    (each : ∀ stmt ∈ stmts, StmtsClosed stmt.postOrder) :
    StmtsClosed (Stmt.postOrderOf stmts) := by
  induction stmts with
  | nil => exact .nil
  | cons stmt stmts induction =>
      exact (each stmt List.mem_cons_self).append
        (induction fun other member => each other (List.mem_cons_of_mem _ member))

theorem CaseArm.postOrderOf_stmtsClosed {arms : List CaseArm}
    (each : ∀ arm ∈ arms, StmtsClosed arm.getBody.postOrder) :
    StmtsClosed (CaseArm.postOrderOf arms) := by
  induction arms with
  | nil => exact .nil
  | cons arm arms induction =>
      have later := induction fun other member => each other (List.mem_cons_of_mem _ member)
      cases arm with
      | mk info tag patterns body => exact (each _ List.mem_cons_self).append later

theorem Stmt.postOrder_stmtsClosed (stmt : Stmt) : StmtsClosed stmt.postOrder := by
  induction stmt with
  | assignStmt info lhs rhs => exact ((StmtsClosed.expr lhs).append (.expr rhs)).of_children rfl
  | blockStmt info stmts each => exact (Stmt.postOrderOf_stmtsClosed each).of_children rfl
  | whileStmt info condition body bodyClosed =>
      exact ((StmtsClosed.expr condition).append bodyClosed).of_children rfl
  | ifStmt info condition thenStmt elseStmt thenClosed elseClosed =>
      apply (((StmtsClosed.expr condition).append thenClosed).append _).of_children rfl
      cases elseStmt with
      | none => exact .nil
      | some stmt => exact elseClosed stmt rfl
  | outputStmt info arg | errorStmt info arg => exact (StmtsClosed.expr arg).of_children rfl
  | caseStmt info caseExpr arms each =>
      exact ((StmtsClosed.expr caseExpr).append
        (CaseArm.postOrderOf_stmtsClosed each)).of_children rfl

theorem Function.postOrder_stmtsClosed (function : Function) : StmtsClosed function.postOrder :=
  (Stmt.postOrderOf_stmtsClosed fun stmt _ => stmt.postOrder_stmtsClosed).append
    (.expr function.returnArg)

/-! ## Nodes of nested statements -/

theorem Stmt.postOrder_subset_of_mem {stmt : Stmt} {stmts : List Stmt} (member : stmt ∈ stmts) :
    stmt.postOrder ⊆ Stmt.postOrderOf stmts := by
  induction stmts with
  | nil => cases member
  | cons head stmts induction =>
      rw [Stmt.postOrderOf]
      rcases List.mem_cons.mp member with rfl | later
      · exact List.subset_append_left _ _
      · exact List.Subset.trans (induction later) (List.subset_append_right _ _)

theorem CaseArm.body_subset_of_mem {arm : CaseArm} {arms : List CaseArm} (member : arm ∈ arms) :
    arm.getBody.postOrder ⊆ CaseArm.postOrderOf arms := by
  induction arms with
  | nil => cases member
  | cons head arms induction =>
      rw [CaseArm.postOrderOf]
      rcases List.mem_cons.mp member with rfl | later
      · cases arm
        exact List.subset_append_left _ _
      · exact List.Subset.trans (induction later) (List.subset_append_right _ _)

end Topc
