import Topc.MoveAnalysis.MatchPlan
import Topc.MoveAnalysis.TemporaryDisposal
import Topc.SemanticAnalysis.CellContents

/-! # Temporaries of accepted programs

The checks leave a temporary only where the plan disposes of it, or where it is
compared, given to a call that does not consume it, or put into a recursive cell. -/

namespace Topc

namespace Temporaries

open MoveAnalysis (Context)
open TypeConstraintVisitor (astToVar)
open TopTypeClosure (solvedClass)

theorem temporary?_of_copy {types : TypeResults} {expr : Expr}
    (isCopy : OwnershipClassifier.classifyValue types expr = .copy) :
    temporary? types expr = none := by
  unfold temporary?
  rw [isCopy]
  cases expr <;> rfl

theorem temporary?_own {types : TypeResults} {expr : Expr}
    (isTemporary : temporary? types expr ≠ none) :
    OwnershipClassifier.classifyValue types expr = .own := by
  cases class' : OwnershipClassifier.classifyValue types expr with
  | own => rfl
  | copy => exact absurd (temporary?_of_copy class') isTemporary

/-- What a store writes to is no node of the stored expression. -/
theorem target_apart {function : Function} (distinct : (exprIds function.postOrder).Nodup)
    {info derefInfo : NodeInfo} {ptr rhs : Expr}
    (member : .stmt (.assignStmt info (.deRefExpr derefInfo ptr) rhs) ∈ function.postOrder) :
    ptr.info.id ∉ exprIds rhs.postOrder := by
  have nodes : ((Expr.deRefExpr derefInfo ptr).postOrder ++ rhs.postOrder).Sublist
      function.postOrder :=
    (List.sublist_append_left _ _).trans (function.postOrder_stmtsClosed _ member)
  have inside : (exprIds ((Expr.deRefExpr derefInfo ptr).postOrder ++ rhs.postOrder)).Nodup :=
    List.Nodup.sublist (List.Sublist.filterMap _ nodes) distinct
  rw [exprIds, List.filterMap_append, List.nodup_append] at inside
  intro again
  refine inside.2.2 ptr.info.id ?_ _ again rfl
  rw [List.mem_filterMap]
  exact ⟨.expr ptr, List.mem_append_left _ ptr.self_mem_postOrder, rfl⟩

section

variable {analysis : SemanticAnalysis} {program : Program} (analyzes : analysis.Analyzes program)
  {function : Function} (functionMem : function ∈ program.functions)

/-! ## Nodes that the plan knows -/

include analyzes functionMem

theorem planned {node : AstNode} (member : node ∈ function.postOrder) :
    MoveAnalysis.PlannedAt (analysis.moveContext function) analysis.destructionPlan node :=
  MoveAnalysis.run_plans analyzes.assignable analyzes.moves function functionMem node member

theorem borrow_variable {info : NodeInfo} {var : Expr}
    (member : .expr (.borrowExpr info var) ∈ function.postOrder) :
    temporary? analysis.typeResults var = none := by
  have assignable := (CheckAssignable.check_assignable analyzes.assignable).borrows info var
    (List.mem_flatMap.mpr ⟨function, functionMem, member⟩)
  cases var with
  | varExpr => rfl
  | _ => cases assignable

theorem case_consuming {info : NodeInfo} {caseExpr : Expr} {arms : List CaseArm}
    (member : .stmt (.caseStmt info caseExpr arms) ∈ function.postOrder)
    (isTemporary : temporary? analysis.typeResults caseExpr ≠ none) :
    info.id ∈ analysis.destructionPlan.consumingMatches := by
  have byValue : caseExpr.isDeRef = false := by
    cases caseExpr with
    | deRefExpr => exact absurd rfl isTemporary
    | _ => rfl
  exact (planned analyzes functionMem member byValue).1

variable (distinct : (program.functions.map Function.decl).Nodup)

include distinct

/-! ## Nodes of a solved type -/

theorem int_operand {expr : Expr} (member : .expr expr ∈ function.postOrder)
    (isInt : analysis.unifier.root (astToVar analysis.marked function.decl expr) =
      analysis.unifier.root .int) : temporary? analysis.typeResults expr = none :=
  temporary?_of_copy (analyzes.classOf_int distinct functionMem member isInt)

theorem arithmetic_operands {info : NodeInfo} {op : BinaryOp} {left right : Expr}
    (member : .expr (.binaryExpr info op left right) ∈ function.postOrder) (notEq : op ≠ .eq)
    (notNeq : op ≠ .neq) : temporary? analysis.typeResults left = none ∧
      temporary? analysis.typeResults right = none := by
  have nodes := function.postOrder_closed _ member
  rw [Expr.postOrder] at nodes
  have leftMem : .expr left ∈ function.postOrder :=
    nodes (List.mem_append_left _ (List.mem_append_left _ left.self_mem_postOrder))
  have rightMem : .expr right ∈ function.postOrder :=
    nodes (List.mem_append_left _ (List.mem_append_right _ right.self_mem_postOrder))
  have satisfied := analyzes.satisfies distinct functionMem member (by simp)
  have ints : (astToVar analysis.marked function.decl left, TopType.int) ∈
        TypeConstraintVisitor.endVisit analysis.marked function.decl
          (.expr (.binaryExpr info op left right)) ∧
      (astToVar analysis.marked function.decl right, TopType.int) ∈
        TypeConstraintVisitor.endVisit analysis.marked function.decl
          (.expr (.binaryExpr info op left right)) := by
    cases op <;> simp_all [TypeConstraintVisitor.endVisit, TypeConstraintVisitor.endVisitBinary]
  exact ⟨int_operand analyzes functionMem distinct leftMem (satisfied _ ints.1),
    int_operand analyzes functionMem distinct rightMem (satisfied _ ints.2)⟩

theorem callee_kept {info : NodeInfo} {callee : Expr} {actuals : List Expr}
    (member : .expr (.funAppExpr info callee actuals) ∈ function.postOrder) :
    temporary? analysis.typeResults callee = none := by
  cases callee with
  | varExpr => rfl
  | _ =>
      apply temporary?_of_copy
      exact analyzes.classOf_callee distinct functionMem member rfl

/-- An owned value goes only into a cell whose type recurs. -/
theorem alloc_recursive {info : NodeInfo} {initializer : Expr}
    (member : .expr (.allocExpr info initializer) ∈ function.postOrder)
    (isTemporary : temporary? analysis.typeResults initializer ≠ none) :
    (analysis.typeResults.ofExpr (.allocExpr info initializer)).isMu = true := by
  rcases analyzes.alloc_content functionMem distinct member with recursive | isCopy
  · exact recursive
  · exact absurd (temporary?_of_copy isCopy) isTemporary

/-- A constructor makes no reference. -/
theorem deref_of_constructor {info ctorInfo : NodeInfo} {tag : String} {args : List Expr} :
    .expr (.deRefExpr info (.sumCtorExpr ctorInfo tag args)) ∉ function.postOrder := by
  intro member
  have ctorMem : .expr (.sumCtorExpr ctorInfo tag args) ∈ function.postOrder := by
    apply function.postOrder_closed _ member
    exact List.mem_append_left _ (Expr.self_mem_postOrder _)
  have checked := forM_eq_ok.mp analyzes.caseCompleteness _
    (List.mem_flatMap.mpr ⟨function, functionMem, ctorMem⟩)
  simp only [CheckCaseCompleteness.endVisit, CheckCaseCompleteness.endVisitSumCtor] at checked
  split at checked
  · cases checked
  · rename_i arity typeName declared
    rcases Program.lookup_declared declared with ⟨owner, variant, declares, isTag, _⟩
    have holds := analyzes.holdsConstructors distinct
    have ctorSatisfied := analyzes.satisfies distinct functionMem ctorMem (by simp)
    rw [TypeConstraintVisitor.endVisit, TypeConstraintVisitor.endVisitSumCtor, ← isTag,
      holds.variants declares, holds.owners declares] at ctorSatisfied
    have isSum := ctorSatisfied _ List.mem_cons_self
    have isReference := analyzes.satisfies distinct functionMem member (by simp) _
      (List.mem_singleton_self _)
    exact TopTypeClosure.root_reference_ne_sumType (analyzes.congruent distinct) _ _ _ _ _
      (isReference.trans isSum)

theorem deref_freed {info : NodeInfo} {ptr : Expr}
    (member : .expr (.deRefExpr info ptr) ∈ function.postOrder)
    (isTemporary : temporary? analysis.typeResults ptr ≠ none) :
    info.id ∈ analysis.destructionPlan.freeAfterUse := by
  apply planned analyzes functionMem member
  have owned := temporary?_own isTemporary
  cases ptr with
  | funAppExpr | allocExpr =>
      rw [MoveAnalysis.isUnboundReference]
      simp [SemanticAnalysis.moveContext, MoveAnalysis.contextOf, owned]
  | sumCtorExpr => exact absurd member (deref_of_constructor analyzes functionMem distinct)
  | _ => exact absurd rfl isTemporary

/-! ## Every node is checked -/

theorem checked_expr {expr : Expr} (member : .expr expr ∈ function.postOrder) :
    Checked (analysis.moveContext function) analysis.destructionPlan (.expr expr) := by
  cases expr with
  | binaryExpr info op left right => exact arithmetic_operands analyzes functionMem distinct member
  | funAppExpr info callee actuals => exact callee_kept analyzes functionMem distinct member
  | allocExpr info initializer => exact alloc_recursive analyzes functionMem distinct member
  | borrowExpr info var => exact borrow_variable analyzes functionMem member
  | deRefExpr info ptr => exact deref_freed analyzes functionMem distinct member
  | _ => trivial

theorem checked_stmt (idsDistinct : (exprIds function.postOrder).Nodup) {stmt : Stmt}
    (member : .stmt stmt ∈ function.postOrder) :
    Checked (analysis.moveContext function) analysis.destructionPlan (.stmt stmt) := by
  have nodes := (function.postOrder_stmtsClosed _ member).subset
  cases stmt with
  | assignStmt info lhs rhs =>
      have target := (CheckAssignable.check_assignable analyzes.assignable).assigns info lhs rhs
        (List.mem_flatMap.mpr ⟨function, functionMem, member⟩)
      cases lhs with
      | deRefExpr derefInfo ptr =>
          exact ⟨temporary?_of_copy (analyzes.stored_copy functionMem distinct member),
            target_apart idsDistinct member⟩
      | varExpr => rfl
      | _ => simp [CheckAssignable.isAssignable, Expr.isDeRef] at target
  | whileStmt info condition body | ifStmt info condition thenStmt elseStmt =>
      refine int_operand analyzes functionMem distinct (nodes ?_)
        (analyzes.satisfies distinct functionMem member (by simp) _ (List.mem_singleton_self _))
      simp [Stmt.postOrder, condition.self_mem_postOrder]
  | outputStmt info arg | errorStmt info arg =>
      refine int_operand analyzes functionMem distinct (nodes ?_)
        (analyzes.satisfies distinct functionMem member (by simp) _ (List.mem_singleton_self _))
      simp [Stmt.postOrder, arg.self_mem_postOrder]
  | caseStmt info caseExpr arms => exact case_consuming analyzes functionMem member
  | blockStmt => trivial

/-- On every path through a function of an accepted program each temporary is disposed
of once, exactly when no node of the function loses one: by comparing it, by passing
it to a call that does not consume it or by putting it into a recursive cell. -/
theorem accepted_disposedOnce (idsDistinct : (exprIds function.postOrder).Nodup) :
    Handling.AllDisposedOnce
        (functionTraces (analysis.moveContext function) analysis.destructionPlan function) ↔
      ∀ node ∈ function.postOrder, HandsOn (analysis.moveContext function) node := by
  apply (function_judged _).verdict
  intro node member
  cases node with
  | expr expr => exact checked_expr analyzes functionMem distinct member
  | stmt stmt => exact checked_stmt analyzes functionMem distinct idsDistinct member

end

namespace BoxedNumber

def box : SumTypeDecl where
  name := "Box"
  variants := [{ tag := "Full", params := [{ id := 1, name := "n" }] }]

/-- `mk(x) { return alloc x; }` -/
def mk : Function where
  decl := { id := 2, name := "mk" }
  formals := [{ id := 3, name := "x" }]
  declarations := []
  stmts := []
  returnInfo := { id := 4 }
  returnArg := .allocExpr { id := 5 } (.varExpr { id := 6 } "x")

/-- `open(b) { var r; case b of { Full(v) -> r = v; } return r; }` -/
def opens : Function where
  decl := { id := 7, name := "open" }
  formals := [{ id := 8, name := "b" }]
  declarations := [{ id := 9, name := "r" }]
  stmts := [.caseStmt { id := 10 } (.varExpr { id := 11 } "b")
    [.mk { id := 12 } "Full" [.var { id := 13 } { id := 14, name := "v" }]
      (.assignStmt { id := 15 } (.varExpr { id := 16 } "r") (.varExpr { id := 17 } "v"))]]
  returnInfo := { id := 18 }
  returnArg := .varExpr { id := 19 } "r"

/-- `main() { var n; n = open(Full(*mk(7))); case Full(n) of { Full(m) -> n = m; } return n; }` -/
def main : Function where
  decl := { id := 20, name := "main" }
  formals := []
  declarations := [{ id := 21, name := "n" }]
  stmts := [
    .assignStmt { id := 22 } (.varExpr { id := 23 } "n")
      (.funAppExpr { id := 24 } (.varExpr { id := 25 } "open")
        [.sumCtorExpr { id := 26 } "Full" [.deRefExpr { id := 27 }
          (.funAppExpr { id := 28 } (.varExpr { id := 29 } "mk") [.numExpr { id := 30 } 7])]]),
    .caseStmt { id := 31 } (.sumCtorExpr { id := 32 } "Full" [.varExpr { id := 33 } "n"])
      [.mk { id := 34 } "Full" [.var { id := 35 } { id := 36, name := "m" }]
        (.assignStmt { id := 37 } (.varExpr { id := 38 } "n") (.varExpr { id := 39 } "m"))]]
  returnInfo := { id := 40 }
  returnArg := .varExpr { id := 41 } "n"

def program : Program where
  typedecls := [box]
  functions := [mk, opens, main]

/-- The temporaries of `main` are the box that `mk` makes and the two sums. -/
theorem main_disposedOnce : ∃ analysis : SemanticAnalysis, analysis.Analyzes program ∧
    Handling.AllDisposedOnce
      (functionTraces (analysis.moveContext main) analysis.destructionPlan main) := by
  have holds : ((SemanticAnalysis.analyze program id SemanticAnalysis.boundedPath 16 64).map
      fun analysis => decide (∀ node ∈ main.postOrder, HandsOn (analysis.moveContext main) node)) =
        some true := by
    decide +kernel
  rcases Option.map_eq_some_iff.mp holds with ⟨analysis, ran, handsOn⟩
  have analyzes := SemanticAnalysis.analyze_analyzes ran
  have mainMem : main ∈ program.functions := by simp [program]
  refine ⟨analysis, analyzes, ?_⟩
  exact (accepted_disposedOnce analyzes mainMem (by decide +kernel) (by decide +kernel)).mpr
    (of_decide_eq_true handsOn)

end BoxedNumber

end Temporaries

end Topc
