import Topc.CodeGen.CompiledCases
import Topc.Weeding.NestedStatements

/-! # Compiled statements

Induction on statements, with the rule for each of their forms. -/

namespace Topc

open BasicBlocks CodeGenVisitor

/-- Each case statement among the nodes tells the constructors of its arms apart. -/
def CasesDistinct (symbols : SymbolTable) (nodes : List AstNode) : Prop :=
  ∀ info caseExpr arms, .stmt (.caseStmt info caseExpr arms) ∈ nodes →
    Activation.TagsDistinct (CaseCodeGen.ownerDecl symbols arms) arms

theorem CasesDistinct.mono {symbols : SymbolTable} {nodes others : List AstNode}
    (distinct : CasesDistinct symbols nodes) (includes : others ⊆ nodes) :
    CasesDistinct symbols others :=
  fun info caseExpr arms member => distinct info caseExpr arms (includes member)

namespace Execution

variable {execution : Execution} {given : Knowledge Word} {scope : NamedValues}

/-- The code of a statement does what the statement does, in any scope. -/
def Performs (execution : Execution) (stmt : Stmt) : Prop :=
  ∀ scope given, execution.Implements given (fun state => state = scope)
    (generateStmt execution.activation.context stmt) (execution.activation.evalStmt scope stmt) stay
    nothing fun state => state = scope

/-- A value is computed and given to the runtime library. -/
theorem computeRun {expr : Expr} {operation : IrOperand → IrOperation}
    {run : Word → Runtime.Run Word} (denotes : ∀ operand value call registers,
      valueOf execution.locals registers operand = value →
        (operation operand).run execution.activation.platform execution.functions call
          (valueOf execution.locals registers) = run value) :
    execution.Implements given (fun state => state = scope) (do
        let value ← generateExpr execution.activation.context expr
        let _ ← Gen.emit (operation value))
      (do
        let value ← execution.activation.evalExpr scope expr
        let _ ← run value) stay nothing fun state => state = scope := by
  apply (execution.generateExpr_computes scope expr given).bind
  intro operand value
  apply Compiles.bind
  · apply emitRun
    exact fun _ registers call known => denotes operand value call registers known.2.2
  · exact fun _ _ => Compiles.done

theorem assignStmt_performs (info : NodeInfo) (lhs rhs : Expr) :
    execution.Performs (.assignStmt info lhs rhs) := by
  intro scope given
  rw [generateStmt, Activation.evalStmt]
  apply (execution.generateAddress_computes scope lhs given).bind
  intro target address
  apply (execution.generateExpr_computes scope rhs _).bind
  intro operand value
  apply Compiles.bind
  · apply emitRun
    exact fun _ _ _ known => congrArg₂ Runtime.store known.2.2 known.1.2.2
  · intro _ _
    apply freeIf_implements
    exact fun _ _ known => known.1.1.2.2

theorem stmts_perform {stmts : List Stmt} (each : ∀ stmt ∈ stmts, execution.Performs stmt) :
    ∀ given, execution.Implements given (fun state => state = scope)
      (generateStmts execution.activation.context stmts)
      (execution.activation.evalStmts scope stmts) stay nothing fun state => state = scope := by
  induction stmts with
  | nil => exact fun _ => Compiles.done
  | cons stmt stmts induction =>
      intro given
      rw [generateStmts, Activation.evalStmts]
      apply (each stmt List.mem_cons_self scope given).bind
      exact fun _ _ => induction (fun other member => each other (List.mem_cons_of_mem _ member)) _

theorem blockStmt_performs (info : NodeInfo) {stmts : List Stmt}
    (each : ∀ stmt ∈ stmts, execution.Performs stmt) :
    execution.Performs (.blockStmt info stmts) := by
  intro scope given
  cases stmts with
  | nil =>
      rw [generateStmt, Activation.evalStmt]
      exact nop_implements
  | cons stmt stmts =>
      rw [generateStmt, Activation.evalStmt]
      exact stmts_perform each given

/-- The test of a condition. -/
theorem condition_computes (condition : Expr) :
    execution.Implements given (fun state => state = scope) (do
        let value ← generateExpr execution.activation.context condition
        Gen.emit (.binary .icmpNe value (number 0)))
      (do
        return decide ((← execution.activation.evalExpr scope condition) ≠ 0)) stay
      (Compiles.Decides (irMachine execution.activation.platform execution.functions
        execution.sumDestroyCode) execution.locals) fun state => state = scope := by
  apply (execution.generateExpr_computes scope condition given).bind
  intro operand value
  apply Compiles.compute
  · intro bound registers call world known
    exact congrArg (fun word : Word => some (Outcome.returned (Word.ofBool (word ≠ 0)) world))
      known.2.2
  · rintro bit bound registers ⟨below, shows⟩
    refine ⟨below, ?_⟩
    rw [shows]
    exact truth_ofBool _

theorem whileStmt_performs (info : NodeInfo) (condition : Expr) {body : Stmt}
    (isBody : execution.Performs body) :
    execution.Performs (.whileStmt info condition body) := by
  intro scope given
  rw [generateStmt, Activation.evalStmt, ← Run.bind_unit (Run.whileLoop _ _ _)]
  apply Compiles.bind
  · exact Compiles.loop (condition_computes condition) (isBody scope given) _
  · exact fun _ _ => nop_implements

theorem else_performs {elseStmt : Option Stmt}
    (isElse : ∀ stmt ∈ elseStmt, execution.Performs stmt) :
    execution.Implements given (fun state => state = scope)
      (generateElse execution.activation.context elseStmt)
      (execution.activation.evalElse scope elseStmt) stay nothing
      fun state => state = scope := by
  cases elseStmt with
  | none => exact nop_implements
  | some stmt => exact isElse stmt rfl scope given

theorem ifStmt_performs (info : NodeInfo) (condition : Expr) {thenStmt : Stmt}
    {elseStmt : Option Stmt} (isThen : execution.Performs thenStmt)
    (isElse : ∀ stmt ∈ elseStmt, execution.Performs stmt) :
    execution.Performs (.ifStmt info condition thenStmt elseStmt) := by
  intro scope given
  rw [generateStmt, Activation.evalStmt]
  apply (execution.generateExpr_computes scope condition given).bind
  intro operand value
  apply Compiles.computeThen
  · intro bound registers call world known
    exact congrArg (fun word : Word => some (Outcome.returned (Word.ofBool (word ≠ 0)) world))
      known.2.2
  · intro bit
    rw [← Run.bind_unit (ite _ _ _)]
    apply Compiles.bind
    · refine Compiles.congr (Compiles.branch ?_ (isThen scope _) (else_performs isElse))
        (if_congr decide_eq_true_iff rfl rfl)
      intro bound registers known
      rw [known.2.2]
      exact truth_ofBool _
    · exact fun _ _ => nop_implements

/-! ## Case statements -/

theorem bodies_implementArms {arms : List CaseArm}
    (each : ∀ arm ∈ arms, execution.Performs arm.getBody) :
    List.Forall₂ (execution.ImplementsArm scope)
      (generateBodies execution.activation.context arms)
      (execution.activation.evalBodies scope arms) := by
  induction arms with
  | nil => exact .nil
  | cons arm arms induction =>
      rcases arm with ⟨info, tag, patterns, body⟩
      rw [generateBodies, Activation.evalBodies]
      refine .cons ⟨rfl, fun given => ?_⟩
        (induction fun other member => each other (List.mem_cons_of_mem _ member))
      rw [generateBody, Activation.evalBody, ← NamedValues.emitPatternBinds_eq]
      apply (each _ List.mem_cons_self _ given).bind
      exact fun _ _ => generateDestroys_implements

theorem evalBodies_eq {activation : Activation} (arms : List CaseArm) :
    activation.evalBodies scope arms =
      arms.map fun arm => (arm, activation.evalBody scope arm) := by
  induction arms with
  | nil => rfl
  | cons arm arms induction =>
      rw [Activation.evalBodies, List.map_cons, induction]

theorem caseStmt_performs (info : NodeInfo) (caseExpr : Expr) {arms : List CaseArm}
    (distinct : Activation.TagsDistinct
      (CaseCodeGen.ownerDecl execution.activation.context.symbols arms) arms)
    (each : ∀ arm ∈ arms, execution.Performs arm.getBody) :
    execution.Performs (.caseStmt info caseExpr arms) := by
  intro scope given
  rw [generateStmt, Activation.evalStmt]
  apply (execution.generateExpr_computes scope caseExpr given).bind
  intro operand value
  rw [← Run.bind_unit (execution.activation.evalCase _ _ _ _)]
  apply Compiles.bind
  · apply emitCase_implements (bodies_implementArms each)
    · rwa [evalBodies_eq, Activation.map_body_fst]
    · exact fun _ _ known => known.2.2
  · exact fun _ _ => nop_implements

/-! ## All statements -/

variable (execution)

theorem generateStmt_performs {stmt : Stmt}
    (distinct : CasesDistinct execution.activation.context.symbols stmt.postOrder) :
    execution.Performs stmt := by
  induction stmt with
  | assignStmt info lhs rhs => exact assignStmt_performs info lhs rhs
  | blockStmt info stmts induction =>
      apply blockStmt_performs info
      intro stmt member
      apply induction stmt member (distinct.mono _)
      rw [Stmt.postOrder]
      exact List.Subset.trans (Stmt.postOrder_subset_of_mem member) (List.subset_append_left _ _)
  | whileStmt info condition body induction =>
      apply whileStmt_performs info condition (induction (distinct.mono _))
      rw [Stmt.postOrder]
      exact fun node member => List.mem_append_left _ (List.mem_append_right _ member)
  | ifStmt info condition thenStmt elseStmt isThen isElse =>
      apply ifStmt_performs info condition (isThen (distinct.mono _))
      · rintro stmt isSome
        cases isSome
        apply isElse stmt rfl (distinct.mono _)
        rw [Stmt.postOrder, Stmt.elsePostOrder]
        exact fun node member => List.mem_append_left _ (List.mem_append_right _ member)
      · rw [Stmt.postOrder]
        exact fun node member =>
          List.mem_append_left _ (List.mem_append_left _ (List.mem_append_right _ member))
  | outputStmt info arg =>
      intro scope given
      rw [generateStmt, Activation.evalStmt]
      exact computeRun fun _ _ _ _ shows => congrArg Runtime.topOutput shows
  | errorStmt info arg =>
      intro scope given
      rw [generateStmt, Activation.evalStmt]
      exact computeRun fun _ _ _ _ shows => congrArg Runtime.topError shows
  | caseStmt info caseExpr arms induction =>
      apply caseStmt_performs info caseExpr
      · apply distinct info caseExpr arms
        rw [Stmt.postOrder]
        exact List.mem_append_right _ (List.mem_singleton_self _)
      · intro arm member
        apply induction arm member (distinct.mono _)
        rw [Stmt.postOrder]
        exact fun node inside => List.mem_append_left _
          (List.mem_append_right _ (CaseArm.body_subset_of_mem member inside))

end Execution

end Topc
