import Topc.MoveAnalysis.PlanGrowth
import Topc.Weeding

/-! # Matches and unbound references in the plan

What the walk has planned for a match or a dereference stays in the plan, and
every one it comes to is planned. -/

namespace Topc.MoveAnalysis

/-- The later plan has every match, every discarded payload and every unbound
reference of the earlier one. -/
structure KeepsMatches (before after : DestructionPlan) : Prop where
  freed : before.freeAfterUse ⊆ after.freeAfterUse
  consuming : before.consumingMatches ⊆ after.consumingMatches
  discarded : before.discardedPayloads ⊆ after.discardedPayloads

namespace KeepsMatches

theorem refl (plan : DestructionPlan) : KeepsMatches plan plan :=
  ⟨fun _ => id, fun _ => id, fun _ => id⟩

theorem trans {before mid after : DestructionPlan} (first : KeepsMatches before mid)
    (second : KeepsMatches mid after) : KeepsMatches before after :=
  ⟨List.Subset.trans first.freed second.freed,
    List.Subset.trans first.consuming second.consuming,
    List.Subset.trans first.discarded second.discarded⟩

end KeepsMatches

/-- The plan has the node: a dereference of an unbound reference, or a by-value match
with the wildcards of its arms. -/
def PlannedAt (context : Context) (plan : DestructionPlan) : AstNode → Prop
  | .expr (.deRefExpr info ptr) =>
      isUnboundReference context ptr = true → info.id ∈ plan.freeAfterUse
  | .stmt (.caseStmt info caseExpr arms) =>
      caseExpr.isDeRef = false → info.id ∈ plan.consumingMatches ∧
        ∀ arm ∈ arms, collectAllDiscardedPayloads context
          (constructorParams context arm.getTag) arm.getPatterns ⊆ plan.discardedPayloads
  | _ => True

theorem PlannedAt.mono {context : Context} {before after : DestructionPlan}
    (keeps : KeepsMatches before after) {node : AstNode} (planned : PlannedAt context before node) :
    PlannedAt context after node := by
  match node with
  | .expr (.deRefExpr info ptr) => exact fun unbound => keeps.freed (planned unbound)
  | .stmt (.caseStmt info caseExpr arms) =>
      intro byValue
      refine ⟨keeps.consuming (planned byValue).1, fun arm member => ?_⟩
      exact List.Subset.trans ((planned byValue).2 arm member) keeps.discarded
  | .expr (.numExpr ..) | .expr (.varExpr ..) | .expr (.inputExpr ..) | .expr (.binaryExpr ..)
  | .expr (.funAppExpr ..) | .expr (.allocExpr ..) | .expr (.borrowExpr ..)
  | .expr (.sumCtorExpr ..) | .stmt (.assignStmt ..) | .stmt (.blockStmt ..)
  | .stmt (.whileStmt ..) | .stmt (.ifStmt ..) | .stmt (.outputStmt ..) | .stmt (.errorStmt ..) =>
      trivial

/-- A part of the walk keeps what is planned and plans its nodes. -/
structure Plans (context : Context) (nodes : List AstNode) (before after : DestructionPlan) :
    Prop where
  keeps : KeepsMatches before after
  planned : ∀ node ∈ nodes, PlannedAt context after node

namespace Plans

variable {context : Context} {nodes others : List AstNode} {before mid after : DestructionPlan}

theorem nothing (keeps : KeepsMatches before after) : Plans context [] before after :=
  ⟨keeps, nofun⟩

theorem refl (context : Context) (plan : DestructionPlan) : Plans context [] plan plan :=
  nothing (.refl plan)

theorem append (first : Plans context nodes before mid) (second : Plans context others mid after) :
    Plans context (nodes ++ others) before after := by
  refine ⟨first.keeps.trans second.keeps, List.forall_mem_append.mpr ⟨?_, second.planned⟩⟩
  exact fun node member => (first.planned node member).mono second.keeps

/-- A last node that the plan has. -/
theorem concat (first : Plans context nodes before after) {node : AstNode}
    (planned : PlannedAt context after node) : Plans context (nodes ++ [node]) before after :=
  ⟨first.keeps, List.forall_mem_append.mpr
    ⟨first.planned, List.forall_mem_singleton.mpr planned⟩⟩

theorem trans (first : Plans context nodes before mid) (second : KeepsMatches mid after) :
    Plans context nodes before after := by
  have rest : Plans context [] mid after := nothing second
  have both := first.append rest
  rwa [List.append_nil] at both

end Plans

section

variable {context : Context} (enforced : context.rules = .allEnabled)

theorem noteUnboundReference_keeps (deref operand : Expr) (walk : Walk) :
    KeepsMatches walk.plan (noteUnboundReference context deref operand walk).plan := by
  unfold noteUnboundReference
  split
  · exact ⟨fun _ => List.mem_cons_of_mem _, fun _ => id, fun _ => id⟩
  · exact .refl _

/-- A dereference after its operand. -/
theorem noteUnboundReference_plans {nodes : List AstNode} {info : NodeInfo} {ptr : Expr}
    {before : DestructionPlan} {walk : Walk} (operand : Plans context nodes before walk.plan) :
    Plans context (nodes ++ [.expr (.deRefExpr info ptr)]) before
      (noteUnboundReference context (.deRefExpr info ptr) ptr walk).plan := by
  apply (operand.trans (noteUnboundReference_keeps _ ptr walk)).concat
  intro unbound
  rw [noteUnboundReference, if_pos unbound]
  exact List.mem_cons_self

theorem planMatch_keeps (info : NodeInfo) (caseExpr : Expr) (arms : List CaseArm) (walk : Walk) :
    KeepsMatches walk.plan (planMatch context info caseExpr arms walk).plan := by
  unfold planMatch
  split
  · exact .refl _
  · exact ⟨fun _ => id, fun _ => List.mem_cons_of_mem _, fun _ => List.mem_append_left _⟩

/-- A by-value match is planned with the wildcards of its arms. -/
theorem planMatch_plans (info : NodeInfo) (caseExpr : Expr) (arms : List CaseArm) (walk : Walk) :
    PlannedAt context (planMatch context info caseExpr arms walk).plan
      (.stmt (.caseStmt info caseExpr arms)) := by
  intro byValue
  unfold planMatch
  rw [byValue, if_neg (by simp)]
  refine ⟨List.mem_cons_self, fun arm member wildcard discarded => ?_⟩
  exact List.mem_append_right _ (List.mem_flatMap.mpr ⟨arm, member, discarded⟩)

theorem planArmEnd_keeps (arm : NodeId) (binders : List DeclNode) (walk : Walk) :
    KeepsMatches walk.plan (planArmEnd context arm binders walk).plan := by
  unfold planArmEnd
  split
  · exact .refl _
  · exact ⟨fun _ => id, fun _ => id, fun _ => id⟩

include enforced

/-! ## Expressions -/

theorem checkUse_keeps {info : NodeInfo} {name : String} {before after : Walk}
    (result : checkUse context info name before = .ok after) : after.plan = before.plan := by
  unfold checkUse at result
  cases owner : (context.resolveVar name).filter context.isOwn with
  | none =>
      have same : before = after := by simpa [owner, pure, Except.pure] using result
      rw [same]
  | some key =>
      by_cases moved : before.state[key]? = some .moved
      · simp [owner, moved, enforced, bind, Except.bind] at result
      · have same : before = after := by simpa [owner, moved, pure, Except.pure] using result
        rw [same]

theorem consumeVar_keeps {held : HeldBorrows} {info : NodeInfo} {varName reason : String}
    {key : DeclNode} {before after : Walk}
    (result : consumeVar context held info varName key reason before = .ok after) :
    after.plan = before.plan := by
  unfold consumeVar at result
  by_cases moved : before.state[key]? = some .moved
  · simp [moved, enforced, bind, Except.bind] at result
  · simp only [moved, if_false, bind_eq_ok] at result
    rcases result with ⟨_, _, result⟩
    cases result
    rfl

/-- Evaluating the expression plans its dereferences. -/
def ExprPlans (context : Context) (expr : Expr) : Prop :=
  ∀ held before after, evalExpr context held expr before = .ok after →
    Plans context expr.postOrder before.plan after.plan

omit enforced in
/-- A variable that is moved is not evaluated. -/
theorem moved_plans {expr : Expr} {decl : DeclNode} (direct : context.directOwner expr = some decl)
    {before after : Walk} (same : after.plan = before.plan) :
    Plans context expr.postOrder before.plan after.plan := by
  rcases directOwner_eq_some direct with ⟨info, name, rfl, _⟩
  rw [same]
  exact (Plans.refl context before.plan).concat trivial

theorem evalActuals_plans {actuals : List Expr}
    (each : ∀ actual ∈ actuals, ExprPlans context actual) :
    ∀ held consumes before after, evalActuals context held consumes actuals before = .ok after →
      Plans context (Expr.postOrderOf actuals) before.plan after.plan := by
  induction actuals with
  | nil =>
      intro held consumes before after result
      cases result
      exact .refl context _
  | cons actual actuals induction =>
      intro held consumes before after result
      rw [evalActuals, bind_eq_ok] at result
      rcases result with ⟨mid, first, rest⟩
      have later := induction (fun other member => each other (List.mem_cons_of_mem _ member))
        _ _ _ _ rest
      refine Plans.append ?_ later
      split at first
      · rename_i direct
        exact moved_plans direct (consumeVar_keeps enforced first)
      · exact each actual List.mem_cons_self held before mid first

theorem evalPayloads_plans {payloads : List Expr}
    (each : ∀ payload ∈ payloads, ExprPlans context payload) :
    ∀ held before after, evalPayloads context held payloads before = .ok after →
      Plans context (Expr.postOrderOf payloads) before.plan after.plan := by
  induction payloads with
  | nil =>
      intro held before after result
      cases result
      exact .refl context _
  | cons payload payloads induction =>
      intro held before after result
      rw [evalPayloads, bind_eq_ok] at result
      rcases result with ⟨mid, first, rest⟩
      have later := induction (fun other member => each other (List.mem_cons_of_mem _ member))
        _ _ _ rest
      refine Plans.append ?_ later
      split at first
      · rename_i direct
        exact moved_plans direct (consumeVar_keeps enforced first)
      · exact each payload List.mem_cons_self held before mid first

theorem exprPlans (expr : Expr) : ExprPlans context expr := by
  induction expr with
  | numExpr | inputExpr =>
      rintro held before after ⟨⟩
      exact (Plans.refl context _).concat trivial
  | varExpr info name =>
      intro held before after result
      rw [checkUse_keeps enforced result]
      exact (Plans.refl context _).concat trivial
  | binaryExpr info op left right leftPlans rightPlans =>
      intro held before after result
      rw [evalExpr, bind_eq_ok] at result
      rcases result with ⟨mid, first, second⟩
      exact ((leftPlans held before mid first).append (rightPlans held mid after second)).concat
        trivial
  | funAppExpr info function actuals functionPlans actualsPlan =>
      intro held before after result
      rw [evalExpr, bind_eq_ok] at result
      rcases result with ⟨mid, first, second⟩
      exact ((functionPlans held before mid first).append
        (evalActuals_plans enforced actualsPlan _ _ mid after second)).concat trivial
  | allocExpr info initializer plans =>
      intro held before after result
      exact (plans held before after result).concat trivial
  | borrowExpr info var plans =>
      intro held before after result
      exact (plans held before after result).concat trivial
  | deRefExpr info ptr plans =>
      intro held before after result
      rw [evalExpr, bind_eq_ok] at result
      rcases result with ⟨mid, first, second⟩
      cases second
      exact noteUnboundReference_plans (plans held before mid first)
  | sumCtorExpr info tag args plans =>
      intro held before after result
      exact (evalPayloads_plans enforced plans held before after result).concat trivial

theorem evalTaken_plans {reason : String} {expr : Expr} {before after : Walk}
    (result : evalTaken context reason expr before = .ok after) :
    Plans context expr.postOrder before.plan after.plan := by
  unfold evalTaken at result
  split at result
  · rename_i direct
    exact moved_plans direct (consumeVar_keeps enforced result)
  · exact exprPlans enforced expr [] before after result

theorem evalRHS_plans {line : Nat} {rhs : Expr} {before after : Walk}
    (result : evalRHS context line rhs before = .ok after) :
    Plans context rhs.postOrder before.plan after.plan := by
  unfold evalRHS at result
  split at result
  · rename_i key direct
    by_cases moved : before.state[key]? = some .moved
    · simp [moved, enforced, bind, Except.bind] at result
    · simp only [moved, if_false] at result
      cases result
      exact moved_plans direct rfl
  · exact exprPlans enforced rhs [] before after result

theorem assignLHS_keeps {line : Nat} {lhs rhs : Expr} {before after : Walk}
    (result : assignLHS context line lhs rhs before = .ok after) : after.plan = before.plan := by
  unfold assignLHS at result
  split at result
  · cases result
    rfl
  · rename_i key _
    split at result
    · cases result
      rfl
    · by_cases owned : before.state[key]? = some .owned
      · simp [owned, enforced, bind, Except.bind] at result
      · simp only [owned, if_false] at result
        cases result
        rfl

theorem analyzeAssign_plans {line : Nat} {lhs rhs : Expr} {before after : Walk}
    (target : CheckAssignable.isAssignable lhs = true ∨ lhs.isDeRef = true)
    (result : analyzeAssign context line lhs rhs before = .ok after) :
    Plans context (lhs.postOrder ++ rhs.postOrder) before.plan after.plan := by
  rw [analyzeAssign, bind_eq_ok] at result
  rcases result with ⟨targetWalk, targetResult, result⟩
  rw [bind_eq_ok] at result
  rcases result with ⟨value, valueResult, assigned⟩
  rw [assignLHS_keeps enforced assigned]
  refine Plans.append ?_ (evalRHS_plans enforced valueResult)
  cases lhs with
  | deRefExpr info ptr =>
      rw [evalTarget, bind_eq_ok] at targetResult
      rcases targetResult with ⟨mid, evaluated, noted⟩
      cases noted
      exact noteUnboundReference_plans (exprPlans enforced ptr [] before mid evaluated)
  | varExpr info name =>
      cases targetResult
      exact (Plans.refl context _).concat trivial
  | _ => simp [CheckAssignable.isAssignable, Expr.isDeRef] at target

/-! ## Statements -/

/-- Analysing the statement plans its dereferences and matches. -/
def StmtPlans (context : Context) (stmt : Stmt) : Prop :=
  CheckAssignable.Assignable stmt.postOrder →
    ∀ before after, analyzeStmt context stmt before = .ok after →
      Plans context stmt.postOrder before.plan after.plan

omit enforced in
theorem analyzeStmts_plans {stmts : List Stmt} (each : ∀ stmt ∈ stmts, StmtPlans context stmt)
    (assignable : CheckAssignable.Assignable (Stmt.postOrderOf stmts)) :
    ∀ before after, analyzeStmts context stmts before = .ok after →
      Plans context (Stmt.postOrderOf stmts) before.plan after.plan := by
  induction stmts with
  | nil =>
      intro before after result
      cases result
      exact .refl context _
  | cons stmt stmts induction =>
      intro before after result
      rw [analyzeStmts, bind_eq_ok] at result
      rcases result with ⟨mid, first, rest⟩
      have head := each stmt List.mem_cons_self
        (assignable.mono (List.subset_append_left _ _)) before mid first
      exact head.append
        (induction (fun other member => each other (List.mem_cons_of_mem _ member))
          (assignable.mono (List.subset_append_right _ _)) mid after rest)

omit enforced in
theorem analyzeArm_plans {byValue : Bool} {arm : CaseArm} (body : StmtPlans context arm.getBody)
    (assignable : CheckAssignable.Assignable arm.getBody.postOrder)
    {before after : Walk} (result : analyzeArm context byValue arm before = .ok after) :
    Plans context arm.getBody.postOrder before.plan after.plan := by
  cases arm with
  | mk info tag patterns armBody =>
      rw [analyzeArm, bind_eq_ok] at result
      rcases result with ⟨ended, bodyResult, finished⟩
      cases finished
      have bodyPlans := body assignable _ ended bodyResult
      rw [enterArm_plan] at bodyPlans
      exact bodyPlans.trans (planArmEnd_keeps info.id _ ended)

omit enforced in
theorem analyzeArms_plans {byValue : Bool} {start : StateMap} {arms : List CaseArm}
    (each : ∀ arm ∈ arms, StmtPlans context arm.getBody)
    (assignable : CheckAssignable.Assignable (CaseArm.postOrderOf arms)) :
    ∀ before result, analyzeArms context byValue start arms before = .ok result →
      Plans context (CaseArm.postOrderOf arms) before.plan result.1.plan := by
  induction arms with
  | nil =>
      intro before result analyzed
      cases analyzed
      exact .refl context _
  | cons arm arms induction =>
      intro before result analyzed
      rw [analyzeArms, bind_eq_ok] at analyzed
      rcases analyzed with ⟨mid, first, analyzed⟩
      rw [bind_eq_ok] at analyzed
      rcases analyzed with ⟨rest, restResult, finished⟩
      cases finished
      have armAssignable : CheckAssignable.Assignable arm.postOrder :=
        assignable.mono (List.subset_append_left _ _)
      have later := induction (fun other member => each other (List.mem_cons_of_mem _ member))
        (assignable.mono (List.subset_append_right _ _)) mid rest restResult
      cases arm with
      | mk info tag patterns body =>
          have head := analyzeArm_plans (each _ List.mem_cons_self) armAssignable first
          exact Plans.append head later

theorem stmtPlans (stmt : Stmt) : StmtPlans context stmt := by
  induction stmt with
  | assignStmt info lhs rhs =>
      intro assignable before after result
      rw [analyzeStmt] at result
      have target := assignable.assigns info lhs rhs (by simp [Stmt.postOrder])
      have plans := analyzeAssign_plans enforced target result
      exact plans.concat trivial
  | blockStmt info stmts each =>
      intro assignable before after result
      rw [analyzeStmt] at result
      have plans := analyzeStmts_plans each (assignable.mono (List.subset_append_left _ _)) _ after
        result
      exact plans.concat trivial
  | whileStmt info condition body bodyPlans =>
      intro assignable before after result
      rw [analyzeStmt, bind_eq_ok] at result
      rcases result with ⟨condWalk, evaluated, result⟩
      have head := exprPlans enforced condition [] _ condWalk evaluated
      by_cases same : condWalk.state = before.state
      · rw [if_neg (by simpa using same), bind_eq_ok] at result
        rcases result with ⟨bodyWalk, bodyResult, result⟩
        rw [bind_eq_ok] at result
        rcases result with ⟨_, _, finished⟩
        cases finished
        have tail := bodyPlans (assignable.mono (by simp [Stmt.postOrder])) _ bodyWalk bodyResult
        exact (Plans.append head tail).concat trivial
      · simp [same, enforced, bind, Except.bind] at result
  | ifStmt info condition thenStmt elseStmt thenPlans elsePlans =>
      intro assignable before after result
      rw [analyzeStmt, bind_eq_ok] at result
      rcases result with ⟨condWalk, evaluated, result⟩
      rw [bind_eq_ok] at result
      rcases result with ⟨thenWalk, thenResult, result⟩
      rw [bind_eq_ok] at result
      rcases result with ⟨elseWalk, elseResult, result⟩
      rw [bind_eq_ok] at result
      rcases result with ⟨joined, _, finished⟩
      cases finished
      have head := (exprPlans enforced condition [] _ condWalk evaluated).append
        (thenPlans (assignable.mono (by simp [Stmt.postOrder])) condWalk thenWalk thenResult)
      refine Plans.concat (Plans.append head ?_) trivial
      cases elseStmt with
      | none =>
          cases elseResult
          exact .refl context _
      | some stmt =>
          rw [analyzeElse] at elseResult
          have elseAssignable : CheckAssignable.Assignable stmt.postOrder :=
            assignable.mono fun node member => by simp [Stmt.postOrder, Stmt.elsePostOrder, member]
          have rest := elsePlans stmt rfl elseAssignable _ elseWalk elseResult
          exact rest
  | outputStmt info arg | errorStmt info arg =>
      intro assignable before after result
      rw [analyzeStmt] at result
      have plans := exprPlans enforced arg [] _ after result
      exact plans.concat trivial
  | caseStmt info caseExpr arms each =>
      intro assignable before after result
      rw [analyzeStmt, bind_eq_ok] at result
      rcases result with ⟨taken, evaluated, result⟩
      rw [bind_eq_ok] at result
      rcases result with ⟨⟨armsWalk, states⟩, armsResult, result⟩
      have kept : KeepsMatches taken.plan (planMatch context info caseExpr arms taken).plan :=
        planMatch_keeps info caseExpr arms taken
      have scrutinee := (evalTaken_plans enforced evaluated).trans kept
      have armsPlan := analyzeArms_plans each (assignable.mono (by simp [Stmt.postOrder])) _ _
        armsResult
      have planned : PlannedAt context armsWalk.plan (.stmt (.caseStmt info caseExpr arms)) :=
        (planMatch_plans info caseExpr arms taken).mono armsPlan.keeps
      have whole := (scrutinee.append armsPlan).concat planned
      dsimp only at result
      split at result
      · cases result
        exact whole
      · rw [bind_eq_ok] at result
        rcases result with ⟨joined, _, finished⟩
        cases finished
        exact whole

/-! ## Functions -/

theorem analyzeFunction_plans {function : Function} {plan : DestructionPlan}
    {trace : List MoveTraceEvent} {walk : Walk}
    (assignable : CheckAssignable.Assignable function.postOrder)
    (result : analyzeFunction context function plan trace = .ok walk) :
    Plans context function.postOrder plan walk.plan := by
  rw [analyzeFunction, bind_eq_ok] at result
  rcases result with ⟨body, analyzed, result⟩
  rw [bind_eq_ok] at result
  rcases result with ⟨returned, evaluated, finished⟩
  cases finished
  have bodyPlans := analyzeStmts_plans (fun stmt _ => stmtPlans enforced stmt)
    (assignable.mono (List.subset_append_left _ _)) _ body analyzed
  have returnPlans := evalTaken_plans enforced evaluated
  exact (Plans.append bodyPlans returnPlans).trans ⟨fun _ => id, fun _ => id, fun _ => id⟩

end

/-! ## Accepted programs -/

section

variable {symbols : SymbolTable} {types : TypeResults} {callEffect : NodeId → Option CallEffect}

theorem analyzeFunctions_plans {functions : List Function}
    (assignable : ∀ function ∈ functions, CheckAssignable.Assignable function.postOrder) :
    ∀ {start result : DestructionPlan × List MoveTraceEvent},
      analyzeFunctions .allEnabled symbols types callEffect start functions = .ok result →
        KeepsMatches start.1 result.1 ∧ ∀ function ∈ functions, ∀ node ∈ function.postOrder,
          PlannedAt (contextOf .allEnabled symbols types callEffect function) result.1 node := by
  induction functions with
  | nil =>
      intro start result analyzed
      cases analyzed
      exact ⟨.refl _, nofun⟩
  | cons function functions induction =>
      intro start result analyzed
      rw [analyzeFunctions, List.foldlM_cons, bind_eq_ok] at analyzed
      rcases analyzed with ⟨mid, first, rest⟩
      rw [bind_eq_ok] at first
      rcases first with ⟨walk, walked, finished⟩
      cases finished
      have head : Plans (contextOf .allEnabled symbols types callEffect function)
          function.postOrder start.1 walk.plan :=
        analyzeFunction_plans rfl (assignable function List.mem_cons_self) walked
      rcases induction (fun other member => assignable other (List.mem_cons_of_mem _ member)) rest
        with ⟨later, others⟩
      refine ⟨head.keeps.trans later, List.forall_mem_cons.mpr ⟨?_, others⟩⟩
      exact fun node member => (head.planned node member).mono later

/-- The plan of an accepted program has every by-value match and every dereference of
an unbound reference. -/
theorem run_plans {program : Program} {plan : DestructionPlan} {trace : List MoveTraceEvent}
    (assignable : CheckAssignable.check program = .ok ())
    (analyzed : run .allEnabled symbols types callEffect program = .ok (plan, trace)) :
    ∀ function ∈ program.functions, ∀ node ∈ function.postOrder,
      PlannedAt (contextOf .allEnabled symbols types callEffect function) plan node := by
  apply (analyzeFunctions_plans _ analyzed).2
  intro function member
  exact (CheckAssignable.check_assignable assignable).mono
    fun node inside => List.mem_flatMap.mpr ⟨function, member, inside⟩

end

end Topc.MoveAnalysis
