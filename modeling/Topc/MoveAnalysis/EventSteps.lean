import Topc.OwnershipPaths

/-! # Move analysis, one event at a time

Inside a statement without control flow the analysis does one thing for each
event, in the order of the events. -/

namespace Topc.MoveAnalysis

open OwnershipPaths

section

variable (context : Context)

/-- What the analysis does to its state at an event, unless it rejects it. -/
def stepEvent (state : StateMap) : Event → Option StateMap
  | .access action name _ =>
      match (context.resolveVar name).filter context.isOwn with
      | none => some state
      | some key =>
          match action with
          | .use => if state[key]? = some .moved then none else some state
          | .take => if state[key]? = some .moved then none else some (state.insert key .moved)
          | .store => if state[key]? = some .owned then none else some (state.insert key .owned)
          | .storeBorrow => some (state.erase key)
  | .enterArm _ | .leaveArm .. => some state

def stepEvents (state : StateMap) (events : List Event) : Option StateMap :=
  events.foldlM (stepEvent context) state

/-- The walk stepped through some events and planned no destroy meanwhile. -/
structure Steps (events : List Event) (before after : Walk) : Prop where
  state : stepEvents context before.state events = some after.state
  atExit : after.plan.atExit = before.plan.atExit
  atArmEnd : after.plan.atArmEnd = before.plan.atArmEnd

end

namespace Steps

variable {context : Context}

theorem refl (walk : Walk) : Steps context [] walk walk := ⟨rfl, rfl, rfl⟩

theorem append {first second : List Event} {before mid after : Walk}
    (firstSteps : Steps context first before mid) (secondSteps : Steps context second mid after) :
    Steps context (first ++ second) before after where
  state := by
    have first := firstSteps.state
    have second := secondSteps.state
    rw [stepEvents] at *
    rw [List.foldlM_append, first]
    exact second
  atExit := secondSteps.atExit.trans firstSteps.atExit
  atArmEnd := secondSteps.atArmEnd.trans firstSteps.atArmEnd

theorem single {event : Event} {before after : Walk}
    (state : stepEvent context before.state event = some after.state)
    (atExit : after.plan.atExit = before.plan.atExit)
    (atArmEnd : after.plan.atArmEnd = before.plan.atArmEnd) :
    Steps context [event] before after where
  state := by simp [stepEvents, state]
  atExit := atExit
  atArmEnd := atArmEnd

end Steps

/-! ## Expressions -/

section

variable {context : Context} (enforced : context.rules = .allEnabled)

theorem directOwner_varExpr (info : NodeInfo) (name : String) :
    context.directOwner (.varExpr info name) =
      (context.resolveVar name).filter context.isOwn := rfl

/-- Only a variable directly names an owner. -/
theorem directOwner_eq_some {expr : Expr} {decl : DeclNode}
    (direct : context.directOwner expr = some decl) :
    ∃ info name, expr = .varExpr info name ∧
      (context.resolveVar name).filter context.isOwn = some decl := by
  cases expr with
  | varExpr info name => exact ⟨info, name, rfl, direct⟩
  | _ => simp [Context.directOwner] at direct

include enforced

theorem checkUse_steps (scope : Scope) {info : NodeInfo} {name : String} {before after : Walk}
    (result : checkUse context info name before = .ok after) :
    Steps context [access scope .use name] before after := by
  unfold checkUse at result
  cases owner : (context.resolveVar name).filter context.isOwn with
  | none =>
      have same : before = after := by simpa [owner, pure, Except.pure] using result
      subst same
      exact .single (by simp [stepEvent, access, owner]) rfl rfl
  | some key =>
      by_cases moved : before.state[key]? = some .moved
      · simp [owner, moved, enforced, bind, Except.bind] at result
      · have same : before = after := by simpa [owner, moved, pure, Except.pure] using result
        subst same
        exact .single (by simp [stepEvent, access, owner, moved]) rfl rfl

theorem consumeVar_steps (scope : Scope) {held : HeldBorrows} {info : NodeInfo} {name : String}
    {varName reason : String} {key : DeclNode} {before after : Walk}
    (owner : (context.resolveVar name).filter context.isOwn = some key)
    (result : consumeVar context held info varName key reason before = .ok after) :
    Steps context [access scope .take name] before after := by
  unfold consumeVar at result
  by_cases moved : before.state[key]? = some .moved
  · simp [moved, enforced, bind, Except.bind] at result
  · simp only [moved, if_false, bind_eq_ok] at result
    rcases result with ⟨_, _, result⟩
    cases result
    exact .single (by simp [stepEvent, access, owner, moved]) rfl rfl

/-- A value is taken from a variable by a move and from any other expression by
evaluating it. -/
theorem asTaken_steps (scope : Scope) (held : HeldBorrows) (expr : Expr) (info : NodeInfo)
    (reason : String) {before after : Walk}
    (moves : ∀ decl, context.directOwner expr = some decl →
      consumeVar context held info decl.name decl reason before = .ok after)
    (evaluates : context.directOwner expr = none →
      Steps context (exprEvents context scope expr) before after) :
    Steps context (asTaken scope expr (exprEvents context scope expr)) before after := by
  cases direct : context.directOwner expr with
  | some decl =>
      rcases directOwner_eq_some direct with ⟨_, name, rfl, owner⟩
      exact consumeVar_steps enforced scope owner (moves decl direct)
  | none =>
      have steps := evaluates direct
      cases expr with
      | varExpr info name =>
          rw [directOwner_varExpr] at direct
          have state := steps.state
          simp only [exprEvents, stepEvents, List.foldlM_cons, List.foldlM_nil, access, stepEvent,
            direct] at state
          exact .single (by simpa [access, stepEvent, direct] using state)
            steps.atExit steps.atArmEnd
      | _ => exact steps

theorem evalActuals_steps (scope : Scope) {held : HeldBorrows} {actuals : List Expr}
    (each : ∀ actual ∈ actuals, ∀ before after,
      evalExpr context held actual before = .ok after →
        Steps context (exprEvents context scope actual) before after) :
    ∀ consumes before after, evalActuals context held consumes actuals before = .ok after →
      Steps context (actualEvents context scope consumes actuals) before after := by
  induction actuals with
  | nil =>
      intro consumes before after result
      cases result
      exact .refl _
  | cons actual actuals induction =>
      intro consumes before after result
      rw [evalActuals, bind_eq_ok] at result
      rcases result with ⟨mid, first, rest⟩
      refine .append ?_ (induction (fun other member => each other (by simp [member])) _ _ _ rest)
      have evaluates := each actual (by simp) before mid
      generalize consumes.headD false = consumed at first ⊢
      cases consumed with
      | false => exact evaluates first
      | true =>
          refine asTaken_steps enforced scope held actual actual.info
            "ownership moved via function argument" ?_ ?_
          · intro decl direct
            simpa [direct] using first
          · intro direct
            exact evaluates (by simpa [direct] using first)

theorem evalPayloads_steps (scope : Scope) {held : HeldBorrows} {payloads : List Expr}
    (each : ∀ payload ∈ payloads, ∀ before after,
      evalExpr context held payload before = .ok after →
        Steps context (exprEvents context scope payload) before after) :
    ∀ before after, evalPayloads context held payloads before = .ok after →
      Steps context (payloadEvents context scope payloads) before after := by
  induction payloads with
  | nil =>
      intro before after result
      cases result
      exact .refl _
  | cons payload payloads induction =>
      intro before after result
      rw [evalPayloads, bind_eq_ok] at result
      rcases result with ⟨mid, first, rest⟩
      refine .append ?_ (induction (fun other member => each other (by simp [member])) _ _ rest)
      refine asTaken_steps enforced scope held payload payload.info
        "ownership moved into constructor payload" ?_ ?_
      · intro decl direct
        simpa [direct] using first
      · intro direct
        exact each payload (by simp) before mid (by simpa [direct] using first)

omit enforced in
theorem noteUnboundReference_steps (deref operand : Expr) (walk : Walk) :
    Steps context [] walk (noteUnboundReference context deref operand walk) := by
  unfold noteUnboundReference
  split <;> exact ⟨rfl, rfl, rfl⟩

theorem evalExpr_steps (scope : Scope) (expr : Expr) : ∀ held before after,
    evalExpr context held expr before = .ok after →
      Steps context (exprEvents context scope expr) before after := by
  induction expr with
  | numExpr info value => rintro held before after ⟨⟩; exact .refl _
  | inputExpr info => rintro held before after ⟨⟩; exact .refl _
  | varExpr info name =>
      intro held before after result
      exact checkUse_steps enforced scope result
  | binaryExpr info op left right leftSteps rightSteps =>
      intro held before after result
      rw [evalExpr, bind_eq_ok] at result
      rcases result with ⟨mid, first, second⟩
      exact (leftSteps held before mid first).append (rightSteps held mid after second)
  | funAppExpr info function actuals functionSteps actualSteps =>
      intro held before after result
      rw [evalExpr, bind_eq_ok] at result
      rcases result with ⟨mid, first, second⟩
      exact (functionSteps held before mid first).append
        (evalActuals_steps enforced scope (fun actual member => actualSteps actual member _)
          _ mid after second)
  | allocExpr info initializer steps =>
      intro held before after result
      exact steps held before after result
  | borrowExpr info var steps =>
      intro held before after result
      exact steps held before after result
  | deRefExpr info ptr steps =>
      intro held before after result
      rw [evalExpr, bind_eq_ok] at result
      rcases result with ⟨mid, first, second⟩
      cases second
      have both := (steps held before mid first).append
        (noteUnboundReference_steps (.deRefExpr info ptr) ptr mid)
      rwa [List.append_nil] at both
  | sumCtorExpr info tag args steps =>
      intro held before after result
      exact evalPayloads_steps enforced scope (fun arg member => steps arg member _)
        before after result

/-! ## Assignments -/

theorem evalTaken_steps (scope : Scope) {reason : String} {expr : Expr} {before after : Walk}
    (result : evalTaken context reason expr before = .ok after) :
    Steps context (takenEvents context scope expr) before after := by
  refine asTaken_steps enforced scope [] expr expr.info reason ?_ ?_
  · intro decl direct
    simpa [evalTaken, direct] using result
  · intro direct
    exact evalExpr_steps enforced scope expr [] before after (by simpa [evalTaken, direct] using result)

theorem evalTarget_steps (scope : Scope) {lhs : Expr} {before after : Walk}
    (result : evalTarget context lhs before = .ok after) :
    Steps context (targetEvents context scope lhs) before after := by
  cases lhs with
  | deRefExpr info ptr =>
      rw [evalTarget, bind_eq_ok] at result
      rcases result with ⟨mid, evaluated, noted⟩
      cases noted
      have both := (evalExpr_steps enforced scope ptr [] before mid evaluated).append
        (noteUnboundReference_steps (.deRefExpr info ptr) ptr mid)
      rwa [List.append_nil] at both
  | _ => cases result; exact .refl _

theorem evalRHS_steps (scope : Scope) {line : Nat} {rhs : Expr} {before after : Walk}
    (result : evalRHS context line rhs before = .ok after) :
    Steps context (takenEvents context scope rhs) before after := by
  unfold evalRHS at result
  cases direct : context.directOwner rhs with
  | none =>
      simp only [direct] at result
      refine asTaken_steps enforced scope [] rhs rhs.info "" ?_ ?_
      · simp [direct]
      · intro _
        exact evalExpr_steps enforced scope rhs [] before after result
  | some key =>
      rcases directOwner_eq_some direct with ⟨info, name, rfl, owner⟩
      by_cases moved : before.state[key]? = some .moved
      · simp [direct, moved, enforced, bind, Except.bind] at result
      · simp only [direct, moved, if_false] at result
        cases result
        exact .single (by simp [stepEvent, access, owner, moved]) rfl rfl

theorem assignLHS_steps (scope : Scope) {line : Nat} {lhs rhs : Expr} {before after : Walk}
    (result : assignLHS context line lhs rhs before = .ok after) :
    Steps context (storeEvents scope lhs rhs) before after := by
  unfold assignLHS at result
  cases direct : context.directOwner lhs with
  | none =>
      simp only [direct] at result
      cases result
      cases lhs with
      | varExpr info name =>
          rw [directOwner_varExpr] at direct
          exact .single (by simp [stepEvent, access, direct]) rfl rfl
      | _ => exact .refl _
  | some key =>
      rcases directOwner_eq_some direct with ⟨info, name, rfl, owner⟩
      simp only [direct] at result
      cases borrow : rhs.isBorrow with
      | true =>
          simp only [borrow, if_true] at result
          cases result
          exact .single (by simp [stepEvent, access, owner, borrow]) rfl rfl
      | false =>
          by_cases owned : before.state[key]? = some .owned
          · simp [borrow, owned, enforced, bind, Except.bind] at result
          · simp only [borrow, owned, if_false] at result
            cases result
            exact .single (by simp [stepEvent, access, owner, borrow, owned]) rfl rfl

theorem analyzeAssign_steps (scope : Scope) {line : Nat} {lhs rhs : Expr} {before after : Walk}
    (result : analyzeAssign context line lhs rhs before = .ok after) :
    Steps context (assignEvents context scope lhs rhs) before after := by
  rw [analyzeAssign, bind_eq_ok] at result
  rcases result with ⟨target, targetEvaluated, result⟩
  rw [bind_eq_ok] at result
  rcases result with ⟨value, valueEvaluated, assigned⟩
  exact ((evalTarget_steps enforced scope targetEvaluated).append
    (evalRHS_steps enforced scope valueEvaluated)).append (assignLHS_steps enforced scope assigned)

/-! ## Control flow -/

theorem analyzeStmt_assign (scope : Scope) {info : NodeInfo} {lhs rhs : Expr}
    {before after : Walk}
    (result : analyzeStmt context (.assignStmt info lhs rhs) before = .ok after) :
    Steps context (assignEvents context scope lhs rhs) before after := by
  rw [analyzeStmt] at result
  have steps := analyzeAssign_steps enforced scope result
  exact ⟨steps.state, steps.atExit, steps.atArmEnd⟩

/-- Code that evaluates an expression first, with no variable moved in it yet. -/
theorem evalFirst_steps (scope : Scope) {expr : Expr} {before after : Walk}
    (result : evalExpr context [] expr { before with movedInStmt := [] } = .ok after) :
    Steps context (exprEvents context scope expr) before after := by
  have steps := evalExpr_steps enforced scope expr [] _ after result
  exact ⟨steps.state, steps.atExit, steps.atArmEnd⟩

/-- What an accepted loop did: the condition changed no entry, and the entries
before the loop are those after it. -/
theorem analyzeStmt_while (scope : Scope) {info : NodeInfo} {condition : Expr} {body : Stmt}
    {before after : Walk}
    (result : analyzeStmt context (.whileStmt info condition body) before = .ok after) :
    ∃ condWalk bodyWalk,
      Steps context (exprEvents context scope condition) before condWalk ∧
      condWalk.state = before.state ∧
      analyzeStmt context body condWalk = .ok bodyWalk ∧
      assertLoopInvariant context before.state bodyWalk.state info.line = .ok () ∧
      after = { bodyWalk with state := before.state } := by
  rw [analyzeStmt, bind_eq_ok] at result
  rcases result with ⟨condWalk, evaluated, result⟩
  by_cases same : condWalk.state = before.state
  · rw [if_neg (by simpa using same), bind_eq_ok] at result
    rcases result with ⟨bodyWalk, bodyResult, result⟩
    rw [bind_eq_ok] at result
    rcases result with ⟨⟨⟩, invariant, finished⟩
    cases finished
    refine ⟨condWalk, bodyWalk, evalFirst_steps enforced scope evaluated, same, ?_, invariant, rfl⟩
    rw [← bodyResult, ← same]
  · simp [same, enforced, bind, Except.bind] at result

theorem analyzeStmt_if (scope : Scope) {info : NodeInfo} {condition : Expr} {thenStmt : Stmt}
    {elseStmt : Option Stmt} {before after : Walk}
    (result : analyzeStmt context (.ifStmt info condition thenStmt elseStmt) before = .ok after) :
    ∃ condWalk thenWalk elseWalk joined,
      Steps context (exprEvents context scope condition) before condWalk ∧
      analyzeStmt context thenStmt condWalk = .ok thenWalk ∧
      analyzeElse context elseStmt { thenWalk with state := condWalk.state } = .ok elseWalk ∧
      joinStates context [thenWalk.state, elseWalk.state] = .ok joined ∧
      after = { elseWalk with state := joined } := by
  rw [analyzeStmt, bind_eq_ok] at result
  rcases result with ⟨condWalk, evaluated, result⟩
  rw [bind_eq_ok] at result
  rcases result with ⟨thenWalk, thenResult, result⟩
  rw [bind_eq_ok] at result
  rcases result with ⟨elseWalk, elseResult, result⟩
  rw [bind_eq_ok] at result
  rcases result with ⟨joined, joinResult, finished⟩
  cases finished
  exact ⟨condWalk, thenWalk, elseWalk, joined, evalFirst_steps enforced scope evaluated,
    thenResult, elseResult, joinResult, rfl⟩

omit enforced in
@[simp] theorem planMatch_state (info : NodeInfo) (caseExpr : Expr) (arms : List CaseArm)
    (walk : Walk) : (planMatch context info caseExpr arms walk).state = walk.state := by
  unfold planMatch
  split <;> rfl

omit enforced in
@[simp] theorem planMatch_atExit (info : NodeInfo) (caseExpr : Expr) (arms : List CaseArm)
    (walk : Walk) :
    (planMatch context info caseExpr arms walk).plan.atExit = walk.plan.atExit := by
  unfold planMatch
  split <;> rfl

omit enforced in
@[simp] theorem planMatch_atArmEnd (info : NodeInfo) (caseExpr : Expr) (arms : List CaseArm)
    (walk : Walk) :
    (planMatch context info caseExpr arms walk).plan.atArmEnd = walk.plan.atArmEnd := by
  unfold planMatch
  split <;> rfl

omit enforced in
theorem analyzeArms_length {byValue : Bool} {start : StateMap} {arms : List CaseArm} :
    ∀ {before result}, analyzeArms context byValue start arms before = .ok result →
      result.2.length = arms.length := by
  induction arms with
  | nil =>
      intro before result analyzed
      cases analyzed
      rfl
  | cons arm arms induction =>
      intro before result analyzed
      rw [analyzeArms, bind_eq_ok] at analyzed
      rcases analyzed with ⟨mid, first, analyzed⟩
      rw [bind_eq_ok] at analyzed
      rcases analyzed with ⟨rest, restResult, finished⟩
      cases finished
      simp [induction restResult]

/-- What an accepted match did: the scrutinee, then every arm from the state
after it, then the join of their states. -/
theorem analyzeStmt_case {info : NodeInfo} {caseExpr : Expr} {arms : List CaseArm}
    {before after : Walk} (scope : Scope)
    (result : analyzeStmt context (.caseStmt info caseExpr arms) before = .ok after) :
    ∃ matched, Steps context (takenEvents context scope caseExpr) before matched ∧
      (arms = [] ∧ after = matched ∨
        ∃ armsWalk states, states ≠ [] ∧
          analyzeArms context (!caseExpr.isDeRef) matched.state arms matched
            = .ok (armsWalk, states) ∧
          joinStates context states = .ok after.state ∧ after.plan = armsWalk.plan) := by
  rw [analyzeStmt, bind_eq_ok] at result
  rcases result with ⟨taken, evaluated, result⟩
  have steps := evalTaken_steps enforced scope evaluated
  refine ⟨planMatch context info caseExpr arms taken, ?_, ?_⟩
  · exact ⟨by simpa using steps.state, by simpa using steps.atExit, by simpa using steps.atArmEnd⟩
  · cases arms with
    | nil =>
        cases result
        exact .inl ⟨rfl, rfl⟩
    | cons arm arms =>
        rw [bind_eq_ok] at result
        rcases result with ⟨⟨armsWalk, states⟩, armsResult, result⟩
        have nonempty : states ≠ [] := by
          intro empty
          have length := analyzeArms_length armsResult
          simp [empty] at length
        simp only [List.isEmpty_iff, nonempty, if_false, bind_eq_ok] at result
        rcases result with ⟨joined, join, finished⟩
        cases finished
        exact .inr ⟨armsWalk, states, nonempty, armsResult, join, rfl⟩

end

end Topc.MoveAnalysis
