import Topc.MoveAnalysis
import Topc.Weeding

/-! # Borrows held by a call

What one actual of an accepted call borrows, no actual of the call consumes. -/

namespace Topc

/-! ## Variables under `&` -/

mutual
/-- The variables that occur in an expression. -/
def Expr.names : Expr → List String
  | .numExpr .. | .inputExpr _ => []
  | .varExpr _ name => [name]
  | .binaryExpr _ _ left right => left.names ++ right.names
  | .funAppExpr _ function actuals => function.names ++ Expr.namesOf actuals
  | .allocExpr _ initializer => initializer.names
  | .borrowExpr _ var => var.names
  | .deRefExpr _ ptr => ptr.names
  | .sumCtorExpr _ _ args => Expr.namesOf args

def Expr.namesOf : List Expr → List String
  | [] => []
  | expr :: exprs => expr.names ++ Expr.namesOf exprs
end

mutual
/-- The variables that occur under `&` anywhere in an expression. -/
def Expr.borrowedNames : Expr → List String
  | .numExpr .. | .inputExpr _ | .varExpr .. => []
  | .binaryExpr _ _ left right => left.borrowedNames ++ right.borrowedNames
  | .funAppExpr _ function actuals => function.borrowedNames ++ Expr.borrowedNamesOf actuals
  | .allocExpr _ initializer => initializer.borrowedNames
  | .borrowExpr _ var => var.names
  | .deRefExpr _ ptr => ptr.borrowedNames
  | .sumCtorExpr _ _ args => Expr.borrowedNamesOf args

def Expr.borrowedNamesOf : List Expr → List String
  | [] => []
  | expr :: exprs => expr.borrowedNames ++ Expr.borrowedNamesOf exprs
end

namespace MoveAnalysis

section

variable (context : Context)

mutual
/-- The variables that evaluating an expression consumes: an `Own` variable that
is itself a payload of a constructor, or an actual that its call consumes. -/
def consumedNames : Expr → List String
  | .numExpr .. | .inputExpr _ | .varExpr .. => []
  | .binaryExpr _ _ left right => consumedNames left ++ consumedNames right
  | .funAppExpr info function actuals =>
      consumedNames function ++ consumedByActuals (context.consumes info.id) actuals
  | .allocExpr _ initializer => consumedNames initializer
  | .borrowExpr _ var => consumedNames var
  | .deRefExpr _ ptr => consumedNames ptr
  | .sumCtorExpr _ _ args => consumedByPayloads args

def consumedByActuals (consumes : List Bool) : List Expr → List String
  | [] => []
  | actual :: actuals =>
      (if consumes.headD false && (context.directOwner actual).isSome then actual.names
        else consumedNames actual) ++ consumedByActuals consumes.tail actuals

def consumedByPayloads : List Expr → List String
  | [] => []
  | payload :: payloads =>
      (if (context.directOwner payload).isSome then payload.names else consumedNames payload)
        ++ consumedByPayloads payloads
end

/-- No variable that the actuals of the call borrow is consumed by them. -/
def HoldsBorrows (call : NodeId) (actuals : List Expr) : Prop :=
  ∀ name ∈ Expr.borrowedNamesOf actuals,
    name ∉ consumedByActuals context (context.consumes call) actuals

/-- No call in progress has borrowed the variable. -/
def Unheld (held : HeldBorrows) (name : String) : Prop :=
  ∃ decl, context.resolveVar name = some decl ∧ ∀ entry ∈ held, decl ∉ entry.2

end

section

variable {context : Context}

/-! ## What the walk collects and checks -/

mutual
theorem mem_collectBorrowedOwners {name : String} {decl : DeclNode}
    (resolved : context.resolveVar name = some decl) : ∀ {expr : Expr},
      CheckAssignable.Assignable expr.postOrder → name ∈ expr.borrowedNames →
        decl ∈ collectBorrowedOwners context expr
  | .numExpr .., _, borrowed | .inputExpr _, _, borrowed | .varExpr .., _, borrowed =>
      nomatch borrowed
  | .binaryExpr _ _ left right, assignable, borrowed => by
      rw [Expr.postOrder] at assignable
      rw [collectBorrowedOwners, List.mem_append]
      rcases List.mem_append.mp borrowed with inLeft | inRight
      · exact .inl (mem_collectBorrowedOwners resolved (assignable.mono (by simp)) inLeft)
      · exact .inr (mem_collectBorrowedOwners resolved (assignable.mono (by simp)) inRight)
  | .funAppExpr _ function actuals, assignable, borrowed => by
      rw [Expr.postOrder] at assignable
      rw [collectBorrowedOwners, List.mem_append]
      rcases List.mem_append.mp borrowed with inFunction | inActuals
      · exact .inl (mem_collectBorrowedOwners resolved (assignable.mono (by simp)) inFunction)
      · exact .inr (mem_collectAllBorrowedOwners resolved (assignable.mono (by simp)) inActuals)
  | .allocExpr _ initializer, assignable, borrowed => by
      have inner : CheckAssignable.Assignable initializer.postOrder :=
        assignable.mono (List.subset_append_left _ _)
      have occurs : name ∈ initializer.borrowedNames := borrowed
      rw [collectBorrowedOwners]
      exact mem_collectBorrowedOwners resolved inner occurs
  | .borrowExpr info var, assignable, borrowed => by
      have isVar := assignable.borrows info var (by simp [Expr.postOrder])
      cases var with
      | varExpr info' name' =>
          rw [Expr.borrowedNames, Expr.names, List.mem_singleton] at borrowed
          subst borrowed
          simp [collectBorrowedOwners, resolved]
      | _ => cases isVar
  | .deRefExpr _ ptr, assignable, borrowed => by
      have inner : CheckAssignable.Assignable ptr.postOrder :=
        assignable.mono (List.subset_append_left _ _)
      have occurs : name ∈ ptr.borrowedNames := borrowed
      rw [collectBorrowedOwners]
      exact mem_collectBorrowedOwners resolved inner occurs
  | .sumCtorExpr _ _ args, assignable, borrowed => by
      have inner : CheckAssignable.Assignable (Expr.postOrderOf args) :=
        assignable.mono (List.subset_append_left _ _)
      have occurs : name ∈ Expr.borrowedNamesOf args := borrowed
      rw [collectBorrowedOwners]
      exact mem_collectAllBorrowedOwners resolved inner occurs

theorem mem_collectAllBorrowedOwners {name : String} {decl : DeclNode}
    (resolved : context.resolveVar name = some decl) : ∀ {exprs : List Expr},
      CheckAssignable.Assignable (Expr.postOrderOf exprs) → name ∈ Expr.borrowedNamesOf exprs →
        decl ∈ collectAllBorrowedOwners context exprs
  | [], _, borrowed => nomatch borrowed
  | expr :: exprs, assignable, borrowed => by
      rw [Expr.postOrderOf] at assignable
      rw [collectAllBorrowedOwners, List.mem_append]
      rcases List.mem_append.mp borrowed with inFirst | inRest
      · exact .inl (mem_collectBorrowedOwners resolved (assignable.mono (by simp)) inFirst)
      · exact .inr (mem_collectAllBorrowedOwners resolved (assignable.mono (by simp)) inRest)
end

/-! ## Accepted expressions -/

theorem directOwner_resolves {expr : Expr} {decl : DeclNode}
    (direct : context.directOwner expr = some decl) :
    ∃ info name, expr = .varExpr info name ∧ context.resolveVar name = some decl := by
  cases expr with
  | varExpr info name => exact ⟨info, name, rfl, (Option.filter_eq_some_iff.mp direct).1⟩
  | _ => cases direct

variable (enforced : context.rules = .allEnabled)

include enforced

theorem checkHeldBorrows_free {info : NodeInfo} {name : String} {decl : DeclNode} :
    ∀ {held : HeldBorrows}, checkHeldBorrows context info name decl held = .ok () →
      ∀ entry ∈ held, decl ∉ entry.2
  | [], _ => nofun
  | (call, owners) :: held, checked => by
      rw [checkHeldBorrows] at checked
      by_cases owned : decl ∈ owners
      · simp [owned, enforced, bind, Except.bind] at checked
      · have rest : checkHeldBorrows context info name decl held = .ok () := by
          simpa [owned] using checked
        exact List.forall_mem_cons.mpr ⟨owned, checkHeldBorrows_free rest⟩

theorem consumeVar_unheld {held : HeldBorrows} {info : NodeInfo} {varName reason : String}
    {name : String} {decl : DeclNode} {before after : Walk}
    (resolved : context.resolveVar name = some decl)
    (result : consumeVar context held info varName decl reason before = .ok after) :
    Unheld context held name := by
  unfold consumeVar at result
  by_cases moved : before.state[decl]? = some .moved
  · simp [moved, enforced, bind, Except.bind] at result
  · simp only [moved, if_false, bind_eq_ok] at result
    rcases result with ⟨_, unheld, _⟩
    exact ⟨decl, resolved, checkHeldBorrows_free enforced unheld⟩

/-- What an accepted evaluation shows: it consumes nothing that a call in progress
has borrowed, and each call in it holds its own borrows. -/
structure Evaluated (context : Context) (held : HeldBorrows) (consumed : List String)
    (nodes : List AstNode) : Prop where
  unheld : ∀ name ∈ consumed, Unheld context held name
  holds : ∀ info function actuals, .expr (.funAppExpr info function actuals) ∈ nodes →
    HoldsBorrows context info.id actuals

omit enforced in
theorem Evaluated.append {held : HeldBorrows} {consumed others : List String}
    {nodes rest : List AstNode} (first : Evaluated context held consumed nodes)
    (second : Evaluated context held others rest) :
    Evaluated context held (consumed ++ others) (nodes ++ rest) where
  unheld := List.forall_mem_append.mpr ⟨first.unheld, second.unheld⟩
  holds info function actuals member := (List.mem_append.mp member).elim
    (first.holds info function actuals) (second.holds info function actuals)

omit enforced in
/-- A node that is not a call adds nothing. -/
theorem Evaluated.node {held : HeldBorrows} {consumed : List String} {nodes : List AstNode}
    {node : AstNode} (evaluated : Evaluated context held consumed nodes)
    (notCall : ∀ info function actuals, node ≠ .expr (.funAppExpr info function actuals)) :
    Evaluated context held consumed (nodes ++ [node]) where
  unheld := evaluated.unheld
  holds info function actuals member := by
    rcases List.mem_append.mp member with inside | last
    · exact evaluated.holds info function actuals inside
    · exact absurd (List.mem_singleton.mp last).symm (notCall info function actuals)

def ExprHolds (context : Context) (expr : Expr) : Prop :=
  ∀ held before after, CheckAssignable.Assignable expr.postOrder →
    evalExpr context held expr before = .ok after →
      Evaluated context held (consumedNames context expr) expr.postOrder

theorem evalActuals_holds {actuals : List Expr}
    (each : ∀ actual ∈ actuals, ExprHolds context actual) :
    ∀ held consumes before after, CheckAssignable.Assignable (Expr.postOrderOf actuals) →
      evalActuals context held consumes actuals before = .ok after →
        Evaluated context held (consumedByActuals context consumes actuals)
          (Expr.postOrderOf actuals) := by
  induction actuals with
  | nil =>
      intro held consumes before after _ _
      exact ⟨nofun, nofun⟩
  | cons actual actuals induction =>
      intro held consumes before after assignable result
      rw [Expr.postOrderOf] at assignable
      rw [evalActuals, bind_eq_ok] at result
      rcases result with ⟨mid, first, rest⟩
      refine .append ?_ (induction (fun other member => each other (by simp [member])) held
        consumes.tail mid after (assignable.mono (by simp)) rest)
      split at first
      · rename_i decl consumed direct
        rcases directOwner_resolves direct with ⟨info, name, rfl, resolved⟩
        rw [if_pos (by rw [consumed, direct]; rfl)]
        refine ⟨?_, by simp [Expr.postOrder]⟩
        simp only [Expr.names, List.forall_mem_singleton]
        exact consumeVar_unheld enforced resolved first
      · rename_i notConsumed
        rw [if_neg]
        · exact each actual (by simp) held before mid (assignable.mono (by simp)) first
        · rw [Bool.and_eq_true, not_and]
          intro consumed isDirect
          rcases Option.isSome_iff_exists.mp isDirect with ⟨decl, direct⟩
          exact notConsumed decl consumed direct

theorem evalPayloads_holds {payloads : List Expr}
    (each : ∀ payload ∈ payloads, ExprHolds context payload) :
    ∀ held before after, CheckAssignable.Assignable (Expr.postOrderOf payloads) →
      evalPayloads context held payloads before = .ok after →
        Evaluated context held (consumedByPayloads context payloads)
          (Expr.postOrderOf payloads) := by
  induction payloads with
  | nil =>
      intro held before after _ _
      exact ⟨nofun, nofun⟩
  | cons payload payloads induction =>
      intro held before after assignable result
      rw [Expr.postOrderOf] at assignable
      rw [evalPayloads, bind_eq_ok] at result
      rcases result with ⟨mid, first, rest⟩
      refine .append ?_ (induction (fun other member => each other (by simp [member])) held
        mid after (assignable.mono (by simp)) rest)
      split at first
      · rename_i decl direct
        rcases directOwner_resolves direct with ⟨info, name, rfl, resolved⟩
        rw [if_pos (by simp [direct])]
        refine ⟨?_, by simp [Expr.postOrder]⟩
        simp only [Expr.names, List.forall_mem_singleton]
        exact consumeVar_unheld enforced resolved first
      · rename_i indirect
        rw [if_neg (by simp [indirect])]
        exact each payload (by simp) held before mid (assignable.mono (by simp)) first

theorem exprHolds (expr : Expr) : ExprHolds context expr := by
  induction expr with
  | numExpr | inputExpr | varExpr =>
      intro held before after _ _
      exact ⟨nofun, by simp [Expr.postOrder]⟩
  | binaryExpr info op left right leftHolds rightHolds =>
      intro held before after assignable result
      rw [Expr.postOrder] at assignable
      rw [evalExpr, bind_eq_ok] at result
      rcases result with ⟨mid, first, second⟩
      refine .node (.append ?_ ?_) nofun
      · exact leftHolds held before mid (assignable.mono (by simp)) first
      · exact rightHolds held mid after (assignable.mono (by simp)) second
  | funAppExpr info function actuals functionHolds actualsHold =>
      intro held before after assignable result
      rw [Expr.postOrder] at assignable
      rw [evalExpr, bind_eq_ok] at result
      rcases result with ⟨mid, first, second⟩
      have inFunction := functionHolds held before mid (assignable.mono (by simp)) first
      have assignableActuals : CheckAssignable.Assignable (Expr.postOrderOf actuals) :=
        assignable.mono (by simp)
      have inActuals := evalActuals_holds enforced actualsHold _ _ mid after assignableActuals second
      constructor
      · apply List.forall_mem_append.mpr ⟨inFunction.unheld, fun name consumed => ?_⟩
        rcases inActuals.unheld name consumed with ⟨decl, resolved, free⟩
        exact ⟨decl, resolved, fun entry member => free entry (List.mem_append_left _ member)⟩
      · intro info' function' actuals' member
        rw [Expr.postOrder, List.mem_append, List.mem_append, List.mem_singleton] at member
        rcases member with (inside | inside) | this
        · exact inFunction.holds _ _ _ inside
        · exact inActuals.holds _ _ _ inside
        · cases this
          -- What the call itself borrows was on the stack while its actuals were evaluated.
          intro name borrowed consumed
          rcases inActuals.unheld name consumed with ⟨decl, resolved, free⟩
          apply free (.funAppExpr info function actuals, collectAllBorrowedOwners context actuals)
            (List.mem_append_right _ (List.mem_singleton_self _))
          exact mem_collectAllBorrowedOwners resolved assignableActuals borrowed
  | allocExpr info initializer holds | borrowExpr info var holds =>
      intro held before after assignable result
      exact .node (holds held before after
        (assignable.mono (List.subset_append_left _ _)) result) nofun
  | deRefExpr info ptr holds =>
      intro held before after assignable result
      rw [evalExpr, bind_eq_ok] at result
      rcases result with ⟨mid, first, _⟩
      exact .node (holds held before mid (assignable.mono (List.subset_append_left _ _)) first) nofun
  | sumCtorExpr info tag args argsHold =>
      intro held before after assignable result
      exact .node (evalPayloads_holds enforced argsHold held before after
        (assignable.mono (List.subset_append_left _ _)) result) nofun

/-! ## Accepted statements -/

/-- Each call among the nodes holds its own borrows. -/
def CallsHold (context : Context) (nodes : List AstNode) : Prop :=
  ∀ info function actuals, .expr (.funAppExpr info function actuals) ∈ nodes →
    HoldsBorrows context info.id actuals

omit enforced in
theorem CallsHold.append {nodes rest : List AstNode} (first : CallsHold context nodes)
    (second : CallsHold context rest) : CallsHold context (nodes ++ rest) :=
  fun info function actuals member => (List.mem_append.mp member).elim
    (first info function actuals) (second info function actuals)

omit enforced in
theorem CallsHold.nil : CallsHold context [] := nofun

omit enforced in
theorem CallsHold.stmt {nodes : List AstNode} (calls : CallsHold context nodes) (stmt : Stmt) :
    CallsHold context (nodes ++ [.stmt stmt]) :=
  calls.append (by simp [CallsHold])

theorem evalExpr_calls {held : HeldBorrows} {expr : Expr} {before after : Walk}
    (assignable : CheckAssignable.Assignable expr.postOrder)
    (result : evalExpr context held expr before = .ok after) : CallsHold context expr.postOrder :=
  (exprHolds enforced expr held before after assignable result).holds

omit enforced in
theorem directOwner_calls {expr : Expr} {decl : DeclNode}
    (direct : context.directOwner expr = some decl) : CallsHold context expr.postOrder := by
  rcases directOwner_resolves direct with ⟨info, name, rfl, _⟩
  simp [CallsHold, Expr.postOrder]

theorem evalTaken_calls {reason : String} {expr : Expr} {before after : Walk}
    (assignable : CheckAssignable.Assignable expr.postOrder)
    (result : evalTaken context reason expr before = .ok after) :
    CallsHold context expr.postOrder := by
  unfold evalTaken at result
  split at result
  · rename_i decl direct
    exact directOwner_calls direct
  · exact evalExpr_calls enforced assignable result

theorem analyzeAssign_calls {line : Nat} {lhs rhs : Expr} {before after : Walk}
    (target : CheckAssignable.isAssignable lhs = true ∨ lhs.isDeRef = true)
    (lhsAssignable : CheckAssignable.Assignable lhs.postOrder)
    (rhsAssignable : CheckAssignable.Assignable rhs.postOrder)
    (result : analyzeAssign context line lhs rhs before = .ok after) :
    CallsHold context (lhs.postOrder ++ rhs.postOrder) := by
  rw [analyzeAssign, bind_eq_ok] at result
  rcases result with ⟨targeted, targetResult, result⟩
  rw [bind_eq_ok] at result
  rcases result with ⟨value, valueResult, _⟩
  apply CallsHold.append
  · cases lhs with
    | varExpr => simp [CallsHold, Expr.postOrder]
    | deRefExpr info ptr =>
        rw [evalTarget, bind_eq_ok] at targetResult
        rcases targetResult with ⟨mid, evaluated, _⟩
        refine .append (evalExpr_calls enforced ?_ evaluated) (by simp [CallsHold])
        exact lhsAssignable.mono (List.subset_append_left _ _)
    | _ => rcases target with isVar | isDeRef; all_goals contradiction
  · unfold evalRHS at valueResult
    split at valueResult
    · rename_i decl direct
      exact directOwner_calls direct
    · exact evalExpr_calls enforced rhsAssignable valueResult

def StmtHolds (context : Context) (stmt : Stmt) : Prop :=
  ∀ before after, CheckAssignable.Assignable stmt.postOrder →
    analyzeStmt context stmt before = .ok after → CallsHold context stmt.postOrder

omit enforced in
theorem analyzeStmts_holds {stmts : List Stmt} (each : ∀ stmt ∈ stmts, StmtHolds context stmt) :
    ∀ before after, CheckAssignable.Assignable (Stmt.postOrderOf stmts) →
      analyzeStmts context stmts before = .ok after →
        CallsHold context (Stmt.postOrderOf stmts) := by
  induction stmts with
  | nil => exact fun _ _ _ _ => .nil
  | cons stmt stmts induction =>
      intro before after assignable result
      rw [Stmt.postOrderOf] at assignable
      rw [analyzeStmts, bind_eq_ok] at result
      rcases result with ⟨mid, first, rest⟩
      apply CallsHold.append
      · exact each stmt (by simp) before mid (assignable.mono (by simp)) first
      · exact induction (fun other member => each other (by simp [member])) mid after
          (assignable.mono (by simp)) rest

omit enforced in
theorem analyzeArms_holds {byValue : Bool} {start : StateMap} {arms : List CaseArm}
    (each : ∀ arm ∈ arms, StmtHolds context arm.getBody) :
    ∀ before result, CheckAssignable.Assignable (CaseArm.postOrderOf arms) →
      analyzeArms context byValue start arms before = .ok result →
        CallsHold context (CaseArm.postOrderOf arms) := by
  induction arms with
  | nil => exact fun _ _ _ _ => .nil
  | cons arm arms induction =>
      intro before result assignable accepted
      rw [CaseArm.postOrderOf] at assignable
      rw [analyzeArms, bind_eq_ok] at accepted
      rcases accepted with ⟨armWalk, armResult, accepted⟩
      rw [bind_eq_ok] at accepted
      rcases accepted with ⟨rest, restResult, _⟩
      apply CallsHold.append
      · cases arm with
        | mk info tag patterns body =>
            simp only [analyzeArm, bind_eq_ok] at armResult
            rcases armResult with ⟨ended, bodyResult, _⟩
            exact each (.mk info tag patterns body) (by simp) _ ended (assignable.mono (by simp [CaseArm.postOrder, CaseArm.getBody]))
              bodyResult
      · exact induction (fun other member => each other (by simp [member])) armWalk rest
          (assignable.mono (by simp)) restResult

theorem stmtHolds (stmt : Stmt) : StmtHolds context stmt := by
  induction stmt with
  | assignStmt info lhs rhs =>
      intro before after assignable result
      rw [Stmt.postOrder] at assignable
      rw [analyzeStmt] at result
      refine .stmt (analyzeAssign_calls enforced ?_ ?_ ?_ result) _
      · exact assignable.assigns info lhs rhs (by simp)
      · exact assignable.mono (by simp)
      · exact assignable.mono (by simp)
  | blockStmt info stmts each =>
      intro before after assignable result
      rw [analyzeStmt] at result
      exact .stmt (analyzeStmts_holds each _ after
        (assignable.mono (List.subset_append_left _ _)) result) _
  | whileStmt info condition body bodyHolds =>
      intro before after assignable result
      rw [Stmt.postOrder] at assignable
      rw [analyzeStmt, bind_eq_ok] at result
      rcases result with ⟨condWalk, evaluated, result⟩
      refine .stmt (.append (evalExpr_calls enforced (assignable.mono (by simp)) evaluated) ?_) _
      by_cases same : condWalk.state = before.state
      · rw [if_neg (by simpa using same), bind_eq_ok] at result
        rcases result with ⟨bodyWalk, bodyResult, _⟩
        exact bodyHolds _ bodyWalk (assignable.mono (by simp)) bodyResult
      · simp [same, enforced, bind, Except.bind] at result
  | ifStmt info condition thenStmt elseStmt thenHolds elseHolds =>
      intro before after assignable result
      rw [Stmt.postOrder] at assignable
      rw [analyzeStmt, bind_eq_ok] at result
      rcases result with ⟨condWalk, evaluated, result⟩
      rw [bind_eq_ok] at result
      rcases result with ⟨thenWalk, thenResult, result⟩
      rw [bind_eq_ok] at result
      rcases result with ⟨elseWalk, elseResult, _⟩
      refine .stmt (.append (.append ?_ ?_) ?_) _
      · exact evalExpr_calls enforced (assignable.mono (by simp)) evaluated
      · exact thenHolds condWalk thenWalk (assignable.mono (by simp)) thenResult
      · cases elseStmt with
        | none => exact .nil
        | some stmt =>
            rw [analyzeElse] at elseResult
            refine elseHolds stmt rfl _ elseWalk (assignable.mono fun node inside => ?_) elseResult
            simp [Stmt.elsePostOrder, inside]
  | outputStmt info arg | errorStmt info arg =>
      intro before after assignable result
      rw [analyzeStmt] at result
      exact .stmt (evalExpr_calls enforced
        (assignable.mono (List.subset_append_left _ _)) result) _
  | caseStmt info caseExpr arms each =>
      intro before after assignable result
      rw [Stmt.postOrder] at assignable
      rw [analyzeStmt, bind_eq_ok] at result
      rcases result with ⟨taken, evaluated, result⟩
      rw [bind_eq_ok] at result
      rcases result with ⟨armsResult, armsAccepted, _⟩
      refine .stmt (.append ?_ ?_) _
      · exact evalTaken_calls enforced (assignable.mono (by simp)) evaluated
      · exact analyzeArms_holds each _ armsResult (assignable.mono (by simp)) armsAccepted

theorem analyzeFunction_calls {function : Function} {plan : DestructionPlan}
    {trace : List MoveTraceEvent} {walk : Walk}
    (assignable : CheckAssignable.Assignable function.postOrder)
    (result : analyzeFunction context function plan trace = .ok walk) :
    CallsHold context function.postOrder := by
  rw [Function.postOrder] at assignable ⊢
  rw [analyzeFunction, bind_eq_ok] at result
  rcases result with ⟨body, bodyResult, result⟩
  rw [bind_eq_ok] at result
  rcases result with ⟨ended, returned, _⟩
  apply CallsHold.append
  · exact analyzeStmts_holds (fun stmt _ => stmtHolds enforced stmt) _ body
      (assignable.mono (by simp)) bodyResult
  · exact evalTaken_calls enforced (assignable.mono (by simp)) returned

end

/-! ## Accepted programs -/

section

variable {symbols : SymbolTable} {types : TypeResults} {callEffect : NodeId → Option CallEffect}

theorem analyzeFunctions_analyzes {rules : RuleToggles} {functions : List Function} :
    ∀ {start final : DestructionPlan × List MoveTraceEvent},
      analyzeFunctions rules symbols types callEffect start functions = .ok final →
        ∀ function ∈ functions, ∃ plan trace walk,
          analyzeFunction (contextOf rules symbols types callEffect function) function plan trace =
            .ok walk := by
  induction functions with
  | nil => exact fun _ _ => nofun
  | cons head functions induction =>
      intro start final result
      rw [analyzeFunctions, List.foldlM_cons, bind_eq_ok] at result
      rcases result with ⟨mid, first, rest⟩
      rw [bind_eq_ok] at first
      rcases first with ⟨walk, analyzed, _⟩
      rw [List.forall_mem_cons]
      exact ⟨⟨start.1, start.2, walk, analyzed⟩, induction rest⟩

/-- Wherever a call stands in an accepted program, no variable under `&` in its
actuals is consumed by one of them, nor by anything nested in them. -/
theorem run_holdsBorrows {program : Program} {result : DestructionPlan × List MoveTraceEvent}
    (assignable : CheckAssignable.check program = .ok ())
    (accepted : run .allEnabled symbols types callEffect program = .ok result) :
    ∀ function ∈ program.functions, ∀ info callee actuals,
      .expr (.funAppExpr info callee actuals) ∈ function.postOrder →
        HoldsBorrows (contextOf .allEnabled symbols types callEffect function) info.id actuals := by
  intro function member
  rcases analyzeFunctions_analyzes accepted function member with ⟨plan, trace, walk, analyzed⟩
  refine analyzeFunction_calls rfl ?_ analyzed
  apply (CheckAssignable.check_assignable assignable).mono
  exact fun node inside => List.mem_flatMap.mpr ⟨function, member, inside⟩

end

/-! ## A call that borrows one variable and consumes another -/

namespace BorrowBesideMove

def a : DeclNode := { id := 8, name := "a" }

def b : DeclNode := { id := 9, name := "b" }

/-- `sink(p) { return *p; }` -/
def sink : Function where
  decl := { id := 0, name := "sink" }
  formals := [{ id := 1, name := "p" }]
  declarations := []
  stmts := []
  returnInfo := { id := 2 }
  returnArg := .deRefExpr { id := 3 } (.varExpr { id := 4 } "p")

/-- `read(q, n) { return **q + n; }` -/
def read : Function where
  decl := { id := 5, name := "read" }
  formals := [{ id := 6, name := "q" }, { id := 7, name := "n" }]
  declarations := []
  stmts := []
  returnInfo := { id := 10 }
  returnArg := .binaryExpr { id := 11 } .add
    (.deRefExpr { id := 12 } (.deRefExpr { id := 13 } (.varExpr { id := 14 } "q")))
    (.varExpr { id := 15 } "n")

/-- `read(&a, sink(b))` -/
def actuals : List Expr :=
  [.borrowExpr { id := 25 } (.varExpr { id := 26 } "a"),
    .funAppExpr { id := 27 } (.varExpr { id := 28 } "sink") [.varExpr { id := 29 } "b"]]

/-- `main() { var a, b; a = alloc 1; b = alloc 2; return read(&a, sink(b)); }` -/
def main : Function where
  decl := { id := 16, name := "main" }
  formals := []
  declarations := [a, b]
  stmts := [
    .assignStmt { id := 17 } (.varExpr { id := 18 } "a") (.allocExpr { id := 19 } (.numExpr { id := 20 } 1)),
    .assignStmt { id := 21 } (.varExpr { id := 22 } "b") (.allocExpr { id := 23 } (.numExpr { id := 24 } 2))]
  returnInfo := { id := 30 }
  returnArg := .funAppExpr { id := 31 } (.varExpr { id := 32 } "read") actuals

def program : Program where
  typedecls := []
  functions := [sink, read, main]

def types : TypeResults where
  ofDecl decl :=
    if decl = a ∨ decl = b ∨ decl.name = "p" then .owningRef .int else .int
  ofExpr _ := .int

/-- `sink` consumes its formal. -/
def callEffect (call : NodeId) : Option CallEffect :=
  if call = 27 then some ⟨[true]⟩ else none

theorem program_accepted : ∃ symbols result, SymbolTable.build program = .ok symbols ∧
    run .allEnabled symbols types callEffect program = .ok result := by
  have holds : (match SymbolTable.build program with
      | .error _ => false
      | .ok symbols => (run .allEnabled symbols types callEffect program).isOk) = true := by
    decide +kernel
  split at holds
  · cases holds
  · rename_i symbols built
    rcases isOk_iff.mp holds with ⟨result, accepted⟩
    exact ⟨symbols, result, built, accepted⟩

theorem main_holdsBorrows : ∃ symbols,
    HoldsBorrows (contextOf .allEnabled symbols types callEffect main) 31 actuals := by
  rcases program_accepted with ⟨symbols, result, _, accepted⟩
  exact ⟨symbols, run_holdsBorrows (by decide) accepted main (by simp [program]) { id := 31 }
    (.varExpr { id := 32 } "read") actuals (by simp [main, actuals, Function.postOrder, Expr.postOrder])⟩

end BorrowBesideMove

end MoveAnalysis

end Topc
