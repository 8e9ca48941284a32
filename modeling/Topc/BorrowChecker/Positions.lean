import Topc.BorrowChecker
import Topc.MoveAnalysis.Scoping

/-! # What the position walk leaves of a program

In a function it accepts, an alias of an owned payload is only looked at, and no
borrow expression is assigned. -/

namespace Topc.BorrowChecker

open OwnershipPaths

section

variable {context : Context} {move : MoveAnalysis.Context}

/-- The names the walk holds for aliases cover the aliases in scope. -/
def AliasesNamed (move : MoveAnalysis.Context) (scope : Scope) (aliasNames : List String) : Prop :=
  ∀ name binding, scope.lookup name = some binding → move.isOwn binding.decl = true →
    binding.isAlias = true → name ∈ aliasNames

theorem AliasesNamed.bind (sameTypes : move.types = context.types) {scope : Scope}
    {aliasNames : List String} (named : AliasesNamed move scope aliasNames) (borrowed : Bool)
    (decl : DeclNode) :
    AliasesNamed move (⟨decl, borrowed⟩ :: scope) (bindAlias context borrowed aliasNames decl) := by
  intro name binding found own isAlias
  unfold bindAlias
  by_cases same : decl.name = name
  · simp only [Scope.lookup, List.find?_cons, same, beq_self_eq_true, Option.some.injEq] at found
    subst found
    have classified : OwnershipClassifier.classify context.types decl = .own := by
      simpa [MoveAnalysis.Context.isOwn, sameTypes] using own
    simp_all
  · have outer : scope.lookup name = some binding := by
      simpa [Scope.lookup, same] using found
    have member := named name binding outer own isAlias
    split
    · exact List.mem_cons_of_mem _ member
    · exact List.mem_filter.mpr ⟨member, by simpa using Ne.symm same⟩

theorem AliasesNamed.arm (sameTypes : move.types = context.types) (borrowed : Bool)
    (bindings : List DeclNode) : ∀ {scope aliasNames}, AliasesNamed move scope aliasNames →
      AliasesNamed move (armScope scope (bindings.map fun decl => ⟨decl, borrowed⟩))
        (bindings.foldl (bindAlias context borrowed) aliasNames) := by
  induction bindings with
  | nil => intro scope aliasNames named; exact named
  | cons decl bindings induction =>
      intro scope aliasNames named
      have inner := induction (named.bind sameTypes borrowed decl)
      simpa [armScope] using inner

/-- The access is one the walk leaves alone. -/
def Allowed (move : MoveAnalysis.Context) (events : List Event) : Prop :=
  ∀ event ∈ events, event.PositionAllowed move

theorem Allowed.append {first second : List Event} (firstAllowed : Allowed move first)
    (secondAllowed : Allowed move second) : Allowed move (first ++ second) :=
  List.forall_mem_append.mpr ⟨firstAllowed, secondAllowed⟩

theorem allowed_use (scope : Scope) (name : String) : Allowed move [access scope .use name] := by
  intro event member
  rw [List.mem_singleton.mp member, access]
  cases scope.lookup name <;> simp [Event.PositionAllowed]

/-- A name that is no alias may be accessed in every way but by a borrow. -/
theorem allowed_access {scope : Scope} {aliasNames : List String}
    (named : AliasesNamed move scope aliasNames) {action : Action} {name : String}
    (notBorrow : action ≠ .storeBorrow) (notAlias : name ∉ aliasNames) :
    Allowed move [access scope action name] := by
  intro event member
  rw [List.mem_singleton.mp member, access]
  cases found : scope.lookup name with
  | none => exact notBorrow
  | some binding =>
      exact ⟨notBorrow, fun own isAlias => absurd (named name binding found own isAlias) notAlias⟩

end

/-! ## Expressions -/

section

variable {context : Context} {move : MoveAnalysis.Context} {aliasNames : List String}
  {scope : Scope}

/-- The events of an expression in a position are allowed. -/
def ExprAllowed (context : Context) (move : MoveAnalysis.Context) (aliasNames : List String)
    (scope : Scope) (expr : Expr) : Prop :=
  ∀ ctx before after, checkExpr context aliasNames ctx expr before = .ok after →
    Allowed move (exprEvents move scope expr) ∧
      (ctx.takes = true → Allowed move (takenEvents move scope expr))

theorem ExprAllowed.of_eq {expr : Expr}
    (same : takenEvents move scope expr = exprEvents move scope expr)
    (allowed : ∀ ctx before after, checkExpr context aliasNames ctx expr before = .ok after →
      Allowed move (exprEvents move scope expr)) :
    ExprAllowed context move aliasNames scope expr := by
  intro ctx before after result
  have holds := allowed ctx before after result
  exact ⟨holds, fun _ => same ▸ holds⟩

theorem checkActuals_allowed {actuals : List Expr}
    (each : ∀ actual ∈ actuals, ExprAllowed context move aliasNames scope actual) :
    ∀ consumes before after, checkActuals context aliasNames actuals before = .ok after →
      Allowed move (actualEvents move scope consumes actuals) := by
  induction actuals with
  | nil => intro consumes before after _ event member; cases member
  | cons actual actuals induction =>
      intro consumes before after result
      rw [checkActuals, bind_eq_ok] at result
      rcases result with ⟨mid, first, rest⟩
      have head := each actual (by simp) .argument before mid first
      refine .append ?_ (induction (fun other member => each other (by simp [member])) _ _ _ rest)
      split
      · exact head.2 rfl
      · exact head.1

theorem checkPayloads_allowed {payloads : List Expr}
    (each : ∀ payload ∈ payloads, ExprAllowed context move aliasNames scope payload) :
    ∀ before after, checkPayloads context aliasNames payloads before = .ok after →
      Allowed move (payloadEvents move scope payloads) := by
  induction payloads with
  | nil => intro before after _ event member; cases member
  | cons payload payloads induction =>
      intro before after result
      rw [checkPayloads, bind_eq_ok] at result
      rcases result with ⟨mid, first, result⟩
      rw [bind_eq_ok] at result
      rcases result with ⟨_, _, rest⟩
      exact .append ((each payload (by simp) .taken before mid first).2 rfl)
        (induction (fun other member => each other (by simp [member])) mid after rest)

theorem exprAllowed (rules : context.rules = .allEnabled)
    (named : AliasesNamed move scope aliasNames) (expr : Expr) :
    ExprAllowed context move aliasNames scope expr := by
  induction expr with
  | numExpr info value | inputExpr info =>
      refine .of_eq rfl ?_
      intro ctx before after _ event member
      cases member
  | varExpr info name =>
      intro ctx before after result
      refine ⟨allowed_use scope name, fun takes => ?_⟩
      refine allowed_access named (by simp) fun member => ?_
      simp [checkExpr, takes, member, rules, bind, Except.bind] at result
  | binaryExpr info op left right leftAllowed rightAllowed =>
      refine .of_eq rfl ?_
      intro ctx before after result
      rw [checkExpr, bind_eq_ok] at result
      rcases result with ⟨mid, first, second⟩
      exact (leftAllowed _ _ _ first).1.append (rightAllowed _ _ _ second).1
  | funAppExpr info function actuals functionAllowed actualsAllowed =>
      refine .of_eq rfl ?_
      intro ctx before after result
      rw [checkExpr, bind_eq_ok] at result
      rcases result with ⟨mid, first, second⟩
      exact (functionAllowed _ _ _ first).1.append
        (checkActuals_allowed actualsAllowed _ _ _ second)
  | allocExpr info initializer allowed =>
      exact .of_eq rfl fun ctx before after result => (allowed .taken before after result).1
  | borrowExpr info var allowed =>
      refine .of_eq rfl ?_
      intro ctx before after result
      rw [checkExpr, bind_eq_ok] at result
      rcases result with ⟨mid, first, _⟩
      exact (allowed _ _ _ first).1
  | deRefExpr info ptr allowed =>
      refine .of_eq rfl ?_
      intro ctx before after result
      rw [checkExpr, bind_eq_ok] at result
      rcases result with ⟨mid, _, second⟩
      exact (allowed _ _ _ second).1
  | sumCtorExpr info tag args argsAllowed =>
      exact .of_eq rfl fun ctx before after result =>
        checkPayloads_allowed argsAllowed before after result

/-- A value that is kept is not a borrow expression. -/
theorem checkKept_allowed (rules : context.rules = .allEnabled)
    (named : AliasesNamed move scope aliasNames) {sink : String} {expr : Expr}
    {before after : Requirements}
    (result : checkKept context aliasNames sink expr before = .ok after) :
    Allowed move (takenEvents move scope expr) ∧ expr.isBorrow = false := by
  rw [checkKept, bind_eq_ok] at result
  rcases result with ⟨mid, checked, _⟩
  refine ⟨(exprAllowed rules named expr .taken before mid checked).2 rfl, ?_⟩
  cases expr with
  | borrowExpr info var =>
      rw [checkExpr, bind_eq_ok] at checked
      rcases checked with ⟨_, _, checked⟩
      simp [rejectNotArgument, rules, bind, Except.bind] at checked
  | _ => rfl

end

/-! ## Statements -/

section

variable {context : Context} {move : MoveAnalysis.Context}

/-- The events of an accepted statement are allowed. -/
def StmtAllowed (context : Context) (move : MoveAnalysis.Context) (stmt : Stmt) : Prop :=
  ∀ scope aliasNames before after, AliasesNamed move scope aliasNames →
    checkStmt context aliasNames stmt before = .ok after →
    Allowed move (stmtEvents move scope stmt)

theorem checkAssign_allowed (rules : context.rules = .allEnabled) {scope : Scope}
    {aliasNames : List String} (named : AliasesNamed move scope aliasNames) {lhs rhs : Expr}
    {before mid after : Requirements}
    (target : checkTarget context aliasNames lhs before = .ok mid)
    (kept : checkKept context aliasNames "assignment" rhs mid = .ok after) :
    Allowed move (assignEvents move scope lhs rhs) := by
  have rhsAllowed := checkKept_allowed rules named kept
  refine .append (.append ?_ rhsAllowed.1) ?_
  · cases lhs with
    | deRefExpr info ptr =>
        rw [checkTarget, bind_eq_ok] at target
        rcases target with ⟨_, _, checked⟩
        exact (exprAllowed rules named ptr _ _ _ checked).1
    | _ => intro event member; cases member
  · cases lhs with
    | varExpr info name =>
        refine allowed_access named (by simp [rhsAllowed.2]) fun member => ?_
        simp [checkTarget, checkExpr, Ctx.takes, member, rules, bind, Except.bind] at target
    | _ => intro event member; cases member

theorem checkStmts_allowed {stmts : List Stmt}
    (each : ∀ stmt ∈ stmts, StmtAllowed context move stmt) :
    ∀ scope aliasNames before after, AliasesNamed move scope aliasNames →
      checkStmts context aliasNames stmts before = .ok after →
      Allowed move (stmtsEvents move scope stmts) := by
  induction stmts with
  | nil => intro scope aliasNames before after _ _ event member; cases member
  | cons stmt stmts induction =>
      intro scope aliasNames before after named result
      rw [checkStmts, bind_eq_ok] at result
      rcases result with ⟨mid, first, rest⟩
      exact (each stmt (by simp) _ _ _ _ named first).append
        (induction (fun other member => each other (by simp [member])) _ _ _ _ named rest)

theorem checkArms_allowed (sameTypes : move.types = context.types) {byValue : Bool}
    {arms : List CaseArm} (each : ∀ arm ∈ arms, StmtAllowed context move arm.getBody) :
    ∀ scope aliasNames before after, AliasesNamed move scope aliasNames →
      checkArms context aliasNames (!byValue) arms before = .ok after →
      Allowed move (armsEvents move scope byValue arms) := by
  induction arms with
  | nil => intro scope aliasNames before after _ _ event member; cases member
  | cons arm arms induction =>
      intro scope aliasNames before after named result
      rw [checkArms, bind_eq_ok] at result
      rcases result with ⟨mid, first, rest⟩
      refine .append ?_
        (induction (fun other member => each other (by simp [member])) _ _ _ _ named rest)
      cases arm with
      | mk info tag patterns body =>
          rw [checkArm] at first
          have inner := named.arm sameTypes (!byValue) (Pattern.collectAllBindings patterns)
          have bodyAllowed : Allowed move (stmtEvents move
              (armScope scope (armBinders byValue patterns)) body) :=
            each (.mk info tag patterns body) (by simp) _ _ _ _ inner first
          intro event member
          rcases List.mem_cons.mp member with rfl | member
          · trivial
          · rcases List.mem_append.mp member with member | member
            · exact bodyAllowed event member
            · rw [List.mem_singleton.mp member]
              trivial

theorem stmtAllowed (rules : context.rules = .allEnabled)
    (sameTypes : move.types = context.types) (stmt : Stmt) : StmtAllowed context move stmt := by
  induction stmt with
  | assignStmt info lhs rhs =>
      intro scope aliasNames before after named result
      rw [checkStmt, bind_eq_ok] at result
      rcases result with ⟨mid, target, kept⟩
      exact checkAssign_allowed rules named target kept
  | blockStmt info stmts each =>
      intro scope aliasNames before after named result
      rw [checkStmt] at result
      exact checkStmts_allowed each scope aliasNames before after named result
  | whileStmt info condition body bodyAllowed =>
      intro scope aliasNames before after named result
      rw [checkStmt, bind_eq_ok] at result
      rcases result with ⟨mid, first, rest⟩
      exact (exprAllowed rules named condition _ _ _ first).1.append
        (bodyAllowed _ _ _ _ named rest)
  | ifStmt info condition thenStmt elseStmt thenAllowed elseAllowed =>
      intro scope aliasNames before after named result
      rw [checkStmt, bind_eq_ok] at result
      rcases result with ⟨mid, first, result⟩
      rw [bind_eq_ok] at result
      rcases result with ⟨afterThen, thenResult, elseResult⟩
      refine (exprAllowed rules named condition _ _ _ first).1.append
        ((thenAllowed _ _ _ _ named thenResult).append ?_)
      cases elseStmt with
      | none => intro event member; cases member
      | some stmt =>
          rw [checkElse] at elseResult
          exact elseAllowed stmt rfl _ _ _ _ named elseResult
  | outputStmt info arg | errorStmt info arg =>
      intro scope aliasNames before after named result
      rw [checkStmt] at result
      exact (exprAllowed rules named arg _ _ _ result).1
  | caseStmt info caseExpr arms each =>
      intro scope aliasNames before after named result
      rw [checkStmt, bind_eq_ok] at result
      rcases result with ⟨mid, scrutinee, armsResult⟩
      refine .append ?_ ?_
      · have allowed := exprAllowed rules named caseExpr _ _ _ scrutinee
        cases borrowed : caseExpr.isDeRef with
        | true =>
            cases caseExpr with
            | deRefExpr info ptr => exact allowed.1
            | _ => cases borrowed
        | false => exact allowed.2 (by simp [borrowed, Ctx.takes])
      · refine checkArms_allowed sameTypes each scope aliasNames mid after named ?_
        rwa [Bool.not_not]

/-- In a function the walk accepts, every event is allowed. -/
theorem checkFunction_allowed (rules : context.rules = .allEnabled)
    (sameTypes : move.types = context.types) {requirements : Requirements}
    (checked : checkFunction context = .ok requirements) :
    Allowed move (functionEvents move context.current) := by
  rw [checkFunction, bind_eq_ok] at checked
  rcases checked with ⟨mid, stmts, returned⟩
  have named : AliasesNamed move (functionScope context.current) [] := by
    intro name binding found _ isAlias
    have member := (Scope.lookup_eq_some found).2
    rcases List.mem_map.mp member with ⟨decl, _, rfl⟩
    cases isAlias
  exact .append
    (checkStmts_allowed (fun stmt _ => stmtAllowed rules sameTypes stmt) _ _ _ _ named stmts)
    (checkKept_allowed rules named returned).1

end

end Topc.BorrowChecker
