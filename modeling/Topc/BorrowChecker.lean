import Topc.FunctionEffects
import Topc.SymbolTable

/-! # Borrow positions

The walk that decides where a borrow, a borrow-derived value or an alias of an
owned payload may appear. It runs before the move analysis. -/

namespace Topc.BorrowChecker

/-- The position an expression is evaluated in. -/
inductive Ctx
  | taken
  | argument
  | reborrow
  | deref
  | scrutinee
deriving DecidableEq, Repr

def Ctx.takes : Ctx → Bool
  | .taken | .argument => true
  | .reborrow | .deref | .scrutinee => false

/-- What the walk reads while it checks one function. -/
structure Context where
  rules : RuleToggles
  symbols : SymbolTable
  types : TypeResults
  summary : DeclNode → Option ReturnSummary
  current : Function

/-- The requirements on the formals of the current function. -/
abbrev Requirements := List FormalRequirement

section

variable (context : Context)

/-- The type of an expression; a variable has that of its declaration. -/
def inferredType (expr : Expr) : TopType :=
  match expr with
  | .varExpr _ name =>
      match context.symbols.getLocal name context.current.decl <|>
          context.symbols.getFunction name with
      | some decl => context.types.ofDecl decl
      | none => context.types.ofExpr expr
  | _ => context.types.ofExpr expr

/-- The formal whose value, or a borrow of it, a call of this callee returns. -/
def returnedFormal (callee : Expr) : Option Nat :=
  match callee with
  | .varExpr _ name =>
      match (context.symbols.getFunction name).bind context.summary with
      | some ⟨.fromFormal, index⟩ | some ⟨.borrowFromFormal, index⟩ => index
      | _ => none
  | _ => none

mutual
/-- The expression evaluates to a borrow: `&x`, or a call that returns one of
its borrowed actuals. -/
def borrowDerived : Expr → Bool
  | .borrowExpr .. => true
  | .funAppExpr _ function actuals =>
      match returnedFormal context function with
      | some index => borrowDerivedAt actuals index
      | none => false
  | _ => false

def borrowDerivedAt : List Expr → Nat → Bool
  | [], _ => false
  | actual :: _, 0 => borrowDerived actual
  | _ :: actuals, index + 1 => borrowDerivedAt actuals index
end

def rejectNotArgument (rules : RuleToggles) (info : NodeInfo) : Except CompileError Unit :=
  rules.reject "borrow-position"
    s!"Borrow error on line {info.line}: borrow expression must be an immediate function argument — storing a borrow in a variable or using it in any other position is not permitted"

def checkEscape (sink : String) (expr : Expr) : Except CompileError Unit :=
  if borrowDerived context expr then
    context.rules.reject "borrow-escape"
      (s!"Borrow error on line {expr.getLine}: borrow-derived value " ++ expr.print
        ++ s!" escapes into {sink}; a borrowed alias may only flow through immediate call arguments. Return or store a copy instead.")
  else
    .ok ()

/-- Leave the decision on `*e` to the callers of the current function. -/
def require (operand deref : Expr) (reason : RequirementReason) (requirements : Requirements) :
    Except CompileError Requirements :=
  let decl := match operand with
    | .varExpr _ name => context.symbols.getLocal name context.current.decl
    | _ => none
  match decl.bind fun decl => context.current.formals.findIdx? fun formal => formal == decl with
  | some index =>
      .ok (requirements.modify index fun requirement =>
        ⟨.referent, requirement.reasons ||| reason.bit⟩)
  | none => do
      context.rules.reject "alias-undecidable"
        (s!"Ownership error on line {deref.getLine}: cannot tell whether '" ++ deref.print
          ++ "' is an owned value; dereference a formal parameter directly so the decision can be made where the function is called.")
      return requirements

/-- `*e` where its value is taken, or where its slot is overwritten. -/
def checkDerefTaken (info : NodeInfo) (ptr : Expr) (reason : RequirementReason)
    (requirements : Requirements) : Except CompileError Requirements :=
  let deref := Expr.deRefExpr info ptr
  match context.types.ofExpr deref with
  | .var _ =>
      match inferredType context ptr with
      | .reference (.mode .own) _ => .ok requirements
      | _ => require context ptr deref reason requirements
  | type =>
      if OwnershipClassifier.classifyType type = .own then do
        if reason = .overwritesThroughBorrow then
          context.rules.reject "alias-overwrite"
            (s!"Ownership error on line {info.line}: cannot overwrite the owned value '"
              ++ deref.print ++ "' through a borrow.")
        else
          context.rules.reject "alias-move-out"
            (s!"Ownership error on line {info.line}: '" ++ deref.print
              ++ "' is an owned value reached through a borrow and cannot be moved out; reborrow it with & or build a copy.")
        return requirements
      else
        .ok requirements

section

-- The names of the alias binders in scope.
variable (aliasNames : List String)

mutual
def checkExpr (ctx : Ctx) : Expr → Requirements → Except CompileError Requirements
  | .numExpr .., requirements | .inputExpr .., requirements => .ok requirements
  | .varExpr info name, requirements => do
      if ctx.takes && aliasNames.contains name then
        context.rules.reject "alias-binder"
          s!"Ownership error on line {info.line}: '{name}' is bound by matching a borrowed value and can only be reborrowed (&{name})."
      return requirements
  | .deRefExpr info ptr, requirements => do
      let checked := if ctx.takes then
          checkDerefTaken context info ptr .movesOutOfBorrow requirements
        else .ok requirements
      checkExpr .deref ptr (← checked)
  | .borrowExpr info var, requirements => do
      let requirements ← checkExpr .reborrow var requirements
      if ctx ≠ .argument then
        rejectNotArgument context.rules info
      return requirements
  | .funAppExpr _ function actuals, requirements => do
      checkActuals actuals (← checkExpr .taken function requirements)
  | .sumCtorExpr _ _ args, requirements => checkPayloads args requirements
  | .binaryExpr _ _ left right, requirements => do
      checkExpr .taken right (← checkExpr .taken left requirements)
  | .allocExpr _ initializer, requirements => checkExpr .taken initializer requirements

def checkActuals : List Expr → Requirements → Except CompileError Requirements
  | [], requirements => .ok requirements
  | actual :: actuals, requirements => do
      checkActuals actuals (← checkExpr .argument actual requirements)

/-- A payload lives in a heap box that outlives the call. -/
def checkPayloads : List Expr → Requirements → Except CompileError Requirements
  | [], requirements => .ok requirements
  | payload :: payloads, requirements => do
      let requirements ← checkExpr .taken payload requirements
      checkEscape context "constructor payload" payload
      checkPayloads payloads requirements
end

/-- The target of an assignment: through `*e` the slot is taken over. -/
def checkTarget (lhs : Expr) (requirements : Requirements) :
    Except CompileError Requirements :=
  match lhs with
  | .deRefExpr info ptr => do
      let requirements ← checkDerefTaken context info ptr .overwritesThroughBorrow requirements
      checkExpr context aliasNames .deref ptr requirements
  | _ => checkExpr context aliasNames .taken lhs requirements

/-- A value that is kept: assigned or returned. -/
def checkKept (sink : String) (expr : Expr) (requirements : Requirements) :
    Except CompileError Requirements := do
  let requirements ← checkExpr context aliasNames .taken expr requirements
  checkEscape context sink expr
  return requirements

end

/-- A binder hides an enclosing binder of its name for the arm's body. Under
`case *e` an `Own` binder is an alias. -/
def bindAlias (borrowed : Bool) (aliasNames : List String) (binding : DeclNode) : List String :=
  if borrowed && OwnershipClassifier.classify context.types binding == .own then
    binding.name :: aliasNames
  else
    aliasNames.filter fun name => name != binding.name

mutual
def checkStmt (aliasNames : List String) :
    Stmt → Requirements → Except CompileError Requirements
  | .assignStmt _ lhs rhs, requirements => do
      checkKept context aliasNames "assignment" rhs
        (← checkTarget context aliasNames lhs requirements)
  | .caseStmt _ caseExpr arms, requirements => do
      let borrowed := caseExpr.isDeRef
      let requirements ← checkExpr context aliasNames
        (if borrowed then .scrutinee else .taken) caseExpr requirements
      checkArms aliasNames borrowed arms requirements
  | .blockStmt _ stmts, requirements => checkStmts aliasNames stmts requirements
  | .ifStmt _ condition thenStmt elseStmt, requirements => do
      let requirements ← checkExpr context aliasNames .taken condition requirements
      checkElse aliasNames elseStmt (← checkStmt aliasNames thenStmt requirements)
  | .whileStmt _ condition body, requirements => do
      checkStmt aliasNames body (← checkExpr context aliasNames .taken condition requirements)
  | .outputStmt _ arg, requirements | .errorStmt _ arg, requirements =>
      checkExpr context aliasNames .taken arg requirements

def checkStmts (aliasNames : List String) :
    List Stmt → Requirements → Except CompileError Requirements
  | [], requirements => .ok requirements
  | stmt :: stmts, requirements => do
      checkStmts aliasNames stmts (← checkStmt aliasNames stmt requirements)

def checkElse (aliasNames : List String) :
    Option Stmt → Requirements → Except CompileError Requirements
  | none, requirements => .ok requirements
  | some stmt, requirements => checkStmt aliasNames stmt requirements

def checkArm (aliasNames : List String) (borrowed : Bool) :
    CaseArm → Requirements → Except CompileError Requirements
  | .mk _ _ patterns body, requirements =>
      checkStmt ((Pattern.collectAllBindings patterns).foldl (bindAlias context borrowed) aliasNames)
        body requirements

def checkArms (aliasNames : List String) (borrowed : Bool) :
    List CaseArm → Requirements → Except CompileError Requirements
  | [], requirements => .ok requirements
  | arm :: arms, requirements => do
      checkArms aliasNames borrowed arms (← checkArm aliasNames borrowed arm requirements)
end

def checkFunction : Except CompileError Requirements := do
  let requirements ← checkStmts context [] context.current.stmts
    (context.current.formals.map fun _ => {})
  checkKept context [] "return" context.current.returnArg requirements

end

/-- The Copy requirements that generic bodies impose on their callers. -/
def checkPositions (rules : RuleToggles) (symbols : SymbolTable) (types : TypeResults)
    (summary : DeclNode → Option ReturnSummary) (program : Program) :
    Except CompileError (List (DeclNode × Requirements)) :=
  program.functions.mapM fun function => do
    return (function.decl, ← checkFunction ⟨rules, symbols, types, summary, function⟩)

end Topc.BorrowChecker
