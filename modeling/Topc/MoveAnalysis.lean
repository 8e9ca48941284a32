import Topc.SymbolTable
import Topc.Types

/-! # Move analysis

A forward walk over each function that tracks which variables own a resource,
rejects uses of moved variables, and plans where owners are destroyed. -/

namespace Topc

/-- Which actuals a call consumes. -/
structure CallEffect where
  consumes : List Bool
deriving DecidableEq, Repr

inductive OwnershipState
  | owned
  | moved
deriving DecidableEq, Repr

/-- The ownership of the variables at one program point. A variable that was
never assigned has no entry. -/
abbrev StateMap := Std.ExtTreeMap DeclNode OwnershipState

structure MoveTraceEvent where
  kind : String
  variableName : String
  line : Nat
  detail : String
deriving DecidableEq, Repr

/-- Where destruction must be inserted. -/
structure DestructionPlan where
  /-- Owners still owned at the exit of each function, sorted by name. -/
  atExit : List (DeclNode × List DeclNode)
  /-- Owned binders still owned at the end of each arm of a by-value match. -/
  atArmEnd : List (NodeId × List DeclNode)
  /-- Dereferences of an owning reference that was never bound. -/
  freeAfterUse : List NodeId
  /-- By-value matches. -/
  consumingMatches : List NodeId
  /-- Wildcards that discard an owned payload. -/
  discardedPayloads : List NodeId
deriving DecidableEq, Repr

namespace MoveAnalysis

/-- What the walk reads while it analyses one function. -/
structure Context where
  rules : RuleToggles
  symbols : SymbolTable
  types : TypeResults
  callEffect : NodeId → Option CallEffect
  currentFuncDecl : DeclNode

/-- The state of the walk: the current state map and the fields it writes. -/
structure Walk where
  state : StateMap
  /-- Variables moved so far in the current statement. -/
  movedInStmt : List DeclNode
  plan : DestructionPlan
  trace : List MoveTraceEvent

/-- The borrowed owners of the calls whose actuals are being evaluated. -/
abbrev HeldBorrows := List (Expr × List DeclNode)

namespace Context

/-- The declaration a name resolves to: a local, else a function. -/
def resolveVar (context : Context) (name : String) : Option DeclNode :=
  context.symbols.getLocal name context.currentFuncDecl <|>
    context.symbols.getFunction name

def isOwn (context : Context) (decl : DeclNode) : Bool :=
  OwnershipClassifier.classify context.types decl == .own

/-- The variable of type `Own` an expression directly names, if it is one. -/
def directOwner (context : Context) : Expr → Option DeclNode
  | .varExpr _ name => (context.resolveVar name).filter context.isOwn
  | _ => none

def consumes (context : Context) (call : NodeId) : List Bool :=
  ((context.callEffect call).map CallEffect.consumes).getD []

end Context

namespace Walk

def log (walk : Walk) (kind variableName : String) (line : Nat) (detail : String) : Walk :=
  { walk with trace := walk.trace ++ [⟨kind, variableName, line, detail⟩] }

def set (walk : Walk) (decl : DeclNode) (status : OwnershipState) : Walk :=
  { walk with state := walk.state.insert decl status }

@[simp] theorem log_state (walk : Walk) (kind variableName : String) (line : Nat)
    (detail : String) : (walk.log kind variableName line detail).state = walk.state := rfl

@[simp] theorem log_plan (walk : Walk) (kind variableName : String) (line : Nat)
    (detail : String) : (walk.log kind variableName line detail).plan = walk.plan := rfl

@[simp] theorem set_state (walk : Walk) (decl : DeclNode) (status : OwnershipState) :
    (walk.set decl status).state = walk.state.insert decl status := rfl

@[simp] theorem set_plan (walk : Walk) (decl : DeclNode) (status : OwnershipState) :
    (walk.set decl status).plan = walk.plan := rfl

end Walk

section

variable (context : Context)

/-! ## Expressions, in evaluation order -/

mutual
/-- Owners borrowed anywhere inside an expression. -/
def collectBorrowedOwners : Expr → List DeclNode
  | .numExpr .. | .varExpr .. | .inputExpr .. => []
  | .binaryExpr _ _ left right => collectBorrowedOwners left ++ collectBorrowedOwners right
  | .funAppExpr _ function actuals =>
      collectBorrowedOwners function ++ collectAllBorrowedOwners actuals
  | .allocExpr _ initializer => collectBorrowedOwners initializer
  | .borrowExpr _ var =>
      (match var with
        | .varExpr _ name => (context.resolveVar name).toList
        | _ => []) ++ collectBorrowedOwners var
  | .deRefExpr _ ptr => collectBorrowedOwners ptr
  | .sumCtorExpr _ _ args => collectAllBorrowedOwners args

def collectAllBorrowedOwners : List Expr → List DeclNode
  | [] => []
  | expr :: exprs => collectBorrowedOwners expr ++ collectAllBorrowedOwners exprs
end

/-- Reject a use of a moved variable. -/
def checkUse (info : NodeInfo) (name : String) (walk : Walk) : Except CompileError Walk := do
  if let some decl := (context.resolveVar name).filter context.isOwn then
    if walk.state[decl]? = some .moved then
      context.rules.reject "use-after-move"
        s!"variable '{name}' used after move on line {info.line}"
  return walk

/-- Reject moving a variable that a call in progress borrows. -/
def checkHeldBorrows (info : NodeInfo) (name : String) (decl : DeclNode) :
    HeldBorrows → Except CompileError Unit
  | [] => .ok ()
  | (call, owners) :: held => do
      if owners.contains decl then
        context.rules.reject "call-held-borrow"
          (s!"Ownership error on line {info.line}: variable '{name}' is moved while the call "
            ++ call.print ++ " borrows it; a borrowed owner must stay alive until the call returns")
      checkHeldBorrows info name decl held

/-- Move a variable. -/
def consumeVar (held : HeldBorrows) (info : NodeInfo) (name : String) (decl : DeclNode)
    (reason : String) (walk : Walk) : Except CompileError Walk := do
  if walk.state[decl]? = some .moved then
    let how := if walk.movedInStmt.contains decl then "moved more than once"
      else "used after move"
    context.rules.reject "use-after-move" s!"variable '{name}' {how} on line {info.line}"
  checkHeldBorrows context info name decl held
  let moved := walk.set decl .moved
  return { moved with movedInStmt := decl :: moved.movedInStmt }.log "move" name info.line reason

/-- The expression makes an owning reference that no variable holds. -/
def isUnboundReference (operand : Expr) : Bool :=
  match operand with
  | .funAppExpr .. | .allocExpr .. =>
      OwnershipClassifier.classifyValue context.types operand == .own
        && context.rules.enabled "free-unbound-reference"
  | _ => false

/-- Record a dereference of an unbound owning reference. -/
def noteUnboundReference (deref operand : Expr) (walk : Walk) : Walk :=
  if isUnboundReference context operand then
    { walk with plan := { walk.plan with
        freeAfterUse := deref.info.id :: walk.plan.freeAfterUse } }
  else
    walk

mutual
/-- Check each use against the state and apply each move where it happens. -/
def evalExpr (held : HeldBorrows) : Expr → Walk → Except CompileError Walk
  | .numExpr .., walk | .inputExpr .., walk => .ok walk
  | .varExpr info name, walk => checkUse context info name walk
  | .binaryExpr _ _ left right, walk => do
      evalExpr held right (← evalExpr held left walk)
  | .funAppExpr info function actuals, walk => do
      let walk ← evalExpr held function walk
      -- A borrow in any actual is live until the call returns.
      let borrowed := collectAllBorrowedOwners context actuals
      evalActuals (held ++ [(.funAppExpr info function actuals, borrowed)])
        (context.consumes info.id) actuals walk
  | .allocExpr _ initializer, walk => evalExpr held initializer walk
  | .borrowExpr _ var, walk => evalExpr held var walk
  | .deRefExpr info ptr, walk => do
      return noteUnboundReference context (.deRefExpr info ptr) ptr (← evalExpr held ptr walk)
  | .sumCtorExpr _ _ args, walk => evalPayloads held args walk

def evalActuals (held : HeldBorrows) (consumes : List Bool) :
    List Expr → Walk → Except CompileError Walk
  | [], walk => .ok walk
  | actual :: actuals, walk => do
      let evaluated := match consumes.headD false, context.directOwner actual with
        | true, some decl =>
            consumeVar context held actual.info decl.name decl
              "ownership moved via function argument" walk
        | _, _ => evalExpr held actual walk
      evalActuals held consumes.tail actuals (← evaluated)

/-- A constructor payload takes ownership of an `Own` variable. -/
def evalPayloads (held : HeldBorrows) : List Expr → Walk → Except CompileError Walk
  | [], walk => .ok walk
  | payload :: payloads, walk => do
      let evaluated := match context.directOwner payload with
        | some decl =>
            consumeVar context held payload.info decl.name decl
              "ownership moved into constructor payload" walk
        | none => evalExpr held payload walk
      evalPayloads held payloads (← evaluated)
end

/-! ## Joins and loops -/

def ownedIn (state : StateMap) (decl : DeclNode) : Bool :=
  state[decl]? == some .owned

def movedIn (state : StateMap) (decl : DeclNode) : Bool :=
  state[decl]? == some .moved

/-- The variables with an entry in some branch, in key order. -/
def entriesOf (branches : List StateMap) : List DeclNode :=
  (branches.foldl (fun keys branch => keys.insertMany branch.keys)
    (∅ : Std.ExtTreeSet DeclNode)).toList

/-- The entry of one variable after a join. -/
def joinVar (branches : List StateMap) (joined : StateMap) (decl : DeclNode) :
    Except CompileError StateMap :=
  let moved := branches.any fun branch => movedIn branch decl
  if branches.all fun branch => ownedIn branch decl then
    .ok (joined.insert decl .owned)
  else do
    if branches.any fun branch => ownedIn branch decl then
      let problem := if moved then "one path leaves it Moved and the other leaves it Owned"
        else s!"variable '{decl.name}' is assigned on one path and not on another; initialize it on every path"
      context.rules.reject "join-agreement"
        s!"ownership state disagreement at control-flow join for an Own variable: {problem}"
    return if moved then joined.insert decl .moved else joined

/-- A variable is owned after a join only if it is owned on every branch. -/
def joinStates (branches : List StateMap) : Except CompileError StateMap :=
  (entriesOf branches).foldlM (joinVar context branches) ∅

/-- A loop body may not change which variables are owned. -/
def assertLoopInvariant (preState bodyState : StateMap) (line : Nat) :
    Except CompileError Unit :=
  (entriesOf [preState, bodyState]).forM fun decl =>
    if ownedIn preState decl = ownedIn bodyState decl then
      .ok ()
    else if ownedIn preState decl then
      context.rules.reject "loop-body-invariant" s!"move inside while-loop body on line {line}"
    else
      context.rules.reject "loop-body-invariant"
        s!"variable '{decl.name}' is still owned at the end of a while-loop iteration on line {line}; move it on or free it within the iteration"

/-! ## Assignments -/

/-- Evaluate a right-hand side. A direct `Own` variable there is a move. -/
def evalRHS (line : Nat) (rhs : Expr) (walk : Walk) : Except CompileError Walk :=
  match context.directOwner rhs with
  | some decl => do
      if walk.state[decl]? = some .moved then
        context.rules.reject "use-after-move"
          s!"variable '{decl.name}' moved more than once on line {line}"
      return (walk.set decl .moved).log "move" decl.name line "ownership moved from RHS variable"
  | none => evalExpr context [] rhs walk

/-- Give the assigned variable ownership of the value. -/
def assignLHS (line : Nat) (lhs rhs : Expr) (walk : Walk) : Except CompileError Walk :=
  match context.directOwner lhs with
  | none => .ok walk
  | some decl =>
      if rhs.isBorrow then
        -- A borrow does not transfer heap ownership.
        .ok { walk with state := walk.state.erase decl }
      else do
        if walk.state[decl]? = some .owned then
          context.rules.reject "assign-over-live"
            s!"variable '{decl.name}' assigned while still owned on line {line} — free or move first"
        let detail := if (context.directOwner rhs).isSome then "ownership received via move"
          else "ownership established by assignment"
        return (walk.set decl .owned).log "own" decl.name line detail

/-- Code generation evaluates the target of `*e = v` before the right-hand side. -/
def evalTarget (lhs : Expr) (walk : Walk) : Except CompileError Walk :=
  match lhs with
  | .deRefExpr info ptr => do
      return noteUnboundReference context (.deRefExpr info ptr) ptr (← evalExpr context [] ptr walk)
  | _ => .ok walk

def analyzeAssign (line : Nat) (lhs rhs : Expr) (walk : Walk) : Except CompileError Walk := do
  let walk ← evalTarget context lhs walk
  let walk ← evalRHS context line rhs walk
  assignLHS context line lhs rhs walk

/-! ## Case statements -/

/-- The payload slots of a constructor. -/
def constructorParams (tag : String) : List DeclNode :=
  match context.symbols.getConstructorOwner tag with
  | none => []
  | some owner =>
      ((owner.variants.reverse.find? fun variant => variant.tag == tag).map
        SumVariant.params).getD []

mutual
/-- The wildcards of a pattern that discard an owned payload. -/
def collectDiscardedPayloads (payload : Option DeclNode) : Pattern → List NodeId
  | .wildcard info => if payload.any context.isOwn then [info.id] else []
  | .var .. => []
  | .ctor _ tag subPatterns => collectAllDiscardedPayloads (constructorParams context tag) subPatterns

def collectAllDiscardedPayloads (params : List DeclNode) : List Pattern → List NodeId
  | [] => []
  | pattern :: patterns =>
      collectDiscardedPayloads params.head? pattern
        ++ collectAllDiscardedPayloads params.tail patterns
end

/-- A match is by value unless it matches through a dereference. -/
def planMatch (info : NodeInfo) (caseExpr : Expr) (arms : List CaseArm) (walk : Walk) : Walk :=
  if caseExpr.isDeRef then
    walk
  else
    { walk with plan := { walk.plan with
        consumingMatches := info.id :: walk.plan.consumingMatches
        discardedPayloads := walk.plan.discardedPayloads ++ arms.flatMap fun arm =>
          collectAllDiscardedPayloads context (constructorParams context arm.getTag) arm.getPatterns } }

/-- Owned binders of an arm; those of `case *p` are aliases of the scrutinee. -/
def ownedBinders (bindings : List DeclNode) (byValue : Bool) : List DeclNode :=
  if byValue then bindings.filter context.isOwn else []

/-- The declaration a binder's state is kept under. -/
def binderKey (binder : DeclNode) : DeclNode :=
  (context.resolveVar binder.name).getD binder

/-- Make the binders owned, remembering the entries they replace. -/
def enterArm (line : Nat) : List DeclNode → Walk →
    Walk × List (DeclNode × Option OwnershipState)
  | [], walk => (walk, [])
  | binder :: binders, walk =>
      let key := binderKey context binder
      let saved := (key, walk.state[key]?)
      let walk := (walk.set key .owned).log "own" binder.name line
        "ownership received from the matched payload"
      let rest := enterArm line binders walk
      (rest.1, saved :: rest.2)

/-- Plan the destruction of the binders still owned at the end of their arm. -/
def planArmEnd (arm : NodeId) (binders : List DeclNode) (walk : Walk) : Walk :=
  match binders.filter fun binder => ownedIn walk.state (binderKey context binder) with
  | [] => walk
  | owned => { walk with plan := { walk.plan with
      atArmEnd := walk.plan.atArmEnd ++ [(arm, owned)] } }

/-- Put back the entries the binders replaced. -/
def restore : List (DeclNode × Option OwnershipState) → StateMap → StateMap
  | [], state => state
  | (key, some previous) :: saved, state => restore saved (state.insert key previous)
  | (key, none) :: saved, state => restore saved (state.erase key)

/-! ## Statements -/

/-- Evaluate an expression whose value is taken: a direct `Own` variable moves. -/
def evalTaken (reason : String) (expr : Expr) (walk : Walk) : Except CompileError Walk :=
  match context.directOwner expr with
  | some decl => consumeVar context [] expr.info decl.name decl reason walk
  | none => evalExpr context [] expr walk

mutual
def analyzeStmt : Stmt → Walk → Except CompileError Walk
  | .assignStmt info lhs rhs, walk =>
      analyzeAssign context info.line lhs rhs { walk with movedInStmt := [] }
  | .blockStmt _ stmts, walk => analyzeStmts stmts { walk with movedInStmt := [] }
  | .ifStmt _ condition thenStmt elseStmt, walk => do
      let walk ← evalExpr context [] condition { walk with movedInStmt := [] }
      let thenWalk ← analyzeStmt thenStmt walk
      let elseWalk ← analyzeElse elseStmt { thenWalk with state := walk.state }
      return { elseWalk with state := ← joinStates context [thenWalk.state, elseWalk.state] }
  | .whileStmt info condition body, walk => do
      let condWalk ← evalExpr context [] condition { walk with movedInStmt := [] }
      if condWalk.state ≠ walk.state then
        context.rules.reject "loop-condition"
          s!"move in while-loop condition on line {info.line}"
      let bodyWalk ← analyzeStmt body { condWalk with state := walk.state }
      assertLoopInvariant context walk.state bodyWalk.state info.line
      return { bodyWalk with state := walk.state }
  | .outputStmt _ arg, walk | .errorStmt _ arg, walk =>
      evalExpr context [] arg { walk with movedInStmt := [] }
  | .caseStmt info caseExpr arms, walk => do
      let walk ← evalTaken context "ownership consumed by case" caseExpr
        { walk with movedInStmt := [] }
      let walk := planMatch context info caseExpr arms walk
      let (armsWalk, states) ← analyzeArms (!caseExpr.isDeRef) walk.state arms walk
      if states.isEmpty then
        return armsWalk
      else
        return { armsWalk with state := ← joinStates context states }

def analyzeStmts : List Stmt → Walk → Except CompileError Walk
  | [], walk => .ok walk
  | stmt :: stmts, walk => do analyzeStmts stmts (← analyzeStmt stmt walk)

/-- A missing `else` leaves the state unchanged. -/
def analyzeElse : Option Stmt → Walk → Except CompileError Walk
  | none, walk => .ok walk
  | some stmt, walk => analyzeStmt stmt walk

/-- One arm. Its owned binders are owned for the arm and leave the state at its
end, where those still owned are destroyed. -/
def analyzeArm (byValue : Bool) : CaseArm → Walk → Except CompileError Walk
  | .mk info _ patterns body, walk => do
      let binders := ownedBinders context (Pattern.collectAllBindings patterns) byValue
      let (entered, saved) := enterArm context info.line binders walk
      let ended := planArmEnd context info.id binders (← analyzeStmt body entered)
      return { ended with state := restore saved ended.state }

/-- Every arm starts from the state after the scrutinee. -/
def analyzeArms (byValue : Bool) (start : StateMap) : List CaseArm → Walk →
    Except CompileError (Walk × List StateMap)
  | [], walk => .ok (walk, [])
  | arm :: arms, walk => do
      let armWalk ← analyzeArm byValue arm { walk with state := start }
      let (rest, states) ← analyzeArms byValue start arms armWalk
      return (rest, armWalk.state :: states)
end

end

/-! ## Functions -/

/-- An owned formal starts owned; a local has no entry until it is assigned. -/
def initialState (context : Context) (formals : List DeclNode) : StateMap :=
  (formals.filter context.isOwn).foldl (fun state formal => state.insert formal .owned) ∅

/-- The variables owned in a state, in the order of their names. -/
def ownersByName (state : StateMap) : List DeclNode :=
  (state.keys.filter (ownedIn state)).mergeSort fun left right =>
    decide (left.name ≤ right.name)

def analyzeFunction (context : Context) (function : Function)
    (plan : DestructionPlan) (trace : List MoveTraceEvent) : Except CompileError Walk := do
  let start : Walk := ⟨initialState context function.formals, [], plan, trace⟩
  let walk ← analyzeStmts context function.stmts start
  let walk ← evalTaken context "ownership moved by return" function.returnArg
    { walk with movedInStmt := [] }
  return { walk with plan := { walk.plan with
    atExit := walk.plan.atExit ++ [(function.decl, ownersByName walk.state)] } }

section

variable (rules : RuleToggles) (symbols : SymbolTable) (types : TypeResults)
  (callEffect : NodeId → Option CallEffect)

def contextOf (function : Function) : Context :=
  ⟨rules, symbols, types, callEffect, function.decl⟩

/-- Every function in turn, into one plan and one trace. -/
def analyzeFunctions (start : DestructionPlan × List MoveTraceEvent) (functions : List Function) :
    Except CompileError (DestructionPlan × List MoveTraceEvent) :=
  functions.foldlM (fun (plan, trace) function => do
    let walk ← analyzeFunction (contextOf rules symbols types callEffect function) function
      plan trace
    return (walk.plan, walk.trace)) start

def run (program : Program) : Except CompileError (DestructionPlan × List MoveTraceEvent) :=
  analyzeFunctions rules symbols types callEffect (⟨[], [], [], [], []⟩, []) program.functions

end

end MoveAnalysis

end Topc
