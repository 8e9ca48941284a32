import Mathlib.Data.Finset.Basic
import Mathlib.Logic.Function.Basic
import Topc.FunctionEffects
import Topc.SymbolTable
import Topc.Types.Terms

/-! # Function effect summaries, first phase

A forward walk over each body tells which variables hold a formal and which
formals are passed on. The summary of a function is made from it. -/

namespace Topc

/-! ## Types that depend on the instantiation -/

namespace OwnershipTypeRules

mutual
def containsModeVariable : TopType → Bool
  | .modeVar _ => true
  | .var _ | .int | .mode _ => false
  | .function params ret => anyContainsModeVariable params || containsModeVariable ret
  | .reference refMode referenced => containsModeVariable refMode || containsModeVariable referenced
  | .sumType _ _ payloads => anyContainsModeVariable payloads
  | .mu _ body => containsModeVariable body

def anyContainsModeVariable : List TopType → Bool
  | [] => false
  | type :: types => containsModeVariable type || anyContainsModeVariable types
end

def containsTypeVariable (type : TopType) : Bool :=
  !(TypeVars.collect type).isEmpty || containsModeVariable type

/-- The class of the type is not known before its variables are. -/
def classDependsOnInstantiation : TopType → Bool
  | .var _ | .reference (.modeVar _) _ => true
  | _ => false

mutual
/-- A function type is met while the traversal is inside a `mu`. Leaving any `mu`
counts as being outside again. -/
def findRecursiveFunction (inside : Bool) : TopType → Bool × Bool
  | .var _ | .int | .mode _ | .modeVar _ => (false, inside)
  | .function params ret =>
      let visited := findInAll inside params
      let last := findRecursiveFunction visited.2 ret
      (inside || visited.1 || last.1, last.2)
  | .reference refMode referenced =>
      let visited := findRecursiveFunction inside refMode
      let last := findRecursiveFunction visited.2 referenced
      (visited.1 || last.1, last.2)
  | .sumType _ _ payloads => findInAll inside payloads
  | .mu _ body => ((findRecursiveFunction true body).1, false)

def findInAll (inside : Bool) : List TopType → Bool × Bool
  | [] => (false, inside)
  | type :: types =>
      let visited := findRecursiveFunction inside type
      let rest := findInAll visited.2 types
      (visited.1 || rest.1, rest.2)
end

def rejectUnsupportedRecursiveType (rules : RuleToggles) (type : TopType) (context : String) :
    Except CompileError Unit :=
  if (findRecursiveFunction false type).1 then
    rules.reject "recursive-type"
      s!"recursive types are not yet supported in ownership analysis: {context}"
  else .ok ()

end OwnershipTypeRules

namespace FunctionEffectSummaries

/-! ## Where the value of a variable comes from -/

/-- The formal is that of the origins `fromFormal` and `borrowFromFormal`. -/
structure OriginFact where
  origin : ReturnOrigin
  formalIndex : Option Nat
  allowTypeFallback : Bool
deriving DecidableEq, Repr

def unknownOrigin : OriginFact := ⟨.unknown, none, true⟩

def conflictOrigin : OriginFact := ⟨.unknown, none, false⟩

def freshOwnOrigin : OriginFact := ⟨.freshOwn, none, true⟩

def fromFormalOrigin (index : Nat) : OriginFact := ⟨.fromFormal, some index, true⟩

def borrowFromFormalOrigin (index : Option Nat) : OriginFact := ⟨.borrowFromFormal, index, true⟩

/-- A call whose actual at the position is the formal, or an alias of it. -/
structure ForwardRecord where
  formal : Nat
  call : NodeId
  position : Nat
deriving DecidableEq, Repr

/-- The state of the walk on one path: where each variable's value came from, and
which formals have been passed on, may have been, and were used after that. -/
structure OriginState where
  origins : DeclNode → Option OriginFact
  forwarded : Finset Nat
  maybeForwarded : Finset Nat
  reused : Finset Nat

namespace OriginState

def pass (state : OriginState) (formal : Nat) : OriginState :=
  { state with
    forwarded := insert formal state.forwarded
    maybeForwarded := insert formal state.maybeForwarded }

def reuse (state : OriginState) (formal : Nat) : OriginState :=
  if formal ∈ state.maybeForwarded then { state with reused := insert formal state.reused }
  else state

end OriginState

/-- The formal a fact says the value is. -/
def OriginFact.heldFormal (fact : OriginFact) : Option Nat :=
  if fact.origin = .fromFormal then fact.formalIndex else none

section

variable (symbols : SymbolTable) (functionDecl : DeclNode)

def originForExpr (expr : Expr) (origins : DeclNode → Option OriginFact) : OriginFact :=
  match expr with
  | .varExpr _ name => ((symbols.getLocal name functionDecl).bind origins).getD unknownOrigin
  | .borrowExpr _ (.varExpr _ name) =>
      match (symbols.getLocal name functionDecl).bind origins with
      | some fact =>
          if fact.origin = .fromFormal then borrowFromFormalOrigin fact.formalIndex
          else unknownOrigin
      | none => unknownOrigin
  | .allocExpr .. => freshOwnOrigin
  | _ => unknownOrigin

/-! ## Formals that are passed on -/

/-- An actual that is a formal has been passed on. -/
def notePassed (call : NodeId) (position : Nat) (actual : Expr)
    (walk : OriginState × List ForwardRecord) : OriginState × List ForwardRecord :=
  match (originForExpr symbols functionDecl actual walk.1.origins).heldFormal with
  | some formal => (walk.1.pass formal, walk.2 ++ [⟨formal, call, position⟩])
  | none => walk

mutual
/-- Walk an expression in evaluation order. -/
def noteForwards : Expr → OriginState × List ForwardRecord → OriginState × List ForwardRecord
  | .numExpr .., walk | .inputExpr _, walk => walk
  | .varExpr info name, walk =>
      match (originForExpr symbols functionDecl (.varExpr info name) walk.1.origins).heldFormal with
      | some formal => (walk.1.reuse formal, walk.2)
      | none => walk
  | .binaryExpr _ _ left right, walk => noteForwards right (noteForwards left walk)
  | .funAppExpr info function actuals, walk =>
      noteActuals info.id 0 actuals (noteForwards function walk)
  | .allocExpr _ initializer, walk => noteForwards initializer walk
  | .borrowExpr _ var, walk => noteForwards var walk
  | .deRefExpr _ ptr, walk => noteForwards ptr walk
  | .sumCtorExpr _ _ args, walk => noteAll args walk

def noteActuals (call : NodeId) (position : Nat) :
    List Expr → OriginState × List ForwardRecord → OriginState × List ForwardRecord
  | [], walk => walk
  | actual :: actuals, walk =>
      noteActuals call (position + 1) actuals
        (notePassed symbols functionDecl call position actual (noteForwards actual walk))

def noteAll : List Expr → OriginState × List ForwardRecord → OriginState × List ForwardRecord
  | [], walk => walk
  | expr :: exprs, walk => noteAll exprs (noteForwards expr walk)
end

/-! ## Statements -/

/-- The entries of two paths agree, or there is a conflict. -/
def joinOrigin (left right : Option OriginFact) : Option OriginFact :=
  if left = right then left else some conflictOrigin

def joinStates (left right : OriginState) : OriginState where
  origins decl := joinOrigin (left.origins decl) (right.origins decl)
  forwarded := left.forwarded ∩ right.forwarded
  maybeForwarded := left.maybeForwarded ∪ right.maybeForwarded
  reused := left.reused ∪ right.reused

def assignOrigin (lhs rhs : Expr) (origins : DeclNode → Option OriginFact) :
    DeclNode → Option OriginFact :=
  match lhs with
  | .varExpr _ name =>
      match symbols.getLocal name functionDecl with
      | none => origins
      | some decl =>
          let fact := originForExpr symbols functionDecl rhs origins
          Function.update origins decl (if fact.origin = .unknown then none else some fact)
  | _ => origins

mutual
def analyzeStmtOrigins :
    Stmt → OriginState × List ForwardRecord → OriginState × List ForwardRecord
  | .assignStmt _ lhs rhs, walk =>
      let (state, log) := noteForwards symbols functionDecl rhs walk
      ({ state with origins := assignOrigin symbols functionDecl lhs rhs state.origins }, log)
  | .blockStmt _ stmts, walk => analyzeBlockOrigins stmts walk
  | .ifStmt _ condition thenStmt elseStmt, walk =>
      let (state, log) := noteForwards symbols functionDecl condition walk
      let (thenState, log) := analyzeStmtOrigins thenStmt (state, log)
      let (elseState, log) := analyzeElseOrigins elseStmt (state, log)
      (joinStates thenState elseState, log)
  | .whileStmt _ condition body, walk =>
      let (state, log) := noteForwards symbols functionDecl condition walk
      let (bodyState, log) := analyzeStmtOrigins body (state, log)
      let joined := joinStates state bodyState
      -- Of a second iteration only the reuses are kept.
      let again := analyzeStmtOrigins body (noteForwards symbols functionDecl condition (joined, []))
      ({ joined with reused := joined.reused ∪ again.1.reused }, log)
  | .caseStmt _ caseExpr arms, walk =>
      let (state, log) := noteForwards symbols functionDecl caseExpr walk
      analyzeArmsOrigins state none arms log
  | .outputStmt _ arg, walk | .errorStmt _ arg, walk => noteForwards symbols functionDecl arg walk

def analyzeBlockOrigins :
    List Stmt → OriginState × List ForwardRecord → OriginState × List ForwardRecord
  | [], walk => walk
  | stmt :: stmts, walk => analyzeBlockOrigins stmts (analyzeStmtOrigins stmt walk)

def analyzeElseOrigins :
    Option Stmt → OriginState × List ForwardRecord → OriginState × List ForwardRecord
  | none, walk => walk
  | some stmt, walk => analyzeStmtOrigins stmt walk

/-- Every arm starts from the state after the scrutinee, and its state joins that
of the arms before it. -/
def analyzeArmsOrigins (start : OriginState) (joined : Option OriginState) :
    List CaseArm → List ForwardRecord → OriginState × List ForwardRecord
  | [], log => (joined.getD start, log)
  | .mk _ _ _ body :: arms, log =>
      let (armState, log) := analyzeStmtOrigins body (start, log)
      analyzeArmsOrigins start (some (joined.elim armState fun state => joinStates state armState))
        arms log
end

end

/-! ## Bodies -/

structure BodyFacts where
  returned : OriginFact
  forwarded : Finset Nat
  reused : Finset Nat
  log : List ForwardRecord

/-- Each formal holds its argument, the last one of a declaration that is repeated. -/
def formalOrigins (formals : List DeclNode) (decl : DeclNode) : Option OriginFact :=
  (formals.zipIdx.reverse.find? fun entry => entry.1 == decl).map fun entry =>
    fromFormalOrigin entry.2

def analyzeBody (symbols : SymbolTable) (function : Function) : BodyFacts :=
  let start : OriginState := ⟨formalOrigins function.formals, ∅, ∅, ∅⟩
  let (state, log) := analyzeBlockOrigins symbols function.decl function.stmts (start, [])
  let (ended, log) := noteForwards symbols function.decl function.returnArg (state, log)
  { returned := originForExpr symbols function.decl function.returnArg ended.origins
    forwarded := ended.forwarded
    reused := ended.reused
    log := log }

/-! ## Summaries -/

structure Summary where
  functionName : String
  formalNames : List String
  formalModes : List FormalMode
  formalForwarded : List Bool
  formalRequirement : List FormalRequirement
  returnOrigin : ReturnOrigin
  returnFormalIndex : Option Nat
deriving DecidableEq, Repr

def joinRequirement : CopyRequirement → CopyRequirement → CopyRequirement
  | .none, right => right
  | left, .none => left
  | left, right => if left = right then left else .both

section

variable (rules : RuleToggles) (symbols : SymbolTable) (types : TypeResults)

def formalMode (formal : DeclNode) : FormalMode :=
  if OwnershipClassifier.classify types formal = .own then .own
  else if OwnershipTypeRules.containsTypeVariable (types.ofDecl formal) then .dependsOnInstantiation
  else .copy

/-- A result of unknown origin is fresh if the result type owns, unless paths disagree. -/
def returnOriginOf (function : Function) (returned : OriginFact) : ReturnOrigin :=
  if returned.origin = .unknown ∧ returned.allowTypeFallback = true then
    match types.ofDecl function.decl with
    | .function _ ret =>
        if OwnershipClassifier.classifyType ret = .own then .freshOwn else .pureCopy
    | _ => .pureCopy
  else returned.origin

/-- What the walk over the body requires of a formal of a generic type: it was used
again after it may have been passed on, or it is not disposed of on every path. -/
def bodyRequirement (facts : BodyFacts) (origin : ReturnOrigin) (index : Nat) (formal : DeclNode) :
    FormalRequirement :=
  let generic := formalMode types formal = .dependsOnInstantiation
  let reused : FormalRequirement :=
    if index ∈ facts.reused ∧ generic then ⟨.self, RequirementReason.usedAfterPassedOn.bit⟩ else {}
  let returned := origin = .fromFormal ∧ facts.returned.formalIndex = some index
  if generic ∧ OwnershipTypeRules.classDependsOnInstantiation (types.ofDecl formal) = true
      ∧ ¬ returned ∧ index ∉ facts.forwarded then
    ⟨joinRequirement reused.kind .self, reused.reasons ||| RequirementReason.notDisposed.bit⟩
  else reused

def summarize (function : Function) : Except CompileError Summary := do
  OwnershipTypeRules.rejectUnsupportedRecursiveType rules (types.ofDecl function.decl)
    s!"function {function.getName}"
  function.formals.forM fun formal =>
    OwnershipTypeRules.rejectUnsupportedRecursiveType rules (types.ofDecl formal)
      s!"parameter {formal.name} of function {function.getName}"
  let facts := analyzeBody symbols function
  let origin := returnOriginOf types function facts.returned
  return {
    functionName := function.getName
    formalNames := function.formals.map DeclNode.name
    formalModes := function.formals.map (formalMode types)
    formalForwarded := function.formals.zipIdx.map fun entry => decide (entry.2 ∈ facts.forwarded)
    formalRequirement := function.formals.zipIdx.map fun entry =>
      bodyRequirement types facts origin entry.2 entry.1
    returnOrigin := origin
    returnFormalIndex := facts.returned.formalIndex }

/-- The summaries, and the calls that each function passes its formals on to. -/
def build (program : Program) :
    Except CompileError (List (DeclNode × Summary) × List (DeclNode × List ForwardRecord)) := do
  let summaries ← program.functions.mapM fun function => do
    return (function.decl, ← summarize rules symbols types function)
  return (summaries, program.functions.map fun function =>
    (function.decl, (analyzeBody symbols function).log))

end

end FunctionEffectSummaries

end Topc
