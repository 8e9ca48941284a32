import Topc.BorrowChecker.DirectBorrows
import Topc.FunctionEffectSummaries.CallEffects
import Topc.OwnershipTypeRules

/-! # Semantic analysis

The passes in the order in which the compiler runs them, each on what the passes
before it found. -/

namespace Topc

/-- What the passes find about a program. -/
structure SemanticAnalysis where
  symbolTable : SymbolTable
  callGraph : CallGraph
  /-- The symbol table with the generalised functions marked. -/
  marked : SymbolTable
  unifier : TermUnionFind TopType
  typeResults : TypeResults
  summaries : List (DeclNode × FunctionEffectSummaries.Summary)
  forwardLogs : List (DeclNode × List FunctionEffectSummaries.ForwardRecord)
  positionRequirements : List (DeclNode × BorrowChecker.Requirements)
  requirements : FunctionEffectSummaries.Requirements
  callEffects : List (NodeId × CallEffect)
  destructionPlan : DestructionPlan
  trace : List MoveTraceEvent

namespace SemanticAnalysis

variable (analysis : SemanticAnalysis)

def returnSummary (decl : DeclNode) : Option ReturnSummary :=
  (FunctionEffectSummaries.findSummary analysis.summaries decl).map fun entry =>
    ⟨entry.2.returnOrigin, entry.2.returnFormalIndex⟩

def positionsOf (decl : DeclNode) : List FormalRequirement :=
  ((analysis.positionRequirements.find? fun entry => entry.1 = decl).map Prod.snd).getD []

def callEffect (call : NodeId) : Option CallEffect :=
  (analysis.callEffects.find? fun entry => entry.1 = call).map Prod.snd

/-- What the move analysis reads of the earlier passes in one function. -/
def moveContext (function : Function) : MoveAnalysis.Context :=
  MoveAnalysis.contextOf .allEnabled analysis.marked analysis.typeResults analysis.callEffect
    function

/-- The passes up to the summaries of the functions accept the program. The types
they read are the inferred ones, and those of the nodes that no pass reads close too. -/
structure Infers (program : Program) : Prop where
  symbols : SymbolTable.build program = .ok analysis.symbolTable
  assignable : CheckAssignable.check program = .ok ()
  directBorrows : BorrowChecker.check .allEnabled program = .ok ()
  sumTypeNames : CheckSumTypeNames.check program = .ok ()
  caseCompleteness : CheckCaseCompleteness.check program = .ok ()
  patternTypes : CheckPatternTypes.check program = .ok ()
  calls : analysis.callGraph.IsBuilt program analysis.symbolTable
  inference : TypeInference.runPoly analysis.symbolTable analysis.callGraph =
    .ok (analysis.marked, analysis.unifier)
  exprTypes : ∀ function ∈ program.functions, ∀ expr, .expr expr ∈ function.postOrder →
    TypeInference.getInferredExprType analysis.marked analysis.unifier function.decl expr =
      .ok (analysis.typeResults.ofExpr expr)
  declTypes : ∀ function ∈ program.functions, ∀ decl ∈ function.decl :: function.variables,
    TypeInference.getInferredType analysis.unifier decl =
      .ok (analysis.typeResults.ofDecl decl)
  payloadTypes : ∀ owner ∈ program.typedecls, ∀ variant ∈ owner.variants,
    ∀ param ∈ variant.params, TypeInference.getInferredType analysis.unifier param =
      .ok (analysis.typeResults.ofDecl param)
  allocPayloads : OwnershipTypeRules.checkAllocPayloads .allEnabled analysis.typeResults program =
    .ok ()
  effects : FunctionEffectSummaries.build .allEnabled analysis.marked analysis.typeResults
    program = .ok (analysis.summaries, analysis.forwardLogs)

/-- All passes accept the program. -/
structure Analyzes (program : Program) : Prop extends analysis.Infers program where
  positions : BorrowChecker.checkPositions .allEnabled analysis.marked analysis.typeResults
    analysis.returnSummary program = .ok analysis.positionRequirements
  resolved : ∃ fuel, FunctionEffectSummaries.resolveRequirements .allEnabled program
    analysis.marked analysis.callGraph analysis.unifier analysis.forwardLogs analysis.summaries
    (FunctionEffectSummaries.calls program) fuel
    (FunctionEffectSummaries.startRequirements analysis.summaries analysis.positionsOf) =
      some (.ok analysis.requirements)
  consumed : FunctionEffectSummaries.callEffects analysis.marked analysis.callGraph
    analysis.unifier analysis.summaries (FunctionEffectSummaries.calls program) =
      .ok analysis.callEffects
  borrowComponents : ∀ print, OwnershipTypeRules.checkBorrowComponents .allEnabled
    analysis.typeResults print analysis.marked program = .ok ()
  moves : MoveAnalysis.run .allEnabled analysis.marked analysis.typeResults analysis.callEffect
    program = .ok (analysis.destructionPlan, analysis.trace)

/-! ## Running the passes -/

/-- The type of a node is closed in the function that the node is in. -/
def typesOf (program : Program) (marked : SymbolTable) (unifier : TermUnionFind TopType) :
    TypeResults where
  ofDecl decl := (TypeInference.getInferredType unifier decl).toOption.getD .int
  ofExpr expr :=
    ((program.functions.find? fun function => expr.info.id ∈ exprIds function.postOrder).bind
      fun function =>
        (TypeInference.getInferredExprType marked unifier function.decl expr).toOption).getD .int

/-- Closing the types of the program gives the results. -/
def typed (program : Program) (marked : SymbolTable) (unifier : TermUnionFind TopType)
    (types : TypeResults) : Bool :=
  (program.functions.all fun function =>
    (function.postOrder.all fun node =>
      match node with
      | .expr expr =>
          (TypeInference.getInferredExprType marked unifier function.decl expr).toOption =
            some (types.ofExpr expr)
      | .stmt _ => true) &&
    (function.decl :: function.variables).all fun decl =>
      (TypeInference.getInferredType unifier decl).toOption = some (types.ofDecl decl)) &&
  program.typedecls.all fun owner => owner.variants.all fun variant =>
    variant.params.all fun param =>
      (TypeInference.getInferredType unifier param).toOption = some (types.ofDecl param)

/-- The search of the solver, with a bound on its depth. -/
def boundedPath (solver : CfaSolver) (source target : Nat) : List Nat :=
  (solver.findPath id 8 source target).getD []

section

variable (program : Program) (iterate : List Nat → List Nat)
  (findPath : CfaSolver → Nat → Nat → List Nat) (steps fuel : Nat)

/-- The passes that need no types, up to inference. -/
def infer : Option (SymbolTable × CallGraph × SymbolTable × TermUnionFind TopType) := do
  let symbols ← (SymbolTable.build program).toOption
  (CheckAssignable.check program).toOption
  (BorrowChecker.check .allEnabled program).toOption
  (CheckSumTypeNames.check program).toOption
  (CheckCaseCompleteness.check program).toOption
  (CheckPatternTypes.check program).toOption
  let solver ← CFAnalyzer.analyze program symbols iterate findPath steps
  let callGraph := CallGraphBuilder.build program symbols solver
  let (marked, unifier) ← (TypeInference.runPoly symbols callGraph).toOption
  return (symbols, callGraph, marked, unifier)

/-- The passes up to the summaries, if none of them rejects the program. -/
def summarize : Option SemanticAnalysis := do
  let (symbols, callGraph, marked, unifier) ← infer program iterate findPath steps
  let types := typesOf program marked unifier
  guard (typed program marked unifier types)
  (OwnershipTypeRules.checkAllocPayloads .allEnabled types program).toOption
  let (summaries, logs) ←
    (FunctionEffectSummaries.build .allEnabled marked types program).toOption
  return ⟨symbols, callGraph, marked, unifier, types, summaries, logs, [], fun _ => {}, [],
    ⟨[], [], [], [], []⟩, []⟩

/-- All passes, if none of them rejects the program. -/
def analyze : Option SemanticAnalysis := do
  let start ← summarize program iterate findPath steps
  let positions ← (BorrowChecker.checkPositions .allEnabled start.marked start.typeResults
    start.returnSummary program).toOption
  let placed := { start with positionRequirements := positions }
  let resolved ← FunctionEffectSummaries.resolveRequirements .allEnabled program start.marked
    start.callGraph start.unifier start.forwardLogs start.summaries
    (FunctionEffectSummaries.calls program) fuel
    (FunctionEffectSummaries.startRequirements start.summaries placed.positionsOf)
  let requirements ← resolved.toOption
  let effects ← (FunctionEffectSummaries.callEffects start.marked start.callGraph start.unifier
    start.summaries (FunctionEffectSummaries.calls program)).toOption
  (OwnershipTypeRules.checkBorrowComponents .allEnabled start.typeResults (fun _ => "")
    start.marked program).toOption
  let effective := { placed with requirements := requirements, callEffects := effects }
  let (plan, trace) ← (MoveAnalysis.run .allEnabled start.marked start.typeResults
    effective.callEffect program).toOption
  return { effective with destructionPlan := plan, trace := trace }

end

section

variable {program : Program} {iterate : List Nat → List Nat}
  {findPath : CfaSolver → Nat → Nat → List Nat} {steps fuel : Nat}

theorem typed_expr {marked : SymbolTable} {unifier : TermUnionFind TopType} {types : TypeResults}
    (holds : typed program marked unifier types = true) {function : Function}
    (functionMem : function ∈ program.functions) {expr : Expr}
    (member : .expr expr ∈ function.postOrder) :
    TypeInference.getInferredExprType marked unifier function.decl expr =
      .ok (types.ofExpr expr) := by
  rw [typed, Bool.and_eq_true, List.all_eq_true] at holds
  have ofFunction := holds.1 function functionMem
  rw [Bool.and_eq_true, List.all_eq_true] at ofFunction
  have ofNode := ofFunction.1 _ member
  exact toOption_eq_some.mp (of_decide_eq_true ofNode)

theorem typed_decl {marked : SymbolTable} {unifier : TermUnionFind TopType} {types : TypeResults}
    (holds : typed program marked unifier types = true) {function : Function}
    (functionMem : function ∈ program.functions) {decl : DeclNode}
    (member : decl ∈ function.decl :: function.variables) :
    TypeInference.getInferredType unifier decl = .ok (types.ofDecl decl) := by
  rw [typed, Bool.and_eq_true, List.all_eq_true] at holds
  have ofFunction := holds.1 function functionMem
  rw [Bool.and_eq_true, List.all_eq_true, List.all_eq_true] at ofFunction
  exact toOption_eq_some.mp (of_decide_eq_true (ofFunction.2 decl member))

theorem typed_param {marked : SymbolTable} {unifier : TermUnionFind TopType} {types : TypeResults}
    (holds : typed program marked unifier types = true) {owner : SumTypeDecl}
    (ownerMem : owner ∈ program.typedecls) {variant : SumVariant}
    (variantMem : variant ∈ owner.variants) {param : DeclNode} (member : param ∈ variant.params) :
    TypeInference.getInferredType unifier param = .ok (types.ofDecl param) := by
  rw [typed, Bool.and_eq_true, List.all_eq_true, List.all_eq_true] at holds
  have ofOwner := holds.2 owner ownerMem
  rw [List.all_eq_true] at ofOwner
  have ofVariant := ofOwner variant variantMem
  rw [List.all_eq_true] at ofVariant
  exact toOption_eq_some.mp (of_decide_eq_true (ofVariant param member))

theorem guard_eq_some {condition : Prop} [Decidable condition] {outcome : Unit}
    (passed : guard condition = some outcome) : condition := by
  by_contra fails
  rw [guard, if_neg fails] at passed
  cases passed

theorem summarize_infers {analysis : SemanticAnalysis}
    (result : summarize program iterate findPath steps = some analysis) :
    analysis.Infers program := by
  simp only [summarize, Option.bind_eq_bind, Option.bind_eq_some_iff, toOption_eq_some] at result
  rcases result with ⟨⟨symbols, callGraph, marked, unifier⟩, inferred, _, isTyped, _, payloads,
    ⟨summaries, logs⟩, effects, finished⟩
  simp only [infer, Option.bind_eq_bind, Option.bind_eq_some_iff, toOption_eq_some] at inferred
  rcases inferred with ⟨_, built, _, assignable, _, borrows, _, names, _, complete, _, patterns,
    solver, analyzed, ⟨_, _⟩, solved, inferred⟩
  cases inferred
  cases finished
  have typesHold := guard_eq_some isTyped
  exact {
    symbols := built
    assignable := assignable
    directBorrows := borrows
    sumTypeNames := names
    caseCompleteness := complete
    patternTypes := patterns
    calls := ⟨iterate, findPath, steps, solver, analyzed, rfl, fun _ => .rfl, fun _ => .rfl⟩
    inference := solved
    exprTypes := fun _ functionMem _ member => typed_expr typesHold functionMem member
    declTypes := fun _ functionMem _ member => typed_decl typesHold functionMem member
    payloadTypes := fun _ ownerMem _ variantMem _ member =>
      typed_param typesHold ownerMem variantMem member
    allocPayloads := payloads
    effects := effects }

/-- A run of the passes that comes to its end has accepted the program. -/
theorem analyze_analyzes {analysis : SemanticAnalysis}
    (result : analyze program iterate findPath steps fuel = some analysis) :
    analysis.Analyzes program := by
  simp only [analyze, Option.bind_eq_bind, Option.bind_eq_some_iff, toOption_eq_some] at result
  rcases result with ⟨start, summarized, positions, placed, resolved, propagated, requirements,
    settled, callEffects, consumed, _, components, ⟨plan, trace⟩, moves, finished⟩
  cases finished
  have infers := summarize_infers summarized
  exact {
    symbols := infers.symbols
    assignable := infers.assignable
    directBorrows := infers.directBorrows
    sumTypeNames := infers.sumTypeNames
    caseCompleteness := infers.caseCompleteness
    patternTypes := infers.patternTypes
    calls := infers.calls
    inference := infers.inference
    exprTypes := infers.exprTypes
    declTypes := infers.declTypes
    payloadTypes := infers.payloadTypes
    allocPayloads := infers.allocPayloads
    effects := infers.effects
    positions := placed
    resolved := ⟨fuel, propagated.trans (congrArg some settled)⟩
    consumed := consumed
    borrowComponents := fun _ => OwnershipTypeRules.checkBorrowComponents_eq_ok.mpr
      (OwnershipTypeRules.checkBorrowComponents_eq_ok.mp components)
    moves := moves }

end

end SemanticAnalysis

end Topc
