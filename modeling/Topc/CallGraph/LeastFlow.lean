import Topc.CallGraph
import Topc.Solver.CubicSolver.EnoughSteps
import Topc.Solver.CubicSolver.LeastSolution
import Topc.Solver.CubicSolver.PathSearch

/-! # The least flow of functions

Control-flow analysis ends, and with the same functions at each node in whatever
order its loops go through addresses: those that the calls and assignments of the
program force there. The call graph lists them for each call. -/

namespace Topc

/-- A choice of functions for each node that the calls and assignments of a
program respect. -/
structure CFAnalyzer.Flows (program : Program) (symbols : SymbolTable)
    (flow : NodeId → Set DeclNode) : Prop where
  named : ∀ function ∈ program.functions, function.decl ∈ flow function.decl.id
  assigned : ∀ function ∈ program.functions, ∀ lhs rhs,
    .assign lhs rhs ∈ function.flowVisits →
      flow (symbols.getCanonical function.decl rhs) ⊆ flow (symbols.getCanonical function.decl lhs)
  passed : ∀ caller ∈ program.functions, ∀ info function actuals,
    .funApp info function actuals ∈ caller.flowVisits →
      ∀ callee ∈ program.functions, callee.formals.length = actuals.length →
        callee.decl ∈ flow (symbols.getCanonical caller.decl function) →
          ∀ pair ∈ actuals.zip callee.formals,
            flow (symbols.getCanonical caller.decl pair.1) ⊆ flow pair.2.id
  returned : ∀ caller ∈ program.functions, ∀ info function actuals,
    .funApp info function actuals ∈ caller.flowVisits →
      ∀ callee ∈ program.functions, callee.formals.length = actuals.length →
        callee.decl ∈ flow (symbols.getCanonical caller.decl function) →
          flow (symbols.getCanonical callee.decl callee.returnArg) ⊆ flow info.id

/-- A constraint as the solver takes it. -/
def CfaConstraint.toCubic : CfaConstraint → CubicConstraint NodeId DeclNode
  | .elementOf elem var => .elementOf elem var
  | .conditional condition inVar fromVar toVar => .conditional condition inVar fromVar toVar
  | .subseteq fromVar toVar => .subseteq fromVar toVar

namespace CFAnalyzer

section

variable {program : Program} {symbols : SymbolTable}

/-! ## Constraints of a program -/

theorem mem_visitFunAppExpr {scope : DeclNode} {info : NodeInfo} {function : Expr}
    {actuals : List Expr} {constraint : CfaConstraint} :
    constraint ∈ visitFunAppExpr program symbols scope info function actuals ↔
      ∃ callee ∈ program.functions, callee.formals.length = actuals.length ∧
        ((∃ pair ∈ actuals.zip callee.formals, constraint = .conditional callee.decl
          (symbols.getCanonical scope function) (symbols.getCanonical scope pair.1) pair.2.id) ∨
        constraint = .conditional callee.decl (symbols.getCanonical scope function)
          (symbols.getCanonical callee.decl callee.returnArg) info.id) := by
  rw [visitFunAppExpr, List.mem_flatMap]
  constructor
  · rintro ⟨callee, kept, listed⟩
    rcases List.mem_filter.mp kept with ⟨member, sameLength⟩
    refine ⟨callee, member, of_decide_eq_true sameLength, ?_⟩
    rcases List.mem_append.mp listed with listed | listed
    · rcases List.mem_map.mp listed with ⟨pair, pairMem, rfl⟩
      exact .inl ⟨pair, pairMem, rfl⟩
    · exact .inr (List.mem_singleton.mp listed)
  · rintro ⟨callee, member, sameLength, isConstraint⟩
    refine ⟨callee, List.mem_filter.mpr ⟨member, decide_eq_true sameLength⟩, ?_⟩
    apply List.mem_append.mpr
    rcases isConstraint with ⟨pair, pairMem, rfl⟩ | rfl
    · exact .inl (List.mem_map.mpr ⟨pair, pairMem, rfl⟩)
    · exact .inr (List.mem_singleton.mpr rfl)

theorem mem_constraints {constraint : CfaConstraint} :
    constraint ∈ constraints program symbols ↔
      ∃ function ∈ program.functions, constraint = .elementOf function.decl function.decl.id ∨
        ∃ visited ∈ function.flowVisits,
          constraint ∈ visit program symbols function.decl visited := by
  simp only [constraints, visitFunction, List.mem_flatMap, List.mem_cons]

/-- The constraints of the program say what a flow respects. -/
theorem flows_iff {flow : NodeId → Set DeclNode} :
    Flows program symbols flow ↔
      ∀ constraint ∈ constraints program symbols, constraint.toCubic.Holds flow := by
  constructor
  · intro flows constraint member
    rcases mem_constraints.mp member with ⟨function, functionMem, rfl | ⟨visited, visit, listed⟩⟩
    · exact flows.named function functionMem
    · cases visited with
      | assign lhs rhs =>
          rw [List.mem_singleton.mp listed]
          exact flows.assigned function functionMem lhs rhs visit
      | funApp info called actuals =>
          rcases mem_visitFunAppExpr.mp listed with
            ⟨callee, calleeMem, sameLength, ⟨pair, pairMem, rfl⟩ | rfl⟩
          · exact fun called => flows.passed function functionMem _ _ _ visit callee calleeMem
              sameLength called pair pairMem
          · exact flows.returned function functionMem _ _ _ visit callee calleeMem sameLength
  · intro holds
    constructor
    · intro function functionMem
      exact holds _ (mem_constraints.mpr ⟨function, functionMem, .inl rfl⟩)
    · intro function functionMem lhs rhs visit
      exact holds (.subseteq _ _) (mem_constraints.mpr
        ⟨function, functionMem, .inr ⟨_, visit, List.mem_singleton.mpr rfl⟩⟩)
    · intro caller callerMem info function actuals visit callee calleeMem sameLength called pair
        pairMem
      exact holds (.conditional _ _ _ _) (mem_constraints.mpr ⟨caller, callerMem, .inr ⟨_, visit,
        mem_visitFunAppExpr.mpr ⟨callee, calleeMem, sameLength, .inl ⟨pair, pairMem, rfl⟩⟩⟩⟩) called
    · intro caller callerMem info function actuals visit callee calleeMem sameLength called
      exact holds (.conditional _ _ _ _) (mem_constraints.mpr ⟨caller, callerMem, .inr ⟨_, visit,
        mem_visitFunAppExpr.mpr ⟨callee, calleeMem, sameLength, .inr rfl⟩⟩⟩) called

/-- Constraints only speak about functions of the program. -/
theorem elements_of_constraint {constraint : CfaConstraint}
    (member : constraint ∈ constraints program symbols) :
    ∀ elem ∈ constraint.toCubic.elements, elem ∈ program.functions.map Function.decl := by
  rcases mem_constraints.mp member with ⟨function, functionMem, rfl | ⟨visited, _, listed⟩⟩
  · intro elem elemMem
    rw [List.mem_singleton.mp elemMem]
    exact List.mem_map_of_mem functionMem
  · cases visited with
    | assign lhs rhs =>
        rw [List.mem_singleton.mp listed]
        exact nofun
    | funApp info called actuals =>
        intro elem elemMem
        rcases mem_visitFunAppExpr.mp listed with ⟨callee, calleeMem, _, ⟨pair, _, rfl⟩ | rfl⟩ <;>
        · rw [List.mem_singleton.mp elemMem]
          exact List.mem_map_of_mem calleeMem

end

/-! ## The analysis -/

section

variable {program : Program} {symbols : SymbolTable} {iterate : List Nat → List Nat}
  {findPath : CfaSolver → Nat → Nat → List Nat}

theorem add_toCubic (steps : Nat) (s : CfaSolver) (constraint : CfaConstraint) :
    add iterate findPath steps s constraint = s.add iterate findPath steps constraint.toCubic := by
  cases constraint <;> rfl

theorem add_lasts {steps : Nat} {s s' : CfaSolver} {constraint : CfaConstraint}
    (result : add iterate findPath steps s constraint = some s') :
    add iterate findPath (steps + 1) s constraint = some s' := by
  cases constraint with
  | elementOf elem var => exact CubicSolver.addElementofConstraint_lasts result
  | conditional condition inVar fromVar toVar =>
      exact CubicSolver.addConditionalConstraint_lasts result
  | subseteq fromVar toVar => exact CubicSolver.addSubseteqConstraint_lasts result

theorem analyze_lasts :
    Fuel.Lasts fun steps => analyze program symbols iterate findPath steps := by
  intro steps s result
  exact Fuel.foldlM_extends (fun _ _ _ added => add_lasts added) _ result

variable (program symbols) in
/-- The analysis ends with all constraints solved. -/
theorem analyze_solves (permutes : ∀ nodes, (iterate nodes).Perm nodes)
    (finds : CubicSolver.FindsPaths findPath) :
    ∃ s, Fuel.Converges (fun steps => analyze program symbols iterate findPath steps) s ∧
      CubicSolver.Solved (program.functions.map Function.decl)
        ((constraints program symbols).map CfaConstraint.toCubic) s := by
  apply Fuel.exists_converges_foldlM fun done s =>
    CubicSolver.Solved (program.functions.map Function.decl) (done.map CfaConstraint.toCubic) s
  · exact CubicSolver.create_solved _
  · intro done constraint rest s split solved
    have member : constraint ∈ constraints program symbols := by
      rw [split]
      simp
    simp only [add_toCubic, List.map_append]
    exact CubicSolver.add_solves permutes finds solved constraint.toCubic
      (elements_of_constraint member)

/-- What an analysis finds is a flow of the program, and each flow has it. -/
theorem analyze_least (permutes : ∀ nodes, (iterate nodes).Perm nodes)
    (finds : CubicSolver.FindsPaths findPath)
    (distinct : (program.functions.map Function.decl).Nodup) {steps : Nat} {s : CfaSolver}
    (analyzed : analyze program symbols iterate findPath steps = some s) :
    IsLeast {flow | Flows program symbols flow}
      fun node => {function | function ∈ s.getElements node} := by
  rcases analyze_solves program symbols permutes finds with ⟨other, converges, solved⟩
  have same := (analyze_lasts.converges analyzed).unique converges
  subst same
  constructor
  · apply flows_iff.mpr
    intro constraint member
    exact solved.holds distinct (List.mem_map_of_mem member) (elements_of_constraint member)
  · intro flow flows node function member
    have holds : ∀ constraint ∈ (constraints program symbols).map CfaConstraint.toCubic,
        constraint.Holds flow := by
      intro constraint listed
      rcases List.mem_map.mp listed with ⟨constraint, isConstraint, rfl⟩
      exact flows_iff.mp flows constraint isConstraint
    rcases solved.below flow holds with ⟨share, below⟩
    rcases CubicSolver.mem_getElements.mp member with ⟨address, index, stored, entry, set⟩
    rw [below.dag stored]
    exact (below.node address).bits index set function entry

end

end CFAnalyzer

/-! ## The graph -/

/-- At each call are the functions that every flow of the program has there, and a
function calls those of its calls. -/
structure CallGraph.IsLeast (program : Program) (symbols : SymbolTable) (cg : CallGraph) : Prop
    where
  calledFuns : ∀ caller ∈ program.functions, ∀ info function actuals,
    .funApp info function actuals ∈ caller.flowVisits → ∀ callee,
      callee ∈ cg.getCalledFuns info.id ↔ ∀ flow, CFAnalyzer.Flows program symbols flow →
        callee ∈ flow (symbols.getCanonical caller.decl function)
  callees : ∀ caller ∈ program.functions, ∀ callee,
    callee ∈ cg.getCallees caller.decl ↔ ∃ info function actuals,
      .funApp info function actuals ∈ caller.flowVisits ∧
        ∀ flow, CFAnalyzer.Flows program symbols flow →
          callee ∈ flow (symbols.getCanonical caller.decl function)

/-- The analysis ends and gives the least call graph, in every order of addresses. -/
theorem CallGraph.build_isLeast {program : Program} (symbols : SymbolTable)
    (distinct : (program.functions.map Function.decl).Nodup) (callsDistinct : program.CallsDistinct)
    {iterate : List Nat → List Nat} {findPath : CfaSolver → Nat → Nat → List Nat}
    (permutes : ∀ nodes, (iterate nodes).Perm nodes) (finds : CubicSolver.FindsPaths findPath) :
    (∃ bound, ∀ steps, bound ≤ steps →
      (CFAnalyzer.analyze program symbols iterate findPath steps).isSome) ∧
    ∀ steps s, CFAnalyzer.analyze program symbols iterate findPath steps = some s →
      (CallGraphBuilder.build program symbols s).IsLeast program symbols := by
  constructor
  · rcases CFAnalyzer.analyze_solves program symbols permutes finds with ⟨s, ⟨bound, runs⟩, _⟩
    exact ⟨bound, fun steps enough => Option.isSome_of_eq_some (runs steps enough)⟩
  · intro steps s analyzed
    have least := CFAnalyzer.analyze_least permutes finds distinct analyzed
    have possible : ∀ scope function callee,
        callee ∈ CFAnalyzer.getPossibleFunctionsForExpr s symbols function scope ↔
          ∀ flow, CFAnalyzer.Flows program symbols flow →
            callee ∈ flow (symbols.getCanonical scope function) := by
      intro scope function callee
      exact ⟨fun member flow flows => least.2 flows _ member, fun all => all _ least.1⟩
    constructor
    · intro caller callerMem info function actuals call callee
      rw [CallGraphBuilder.getCalledFuns_build callsDistinct callerMem call]
      exact possible caller.decl function callee
    · intro caller callerMem callee
      rw [CallGraphBuilder.mem_getCallees_build distinct callerMem]
      simp only [possible]

namespace PassedFunction

/-- `twice(f, x) { return f(f(x)); }` -/
def twice : Function where
  decl := { id := 0, name := "twice" }
  formals := [{ id := 1, name := "f" }, { id := 2, name := "x" }]
  declarations := []
  stmts := []
  returnInfo := { id := 3 }
  returnArg := .funAppExpr { id := 4 } (.varExpr { id := 5 } "f")
    [.funAppExpr { id := 6 } (.varExpr { id := 7 } "f") [.varExpr { id := 8 } "x"]]

/-- `next(n) { return n + 1; }` -/
def next : Function where
  decl := { id := 9, name := "next" }
  formals := [{ id := 10, name := "n" }]
  declarations := []
  stmts := []
  returnInfo := { id := 11 }
  returnArg := .binaryExpr { id := 12 } .add (.varExpr { id := 13 } "n") (.numExpr { id := 14 } 1)

/-- `main() { var g; g = next; return twice(g, 1); }` -/
def main : Function where
  decl := { id := 15, name := "main" }
  formals := []
  declarations := [{ id := 16, name := "g" }]
  stmts := [.assignStmt { id := 17 } (.varExpr { id := 18 } "g") (.varExpr { id := 19 } "next")]
  returnInfo := { id := 20 }
  returnArg := .funAppExpr { id := 21 } (.varExpr { id := 22 } "twice")
    [.varExpr { id := 23 } "g", .numExpr { id := 24 } 1]

def program : Program where
  typedecls := []
  functions := [twice, next, main]

theorem program_isLeast : ∃ symbols, SymbolTable.build program = .ok symbols ∧
    (∃ bound, ∀ steps, bound ≤ steps → (CFAnalyzer.analyze program symbols List.reverse
      CubicSolver.depthFirst steps).isSome) ∧
    ∀ steps s, CFAnalyzer.analyze program symbols List.reverse CubicSolver.depthFirst steps =
        some s → (CallGraphBuilder.build program symbols s).IsLeast program symbols := by
  have accepted : (SymbolTable.build program).toOption.isSome = true := by decide +kernel
  rcases Option.isSome_iff_exists.mp accepted with ⟨symbols, isSymbols⟩
  have callsDistinct : program.CallsDistinct := by
    rw [Program.CallsDistinct]
    decide +kernel
  exact ⟨symbols, toOption_eq_some.mp isSymbols, CallGraph.build_isLeast symbols
    (by decide +kernel) callsDistinct List.reverse_perm CubicSolver.depthFirst_findsPaths⟩

end PassedFunction

end Topc
