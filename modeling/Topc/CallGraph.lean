import Topc.Solver.CubicSolver.Growth
import Topc.SymbolTable

/-! # Call graph

Control-flow analysis gives each expression the functions its value may be. The
call graph records them for each call. -/

namespace Topc

/-- The node that stands for an expression in a function: that of the declaration
for a name, the node itself otherwise. -/
def SymbolTable.getCanonical (symbols : SymbolTable) (scope : DeclNode) : Expr → NodeId
  | .varExpr info name =>
      match symbols.getLocal name scope with
      | some canonical => canonical.id
      | none =>
          match symbols.getFunction name with
          | some canonical => canonical.id
          | none => info.id
  | expr => expr.info.id

/-! ## Calls and assignments of a function -/

/-- What the analyses of function values visit. -/
inductive FlowVisit
  | funApp (info : NodeInfo) (function : Expr) (actuals : List Expr)
  | assign (lhs rhs : Expr)

mutual
def Expr.flowVisits : Expr → List FlowVisit
  | .numExpr .. | .varExpr .. | .inputExpr _ => []
  | .binaryExpr _ _ left right => left.flowVisits ++ right.flowVisits
  | .funAppExpr info function actuals =>
      .funApp info function actuals :: (function.flowVisits ++ Expr.flowVisitsOf actuals)
  | .allocExpr _ initializer => initializer.flowVisits
  | .borrowExpr _ var => var.flowVisits
  | .deRefExpr _ ptr => ptr.flowVisits
  | .sumCtorExpr _ _ args => Expr.flowVisitsOf args

def Expr.flowVisitsOf : List Expr → List FlowVisit
  | [] => []
  | expr :: exprs => expr.flowVisits ++ Expr.flowVisitsOf exprs
end

mutual
def Stmt.flowVisits : Stmt → List FlowVisit
  | .assignStmt _ lhs rhs => .assign lhs rhs :: (lhs.flowVisits ++ rhs.flowVisits)
  | .blockStmt _ stmts => Stmt.flowVisitsOf stmts
  | .whileStmt _ condition body => condition.flowVisits ++ body.flowVisits
  | .ifStmt _ condition thenStmt none => condition.flowVisits ++ thenStmt.flowVisits
  | .ifStmt _ condition thenStmt (some elseStmt) =>
      condition.flowVisits ++ (thenStmt.flowVisits ++ elseStmt.flowVisits)
  | .outputStmt _ arg | .errorStmt _ arg => arg.flowVisits
  | .caseStmt _ caseExpr arms => caseExpr.flowVisits ++ CaseArm.flowVisitsOf arms

def Stmt.flowVisitsOf : List Stmt → List FlowVisit
  | [] => []
  | stmt :: stmts => stmt.flowVisits ++ Stmt.flowVisitsOf stmts

def CaseArm.flowVisitsOf : List CaseArm → List FlowVisit
  | [] => []
  | .mk _ _ _ body :: arms => body.flowVisits ++ CaseArm.flowVisitsOf arms
end

/-- The calls and assignments of a function in traversal order. -/
def Function.flowVisits (function : Function) : List FlowVisit :=
  Stmt.flowVisitsOf function.stmts ++ function.returnArg.flowVisits

def FlowVisit.callNode : FlowVisit → Option NodeId
  | .funApp info _ _ => some info.id
  | .assign .. => none

/-- Each call of a syntax tree is an object of its own. -/
def Program.CallsDistinct (program : Program) : Prop :=
  ((program.functions.flatMap Function.flowVisits).filterMap FlowVisit.callNode).Nodup

/-! ## Control-flow analysis -/

abbrev CfaSolver := CubicSolver NodeId DeclNode

/-- A constraint on the functions that flow to a node. -/
inductive CfaConstraint
  | elementOf (elem : DeclNode) (var : NodeId)
  | conditional (condition : DeclNode) (inVar fromVar toVar : NodeId)
  | subseteq (fromVar toVar : NodeId)

namespace CFAnalyzer

section

variable (program : Program) (symbols : SymbolTable)

def visitFunAppExpr (scope : DeclNode) (info : NodeInfo) (function : Expr)
    (actuals : List Expr) : List CfaConstraint :=
  (program.functions.filter fun fn => fn.formals.length = actuals.length).flatMap fun fn =>
    ((actuals.zip fn.formals).map fun (actual, formal) =>
      .conditional fn.decl (symbols.getCanonical scope function)
        (symbols.getCanonical scope actual) formal.id) ++
    [.conditional fn.decl (symbols.getCanonical scope function)
      (symbols.getCanonical fn.decl fn.returnArg) info.id]

def visitAssignStmt (scope : DeclNode) (lhs rhs : Expr) : List CfaConstraint :=
  [.subseteq (symbols.getCanonical scope rhs) (symbols.getCanonical scope lhs)]

def visit (scope : DeclNode) : FlowVisit → List CfaConstraint
  | .funApp info function actuals => visitFunAppExpr program symbols scope info function actuals
  | .assign lhs rhs => visitAssignStmt symbols scope lhs rhs

/-- A function is an element of its own name. -/
def visitFunction (function : Function) : List CfaConstraint :=
  .elementOf function.decl function.decl.id ::
    function.flowVisits.flatMap (visit program symbols function.decl)

def constraints : List CfaConstraint :=
  program.functions.flatMap (visitFunction program symbols)

variable (iterate : List Nat → List Nat) (findPath : CfaSolver → Nat → Nat → List Nat)
  (steps : Nat)

def add (s : CfaSolver) : CfaConstraint → Option CfaSolver
  | .elementOf elem var => s.addElementofConstraint iterate findPath steps elem var
  | .conditional condition inVar fromVar toVar =>
      s.addConditionalConstraint iterate findPath steps condition inVar fromVar toVar
  | .subseteq fromVar toVar => s.addSubseteqConstraint iterate findPath steps fromVar toVar

def analyze : Option CfaSolver :=
  (constraints program symbols).foldlM (add iterate findPath steps)
    (.create (program.functions.map Function.decl))

end

def getPossibleFunctionsForExpr (s : CfaSolver) (symbols : SymbolTable) (expr : Expr)
    (scope : DeclNode) : List DeclNode :=
  s.getElements (symbols.getCanonical scope expr)

end CFAnalyzer

/-! ## The graph -/

/-- Functions are known by their declarations, calls by their nodes. -/
structure CallGraph where
  vertices : List Function
  getCallees : DeclNode → List DeclNode
  getCalledFuns : NodeId → List DeclNode

namespace CallGraphBuilder

variable (program : Program) (symbols : SymbolTable) (s : CfaSolver)

/-- The calls of a function, each with the functions it may call. -/
def calls (function : Function) : List (NodeId × List DeclNode) :=
  function.flowVisits.filterMap fun visited =>
    match visited with
    | .funApp info callee _ =>
        some (info.id, CFAnalyzer.getPossibleFunctionsForExpr s symbols callee function.decl)
    | .assign .. => none

def mayCall : List (NodeId × List DeclNode) :=
  program.functions.flatMap (calls symbols s)

def build : CallGraph where
  vertices := program.functions
  getCallees caller :=
    ((program.functions.filter fun function => function.decl = caller).flatMap fun function =>
      (calls symbols s function).flatMap Prod.snd).dedup
  getCalledFuns call := ((mayCall program symbols s).find? fun entry => entry.1 = call).elim
    [] Prod.snd

end CallGraphBuilder

namespace CallGraph

/-- The call graph of a program. The sets of functions are kept in some order of
their addresses, and so are the solver's sets of nodes. -/
def IsBuilt (program : Program) (symbols : SymbolTable) (cg : CallGraph) : Prop :=
  ∃ iterate findPath steps s,
    CFAnalyzer.analyze program symbols iterate findPath steps = some s ∧
      cg.vertices = program.functions ∧
      (∀ caller, (cg.getCallees caller).Perm
        ((CallGraphBuilder.build program symbols s).getCallees caller)) ∧
      ∀ call, (cg.getCalledFuns call).Perm
        ((CallGraphBuilder.build program symbols s).getCalledFuns call)

end CallGraph

/-! ## A function flows to its name -/

namespace CFAnalyzer

variable {program : Program} {symbols : SymbolTable} {iterate : List Nat → List Nat}
  {findPath : CfaSolver → Nat → Nat → List Nat} {steps : Nat}

theorem add_grows {s s' : CfaSolver} {constraint : CfaConstraint}
    (result : add iterate findPath steps s constraint = some s') : s.Grows s' := by
  cases constraint with
  | elementOf elem var => exact CubicSolver.addElementofConstraint_grows result
  | conditional condition inVar fromVar toVar =>
      exact CubicSolver.addConditionalConstraint_grows result
  | subseteq fromVar toVar => exact CubicSolver.addSubseteqConstraint_grows result

theorem indexOf_create {elements : List DeclNode} {elem : DeclNode} (member : elem ∈ elements) :
    ∃ index < (CubicSolver.create elements : CfaSolver).fmapping.length,
      (elem, index) ∈ (CubicSolver.create elements : CfaSolver).fmapping ∧
        (CubicSolver.create elements : CfaSolver).indexOf elem = index := by
  have found : (elements.zipIdx.find? fun entry => entry.1 = elem).isSome = true := by
    rw [List.find?_isSome]
    rcases List.mem_iff_getElem.mp member with ⟨index, bound, rfl⟩
    exact ⟨(elements[index], index), by
      rw [List.mem_zipIdx_iff_getElem?]
      exact List.getElem?_eq_getElem bound, by simp⟩
  rcases Option.isSome_iff_exists.mp found with ⟨⟨other, index⟩, isEntry⟩
  have same : other = elem := by simpa using List.find?_some isEntry
  have entryMem := List.mem_of_find?_eq_some isEntry
  subst same
  refine ⟨index, ?_, entryMem, ?_⟩
  · have inside := List.mem_zipIdx_iff_getElem?.mp entryMem
    simpa [CubicSolver.create] using (List.getElem?_eq_some_iff.mp inside).1
  · rw [CubicSolver.indexOf]
    change ((elements.zipIdx.find? fun entry => entry.1 = other).elim 0 Prod.snd) = index
    rw [isEntry]
    rfl

theorem analyze_elementOf {s : CfaSolver}
    (result : analyze program symbols iterate findPath steps = some s) {function : Function}
    (member : function ∈ program.functions) :
    function.decl ∈ s.getElements function.decl.id := by
  have listed : .elementOf function.decl function.decl.id ∈ constraints program symbols :=
    List.mem_flatMap.mpr ⟨function, member, List.mem_cons_self⟩
  rcases List.append_of_mem listed with ⟨before, after, split⟩
  rw [analyze, split, List.foldlM_append, Option.bind_eq_bind, Option.bind_eq_some_iff] at result
  rcases result with ⟨mid, first, result⟩
  rw [List.foldlM_cons, Option.bind_eq_bind, Option.bind_eq_some_iff] at result
  rcases result with ⟨next, added, rest⟩
  have grown := CubicSolver.foldlM_grows (fun _ _ _ step => add_grows step) before first
  have sized := grown.sized (CubicSolver.sized_create _)
  have known := indexOf_create (List.mem_map_of_mem (f := Function.decl) member)
  have known' : ∃ index < mid.fmapping.length, (function.decl, index) ∈ mid.fmapping ∧
      mid.indexOf function.decl = index := by
    rw [CubicSolver.indexOf, grown.fmapping]
    exact known
  exact (CubicSolver.foldlM_grows (fun _ _ _ step => add_grows step) after rest).mem_getElements
    ((add_grows added).sized sized) (CubicSolver.addElementofConstraint_mem added sized known')

end CFAnalyzer

namespace CallGraphBuilder

/-- A call may call what its function may be. -/
theorem getCalledFuns_build {program : Program} {symbols : SymbolTable} {s : CfaSolver}
    (distinct : program.CallsDistinct) {caller : Function} (callerMem : caller ∈ program.functions)
    {info : NodeInfo} {function : Expr} {actuals : List Expr}
    (call : .funApp info function actuals ∈ caller.flowVisits) :
    (build program symbols s).getCalledFuns info.id =
      CFAnalyzer.getPossibleFunctionsForExpr s symbols function caller.decl := by
  let entry := (info.id, CFAnalyzer.getPossibleFunctionsForExpr s symbols function caller.decl)
  have listed : entry ∈ mayCall program symbols s :=
    List.mem_flatMap.mpr ⟨caller, callerMem, List.mem_filterMap.mpr ⟨_, call, rfl⟩⟩
  have keys : ((mayCall program symbols s).map Prod.fst).Nodup := by
    have sameKeys : (mayCall program symbols s).map Prod.fst =
        (program.functions.flatMap Function.flowVisits).filterMap FlowVisit.callNode := by
      rw [mayCall, List.map_flatMap, List.filterMap_flatMap]
      congr 1
      funext other
      rw [calls, List.map_filterMap]
      congr 1
      funext visited
      cases visited <;> rfl
    rw [sameKeys]
    exact distinct
  have found : (mayCall program symbols s).find? (fun other => other.1 = info.id) = some entry := by
    have someFound : ((mayCall program symbols s).find? fun other => other.1 = info.id).isSome =
        true := by
      rw [List.find?_isSome]
      exact ⟨entry, listed, by simp [entry]⟩
    rcases Option.isSome_iff_exists.mp someFound with ⟨other, isOther⟩
    have sameKey : other.1 = info.id := by simpa using List.find?_some isOther
    rw [isOther]
    exact congrArg some (List.inj_on_of_nodup_map keys (List.mem_of_find?_eq_some isOther) listed
      sameKey)
  simp only [build, found, Option.elim]
  rfl

/-- A function may call what the functions of its calls may be. -/
theorem mem_getCallees_build {program : Program} {symbols : SymbolTable} {s : CfaSolver}
    (distinct : (program.functions.map Function.decl).Nodup)
    {caller : Function} (callerMem : caller ∈ program.functions) {callee : DeclNode} :
    callee ∈ (build program symbols s).getCallees caller.decl ↔
      ∃ info function actuals, .funApp info function actuals ∈ caller.flowVisits ∧
        callee ∈ CFAnalyzer.getPossibleFunctionsForExpr s symbols function caller.decl := by
  simp only [build, List.mem_dedup, List.mem_flatMap, List.mem_filter, decide_eq_true_eq]
  constructor
  · rintro ⟨other, ⟨otherMem, sameDecl⟩, entry, entryMem, member⟩
    have same := List.inj_on_of_nodup_map distinct otherMem callerMem sameDecl
    subst same
    rw [calls, List.mem_filterMap] at entryMem
    rcases entryMem with ⟨visited, visit, isEntry⟩
    cases visited with
    | assign lhs rhs => cases isEntry
    | funApp info function actuals =>
        cases isEntry
        exact ⟨info, function, actuals, visit, member⟩
  · rintro ⟨info, function, actuals, visit, member⟩
    exact ⟨caller, ⟨callerMem, rfl⟩, _, List.mem_filterMap.mpr ⟨_, visit, rfl⟩, member⟩

end CallGraphBuilder

namespace CallGraph

/-- A function that is called by its own name is among the callees. -/
theorem IsBuilt.mem_getCallees {program : Program} {symbols : SymbolTable} {cg : CallGraph}
    (built : cg.IsBuilt program symbols) (distinct : (program.functions.map Function.decl).Nodup)
    {caller callee : Function} (callerMem : caller ∈ program.functions)
    (calleeMem : callee ∈ program.functions) {info : NodeInfo} {function : Expr}
    {actuals : List Expr} (call : .funApp info function actuals ∈ caller.flowVisits)
    (named : symbols.getCanonical caller.decl function = callee.decl.id) :
    callee.decl ∈ cg.getCallees caller.decl := by
  rcases built with ⟨iterate, findPath, steps, s, analyzed, _, callees, _⟩
  have element := CFAnalyzer.analyze_elementOf analyzed calleeMem
  rw [← named] at element
  rw [(callees caller.decl).mem_iff, CallGraphBuilder.mem_getCallees_build distinct callerMem]
  exact ⟨info, function, actuals, call, element⟩

end CallGraph

end Topc
