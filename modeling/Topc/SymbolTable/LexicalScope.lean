import Topc.SymbolTable

/-! # Lexical scope

Where a name occurs, the binding that encloses it most closely is meant. The
symbol table keeps one declaration for each name of a function, and code
generation a map of storage slots that changes on the way into an arm and out
of it. -/

namespace Topc

/-- The last declaration of a name, which hides those before it. -/
def lastNamed (name : String) (decls : List DeclNode) : Option DeclNode :=
  (decls.filter fun decl => decl.name == name).getLast?

@[simp] theorem lastNamed_nil (name : String) : lastNamed name [] = none := rfl

theorem lastNamed_append (name : String) (decls later : List DeclNode) :
    lastNamed name (decls ++ later) = (lastNamed name later).or (lastNamed name decls) := by
  rw [lastNamed, List.filter_append, List.getLast?_append]
  rfl

theorem lastNamed_singleton (name : String) (decl : DeclNode) :
    lastNamed name [decl] = if decl.name = name then some decl else none := by
  by_cases same : decl.name = name <;> simp [lastNamed, same]

theorem lastNamed_mem {name : String} {decls : List DeclNode} {decl : DeclNode}
    (found : lastNamed name decls = some decl) : decl ∈ decls :=
  (List.mem_filter.mp (List.mem_of_getLast? found)).1

/-- What an arm binds. -/
def CaseArm.binds (arm : CaseArm) (name : String) : Bool :=
  arm.getBindings.any fun decl => decl.name == name

theorem lastNamed_eq_none_of_not_binds {arm : CaseArm} {name : String}
    (unbound : arm.binds name = false) : lastNamed name arm.getBindings = none := by
  have empty : arm.getBindings.filter (fun decl => decl.name == name) = [] := by
    simpa [CaseArm.binds, List.filter_eq_nil_iff] using unbound
  rw [lastNamed, empty]
  rfl

theorem isSome_lastNamed_of_binds {arm : CaseArm} {name : String}
    (bound : arm.binds name = true) : ∃ decl, lastNamed name arm.getBindings = some decl := by
  have nonempty : arm.getBindings.filter (fun decl => decl.name == name) ≠ [] := by
    simpa [CaseArm.binds, List.filter_eq_nil_iff] using bound
  exact ⟨_, List.getLast?_eq_some_getLast nonempty⟩

/-- Among nested or successive arms the last one that binds a name decides. -/
theorem lastNamed_flatMap_getBindings (name : String) (arms : List CaseArm) :
    lastNamed name (arms.flatMap CaseArm.getBindings) =
      (arms.filter fun arm => arm.binds name).getLast?.bind fun arm =>
        lastNamed name arm.getBindings := by
  induction arms with
  | nil => rfl
  | cons arm arms induction =>
      rw [List.flatMap_cons, lastNamed_append, induction]
      cases bound : arm.binds name with
      | false =>
          rw [List.filter_cons, bound, lastNamed_eq_none_of_not_binds bound]
          exact Option.or_none
      | true =>
          rw [List.filter_cons, if_pos bound, List.getLast?_cons]
          cases later : (arms.filter fun arm => arm.binds name).getLast? with
          | none => rfl
          | some last =>
              have binds := (List.mem_filter.mp (List.mem_of_getLast? later)).2
              rcases isSome_lastNamed_of_binds binds with ⟨decl, found⟩
              simp [found]

/-! ## Occurrences of variables -/

mutual
/-- The variables an expression names. -/
def Expr.variableUses : Expr → List (NodeInfo × String)
  | .numExpr .. | .inputExpr .. => []
  | .varExpr info name => [(info, name)]
  | .binaryExpr _ _ left right => left.variableUses ++ right.variableUses
  | .funAppExpr _ function actuals => function.variableUses ++ Expr.variableUsesOf actuals
  | .allocExpr _ initializer => initializer.variableUses
  | .borrowExpr _ var => var.variableUses
  | .deRefExpr _ ptr => ptr.variableUses
  | .sumCtorExpr _ _ args => Expr.variableUsesOf args

def Expr.variableUsesOf : List Expr → List (NodeInfo × String)
  | [] => []
  | expr :: exprs => expr.variableUses ++ Expr.variableUsesOf exprs
end

/-- A variable expression and the arms around it, from the outside in. -/
structure Occurrence where
  info : NodeInfo
  name : String
  enclosing : List CaseArm

def Expr.occurrences (enclosing : List CaseArm) (expr : Expr) : List Occurrence :=
  expr.variableUses.map fun use => ⟨use.1, use.2, enclosing⟩

mutual
def Stmt.occurrences (enclosing : List CaseArm) : Stmt → List Occurrence
  | .assignStmt _ lhs rhs => lhs.occurrences enclosing ++ rhs.occurrences enclosing
  | .blockStmt _ stmts => Stmt.occurrencesOf enclosing stmts
  | .whileStmt _ condition body =>
      condition.occurrences enclosing ++ body.occurrences enclosing
  | .ifStmt _ condition thenStmt none =>
      condition.occurrences enclosing ++ thenStmt.occurrences enclosing
  | .ifStmt _ condition thenStmt (some elseStmt) =>
      condition.occurrences enclosing ++
        (thenStmt.occurrences enclosing ++ elseStmt.occurrences enclosing)
  | .outputStmt _ arg | .errorStmt _ arg => arg.occurrences enclosing
  | .caseStmt _ caseExpr arms =>
      caseExpr.occurrences enclosing ++ CaseArm.occurrencesOf enclosing arms

def Stmt.occurrencesOf (enclosing : List CaseArm) : List Stmt → List Occurrence
  | [] => []
  | stmt :: stmts => stmt.occurrences enclosing ++ Stmt.occurrencesOf enclosing stmts

def CaseArm.occurrences (enclosing : List CaseArm) : CaseArm → List Occurrence
  | .mk info tag patterns body =>
      body.occurrences (enclosing ++ [.mk info tag patterns body])

def CaseArm.occurrencesOf (enclosing : List CaseArm) : List CaseArm → List Occurrence
  | [] => []
  | arm :: arms => arm.occurrences enclosing ++ CaseArm.occurrencesOf enclosing arms
end

namespace Function

def occurrences (function : Function) : List Occurrence :=
  Stmt.occurrencesOf [] function.stmts ++ function.returnArg.occurrences []

/-- The bindings in scope at an occurrence, from the outside in. -/
def scopeOf (function : Function) (occurrence : Occurrence) : List DeclNode :=
  function.formals ++ function.declarations ++
    occurrence.enclosing.flatMap CaseArm.getBindings

/-- The innermost binding of the name that encloses the occurrence. -/
def innermost (function : Function) (occurrence : Occurrence) : Option DeclNode :=
  lastNamed occurrence.name (function.scopeOf occurrence)

/-- The last arm of a function that binds a name. -/
def lastArmBinding (function : Function) (name : String) : Option CaseArm :=
  (function.allArms.filter fun arm => arm.binds name).getLast?

end Function

/-! ## Storage in generated code -/

namespace CodeGenVisitor

/-- The slot a name stands for, identified by the declaration it was made for. -/
abbrev NamedValues := Std.ExtTreeMap String DeclNode

/-- A slot is made for each variable. -/
def allocate (namedValues : NamedValues) (decl : DeclNode) : NamedValues :=
  namedValues.insert decl.name decl

mutual
/-- The slots that the code of a pattern makes. -/
def NamedValues.emitPatternBind (namedValues : NamedValues) : Pattern → NamedValues
  | .var _ decl => allocate namedValues decl
  | .wildcard _ => namedValues
  | .ctor _ _ subPatterns => namedValues.emitPatternBinds subPatterns

def NamedValues.emitPatternBinds (namedValues : NamedValues) : List Pattern → NamedValues
  | [] => namedValues
  | pattern :: patterns => (namedValues.emitPatternBind pattern).emitPatternBinds patterns
end

/-- At the end of an arm the slot its binding shadowed returns. -/
def restoreBinding (shadowed namedValues : NamedValues) (binding : DeclNode) : NamedValues :=
  match shadowed[binding.name]? with
  | some slot => namedValues.insert binding.name slot
  | none => namedValues.erase binding.name

def restore (shadowed : NamedValues) (bindings : List DeclNode) (namedValues : NamedValues) :
    NamedValues :=
  bindings.foldl (restoreBinding shadowed) namedValues

/-- The slot selected for a variable expression. Without one, the name must be
that of a function. -/
structure Selection where
  info : NodeInfo
  name : String
  storage : Option DeclNode

def selectExpr (namedValues : NamedValues) (expr : Expr) : List Selection :=
  expr.variableUses.map fun use => ⟨use.1, use.2, namedValues[use.2]?⟩

mutual
def selectStmt (namedValues : NamedValues) : Stmt → NamedValues × List Selection
  | .assignStmt _ lhs rhs => (namedValues, selectExpr namedValues lhs ++ selectExpr namedValues rhs)
  | .blockStmt _ stmts => selectStmts namedValues stmts
  | .whileStmt _ condition body =>
      let (after, selections) := selectStmt namedValues body
      (after, selectExpr namedValues condition ++ selections)
  | .ifStmt _ condition thenStmt none =>
      let (after, selections) := selectStmt namedValues thenStmt
      (after, selectExpr namedValues condition ++ selections)
  | .ifStmt _ condition thenStmt (some elseStmt) =>
      let (mid, thenSelections) := selectStmt namedValues thenStmt
      let (after, elseSelections) := selectStmt mid elseStmt
      (after, selectExpr namedValues condition ++ (thenSelections ++ elseSelections))
  | .outputStmt _ arg | .errorStmt _ arg => (namedValues, selectExpr namedValues arg)
  | .caseStmt _ caseExpr arms =>
      let (after, selections) := selectArms namedValues arms
      (after, selectExpr namedValues caseExpr ++ selections)

def selectStmts (namedValues : NamedValues) : List Stmt → NamedValues × List Selection
  | [] => (namedValues, [])
  | stmt :: stmts =>
      let (mid, selections) := selectStmt namedValues stmt
      let (after, later) := selectStmts mid stmts
      (after, selections ++ later)

def selectArm (namedValues : NamedValues) : CaseArm → NamedValues × List Selection
  | .mk _ _ patterns body =>
      let (after, selections) := selectStmt (namedValues.emitPatternBinds patterns) body
      (restore namedValues (Pattern.collectAllBindings patterns) after, selections)

/-- Arms of one constructor are generated together; an arm leaves the map as it
was, so their order decides nothing here. -/
def selectArms (namedValues : NamedValues) : List CaseArm → NamedValues × List Selection
  | [] => (namedValues, [])
  | arm :: arms =>
      let (mid, selections) := selectArm namedValues arm
      let (after, later) := selectArms mid arms
      (after, selections ++ later)
end

def selectFunction (function : Function) : List Selection :=
  let entry := (function.formals ++ function.declarations).foldl allocate ∅
  let (after, selections) := selectStmts entry function.stmts
  selections ++ selectExpr after function.returnArg

end CodeGenVisitor

/-! ## What the symbol table keeps -/

namespace LocalNameCollector

section

variable (functionNames : FunctionNames) (funName : String)

/-- What visiting part of a function that names `names` and declares `decls`
does to the names known. -/
structure Visited (state result : State) (names : List String) (decls : List DeclNode) :
    Prop where
  stored : ∀ name : String,
    result.curMap[name]? = (lastNamed name decls).or state.curMap[name]?
  declared : ∀ name ∈ names,
    functionNames.contains name = true ∨ (result.curMap[name]?).isSome = true

variable {functionNames funName}

theorem Visited.append {state mid result : State} {names later : List String}
    {decls laterDecls : List DeclNode}
    (first : Visited functionNames state mid names decls)
    (rest : Visited functionNames mid result later laterDecls) :
    Visited functionNames state result (names ++ later) (decls ++ laterDecls) := by
  constructor
  · intro name
    rw [rest.stored, first.stored, lastNamed_append, Option.or_assoc]
  · intro name member
    rcases List.mem_append.mp member with early | late
    · rcases first.declared name early with function | stored
      · exact Or.inl function
      · apply Or.inr
        rw [rest.stored, Option.isSome_or, stored, Bool.or_true]
    · exact rest.declared name late

theorem Visited.of_names {state : State} {names : List String}
    (declared : ∀ name ∈ names,
      functionNames.contains name = true ∨ (state.curMap[name]?).isSome = true) :
    Visited functionNames state state names [] :=
  ⟨fun _ => rfl, declared⟩

theorem visited_endVisitDecl {state result : State} {decl : DeclNode}
    (step : endVisitDecl functionNames funName state decl = .ok result) :
    Visited functionNames state result [] [decl] := by
  unfold endVisitDecl at step
  split at step
  · cases step
  · split at step
    · cases step
      constructor
      · intro name
        rw [Std.ExtTreeMap.getElem?_insert, lastNamed_singleton]
        by_cases same : decl.name = name <;> simp [same]
      · exact nofun
    · cases step

theorem visited_endVisitDecls {decls : List DeclNode} : ∀ {state result : State},
    decls.foldlM (endVisitDecl functionNames funName) state = .ok result →
      Visited functionNames state result [] decls := by
  induction decls with
  | nil =>
      intro state result steps
      cases steps
      exact Visited.of_names nofun
  | cons decl decls induction =>
      intro state result steps
      rw [List.foldlM_cons, bind_eq_ok] at steps
      rcases steps with ⟨mid, first, rest⟩
      exact (visited_endVisitDecl first).append (induction rest)

/-- Every variable of the expression is known where it is visited. -/
def ExprDeclared (functionNames : FunctionNames) (state : State) (uses : List (NodeInfo × String)) :
    Prop :=
  ∀ use ∈ uses, functionNames.contains use.2 = true ∨ (state.curMap[use.2]?).isSome = true

theorem exprDeclared_append {state : State} {uses later : List (NodeInfo × String)} :
    ExprDeclared functionNames state (uses ++ later) ↔
      ExprDeclared functionNames state uses ∧ ExprDeclared functionNames state later :=
  List.forall_mem_append

theorem exprDeclared_visitExprs {state : State} {exprs : List Expr}
    (each : ∀ expr ∈ exprs, visitExpr functionNames funName state expr = .ok () →
      ExprDeclared functionNames state expr.variableUses)
    (step : visitExprs functionNames funName state exprs = .ok ()) :
    ExprDeclared functionNames state (Expr.variableUsesOf exprs) := by
  induction exprs with
  | nil => exact nofun
  | cons expr exprs induction =>
      rw [visitExprs, bind_eq_ok] at step
      rcases step with ⟨_, first, rest⟩
      rw [Expr.variableUsesOf, exprDeclared_append]
      constructor
      · exact each expr List.mem_cons_self first
      · exact induction (fun other member => each other (List.mem_cons_of_mem _ member)) rest

theorem exprDeclared_visitExpr {state : State} (expr : Expr) :
    visitExpr functionNames funName state expr = .ok () →
      ExprDeclared functionNames state expr.variableUses := by
  induction expr with
  | numExpr info value => exact fun _ => nofun
  | inputExpr info => exact fun _ => nofun
  | varExpr info name =>
      intro step use member
      cases List.mem_singleton.mp member
      rw [visitExpr, endVisitVariable] at step
      split at step
      · rename_i known
        rw [Bool.or_eq_true] at known
        rw [← Std.ExtTreeMap.contains_eq_isSome_getElem?]
        exact known
      · cases step
  | binaryExpr info op left right leftHolds rightHolds =>
      intro step
      rw [visitExpr, bind_eq_ok] at step
      rcases step with ⟨_, first, rest⟩
      rw [Expr.variableUses, exprDeclared_append]
      exact ⟨leftHolds first, rightHolds rest⟩
  | funAppExpr info function actuals functionHolds each =>
      intro step
      rw [visitExpr, bind_eq_ok] at step
      rcases step with ⟨_, first, rest⟩
      rw [Expr.variableUses, exprDeclared_append]
      exact ⟨functionHolds first, exprDeclared_visitExprs each rest⟩
  | allocExpr info initializer holds => exact holds
  | borrowExpr info var holds => exact holds
  | deRefExpr info ptr holds => exact holds
  | sumCtorExpr info tag args each => exact exprDeclared_visitExprs each

theorem visited_visitExpr {state : State} {expr : Expr}
    (step : visitExpr functionNames funName state expr = .ok ()) (enclosing : List CaseArm) :
    Visited functionNames state state ((expr.occurrences enclosing).map Occurrence.name) [] := by
  apply Visited.of_names
  intro name member
  rw [Expr.occurrences, List.map_map] at member
  rcases List.mem_map.mp member with ⟨use, used, rfl⟩
  exact exprDeclared_visitExpr expr step use used

/-- Visiting a statement stores the bindings of its arms, the later ones over
the earlier ones. -/
def StmtVisited (functionNames : FunctionNames) (funName : String) (stmt : Stmt) : Prop :=
  ∀ (enclosing : List CaseArm) (state result : State),
    visitStmt functionNames funName state stmt = .ok result →
      Visited functionNames state result ((stmt.occurrences enclosing).map Occurrence.name)
        (stmt.allArms.flatMap CaseArm.getBindings)

theorem visited_visitStmts {stmts : List Stmt}
    (each : ∀ stmt ∈ stmts, StmtVisited functionNames funName stmt) (enclosing : List CaseArm) :
    ∀ {state result : State}, visitStmts functionNames funName state stmts = .ok result →
      Visited functionNames state result
        ((Stmt.occurrencesOf enclosing stmts).map Occurrence.name)
        ((Stmt.allArmsOf stmts).flatMap CaseArm.getBindings) := by
  induction stmts with
  | nil =>
      intro state result steps
      cases steps
      rw [Stmt.occurrencesOf]
      exact Visited.of_names nofun
  | cons stmt stmts induction =>
      intro state result steps
      rw [visitStmts, bind_eq_ok] at steps
      rcases steps with ⟨mid, first, rest⟩
      rw [Stmt.occurrencesOf, Stmt.allArmsOf, List.map_append, List.flatMap_append]
      apply Visited.append
      · exact each stmt List.mem_cons_self enclosing state mid first
      · exact induction (fun other member => each other (List.mem_cons_of_mem _ member)) rest

theorem visited_visitArms {arms : List CaseArm}
    (each : ∀ arm ∈ arms, StmtVisited functionNames funName arm.getBody)
    (enclosing : List CaseArm) :
    ∀ {state result : State}, visitArms functionNames funName state arms = .ok result →
      Visited functionNames state result
        ((CaseArm.occurrencesOf enclosing arms).map Occurrence.name)
        ((CaseArm.allArmsOf arms).flatMap CaseArm.getBindings) := by
  induction arms with
  | nil =>
      intro state result steps
      cases steps
      rw [CaseArm.occurrencesOf]
      exact Visited.of_names nofun
  | cons arm arms induction =>
      intro state result steps
      rw [visitArms, bind_eq_ok] at steps
      rcases steps with ⟨mid, first, rest⟩
      rw [CaseArm.occurrencesOf, CaseArm.allArmsOf, List.map_append, List.flatMap_append]
      refine Visited.append ?_
        (induction (fun other member => each other (List.mem_cons_of_mem _ member)) rest)
      have bodyVisited := each arm List.mem_cons_self
      cases arm with
      | mk info tag patterns body =>
          rw [visitArm, bind_eq_ok] at first
          rcases first with ⟨bound, bindings, first⟩
          rw [CaseArm.occurrences, CaseArm.allArms, List.flatMap_cons]
          have boundVisited := visited_endVisitDecls bindings
          have whole := boundVisited.append
            (bodyVisited (enclosing ++ [.mk info tag patterns body]) bound mid first)
          exact ⟨whole.stored, whole.declared⟩

theorem stmtVisited (stmt : Stmt) : StmtVisited functionNames funName stmt := by
  induction stmt with
  | assignStmt info lhs rhs =>
      intro enclosing state result steps
      rw [visitStmt, bind_eq_ok] at steps
      rcases steps with ⟨_, first, steps⟩
      rw [bind_eq_ok] at steps
      rcases steps with ⟨_, second, steps⟩
      cases steps
      rw [Stmt.occurrences, List.map_append]
      exact (visited_visitExpr first enclosing).append (visited_visitExpr second enclosing)
  | blockStmt info stmts each =>
      intro enclosing state result steps
      rw [Stmt.occurrences]
      exact visited_visitStmts each enclosing steps
  | whileStmt info condition body bodyVisited =>
      intro enclosing state result steps
      rw [visitStmt, bind_eq_ok] at steps
      rcases steps with ⟨_, first, rest⟩
      rw [Stmt.occurrences, List.map_append]
      exact (visited_visitExpr first enclosing).append
        (bodyVisited enclosing state result rest)
  | ifStmt info condition thenStmt elseStmt thenVisited elseVisited =>
      intro enclosing state result steps
      cases elseStmt with
      | none =>
          rw [visitStmt, bind_eq_ok] at steps
          rcases steps with ⟨_, first, rest⟩
          rw [Stmt.occurrences, List.map_append, Stmt.allArms, Stmt.elseArms, List.append_nil]
          exact (visited_visitExpr first enclosing).append
            (thenVisited enclosing state result rest)
      | some elseStmt =>
          rw [visitStmt, bind_eq_ok] at steps
          rcases steps with ⟨_, first, steps⟩
          rw [bind_eq_ok] at steps
          rcases steps with ⟨mid, second, rest⟩
          rw [Stmt.occurrences, List.map_append, List.map_append, Stmt.allArms, Stmt.elseArms,
            List.flatMap_append]
          exact (visited_visitExpr first enclosing).append
            ((thenVisited enclosing state mid second).append
              (elseVisited elseStmt rfl enclosing mid result rest))
  | outputStmt info arg | errorStmt info arg =>
      intro enclosing state result steps
      rw [visitStmt, bind_eq_ok] at steps
      rcases steps with ⟨_, first, steps⟩
      cases steps
      rw [Stmt.occurrences]
      exact visited_visitExpr first enclosing
  | caseStmt info caseExpr arms each =>
      intro enclosing state result steps
      rw [visitStmt, bind_eq_ok] at steps
      rcases steps with ⟨_, first, rest⟩
      rw [Stmt.occurrences, List.map_append]
      exact (visited_visitExpr first enclosing).append (visited_visitArms each enclosing rest)

end

theorem visited_visitFunction {functionNames : FunctionNames} {function : Function}
    {names : LocalNames} (step : visitFunction functionNames function = .ok names) :
    (∀ name : String, names[name]? = lastNamed name function.variables) ∧
      ∀ occurrence ∈ function.occurrences, functionNames.contains occurrence.name = true ∨
        (names[occurrence.name]?).isSome = true := by
  rw [visitFunction, bind_eq_ok] at step
  rcases step with ⟨declared, declarations, step⟩
  rw [bind_eq_ok] at step
  rcases step with ⟨final, stmts, step⟩
  rw [bind_eq_ok] at step
  rcases step with ⟨_, returned, step⟩
  cases step
  have whole := ((visited_endVisitDecls declarations).append
    (visited_visitStmts (fun stmt _ => stmtVisited stmt) [] stmts)).append
      (visited_visitExpr returned [])
  constructor
  · intro name
    have stored := whole.stored name
    rw [List.append_nil] at stored
    rw [stored, Function.variables, Function.allArms]
    simp
  · intro occurrence member
    apply whole.declared
    rw [List.nil_append, ← List.map_append]
    exact List.mem_map_of_mem member

end LocalNameCollector

end Topc
