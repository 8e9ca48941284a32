import Topc.Errors

/-! # Symbol table

Three traversals of the program fill it: one over function headers, one over
the locals of each function and one over the sum type declarations. -/

namespace Topc

abbrev FunctionNames := Std.ExtTreeMap String (DeclNode × Bool)

abbrev LocalNames := Std.ExtTreeMap String DeclNode

structure SymbolTable where
  functionNames : FunctionNames
  localNames : Std.ExtTreeMap DeclNode LocalNames
  typeNames : Std.ExtTreeMap String SumTypeDecl
  constructorNames : Std.ExtTreeMap String SumVariant

namespace SymbolTable

def getFunction (symbols : SymbolTable) (name : String) : Option DeclNode :=
  symbols.functionNames[name]?.map Prod.fst

def getPoly (symbols : SymbolTable) (name : String) : Bool :=
  (symbols.functionNames[name]?.map Prod.snd).getD false

def setPoly (symbols : SymbolTable) (name : String) : SymbolTable :=
  match symbols.functionNames[name]? with
  | none => symbols
  | some (decl, _) =>
      { symbols with functionNames := symbols.functionNames.insert name (decl, true) }

def getFunctions (symbols : SymbolTable) : List DeclNode :=
  symbols.functionNames.toList.map fun entry => entry.2.1

/-- The declaration a name has in a function. There is one for each name: the
last one the traversal met. -/
def getLocal (symbols : SymbolTable) (name : String) (function : DeclNode) :
    Option DeclNode :=
  symbols.localNames[function]?.bind fun locals => locals[name]?

def getSumType (symbols : SymbolTable) (name : String) : Option SumTypeDecl :=
  symbols.typeNames[name]?

def getConstructor (symbols : SymbolTable) (tag : String) : Option SumVariant :=
  symbols.constructorNames[tag]?

def getSumTypes (symbols : SymbolTable) : List String :=
  symbols.typeNames.toList.map Prod.fst

def getConstructorOwner (symbols : SymbolTable) (tag : String) : Option SumTypeDecl :=
  (symbols.typeNames.toList.map Prod.snd).find? fun decl =>
    decl.variants.any fun variant => variant.tag == tag

end SymbolTable

/-! ## Function names -/

namespace FunctionNameCollector

/-- No function of a parsed program carries the `poly` mark. -/
def visit (names : FunctionNames) (function : Function) :
    Except CompileError FunctionNames :=
  let decl := function.decl
  if names.contains decl.name then
    .error (.semantic s!"Symbol error on line {decl.line}: function name {decl.name} already declared\n")
  else
    .ok (names.insert decl.name (decl, false))

def build (program : Program) : Except CompileError FunctionNames :=
  program.functions.foldlM visit ∅

end FunctionNameCollector

/-! ## Local names -/

namespace LocalNameCollector

/-- The names declared so far in the current function, and the names some case
arm met so far binds. -/
structure State where
  curMap : LocalNames
  caseArmBindingNames : List String

section

variable (functionNames : FunctionNames) (funName : String)

/-- Record a declaration. A name bound by a case arm may be bound again and then
replaces the earlier declaration, whatever that was. -/
def endVisitDecl (state : State) (decl : DeclNode) : Except CompileError State :=
  if functionNames.contains decl.name then
    .error (.semantic s!"Symbol error line {decl.line} in column {decl.column}: {decl.name} already declared as function\n")
  else if !state.curMap.contains decl.name
      || state.caseArmBindingNames.contains decl.name then
    .ok { state with curMap := state.curMap.insert decl.name decl }
  else
    .error (.semantic s!"Symbol error line {decl.line} in column {decl.column}: {decl.name} redeclared in function {funName}\n")

def endVisitVariable (state : State) (info : NodeInfo) (name : String) :
    Except CompileError Unit :=
  if functionNames.contains name || state.curMap.contains name then
    .ok ()
  else
    .error (.semantic s!"Symbol error line {info.line} in column {info.column}: {name} undeclared in function {funName}\n")

mutual
def visitExpr (state : State) : Expr → Except CompileError Unit
  | .numExpr .. | .inputExpr .. => .ok ()
  | .varExpr info name => endVisitVariable functionNames funName state info name
  | .binaryExpr _ _ left right => do
      visitExpr state left
      visitExpr state right
  | .funAppExpr _ function actuals => do
      visitExpr state function
      visitExprs state actuals
  | .allocExpr _ initializer => visitExpr state initializer
  | .borrowExpr _ var => visitExpr state var
  | .deRefExpr _ ptr => visitExpr state ptr
  | .sumCtorExpr _ _ args => visitExprs state args

def visitExprs (state : State) : List Expr → Except CompileError Unit
  | [] => .ok ()
  | expr :: exprs => do
      visitExpr state expr
      visitExprs state exprs
end

mutual
def visitStmt (state : State) : Stmt → Except CompileError State
  | .assignStmt _ lhs rhs => do
      visitExpr functionNames funName state lhs
      visitExpr functionNames funName state rhs
      return state
  | .blockStmt _ stmts => visitStmts state stmts
  | .whileStmt _ condition body => do
      visitExpr functionNames funName state condition
      visitStmt state body
  | .ifStmt _ condition thenStmt none => do
      visitExpr functionNames funName state condition
      visitStmt state thenStmt
  | .ifStmt _ condition thenStmt (some elseStmt) => do
      visitExpr functionNames funName state condition
      visitStmt (← visitStmt state thenStmt) elseStmt
  | .outputStmt _ arg | .errorStmt _ arg => do
      visitExpr functionNames funName state arg
      return state
  | .caseStmt _ caseExpr arms => do
      visitExpr functionNames funName state caseExpr
      visitArms state arms

def visitStmts (state : State) : List Stmt → Except CompileError State
  | [] => .ok state
  | stmt :: stmts => do visitStmts (← visitStmt state stmt) stmts

def visitArm (state : State) : CaseArm → Except CompileError State
  | .mk _ _ patterns body => do
      let bindings := Pattern.collectAllBindings patterns
      let state := { state with
        caseArmBindingNames := bindings.map DeclNode.name ++ state.caseArmBindingNames }
      visitStmt (← bindings.foldlM (endVisitDecl functionNames funName) state) body

def visitArms (state : State) : List CaseArm → Except CompileError State
  | [] => .ok state
  | arm :: arms => do visitArms (← visitArm state arm) arms
end

end

def visitFunction (functionNames : FunctionNames) (function : Function) :
    Except CompileError LocalNames := do
  let funName := function.getName
  let state ← (function.formals ++ function.declarations).foldlM
    (endVisitDecl functionNames funName) ⟨∅, []⟩
  let state ← visitStmts functionNames funName state function.stmts
  visitExpr functionNames funName state function.returnArg
  return state.curMap

/-- The first function stored under a declaration stays, as `map::insert` has it. -/
def endVisitFunction (functionNames : FunctionNames) (lMap : Std.ExtTreeMap DeclNode LocalNames)
    (function : Function) : Except CompileError (Std.ExtTreeMap DeclNode LocalNames) := do
  return lMap.insertIfNew function.decl (← visitFunction functionNames function)

def build (program : Program) (functionNames : FunctionNames) :
    Except CompileError (Std.ExtTreeMap DeclNode LocalNames) :=
  program.functions.foldlM (endVisitFunction functionNames) ∅

end LocalNameCollector

/-! ## Type and constructor names -/

namespace TypeNameCollector

def buildTypes (program : Program) : Std.ExtTreeMap String SumTypeDecl :=
  program.typedecls.foldl (fun types decl => types.insert decl.name decl) ∅

def buildConstructors (program : Program) : Std.ExtTreeMap String SumVariant :=
  (program.typedecls.flatMap SumTypeDecl.variants).foldl
    (fun constructors variant => constructors.insert variant.tag variant) ∅

end TypeNameCollector

def SymbolTable.build (program : Program) : Except CompileError SymbolTable := do
  let functionNames ← FunctionNameCollector.build program
  let localNames ← LocalNameCollector.build program functionNames
  return {
    functionNames
    localNames
    typeNames := TypeNameCollector.buildTypes program
    constructorNames := TypeNameCollector.buildConstructors program }

/-! ## Names in a built table -/

namespace LocalNameCollector

/-- Every declaration is stored under its own name. -/
def NamedByKey (names : LocalNames) : Prop :=
  ∀ (name : String) (decl : DeclNode), names[name]? = some decl → decl.name = name

section

variable (functionNames : FunctionNames) (funName : String)

theorem endVisitDecl_named (state : State) (decl : DeclNode) (result : State)
    (visited : endVisitDecl functionNames funName state decl = .ok result)
    (named : NamedByKey state.curMap) : NamedByKey result.curMap := by
  unfold endVisitDecl at visited
  split at visited
  · cases visited
  · split at visited
    · cases visited
      intro name other entry
      rw [Std.ExtTreeMap.getElem?_insert] at entry
      split at entry
      · cases entry
        simp_all
      · exact named name other entry
    · cases visited

/-- A declaration is stored only under a name that no function has. -/
def ApartFrom (functionNames : FunctionNames) (names : LocalNames) : Prop :=
  ∀ name : String, (names[name]?).isSome = true → functionNames.contains name = false

theorem endVisitDecl_apart (state : State) (decl : DeclNode) (result : State)
    (visited : endVisitDecl functionNames funName state decl = .ok result)
    (apart : ApartFrom functionNames state.curMap) : ApartFrom functionNames result.curMap := by
  unfold endVisitDecl at visited
  split at visited
  · cases visited
  · rename_i notFunction
    split at visited
    · cases visited
      intro name stored
      rw [Std.ExtTreeMap.getElem?_insert] at stored
      split at stored
      · rename_i same
        rw [← Std.LawfulEqCmp.eq_of_compare same]
        exact Bool.eq_false_iff.mpr notFunction
      · exact apart name stored
    · cases visited

def StmtPreserves (property : LocalNames → Prop) (stmt : Stmt) : Prop :=
  ∀ state result, visitStmt functionNames funName state stmt = .ok result →
    property state.curMap → property result.curMap

theorem visitStmts_preserves {property : LocalNames → Prop} {stmts : List Stmt}
    (each : ∀ stmt ∈ stmts, StmtPreserves functionNames funName property stmt) :
    ∀ state result, visitStmts functionNames funName state stmts = .ok result →
      property state.curMap → property result.curMap := by
  induction stmts with
  | nil =>
      intro state result visited holds
      cases visited
      exact holds
  | cons stmt stmts induction =>
      intro state result visited holds
      rw [visitStmts, bind_eq_ok] at visited
      rcases visited with ⟨mid, first, rest⟩
      exact induction (fun other member => each other (by simp [member])) _ _ rest
        (each stmt (by simp) _ _ first holds)

section

variable {property : LocalNames → Prop} (declPreserves : ∀ state decl result,
  endVisitDecl functionNames funName state decl = .ok result →
    property state.curMap → property result.curMap)

include declPreserves

theorem endVisitDecls_preserves (decls : List DeclNode) {state result : State}
    (visited : decls.foldlM (endVisitDecl functionNames funName) state = .ok result)
    (holds : property state.curMap) : property result.curMap :=
  foldlM_preserves (fun state => property state.curMap) declPreserves decls visited holds

theorem visitArms_preserves {arms : List CaseArm}
    (each : ∀ arm ∈ arms, StmtPreserves functionNames funName property arm.getBody) :
    ∀ state result, visitArms functionNames funName state arms = .ok result →
      property state.curMap → property result.curMap := by
  induction arms with
  | nil =>
      intro state result visited holds
      cases visited
      exact holds
  | cons arm arms induction =>
      intro state result visited holds
      rw [visitArms, bind_eq_ok] at visited
      rcases visited with ⟨mid, first, rest⟩
      refine induction (fun other member => each other (by simp [member])) _ _ rest ?_
      cases arm with
      | mk info tag patterns body =>
          rw [visitArm, bind_eq_ok] at first
          rcases first with ⟨bound, bindings, first⟩
          exact each (.mk info tag patterns body) (by simp) bound mid first
            (endVisitDecls_preserves functionNames funName declPreserves _ bindings holds)

/-- What each declaration preserves, visiting a statement preserves. -/
theorem stmtPreserves (stmt : Stmt) : StmtPreserves functionNames funName property stmt := by
  induction stmt with
  | assignStmt info lhs rhs =>
      intro state result visited holds
      rw [visitStmt, bind_eq_ok] at visited
      rcases visited with ⟨_, _, visited⟩
      rw [bind_eq_ok] at visited
      rcases visited with ⟨_, _, visited⟩
      cases visited
      exact holds
  | blockStmt info stmts each => exact visitStmts_preserves functionNames funName each
  | whileStmt info condition body bodyPreserves =>
      intro state result visited holds
      rw [visitStmt, bind_eq_ok] at visited
      rcases visited with ⟨_, _, visited⟩
      exact bodyPreserves state result visited holds
  | ifStmt info condition thenStmt elseStmt thenPreserves elsePreserves =>
      intro state result visited holds
      cases elseStmt with
      | none =>
          rw [visitStmt, bind_eq_ok] at visited
          rcases visited with ⟨_, _, visited⟩
          exact thenPreserves state result visited holds
      | some elseStmt =>
          rw [visitStmt, bind_eq_ok] at visited
          rcases visited with ⟨_, _, visited⟩
          rw [bind_eq_ok] at visited
          rcases visited with ⟨mid, first, second⟩
          exact elsePreserves elseStmt rfl mid result second (thenPreserves state mid first holds)
  | outputStmt info arg | errorStmt info arg =>
      intro state result visited holds
      rw [visitStmt, bind_eq_ok] at visited
      rcases visited with ⟨_, _, visited⟩
      cases visited
      exact holds
  | caseStmt info caseExpr arms each =>
      intro state result visited holds
      rw [visitStmt, bind_eq_ok] at visited
      rcases visited with ⟨_, _, visited⟩
      exact visitArms_preserves functionNames funName declPreserves each state result visited holds

end

end

theorem visitFunction_preserves {functionNames : FunctionNames} {function : Function}
    {names : LocalNames} (visited : visitFunction functionNames function = .ok names)
    {property : LocalNames → Prop} (declPreserves : ∀ state decl result,
      endVisitDecl functionNames function.getName state decl = .ok result →
        property state.curMap → property result.curMap) (empty : property ∅) : property names := by
  rw [visitFunction, bind_eq_ok] at visited
  rcases visited with ⟨declared, decls, visited⟩
  rw [bind_eq_ok] at visited
  rcases visited with ⟨final, stmts, visited⟩
  rw [bind_eq_ok] at visited
  rcases visited with ⟨_, _, visited⟩
  cases visited
  exact visitStmts_preserves functionNames function.getName
    (fun stmt _ => stmtPreserves functionNames function.getName declPreserves stmt) _ _ stmts
    (endVisitDecls_preserves functionNames function.getName declPreserves _ decls empty)

theorem visitFunction_named {functionNames : FunctionNames} {function : Function}
    {names : LocalNames} (visited : visitFunction functionNames function = .ok names) :
    NamedByKey names := by
  apply visitFunction_preserves visited (endVisitDecl_named functionNames function.getName)
  intro name decl entry
  simp at entry

theorem visitFunction_apart {functionNames : FunctionNames} {function : Function}
    {names : LocalNames} (visited : visitFunction functionNames function = .ok names) :
    ApartFrom functionNames names := by
  apply visitFunction_preserves visited (endVisitDecl_apart functionNames function.getName)
  intro name stored
  simp at stored

def AllNamedByKey (names : Std.ExtTreeMap DeclNode LocalNames) : Prop :=
  ∀ (function : DeclNode) (locals : LocalNames), names[function]? = some locals →
    NamedByKey locals

theorem endVisitFunction_named {functionNames : FunctionNames} {function : Function}
    {before after : Std.ExtTreeMap DeclNode LocalNames}
    (visited : endVisitFunction functionNames before function = .ok after)
    (named : AllNamedByKey before) : AllNamedByKey after := by
  rw [endVisitFunction, bind_eq_ok] at visited
  rcases visited with ⟨names, visited, result⟩
  cases result
  intro other locals stored
  rw [Std.ExtTreeMap.getElem?_insertIfNew] at stored
  split at stored
  · cases stored
    exact visitFunction_named visited
  · exact named other locals stored

end LocalNameCollector

namespace FunctionNameCollector

def NamedByKey (names : FunctionNames) : Prop :=
  ∀ (name : String) (entry : DeclNode × Bool), names[name]? = some entry → entry.1.name = name

theorem visit_named {before after : FunctionNames} {function : Function}
    (visited : visit before function = .ok after) (named : NamedByKey before) :
    NamedByKey after := by
  simp only [visit] at visited
  split at visited
  · cases visited
  · cases visited
    intro name entry stored
    rw [Std.ExtTreeMap.getElem?_insert] at stored
    split at stored
    · cases stored
      simp_all
    · exact named name entry stored

end FunctionNameCollector

namespace SymbolTable

/-- Every name resolves to a declaration of that name. -/
structure Canonical (symbols : SymbolTable) : Prop where
  functions : ∀ name decl, symbols.getFunction name = some decl → decl.name = name
  locals : ∀ name function decl, symbols.getLocal name function = some decl → decl.name = name

theorem build_canonical {program : Program} {symbols : SymbolTable}
    (built : SymbolTable.build program = .ok symbols) : symbols.Canonical := by
  rw [SymbolTable.build, bind_eq_ok] at built
  rcases built with ⟨functionNames, functionsBuilt, built⟩
  rw [bind_eq_ok] at built
  rcases built with ⟨localNames, localsBuilt, built⟩
  cases built
  have functionsNamed := foldlM_preserves FunctionNameCollector.NamedByKey
    (fun _ _ _ => FunctionNameCollector.visit_named) _ functionsBuilt
    (by intro name entry stored; simp at stored)
  have localsNamed := foldlM_preserves LocalNameCollector.AllNamedByKey
    (fun _ _ _ => LocalNameCollector.endVisitFunction_named) _ localsBuilt
    (by intro function names stored; simp at stored)
  constructor
  · intro name decl stored
    rw [getFunction, Option.map_eq_some_iff] at stored
    rcases stored with ⟨entry, stored, rfl⟩
    exact functionsNamed name entry stored
  · intro name function decl stored
    rw [getLocal, Option.bind_eq_some_iff] at stored
    rcases stored with ⟨names, functionStored, stored⟩
    exact localsNamed function names functionStored name decl stored

end SymbolTable

/-! ## Names of formals and locals -/

namespace LocalNameCollector

theorem endVisitDecls_nodup {functionNames : FunctionNames} {funName : String}
    {decls : List DeclNode} : ∀ {state result : State},
      decls.foldlM (endVisitDecl functionNames funName) state = .ok result →
      state.caseArmBindingNames = [] →
      (decls.map DeclNode.name).Nodup ∧
        ∀ decl ∈ decls, state.curMap.contains decl.name = false := by
  induction decls with
  | nil => exact fun _ _ => ⟨List.nodup_nil, nofun⟩
  | cons decl decls induction =>
      intro state result visited noArms
      rw [List.foldlM_cons, bind_eq_ok] at visited
      rcases visited with ⟨mid, first, rest⟩
      have fresh : state.curMap.contains decl.name = false ∧
          mid = { state with curMap := state.curMap.insert decl.name decl } := by
        rw [endVisitDecl, noArms] at first
        split at first
        · cases first
        · split at first
          · rename_i allowed
            cases first
            simpa [noArms] using allowed
          · cases first
      rcases fresh with ⟨fresh, rfl⟩
      rcases induction rest noArms with ⟨distinct, notSeen⟩
      have apart : ∀ other ∈ decls, decl.name ≠ other.name ∧
          state.curMap.contains other.name = false := by
        intro other member
        have unseen := notSeen other member
        rw [Std.ExtTreeMap.contains_insert, Bool.or_eq_false_iff] at unseen
        exact ⟨by simpa using unseen.1, unseen.2⟩
      refine ⟨List.nodup_cons.mpr ⟨fun member => ?_, distinct⟩, ?_⟩
      · rcases List.mem_map.mp member with ⟨other, otherMem, same⟩
        exact (apart other otherMem).1 same.symm
      · exact List.forall_mem_cons.mpr ⟨fresh, fun other member => (apart other member).2⟩

end LocalNameCollector

namespace SymbolTable

/-- The formals and locals of a function differ in name. -/
theorem build_names_nodup {program : Program} {symbols : SymbolTable}
    (built : SymbolTable.build program = .ok symbols) {function : Function}
    (member : function ∈ program.functions) :
    ((function.formals ++ function.declarations).map DeclNode.name).Nodup := by
  rw [SymbolTable.build, bind_eq_ok] at built
  rcases built with ⟨functionNames, _, built⟩
  rw [bind_eq_ok] at built
  rcases built with ⟨localNames, localsBuilt, _⟩
  rcases foldlM_visits localsBuilt function member with ⟨before, after, visited⟩
  rw [LocalNameCollector.endVisitFunction, bind_eq_ok] at visited
  rcases visited with ⟨names, visited, _⟩
  rw [LocalNameCollector.visitFunction, bind_eq_ok] at visited
  rcases visited with ⟨state, declared, _⟩
  exact (LocalNameCollector.endVisitDecls_nodup declared rfl).1

end SymbolTable

end Topc
