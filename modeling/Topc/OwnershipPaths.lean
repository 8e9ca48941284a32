import Topc.Foundation.PathMonitor
import Topc.MoveAnalysis

/-! # Paths of a function and the ownership of its variables along them

The uses, moves and assignments of every control-flow path, with each name
resolved by lexical scope. What a path does to one variable is a replay of the
events that concern it. -/

open Computability

namespace Topc

/-- A variable in scope. The binders of `case *e` are aliases of payloads the
scrutinee still owns. -/
structure Binding where
  decl : DeclNode
  isAlias : Bool
deriving DecidableEq, Repr

/-- The variables in scope, innermost first. -/
abbrev Scope := List Binding

namespace Scope

def lookup (scope : Scope) (name : String) : Option Binding :=
  scope.find? fun binding => binding.decl.name == name

end Scope

/-- What an occurrence of a variable does with its value. -/
inductive Action
  /-- The value is read in place. -/
  | use
  /-- The value is taken. An `Own` variable is moved. -/
  | take
  /-- The variable receives a value. -/
  | store
  /-- The variable receives a borrow. -/
  | storeBorrow
deriving DecidableEq, Repr

inductive Event
  | access (action : Action) (name : String) (target : Option Binding)
  | enterArm (binders : List Binding)
  | leaveArm (arm : NodeId) (binders : List Binding)
deriving DecidableEq, Repr

namespace Event

/-- The variables an event brings into scope. -/
def declared : Event → List DeclNode
  | .enterArm binders => binders.map Binding.decl
  | .access .. | .leaveArm .. => []

/-- The arm an event is the end of. -/
def endedArm : Event → Option NodeId
  | .leaveArm arm _ => some arm
  | .access .. | .enterArm _ => none

end Event

namespace OwnershipPaths

open MoveAnalysis (Context)

section

variable (context : Context)

/-! ## Events of an expression, in evaluation order -/

def access (scope : Scope) (action : Action) (name : String) : Event :=
  .access action name (scope.lookup name)

/-- The events of an expression whose value is taken, given those of reading it. -/
def asTaken (scope : Scope) (expr : Expr) (events : List Event) : List Event :=
  match expr with
  | .varExpr _ name => [access scope .take name]
  | _ => events

mutual
def exprEvents (scope : Scope) : Expr → List Event
  | .numExpr .. | .inputExpr .. => []
  | .varExpr _ name => [access scope .use name]
  | .binaryExpr _ _ left right => exprEvents scope left ++ exprEvents scope right
  | .funAppExpr info function actuals =>
      exprEvents scope function ++ actualEvents scope (context.consumes info.id) actuals
  | .allocExpr _ initializer => exprEvents scope initializer
  | .borrowExpr _ var => exprEvents scope var
  | .deRefExpr _ ptr => exprEvents scope ptr
  | .sumCtorExpr _ _ args => payloadEvents scope args

def actualEvents (scope : Scope) (consumes : List Bool) : List Expr → List Event
  | [] => []
  | actual :: actuals =>
      (if consumes.headD false then asTaken scope actual (exprEvents scope actual)
        else exprEvents scope actual)
        ++ actualEvents scope consumes.tail actuals

def payloadEvents (scope : Scope) : List Expr → List Event
  | [] => []
  | payload :: payloads =>
      asTaken scope payload (exprEvents scope payload) ++ payloadEvents scope payloads
end

def takenEvents (scope : Scope) (expr : Expr) : List Event :=
  asTaken scope expr (exprEvents context scope expr)

/-- The target of `*e = v` is evaluated before the right-hand side. -/
def targetEvents (scope : Scope) : Expr → List Event
  | .deRefExpr _ ptr => exprEvents context scope ptr
  | _ => []

def storeEvents (scope : Scope) (lhs rhs : Expr) : List Event :=
  match lhs with
  | .varExpr _ name => [access scope (if rhs.isBorrow then .storeBorrow else .store) name]
  | _ => []

def assignEvents (scope : Scope) (lhs rhs : Expr) : List Event :=
  targetEvents context scope lhs ++ takenEvents context scope rhs ++ storeEvents scope lhs rhs

/-! ## Paths of a statement -/

/-- The binders of an arm. A later binder of a name hides an earlier one. -/
def armBinders (byValue : Bool) (patterns : List Pattern) : List Binding :=
  (Pattern.collectAllBindings patterns).map fun decl => ⟨decl, !byValue⟩

def armScope (scope : Scope) (binders : List Binding) : Scope :=
  binders.reverse ++ scope

/-- The paths through a loop whose iterations are `condition * body`. -/
def loopPaths (condition body : Language Event) : Language Event :=
  (condition * body)∗ * condition

theorem exit_loopPaths (condition body : Language Event) :
    condition ≤ loopPaths condition body := by
  have none : 1 ≤ (condition * body)∗ := one_le_kstar
  simpa [loopPaths] using mul_le_mul_left none condition

theorem iterate_loopPaths (condition body : Language Event) :
    condition * body * loopPaths condition body ≤ loopPaths condition body := by
  rw [loopPaths, ← mul_assoc]
  exact mul_le_mul_left mul_kstar_le_kstar condition

mutual
def stmtPaths (scope : Scope) : Stmt → Language Event
  | .assignStmt _ lhs rhs => {assignEvents context scope lhs rhs}
  | .blockStmt _ stmts => stmtsPaths scope stmts
  | .whileStmt _ condition body =>
      loopPaths {exprEvents context scope condition} (stmtPaths scope body)
  | .ifStmt _ condition thenStmt elseStmt =>
      {exprEvents context scope condition}
        * (stmtPaths scope thenStmt + elsePaths scope elseStmt)
  | .outputStmt _ arg | .errorStmt _ arg => {exprEvents context scope arg}
  | .caseStmt _ caseExpr [] => {takenEvents context scope caseExpr}
  | .caseStmt _ caseExpr (arm :: arms) =>
      {takenEvents context scope caseExpr}
        * (armPaths scope (!caseExpr.isDeRef) arm
          + armsPaths scope (!caseExpr.isDeRef) arms)

def stmtsPaths (scope : Scope) : List Stmt → Language Event
  | [] => 1
  | stmt :: stmts => stmtPaths scope stmt * stmtsPaths scope stmts

def elsePaths (scope : Scope) : Option Stmt → Language Event
  | none => 1
  | some stmt => stmtPaths scope stmt

def armPaths (scope : Scope) (byValue : Bool) : CaseArm → Language Event
  | .mk info _ patterns body =>
      {[.enterArm (armBinders byValue patterns)]}
        * stmtPaths (armScope scope (armBinders byValue patterns)) body
        * {[.leaveArm info.id (armBinders byValue patterns)]}

def armsPaths (scope : Scope) (byValue : Bool) : List CaseArm → Language Event
  | [] => 0
  | arm :: arms => armPaths scope byValue arm + armsPaths scope byValue arms
end

/-! ## Every statement has a path -/

theorem stmtsPaths_feasible {stmts : List Stmt}
    (each : ∀ stmt ∈ stmts, ∀ scope, Monitor.Feasible (stmtPaths context scope stmt))
    (scope : Scope) : Monitor.Feasible (stmtsPaths context scope stmts) := by
  induction stmts with
  | nil => exact .one
  | cons stmt stmts induction =>
      exact (each stmt (by simp) scope).mul
        (induction fun other member => each other (by simp [member]))

theorem armPaths_feasible {arm : CaseArm}
    (bodyFeasible : ∀ scope, Monitor.Feasible (stmtPaths context scope arm.getBody))
    (scope : Scope) (byValue : Bool) : Monitor.Feasible (armPaths context scope byValue arm) := by
  cases arm with
  | mk info tag patterns body =>
      exact ((Monitor.Feasible.singleton _).mul (bodyFeasible _)).mul (.singleton _)

theorem stmtPaths_feasible (stmt : Stmt) :
    ∀ scope, Monitor.Feasible (stmtPaths context scope stmt) := by
  induction stmt with
  | assignStmt info lhs rhs => intro scope; exact .singleton _
  | blockStmt info stmts each => exact stmtsPaths_feasible context each
  | whileStmt info condition body _ =>
      intro scope
      exact .mono (exit_loopPaths _ _) (.singleton _)
  | ifStmt info condition thenStmt elseStmt thenFeasible _ =>
      intro scope
      exact (Monitor.Feasible.singleton _).mul (.mono le_self_add (thenFeasible scope))
  | outputStmt info arg | errorStmt info arg => intro scope; exact .singleton _
  | caseStmt info caseExpr arms each =>
      intro scope
      cases arms with
      | nil => exact .singleton _
      | cons arm arms =>
          exact (Monitor.Feasible.singleton _).mul
            (.mono le_self_add (armPaths_feasible context (each arm (by simp)) scope _))

theorem armsPaths_feasible (scope : Scope) (byValue : Bool) (arm : CaseArm)
    (arms : List CaseArm) : Monitor.Feasible
      (armPaths context scope byValue arm + armsPaths context scope byValue arms) :=
  .mono le_self_add (armPaths_feasible context (stmtPaths_feasible context arm.getBody) scope _)

/-! ## Paths of a function -/

/-- The formals and locals of a function. -/
def functionScope (function : Function) : Scope :=
  (function.formals ++ function.declarations).map fun decl => ⟨decl, false⟩

def functionPaths (function : Function) : Language Event :=
  stmtsPaths context (functionScope function) function.stmts
    * {takenEvents context (functionScope function) function.returnArg}

/-! ## Loops -/

section

variable (allowed : Language Event → Language Event → Language Event → Prop)

mutual
/-- A condition on every loop of a statement, given the paths of its condition
and its body and the paths that follow the loop. -/
def stmtLoops (scope : Scope) : Stmt → Language Event → Prop
  | .assignStmt .., _ | .outputStmt .., _ | .errorStmt .., _ => True
  | .blockStmt _ stmts, rest => stmtsLoops scope stmts rest
  | .whileStmt _ condition body, rest =>
      allowed {exprEvents context scope condition} (stmtPaths context scope body) rest
        ∧ stmtLoops scope body
          (loopPaths {exprEvents context scope condition} (stmtPaths context scope body) * rest)
  | .ifStmt _ _ thenStmt elseStmt, rest =>
      stmtLoops scope thenStmt rest ∧ elseLoops scope elseStmt rest
  | .caseStmt _ caseExpr arms, rest => armsLoops scope (!caseExpr.isDeRef) arms rest

def stmtsLoops (scope : Scope) : List Stmt → Language Event → Prop
  | [], _ => True
  | stmt :: stmts, rest =>
      stmtLoops scope stmt (stmtsPaths context scope stmts * rest) ∧ stmtsLoops scope stmts rest

def elseLoops (scope : Scope) : Option Stmt → Language Event → Prop
  | none, _ => True
  | some stmt, rest => stmtLoops scope stmt rest

def armLoops (scope : Scope) (byValue : Bool) : CaseArm → Language Event → Prop
  | .mk info _ patterns body, rest =>
      stmtLoops (armScope scope (armBinders byValue patterns)) body
        ({[.leaveArm info.id (armBinders byValue patterns)]} * rest)

def armsLoops (scope : Scope) (byValue : Bool) : List CaseArm → Language Event → Prop
  | [], _ => True
  | arm :: arms, rest => armLoops scope byValue arm rest ∧ armsLoops scope byValue arms rest
end

def functionLoops (function : Function) : Prop :=
  stmtsLoops context allowed (functionScope function) function.stmts
    {takenEvents context (functionScope function) function.returnArg}

end

/-! ## Occurrences -/

mutual
/-- Every event of a statement, whatever paths it lies on. -/
def stmtEvents (scope : Scope) : Stmt → List Event
  | .assignStmt _ lhs rhs => assignEvents context scope lhs rhs
  | .blockStmt _ stmts => stmtsEvents scope stmts
  | .whileStmt _ condition body =>
      exprEvents context scope condition ++ stmtEvents scope body
  | .ifStmt _ condition thenStmt elseStmt =>
      exprEvents context scope condition
        ++ (stmtEvents scope thenStmt ++ elseEvents scope elseStmt)
  | .outputStmt _ arg | .errorStmt _ arg => exprEvents context scope arg
  | .caseStmt _ caseExpr arms =>
      takenEvents context scope caseExpr ++ armsEvents scope (!caseExpr.isDeRef) arms

def stmtsEvents (scope : Scope) : List Stmt → List Event
  | [] => []
  | stmt :: stmts => stmtEvents scope stmt ++ stmtsEvents scope stmts

def elseEvents (scope : Scope) : Option Stmt → List Event
  | none => []
  | some stmt => stmtEvents scope stmt

def armEvents (scope : Scope) (byValue : Bool) : CaseArm → List Event
  | .mk info _ patterns body =>
      .enterArm (armBinders byValue patterns)
        :: (stmtEvents (armScope scope (armBinders byValue patterns)) body
          ++ [.leaveArm info.id (armBinders byValue patterns)])

def armsEvents (scope : Scope) (byValue : Bool) : List CaseArm → List Event
  | [] => []
  | arm :: arms => armEvents scope byValue arm ++ armsEvents scope byValue arms
end

def functionEvents (function : Function) : List Event :=
  stmtsEvents context (functionScope function) function.stmts
    ++ takenEvents context (functionScope function) function.returnArg

/-! ## The events of a path occur in the code -/

theorem stmtsPaths_within {stmts : List Stmt}
    (each : ∀ stmt ∈ stmts, ∀ scope, Monitor.Throughout (· ∈ stmtEvents context scope stmt)
      (stmtPaths context scope stmt)) (scope : Scope) :
    Monitor.Throughout (· ∈ stmtsEvents context scope stmts)
      (stmtsPaths context scope stmts) := by
  induction stmts with
  | nil => exact .one
  | cons stmt stmts induction =>
      have rest := induction fun other member => each other (by simp [member])
      exact .mul ((each stmt (by simp) scope).mono fun _ => List.mem_append_left _)
        (rest.mono fun _ => List.mem_append_right _)

theorem armPaths_within {byValue : Bool} {arm : CaseArm}
    (bodyWithin : ∀ scope, Monitor.Throughout (· ∈ stmtEvents context scope arm.getBody)
      (stmtPaths context scope arm.getBody)) (scope : Scope) :
    Monitor.Throughout (· ∈ armEvents context scope byValue arm)
      (armPaths context scope byValue arm) := by
  cases arm with
  | mk info tag patterns body =>
      have bodyPart := (bodyWithin (armScope scope (armBinders byValue patterns))).mono
        fun _ member => List.mem_cons_of_mem
          (.enterArm (armBinders byValue patterns)) (List.mem_append_left
            [.leaveArm info.id (armBinders byValue patterns)] member)
      exact .mul (.mul (.singleton (by simp [armEvents])) bodyPart)
        (.singleton (by simp [armEvents]))

theorem armsPaths_within {byValue : Bool} {arms : List CaseArm}
    (each : ∀ arm ∈ arms, ∀ scope, Monitor.Throughout (· ∈ stmtEvents context scope arm.getBody)
      (stmtPaths context scope arm.getBody)) (scope : Scope) :
    Monitor.Throughout (· ∈ armsEvents context scope byValue arms)
      (armsPaths context scope byValue arms) := by
  induction arms with
  | nil => exact .zero
  | cons arm arms induction =>
      have rest := induction fun other member => each other (by simp [member])
      exact .add ((armPaths_within context (each arm (by simp)) scope).mono
        fun _ => List.mem_append_left _) (rest.mono fun _ => List.mem_append_right _)

theorem stmtPaths_within (stmt : Stmt) : ∀ scope,
    Monitor.Throughout (· ∈ stmtEvents context scope stmt) (stmtPaths context scope stmt) := by
  induction stmt with
  | assignStmt info lhs rhs => exact fun _ => .singleton fun _ member => member
  | blockStmt info stmts each => exact stmtsPaths_within context each
  | whileStmt info condition body bodyWithin =>
      intro scope
      have head : Monitor.Throughout (· ∈ stmtEvents context scope (.whileStmt info condition body))
          {exprEvents context scope condition} :=
        .singleton fun _ => List.mem_append_left _
      exact .mul (.kstar (.mul head ((bodyWithin scope).mono fun _ => List.mem_append_right _)))
        head
  | ifStmt info condition thenStmt elseStmt thenWithin elseWithin =>
      intro scope
      refine .mul (.singleton fun _ => List.mem_append_left _) (.add ?_ ?_)
      · exact (thenWithin scope).mono fun _ member =>
          List.mem_append_right _ (List.mem_append_left _ member)
      · cases elseStmt with
        | none => exact .one
        | some stmt =>
            exact (elseWithin stmt rfl scope).mono fun _ member =>
              List.mem_append_right _ (List.mem_append_right _ member)
  | outputStmt info arg | errorStmt info arg => exact fun _ => .singleton fun _ member => member
  | caseStmt info caseExpr arms each =>
      intro scope
      have taken : Monitor.Throughout (· ∈ stmtEvents context scope (.caseStmt info caseExpr arms))
          {takenEvents context scope caseExpr} :=
        .singleton fun _ => List.mem_append_left _
      cases arms with
      | nil => exact taken
      | cons arm arms =>
          exact .mul taken ((armsPaths_within context each scope).mono
            fun _ => List.mem_append_right _)

theorem functionPaths_within (function : Function) :
    Monitor.Throughout (· ∈ functionEvents context function) (functionPaths context function) :=
  .mul ((stmtsPaths_within context (fun stmt _ => stmtPaths_within context stmt) _).mono
    fun _ => List.mem_append_left _) (.singleton fun _ => List.mem_append_right _)

end

/-! ## Replaying a path for one variable -/

section

variable (decl : DeclNode)

/-- The event reads the variable. -/
def reads : Event → Bool
  | .access .use _ (some binding) | .access .take _ (some binding) => binding.decl == decl
  | _ => false

/-- What an event does to the status of the variable. -/
def statusStep (status : Option OwnershipState) : Event → Option OwnershipState
  | .access action _ (some binding) =>
      if binding.decl = decl then
        match action with
        | .use => status
        | .take => some .moved
        | .store => some .owned
        | .storeBorrow => none
      else status
  | .access _ _ none => status
  | .enterArm binders =>
      match binders.find? fun binding => binding.decl == decl with
      | some binding => if binding.isAlias then none else some .owned
      | none => status
  | .leaveArm _ binders =>
      if binders.any fun binding => binding.decl == decl then none else status

/-- The event names the variable. -/
def concerns : Event → Bool
  | .access _ _ (some binding) => binding.decl == decl
  | .access _ _ none => false
  | .enterArm binders | .leaveArm _ binders => binders.any fun binding => binding.decl == decl

/-- The status of the variable after a path that starts with `status`. -/
def statusAfter (status : Option OwnershipState) (path : List Event) :
    Option OwnershipState :=
  path.foldl (statusStep decl) status

@[simp] theorem statusAfter_nil (status : Option OwnershipState) :
    statusAfter decl status [] = status := rfl

@[simp] theorem statusAfter_cons (status : Option OwnershipState) (event : Event)
    (path : List Event) :
    statusAfter decl status (event :: path) =
      statusAfter decl (statusStep decl status event) path := rfl

@[simp] theorem statusAfter_append (status : Option OwnershipState) (first second : List Event) :
    statusAfter decl status (first ++ second) =
      statusAfter decl (statusAfter decl status first) second :=
  List.foldl_append

end

/-- An owned formal holds its argument at the entry. -/
def entryStatus (function : Function) (decl : DeclNode) : Option OwnershipState :=
  if decl ∈ function.formals then some .owned else none

end OwnershipPaths

end Topc
