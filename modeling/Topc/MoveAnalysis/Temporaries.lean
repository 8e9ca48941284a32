import Topc.Foundation.ExactDisposal
import Topc.OwnershipPaths
import Topc.Types.SolvedClasses

/-! # Temporaries

An owned value that a call, an `alloc` or a constructor makes is in no variable
unless it is assigned to one. The traces say where such values are made and
where the code or a callee gets rid of them. -/

open Computability

namespace Topc

namespace Temporaries

open MoveAnalysis (Context)
open Handling (DisposedOnce Spares AllDisposedOnce AllSpare)

abbrev Trace := List (Handling NodeId)

section

variable (types : TypeResults)

/-- The node that makes the value of the expression, if it is an owned temporary. -/
def temporary? (expr : Expr) : Option NodeId :=
  match expr with
  | .funAppExpr .. | .allocExpr .. | .sumCtorExpr .. =>
      if OwnershipClassifier.classifyValue types expr = .own then some expr.info.id else none
  | _ => none

def produce (expr : Expr) : Trace :=
  (temporary? types expr).toList.map .produced

def dispose (expr : Expr) : Trace :=
  (temporary? types expr).toList.map .disposed

end

section

variable (context : Context) (plan : DestructionPlan)

/-! ## Traces of expressions -/

/-- An unbound reference is freed once the dereference has used it. -/
def freed (deref : NodeInfo) (ptr : Expr) : Trace :=
  if deref.id ∈ plan.freeAfterUse then dispose context.types ptr else []

/-- A by-value match takes its scrutinee apart. -/
def takenApart (info : NodeInfo) (caseExpr : Expr) : Trace :=
  if info.id ∈ plan.consumingMatches then dispose context.types caseExpr else []

mutual
/-- Values are handed over where they are evaluated, as variables are moved. -/
def exprTrace : Expr → Trace
  | .numExpr .. | .varExpr .. | .inputExpr .. => []
  | .binaryExpr _ _ left right => exprTrace left ++ exprTrace right
  | .funAppExpr info function actuals =>
      exprTrace function ++ actualsTrace (context.consumes info.id) actuals
        ++ produce context.types (.funAppExpr info function actuals)
  | .allocExpr info initializer =>
      exprTrace initializer ++ produce context.types (.allocExpr info initializer)
  | .borrowExpr _ var => exprTrace var
  | .deRefExpr info ptr => exprTrace ptr ++ freed context plan info ptr
  | .sumCtorExpr info tag args =>
      payloadsTrace args ++ produce context.types (.sumCtorExpr info tag args)

def actualsTrace (consumes : List Bool) : List Expr → Trace
  | [] => []
  | actual :: actuals =>
      exprTrace actual ++ (if consumes.headD false then dispose context.types actual else [])
        ++ actualsTrace consumes.tail actuals

def payloadsTrace : List Expr → Trace
  | [] => []
  | payload :: payloads =>
      exprTrace payload ++ dispose context.types payload ++ payloadsTrace payloads
end

/-- A value that is assigned to a variable is no temporary. -/
def heldTrace (expr : Expr) : Trace :=
  match expr with
  | .funAppExpr info function actuals =>
      exprTrace context plan function ++
        actualsTrace context plan (context.consumes info.id) actuals
  | .allocExpr _ initializer => exprTrace context plan initializer
  | .sumCtorExpr _ _ args => payloadsTrace context plan args
  | _ => exprTrace context plan expr

/-- The target of `*e = v` is evaluated first, and what it was is freed last. -/
def assignTrace (lhs rhs : Expr) : Trace :=
  match lhs with
  | .deRefExpr info ptr =>
      exprTrace context plan ptr ++ exprTrace context plan rhs ++ freed context plan info ptr
  | _ => heldTrace context plan rhs

/-! ## Traces of statements -/

mutual
def stmtTraces : Stmt → Language (Handling NodeId)
  | .assignStmt _ lhs rhs => {assignTrace context plan lhs rhs}
  | .blockStmt _ stmts => stmtsTraces stmts
  | .whileStmt _ condition body =>
      ({exprTrace context plan condition} * stmtTraces body)∗ * {exprTrace context plan condition}
  | .ifStmt _ condition thenStmt elseStmt =>
      {exprTrace context plan condition} * (stmtTraces thenStmt + elseTraces elseStmt)
  | .outputStmt _ arg | .errorStmt _ arg => {exprTrace context plan arg}
  -- Without a matching arm the default block goes on behind the statement.
  | .caseStmt info caseExpr arms =>
      {exprTrace context plan caseExpr ++ takenApart context plan info caseExpr}
        * (1 + armsTraces arms)

def stmtsTraces : List Stmt → Language (Handling NodeId)
  | [] => 1
  | stmt :: stmts => stmtTraces stmt * stmtsTraces stmts

def elseTraces : Option Stmt → Language (Handling NodeId)
  | none => 1
  | some stmt => stmtTraces stmt

def armTraces : CaseArm → Language (Handling NodeId)
  | .mk _ _ _ body => stmtTraces body

def armsTraces : List CaseArm → Language (Handling NodeId)
  | [] => 0
  | arm :: arms => armTraces arm + armsTraces arms
end

/-- The returned value is the caller's. -/
def functionTraces (function : Function) : Language (Handling NodeId) :=
  stmtsTraces context plan function.stmts
    * {exprTrace context plan function.returnArg ++ dispose context.types function.returnArg}

/-! ## Where temporaries stand -/

/-- Every temporary among the actuals is at a position that the call consumes. -/
def ActualsConsumed (consumes : List Bool) : List Expr → Prop
  | [] => True
  | actual :: actuals =>
      (temporary? context.types actual ≠ none → consumes.headD false = true) ∧
        ActualsConsumed consumes.tail actuals

/-- The node does not lose a temporary: it compares none, a call consumes those
it is given, and no recursive cell is made from one. -/
def HandsOn : AstNode → Prop
  | .expr (.binaryExpr _ .eq left right) | .expr (.binaryExpr _ .neq left right) =>
      temporary? context.types left = none ∧ temporary? context.types right = none
  | .expr (.funAppExpr info _ actuals) => ActualsConsumed context (context.consumes info.id) actuals
  | .expr (.allocExpr info initializer) =>
      (context.types.ofExpr (.allocExpr info initializer)).isMu = true →
        temporary? context.types initializer = none
  | _ => True

instance actualsConsumedDecidable : (consumes : List Bool) → (actuals : List Expr) →
    Decidable (ActualsConsumed context consumes actuals)
  | _, [] => isTrue trivial
  | consumes, _ :: actuals =>
      have := actualsConsumedDecidable consumes.tail actuals
      inferInstanceAs (Decidable (_ ∧ _))

instance handsOnDecidable : DecidablePred (HandsOn context)
  | .expr (.binaryExpr _ .eq _ _) | .expr (.binaryExpr _ .neq _ _) =>
      inferInstanceAs (Decidable (_ ∧ _))
  | .expr (.binaryExpr _ .add _ _) | .expr (.binaryExpr _ .sub _ _)
  | .expr (.binaryExpr _ .mul _ _) | .expr (.binaryExpr _ .div _ _)
  | .expr (.binaryExpr _ .gt _ _) => isTrue trivial
  | .expr (.funAppExpr info _ actuals) =>
      actualsConsumedDecidable context (context.consumes info.id) actuals
  | .expr (.allocExpr _ _) => inferInstanceAs (Decidable (_ → _))
  | .expr (.numExpr ..) | .expr (.varExpr ..) | .expr (.inputExpr ..) | .expr (.borrowExpr ..)
  | .expr (.deRefExpr ..) | .expr (.sumCtorExpr ..) | .stmt _ => isTrue trivial

/-- What the checks leave of the positions of temporaries, and what the plan has for them. -/
def Checked : AstNode → Prop
  | .expr (.binaryExpr _ op left right) => op ≠ .eq → op ≠ .neq →
      temporary? context.types left = none ∧ temporary? context.types right = none
  | .expr (.funAppExpr _ function _) => temporary? context.types function = none
  | .expr (.allocExpr info initializer) => temporary? context.types initializer ≠ none →
      (context.types.ofExpr (.allocExpr info initializer)).isMu = true
  | .expr (.borrowExpr _ var) => temporary? context.types var = none
  | .expr (.deRefExpr info ptr) =>
      temporary? context.types ptr ≠ none → info.id ∈ plan.freeAfterUse
  | .stmt (.assignStmt _ (.deRefExpr _ ptr) rhs) =>
      temporary? context.types rhs = none ∧ ptr.info.id ∉ exprIds rhs.postOrder
  | .stmt (.assignStmt _ lhs _) => CheckAssignable.isAssignable lhs = true
  | .stmt (.whileStmt _ condition _) | .stmt (.ifStmt _ condition _ _) =>
      temporary? context.types condition = none
  | .stmt (.outputStmt _ arg) | .stmt (.errorStmt _ arg) => temporary? context.types arg = none
  | .stmt (.caseStmt info caseExpr _) =>
      temporary? context.types caseExpr ≠ none → info.id ∈ plan.consumingMatches
  | _ => True

end

end Temporaries

end Topc
