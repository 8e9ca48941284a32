import Topc.CallGraph
import Topc.Types.Closure
import Topc.Weeding

/-! # Type constraints

Equations between the types of syntax nodes. Nodes are visited after their
children, and a function after its body. -/

namespace Topc

abbrev TypeConstraint := TopType × TopType

/-- The type variable of a declaration. -/
def DeclNode.typeVar (decl : DeclNode) : TopType :=
  .var (.plain decl.id)

/-- The sum type of a declaration: its payloads are the types of the slots. -/
def SumTypeDecl.sumType (owner : SumTypeDecl) : TopType :=
  .sumType owner.name (owner.variants.map fun variant => (variant.tag, variant.params.length))
    (owner.variants.flatMap fun variant => variant.params.map DeclNode.typeVar)

namespace TypeConstraintVisitor

section

variable (symbols : SymbolTable)

/-- The type variable of an expression: that of the declaration for a name. -/
def astToVar (scope : DeclNode) (expr : Expr) : TopType :=
  .var (.plain (symbols.getCanonical scope expr))

/-! ## Patterns -/

mutual
def constrainPattern (slotType : TopType) : Pattern → List TypeConstraint
  | .var _ decl => [(decl.typeVar, slotType)]
  | .wildcard _ => []
  | .ctor _ tag subPatterns =>
      match symbols.getConstructorOwner tag, symbols.getConstructor tag with
      | some owner, some variant =>
          (slotType, owner.sumType) :: constrainPatterns variant.params subPatterns
      | _, _ => []

def constrainPatterns : List DeclNode → List Pattern → List TypeConstraint
  | param :: params, pattern :: patterns =>
      constrainPattern param.typeVar pattern ++ constrainPatterns params patterns
  | _, _ => []
end

def constrainArm (arm : CaseArm) : List TypeConstraint :=
  match symbols.getConstructor arm.getTag with
  | none => []
  | some variant => constrainPatterns symbols variant.params arm.getPatterns

/-! ## Nodes -/

variable (scope : DeclNode)

def endVisitBinary (info : NodeInfo) (op : BinaryOp) (left right : Expr) : List TypeConstraint :=
  (.var (.plain info.id), .int) ::
    match op with
    | .eq | .neq => [(astToVar symbols scope left, astToVar symbols scope right)]
    | .add | .sub | .mul | .div | .gt =>
        [(astToVar symbols scope left, .int), (astToVar symbols scope right, .int)]

def endVisitFunApp (info : NodeInfo) (function : Expr) (actuals : List Expr) : TypeConstraint :=
  (astToVar symbols scope function,
    .function (actuals.map (astToVar symbols scope)) (.var (.plain info.id)))

def endVisitSumCtor (info : NodeInfo) (tag : String) (args : List Expr) : List TypeConstraint :=
  match symbols.getConstructor tag, symbols.getConstructorOwner tag with
  | some variant, some owner =>
      (.var (.plain info.id), owner.sumType) ::
        ((args.zip variant.params).map fun (arg, param) => (astToVar symbols scope arg, param.typeVar))
  | _, _ => []

/-- A fresh mode variable is named by the node that it is made for. -/
def endVisitAssign (info : NodeInfo) (lhs rhs : Expr) : TypeConstraint :=
  match lhs with
  | .deRefExpr _ ptr =>
      (.reference (.modeVar info.id) (astToVar symbols scope rhs), astToVar symbols scope ptr)
  | _ => (astToVar symbols scope lhs, astToVar symbols scope rhs)

def endVisitCase (caseExpr : Expr) (arms : List CaseArm) : List TypeConstraint :=
  match arms with
  | [] => []
  | first :: _ =>
      match symbols.getConstructorOwner first.getTag with
      | none => []
      | some owner =>
          (astToVar symbols scope caseExpr, owner.sumType) :: arms.flatMap (constrainArm symbols)

/-- The constraints of one node. -/
def endVisit : AstNode → List TypeConstraint
  | .expr (.numExpr info _) | .expr (.inputExpr info) => [(.var (.plain info.id), .int)]
  | .expr (.varExpr ..) => []
  | .expr (.binaryExpr info op left right) => endVisitBinary symbols scope info op left right
  | .expr (.funAppExpr info function actuals) => [endVisitFunApp symbols scope info function actuals]
  | .expr (.allocExpr info initializer) =>
      [(.var (.plain info.id), .owningRef (astToVar symbols scope initializer))]
  | .expr (.borrowExpr info var) =>
      [(.var (.plain info.id), .borrowRef (astToVar symbols scope var))]
  | .expr (.deRefExpr info ptr) =>
      [(.reference (.modeVar info.id) (.var (.plain info.id)), astToVar symbols scope ptr)]
  | .expr (.sumCtorExpr info tag args) => endVisitSumCtor symbols scope info tag args
  | .stmt (.assignStmt info lhs rhs) => [endVisitAssign symbols scope info lhs rhs]
  | .stmt (.whileStmt _ condition _) | .stmt (.ifStmt _ condition _ _) =>
      [(astToVar symbols scope condition, .int)]
  | .stmt (.outputStmt _ arg) | .stmt (.errorStmt _ arg) => [(astToVar symbols scope arg, .int)]
  | .stmt (.blockStmt ..) => []
  | .stmt (.caseStmt _ caseExpr arms) => endVisitCase symbols scope caseExpr arms

end

/-! ## Functions -/

section

variable (symbols : SymbolTable)

/-- The formals and the result of `main` are integers. -/
def endVisitFunction (function : Function) : List TypeConstraint :=
  let ret := astToVar symbols function.decl function.returnArg
  let signature := (function.decl.typeVar, .function (function.formals.map DeclNode.typeVar) ret)
  if function.getName = "main" then
    (function.formals.map fun formal => (formal.typeVar, .int)) ++ [(ret, .int), signature]
  else [signature]

def getCollectedConstraints (function : Function) : List TypeConstraint :=
  function.postOrder.flatMap (endVisit symbols function.decl) ++ endVisitFunction symbols function

end

end TypeConstraintVisitor

/-! ## Calls of generalised functions -/

namespace PolyTypeConstraintVisitor

open TypeConstraintVisitor (astToVar endVisitFunApp)

section

variable (symbols : SymbolTable) (callGraph : CallGraph) (unifier : TermUnionFind TopType)
  (scope : DeclNode)

/-- The callee is named directly and the name is a function's. -/
def isDirectNamedCall : Expr → Bool
  | .varExpr _ name => (symbols.getFunction name).isSome
  | _ => false

/-- The constraint for one function a call may reach: on a copy of the type a
generalised function has so far, else on the type of the callee. -/
def constrainCalled (info : NodeInfo) (function : Expr) (actuals : List Expr) (called : DeclNode) :
    Except CompileError TypeConstraint :=
  if symbols.getPoly called.name && isDirectNamedCall symbols function then
    match symbols.getFunction called.name with
    | none => .error (.internal "no declaration of a called function")
    | some decl => do
        let genericType ← TopTypeClosure.close unifier decl.typeVar
        if TypeVars.collect genericType ≠ [] ∧ containsTopMu genericType = false then
          return (FreshAlphaCopier.copy genericType info.id,
            .function (actuals.map (astToVar symbols scope)) (.var (.plain info.id)))
        else
          return endVisitFunApp symbols scope info function actuals
  else
    .ok (endVisitFunApp symbols scope info function actuals)

def endVisitPolyFunApp (info : NodeInfo) (function : Expr) (actuals : List Expr) :
    Except CompileError (List TypeConstraint) :=
  match callGraph.getCalledFuns info.id with
  | [] => .ok [endVisitFunApp symbols scope info function actuals]
  | calledFuns => calledFuns.mapM (constrainCalled symbols unifier scope info function actuals)

def endVisit : AstNode → Except CompileError (List TypeConstraint)
  | .expr (.funAppExpr info function actuals) =>
      endVisitPolyFunApp symbols callGraph unifier scope info function actuals
  | node => .ok (TypeConstraintVisitor.endVisit symbols scope node)

end

def getCollectedConstraints (symbols : SymbolTable) (callGraph : CallGraph)
    (unifier : TermUnionFind TopType) (function : Function) :
    Except CompileError (List TypeConstraint) := do
  let nodes ← function.postOrder.mapM (endVisit symbols callGraph unifier function.decl)
  return nodes.flatten ++ TypeConstraintVisitor.endVisitFunction symbols function

end PolyTypeConstraintVisitor

end Topc
