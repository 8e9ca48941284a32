import Mathlib.Data.List.Basic
import Mathlib.Data.List.Dedup
import Std.Data.ExtTreeMap
import Std.Data.ExtTreeSet

/-! # Abstract syntax of TOP programs

The tree the front end builds. Later passes use the addresses of tree nodes as
map keys, so every node that is used as a key carries its address as an `id`. -/

namespace Topc

/-- The address of a syntax node. -/
abbrev NodeId := Nat

/-- The identity of a node and where it starts in the source. -/
structure NodeInfo where
  id : NodeId
  line : Nat := 0
  column : Nat := 0
deriving DecidableEq, Repr

/-- A declared name: a function, formal, local, arm binding or payload slot. -/
structure DeclNode where
  id : NodeId
  name : String
  line : Nat := 0
  column : Nat := 0
deriving DecidableEq, Repr

namespace DeclNode

/-- Declarations are kept in address order, as a map keyed by pointers is. -/
abbrev addressOrder : DeclNode → DeclNode → Ordering :=
  compareLex (compareOn DeclNode.id) (compareLex (compareOn DeclNode.name)
    (compareLex (compareOn DeclNode.line) (compareOn DeclNode.column)))

instance : Ord DeclNode := ⟨addressOrder⟩

instance : Std.TransOrd DeclNode := inferInstanceAs (Std.TransCmp addressOrder)

instance : Std.LawfulEqOrd DeclNode where
  eq_of_compare {left right} equal := by
    have parts : compare left.id right.id = .eq ∧
        compare left.name right.name = .eq ∧
        compare left.line right.line = .eq ∧
        compare left.column right.column = .eq := by
      simpa [compare, compareLex, compareOn, Ordering.then_eq_eq] using equal
    cases left
    cases right
    simp_all

end DeclNode

/-! ## Expressions -/

inductive BinaryOp
  | add | sub | mul | div | gt | eq | neq
deriving DecidableEq, Repr

def BinaryOp.getOp : BinaryOp → String
  | .add => "+"
  | .sub => "-"
  | .mul => "*"
  | .div => "/"
  | .gt => ">"
  | .eq => "=="
  | .neq => "!="

inductive Expr where
  | numExpr (info : NodeInfo) (value : Int)
  | varExpr (info : NodeInfo) (name : String)
  | binaryExpr (info : NodeInfo) (op : BinaryOp) (left right : Expr)
  | inputExpr (info : NodeInfo)
  | funAppExpr (info : NodeInfo) (function : Expr) (actuals : List Expr)
  | allocExpr (info : NodeInfo) (initializer : Expr)
  | borrowExpr (info : NodeInfo) (var : Expr)
  | deRefExpr (info : NodeInfo) (ptr : Expr)
  | sumCtorExpr (info : NodeInfo) (tag : String) (args : List Expr)
deriving Repr

namespace Expr

/-- Structural induction with one hypothesis for each actual or payload. -/
@[elab_as_elim, induction_eliminator]
theorem induction {motive : Expr → Prop}
    (numExpr : ∀ info value, motive (.numExpr info value))
    (varExpr : ∀ info name, motive (.varExpr info name))
    (binaryExpr : ∀ info op left right,
      motive left → motive right → motive (.binaryExpr info op left right))
    (inputExpr : ∀ info, motive (.inputExpr info))
    (funAppExpr : ∀ info function actuals, motive function →
      (∀ actual ∈ actuals, motive actual) → motive (.funAppExpr info function actuals))
    (allocExpr : ∀ info initializer, motive initializer → motive (.allocExpr info initializer))
    (borrowExpr : ∀ info var, motive var → motive (.borrowExpr info var))
    (deRefExpr : ∀ info ptr, motive ptr → motive (.deRefExpr info ptr))
    (sumCtorExpr : ∀ info tag args,
      (∀ arg ∈ args, motive arg) → motive (.sumCtorExpr info tag args))
    (expr : Expr) : motive expr :=
  Expr.rec (motive_1 := motive) (motive_2 := fun exprs => ∀ expr ∈ exprs, motive expr)
    numExpr varExpr binaryExpr inputExpr funAppExpr allocExpr borrowExpr deRefExpr sumCtorExpr
    (by simp)
    (fun head tail headHolds tailHolds => by simpa using ⟨headHolds, tailHolds⟩)
    expr

def info : Expr → NodeInfo
  | .numExpr info _ | .varExpr info _ | .binaryExpr info _ _ _ | .inputExpr info
  | .funAppExpr info _ _ | .allocExpr info _ | .borrowExpr info _ | .deRefExpr info _
  | .sumCtorExpr info _ _ => info

def getLine (expr : Expr) : Nat := expr.info.line

def isBorrow : Expr → Bool
  | .borrowExpr .. => true
  | _ => false

def isDeRef : Expr → Bool
  | .deRefExpr .. => true
  | _ => false

mutual
/-- The text of an expression in diagnostics. -/
def print : Expr → String
  | .numExpr _ value => toString value
  | .varExpr _ name => name
  | .binaryExpr _ op left right => "(" ++ left.print ++ op.getOp ++ right.print ++ ")"
  | .inputExpr _ => "input"
  | .funAppExpr _ function actuals =>
      function.print ++ "(" ++ ", ".intercalate (printAll actuals) ++ ")"
  | .allocExpr _ initializer => "alloc " ++ initializer.print
  | .borrowExpr _ var => "&" ++ var.print
  | .deRefExpr _ ptr => "(*" ++ ptr.print ++ ")"
  | .sumCtorExpr _ tag [] => tag
  | .sumCtorExpr _ tag (arg :: args) =>
      tag ++ "(" ++ ", ".intercalate (arg.print :: printAll args) ++ ")"

def printAll : List Expr → List String
  | [] => []
  | expr :: exprs => expr.print :: printAll exprs
end

end Expr

/-! ## Patterns and statements -/

inductive Pattern where
  | var (info : NodeInfo) (decl : DeclNode)
  | wildcard (info : NodeInfo)
  | ctor (info : NodeInfo) (tag : String) (subPatterns : List Pattern)
deriving Repr

namespace Pattern

mutual
/-- The declarations of the variable patterns, left to right. -/
def collectBindings : Pattern → List DeclNode
  | .var _ decl => [decl]
  | .wildcard _ => []
  | .ctor _ _ subPatterns => collectAllBindings subPatterns

def collectAllBindings : List Pattern → List DeclNode
  | [] => []
  | pattern :: patterns => pattern.collectBindings ++ collectAllBindings patterns
end

end Pattern

mutual
/-- Statements. A `return` is not one of them: the grammar allows it only as
the last line of a function. -/
inductive Stmt where
  | assignStmt (info : NodeInfo) (lhs rhs : Expr)
  | blockStmt (info : NodeInfo) (stmts : List Stmt)
  | whileStmt (info : NodeInfo) (condition : Expr) (body : Stmt)
  | ifStmt (info : NodeInfo) (condition : Expr) (thenStmt : Stmt) (elseStmt : Option Stmt)
  | outputStmt (info : NodeInfo) (arg : Expr)
  | errorStmt (info : NodeInfo) (arg : Expr)
  | caseStmt (info : NodeInfo) (caseExpr : Expr) (arms : List CaseArm)

inductive CaseArm where
  | mk (info : NodeInfo) (tag : String) (patterns : List Pattern) (body : Stmt)
end

deriving instance Repr for Stmt
deriving instance Repr for CaseArm

namespace CaseArm

def info : CaseArm → NodeInfo
  | .mk info _ _ _ => info

def getTag : CaseArm → String
  | .mk _ tag _ _ => tag

def getPatterns : CaseArm → List Pattern
  | .mk _ _ patterns _ => patterns

def getBody : CaseArm → Stmt
  | .mk _ _ _ body => body

def getLine (arm : CaseArm) : Nat := arm.info.line

/-- The variables an arm binds, in pattern order. -/
def getBindings (arm : CaseArm) : List DeclNode :=
  Pattern.collectAllBindings arm.getPatterns

end CaseArm

namespace Stmt

/-- Structural induction with one hypothesis for each nested statement. -/
@[elab_as_elim, induction_eliminator]
theorem induction {motive : Stmt → Prop}
    (assignStmt : ∀ info lhs rhs, motive (.assignStmt info lhs rhs))
    (blockStmt : ∀ info stmts, (∀ stmt ∈ stmts, motive stmt) → motive (.blockStmt info stmts))
    (whileStmt : ∀ info condition body, motive body → motive (.whileStmt info condition body))
    (ifStmt : ∀ info condition thenStmt elseStmt, motive thenStmt →
      (∀ stmt ∈ elseStmt, motive stmt) → motive (.ifStmt info condition thenStmt elseStmt))
    (outputStmt : ∀ info arg, motive (.outputStmt info arg))
    (errorStmt : ∀ info arg, motive (.errorStmt info arg))
    (caseStmt : ∀ info caseExpr arms, (∀ arm ∈ arms, motive arm.getBody) →
      motive (.caseStmt info caseExpr arms))
    (stmt : Stmt) : motive stmt :=
  Stmt.rec (motive_1 := motive) (motive_2 := fun arm => motive arm.getBody)
    (motive_3 := fun stmts => ∀ stmt ∈ stmts, motive stmt)
    (motive_4 := fun stmt? => ∀ stmt ∈ stmt?, motive stmt)
    (motive_5 := fun arms => ∀ arm ∈ arms, motive arm.getBody)
    assignStmt blockStmt whileStmt ifStmt outputStmt errorStmt caseStmt
    (fun _ _ _ _ bodyHolds => bodyHolds)
    (by simp)
    (fun head tail headHolds tailHolds => by simpa using ⟨headHolds, tailHolds⟩)
    (by simp)
    (fun stmt holds => by simpa using holds)
    (by simp)
    (fun head tail headHolds tailHolds => by simpa using ⟨headHolds, tailHolds⟩)
    stmt

end Stmt

mutual
/-- The case arms inside a statement. -/
def Stmt.allArms : Stmt → List CaseArm
  | .assignStmt .. | .outputStmt .. | .errorStmt .. => []
  | .blockStmt _ stmts => Stmt.allArmsOf stmts
  | .whileStmt _ _ body => body.allArms
  | .ifStmt _ _ thenStmt elseStmt => thenStmt.allArms ++ Stmt.elseArms elseStmt
  | .caseStmt _ _ arms => CaseArm.allArmsOf arms

def Stmt.allArmsOf : List Stmt → List CaseArm
  | [] => []
  | stmt :: stmts => stmt.allArms ++ Stmt.allArmsOf stmts

def Stmt.elseArms : Option Stmt → List CaseArm
  | none => []
  | some stmt => stmt.allArms

def CaseArm.allArms : CaseArm → List CaseArm
  | .mk info tag patterns body => .mk info tag patterns body :: body.allArms

def CaseArm.allArmsOf : List CaseArm → List CaseArm
  | [] => []
  | arm :: arms => arm.allArms ++ CaseArm.allArmsOf arms
end

/-! ## Programs -/

/-- One constructor of a sum type declaration and its payload slots. -/
structure SumVariant where
  tag : String
  params : List DeclNode
  line : Nat := 0
deriving Repr

structure SumTypeDecl where
  name : String
  variants : List SumVariant
  line : Nat := 0
deriving Repr

structure Function where
  decl : DeclNode
  formals : List DeclNode
  declarations : List DeclNode
  stmts : List Stmt
  returnInfo : NodeInfo
  returnArg : Expr
deriving Repr

structure Program where
  typedecls : List SumTypeDecl
  functions : List Function
deriving Repr

def Function.getName (function : Function) : String := function.decl.name

def Function.allArms (function : Function) : List CaseArm :=
  Stmt.allArmsOf function.stmts

/-- The variables of a function: formals, locals and the binders of its arms. -/
def Function.variables (function : Function) : List DeclNode :=
  function.formals ++ function.declarations ++ function.allArms.flatMap CaseArm.getBindings

/-- The nodes of a syntax tree are objects of their own. -/
structure Program.NodesDistinct (program : Program) : Prop where
  functions : (program.functions.map Function.decl).Nodup
  variablesDistinct : ∀ function ∈ program.functions, function.variables.Nodup
  arms : (program.functions.flatMap fun function =>
    function.allArms.map fun arm => arm.info.id).Nodup

end Topc
