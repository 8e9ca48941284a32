import Topc.CodeGen.Generate

/-! # The meaning of programs

What a program does, by the structure of its statements. Names stand for the slots of
the bindings in scope, and a case statement takes the first of its arms that matches. -/

namespace Topc

open BasicBlocks CodeGenVisitor

/-- An activation of a function, with what calls do. A loop has as many iterations as
there is fuel. -/
structure Activation where
  context : CodeGenContext
  platform : Platform
  functionCount : Nat
  call : Callee → List Word → Runtime.Run Word
  fuel : Nat
  slotAddress : NodeId → Word

namespace Activation

variable (activation : Activation)

def freeIf (condition : Bool) (address : Word) : Runtime.Run Unit :=
  if condition then do
    let _ ← Runtime.free address
  else pure ()

/-! ## Destruction -/

/-- A value that is not owned stays. -/
def destroyValue (value : Word) (type : TopType) : Runtime.Run Unit :=
  match OwnershipClassifier.classifyType type with
  | .copy => pure ()
  | .own =>
      match asSumType type with
      | some ctors => do
          let _ ← activation.call (.sumDestroy (sumOwner activation.context ctors)) [value]
      | none => do
          let _ ← Runtime.free value

def destroyFields (box : Word) : List (Nat × DeclNode) → Runtime.Run Unit
  | [] => pure ()
  | (index, param) :: fields => do
      let value ← Runtime.load (Memory.field box (index + 1))
      activation.destroyValue value (activation.context.types.ofDecl param)
      destroyFields box fields

/-- A value of a sum type goes with the payloads it owns. -/
def destroyBox (owner : Option SumTypeDecl) (box tag : Word) : Runtime.Run Unit := do
  Run.select ((ownedVariants activation.context owner).map fun variant =>
    (variant.1, activation.destroyFields box variant.2)) tag ()
  let _ ← Runtime.free box

def destroySum (owner : Option SumTypeDecl) (box : Word) : Runtime.Run Word := do
  let tag ← Runtime.load box
  activation.destroyBox owner box tag
  return 0

def destroyVariable (scope : NamedValues) (decl : DeclNode) : Runtime.Run Unit :=
  match scope[decl.name]? with
  | none => Run.stuck
  | some slot => do
      let value ← Runtime.load (activation.slotAddress slot.id)
      activation.destroyValue value (activation.context.types.ofDecl decl)

def destroyVariables (scope : NamedValues) : List DeclNode → Runtime.Run Unit
  | [] => pure ()
  | decl :: decls => do
      activation.destroyVariable scope decl
      destroyVariables scope decls

/-! ## Expressions -/

/-- Without the check an undefined division has no outcome. -/
def divide (left right : Word) (line : Nat) : Runtime.Run Word :=
  if activation.context.rules.enabled "division-check" then
    if right = 0 then Runtime.topDivisionError (BitVec.ofNat 64 line) 0
    else if left = BitVec.intMin 64 ∧ right = -1 then
      Runtime.topDivisionError (BitVec.ofNat 64 line) 1
    else return left.sdiv right
  else BinaryInstruction.sdiv.run left right

def evalBinary (op : BinaryOp) (line : Nat) (left right : Word) : Runtime.Run Word :=
  match op with
  | .add => return left + right
  | .sub => return left - right
  | .mul => return left * right
  | .div => activation.divide left right line
  | .gt => return Word.ofBool (right.slt left)
  | .eq => return Word.ofBool (left = right)
  | .neq => return Word.ofBool (left ≠ right)

/-- A function is known by its index. -/
def function (index : Word) : Runtime.Run Word :=
  if index.toNat < activation.functionCount then return index else Run.stuck

def storePayloads (box : Word) : Nat → List Word → Runtime.Run Unit
  | _, [] => pure ()
  | offset, value :: values => do
      let _ ← Runtime.store value (Memory.field box offset)
      storePayloads box (offset + 1) values

mutual
def evalExpr (scope : NamedValues) : Expr → Runtime.Run Word
  | .numExpr _ value => return BitVec.ofInt 64 value
  | .varExpr _ name =>
      match scope[name]? with
      | some decl => Runtime.load (activation.slotAddress decl.id)
      | none =>
          match activation.context.functionIndex[name]? with
          | some index => return BitVec.ofNat 64 index
          | none => Run.stuck
  | .binaryExpr info op left right => do
      let left ← evalExpr scope left
      let right ← evalExpr scope right
      activation.evalBinary op info.line left right
  | .inputExpr _ => Runtime.topInput
  | .funAppExpr _ function actuals => do
      let index ← evalExpr scope function
      let pointer ← activation.function index
      let args ← evalExprs scope actuals
      activation.call (.function pointer) args
  | .allocExpr _ initializer => do
      let value ← evalExpr scope initializer
      let cell ← Runtime.calloc activation.platform 1
      let _ ← Runtime.store value cell
      return cell
  | .borrowExpr _ var => evalAddress scope var
  | .deRefExpr info ptr => do
      let address ← evalExpr scope ptr
      let value ← Runtime.load address
      freeIf (info.id ∈ activation.context.plan.freeAfterUse) address
      return value
  | .sumCtorExpr _ tag args => do
      let values ← evalExprs scope args
      let box ← Runtime.calloc activation.platform
        (1 + (CaseCodeGen.innerParams activation.context.symbols tag).length)
      let _ ← Runtime.store
        (BitVec.ofNat 64 (CaseCodeGen.innerTagIdx activation.context.symbols tag)) box
      storePayloads box 1 values
      return box

def evalExprs (scope : NamedValues) : List Expr → Runtime.Run (List Word)
  | [] => return []
  | expr :: exprs => do
      let value ← evalExpr scope expr
      let values ← evalExprs scope exprs
      return value :: values

/-- What is assigned to and borrowed: a variable in its slot, or a referent. -/
def evalAddress (scope : NamedValues) : Expr → Runtime.Run Word
  | .varExpr _ name =>
      match scope[name]? with
      | some decl => return activation.slotAddress decl.id
      | none => Run.stuck
  | .deRefExpr _ ptr => evalExpr scope ptr
  | _ => Run.stuck
end

-- As for the code, the equations are derived once.
attribute [grind =] evalExpr evalExprs evalAddress

/-! ## Patterns -/

mutual
def matchPattern (base : Word) (offset : Nat) : Pattern → Runtime.Run Bool
  | .var .. | .wildcard _ => return true
  | .ctor _ tag subPatterns => do
      let inner ← Runtime.load (Memory.field base offset)
      let innerTag ← Runtime.load inner
      if innerTag = BitVec.ofNat 64 (CaseCodeGen.innerTagIdx activation.context.symbols tag) then
        matchPatterns inner 1 subPatterns
      else return false

def matchPatterns (base : Word) (offset : Nat) : List Pattern → Runtime.Run Bool
  | [] => return true
  | pattern :: patterns => do
      if ← matchPattern base offset pattern then matchPatterns base (offset + 1) patterns
      else return false
end

attribute [grind =] matchPattern matchPatterns

mutual
/-- Take a value apart. A match by value destroys what the pattern discards. -/
def bindPattern (consuming : Bool) (base : Word) (offset : Nat) (paramDecl : Option DeclNode) :
    Pattern → Runtime.Run Unit
  | .var _ decl => do
      let value ← Runtime.load (Memory.field base offset)
      let _ ← Runtime.store value (activation.slotAddress decl.id)
  | .wildcard info => do
      let value ← Runtime.load (Memory.field base offset)
      match paramDecl with
      | some param =>
          if info.id ∈ activation.context.plan.discardedPayloads then
            activation.destroyValue value (activation.context.types.ofDecl param)
      | none => pure ()
  | .ctor _ tag subPatterns => do
      let inner ← Runtime.load (Memory.field base offset)
      bindPatterns consuming inner 1 (CaseCodeGen.innerParams activation.context.symbols tag)
        subPatterns
      freeIf consuming inner

def bindPatterns (consuming : Bool) (base : Word) (offset : Nat) (params : List DeclNode) :
    List Pattern → Runtime.Run Unit
  | [] => pure ()
  | pattern :: patterns => do
      bindPattern consuming base offset params.head? pattern
      bindPatterns consuming base (offset + 1) params.tail patterns
end

attribute [grind =] bindPattern bindPatterns

/-! ## Statements -/

/-- The tag of the values of a constructor. -/
def tagWord (owner : Option SumTypeDecl) (name : String) : Word :=
  BitVec.ofNat 64 (CaseCodeGen.variantIndex owner name)

/-- Run an arm of the constructor of the value, if its patterns match the payloads. -/
def evalArm (owner : Option SumTypeDecl) (consuming : Bool) (box : Word)
    (arm : CaseArm × Runtime.Run Unit) : Runtime.Run Bool := do
  if ← activation.matchPatterns box 1 arm.1.getPatterns then
    activation.bindPatterns consuming box 1 (CaseCodeGen.variantParams owner arm.1.getTag)
      arm.1.getPatterns
    arm.2
    return true
  else return false

/-- The first arm that matches, if there is one. -/
def evalArms (owner : Option SumTypeDecl) (consuming : Bool) (box tag : Word) :
    List (CaseArm × Runtime.Run Unit) → Runtime.Run Bool
  | [] => return false
  | arm :: arms => do
      let passed ← if tagWord owner arm.1.getTag = tag then
          activation.evalArm owner consuming box arm
        else pure false
      if passed then return true
      else evalArms owner consuming box tag arms

def evalCase (owner : Option SumTypeDecl) (consuming : Bool) (box : Word)
    (arms : List (CaseArm × Runtime.Run Unit)) : Runtime.Run Unit := do
  let tag ← Runtime.load box
  let _ ← activation.evalArms owner consuming box tag arms
  freeIf consuming box

mutual
def evalStmt (scope : NamedValues) : Stmt → Runtime.Run Unit
  | .assignStmt _ lhs rhs => do
      let address ← activation.evalAddress scope lhs
      let value ← activation.evalExpr scope rhs
      let _ ← Runtime.store value address
      freeIf (lhs.isDeRef && decide (lhs.info.id ∈ activation.context.plan.freeAfterUse)) address
  | .blockStmt _ stmts => evalStmts scope stmts
  | .whileStmt _ condition body =>
      Run.whileLoop (do return decide ((← activation.evalExpr scope condition) ≠ 0))
        (evalStmt scope body) activation.fuel
  | .ifStmt _ condition thenStmt elseStmt => do
      if (← activation.evalExpr scope condition) ≠ 0 then evalStmt scope thenStmt
      else evalElse scope elseStmt
  | .outputStmt _ arg => do
      let _ ← Runtime.topOutput (← activation.evalExpr scope arg)
  | .errorStmt _ arg => do
      let _ ← Runtime.topError (← activation.evalExpr scope arg)
  | .caseStmt info caseExpr arms => do
      activation.evalCase (CaseCodeGen.ownerDecl activation.context.symbols arms)
        (CaseCodeGen.isConsuming activation.context.plan info)
        (← activation.evalExpr scope caseExpr) (evalBodies scope arms)

def evalStmts (scope : NamedValues) : List Stmt → Runtime.Run Unit
  | [] => pure ()
  | stmt :: stmts => do
      evalStmt scope stmt
      evalStmts scope stmts

def evalElse (scope : NamedValues) : Option Stmt → Runtime.Run Unit
  | none => pure ()
  | some stmt => evalStmt scope stmt

/-- The body of an arm in the scope of its binders, and what is destroyed at its end. -/
def evalBody (scope : NamedValues) : CaseArm → Runtime.Run Unit
  | .mk info _ patterns body => do
      let inside := (Pattern.collectAllBindings patterns).foldl allocate scope
      evalStmt inside body
      activation.destroyVariables inside (armEnd activation.context info.id)

def evalBodies (scope : NamedValues) : List CaseArm → List (CaseArm × Runtime.Run Unit)
  | [] => []
  | arm :: arms => (arm, evalBody scope arm) :: evalBodies scope arms
end

attribute [grind =] evalStmt evalStmts evalElse evalBody evalBodies

/-! ## Functions -/

/-- The formals of the entry function are arguments of the program. -/
def loadFormal (entry : Bool) (args : List Word) (index : Nat) : Runtime.Run Word :=
  if entry then Runtime.argument index else pure (args[index]?.getD 0)

def storeFormals (entry : Bool) (args : List Word) : Nat → List DeclNode → Runtime.Run Unit
  | _, [] => pure ()
  | index, formal :: formals => do
      let value ← loadFormal entry args index
      let _ ← Runtime.store value (activation.slotAddress formal.id)
      storeFormals entry args (index + 1) formals

def storeDeclarations : List DeclNode → Runtime.Run Unit
  | [] => pure ()
  | decl :: decls => do
      let _ ← Runtime.store 0 (activation.slotAddress decl.id)
      storeDeclarations decls

/-- The owners that are left at the exit are destroyed after the result is known. -/
def evalFunction (function : Function) (args : List Word) : Runtime.Run Word := do
  let scope := (function.formals ++ function.declarations).foldl allocate ∅
  activation.storeFormals (isEntry function) args 0 function.formals
  activation.storeDeclarations function.declarations
  activation.evalStmts scope function.stmts
  let result ← activation.evalExpr scope function.returnArg
  activation.destroyVariables scope (exitDestroys activation.context function)
  return result

end Activation

/-- What a call does within a depth of calls and loops. -/
def Program.call (program : Program) (context : CodeGenContext) (platform : Platform) :
    Nat → Callee → List Word → Runtime.Run Word
  | 0, _, _ => Run.stuck
  | fuel + 1, .function index, args =>
      match program.functions[index.toNat]? with
      | none => Run.stuck
      | some function =>
          if args.length = arity function then
            Runtime.withFrame platform (function.variables.map DeclNode.id) fun slotAddress =>
              Activation.evalFunction ⟨context, platform, program.functions.length,
                call program context platform fuel, fuel, slotAddress⟩ function args
          else Run.stuck
  | fuel + 1, .sumDestroy owner, args =>
      Activation.destroySum ⟨context, platform, program.functions.length,
        call program context platform fuel, fuel, fun _ => 0⟩ owner (args[0]?.getD 0)

end Topc
