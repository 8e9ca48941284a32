import Topc.CodeGen.Machine
import Topc.Foundation.BlockGeneration

/-! # Code generation

The visitor that generates the code of a program. The state of a generator is the map
from names to slots. -/

namespace Topc

open BasicBlocks

/-- What the visitor reads. -/
structure CodeGenContext where
  rules : RuleToggles
  symbols : SymbolTable
  types : TypeResults
  plan : DestructionPlan
  functionIndex : CodeGenVisitor.FunctionIndex

abbrev IrGen := Gen CodeGenVisitor.NamedValues CompileError IrOperation Local Word

namespace CodeGenVisitor

def slotOf (decl : DeclNode) : IrOperand := .slot (.slot decl.id)

def number (value : Nat) : IrOperand := .const (BitVec.ofNat 64 value)

def nop : IrGen Unit := do
  let _ ← Gen.emit .callNop

def freeIf (condition : Bool) (address : IrOperand) : IrGen Unit :=
  if condition then do
    let _ ← Gen.emit (.free address)
  else pure ()

/-! ## Destruction -/

/-- The constructors of a possibly recursive sum type. -/
def asSumType : TopType → Option (List (String × Nat))
  | .sumType _ ctors _ => some ctors
  | .mu _ body => asSumType body
  | _ => none

section

variable (context : CodeGenContext)

def sumOwner (ctors : List (String × Nat)) : Option SumTypeDecl :=
  ctors.head?.bind fun ctor => context.symbols.getConstructorOwner ctor.1

def emitDestroyValue (value : IrOperand) (type : TopType) : IrGen Unit :=
  match OwnershipClassifier.classifyType type with
  | .copy => pure ()
  | .own =>
      match asSumType type with
      | some ctors => do
          let _ ← Gen.emit (.callSumDestroy (sumOwner context ctors) value)
      | none => do
          let ptr ← Gen.emit (.cast value)
          let _ ← Gen.emit (.free ptr)

/-- The payloads that are destroyed with a value, each with its index. -/
def ownedFields (params : List DeclNode) : List (Nat × DeclNode) :=
  params.zipIdx.filterMap fun (param, index) =>
    if OwnershipClassifier.classify context.types param = .own then some (index, param) else none

/-- The variants with such payloads, each under its tag. -/
def ownedVariants (owner : Option SumTypeDecl) : List (Word × List (Nat × DeclNode)) :=
  ((owner.map SumTypeDecl.variants).getD []).zipIdx.filterMap fun (variant, tag) =>
    match ownedFields context variant.params with
    | [] => none
    | fields => some (BitVec.ofNat 64 tag, fields)

def destroyFields (box : IrOperand) : List (Nat × DeclNode) → IrGen Unit
  | [] => pure ()
  | (index, param) :: fields => do
      let field ← Gen.emit (.field box (index + 1))
      let value ← Gen.emit (.load field)
      emitDestroyValue context value (context.types.ofDecl param)
      destroyFields box fields

/-- Free a box after the payloads that its variant owns. -/
def destroyBox (owner : Option SumTypeDecl) (box tag : IrOperand) : IrGen Unit :=
  Gen.landing (fun free => Gen.cases tag free ((ownedVariants context owner).map fun variant =>
    (variant.1, do
      destroyFields context box variant.2
      Gen.terminate (.br free)))) (do
    let _ ← Gen.emit (.free box))

/-- The function that destroys the values of a sum type. -/
def emitSumDestroy (owner : Option SumTypeDecl) : IrGen IrOperand := do
  let box ← Gen.emit (.cast (.slot (.argument 0)))
  let tag ← Gen.emit (.load box)
  destroyBox context owner box tag
  return number 0

def getOrCreateSumDestroyFn (owner : Option SumTypeDecl) : IrGen Unit := do
  Gen.terminate (.ret (← emitSumDestroy context owner))

/-- The destroy statement of a variable. -/
def generateDestroy (decl : DeclNode) : IrGen Unit := do
  match (← Gen.state)[decl.name]? with
  | none => Gen.throw (.internal s!"destroy: variable '{decl.name}' not found in namedValues")
  | some slot =>
      let value ← Gen.emit (.load (slotOf slot))
      emitDestroyValue context value (context.types.ofDecl decl)
      nop

def generateDestroys : List DeclNode → IrGen Unit
  | [] => pure ()
  | decl :: decls => do
      generateDestroy context decl
      generateDestroys decls

/-! ## Expressions -/

/-- Division by zero and the quotient that is too large are runtime errors. -/
def emitCheckedDivision (left right : IrOperand) (line : Nat) : IrGen IrOperand :=
  if context.rules.enabled "division-check" then do
    let isZero ← Gen.emit (.binary .icmpEq right (number 0))
    let isMin ← Gen.emit (.binary .icmpEq left (.const (BitVec.intMin 64)))
    let isMinusOne ← Gen.emit (.binary .icmpEq right (.const (-1)))
    let isOverflow ← Gen.emit (.binary .and isMin isMinusOne)
    let isBad ← Gen.emit (.binary .or isZero isOverflow)
    Gen.trap isBad (do
      let kind ← Gen.emit (.cast isOverflow)
      let _ ← Gen.emit (.callDivisionError (BitVec.ofNat 64 line) kind))
    Gen.emit (.binary .sdiv left right)
  else Gen.emit (.binary .sdiv left right)

/-- The bit of a comparison as a word. -/
def emitComparison (comparison : BinaryInstruction) (left right : IrOperand) : IrGen IrOperand := do
  let bit ← Gen.emit (.binary comparison left right)
  Gen.emit (.cast bit)

def generateBinary (op : BinaryOp) (line : Nat) (left right : IrOperand) : IrGen IrOperand :=
  match op with
  | .add => Gen.emit (.binary .add left right)
  | .sub => Gen.emit (.binary .sub left right)
  | .mul => Gen.emit (.binary .mul left right)
  | .div => emitCheckedDivision context left right line
  | .gt => emitComparison .icmpSgt left right
  | .eq => emitComparison .icmpEq left right
  | .neq => emitComparison .icmpNe left right

/-- A name that is not bound is that of a function. -/
def generateFunctionName (name : String) : IrGen IrOperand :=
  match context.functionIndex[name]? with
  | some index => return number index
  | none => Gen.throw (.internal s!"Unknown variable name: {name}")

def storePayloads (box : IrOperand) : Nat → List IrOperand → IrGen Unit
  | _, [] => pure ()
  | offset, value :: values => do
      let field ← Gen.emit (.field box offset)
      let _ ← Gen.emit (.store value field)
      storePayloads box (offset + 1) values

mutual
def generateExpr : Expr → IrGen IrOperand
  | .numExpr _ value => return .const (BitVec.ofInt 64 value)
  | .varExpr _ name => do
      match (← Gen.state)[name]? with
      | some decl => Gen.emit (.load (slotOf decl))
      | none => generateFunctionName context name
  | .binaryExpr info op left right => do
      let left ← generateExpr left
      let right ← generateExpr right
      generateBinary context op info.line left right
  | .inputExpr _ => Gen.emit .callInput
  | .funAppExpr _ function actuals => do
      let index ← generateExpr function
      let pointer ← Gen.emit (.loadFunction index)
      let args ← generateExprs actuals
      Gen.emit (.call pointer args)
  | .allocExpr _ initializer => do
      let value ← generateExpr initializer
      let cell ← Gen.emit (.calloc 1)
      let _ ← Gen.emit (.store value cell)
      Gen.emit (.cast cell)
  | .borrowExpr _ var => do
      let address ← generateAddress var
      Gen.emit (.cast address)
  | .deRefExpr info ptr => do
      let pointer ← generateExpr ptr
      let address ← Gen.emit (.cast pointer)
      let value ← Gen.emit (.load address)
      freeIf (info.id ∈ context.plan.freeAfterUse) address
      return value
  | .sumCtorExpr _ tag args => do
      let values ← generateExprs args
      let box ← Gen.emit (.calloc (1 + (CaseCodeGen.innerParams context.symbols tag).length))
      let _ ← Gen.emit (.store (number (CaseCodeGen.innerTagIdx context.symbols tag)) box)
      storePayloads box 1 values
      Gen.emit (.cast box)

def generateExprs : List Expr → IrGen (List IrOperand)
  | [] => return []
  | expr :: exprs => do
      let value ← generateExpr expr
      let values ← generateExprs exprs
      return value :: values

/-- Generation with the flag for addresses set. -/
def generateAddress : Expr → IrGen IrOperand
  | .varExpr _ name => do
      match (← Gen.state)[name]? with
      | some decl => return slotOf decl
      | none => generateFunctionName context name
  | .deRefExpr _ ptr => do
      let pointer ← generateExpr ptr
      Gen.emit (.cast pointer)
  | _ => Gen.throw (.internal "could not generate l-value for address of")
end

-- The proofs about code rewrite with these equations. They are derived here once.
attribute [grind =] generateExpr generateExprs generateAddress

/-! ## Patterns -/

mutual
/-- Go to the label unless the pattern matches the payload at the offset. -/
def emitPatternTest (base : IrOperand) (offset failLabel : Nat) : Pattern → IrGen Unit
  | .var .. | .wildcard _ => pure ()
  | .ctor _ tag subPatterns => do
      let field ← Gen.emit (.field base offset)
      let value ← Gen.emit (.load field)
      let inner ← Gen.emit (.cast value)
      let innerTag ← Gen.emit (.load inner)
      let bit ← Gen.emit
        (.binary .icmpEq innerTag (number (CaseCodeGen.innerTagIdx context.symbols tag)))
      Gen.gate bit failLabel
      emitPatternTests inner 1 failLabel subPatterns

def emitPatternTests (base : IrOperand) (offset failLabel : Nat) : List Pattern → IrGen Unit
  | [] => pure ()
  | pattern :: patterns => do
      emitPatternTest base offset failLabel pattern
      emitPatternTests base (offset + 1) failLabel patterns
end

attribute [grind =] emitPatternTest emitPatternTests

mutual
/-- Bind the variables of a pattern that matches. In a consuming match, destroy what it
discards and free what it takes apart. -/
def emitPatternBind (consuming : Bool) (base : IrOperand) (offset : Nat)
    (paramDecl : Option DeclNode) : Pattern → IrGen Unit
  | .var _ decl => do
      let field ← Gen.emit (.field base offset)
      let value ← Gen.emit (.load field)
      let _ ← Gen.emit (.store value (slotOf decl))
      Gen.modify fun namedValues => allocate namedValues decl
  | .wildcard info => do
      let field ← Gen.emit (.field base offset)
      let value ← Gen.emit (.load field)
      match paramDecl with
      | some param =>
          if info.id ∈ context.plan.discardedPayloads then
            emitDestroyValue context value (context.types.ofDecl param)
      | none => pure ()
  | .ctor _ tag subPatterns => do
      let field ← Gen.emit (.field base offset)
      let value ← Gen.emit (.load field)
      let inner ← Gen.emit (.cast value)
      emitPatternBinds consuming inner 1 (CaseCodeGen.innerParams context.symbols tag) subPatterns
      freeIf consuming inner

def emitPatternBinds (consuming : Bool) (base : IrOperand) (offset : Nat)
    (params : List DeclNode) : List Pattern → IrGen Unit
  | [] => pure ()
  | pattern :: patterns => do
      emitPatternBind consuming base offset params.head? pattern
      emitPatternBinds consuming base (offset + 1) params.tail patterns
end

attribute [grind =] emitPatternBind emitPatternBinds

/-! ## Statements -/

/-- The code of an arm: its tests, its bindings and its body. It goes to the merge block,
or to the other label where a test fails. -/
def emitArm (owner : Option SumTypeDecl) (consuming : Bool) (box : IrOperand)
    (mergeLabel failLabel : Nat) (arm : CaseArm × IrGen Unit) : IrGen Unit := do
  let shadowed ← Gen.state
  emitPatternTests context box 1 failLabel arm.1.getPatterns
  emitPatternBinds context consuming box 1 (CaseCodeGen.variantParams owner arm.1.getTag)
    arm.1.getPatterns
  arm.2
  Gen.modify (restore shadowed arm.1.getBindings)
  Gen.terminate (.br mergeLabel)

/-- The arms of one constructor, each behind the tests of those before it. The last one
fails to the default block. There is always one. -/
def emitChain (owner : Option SumTypeDecl) (consuming : Bool) (box : IrOperand)
    (mergeLabel defaultLabel : Nat) : List (CaseArm × IrGen Unit) → IrGen Unit
  | [] => Gen.terminate (.br defaultLabel)
  | [arm] => emitArm context owner consuming box mergeLabel defaultLabel arm
  | arm :: next :: rest =>
      Gen.landing (fun failLabel =>
          emitArm context owner consuming box mergeLabel failLabel arm)
        (emitChain owner consuming box mergeLabel defaultLabel (next :: rest))

/-- The branches of the switch: a chain for each constructor of the arms. -/
def emitBranches (owner : Option SumTypeDecl) (consuming : Bool) (box : IrOperand)
    (mergeLabel defaultLabel : Nat) (arms : List (CaseArm × IrGen Unit)) :
    List (Word × IrGen Unit) :=
  (CaseCodeGen.tagOrder (arms.map Prod.fst)).map fun name =>
    (BitVec.ofNat 64 (CaseCodeGen.variantIndex owner name),
      emitChain context owner consuming box mergeLabel defaultLabel
        (arms.filter fun arm => arm.1.getTag == name))

/-- A switch over the constructors of the arms. -/
def emitCase (owner : Option SumTypeDecl) (consuming : Bool) (value : IrOperand)
    (arms : List (CaseArm × IrGen Unit)) : IrGen Unit := do
  let box ← Gen.emit (.cast value)
  let tag ← Gen.emit (.load box)
  Gen.landing (fun mergeLabel =>
    Gen.landing (fun defaultLabel =>
      Gen.cases tag defaultLabel
        (emitBranches context owner consuming box mergeLabel defaultLabel arms)) (do
      nop
      Gen.terminate (.br mergeLabel))) (do
    if consuming then do
      let ptr ← Gen.emit (.cast value)
      let _ ← Gen.emit (.free ptr)
    else pure ())

/-- What is destroyed at the end of an arm. -/
def armEnd (arm : NodeId) : List DeclNode :=
  if context.rules.enabled "destroy-arm-binders" then
    ((context.plan.atArmEnd.find? fun entry => entry.1 = arm).map Prod.snd).getD []
  else []

mutual
def generateStmt : Stmt → IrGen Unit
  | .assignStmt _ lhs rhs => do
      let target ← generateAddress context lhs
      let value ← generateExpr context rhs
      let _ ← Gen.emit (.store value target)
      freeIf (lhs.isDeRef && decide (lhs.info.id ∈ context.plan.freeAfterUse)) target
  | .blockStmt _ [] => nop
  | .blockStmt _ (stmt :: stmts) => do
      generateStmt stmt
      generateStmts stmts
  | .whileStmt _ condition body => do
      Gen.loop (do
        let value ← generateExpr context condition
        Gen.emit (.binary .icmpNe value (number 0))) (generateStmt body)
      nop
  | .ifStmt _ condition thenStmt elseStmt => do
      let value ← generateExpr context condition
      let bit ← Gen.emit (.binary .icmpNe value (number 0))
      Gen.branch bit (generateStmt thenStmt) (generateElse elseStmt)
      nop
  | .outputStmt _ arg => do
      let value ← generateExpr context arg
      let _ ← Gen.emit (.callOutput value)
  | .errorStmt _ arg => do
      let value ← generateExpr context arg
      let _ ← Gen.emit (.callError value)
  | .caseStmt info caseExpr arms => do
      let value ← generateExpr context caseExpr
      emitCase context (CaseCodeGen.ownerDecl context.symbols arms)
        (CaseCodeGen.isConsuming context.plan info) value (generateBodies arms)
      nop

def generateStmts : List Stmt → IrGen Unit
  | [] => pure ()
  | stmt :: stmts => do
      generateStmt stmt
      generateStmts stmts

def generateElse : Option Stmt → IrGen Unit
  | none => nop
  | some stmt => generateStmt stmt

def generateBody : CaseArm → IrGen Unit
  | .mk info _ _ body => do
      generateStmt body
      generateDestroys context (armEnd context info.id)

/-- The arms with their bodies. -/
def generateBodies : List CaseArm → List (CaseArm × IrGen Unit)
  | [] => []
  | arm :: arms => (arm, generateBody arm) :: generateBodies arms
end

attribute [grind =] generateStmt generateStmts generateElse generateBody generateBodies

/-! ## Functions -/

/-- The entry function reads its formals from the arguments of the program. -/
def isEntry (function : Function) : Bool :=
  function.getName == "main"

def loadFormal (entry : Bool) (index : Nat) : IrGen IrOperand :=
  if entry then Gen.emit (.loadArgument index) else pure (.slot (.argument index))

def storeFormals (entry : Bool) : Nat → List DeclNode → IrGen Unit
  | _, [] => pure ()
  | index, formal :: formals => do
      let value ← loadFormal entry index
      let _ ← Gen.emit (.store value (slotOf formal))
      Gen.modify fun namedValues => allocate namedValues formal
      storeFormals entry (index + 1) formals

def generateDeclarations : List DeclNode → IrGen Unit
  | [] => pure ()
  | decl :: decls => do
      let _ ← Gen.emit (.store (number 0) (slotOf decl))
      Gen.modify fun namedValues => allocate namedValues decl
      generateDeclarations decls

/-- What is destroyed before the function returns. -/
def exitDestroys (function : Function) : List DeclNode :=
  if context.rules.enabled "destroy-at-exit" then
    ((context.plan.atExit.find? fun entry => entry.1 = function.decl).map Prod.snd).getD []
  else []

/-- The destroys before the return wait for its value. -/
def generateResult (function : Function) : IrGen IrOperand := do
  storeFormals (isEntry function) 0 function.formals
  generateDeclarations function.declarations
  generateStmts context function.stmts
  let result ← generateExpr context function.returnArg
  generateDestroys context (exitDestroys context function)
  return result

def generateFunction (function : Function) : IrGen Unit := do
  Gen.terminate (.ret (← generateResult context function))

def arity (function : Function) : Nat :=
  if isEntry function then 0 else function.formals.length

def compileFunction (function : Function) : Except CompileError CompiledFunction := do
  let (_, _, builder) ← generateFunction context function (∅, .entry)
  return ⟨arity function, function.variables.map DeclNode.id, builder.blocks⟩

/-- The code of the function that destroys the values of a sum type. -/
def sumDestroyCode (owner : Option SumTypeDecl) : IrCode :=
  match getOrCreateSumDestroyFn context owner (∅, .entry) with
  | .ok (_, _, builder) => builder.blocks
  | .error _ => []

end

/-- The functions of a program in the order of the function table. -/
def generate (context : CodeGenContext) (program : Program) :
    Except CompileError (List CompiledFunction) :=
  program.functions.mapM (compileFunction context)

end CodeGenVisitor

end Topc
