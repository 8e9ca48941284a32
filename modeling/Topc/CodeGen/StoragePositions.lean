import Topc.BorrowChecker
import Topc.FunctionEffectSummaries
import Topc.MoveAnalysis
import Topc.SymbolTable.NameResolution
import Topc.Types.Inference
import Topc.Weeding

/-! # Storage for what is assigned and borrowed

Assignments and borrows need an address. The weeding pass asks only that their
operand is a variable; code generation looks the name up among the slots and then
among the functions. -/

namespace Topc

/-! ## Storage positions -/

mutual
/-- The operands of the borrows in an expression. -/
def Expr.borrowOperands : Expr → List Expr
  | .numExpr .. | .varExpr .. | .inputExpr .. => []
  | .binaryExpr _ _ left right => left.borrowOperands ++ right.borrowOperands
  | .funAppExpr _ function actuals => function.borrowOperands ++ Expr.borrowOperandsOf actuals
  | .allocExpr _ initializer => initializer.borrowOperands
  | .borrowExpr _ var => var :: var.borrowOperands
  | .deRefExpr _ ptr => ptr.borrowOperands
  | .sumCtorExpr _ _ args => Expr.borrowOperandsOf args

def Expr.borrowOperandsOf : List Expr → List Expr
  | [] => []
  | expr :: exprs => expr.borrowOperands ++ Expr.borrowOperandsOf exprs
end

/-- An assignment needs the address of its target, unless it goes through a
reference. -/
def Expr.targetOperands (lhs : Expr) : List Expr :=
  if lhs.isDeRef then lhs.borrowOperands else lhs :: lhs.borrowOperands

/-- An expression whose address is needed and the arms around it, from the outside in. -/
structure StoragePosition where
  operand : Expr
  enclosing : List CaseArm

def storedAt (enclosing : List CaseArm) (operands : List Expr) : List StoragePosition :=
  operands.map fun operand => ⟨operand, enclosing⟩

mutual
def Stmt.storagePositions (enclosing : List CaseArm) : Stmt → List StoragePosition
  | .assignStmt _ lhs rhs => storedAt enclosing (lhs.targetOperands ++ rhs.borrowOperands)
  | .blockStmt _ stmts => Stmt.storagePositionsOf enclosing stmts
  | .whileStmt _ condition body =>
      storedAt enclosing condition.borrowOperands ++ body.storagePositions enclosing
  | .ifStmt _ condition thenStmt none =>
      storedAt enclosing condition.borrowOperands ++ thenStmt.storagePositions enclosing
  | .ifStmt _ condition thenStmt (some elseStmt) =>
      storedAt enclosing condition.borrowOperands ++
        (thenStmt.storagePositions enclosing ++ elseStmt.storagePositions enclosing)
  | .outputStmt _ arg | .errorStmt _ arg => storedAt enclosing arg.borrowOperands
  | .caseStmt _ caseExpr arms =>
      storedAt enclosing caseExpr.borrowOperands ++ CaseArm.storagePositionsOf enclosing arms

def Stmt.storagePositionsOf (enclosing : List CaseArm) : List Stmt → List StoragePosition
  | [] => []
  | stmt :: stmts => stmt.storagePositions enclosing ++ Stmt.storagePositionsOf enclosing stmts

def CaseArm.storagePositions (enclosing : List CaseArm) : CaseArm → List StoragePosition
  | .mk info tag patterns body =>
      body.storagePositions (enclosing ++ [.mk info tag patterns body])

def CaseArm.storagePositionsOf (enclosing : List CaseArm) : List CaseArm → List StoragePosition
  | [] => []
  | arm :: arms => arm.storagePositions enclosing ++ CaseArm.storagePositionsOf enclosing arms
end

namespace Function

def storagePositions (function : Function) : List StoragePosition :=
  Stmt.storagePositionsOf [] function.stmts ++ storedAt [] function.returnArg.borrowOperands

/-- A name that only case arms bind, at a place outside all of them. -/
structure EndedBinder (function : Function) (enclosing : List CaseArm) (name : String) : Prop where
  bound : ∃ arm ∈ function.allArms, arm.binds name = true
  undeclared : ∀ decl ∈ function.formals ++ function.declarations, decl.name ≠ name
  outside : ∀ arm ∈ enclosing, arm.binds name = false

end Function

/-! ## Generated addresses -/

namespace CodeGenVisitor

/-- What is generated where an address is needed. Only a slot and a reference are
addresses; the rest are numbers. -/
inductive LValue
  | slot (decl : DeclNode)
  | reference
  | functionIndex (index : Nat)
  | value
deriving DecidableEq, Repr

abbrev FunctionIndex := Std.ExtTreeMap String Nat

def functionIndexOf (program : Program) : FunctionIndex :=
  program.functions.zipIdx.foldl (fun index entry => index.insert entry.1.getName entry.2) ∅

section

variable (functionIndex : FunctionIndex)

/-- The slot of a name, else the index of the function of that name. -/
def generateVariable (storage : Option DeclNode) (name : String) : Except CompileError LValue :=
  match storage with
  | some slot => .ok (.slot slot)
  | none =>
      match functionIndex[name]? with
      | some index => .ok (.functionIndex index)
      | none => .error (.internal s!"Unknown variable name: {name}")

/-- Generation with the flag for addresses set. What is neither a variable nor a
dereference gives its value. -/
def generateLValue (namedValues : NamedValues) : Expr → Except CompileError LValue
  | .varExpr _ name => generateVariable functionIndex namedValues[name]? name
  | .deRefExpr .. => .ok .reference
  | _ => .ok .value

def generateLValues (namedValues : NamedValues) (operands : List Expr) :
    List (Except CompileError LValue) :=
  operands.map (generateLValue functionIndex namedValues)

mutual
/-- The addresses generated in a statement. The slots change as they do for the
variables that are read. -/
def addressesOf (namedValues : NamedValues) : Stmt → List (Except CompileError LValue)
  | .assignStmt _ lhs rhs =>
      generateLValues functionIndex namedValues (lhs.targetOperands ++ rhs.borrowOperands)
  | .blockStmt _ stmts => addressesOfAll namedValues stmts
  | .whileStmt _ condition body =>
      generateLValues functionIndex namedValues condition.borrowOperands ++
        addressesOf namedValues body
  | .ifStmt _ condition thenStmt none =>
      generateLValues functionIndex namedValues condition.borrowOperands ++
        addressesOf namedValues thenStmt
  | .ifStmt _ condition thenStmt (some elseStmt) =>
      generateLValues functionIndex namedValues condition.borrowOperands ++
        (addressesOf namedValues thenStmt ++
          addressesOf (selectStmt namedValues thenStmt).1 elseStmt)
  | .outputStmt _ arg | .errorStmt _ arg =>
      generateLValues functionIndex namedValues arg.borrowOperands
  | .caseStmt _ caseExpr arms =>
      generateLValues functionIndex namedValues caseExpr.borrowOperands ++
        addressesOfArms namedValues arms

def addressesOfAll (namedValues : NamedValues) : List Stmt → List (Except CompileError LValue)
  | [] => []
  | stmt :: stmts =>
      addressesOf namedValues stmt ++ addressesOfAll (selectStmt namedValues stmt).1 stmts

def addressesOfArm (namedValues : NamedValues) : CaseArm → List (Except CompileError LValue)
  | .mk _ _ patterns body => addressesOf (namedValues.emitPatternBinds patterns) body

def addressesOfArms (namedValues : NamedValues) :
    List CaseArm → List (Except CompileError LValue)
  | [] => []
  | arm :: arms =>
      addressesOfArm namedValues arm ++ addressesOfArms (selectArm namedValues arm).1 arms
end

def addressesOfFunction (function : Function) : List (Except CompileError LValue) :=
  let entry := (function.formals ++ function.declarations).foldl allocate ∅
  addressesOfAll functionIndex entry function.stmts ++
    generateLValues functionIndex (selectStmts entry function.stmts).1
      function.returnArg.borrowOperands

/-- Each address is the slot of a binding in scope that has the name. -/
def FindsStorage (function : Function) : Prop :=
  List.Forall₂ (fun (position : StoragePosition) address =>
    ∃ info, ∃ slot ∈ function.formals ++ function.declarations ++
        position.enclosing.flatMap CaseArm.getBindings,
      position.operand = .varExpr info slot.name ∧ address = .ok (.slot slot))
    function.storagePositions (addressesOfFunction functionIndex function)

end

/-! ## Code generation follows the scopes -/

section

variable (functionIndex : FunctionIndex) (function : Function)

/-- The address that belongs to the innermost binding. -/
def lexicalAddress (position : StoragePosition) : Except CompileError LValue :=
  match position.operand with
  | .varExpr info name =>
      generateVariable functionIndex (function.innermost ⟨info, name, position.enclosing⟩) name
  | .deRefExpr .. => .ok .reference
  | _ => .ok .value

def StmtAddresses (stmt : Stmt) : Prop :=
  ∀ (enclosing : List CaseArm) (namedValues : NamedValues),
    Holds namedValues (function.formals ++ function.declarations ++
      enclosing.flatMap CaseArm.getBindings) →
    addressesOf functionIndex namedValues stmt =
      (stmt.storagePositions enclosing).map (lexicalAddress functionIndex function)

end

section

variable {functionIndex : FunctionIndex} {function : Function} {enclosing : List CaseArm}
  {namedValues : NamedValues} (holds : Holds namedValues (function.formals ++
    function.declarations ++ enclosing.flatMap CaseArm.getBindings))

include holds

theorem generateLValues_eq (operands : List Expr) :
    generateLValues functionIndex namedValues operands =
      (storedAt enclosing operands).map (lexicalAddress functionIndex function) := by
  rw [generateLValues, storedAt, List.map_map]
  apply List.map_congr_left
  intro operand _
  cases operand with
  | varExpr info name =>
      rw [generateLValue, holds]
      rfl
  | _ => rfl

theorem addressesOfAll_eq {stmts : List Stmt}
    (each : ∀ stmt ∈ stmts, StmtAddresses functionIndex function stmt) :
    addressesOfAll functionIndex namedValues stmts =
      (Stmt.storagePositionsOf enclosing stmts).map (lexicalAddress functionIndex function) := by
  induction stmts with
  | nil =>
      rw [addressesOfAll, Stmt.storagePositionsOf]
      rfl
  | cons stmt stmts induction =>
      have first := each stmt List.mem_cons_self enclosing namedValues holds
      have rest := induction fun other member => each other (List.mem_cons_of_mem _ member)
      rw [addressesOfAll, first, stmtSelects function stmt enclosing namedValues holds]
      dsimp only
      rw [rest, Stmt.storagePositionsOf, List.map_append]

theorem addressesOfArm_eq {arm : CaseArm}
    (bodyAddresses : StmtAddresses functionIndex function arm.getBody) :
    addressesOfArm functionIndex namedValues arm =
      (arm.storagePositions enclosing).map (lexicalAddress functionIndex function) := by
  cases arm with
  | mk info tag patterns body =>
      rw [addressesOfArm, CaseArm.storagePositions]
      exact bodyAddresses _ _ (holds.enterArm info tag patterns body)

theorem addressesOfArms_eq {arms : List CaseArm}
    (each : ∀ arm ∈ arms, StmtAddresses functionIndex function arm.getBody) :
    addressesOfArms functionIndex namedValues arms =
      (CaseArm.storagePositionsOf enclosing arms).map (lexicalAddress functionIndex function) := by
  induction arms with
  | nil =>
      rw [addressesOfArms, CaseArm.storagePositionsOf]
      rfl
  | cons arm arms induction =>
      have first := addressesOfArm_eq holds (each arm List.mem_cons_self)
      have rest := induction fun other member => each other (List.mem_cons_of_mem _ member)
      rw [addressesOfArms, first, selectArm_eq (stmtSelects function arm.getBody) holds]
      dsimp only
      rw [rest, CaseArm.storagePositionsOf, List.map_append]

end

theorem stmtAddresses (functionIndex : FunctionIndex) (function : Function) (stmt : Stmt) :
    StmtAddresses functionIndex function stmt := by
  induction stmt with
  | assignStmt info lhs rhs =>
      intro enclosing namedValues holds
      rw [addressesOf, generateLValues_eq holds, Stmt.storagePositions]
  | blockStmt info stmts each =>
      intro enclosing namedValues holds
      rw [addressesOf, addressesOfAll_eq holds each, Stmt.storagePositions]
  | whileStmt info condition body bodyAddresses =>
      intro enclosing namedValues holds
      rw [addressesOf, bodyAddresses enclosing namedValues holds, generateLValues_eq holds,
        Stmt.storagePositions, List.map_append]
  | ifStmt info condition thenStmt elseStmt thenAddresses elseAddresses =>
      intro enclosing namedValues holds
      cases elseStmt with
      | none =>
          rw [addressesOf, thenAddresses enclosing namedValues holds, generateLValues_eq holds,
            Stmt.storagePositions, List.map_append]
      | some elseStmt =>
          rw [addressesOf, thenAddresses enclosing namedValues holds,
            stmtSelects function thenStmt enclosing namedValues holds]
          dsimp only
          rw [elseAddresses elseStmt rfl enclosing namedValues holds, generateLValues_eq holds,
            Stmt.storagePositions, List.map_append, List.map_append]
  | outputStmt info arg | errorStmt info arg =>
      intro enclosing namedValues holds
      rw [addressesOf, generateLValues_eq holds, Stmt.storagePositions]
  | caseStmt info caseExpr arms each =>
      intro enclosing namedValues holds
      rw [addressesOf, addressesOfArms_eq holds each, generateLValues_eq holds,
        Stmt.storagePositions, List.map_append]

theorem addressesOfFunction_eq (functionIndex : FunctionIndex) (function : Function) :
    addressesOfFunction functionIndex function =
      function.storagePositions.map (lexicalAddress functionIndex function) := by
  have entry : Holds ((function.formals ++ function.declarations).foldl allocate ∅)
      (function.formals ++ function.declarations ++
        ([] : List CaseArm).flatMap CaseArm.getBindings) := by
    rw [List.flatMap_nil, List.append_nil, ← List.nil_append (_ ++ _)]
    apply Holds.allocateAll
    exact fun _ => Std.ExtTreeMap.getElem?_empty
  rw [addressesOfFunction, addressesOfAll_eq entry
    (fun stmt _ => stmtAddresses functionIndex function stmt),
    selectStmts_eq (fun stmt _ => stmtSelects function stmt) entry]
  dsimp only
  rw [generateLValues_eq entry, Function.storagePositions, List.map_append]

end CodeGenVisitor

/-! ## Accepted operands are variables -/

open CheckAssignable

/-- Each operand is one of the variables. -/
def NamesVariables (uses : List (NodeInfo × String)) (operands : List Expr) : Prop :=
  ∀ operand ∈ operands, ∃ use ∈ uses, operand = .varExpr use.1 use.2

theorem NamesVariables.append {uses later : List (NodeInfo × String)} {operands others : List Expr}
    (first : NamesVariables uses operands) (rest : NamesVariables later others) :
    NamesVariables (uses ++ later) (operands ++ others) := by
  intro operand member
  rcases List.mem_append.mp member with member | member
  · rcases first operand member with ⟨use, useMem, same⟩
    exact ⟨use, List.mem_append_left _ useMem, same⟩
  · rcases rest operand member with ⟨use, useMem, same⟩
    exact ⟨use, List.mem_append_right _ useMem, same⟩

theorem NamesVariables.cons {uses : List (NodeInfo × String)} {operand : Expr}
    {operands : List Expr} (isVar : isAssignable operand = true) (inUses : operand.variableUses ⊆ uses)
    (rest : NamesVariables uses operands) : NamesVariables uses (operand :: operands) := by
  intro other member
  rcases List.mem_cons.mp member with rfl | member
  · cases other with
    | varExpr info name => exact ⟨(info, name), inUses (List.mem_singleton_self _), rfl⟩
    | _ => cases isVar
  · exact rest other member

theorem Expr.borrowOperandsOf_named {exprs : List Expr}
    (each : ∀ expr ∈ exprs, Assignable expr.postOrder →
      NamesVariables expr.variableUses expr.borrowOperands)
    (assignable : Assignable (Expr.postOrderOf exprs)) :
    NamesVariables (Expr.variableUsesOf exprs) (Expr.borrowOperandsOf exprs) := by
  induction exprs with
  | nil => exact nofun
  | cons expr exprs induction =>
      rw [Expr.postOrderOf] at assignable
      rw [Expr.variableUsesOf, Expr.borrowOperandsOf]
      apply NamesVariables.append
      · exact each expr List.mem_cons_self (assignable.mono (List.subset_append_left _ _))
      · exact induction (fun other member => each other (List.mem_cons_of_mem _ member))
          (assignable.mono (List.subset_append_right _ _))

theorem Expr.borrowOperands_named (expr : Expr) : Assignable expr.postOrder →
    NamesVariables expr.variableUses expr.borrowOperands := by
  induction expr with
  | numExpr | varExpr | inputExpr => exact fun _ => nofun
  | binaryExpr info op left right leftNamed rightNamed =>
      intro assignable
      rw [Expr.postOrder] at assignable
      rw [Expr.variableUses, Expr.borrowOperands]
      exact (leftNamed (assignable.mono (by simp))).append
        (rightNamed (assignable.mono (by simp)))
  | funAppExpr info function actuals functionNamed each =>
      intro assignable
      rw [Expr.postOrder] at assignable
      rw [Expr.variableUses, Expr.borrowOperands]
      exact (functionNamed (assignable.mono (by simp))).append
        (Expr.borrowOperandsOf_named each (assignable.mono (by simp)))
  | allocExpr info initializer named | deRefExpr info ptr named =>
      intro assignable
      rw [Expr.postOrder] at assignable
      exact named (assignable.mono (List.subset_append_left _ _))
  | borrowExpr info var named =>
      intro assignable
      rw [Expr.postOrder] at assignable
      rw [Expr.variableUses, Expr.borrowOperands]
      apply NamesVariables.cons (assignable.borrows info var (by simp)) (List.Subset.refl _)
      exact named (assignable.mono (List.subset_append_left _ _))
  | sumCtorExpr info tag args each =>
      intro assignable
      rw [Expr.postOrder] at assignable
      rw [Expr.variableUses, Expr.borrowOperands]
      exact Expr.borrowOperandsOf_named each (assignable.mono (List.subset_append_left _ _))

/-- Each position is one of the occurrences. -/
def Occurring (occurrences : List Occurrence) (positions : List StoragePosition) : Prop :=
  ∀ position ∈ positions, ∃ occurrence ∈ occurrences,
    position.operand = .varExpr occurrence.info occurrence.name ∧
      position.enclosing = occurrence.enclosing

theorem Occurring.append {occurrences later : List Occurrence}
    {positions others : List StoragePosition} (first : Occurring occurrences positions)
    (rest : Occurring later others) :
    Occurring (occurrences ++ later) (positions ++ others) := by
  intro position member
  rcases List.mem_append.mp member with member | member
  · rcases first position member with ⟨occurrence, occurs, same⟩
    exact ⟨occurrence, List.mem_append_left _ occurs, same⟩
  · rcases rest position member with ⟨occurrence, occurs, same⟩
    exact ⟨occurrence, List.mem_append_right _ occurs, same⟩

theorem NamesVariables.occurring {expr : Expr} {operands : List Expr}
    (named : NamesVariables expr.variableUses operands) (enclosing : List CaseArm) :
    Occurring (expr.occurrences enclosing) (storedAt enclosing operands) := by
  intro position member
  rcases List.mem_map.mp member with ⟨operand, operandMem, rfl⟩
  rcases named operand operandMem with ⟨use, useMem, same⟩
  exact ⟨_, List.mem_map_of_mem useMem, same, rfl⟩

theorem occurring_borrows {expr : Expr} (assignable : Assignable expr.postOrder)
    (enclosing : List CaseArm) :
    Occurring (expr.occurrences enclosing) (storedAt enclosing expr.borrowOperands) :=
  NamesVariables.occurring (expr.borrowOperands_named assignable) enclosing

def Stmt.Occurs (stmt : Stmt) : Prop :=
  Assignable stmt.postOrder → ∀ enclosing,
    Occurring (stmt.occurrences enclosing) (stmt.storagePositions enclosing)

theorem occurring_stmts {stmts : List Stmt} (each : ∀ stmt ∈ stmts, stmt.Occurs)
    (assignable : Assignable (Stmt.postOrderOf stmts)) (enclosing : List CaseArm) :
    Occurring (Stmt.occurrencesOf enclosing stmts) (Stmt.storagePositionsOf enclosing stmts) := by
  induction stmts with
  | nil =>
      rw [Stmt.storagePositionsOf]
      exact nofun
  | cons stmt stmts induction =>
      rw [Stmt.postOrderOf] at assignable
      rw [Stmt.occurrencesOf, Stmt.storagePositionsOf]
      apply Occurring.append
      · exact each stmt List.mem_cons_self (assignable.mono (List.subset_append_left _ _)) enclosing
      · exact induction (fun other member => each other (List.mem_cons_of_mem _ member))
          (assignable.mono (List.subset_append_right _ _))

theorem occurring_arms {arms : List CaseArm} (each : ∀ arm ∈ arms, arm.getBody.Occurs)
    (assignable : Assignable (CaseArm.postOrderOf arms)) (enclosing : List CaseArm) :
    Occurring (CaseArm.occurrencesOf enclosing arms)
      (CaseArm.storagePositionsOf enclosing arms) := by
  induction arms with
  | nil =>
      rw [CaseArm.storagePositionsOf]
      exact nofun
  | cons arm arms induction =>
      rw [CaseArm.postOrderOf] at assignable
      rw [CaseArm.occurrencesOf, CaseArm.storagePositionsOf]
      apply Occurring.append
      · have bodyOccurs := each arm List.mem_cons_self
        cases arm with
        | mk info tag patterns body =>
            rw [CaseArm.postOrder] at assignable
            rw [CaseArm.occurrences, CaseArm.storagePositions]
            exact bodyOccurs (assignable.mono (List.subset_append_left _ _)) _
      · exact induction (fun other member => each other (List.mem_cons_of_mem _ member))
          (assignable.mono (List.subset_append_right _ _))

theorem Expr.targetOperands_named {lhs : Expr} (assignable : Assignable lhs.postOrder)
    (isTarget : isAssignable lhs = true ∨ lhs.isDeRef = true) :
    NamesVariables lhs.variableUses lhs.targetOperands := by
  have borrows := lhs.borrowOperands_named assignable
  rw [Expr.targetOperands]
  split
  · exact borrows
  · rename_i notDeRef
    exact borrows.cons (isTarget.resolve_right notDeRef) (List.Subset.refl _)

theorem Stmt.occurs (stmt : Stmt) : stmt.Occurs := by
  induction stmt with
  | assignStmt info lhs rhs =>
      intro assignable enclosing
      rw [Stmt.postOrder] at assignable
      rw [Stmt.occurrences, Stmt.storagePositions, storedAt, List.map_append]
      have isTarget := assignable.assigns info lhs rhs (by simp)
      apply Occurring.append
      · exact (Expr.targetOperands_named (assignable.mono (by simp)) isTarget).occurring enclosing
      · exact occurring_borrows (assignable.mono (by simp)) enclosing
  | blockStmt info stmts each =>
      intro assignable enclosing
      rw [Stmt.postOrder] at assignable
      rw [Stmt.occurrences, Stmt.storagePositions]
      exact occurring_stmts each (assignable.mono (by simp)) enclosing
  | whileStmt info condition body bodyOccurs =>
      intro assignable enclosing
      rw [Stmt.postOrder] at assignable
      rw [Stmt.occurrences, Stmt.storagePositions]
      exact (occurring_borrows (assignable.mono (by simp)) enclosing).append
        (bodyOccurs (assignable.mono (by simp)) enclosing)
  | ifStmt info condition thenStmt elseStmt thenOccurs elseOccurs =>
      intro assignable enclosing
      rw [Stmt.postOrder] at assignable
      have inCondition := occurring_borrows (assignable.mono (by simp) :
        Assignable condition.postOrder) enclosing
      have inThen := thenOccurs (assignable.mono (by simp)) enclosing
      cases elseStmt with
      | none =>
          rw [Stmt.occurrences, Stmt.storagePositions]
          exact inCondition.append inThen
      | some elseStmt =>
          rw [Stmt.occurrences, Stmt.storagePositions]
          rw [Stmt.elsePostOrder] at assignable
          have inElse := elseOccurs elseStmt rfl (assignable.mono
            (List.subset_append_of_subset_left _ (List.subset_append_right _ _))) enclosing
          exact inCondition.append (inThen.append inElse)
  | outputStmt info arg | errorStmt info arg =>
      intro assignable enclosing
      rw [Stmt.postOrder] at assignable
      rw [Stmt.occurrences, Stmt.storagePositions]
      exact occurring_borrows (assignable.mono (by simp)) enclosing
  | caseStmt info caseExpr arms each =>
      intro assignable enclosing
      rw [Stmt.postOrder] at assignable
      rw [Stmt.occurrences, Stmt.storagePositions]
      exact (occurring_borrows (assignable.mono (by simp)) enclosing).append
        (occurring_arms each (assignable.mono (by simp)) enclosing)

theorem Function.occurring {function : Function} (assignable : Assignable function.postOrder) :
    Occurring function.occurrences function.storagePositions := by
  rw [Function.postOrder] at assignable
  apply Occurring.append
  · exact occurring_stmts (fun stmt _ => stmt.occurs)
      (assignable.mono (List.subset_append_left _ _)) []
  · exact occurring_borrows (assignable.mono (List.subset_append_right _ _)) []

/-! ## The exact condition -/

/-- An accepted program declares the variables it names, and no function has the
name of a variable. -/
theorem SymbolTable.build_visited {program : Program} {symbols : SymbolTable}
    (built : SymbolTable.build program = .ok symbols) {function : Function}
    (member : function ∈ program.functions) :
    ∃ names, LocalNameCollector.visitFunction symbols.functionNames function = .ok names := by
  rw [SymbolTable.build, bind_eq_ok] at built
  rcases built with ⟨functionNames, _, built⟩
  rw [bind_eq_ok] at built
  rcases built with ⟨localNames, localsBuilt, built⟩
  cases built
  rcases foldlM_visits localsBuilt function member with ⟨before, after, visited⟩
  rw [LocalNameCollector.endVisitFunction, bind_eq_ok] at visited
  rcases visited with ⟨names, visited, _⟩
  exact ⟨names, visited⟩

theorem SymbolTable.getFunction_eq_none_iff {symbols : SymbolTable} {name : String} :
    symbols.getFunction name = none ↔ symbols.functionNames.contains name = false := by
  rw [SymbolTable.getFunction, Option.map_eq_none_iff, Std.ExtTreeMap.contains_eq_isSome_getElem?,
    Option.isSome_eq_false_iff, Option.isNone_iff_eq_none]

theorem lastNamed_name {name : String} {decls : List DeclNode} {decl : DeclNode}
    (found : lastNamed name decls = some decl) : decl.name = name := by
  have named := (List.mem_filter.mp (List.mem_of_getLast? found)).2
  exact beq_iff_eq.mp named

theorem isSome_lastNamed {name : String} {decls : List DeclNode} :
    (lastNamed name decls).isSome = true ↔ ∃ decl ∈ decls, decl.name = name := by
  constructor
  · intro found
    rcases Option.isSome_iff_exists.mp found with ⟨decl, found⟩
    exact ⟨decl, lastNamed_mem found, lastNamed_name found⟩
  · rintro ⟨decl, member, named⟩
    rw [lastNamed, List.getLast?_isSome]
    exact List.ne_nil_of_mem (List.mem_filter.mpr ⟨member, beq_iff_eq.mpr named⟩)

theorem CaseArm.binds_iff {arm : CaseArm} {name : String} :
    arm.binds name = true ↔ ∃ decl ∈ arm.getBindings, decl.name = name := by
  simp [CaseArm.binds]

/-- A used name that no function has is in scope, unless the arms that bind it have
ended. -/
theorem isSome_innermost_iff {symbols : SymbolTable} {program : Program}
    (built : SymbolTable.build program = .ok symbols) {function : Function}
    (member : function ∈ program.functions) {occurrence : Occurrence}
    (occurs : occurrence ∈ function.occurrences) :
    (function.innermost occurrence).isSome = true ↔
      symbols.getFunction occurrence.name = none ∧
        ¬ function.EndedBinder occurrence.enclosing occurrence.name := by
  rcases SymbolTable.build_visited built member with ⟨names, visited⟩
  rcases LocalNameCollector.visited_visitFunction visited with ⟨lookup, declared⟩
  rw [Function.innermost, isSome_lastNamed, SymbolTable.getFunction_eq_none_iff]
  constructor
  · rintro ⟨decl, inScope, named⟩
    have inFunction : decl ∈ function.variables := by
      rcases List.mem_append.mp inScope with early | inArm
      · exact List.mem_append_left _ early
      · rcases List.mem_flatMap.mp inArm with ⟨arm, armMem, bound⟩
        have armInFunction := (function.enclosing_sublist occurs).subset armMem
        exact List.mem_append_right _ (List.mem_flatMap.mpr ⟨arm, armInFunction, bound⟩)
    constructor
    · apply LocalNameCollector.visitFunction_apart visited
      rw [lookup, isSome_lastNamed]
      exact ⟨decl, inFunction, named⟩
    · intro ended
      rcases List.mem_append.mp inScope with early | inArm
      · exact ended.undeclared decl early named
      · rcases List.mem_flatMap.mp inArm with ⟨arm, armMem, bound⟩
        have binds : arm.binds occurrence.name = true := CaseArm.binds_iff.mpr ⟨decl, bound, named⟩
        rw [ended.outside arm armMem] at binds
        cases binds
  · rintro ⟨notFunction, notEnded⟩
    have known : (lastNamed occurrence.name function.variables).isSome = true := by
      rw [← lookup]
      apply (declared occurrence occurs).resolve_left
      rw [notFunction]
      exact Bool.false_ne_true
    rcases isSome_lastNamed.mp known with ⟨decl, inFunction, named⟩
    by_contra missing
    apply notEnded
    constructor
    · rcases List.mem_append.mp inFunction with early | inArm
      · exact absurd ⟨decl, List.mem_append_left _ early, named⟩ missing
      · rcases List.mem_flatMap.mp inArm with ⟨arm, armMem, bound⟩
        exact ⟨arm, armMem, CaseArm.binds_iff.mpr ⟨decl, bound, named⟩⟩
    · intro other early sameName
      exact missing ⟨other, List.mem_append_left _ early, sameName⟩
    · intro arm armMem
      rw [Bool.eq_false_iff]
      intro binds
      rcases CaseArm.binds_iff.mp binds with ⟨other, bound, sameName⟩
      exact missing ⟨other, List.mem_append_right _ (List.mem_flatMap.mpr ⟨arm, armMem, bound⟩),
        sameName⟩

namespace CodeGenVisitor

/-- The address is a slot in scope exactly when some binding of the name is. -/
theorem lexicalAddress_slot_iff {functionIndex : FunctionIndex} {function : Function}
    {position : StoragePosition} {occurrence : Occurrence}
    (isVar : position.operand = .varExpr occurrence.info occurrence.name)
    (sameArms : position.enclosing = occurrence.enclosing) :
    (∃ info, ∃ slot ∈ function.formals ++ function.declarations ++
        position.enclosing.flatMap CaseArm.getBindings,
      position.operand = .varExpr info slot.name ∧
        lexicalAddress functionIndex function position = .ok (.slot slot)) ↔
      (function.innermost occurrence).isSome = true := by
  rw [lexicalAddress, isVar, sameArms]
  dsimp only
  constructor
  · rintro ⟨info, slot, inScope, same, _⟩
    have sameName : occurrence.name = slot.name := (Expr.varExpr.inj same).2
    exact isSome_lastNamed.mpr ⟨slot, inScope, sameName.symm⟩
  · intro found
    rcases Option.isSome_iff_exists.mp found with ⟨slot, isSlot⟩
    refine ⟨occurrence.info, slot, lastNamed_mem isSlot, ?_, ?_⟩
    · rw [lastNamed_name isSlot]
    · rw [isSlot]
      rfl

/-- Every assigned and every borrowed variable of an accepted program has its slot
exactly when none of them is a function or a binder whose arm has ended. -/
theorem findsStorage_iff {program : Program} {symbols : SymbolTable}
    (built : SymbolTable.build program = .ok symbols)
    (assignable : CheckAssignable.check program = .ok ()) :
    (∀ function ∈ program.functions, FindsStorage (functionIndexOf program) function) ↔
      ∀ function ∈ program.functions, ∀ position ∈ function.storagePositions,
        ∀ info name, position.operand = .varExpr info name →
          symbols.getFunction name = none ∧
            ¬ function.EndedBinder position.enclosing name := by
  apply forall_congr'
  intro function
  apply forall_congr'
  intro member
  have nodes : function.postOrder ⊆ program.postOrder :=
    fun node inFunction => List.mem_flatMap.mpr ⟨function, member, inFunction⟩
  have occurring := Function.occurring ((check_assignable assignable).mono nodes)
  rw [FindsStorage, addressesOfFunction_eq, List.forall₂_map_right_iff, List.forall₂_same]
  apply forall_congr'
  intro position
  apply forall_congr'
  intro positionMem
  rcases occurring position positionMem with ⟨occurrence, occurs, isVar, sameArms⟩
  rw [lexicalAddress_slot_iff isVar sameArms, isSome_innermost_iff built member occurs, isVar,
    sameArms]
  constructor
  · rintro inScope info name same
    cases same
    exact inScope
  · exact fun all => all occurrence.info occurrence.name rfl

end CodeGenVisitor

/-! ## A function that is assigned -/

namespace AssignedFunction

/-- `f() { return 1; }` -/
def f : Function where
  decl := { id := 0, name := "f" }
  formals := []
  declarations := []
  stmts := []
  returnInfo := { id := 1 }
  returnArg := .numExpr { id := 2 } 1

/-- `g() { return 2; }` -/
def g : Function where
  decl := { id := 3, name := "g" }
  formals := []
  declarations := []
  stmts := []
  returnInfo := { id := 4 }
  returnArg := .numExpr { id := 5 } 2

/-- `main() { f = g; return 0; }` -/
def main : Function where
  decl := { id := 6, name := "main" }
  formals := []
  declarations := []
  stmts := [.assignStmt { id := 7 } (.varExpr { id := 8 } "f") (.varExpr { id := 9 } "g")]
  returnInfo := { id := 10 }
  returnArg := .numExpr { id := 11 } 0

def program : Program where
  typedecls := []
  functions := [f, g, main]

def solver (symbols : SymbolTable) : Option CfaSolver :=
  CFAnalyzer.analyze program symbols id (fun s source target =>
    (s.findPath id 8 source target).getD []) 16

/-- The program has no expression but constants and names. -/
def types (unifier : TermUnionFind TopType) : TypeResults where
  ofDecl decl := (TypeInference.getInferredType unifier decl).toOption.getD .int
  ofExpr _ := .int

def accepted (symbols : SymbolTable) : Bool :=
  (CheckAssignable.check program).isOk && (CheckSumTypeNames.check program).isOk &&
    (CheckCaseCompleteness.check program).isOk && (CheckPatternTypes.check program).isOk &&
    (solver symbols).any fun s =>
      match TypeInference.runPoly symbols (CallGraphBuilder.build program symbols s) with
      | .error _ => false
      | .ok (marked, unifier) =>
          (FunctionEffectSummaries.build .allEnabled marked (types unifier) program).isOk &&
            (BorrowChecker.checkPositions .allEnabled marked (types unifier) (fun _ => none)
              program).isOk &&
            (MoveAnalysis.run .allEnabled marked (types unifier) (fun _ => none) program).isOk

theorem program_accepted : ∃ symbols, SymbolTable.build program = .ok symbols ∧
    accepted symbols = true := by
  have holds : (match SymbolTable.build program with
      | .error _ => false
      | .ok symbols => accepted symbols) = true := by
    decide +kernel
  split at holds
  · cases holds
  · rename_i symbols built
    exact ⟨symbols, built, holds⟩

theorem program_assignable : CheckAssignable.check program = .ok () := by
  decide +kernel

/-- The program is accepted, and the assignment goes to a function index. -/
theorem program_lacksStorage : ∃ symbols, SymbolTable.build program = .ok symbols ∧
    accepted symbols = true ∧
      ¬ ∀ function ∈ program.functions,
        CodeGenVisitor.FindsStorage (CodeGenVisitor.functionIndexOf program) function := by
  rcases program_accepted with ⟨symbols, built, passes⟩
  refine ⟨symbols, built, passes, fun finds => ?_⟩
  have inMain := finds main (by simp [program])
  have address : CodeGenVisitor.addressesOfFunction (CodeGenVisitor.functionIndexOf program) main =
      [.ok (.functionIndex 0)] := by
    decide +kernel
  rw [CodeGenVisitor.FindsStorage, address] at inMain
  rcases List.forall₂_cons_right_iff.mp inMain with ⟨_, _, ⟨_, _, _, _, isSlot⟩, _⟩
  cases isSlot

theorem program_findsStorage_iff : ∃ symbols, SymbolTable.build program = .ok symbols ∧
    ((∀ function ∈ program.functions,
        CodeGenVisitor.FindsStorage (CodeGenVisitor.functionIndexOf program) function) ↔
      ∀ function ∈ program.functions, ∀ position ∈ function.storagePositions,
        ∀ info name, position.operand = .varExpr info name →
          symbols.getFunction name = none ∧
            ¬ function.EndedBinder position.enclosing name) := by
  rcases program_accepted with ⟨symbols, built, _⟩
  exact ⟨symbols, built, CodeGenVisitor.findsStorage_iff built program_assignable⟩

end AssignedFunction

end Topc
