import Topc.CodeGen.CompiledStatements

/-! # The instructions of a case statement on words

The instructions of a case statement say what its basic blocks do with the words of
memory. -/

namespace Topc

open BasicBlocks CodeGenVisitor

namespace Activation

/-! ## Instructions on words -/

section

variable (activation : Activation)

def perform (words : Slot → Word) : MatchEffect → Runtime.Run Unit
  | .bind binder slot => do
      let _ ← Runtime.store (words slot) (activation.slotAddress binder.id)
  | .destroy slot paramDecl =>
      activation.destroyValue (words slot) (activation.context.types.ofDecl paramDecl)
  | .free slot => do
      let _ ← Runtime.free (words slot)

/-- Run a block up to the first test that fails. The word that is loaded from a slot is
known from then on. -/
def runBlock (words : Slot → Word) : List CaseInstruction → Runtime.Run Bool
  | [] => return true
  | .loadField slot :: code => do
      let word ← Runtime.load (Memory.field (words slot.dropLast) (slot.getLast?.getD 0))
      runBlock (Function.update words slot word) code
  | .testTag slot expected :: code => do
      let tag ← Runtime.load (words slot)
      if tag = BitVec.ofNat 64 expected then runBlock words code else return false
  | .perform effect :: code => do
      activation.perform words effect
      runBlock words code

variable (body : CaseArm → Runtime.Run Unit) (box : Word)

/-- Bind what the arm binds, and run its body. -/
def enterArm (code : CaseCodeGen.ArmCode) : Runtime.Run Unit := do
  let _ ← activation.runBlock (fun _ => box) code.bindings
  body code.arm

def runChain : List CaseCodeGen.ArmCode → Runtime.Run Bool
  | [] => return false
  | code :: chain => do
      if ← activation.runBlock (fun _ => box) code.tests then
        activation.enterArm body box code
        return true
      else runChain chain

/-- Run the arm that is entered. Without one the result is false. -/
def runCase (code : CaseCodeGen.CaseCode) : Runtime.Run Bool := do
  let tag ← Runtime.load box
  Run.select (code.map fun branch =>
    (BitVec.ofNat 64 branch.1, activation.runChain body box branch.2)) tag false

/-- The instructions that the arms of a case statement are generated as. -/
abbrev armCode (consuming : Bool) (arms : List CaseArm) : CaseArm → CaseCodeGen.ArmCode :=
  CaseCodeGen.generateArm activation.context.symbols activation.context.types
    activation.context.plan consuming arms

abbrev caseCode (info : NodeInfo) (arms : List CaseArm) : CaseCodeGen.CaseCode :=
  CaseCodeGen.generateCase activation.context.symbols activation.context.types
    activation.context.plan (CaseCodeGen.isConsuming activation.context.plan info) arms

end

/-! ## The blocks of a pattern -/

/-- The words in slots up to a depth are the same. -/
def AgreeTo (depth : Nat) (words others : Slot → Word) : Prop :=
  ∀ slot, slot.length ≤ depth → others slot = words slot

variable {activation : Activation} {words : Slot → Word} {box : Slot} {offset : Nat}
  {code : List CaseInstruction} {next : Runtime.Run Bool}

theorem AgreeTo.trans {depth later : Nat} {first second third : Slot → Word}
    (left : AgreeTo depth first second) (right : AgreeTo later second third)
    (le : depth ≤ later) : AgreeTo depth first third :=
  fun slot short => (right slot (Nat.le_trans short le)).trans (left slot short)

theorem agreeTo_update (box : Slot) (offset : Nat) (word : Word) :
    AgreeTo box.length words (Function.update words (box ++ [offset]) word) := by
  intro slot short
  apply Function.update_of_ne
  rintro rfl
  rw [List.length_append, List.length_singleton] at short
  exact Nat.not_succ_le_self _ short

/-- The code goes on in the same way whatever the blocks before it have loaded. -/
def GoesOn (activation : Activation) (box : Slot) (words : Slot → Word)
    (code : List CaseInstruction) (next : Runtime.Run Bool) : Prop :=
  ∀ others, AgreeTo box.length words others → activation.runBlock others code = next

theorem GoesOn.inside (goesOn : activation.GoesOn box words code next) (word : Word) :
    activation.GoesOn (box ++ [offset]) (Function.update words (box ++ [offset]) word) code
      next := by
  intro others agree
  apply goesOn
  apply (agreeTo_update box offset word).trans agree
  rw [List.length_append]
  exact Nat.le_add_right _ _

theorem runBlock_loadField (box : Slot) (offset : Nat) :
    activation.runBlock words (.loadField (box ++ [offset]) :: code) = (do
      let word ← Runtime.load (Memory.field (words box) offset)
      activation.runBlock (Function.update words (box ++ [offset]) word) code) := by
  rw [runBlock, List.dropLast_concat, List.getLast?_concat, Option.getD_some]

mutual
/-- The tests of a pattern go on where it matches. -/
theorem runBlock_emitPatternTestCode {box : Slot} {offset : Nat} {words : Slot → Word}
    {code : List CaseInstruction} {next : Runtime.Run Bool}
    (goesOn : activation.GoesOn box words code next) : ∀ pattern : Pattern,
    activation.runBlock words (CaseCodeGen.emitPatternTestCode activation.context.symbols
        (box ++ [offset]) pattern ++ code) = (do
      if ← activation.matchPattern (words box) offset pattern then next else return false)
  | .var .. | .wildcard _ => by
      rw [CaseCodeGen.emitPatternTestCode, matchPattern]
      exact goesOn words fun _ _ => rfl
  | .ctor info tag subPatterns => by
      rw [CaseCodeGen.emitPatternTestCode, List.cons_append, List.cons_append,
        runBlock_loadField, matchPattern, Run.bind_assoc]
      apply congrArg (Runtime.load _ >>= ·)
      funext inner
      rw [runBlock, Function.update_self, Run.bind_assoc]
      apply congrArg (Runtime.load inner >>= ·)
      funext innerTag
      by_cases same : innerTag =
          BitVec.ofNat 64 (CaseCodeGen.innerTagIdx activation.context.symbols tag)
      · rw [if_pos same, if_pos same,
          runBlock_emitPatternTestCodes (goesOn.inside inner) subPatterns, Function.update_self]
      · rw [if_neg same, if_neg same]
        rfl

theorem runBlock_emitPatternTestCodes {box : Slot} {offset : Nat} {words : Slot → Word}
    {code : List CaseInstruction} {next : Runtime.Run Bool}
    (goesOn : activation.GoesOn box words code next) : ∀ patterns : List Pattern,
    activation.runBlock words (CaseCodeGen.emitPatternTestCodes activation.context.symbols
        box offset patterns ++ code) = (do
      if ← activation.matchPatterns (words box) offset patterns then next else return false)
  | [] => by
      rw [CaseCodeGen.emitPatternTestCodes, matchPatterns]
      exact goesOn words fun _ _ => rfl
  | pattern :: patterns => by
      have rest : activation.GoesOn box words
          (CaseCodeGen.emitPatternTestCodes activation.context.symbols box (offset + 1) patterns
            ++ code) (do
          if ← activation.matchPatterns (words box) (offset + 1) patterns then next
          else return false) := by
        intro others agree
        rw [runBlock_emitPatternTestCodes (fun later same => goesOn later
          (agree.trans same (Nat.le_refl _))) patterns, agree box (Nat.le_refl _)]
      rw [CaseCodeGen.emitPatternTestCodes, matchPatterns, List.append_assoc,
        runBlock_emitPatternTestCode rest pattern, Run.bind_assoc]
      apply congrArg (activation.matchPattern _ _ _ >>= ·)
      funext passed
      cases passed <;> rfl
end

variable {consuming : Bool}

theorem runBlock_emitDestroyValue (slot : Slot) (paramDecl : DeclNode) :
    activation.runBlock words ((CaseCodeGen.emitDestroyValue activation.context.types slot
        paramDecl).map .perform ++ code) = (do
      activation.destroyValue (words slot) (activation.context.types.ofDecl paramDecl)
      activation.runBlock words code) := by
  rw [CaseCodeGen.emitDestroyValue, OwnershipClassifier.classify]
  cases classified : OwnershipClassifier.classifyType
      (activation.context.types.ofDecl paramDecl) with
  | own => rfl
  | copy =>
      rw [destroyValue, classified]
      rfl

theorem runBlock_free (slot : Slot) :
    activation.runBlock words
        ((if consuming then [.perform (.free slot)] else []) ++ code) = (do
      freeIf consuming (words slot)
      activation.runBlock words code) := by
  cases consuming <;> rfl

mutual
/-- The bindings of a pattern take the value apart, and go on. -/
theorem runBlock_emitPatternBindCode {box : Slot} {offset : Nat} {words : Slot → Word}
    {code : List CaseInstruction} {next : Runtime.Run Bool}
    (goesOn : activation.GoesOn box words code next) (paramDecl : Option DeclNode) :
    ∀ pattern : Pattern,
    activation.runBlock words (CaseCodeGen.emitPatternBindCode activation.context.symbols
        activation.context.types activation.context.plan consuming (box ++ [offset]) paramDecl
        pattern ++ code) = (do
      activation.bindPattern consuming (words box) offset paramDecl pattern
      next)
  | .var info decl => by
      rw [CaseCodeGen.emitPatternBindCode, List.cons_append, List.cons_append, List.nil_append,
        runBlock_loadField, bindPattern, Run.bind_assoc]
      apply congrArg (Runtime.load _ >>= ·)
      funext word
      rw [runBlock, perform, Function.update_self, goesOn _ (agreeTo_update box offset word)]
  | .wildcard info => by
      unfold CaseCodeGen.emitPatternBindCode
      rw [List.cons_append, runBlock_loadField, bindPattern, Run.bind_assoc]
      apply congrArg (Runtime.load _ >>= ·)
      funext word
      have rest := goesOn _ (agreeTo_update box offset word)
      cases paramDecl with
      | none => exact rest
      | some param =>
          by_cases discarded : info.id ∈ activation.context.plan.discardedPayloads
          · simp only [if_pos discarded]
            rw [runBlock_emitDestroyValue, Function.update_self, rest]
          · simp only [if_neg discarded]
            exact rest
  | .ctor info tag subPatterns => by
      rw [CaseCodeGen.emitPatternBindCode, List.cons_append, runBlock_loadField, bindPattern,
        Run.bind_assoc]
      apply congrArg (Runtime.load _ >>= ·)
      funext inner
      have frees : activation.GoesOn (box ++ [offset])
          (Function.update words (box ++ [offset]) inner)
          ((if consuming then [.perform (.free (box ++ [offset]))] else []) ++ code) (do
          freeIf consuming inner
          next) := by
        intro others agree
        rw [runBlock_free, agree _ (Nat.le_refl _), Function.update_self,
          goesOn.inside inner others agree]
      rw [List.append_assoc, runBlock_emitPatternBindCodes frees _ subPatterns,
        Function.update_self, Run.bind_assoc]

theorem runBlock_emitPatternBindCodes {box : Slot} {offset : Nat} {words : Slot → Word}
    {code : List CaseInstruction} {next : Runtime.Run Bool}
    (goesOn : activation.GoesOn box words code next) (params : List DeclNode) :
    ∀ patterns : List Pattern,
    activation.runBlock words (CaseCodeGen.emitPatternBindCodes activation.context.symbols
        activation.context.types activation.context.plan consuming box offset params
        patterns ++ code) = (do
      activation.bindPatterns consuming (words box) offset params patterns
      next)
  | [] => by
      rw [CaseCodeGen.emitPatternBindCodes, bindPatterns]
      exact goesOn words fun _ _ => rfl
  | pattern :: patterns => by
      have rest : activation.GoesOn box words
          (CaseCodeGen.emitPatternBindCodes activation.context.symbols activation.context.types
            activation.context.plan consuming box (offset + 1) params.tail patterns ++ code) (do
          activation.bindPatterns consuming (words box) (offset + 1) params.tail patterns
          next) := by
        intro others agree
        rw [runBlock_emitPatternBindCodes (fun later same => goesOn later
          (agree.trans same (Nat.le_refl _))) params.tail patterns, agree box (Nat.le_refl _)]
      rw [CaseCodeGen.emitPatternBindCodes, bindPatterns, List.append_assoc,
        runBlock_emitPatternBindCode rest params.head? pattern, Run.bind_assoc]
end

/-! ## The switch and its chains -/

section

variable {arms : List CaseArm} {body : CaseArm → Runtime.Run Unit} {box : Word}

theorem runBlock_tests (arm : CaseArm) :
    activation.runBlock (fun _ => box) (activation.armCode consuming arms arm).tests =
      activation.matchPatterns box 1 arm.getPatterns := by
  have ends : activation.GoesOn [] (fun _ => box) [] (return true) := fun _ _ => rfl
  rw [CaseCodeGen.generateArm_tests, ← List.append_nil (CaseCodeGen.emitPatternTestCodes _ _ _ _),
    runBlock_emitPatternTestCodes ends, Run.bind_ite]

theorem generateArm_bindings (arm : CaseArm) :
    (activation.armCode consuming arms arm).bindings =
      CaseCodeGen.emitPatternBindCodes activation.context.symbols activation.context.types
        activation.context.plan consuming [] 1
        (CaseCodeGen.variantParams (CaseCodeGen.ownerDecl activation.context.symbols arms)
          arm.getTag) arm.getPatterns := rfl

theorem enterArm_armCode (arm : CaseArm) :
    activation.enterArm body box (activation.armCode consuming arms arm) = (do
      activation.bindPatterns consuming box 1
        (CaseCodeGen.variantParams (CaseCodeGen.ownerDecl activation.context.symbols arms)
          arm.getTag) arm.getPatterns
      body arm) := by
  have ends : activation.GoesOn [] (fun _ => box) [] (return true) := fun _ _ => rfl
  rw [enterArm, generateArm_bindings, ← List.append_nil (CaseCodeGen.emitPatternBindCodes ..),
    runBlock_emitPatternBindCodes ends, Run.bind_assoc]
  rfl

/-- The chain of a constructor tries the arms in their order. -/
theorem runChain_eq_tryArms (chain : List CaseArm) :
    activation.runChain body box (chain.map (activation.armCode consuming arms)) =
      activation.tryArms (CaseCodeGen.ownerDecl activation.context.symbols arms) consuming box
        (chain.map fun arm => (arm, body arm)) := by
  induction chain with
  | nil => rfl
  | cons arm chain induction =>
      rw [List.map_cons, List.map_cons, runChain, tryArms, runBlock_tests, evalArm, Run.bind_assoc,
        induction]
      apply congrArg (activation.matchPatterns box 1 arm.getPatterns >>= ·)
      funext passed
      cases passed with
      | false => rfl
      | true =>
          rw [if_pos rfl, if_pos rfl, enterArm_armCode, Run.bind_assoc, Run.bind_assoc]
          apply congrArg (activation.bindPatterns _ _ _ _ _ >>= ·)
          funext _
          rw [Run.bind_assoc]
          rfl

/-- The switch over the instructions runs the first arm that matches. -/
theorem runCase_eq_evalArms {info : NodeInfo}
    (distinct : TagsDistinct (CaseCodeGen.ownerDecl activation.context.symbols arms) arms) :
    activation.runCase body box (activation.caseCode info arms) = (do
      let tag ← Runtime.load box
      activation.evalArms (CaseCodeGen.ownerDecl activation.context.symbols arms)
        (CaseCodeGen.isConsuming activation.context.plan info) box tag
        (arms.map fun arm => (arm, body arm))) := by
  rw [runCase]
  apply congrArg (Runtime.load box >>= ·)
  funext tag
  rw [← select_switchArms (by rwa [map_body_fst]), switchArms, map_body_fst, caseCode,
    CaseCodeGen.generateCase, List.map_map]
  apply congrArg fun branches => Run.select branches tag false
  apply List.map_congr_left
  intro name _
  unfold Function.comp
  dsimp only
  rw [runChain_eq_tryArms, List.filter_map]
  rfl

end

end Activation

namespace Execution

variable {execution : Execution} {scope : NamedValues}

/-- The basic blocks of a case statement do what its instructions do on the words. -/
theorem caseStmt_runs (info : NodeInfo) (caseExpr : Expr) {arms : List CaseArm}
    (distinct : Activation.TagsDistinct
      (CaseCodeGen.ownerDecl execution.activation.context.symbols arms) arms)
    (each : ∀ arm ∈ arms, execution.Performs arm.getBody) (given : Knowledge Word) :
    execution.Implements given (fun state => state = scope)
      (generateStmt execution.activation.context (.caseStmt info caseExpr arms))
      (do
        let box ← execution.activation.evalExpr scope caseExpr
        let _ ← execution.activation.runCase (execution.activation.evalBody scope) box
          (execution.activation.caseCode info arms)
        Activation.freeIf (CaseCodeGen.isConsuming execution.activation.context.plan info) box)
      stay nothing fun state => state = scope := by
  apply (caseStmt_performs info caseExpr distinct each scope given).congr
  rw [Activation.evalStmt]
  apply congrArg (execution.activation.evalExpr scope caseExpr >>= ·)
  funext box
  rw [Activation.evalCase, evalBodies_eq, Activation.runCase_eq_evalArms distinct, Run.bind_assoc]

end Execution

end Topc
