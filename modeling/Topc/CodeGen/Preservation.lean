import Topc.CodeGen.CompiledFunctions
import Topc.SemanticAnalysis

/-! # Code generation preserves the meaning of programs

What a call of the program comes to, the call of its code comes to. The proof is by
induction on the depth of calls. -/

namespace Topc

open BasicBlocks CodeGenVisitor

/-! ## Frames -/

/-- A body in a frame of its own. -/
theorem Runtime.withFrame_converges {platform : Platform} {slots : List NodeId}
    {body : (NodeId → Word) → Runtime.Run Word} {code : Nat → (NodeId → Word) → Runtime.Run Word}
    (converges : ∀ slotAddress world outcome, body slotAddress world = some outcome →
      Fuel.Converges (fun fuel => code fuel slotAddress world) outcome)
    {world : World} {outcome : Outcome World Word}
    (ran : Runtime.withFrame platform slots body world = some outcome) :
    Fuel.Converges (fun fuel => Runtime.withFrame platform slots (code fuel) world) outcome := by
  rw [Runtime.withFrame, Option.map_eq_some_iff] at ran
  rcases ran with ⟨inner, innerRan, rfl⟩
  rcases converges _ _ _ innerRan with ⟨bound, runs⟩
  refine ⟨bound, fun fuel enough => ?_⟩
  simp only [Runtime.withFrame, runs fuel enough, Option.map_some]

/-! ## Functions that destroy sums -/

section

variable {context : CodeGenContext} {before : NamedValues → Prop}

theorem emitDestroyValue_succeeds {value : IrOperand} (type : TopType) :
    Gen.Succeeds before (emitDestroyValue context value type) before := by
  rw [emitDestroyValue]
  cases OwnershipClassifier.classifyType type with
  | copy => exact .pure
  | own =>
      cases asSumType type with
      | some ctors => exact Gen.Succeeds.emit.bind fun _ => .pure
      | none => exact Gen.Succeeds.emit.bind fun _ => Gen.Succeeds.emit.bind fun _ => .pure

theorem destroyFields_succeeds {box : IrOperand} (fields : List (Nat × DeclNode)) :
    Gen.Succeeds before (destroyFields context box fields) before := by
  induction fields with
  | nil => exact .pure
  | cons field fields induction =>
      rcases field with ⟨index, param⟩
      apply Gen.Succeeds.emit.bind
      intro field
      apply Gen.Succeeds.emit.bind
      intro value
      exact (emitDestroyValue_succeeds _).bind fun _ => induction

theorem getOrCreateSumDestroyFn_succeeds (owner : Option SumTypeDecl) :
    Gen.Succeeds before (getOrCreateSumDestroyFn context owner) before := by
  apply Gen.Succeeds.bind _ fun _ => Gen.Succeeds.terminate
  apply Gen.Succeeds.emit.bind
  intro box
  apply Gen.Succeeds.emit.bind
  intro tag
  apply Gen.Succeeds.bind _ fun _ => Gen.Succeeds.pure
  apply Gen.Succeeds.landing _ (Gen.Succeeds.emit.bind fun _ => .pure)
  intro free
  apply Gen.Succeeds.cases
  intro branch member
  rcases List.mem_map.mp member with ⟨variant, _, rfl⟩
  exact (destroyFields_succeeds _).bind fun _ => .terminate

end

/-! ## Calls -/

section

variable {context : CodeGenContext} {program : Program} {platform : Platform}
  {functions : List CompiledFunction}

/-- The functions of the table are those of the program, one by one. -/
theorem generate_length (generated : generate context program = .ok functions) :
    functions.length = program.functions.length :=
  (mapM_eq_ok.mp generated).length_eq.symm

theorem compiled_of_function (generated : generate context program = .ok functions) {index : Nat}
    {function : Function} (stored : program.functions[index]? = some function) :
    ∃ compiled, functions[index]? = some compiled ∧
      compileFunction context function = .ok compiled := by
  rcases List.getElem?_eq_some_iff.mp stored with ⟨bound, rfl⟩
  have each := mapM_eq_ok.mp generated
  have bound' : index < functions.length := by
    rwa [generate_length generated]
  exact ⟨functions[index], List.getElem?_eq_getElem bound', each.get bound bound'⟩

theorem compileFunction_eq {function : Function} {compiled : CompiledFunction}
    (result : compileFunction context function = .ok compiled) :
    ∃ finish, generateFunction context function (∅, .entry) = .ok ((), finish) ∧
      compiled = ⟨arity function, function.variables.map DeclNode.id, finish.2.blocks⟩ := by
  rw [compileFunction, bind_eq_ok] at result
  rcases result with ⟨⟨_, finish⟩, built, rest⟩
  cases rest
  exact ⟨finish, built, rfl⟩

/-- The activations of a program call what its code calls. -/
def executionOf (generated : generate context program = .ok functions) {fuel : Nat}
    (calls : ∀ callee args world outcome,
      program.call context platform fuel callee args world = some outcome →
        Fuel.Converges (fun steps => (irMachine platform functions (sumDestroyCode context)).call
          steps callee args world) outcome)
    (slotAddress : NodeId → Word) (args : List Word) (code : IrCode) : Execution where
  activation := ⟨context, platform, program.functions.length,
    program.call context platform fuel, fuel, slotAddress⟩
  args := args
  functions := functions
  sumDestroyCode := sumDestroyCode context
  code := code
  functionCount := generate_length generated
  calls := calls

theorem call_converges (generated : generate context program = .ok functions)
    (distinct : ∀ function ∈ program.functions, CasesDistinct context.symbols function.postOrder)
    {fuel : Nat} : ∀ callee args world outcome,
      program.call context platform fuel callee args world = some outcome →
        Fuel.Converges (fun steps => (irMachine platform functions (sumDestroyCode context)).call
          steps callee args world) outcome := by
  induction fuel with
  | zero =>
      intro callee args world outcome ran
      cases ran
  | succ fuel induction =>
      intro callee args world outcome ran
      cases callee with
      | function index =>
          rw [Program.call] at ran
          cases stored : program.functions[index.toNat]? with
          | none =>
              rw [stored] at ran
              cases ran
          | some function =>
              rw [stored] at ran
              rcases compiled_of_function generated stored with ⟨compiled, isCompiled, compiles⟩
              rcases compileFunction_eq compiles with ⟨finish, isBuilt, rfl⟩
              simp only [Machine.call, irMachine, invoke, isCompiled]
              simp only at ran
              split at ran
              case isFalse => cases ran
              case isTrue same =>
                simp only [if_pos same]
                apply Runtime.withFrame_converges _ ran
                intro slotAddress inner result innerRan
                exact (executionOf generated induction slotAddress args
                  finish.2.blocks).generateFunction_ends (distinct function
                    (List.mem_of_getElem? stored)) isBuilt rfl innerRan
      | sumDestroy owner =>
          rw [Program.call] at ran
          have succeeds : Gen.Succeeds (fun _ => True) (getOrCreateSumDestroyFn context owner)
              fun _ => True := getOrCreateSumDestroyFn_succeeds owner
          rcases succeeds (∅, .entry) trivial with ⟨result, finish, isBuilt, _⟩
          have isCode : sumDestroyCode context owner = finish.2.blocks := by
            rw [sumDestroyCode, isBuilt]
          exact (executionOf generated induction (fun _ => 0) args
            (sumDestroyCode context owner)).getOrCreateSumDestroyFn_ends isBuilt isCode ran

end

/-! ## Accepted programs -/

namespace SemanticAnalysis

/-- What code generation reads of the analysis. -/
def codeGenContext (analysis : SemanticAnalysis) (rules : RuleToggles) (program : Program) :
    CodeGenContext where
  rules := rules
  symbols := analysis.marked
  types := analysis.typeResults
  plan := analysis.destructionPlan
  functionIndex := functionIndexOf program

section

variable {analysis : SemanticAnalysis} {program : Program}

/-- The index of a constructor fits into a word. -/
def TagsFit (program : Program) : Prop :=
  ∀ owner ∈ program.typedecls, owner.variants.length ≤ 2 ^ 64

instance : Decidable (TagsFit program) :=
  inferInstanceAs (Decidable (∀ owner ∈ program.typedecls, owner.variants.length ≤ 2 ^ 64))

/-- The switch of a case statement tells the constructors of an accepted program apart. -/
theorem Infers.casesDistinct (infers : analysis.Infers program) (fits : TagsFit program)
    (distinct : (program.functions.map Function.decl).Nodup) {function : Function}
    (member : function ∈ program.functions) :
    CasesDistinct analysis.marked function.postOrder := by
  intro info caseExpr arms isCase arm armMem other otherMem same
  rcases infers.calls with ⟨_, _, _, _, _, vertices, _⟩
  rcases caseStmt_typed infers.symbols infers.sumTypeNames infers.caseCompleteness
    infers.patternTypes distinct vertices infers.inference member isCase with ⟨owner, typed⟩
  rcases typed.patterns arm armMem with ⟨variant, declares, tag, _⟩
  rcases typed.patterns other otherMem with ⟨otherVariant, again, otherTag, _⟩
  have index : ∀ {variant : SumVariant}, program.Declares owner variant →
      (CaseCodeGen.innerTagIdx analysis.marked variant.tag) < 2 ^ 64 := by
    intro variant declares
    have stands := CaseCodeGen.variants_innerTagIdx typed.constructors declares
    exact Nat.lt_of_lt_of_le (List.getElem?_eq_some_iff.mp stands).1 (fits owner declares.ownerMem)
  rw [typed.lookedUp, Activation.tagWord, Activation.tagWord, ← tag, ← otherTag,
    CaseCodeGen.variantIndex_eq typed.constructors declares,
    CaseCodeGen.variantIndex_eq typed.constructors again] at same
  have sameIndex := (Word.ofNat_inj (index declares) (index again)).mp same
  rw [← tag, ← otherTag, CaseCodeGen.innerTagIdx_inj typed.constructors declares again sameIndex]

end

namespace UnboxedSum

def box : SumTypeDecl where
  name := "Box"
  variants := [{ tag := "Empty", params := [] },
    { tag := "Full", params := [{ id := 1, name := "n" }] }]

/-- `mk(x) { return alloc x; }` -/
def mk : Function where
  decl := { id := 2, name := "mk" }
  formals := [{ id := 3, name := "x" }]
  declarations := []
  stmts := []
  returnInfo := { id := 4 }
  returnArg := .allocExpr { id := 5 } (.varExpr { id := 6 } "x")

/-- `open(b) { var r; case b of { Empty -> r = 0; Full(v) -> r = v; } return r; }` -/
def opens : Function where
  decl := { id := 7, name := "open" }
  formals := [{ id := 8, name := "b" }]
  declarations := [{ id := 9, name := "r" }]
  stmts := [.caseStmt { id := 10 } (.varExpr { id := 11 } "b") [
    .mk { id := 12 } "Empty" [] (.assignStmt { id := 13 } (.varExpr { id := 14 } "r")
      (.numExpr { id := 15 } 0)),
    .mk { id := 16 } "Full" [.var { id := 17 } { id := 18, name := "v" }]
      (.assignStmt { id := 19 } (.varExpr { id := 20 } "r") (.varExpr { id := 21 } "v"))]]
  returnInfo := { id := 22 }
  returnArg := .varExpr { id := 23 } "r"

/-- `main() { var n, s; n = 3; while (n > 0) { s = s + open(Full(*mk(n))); n = n - 1; }
output s; return s / n; }` -/
def main : Function where
  decl := { id := 24, name := "main" }
  formals := []
  declarations := [{ id := 25, name := "n" }, { id := 26, name := "s" }]
  stmts := [
    .assignStmt { id := 27 } (.varExpr { id := 28 } "n") (.numExpr { id := 29 } 3),
    .whileStmt { id := 30 }
      (.binaryExpr { id := 31 } .gt (.varExpr { id := 32 } "n") (.numExpr { id := 33 } 0))
      (.blockStmt { id := 34 } [
        .assignStmt { id := 35 } (.varExpr { id := 36 } "s") (.binaryExpr { id := 37 } .add
          (.varExpr { id := 38 } "s") (.funAppExpr { id := 39 } (.varExpr { id := 40 } "open")
            [.sumCtorExpr { id := 41 } "Full" [.deRefExpr { id := 42 } (.funAppExpr { id := 43 }
              (.varExpr { id := 44 } "mk") [.varExpr { id := 45 } "n"])]])),
        .assignStmt { id := 46 } (.varExpr { id := 47 } "n") (.binaryExpr { id := 48 } .sub
          (.varExpr { id := 49 } "n") (.numExpr { id := 50 } 1))]),
    .outputStmt { id := 51 } (.varExpr { id := 52 } "s")]
  returnInfo := { id := 53 }
  returnArg := .binaryExpr { id := 54, line := 9 } .div (.varExpr { id := 55 } "s")
    (.varExpr { id := 56 } "n")

def program : Program where
  typedecls := [box]
  functions := [mk, opens, main]

/-- Blocks and frames are put where there is nothing yet. -/
def platform : Platform where
  heap memory _ :=
    (([0x1000, 0x2000, 0x3000] : List Word).find? fun base => memory.block base = none).getD 0
  frame memory :=
    (([0x10000, 0x20000, 0x30000] : List Word).find? fun base =>
      (List.range 64).all fun index => memory.cell (Memory.field base index) = none).getD 0
  layout slot := 8 * BitVec.ofNat 64 slot
  undefined := 7

def start : World where
  memory := ⟨fun _ => none, fun _ => none⟩
  inputs := []
  arguments := []
  events := []

end UnboxedSum

end SemanticAnalysis

end Topc
