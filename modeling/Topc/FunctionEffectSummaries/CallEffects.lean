import Topc.FunctionEffectSummaries.Requirements
import Topc.MoveAnalysis

/-! # Call effects

Which actuals a call consumes: those whose formal owns, or may own at an instance,
and whose own type is an owner's. -/

namespace Topc.FunctionEffectSummaries

section

variable (symbols : SymbolTable) (cg : CallGraph) (unifier : TermUnionFind TopType)
  (summaries : List (DeclNode × Summary))

/-- A formal that depends on its instantiation consumes like an owner's. -/
def formalTakes : FormalMode → Bool
  | .own | .dependsOnInstantiation => true
  | .copy => false

def actualConsumed (scope : DeclNode) (actual : Expr) (mode : Option FormalMode) :
    Except CompileError Bool :=
  match mode with
  | none => .ok false
  | some mode => do
      let actualType ← TypeInference.getInferredExprType symbols unifier scope actual
      return OwnershipClassifier.classifyType actualType = .own && formalTakes mode

/-- What the call consumes if it calls the function of the summary. -/
def targetConsumes (call : Call) (summary : Summary) : Except CompileError (List Bool) :=
  call.actuals.zipIdx.mapM fun (actual, index) =>
    actualConsumed symbols unifier call.scope actual summary.formalModes[index]?

/-- All functions that a call may call must consume the same actuals. -/
def callEffectOf (call : Call) : Except CompileError CallEffect :=
  match targetsOf symbols cg summaries call with
  | [] => .ok ⟨call.actuals.map fun _ => false⟩
  | (_, first) :: others => do
      let consumes ← targetConsumes symbols unifier call first
      others.forM fun (_, summary) => do
        if (← targetConsumes symbols unifier call summary) ≠ consumes then
          .error (.internal (s!"call on line {call.info.line}" ++
            " has possible targets that disagree on argument ownership"))
      return ⟨consumes⟩

def callEffects (order : List Call) : Except CompileError (List (NodeId × CallEffect)) :=
  order.mapM fun call => do
    return (call.info.id, ← callEffectOf symbols cg unifier summaries call)

end

end Topc.FunctionEffectSummaries
