import Topc.SemanticAnalysis.PassedFunctions

/-! # What calls consume

All functions that a call may reach consume the same actuals: for a computed call
those that own. -/

namespace Topc

open TypeConstraintVisitor (astToVar)
open FunctionEffectSummaries

namespace FunctionEffectSummaries

/-! ## Summaries of functions -/

section

variable {rules : RuleToggles} {symbols : SymbolTable} {types : TypeResults} {program : Program}
  {summaries : List (DeclNode × Summary)} {logs : List (DeclNode × List ForwardRecord)}

theorem summarize_formalModes {function : Function} {summary : Summary}
    (result : summarize rules symbols types function = .ok summary) :
    summary.formalModes = function.formals.map (formalMode types) := by
  rw [summarize, bind_eq_ok] at result
  rcases result with ⟨_, _, result⟩
  rw [bind_eq_ok] at result
  rcases result with ⟨_, _, result⟩
  cases result
  rfl

/-- A summary that is found is that of a function of the program. -/
theorem findSummary_formalModes
    (built : build rules symbols types program = .ok (summaries, logs)) {decl : DeclNode}
    {entry : DeclNode × Summary} (found : findSummary summaries decl = some entry) :
    entry.1 = decl ∧ ∃ function ∈ program.functions, function.decl = decl ∧
      entry.2.formalModes = function.formals.map (formalMode types) := by
  have same : entry.1 = decl := by simpa using List.find?_some found
  refine ⟨same, ?_⟩
  rw [build, bind_eq_ok] at built
  rcases built with ⟨_, summarized, built⟩
  cases built
  rcases mem_of_mapM summarized entry (List.mem_of_find?_eq_some found) with
    ⟨function, functionMem, result⟩
  rw [bind_eq_ok] at result
  rcases result with ⟨summary, result, isEntry⟩
  cases isEntry
  exact ⟨function, functionMem, same, summarize_formalModes result⟩

theorem findSummary_isSome (built : build rules symbols types program = .ok (summaries, logs))
    {function : Function} (member : function ∈ program.functions) :
    (findSummary summaries function.decl).isSome = true := by
  rw [build, bind_eq_ok] at built
  rcases built with ⟨_, summarized, built⟩
  cases built
  rcases exists_of_mapM summarized function member with ⟨entry, entryMem, result⟩
  rw [bind_eq_ok] at result
  rcases result with ⟨summary, _, isEntry⟩
  cases isEntry
  exact List.find?_isSome.mpr ⟨_, entryMem, by simp⟩

/-- A formal in the class of its actual takes exactly what owns. -/
theorem formalTakes_of_class {formal : DeclNode} {ownership : OwnershipClass}
    (same : OwnershipClassifier.classify types formal = ownership) :
    (ownership = .own && formalTakes (formalMode types formal)) = decide (ownership = .own) := by
  by_cases owned : ownership = .own
  · rw [formalMode, same, if_pos owned, owned]
    rfl
  · rw [decide_eq_false owned, Bool.false_and]

end

/-! ## Agreement of targets -/

theorem exists_mapM_eq_ok {α β E : Type} {visit : α → Except E β} {items : List α}
    (each : ∀ item ∈ items, ∃ result, visit item = .ok result) :
    ∃ results, items.mapM visit = .ok results := by
  induction items with
  | nil => exact ⟨[], rfl⟩
  | cons item items induction =>
      rcases each item List.mem_cons_self with ⟨result, first⟩
      rcases induction fun other member => each other (List.mem_cons_of_mem _ member) with
        ⟨results, rest⟩
      exact ⟨result :: results, mapM_eq_ok.mpr (.cons first (mapM_eq_ok.mp rest))⟩

theorem mapM_zipIdx_eq_ok {α β E : Type} {visit : α × Nat → Except E β} {value : α → β}
    {items : List α} {start : Nat}
    (each : ∀ entry ∈ items.zipIdx start, visit entry = .ok (value entry.1)) :
    (items.zipIdx start).mapM visit = .ok (items.map value) := by
  apply mapM_eq_ok.mpr
  rw [← List.zipIdx_map_fst start items, List.map_map, List.zipIdx_map_fst]
  rw [List.forall₂_map_right_iff, List.forall₂_same]
  exact each

section

variable {symbols : SymbolTable} {cg : CallGraph} {unifier : TermUnionFind TopType}
  {summaries : List (DeclNode × Summary)} {call : Call}

/-- Targets that consume the same give the effect of the call. -/
theorem callEffectOf_eq_ok {consumes : List Bool}
    (agree : ∀ target ∈ targetsOf symbols cg summaries call,
      targetConsumes symbols unifier call target.2 = .ok consumes)
    (reached : targetsOf symbols cg summaries call ≠ []) :
    callEffectOf symbols cg unifier summaries call = .ok ⟨consumes⟩ := by
  rw [callEffectOf]
  cases targets : targetsOf symbols cg summaries call with
  | nil => exact absurd targets reached
  | cons first others =>
      rw [targets] at agree
      refine bind_eq_ok.mpr ⟨consumes, agree first List.mem_cons_self,
        bind_eq_ok.mpr ⟨(), forM_eq_ok.mpr ?_, rfl⟩⟩
      intro other member
      refine bind_eq_ok.mpr ⟨consumes, agree other (List.mem_cons_of_mem _ member), ?_⟩
      exact if_neg (not_not_intro rfl)

/-- A computed call may reach what the call graph has for it. -/
theorem targetsOf_computed (computed : symbols.namedFunction call.function = none) :
    targetsOf symbols cg summaries call =
      (cg.getCalledFuns call.info.id).filterMap (findSummary summaries) := by
  rcases call with ⟨info, function, actuals, scope⟩
  cases function with
  | varExpr nameInfo name =>
      rw [SymbolTable.namedFunction] at computed
      simp [targetsOf, computed]
  | _ =>
      rw [targetsOf]
      exact if_pos rfl

/-- A call without targets consumes nothing. -/
theorem callEffectOf_unreached (unreached : targetsOf symbols cg summaries call = []) :
    callEffectOf symbols cg unifier summaries call = .ok ⟨call.actuals.map fun _ => false⟩ := by
  rw [callEffectOf, unreached]

end

end FunctionEffectSummaries

namespace SemanticAnalysis.Infers

section

variable {analysis : SemanticAnalysis} {program : Program} (infers : analysis.Infers program)
  (distinct : (program.functions.map Function.decl).Nodup) {caller : Function}
  (callerMem : caller ∈ program.functions) {info : NodeInfo} {function : Expr}
  {actuals : List Expr} (call : .expr (.funAppExpr info function actuals) ∈ caller.postOrder)

include infers callerMem call

/-- The effect of a call is found for each function it may call. -/
theorem exists_targetConsumes (summary : Summary) : ∃ consumes,
    targetConsumes analysis.marked analysis.unifier ⟨info, function, actuals, caller.decl⟩
      summary = .ok consumes := by
  rw [targetConsumes]
  apply exists_mapM_eq_ok
  rintro ⟨actual, index⟩ member
  have actualMem := caller.actual_mem_postOrder call (List.fst_mem_of_mem_zipIdx member)
  dsimp only
  cases summary.formalModes[index]? with
  | none => exact ⟨false, rfl⟩
  | some mode =>
      rw [actualConsumed, infers.exprTypes caller callerMem actual actualMem]
      exact ⟨_, rfl⟩

include distinct

/-- A function whose formals have the types of the actuals consumes those that own. -/
theorem targetConsumes_owned {callee : Function} (calleeMem : callee ∈ program.functions)
    {summary : Summary}
    (modes : summary.formalModes = callee.formals.map (formalMode analysis.typeResults))
    (sameTypes : List.Forall₂ (fun (actual : Expr) (formal : DeclNode) =>
      analysis.unifier.root (astToVar analysis.marked caller.decl actual) =
        analysis.unifier.root formal.typeVar) actuals callee.formals) :
    targetConsumes analysis.marked analysis.unifier ⟨info, function, actuals, caller.decl⟩
      summary = .ok (actuals.map fun actual =>
        decide (OwnershipClassifier.classifyValue analysis.typeResults actual = .own)) := by
  rw [targetConsumes]
  apply mapM_zipIdx_eq_ok
  rintro ⟨actual, index⟩ member
  have actualMem := caller.actual_mem_postOrder call (List.fst_mem_of_mem_zipIdx member)
  have atIndex := List.mem_zipIdx_iff_getElem?.mp member
  rcases List.getElem?_eq_some_iff.mp atIndex with ⟨bound, isActual⟩
  have formalBound : index < callee.formals.length := sameTypes.length_eq ▸ bound
  have sameType := (List.forall₂_iff_get.mp sameTypes).2 index bound formalBound
  rw [List.get_eq_getElem, List.get_eq_getElem, isActual] at sameType
  dsimp only
  rw [modes, List.getElem?_map, List.getElem?_eq_getElem formalBound, Option.map_some,
    actualConsumed, infers.exprTypes caller callerMem actual actualMem]
  have formalMem : callee.formals[index] ∈ callee.decl :: callee.variables := by
    apply List.mem_cons_of_mem
    rw [Function.variables, List.append_assoc]
    exact List.mem_append_left _ (List.getElem_mem formalBound)
  have formalClass : OwnershipClassifier.classify analysis.typeResults callee.formals[index] =
      OwnershipClassifier.classifyValue analysis.typeResults actual := by
    rw [infers.classOf distinct callerMem actualMem, TopTypeClosure.solvedClass_congr sameType]
    exact TopTypeClosure.close_class (infers.keepsSort distinct) (infers.congruent distinct)
      (TypeConstraintVisitor.typeVar_inProgram _) (infers.declTypes callee calleeMem _ formalMem)
  exact congrArg Except.ok (formalTakes_of_class formalClass)

end

end SemanticAnalysis.Infers

/-- The effect of a call fits each function that it may call. -/
structure SemanticAnalysis.EffectAgrees (analysis : SemanticAnalysis) (call : Call)
    (effect : CallEffect) : Prop where
  targets : ∀ target ∈ targetsOf analysis.marked analysis.callGraph analysis.summaries call,
    targetConsumes analysis.marked analysis.unifier call target.2 = .ok effect.consumes
  /-- A computed call consumes the actuals that own, if the call graph has a function for it. -/
  computed : analysis.marked.namedFunction call.function = none →
    targetsOf analysis.marked analysis.callGraph analysis.summaries call ≠ [] →
      effect.consumes = call.actuals.map fun actual =>
        decide (OwnershipClassifier.classifyValue analysis.typeResults actual = .own)
  unreached : targetsOf analysis.marked analysis.callGraph analysis.summaries call = [] →
    effect.consumes = call.actuals.map fun _ => false

namespace SemanticAnalysis.Infers

section

variable {analysis : SemanticAnalysis} {program : Program} (infers : analysis.Infers program)
  (distinct : (program.functions.map Function.decl).Nodup)

include infers distinct

/-- A call by name has one target. -/
theorem targetsOf_named {call : Call} {decl : DeclNode}
    (named : analysis.marked.namedFunction call.function = some decl) :
    ∃ target, targetsOf analysis.marked analysis.callGraph analysis.summaries call = [target] := by
  rcases call with ⟨info, function, actuals, scope⟩
  cases function with
  | varExpr nameInfo name =>
      rw [SymbolTable.namedFunction] at named
      have declared := named
      rw [infers.getFunction_marked distinct] at declared
      rcases SymbolTable.build_getFunction_mem infers.symbols declared with
        ⟨function, functionMem, rfl⟩
      rcases Option.isSome_iff_exists.mp (findSummary_isSome infers.effects functionMem) with
        ⟨target, found⟩
      exact ⟨target, by simp [targetsOf, named, found]⟩
  | _ => cases named

variable (alike : analysis.PassesAlike program)
  (least : analysis.callGraph.IsLeast program analysis.symbolTable)

include alike least

theorem effectAgrees {call : Call} (callMem : call ∈ FunctionEffectSummaries.calls program) :
    ∃ effect, callEffectOf analysis.marked analysis.callGraph analysis.unifier analysis.summaries
      call = .ok effect ∧ analysis.EffectAgrees call effect := by
  rcases List.mem_flatMap.mp callMem with ⟨caller, callerMem, listed⟩
  rcases List.mem_filterMap.mp listed with ⟨node, nodeMem, isCall⟩
  split at isCall
  · rename_i info function actuals
    cases isCall
    cases named : analysis.marked.namedFunction function with
    | some decl =>
        have atCall : analysis.marked.namedFunction
            (Call.mk info function actuals caller.decl).function = some decl := named
        rcases infers.targetsOf_named distinct atCall with ⟨target, only⟩
        rcases infers.exists_targetConsumes callerMem nodeMem target.2 with ⟨consumes, consumed⟩
        have agree : ∀ other ∈ targetsOf analysis.marked analysis.callGraph analysis.summaries
            ⟨info, function, actuals, caller.decl⟩,
            targetConsumes analysis.marked analysis.unifier ⟨info, function, actuals, caller.decl⟩
              other.2 = .ok consumes := by
          intro other member
          rw [only] at member
          rw [List.mem_singleton.mp member]
          exact consumed
        refine ⟨⟨consumes⟩, callEffectOf_eq_ok agree ?_, agree, ?_, ?_⟩
        · rw [only]
          exact List.cons_ne_nil _ _
        · intro computed
          rw [named] at computed
          cases computed
        · intro unreached
          rw [only] at unreached
          cases unreached
    | none =>
        have agree : ∀ target ∈ targetsOf analysis.marked analysis.callGraph analysis.summaries
            ⟨info, function, actuals, caller.decl⟩,
            targetConsumes analysis.marked analysis.unifier ⟨info, function, actuals, caller.decl⟩
              target.2 = .ok (actuals.map fun actual =>
                decide (OwnershipClassifier.classifyValue analysis.typeResults actual = .own)) := by
          intro target member
          rw [targetsOf_computed named] at member
          rcases List.mem_filterMap.mp member with ⟨called, calledMem, found⟩
          have reached := infers.calledFuns_type distinct alike least callerMem nodeMem calledMem
          rcases findSummary_formalModes infers.effects found with
            ⟨_, callee, calleeMem, rfl, modes⟩
          exact infers.targetConsumes_owned distinct callerMem nodeMem calleeMem modes
            (infers.computed_signature distinct callerMem calleeMem nodeMem reached
              (computed_of_not_named named)).1
        by_cases reached : targetsOf analysis.marked analysis.callGraph analysis.summaries
            ⟨info, function, actuals, caller.decl⟩ = []
        · refine ⟨_, callEffectOf_unreached reached, ?_, fun _ some => absurd reached some,
            fun _ => rfl⟩
          intro target member
          rw [reached] at member
          cases member
        · exact ⟨_, callEffectOf_eq_ok agree reached, agree, fun _ _ => rfl,
            fun unreached => absurd unreached reached⟩
  · cases isCall

/-- The pass never finds targets that disagree, and its effects fit the calls. -/
theorem callEffects_agree : ∃ effects,
    FunctionEffectSummaries.callEffects analysis.marked analysis.callGraph analysis.unifier
      analysis.summaries (FunctionEffectSummaries.calls program) = .ok effects ∧
    ∀ call ∈ FunctionEffectSummaries.calls program, ∃ effect, (call.info.id, effect) ∈ effects ∧
      analysis.EffectAgrees call effect := by
  have each : ∀ call ∈ FunctionEffectSummaries.calls program, ∃ entry,
      (do return (call.info.id, ← callEffectOf analysis.marked analysis.callGraph analysis.unifier
        analysis.summaries call)) = (.ok entry : Except CompileError (NodeId × CallEffect)) := by
    intro call callMem
    rcases infers.effectAgrees distinct alike least callMem with ⟨effect, result, _⟩
    exact ⟨(call.info.id, effect), bind_eq_ok.mpr ⟨effect, result, rfl⟩⟩
  rcases exists_mapM_eq_ok each with ⟨effects, result⟩
  refine ⟨effects, result, fun call callMem => ?_⟩
  rcases infers.effectAgrees distinct alike least callMem with ⟨effect, found, agrees⟩
  rcases exists_of_mapM result call callMem with ⟨entry, entryMem, isEntry⟩
  rw [bind_eq_ok] at isEntry
  rcases isEntry with ⟨other, again, isEntry⟩
  cases found.symm.trans again
  cases isEntry
  exact ⟨effect, entryMem, agrees⟩

end

end SemanticAnalysis.Infers

namespace PassedConsumer

/-- `run(f) { return f(alloc 1) + 1; }` -/
def run : Function where
  decl := { id := 0, name := "run" }
  formals := [{ id := 1, name := "f" }]
  declarations := []
  stmts := []
  returnInfo := { id := 2 }
  returnArg := .binaryExpr { id := 3 } .add
    (.funAppExpr { id := 4 } (.varExpr { id := 5 } "f")
      [.allocExpr { id := 6 } (.numExpr { id := 7 } 1)])
    (.numExpr { id := 8 } 1)

/-- `consume(p) { return *p; }` -/
def consume : Function where
  decl := { id := 9, name := "consume" }
  formals := [{ id := 10, name := "p" }]
  declarations := []
  stmts := []
  returnInfo := { id := 11 }
  returnArg := .deRefExpr { id := 12 } (.varExpr { id := 13 } "p")

/-- `main() { return run(consume); }` -/
def main : Function where
  decl := { id := 14, name := "main" }
  formals := []
  declarations := []
  stmts := []
  returnInfo := { id := 15 }
  returnArg := .funAppExpr { id := 16 } (.varExpr { id := 17 } "run")
    [.varExpr { id := 18 } "consume"]

def program : Program where
  typedecls := []
  functions := [run, consume, main]

theorem run_effectsAgree : ∃ analysis : SemanticAnalysis, analysis.Infers program ∧
    ∃ effects, callEffects analysis.marked analysis.callGraph analysis.unifier
        analysis.summaries (calls program) = .ok effects ∧
      ∀ call ∈ calls program, ∃ effect, (call.info.id, effect) ∈ effects ∧
        analysis.EffectAgrees call effect := by
  have accepted : (SemanticAnalysis.summarize program id CubicSolver.depthFirst 64).map
      (fun analysis => decide (analysis.PassesAlike program)) = some true := by
    decide +kernel
  rcases Option.map_eq_some_iff.mp accepted with ⟨analysis, ran, alike⟩
  have distinct : (program.functions.map Function.decl).Nodup := by decide +kernel
  have callsDistinct : program.CallsDistinct := by
    rw [Program.CallsDistinct]
    decide +kernel
  have infers := SemanticAnalysis.summarize_infers ran
  exact ⟨analysis, infers, infers.callEffects_agree distinct (of_decide_eq_true alike)
    (SemanticAnalysis.summarize_isLeast (fun _ => .refl _) CubicSolver.depthFirst_findsPaths
      distinct callsDistinct ran)⟩

end PassedConsumer

namespace SharedIdentity

open PassedConsumer (consume)

/-- `add(x) { return x + 1; }` -/
def add : Function where
  decl := { id := 20, name := "add" }
  formals := [{ id := 21, name := "x" }]
  declarations := []
  stmts := []
  returnInfo := { id := 22 }
  returnArg := .binaryExpr { id := 23 } .add (.varExpr { id := 24 } "x") (.numExpr { id := 25 } 1)

/-- `same(f) { return f; }` -/
def same : Function where
  decl := { id := 26, name := "same" }
  formals := [{ id := 27, name := "f" }]
  declarations := []
  stmts := []
  returnInfo := { id := 28 }
  returnArg := .varExpr { id := 29 } "f"

/-- `main() { var c, d, p; c = same(consume); d = same(add); p = alloc 1; return c(p) + d(2); }` -/
def main : Function where
  decl := { id := 30, name := "main" }
  formals := []
  declarations := [{ id := 31, name := "c" }, { id := 32, name := "d" }, { id := 33, name := "p" }]
  stmts := [
    .assignStmt { id := 34 } (.varExpr { id := 35 } "c")
      (.funAppExpr { id := 36 } (.varExpr { id := 37 } "same") [.varExpr { id := 38 } "consume"]),
    .assignStmt { id := 39 } (.varExpr { id := 40 } "d")
      (.funAppExpr { id := 41 } (.varExpr { id := 42 } "same") [.varExpr { id := 43 } "add"]),
    .assignStmt { id := 44 } (.varExpr { id := 45 } "p")
      (.allocExpr { id := 46 } (.numExpr { id := 47 } 1))]
  returnInfo := { id := 48 }
  returnArg := .binaryExpr { id := 49 } .add
    (.funAppExpr { id := 50 } (.varExpr { id := 51 } "c") [.varExpr { id := 52 } "p"])
    (.funAppExpr { id := 53 } (.varExpr { id := 54 } "d") [.numExpr { id := 55 } 2])

def program : Program where
  typedecls := []
  functions := [consume, add, same, main]

/-- Two functions of different types come back from one function, and the call graph
mixes them. -/
example : ∃ analysis : SemanticAnalysis, analysis.Infers program ∧
    ∃ message, callEffects analysis.marked analysis.callGraph analysis.unifier
      analysis.summaries (calls program) = .error (.internal message) := by
  have fails : (SemanticAnalysis.summarize program id CubicSolver.depthFirst 64).map
      (fun analysis => callEffects analysis.marked analysis.callGraph analysis.unifier
        analysis.summaries (calls program)) =
      some (.error (.internal ("call on line 0" ++
        " has possible targets that disagree on argument ownership"))) := by
    decide +kernel
  rcases Option.map_eq_some_iff.mp fails with ⟨analysis, ran, result⟩
  exact ⟨analysis, SemanticAnalysis.summarize_infers ran, _, result⟩

end SharedIdentity

end Topc
