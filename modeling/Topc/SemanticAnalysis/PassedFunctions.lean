import Topc.CallGraph.LeastFlow
import Topc.CallGraph.VisitedNodes
import Topc.SemanticAnalysis.SolvedTypes
import Topc.SymbolTable.FunctionNames
import Topc.Weeding.NestedStatements

/-! # Functions passed as values

A function that flows to a node has the solved type of the node, unless a call by
name hands it over at another type than the callee's own. -/

namespace Topc

open TypeConstraintVisitor (astToVar)

namespace TypeInference

theorem markedSymbols_preserves {α : Type} (read : SymbolTable → α)
    (kept : ∀ symbols name, read (symbols.setPoly name) = read symbols) (symbols : SymbolTable)
    (cg : CallGraph) : read (markedSymbols symbols cg) = read symbols := by
  rw [markedSymbols]
  generalize topoSortNonRecursive cg = functions
  induction functions generalizing symbols with
  | nil => rfl
  | cons f functions induction =>
      rw [List.foldl_cons, induction]
      exact kept symbols f.getName

end TypeInference

namespace TopTypeClosure

section

variable {uf : TermUnionFind TopType} (congruent : Term.Congruent uf.root)

include congruent

/-- Function types of one solver class have formals and results of the same classes. -/
theorem root_function {params others : List TopType} {ret other : TopType}
    (same : uf.root (.function params ret) = uf.root (.function others other)) :
    List.Forall₂ (fun left right => uf.root left = uf.root right) params others ∧
      uf.root ret = uf.root other := by
  have children := congruent.map_subterms rfl rfl same
  change (params ++ [ret]).map uf.root = (others ++ [other]).map uf.root at children
  rw [List.map_append, List.map_append] at children
  rcases List.append_inj' children rfl with ⟨formals, results⟩
  constructor
  · rw [← List.forall₂_eq_eq_eq, List.forall₂_map_left_iff, List.forall₂_map_right_iff] at formals
    exact formals
  · exact List.singleton_inj.mp results

end

end TopTypeClosure

/-! ## Types along the flow -/

/-- The function that an expression names. -/
def SymbolTable.namedFunction (symbols : SymbolTable) : Expr → Option DeclNode
  | .varExpr _ name => symbols.getFunction name
  | _ => none

theorem computed_of_not_named {symbols : SymbolTable} {function : Expr}
    (notNamed : symbols.namedFunction function = none) :
    PolyTypeConstraintVisitor.isDirectNamedCall symbols function = false := by
  cases function with
  | varExpr info name =>
      rw [SymbolTable.namedFunction] at notNamed
      rw [PolyTypeConstraintVisitor.isDirectNamedCall, notNamed]
      rfl
  | _ => rfl

namespace SemanticAnalysis

/-- A function that a call by name hands to its callee has the type of the formal,
and one that it hands back has the type of the call. -/
def PassesAlike (analysis : SemanticAnalysis) (program : Program) : Prop :=
  ∀ call ∈ FunctionEffectSummaries.calls program, ∀ callee ∈ program.functions,
    analysis.marked.namedFunction call.function = some callee.decl →
    callee.formals.length = call.actuals.length →
    ∀ value ∈ program.functions,
      (∀ pair ∈ call.actuals.zip callee.formals,
        analysis.unifier.root value.decl.typeVar =
            analysis.unifier.root (astToVar analysis.marked call.scope pair.1) →
          analysis.unifier.root value.decl.typeVar = analysis.unifier.root pair.2.typeVar) ∧
      (analysis.unifier.root value.decl.typeVar = analysis.unifier.root
            (astToVar analysis.marked callee.decl callee.returnArg) →
        analysis.unifier.root value.decl.typeVar =
          analysis.unifier.root (.var (.plain call.info.id)))

instance passesAlikeDecidable (analysis : SemanticAnalysis) (program : Program) :
    Decidable (analysis.PassesAlike program) :=
  inferInstanceAs (Decidable (∀ call ∈ FunctionEffectSummaries.calls program, _))

/-- The functions of the program whose solved type is that of a node. -/
def ofType (analysis : SemanticAnalysis) (program : Program) (node : NodeId) : Set DeclNode :=
  {decl | ∃ function ∈ program.functions, function.decl = decl ∧
    analysis.unifier.root decl.typeVar = analysis.unifier.root (.var (.plain node))}

theorem zip_of_forall₂ {α β γ : Type} {related : β → γ → Prop} {lefts : List β} {rights : List γ}
    (all : List.Forall₂ related lefts rights) : ∀ {items : List α} {item : α} {left : β},
      (item, left) ∈ items.zip lefts →
        ∃ right, related left right ∧ (item, right) ∈ items.zip rights := by
  induction all with
  | nil =>
      intro items item left member
      simp at member
  | cons first _ induction =>
      intro items item left member
      cases items with
      | nil => cases member
      | cons head items =>
          rcases List.mem_cons.mp member with isHead | later
          · cases isHead
            exact ⟨_, first, List.mem_cons_self⟩
          · rcases induction later with ⟨right, holds, inside⟩
            exact ⟨right, holds, List.mem_cons_of_mem _ inside⟩

namespace Infers

section

variable {analysis : SemanticAnalysis} {program : Program} (infers : analysis.Infers program)
  (distinct : (program.functions.map Function.decl).Nodup)

include infers distinct

theorem getCanonical_marked (scope : DeclNode) (expr : Expr) :
    analysis.marked.getCanonical scope expr = analysis.symbolTable.getCanonical scope expr := by
  rw [← infers.vertices] at distinct
  rw [(TypeInference.runPoly_solves distinct infers.inference).1]
  exact TypeInference.markedSymbols_preserves (fun symbols => symbols.getCanonical scope expr)
    (fun symbols name => symbols.setPoly_getCanonical name scope expr) _ _

theorem getFunction_marked (name : String) :
    analysis.marked.getFunction name = analysis.symbolTable.getFunction name := by
  rw [← infers.vertices] at distinct
  rw [(TypeInference.runPoly_solves distinct infers.inference).1]
  exact TypeInference.markedSymbols_preserves (fun symbols => symbols.getFunction name)
    (fun symbols other => symbols.setPoly_getFunction other name) _ _

theorem getConstructorOwner_marked (tag : String) :
    analysis.marked.getConstructorOwner tag = analysis.symbolTable.getConstructorOwner tag := by
  rw [← infers.vertices] at distinct
  rw [(TypeInference.runPoly_solves distinct infers.inference).1]
  exact TypeInference.markedSymbols_preserves (fun symbols => symbols.getConstructorOwner tag)
    (fun symbols name => symbols.setPoly_getConstructorOwner name tag) _ _

/-- A function has the type of its formals and its result. -/
theorem signature {function : Function} (functionMem : function ∈ program.functions) :
    analysis.unifier.root function.decl.typeVar = analysis.unifier.root
      (.function (function.formals.map DeclNode.typeVar)
        (astToVar analysis.marked function.decl function.returnArg)) := by
  rcases infers.solved distinct with ⟨batches, solved, own⟩
  have sound := TermUnifier.foldlM_solve_sound batches solved.solved TermUnifier.consistent_empty
  apply sound.2.2 (_, _)
  apply own function functionMem
  apply List.mem_append_right
  rw [TypeConstraintVisitor.endVisitFunction]
  split
  · exact List.mem_append_right _ (List.mem_cons_of_mem _ (List.mem_singleton_self _))
  · exact List.mem_singleton_self _

/-- The node of a function name is the declaration of the function. -/
theorem getCanonical_named {scope : DeclNode} {expr : Expr} {decl : DeclNode}
    (named : analysis.marked.namedFunction expr = some decl) :
    analysis.symbolTable.getCanonical scope expr = decl.id := by
  cases expr with
  | varExpr info name =>
      rw [SymbolTable.namedFunction, infers.getFunction_marked distinct] at named
      rw [SymbolTable.getCanonical,
        SymbolTable.build_getLocal_of_function infers.symbols named scope, named]
  | _ => cases named

/-- What two functions of one type have in common. -/
theorem same_signature {function other : Function} (functionMem : function ∈ program.functions)
    (otherMem : other ∈ program.functions)
    (same : analysis.unifier.root function.decl.typeVar =
      analysis.unifier.root other.decl.typeVar) :
    List.Forall₂ (fun left right : DeclNode =>
        analysis.unifier.root left.typeVar = analysis.unifier.root right.typeVar)
      function.formals other.formals ∧
    analysis.unifier.root (astToVar analysis.marked function.decl function.returnArg) =
      analysis.unifier.root (astToVar analysis.marked other.decl other.returnArg) := by
  rw [infers.signature distinct functionMem, infers.signature distinct otherMem] at same
  have both := TopTypeClosure.root_function (infers.congruent distinct) same
  rw [List.forall₂_map_left_iff, List.forall₂_map_right_iff] at both
  exact both

end

section

variable {analysis : SemanticAnalysis} {program : Program} (infers : analysis.Infers program)
  (distinct : (program.functions.map Function.decl).Nodup) {caller callee : Function}
  (callerMem : caller ∈ program.functions) (calleeMem : callee ∈ program.functions)
  {info : NodeInfo} {function : Expr} {actuals : List Expr}
  (call : .expr (.funAppExpr info function actuals) ∈ caller.postOrder)
  (reached : callee.decl ∈
    analysis.ofType program (analysis.symbolTable.getCanonical caller.decl function))

include infers distinct callerMem calleeMem call reached

/-- A computed call has the formals and the result of each function that it reaches. -/
theorem computed_signature
    (computed : PolyTypeConstraintVisitor.isDirectNamedCall analysis.marked function = false) :
    List.Forall₂ (fun (actual : Expr) (formal : DeclNode) =>
        analysis.unifier.root (astToVar analysis.marked caller.decl actual) =
          analysis.unifier.root formal.typeVar) actuals callee.formals ∧
    analysis.unifier.root (.var (.plain info.id)) =
      analysis.unifier.root (astToVar analysis.marked callee.decl callee.returnArg) := by
  rcases reached with ⟨_, _, _, same⟩
  rw [← infers.getCanonical_marked distinct] at same
  change analysis.unifier.root callee.decl.typeVar =
    analysis.unifier.root (astToVar analysis.marked caller.decl function) at same
  have isCall : analysis.unifier.root (astToVar analysis.marked caller.decl function) =
      analysis.unifier.root (.function (actuals.map (astToVar analysis.marked caller.decl))
        (.var (.plain info.id))) := by
    rw [← infers.vertices] at distinct callerMem
    exact TypeInference.runPoly_satisfies_computed distinct infers.inference callerMem call computed
  rw [isCall, infers.signature distinct calleeMem] at same
  have both := TopTypeClosure.root_function (infers.congruent distinct) same.symm
  rw [List.forall₂_map_left_iff, List.forall₂_map_right_iff] at both
  exact both

/-- What a call hands to a function that it reaches has the type of the formal, and
what it gets back the type of the call. -/
theorem passed_type (alike : analysis.PassesAlike program)
    (sameLength : callee.formals.length = actuals.length) {value : Function}
    (valueMem : value ∈ program.functions) :
    (∀ pair ∈ actuals.zip callee.formals,
      analysis.unifier.root value.decl.typeVar =
          analysis.unifier.root (astToVar analysis.marked caller.decl pair.1) →
        analysis.unifier.root value.decl.typeVar = analysis.unifier.root pair.2.typeVar) ∧
    (analysis.unifier.root value.decl.typeVar = analysis.unifier.root
          (astToVar analysis.marked callee.decl callee.returnArg) →
      analysis.unifier.root value.decl.typeVar =
        analysis.unifier.root (.var (.plain info.id))) := by
  cases named : analysis.marked.namedFunction function with
  | none =>
      rcases infers.computed_signature distinct callerMem calleeMem call reached
        (computed_of_not_named named) with ⟨formals, result⟩
      constructor
      · intro pair pairMem isValue
        rw [isValue]
        exact List.forall₂_zip formals pairMem
      · intro isValue
        rw [isValue, result]
  | some decl =>
      have declared := named
      rcases reached with ⟨_, _, _, same⟩
      rw [infers.getCanonical_named distinct named] at same
      have isFunction : ∃ f ∈ program.functions, f.decl = decl := by
        cases function with
        | varExpr nameInfo name =>
            rw [SymbolTable.namedFunction, infers.getFunction_marked distinct] at named
            exact SymbolTable.build_getFunction_mem infers.symbols named
        | _ => cases named
      rcases isFunction with ⟨f, fMem, rfl⟩
      rcases infers.same_signature distinct calleeMem fMem same with ⟨formals, results⟩
      have callMem : ⟨info, function, actuals, caller.decl⟩ ∈
          FunctionEffectSummaries.calls program :=
        List.mem_flatMap.mpr ⟨caller, callerMem, List.mem_filterMap.mpr ⟨_, call, rfl⟩⟩
      have passes := alike _ callMem f fMem declared
        (formals.length_eq.symm.trans sameLength) value valueMem
      constructor
      · rintro ⟨actual, formal⟩ pairMem isValue
        rcases zip_of_forall₂ formals pairMem with ⟨other, sameType, otherMem⟩
        exact (passes.1 _ otherMem isValue).trans sameType.symm
      · intro isValue
        exact passes.2 (isValue.trans results)

end

section

variable {analysis : SemanticAnalysis} {program : Program} (infers : analysis.Infers program)
  (distinct : (program.functions.map Function.decl).Nodup)
  (alike : analysis.PassesAlike program)

include infers distinct alike

/-- Taking for each node the functions of its type respects the program. -/
theorem ofType_flows : CFAnalyzer.Flows program analysis.symbolTable
    (analysis.ofType program) where
  named function functionMem := ⟨function, functionMem, rfl, rfl⟩
  assigned function functionMem lhs rhs visit := by
    rintro decl ⟨value, valueMem, rfl, isValue⟩
    refine ⟨value, valueMem, rfl, isValue.trans ?_⟩
    rcases Function.mem_flowVisits.mp visit with ⟨node, nodeMem, isVisit⟩
    cases node with
    | expr expr => cases expr <;> cases isVisit
    | stmt stmt =>
        cases stmt with
        | assignStmt info lhs' rhs' =>
            cases isVisit
            have stored := infers.satisfies distinct functionMem nodeMem (by simp) _
              (List.mem_singleton_self _)
            simp only [← infers.getCanonical_marked distinct]
            cases lhs with
            | deRefExpr derefInfo ptr =>
                have derefMem : .expr (.deRefExpr derefInfo ptr) ∈ function.postOrder := by
                  apply (function.postOrder_stmtsClosed _ nodeMem).subset
                  rw [Stmt.postOrder]
                  exact List.mem_append_left _ (List.mem_append_left _ (Expr.self_mem_postOrder _))
                have slot := infers.satisfies distinct functionMem derefMem (by simp) _
                  (List.mem_singleton_self _)
                exact TopTypeClosure.root_referenced (infers.congruent distinct)
                  (stored.trans slot.symm)
            | _ => exact stored.symm
        | _ => cases isVisit
  passed caller callerMem info function actuals visit callee calleeMem sameLength reached pair
      pairMem := by
    rcases Function.mem_flowVisits.mp visit with ⟨node, call, isVisit⟩
    rintro decl ⟨value, valueMem, rfl, isValue⟩
    cases node with
    | stmt stmt => cases stmt <;> cases isVisit
    | expr expr =>
        cases expr with
        | funAppExpr =>
            cases isVisit
            rw [← infers.getCanonical_marked distinct] at isValue
            exact ⟨value, valueMem, rfl, (infers.passed_type distinct callerMem calleeMem call
              reached alike sameLength valueMem).1 pair pairMem isValue⟩
        | _ => cases isVisit
  returned caller callerMem info function actuals visit callee calleeMem sameLength reached := by
    rcases Function.mem_flowVisits.mp visit with ⟨node, call, isVisit⟩
    rintro decl ⟨value, valueMem, rfl, isValue⟩
    cases node with
    | stmt stmt => cases stmt <;> cases isVisit
    | expr expr =>
        cases expr with
        | funAppExpr =>
            cases isVisit
            rw [← infers.getCanonical_marked distinct] at isValue
            exact ⟨value, valueMem, rfl, (infers.passed_type distinct callerMem calleeMem call
              reached alike sameLength valueMem).2 isValue⟩
        | _ => cases isVisit

/-- The call graph lets a call reach only functions of the callee's type. -/
theorem calledFuns_type (least : analysis.callGraph.IsLeast program analysis.symbolTable)
    {caller : Function} (callerMem : caller ∈ program.functions) {info : NodeInfo}
    {function : Expr} {actuals : List Expr}
    (call : .expr (.funAppExpr info function actuals) ∈ caller.postOrder) {called : DeclNode}
    (member : called ∈ analysis.callGraph.getCalledFuns info.id) :
    called ∈ analysis.ofType program (analysis.symbolTable.getCanonical caller.decl function) := by
  have visit := Function.mem_flowVisits.mpr ⟨_, call, rfl⟩
  exact (least.calledFuns caller callerMem info function actuals visit called).mp member _
    (infers.ofType_flows distinct alike)

end

end Infers

/-- The call graph of a run is the least one. -/
theorem summarize_isLeast {analysis : SemanticAnalysis} {program : Program}
    {iterate : List Nat → List Nat} {findPath : CfaSolver → Nat → Nat → List Nat} {steps : Nat}
    (permutes : ∀ nodes, (iterate nodes).Perm nodes) (finds : CubicSolver.FindsPaths findPath)
    (distinct : (program.functions.map Function.decl).Nodup) (callsDistinct : program.CallsDistinct)
    (result : summarize program iterate findPath steps = some analysis) :
    analysis.callGraph.IsLeast program analysis.symbolTable := by
  simp only [summarize, Option.bind_eq_bind, Option.bind_eq_some_iff, toOption_eq_some] at result
  rcases result with ⟨⟨symbols, callGraph, marked, unifier⟩, inferred, _, _, _, _, ⟨_, _⟩, _,
    finished⟩
  simp only [infer, Option.bind_eq_bind, Option.bind_eq_some_iff, toOption_eq_some] at inferred
  rcases inferred with ⟨_, _, _, _, _, _, _, _, _, _, _, _, solver, analyzed, ⟨_, _⟩, _, inferred⟩
  cases inferred
  cases finished
  exact (CallGraph.build_isLeast _ distinct callsDistinct permutes finds).2 steps solver analyzed

end SemanticAnalysis

end Topc
