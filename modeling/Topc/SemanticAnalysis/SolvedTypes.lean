import Topc.CodeGen.TypedArms
import Topc.SemanticAnalysis
import Topc.Types.SolvedCalls
import Topc.Types.SolvedClasses

/-! # Solved types of a program

The types that the ownership passes read satisfy the constraints of the syntax. -/

namespace Topc

open TypeConstraintVisitor (astToVar)
open TopTypeClosure (solvedClass)

namespace SemanticAnalysis.Infers

section

variable {analysis : SemanticAnalysis} {program : Program} (infers : analysis.Infers program)
  (distinct : (program.functions.map Function.decl).Nodup)

include infers

theorem vertices : analysis.callGraph.vertices = program.functions := by
  rcases infers.calls with ⟨_, _, _, _, _, vertices, _⟩
  exact vertices

include distinct

theorem solved : ∃ batches, TypeInference.SolvedBy batches analysis.unifier ∧
    ∀ function ∈ program.functions,
      TypeConstraintVisitor.ownConstraints analysis.marked function ⊆ batches.flatten := by
  rw [← infers.vertices] at distinct ⊢
  exact (TypeInference.runPoly_solves distinct infers.inference).2

theorem keepsSort : TermUnifier.KeepsSort TopType.sort analysis.unifier.root := by
  rcases infers.solved distinct with ⟨batches, solved, _⟩
  exact solved.keeps

theorem congruent : Term.Congruent analysis.unifier.root := by
  rcases infers.solved distinct with ⟨batches, solved, _⟩
  exact (TermUnifier.foldlM_solve_sound batches solved.solved
    TermUnifier.consistent_empty).1.congruent

/-- The symbol table of the run has the declared constructors. -/
theorem holdsConstructors : analysis.marked.HoldsConstructors program := by
  have unique := CheckSumTypeNames.check_unique infers.sumTypeNames
  rw [← infers.vertices] at distinct
  rw [(TypeInference.runPoly_solves distinct infers.inference).1]
  exact TypeInference.markedSymbols_holdsConstructors
    (SymbolTable.build_holdsConstructors unique infers.symbols) analysis.callGraph

variable {function : Function} (functionMem : function ∈ program.functions)

include functionMem

/-- The constraints of a node hold, those of a call apart. -/
theorem satisfies {node : AstNode} (member : node ∈ function.postOrder)
    (noCall : ∀ info callee actuals, node ≠ .expr (.funAppExpr info callee actuals)) :
    TypeInference.Satisfies analysis.unifier
      (TypeConstraintVisitor.endVisit analysis.marked function.decl node) := by
  rcases infers.solved distinct with ⟨batches, solved, own⟩
  have sound := TermUnifier.foldlM_solve_sound batches solved.solved TermUnifier.consistent_empty
  intro constraint inside
  apply sound.2.2 constraint
  apply own function functionMem
  apply List.mem_append_left
  refine List.mem_flatMap.mpr ⟨node, List.mem_filter.mpr ⟨member, ?_⟩, inside⟩
  split
  · exact absurd rfl (noCall _ _ _)
  · rfl

/-- The class that the ownership passes see is that of the solver. -/
theorem classOf {expr : Expr} (member : .expr expr ∈ function.postOrder) :
    OwnershipClassifier.classifyValue analysis.typeResults expr =
      solvedClass analysis.unifier (astToVar analysis.marked function.decl expr) :=
  TopTypeClosure.close_class (infers.keepsSort distinct) (infers.congruent distinct)
    (TypeConstraintVisitor.astToVar_inProgram analysis.marked function.decl expr)
    (infers.exprTypes function functionMem expr member)

theorem classOf_int {expr : Expr} (member : .expr expr ∈ function.postOrder)
    (isInt : analysis.unifier.root (astToVar analysis.marked function.decl expr) =
      analysis.unifier.root .int) :
    OwnershipClassifier.classifyValue analysis.typeResults expr = .copy := by
  rw [infers.classOf distinct functionMem member, TopTypeClosure.solvedClass_congr isInt]
  exact TopTypeClosure.solvedClass_compound (infers.congruent distinct) rfl

/-- A callee that is no name has a function type, which is no owner's. -/
theorem classOf_callee {info : NodeInfo} {callee : Expr} {actuals : List Expr}
    (member : .expr (.funAppExpr info callee actuals) ∈ function.postOrder)
    (computed : PolyTypeConstraintVisitor.isDirectNamedCall analysis.marked callee = false) :
    OwnershipClassifier.classifyValue analysis.typeResults callee = .copy := by
  have calleeMem : .expr callee ∈ function.postOrder := by
    apply function.postOrder_closed _ member
    exact List.mem_append_left _ (List.mem_append_left _ callee.self_mem_postOrder)
  rw [infers.classOf distinct functionMem calleeMem]
  rw [← infers.vertices] at distinct functionMem
  rw [TopTypeClosure.solvedClass_congr (TypeInference.runPoly_satisfies_computed distinct
    infers.inference functionMem member computed)]
  rw [infers.vertices] at distinct
  exact TopTypeClosure.solvedClass_compound (infers.congruent distinct) rfl

end

end SemanticAnalysis.Infers

end Topc
