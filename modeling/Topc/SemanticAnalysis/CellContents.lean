import Topc.BorrowChecker.TakenReferents
import Topc.SemanticAnalysis.SolvedTypes
import Topc.Weeding.NestedStatements

/-! # What references lead to

At the solved types no cell holds an owner, unless the type of the cell recurs, and
none is taken out of a reference or overwritten through one. -/

namespace Topc

/-- No owner passes through a reference: what goes into cells, what is stored in them
and what is taken out or overwritten are copies at their solved types. -/
structure SemanticAnalysis.ReferencesCopy (analysis : SemanticAnalysis) (function : Function) :
    Prop where
  allocated : ∀ info initializer, .expr (.allocExpr info initializer) ∈ function.postOrder →
    (analysis.typeResults.ofExpr (.allocExpr info initializer)).isMu = true ∨
      OwnershipClassifier.classifyValue analysis.typeResults initializer = .copy
  stored : ∀ info derefInfo ptr rhs,
    .stmt (.assignStmt info (.deRefExpr derefInfo ptr) rhs) ∈ function.postOrder →
      OwnershipClassifier.classifyValue analysis.typeResults rhs = .copy
  taken : ∀ deref ∈ BorrowChecker.functionDerefs function,
    OwnershipClassifier.classifyValue analysis.typeResults deref = .copy

namespace SemanticAnalysis.Analyzes

open TypeConstraintVisitor (astToVar)

section

variable {analysis : SemanticAnalysis} {program : Program} (analyzes : analysis.Analyzes program)
  {function : Function} (functionMem : function ∈ program.functions)
  (distinct : (program.functions.map Function.decl).Nodup)

include analyzes functionMem

/-- The dereferences whose value is taken, and the slots that are overwritten. -/
theorem taken_copy : ∀ deref ∈ BorrowChecker.functionDerefs function,
    OwnershipClassifier.classifyValue analysis.typeResults deref = .copy := by
  rcases exists_of_mapM analyzes.positions function functionMem with ⟨_, _, checked⟩
  rw [bind_eq_ok] at checked
  rcases checked with ⟨requirements, checked, _⟩
  exact BorrowChecker.checkFunction_copied rfl checked

include distinct

/-- What an `alloc` puts into a cell. -/
theorem alloc_content {info : NodeInfo} {initializer : Expr}
    (member : .expr (.allocExpr info initializer) ∈ function.postOrder) :
    (analysis.typeResults.ofExpr (.allocExpr info initializer)).isMu = true ∨
      OwnershipClassifier.classifyValue analysis.typeResults initializer = .copy := by
  have initializerMem : .expr initializer ∈ function.postOrder := by
    apply function.postOrder_closed _ member
    exact List.mem_append_left _ initializer.self_mem_postOrder
  have satisfied := analyzes.satisfies distinct functionMem member (by simp)
  have rep := satisfied _ (List.mem_singleton_self _)
  have closed := analyzes.exprTypes function functionMem _ member
  rcases TopTypeClosure.close_owningRef (analyzes.keepsSort distinct) (analyzes.congruent distinct)
    (TypeConstraintVisitor.astToVar_inProgram analysis.marked function.decl initializer) rep closed
    with recursive | ⟨payload, isOwning, payloadClass⟩
  · exact .inl recursive
  · have copied := OwnershipTypeRules.checkAllocPayloads_copy analyzes.allocPayloads
      (List.mem_flatMap.mpr ⟨function, functionMem, member⟩) isOwning
    refine .inr ?_
    rw [analyzes.classOf distinct functionMem initializerMem, ← payloadClass, copied]

/-- What is stored through a reference: the slot it overwrites holds no owner. -/
theorem stored_copy {info derefInfo : NodeInfo} {ptr rhs : Expr}
    (member : .stmt (.assignStmt info (.deRefExpr derefInfo ptr) rhs) ∈ function.postOrder) :
    OwnershipClassifier.classifyValue analysis.typeResults rhs = .copy := by
  have nodes := (function.postOrder_stmtsClosed _ member).subset
  rw [Stmt.postOrder] at nodes
  have derefMem : .expr (.deRefExpr derefInfo ptr) ∈ function.postOrder :=
    nodes (List.mem_append_left _ (List.mem_append_left _ (Expr.self_mem_postOrder _)))
  have rhsMem : .expr rhs ∈ function.postOrder :=
    nodes (List.mem_append_left _ (List.mem_append_right _ rhs.self_mem_postOrder))
  have isSlot := analyzes.satisfies distinct functionMem derefMem (by simp) _
    (List.mem_singleton_self _)
  have isStored := analyzes.satisfies distinct functionMem member (by simp) _
    (List.mem_singleton_self _)
  have same := TopTypeClosure.root_referenced (analyzes.congruent distinct)
    (isStored.trans isSlot.symm)
  have copied := analyzes.taken_copy functionMem _
    (BorrowChecker.function_storesJudged function info derefInfo ptr rhs member)
  rw [analyzes.classOf distinct functionMem rhsMem, TopTypeClosure.solvedClass_congr same]
  exact (analyzes.classOf distinct functionMem derefMem).symm.trans copied

/-- In an accepted program no owner passes through a reference, recursive cells apart. -/
theorem referencesCopy : analysis.ReferencesCopy function :=
  ⟨fun _ _ => analyzes.alloc_content functionMem distinct,
    fun _ _ _ _ => analyzes.stored_copy functionMem distinct, analyzes.taken_copy functionMem⟩

end

end SemanticAnalysis.Analyzes

namespace OverwrittenCell

/-- `bump(r) { *r = *r + 1; return *r; }` -/
def bump : Function where
  decl := { id := 0, name := "bump" }
  formals := [{ id := 1, name := "r" }]
  declarations := []
  stmts := [.assignStmt { id := 2 } (.deRefExpr { id := 3 } (.varExpr { id := 4 } "r"))
    (.binaryExpr { id := 5 } .add (.deRefExpr { id := 6 } (.varExpr { id := 7 } "r"))
      (.numExpr { id := 8 } 1))]
  returnInfo := { id := 9 }
  returnArg := .deRefExpr { id := 10 } (.varExpr { id := 11 } "r")

/-- `main() { var c; c = alloc 1; return *c + bump(c); }` -/
def main : Function where
  decl := { id := 12, name := "main" }
  formals := []
  declarations := [{ id := 13, name := "c" }]
  stmts := [.assignStmt { id := 14 } (.varExpr { id := 15 } "c")
    (.allocExpr { id := 16 } (.numExpr { id := 17 } 1))]
  returnInfo := { id := 18 }
  returnArg := .binaryExpr { id := 19 } .add
    (.deRefExpr { id := 20 } (.varExpr { id := 21 } "c"))
    (.funAppExpr { id := 22 } (.varExpr { id := 23 } "bump") [.varExpr { id := 24 } "c"])

def program : Program where
  typedecls := []
  functions := [bump, main]

theorem bump_referencesCopy : ∃ analysis : SemanticAnalysis, analysis.Analyzes program ∧
    analysis.ReferencesCopy bump := by
  have accepted : (SemanticAnalysis.analyze program id SemanticAnalysis.boundedPath 16 64).isSome =
      true := by
    decide +kernel
  rcases Option.isSome_iff_exists.mp accepted with ⟨analysis, ran⟩
  have analyzes := SemanticAnalysis.analyze_analyzes ran
  exact ⟨analysis, analyzes, analyzes.referencesCopy (by simp [program]) (by decide +kernel)⟩

end OverwrittenCell

end Topc
