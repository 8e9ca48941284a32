import Topc.Types.SolvedConstraints

/-! # What inference solves for calls

The constraints of a call to a generalised function depend on the types known when
its caller is visited. Each caller adds one batch, and the batches before it are
those of the functions before it. -/

namespace Topc

namespace PolyTypeConstraintVisitor

open TypeConstraintVisitor (endVisitFunApp)

section

variable {symbols : SymbolTable} {callGraph : CallGraph} {unifier : TermUnionFind TopType}

/-- What is collected from a node is among the constraints of its function. -/
theorem node_constraints {function : Function} {batch : List TypeConstraint}
    (collected : getCollectedConstraints symbols callGraph unifier function = .ok batch)
    {node : AstNode} (member : node ∈ function.postOrder) :
    ∃ constraints, endVisit symbols callGraph unifier function.decl node = .ok constraints ∧
      constraints ⊆ batch := by
  rw [getCollectedConstraints, bind_eq_ok] at collected
  rcases collected with ⟨nodes, visited, collected⟩
  cases collected
  rcases exists_of_mapM visited node member with ⟨constraints, constraintsMem, result⟩
  refine ⟨constraints, result, fun constraint inside => List.mem_append_left _ ?_⟩
  exact List.mem_flatten.mpr ⟨constraints, constraintsMem, inside⟩

/-- A callee that is no function name has the type of the call. -/
theorem computed_callee {scope : DeclNode} {info : NodeInfo} {function : Expr}
    {actuals : List Expr} (computed : isDirectNamedCall symbols function = false)
    {constraints : List TypeConstraint}
    (result : endVisit symbols callGraph unifier scope (.expr (.funAppExpr info function actuals)) =
      .ok constraints) :
    endVisitFunApp symbols scope info function actuals ∈ constraints := by
  rw [endVisit, endVisitPolyFunApp] at result
  cases calledFuns : callGraph.getCalledFuns info.id with
  | nil =>
      rw [calledFuns] at result
      cases result
      exact List.mem_singleton_self _
  | cons called others =>
      rw [calledFuns] at result
      rcases exists_of_mapM result called List.mem_cons_self with ⟨constraint, member, single⟩
      rw [constrainCalled, computed, Bool.and_false, if_neg nofun] at single
      cases single
      exact member

end

end PolyTypeConstraintVisitor

namespace TypeInference

open TypeConstraintVisitor (endVisitFunApp)

section

variable {symbols : SymbolTable} {cg : CallGraph}

/-- Each generalised function has a batch of its own, collected when the batches of
the functions before it were solved. -/
structure BatchPerFunction (symbols : SymbolTable) (cg : CallGraph) (functions : List Function)
    (batches : List (List TypeConstraint)) : Prop where
  length : batches.length = functions.length
  collected : ∀ index f batch, functions[index]? = some f → batches[index]? = some batch →
    ∃ unifier, SolvedBy (batches.take index) unifier ∧
      PolyTypeConstraintVisitor.getCollectedConstraints symbols cg unifier f = .ok batch

theorem BatchPerFunction.concat {functions : List Function} {batches : List (List TypeConstraint)}
    (each : BatchPerFunction symbols cg functions batches) {unifier : TermUnionFind TopType}
    (solved : SolvedBy batches unifier) {f : Function} {batch : List TypeConstraint}
    (collected : PolyTypeConstraintVisitor.getCollectedConstraints symbols cg unifier f =
      .ok batch) :
    BatchPerFunction symbols cg (functions ++ [f]) (batches ++ [batch]) := by
  constructor
  · rw [List.length_append, List.length_append, each.length]
    rfl
  · intro index g other atIndex batchAt
    by_cases earlier : index < functions.length
    · have inBatches : index < batches.length := by rwa [each.length]
      rw [List.getElem?_append_left earlier] at atIndex
      rw [List.getElem?_append_left inBatches] at batchAt
      rw [List.take_append_of_le_length (Nat.le_of_lt inBatches)]
      exact each.collected index g other atIndex batchAt
    · rcases List.getElem?_eq_some_iff.mp atIndex with ⟨bound, _⟩
      rw [List.length_append, List.length_singleton] at bound
      have last : index = functions.length := by omega
      subst last
      rw [List.getElem?_concat_length] at atIndex
      rw [← each.length, List.getElem?_concat_length] at batchAt
      cases atIndex
      cases batchAt
      rw [← each.length, List.take_left' rfl]
      exact ⟨unifier, solved, collected⟩

theorem foldlM_inferPoly_batches (functions : List Function) :
    ∀ {earlier : List Function} {batches : List (List TypeConstraint)}
      {unifier unifier' : TermUnionFind TopType}, SolvedBy batches unifier →
      BatchPerFunction symbols cg earlier batches →
      functions.foldlM (inferPoly symbols cg) unifier = .ok unifier' →
      ∃ batches', batches <+: batches' ∧ SolvedBy batches' unifier' ∧
        BatchPerFunction symbols cg (earlier ++ functions) batches' := by
  induction functions with
  | nil =>
      intro earlier batches unifier unifier' solved each result
      cases result
      exact ⟨batches, List.prefix_refl _, solved, by rwa [List.append_nil]⟩
  | cons f functions induction =>
      intro earlier batches unifier unifier' solved each result
      rw [List.foldlM_cons, bind_eq_ok] at result
      rcases result with ⟨mid, first, rest⟩
      rcases inferPoly_collects solved first with ⟨batch, collected, midSolved⟩
      rcases induction midSolved (each.concat solved collected) rest with
        ⟨batches', longer, finalSolved, all⟩
      rw [List.append_assoc, List.singleton_append] at all
      exact ⟨batches', (List.prefix_append _ _).trans longer, finalSolved, all⟩

/-- The batches of a run: one for each generalised function in their order, and one
for all other functions together. -/
theorem runPoly_batches {marked : SymbolTable} {unifier : TermUnionFind TopType}
    (result : runPoly symbols cg = .ok (marked, unifier)) :
    marked = markedSymbols symbols cg ∧ ∃ batches,
      BatchPerFunction marked cg (topoSortNonRecursive cg) batches ∧
        SolvedBy (batches ++ [(residual cg (topoSortNonRecursive cg)).flatMap
          (TypeConstraintVisitor.getCollectedConstraints marked)]) unifier := by
  rw [runPoly, bind_eq_ok] at result
  rcases result with ⟨polyUnifier, poly, result⟩
  rw [bind_eq_ok] at result
  rcases result with ⟨final, residualSolved, result⟩
  cases result
  have start : BatchPerFunction (markedSymbols symbols cg) cg [] [] :=
    ⟨rfl, fun index f batch atIndex => by cases atIndex⟩
  rcases foldlM_inferPoly_batches _ .empty start poly with ⟨batches, _, polySolved, each⟩
  rw [List.nil_append] at each
  exact ⟨rfl, batches, each, polySolved.solve (residual_inProgram _ _) residualSolved⟩

/-- The classes that a run leaves satisfy the constraints of a call whose callee is
computed, in every function. -/
theorem runPoly_satisfies_computed (distinct : (cg.vertices.map Function.decl).Nodup)
    {marked : SymbolTable} {unifier : TermUnionFind TopType}
    (result : runPoly symbols cg = .ok (marked, unifier)) {function : Function}
    (functionMem : function ∈ cg.vertices) {info : NodeInfo} {callee : Expr} {actuals : List Expr}
    (member : .expr (.funAppExpr info callee actuals) ∈ function.postOrder)
    (computed : PolyTypeConstraintVisitor.isDirectNamedCall marked callee = false) :
    unifier.root (TypeConstraintVisitor.astToVar marked function.decl callee) =
      unifier.root (.function (actuals.map (TypeConstraintVisitor.astToVar marked function.decl))
        (.var (.plain info.id))) := by
  rcases runPoly_batches result with ⟨isMarked, batches, each, solved⟩
  have sound := TermUnifier.foldlM_solve_sound _ solved.solved TermUnifier.consistent_empty
  apply sound.2.2 (endVisitFunApp marked function.decl info callee actuals)
  rw [List.flatten_append, List.mem_append]
  by_cases generalised : ∃ g ∈ topoSortNonRecursive cg, g.decl = function.decl
  · rcases generalised with ⟨g, gMem, same⟩
    have equal : g = function :=
      List.inj_on_of_nodup_map distinct (topoSortNonRecursive_mem gMem) functionMem same
    subst equal
    rcases List.mem_iff_getElem?.mp gMem with ⟨index, atIndex⟩
    have bound : index < batches.length := by
      rw [each.length]
      exact (List.getElem?_eq_some_iff.mp atIndex).1
    rcases each.collected index g _ atIndex (List.getElem?_eq_getElem bound) with
      ⟨_, _, collected⟩
    rcases PolyTypeConstraintVisitor.node_constraints collected member with
      ⟨constraints, nodeResult, subset⟩
    refine .inl (List.mem_flatten.mpr ⟨_, List.getElem_mem bound, subset ?_⟩)
    exact PolyTypeConstraintVisitor.computed_callee computed nodeResult
  · refine .inr (List.mem_flatten.mpr ⟨_, List.mem_singleton_self _, ?_⟩)
    refine List.mem_flatMap.mpr ⟨function, ?_, ?_⟩
    · rw [residual, List.mem_filter]
      refine ⟨functionMem, ?_⟩
      simpa using generalised
    · refine List.mem_append_left _ (List.mem_flatMap.mpr ⟨_, member, ?_⟩)
      exact List.mem_singleton_self _

end

end TypeInference

end Topc
