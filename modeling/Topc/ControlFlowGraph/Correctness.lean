import Std.Data.String.ToNat
import Topc.ControlFlowGraph.Construction
import Topc.ControlFlowGraph.Validation

/-! # Control-flow graphs are correct

The graph built for a function of an accepted program passes its checks, reads
exactly the paths of the function and holds every place of it once. -/

open Computability

namespace Topc

open GraphPaths (pathsFrom Reaches)

namespace CFGBuilder

/-! ## Names -/

theorem blockName_toList (id : BlockId) :
    (blockName id).toList = 'b' :: (toString (id - 1)).toList := by
  rw [blockName, String.toList_append]
  rfl

theorem blockName_injective {id other : BlockId} (positive : 1 ≤ id) (otherPositive : 1 ≤ other)
    (same : blockName id = blockName other) : id = other := by
  rw [← String.toList_inj, blockName_toList, blockName_toList, List.cons.injEq,
    String.toList_inj] at same
  have pred : id - 1 = other - 1 := Nat.repr_injective same.2
  exact Nat.pred_inj positive otherPositive pred

theorem blockName_ne {id : BlockId} {name : String} (other : name.toList.head? ≠ some 'b') :
    blockName id ≠ name := by
  intro same
  apply other
  rw [← same, blockName_toList]
  rfl

/-! ## The drafts of a function -/

section

variable {after : State} {entry : BlockId} {paths : Language FlowStep} {points : List FlowPoint}
  {new : List BlockDraft}

/-- The drafts a function ends up with, in the order of its blocks. -/
def orderedDrafts (entry exitId : BlockId) (new : List BlockDraft) : List BlockDraft :=
  entryDraft (some entry) :: (new ++ [exitDraft exitId]).map (resolveDraft exitId)

theorem mem_orderedDrafts {exitId : BlockId} {draft : BlockDraft} :
    draft ∈ orderedDrafts entry exitId new ↔
      draft = entryDraft (some entry) ∨ (∃ source ∈ new, draft = resolveDraft exitId source) ∨
        draft = exitDraft exitId := by
  rw [orderedDrafts, List.map_append, List.mem_cons, List.mem_append, List.mem_map]
  constructor
  · rintro (rfl | ⟨source, member, rfl⟩ | member)
    · exact Or.inl rfl
    · exact Or.inr (Or.inl ⟨source, member, rfl⟩)
    · exact Or.inr (Or.inr (List.mem_singleton.mp member))
  · rintro (rfl | ⟨source, member, rfl⟩ | rfl)
    · exact Or.inl rfl
    · exact Or.inr (Or.inl ⟨source, member, rfl⟩)
    · exact Or.inr (Or.inr (List.mem_singleton.mpr rfl))

/-- Entry and exit hold nothing of the source. -/
theorem orderedDrafts_points (entry exitId : BlockId) (new : List BlockDraft) :
    (orderedDrafts entry exitId new).flatMap BlockDraft.points =
      new.flatMap BlockDraft.points := by
  rw [orderedDrafts, List.flatMap_cons, List.map_append, List.flatMap_append, List.flatMap_map,
    List.map_singleton, List.flatMap_singleton]
  exact List.append_nil _

/-- The fragment of a whole function. -/
abbrev Whole (after : State) (entry : BlockId) (paths : Language FlowStep)
    (points : List FlowPoint) (new : List BlockDraft) : Prop :=
  Forks ⟨1, []⟩ after [(entry, paths)] none points new

theorem Forks.resolved_target (made : Whole after entry paths points new) {draft : BlockDraft}
    (member : draft ∈ new) {edge : CFGEdge} (edgeMem : edge ∈ draft.successors)
    (exitId : BlockId) : (resolveExit exitId edge).target = some (edge.target.getD exitId) := by
  rw [resolveExit]
  rcases made.targets draft member edge edgeMem with ⟨other, _, target⟩ | ⟨target, kind⟩
  · simp [target]
  · simp [target, kind rfl]

theorem resolveExit_kind (exitId : BlockId) (edge : CFGEdge) :
    (resolveExit exitId edge).kind = edge.kind ∧ (resolveExit exitId edge).label = edge.label := by
  rw [resolveExit]
  split <;> exact ⟨rfl, rfl⟩

theorem steps_resolveExit (draft : BlockDraft) (exitId : BlockId) (edge : CFGEdge) :
    (resolveDraft exitId draft).steps (resolveExit exitId edge) = draft.steps edge := by
  rcases resolveExit_kind exitId edge with ⟨kind, label⟩
  unfold BlockDraft.steps terminatorSteps
  rw [kind, label]
  rfl

/-- Every target is a block of the function or its exit. -/
theorem Forks.target_cases (made : Whole after entry paths points new) {draft : BlockDraft}
    (member : draft ∈ new) {edge : CFGEdge} (edgeMem : edge ∈ draft.successors) :
    (∃ other ∈ new, edge.target = some other.id) ∨ edge.target = none := by
  rcases made.targets draft member edge edgeMem with found | ⟨target, _⟩
  · exact Or.inl found
  · exact Or.inr target

theorem Forks.resolveExit_injective (made : Whole after entry paths points new)
    {draft : BlockDraft} (member : draft ∈ new) {edge other : CFGEdge}
    (edgeMem : edge ∈ draft.successors) (otherMem : other ∈ draft.successors)
    (same : resolveExit after.nextId edge = resolveExit after.nextId other) : edge = other := by
  have kinds := congrArg CFGEdge.kind same
  have labels := congrArg CFGEdge.label same
  have targets := congrArg CFGEdge.target same
  rw [(resolveExit_kind _ edge).1, (resolveExit_kind _ other).1] at kinds
  rw [(resolveExit_kind _ edge).2, (resolveExit_kind _ other).2] at labels
  rw [made.resolved_target member edgeMem, made.resolved_target member otherMem,
    Option.some.injEq] at targets
  have below : ∀ draft ∈ new, draft.id ≠ after.nextId := fun draft draftMem =>
    Nat.ne_of_lt (made.range draft draftMem).2
  have sameTarget : edge.target = other.target := by
    rcases made.target_cases member edgeMem with ⟨left, leftMem, leftTarget⟩ | leftTarget <;>
      rcases made.target_cases member otherMem with ⟨right, rightMem, rightTarget⟩ | rightTarget <;>
        rw [leftTarget, rightTarget] at targets ⊢
    · exact congrArg some targets
    · exact absurd targets (below left leftMem)
    · exact absurd targets.symm (below right rightMem)
  cases edge
  cases other
  simp_all

theorem Forks.entry_mem (made : Whole after entry paths points new) :
    ∃ draft ∈ new, draft.id = entry := by
  rcases made.starts _ List.mem_cons_self with found | none
  · exact found
  · cases none

theorem Forks.ids_orderedDrafts (made : Whole after entry paths points new) :
    ((orderedDrafts entry after.nextId new).map BlockDraft.id).Nodup := by
  have ids : (orderedDrafts entry after.nextId new).map BlockDraft.id =
      0 :: (new.map BlockDraft.id ++ [after.nextId]) := by
    simp [orderedDrafts, entryDraft, exitDraft, resolveDraft, Function.comp_def]
  rw [ids, List.nodup_cons, List.mem_append, List.mem_singleton]
  constructor
  · rintro (inside | last)
    · rcases List.mem_map.mp inside with ⟨draft, member, same⟩
      have lower := (made.range draft member).1
      rw [same] at lower
      exact absurd lower (by decide)
    · have grows : 1 ≤ after.nextId := made.grows
      rw [← last] at grows
      exact absurd grows (by decide)
  · apply made.ids.append (List.nodup_singleton _)
    intro id early late
    rw [List.mem_singleton.mp late] at early
    rcases List.mem_map.mp early with ⟨draft, member, same⟩
    exact Nat.lt_irrefl _ (same ▸ (made.range draft member).2)

theorem Forks.names_orderedDrafts (made : Whole after entry paths points new) :
    ((orderedDrafts entry after.nextId new).map BlockDraft.name).Nodup := by
  have names : (orderedDrafts entry after.nextId new).map BlockDraft.name =
      "entry" :: (new.map (fun draft => blockName draft.id) ++ ["exit"]) := by
    have named : new.map BlockDraft.name = new.map fun draft => blockName draft.id :=
      List.map_congr_left fun draft member => (made.valid draft member).named
    rw [← named]
    simp [orderedDrafts, entryDraft, exitDraft, resolveDraft, Function.comp_def]
  rw [names, List.nodup_cons, List.mem_append, List.mem_singleton]
  constructor
  · rintro (inside | last)
    · rcases List.mem_map.mp inside with ⟨draft, _, same⟩
      exact blockName_ne (by decide) same
    · exact absurd last (by decide)
  · refine List.Nodup.append ?_ (List.nodup_singleton _) ?_
    · have distinct := made.ids
      rw [List.Nodup, List.pairwise_map] at distinct ⊢
      apply distinct.imp_of_mem
      intro draft other member otherMem different same
      exact different (blockName_injective (made.range draft member).1
        (made.range other otherMem).1 same)
    · intro name early late
      rw [List.mem_singleton.mp late] at early
      rcases List.mem_map.mp early with ⟨draft, _, same⟩
      exact blockName_ne (by decide) same

theorem Forks.terminator_resolved (made : Whole after entry paths points new)
    {draft : BlockDraft} (member : draft ∈ new) (exitId : BlockId) :
    (resolveDraft exitId draft).TerminatorComplete exitId := by
  have fits := (made.valid draft member).terminator
  have counts : ∀ kind : CFGEdgeKind,
      ((draft.successors.map (resolveExit exitId)).countP fun edge => edge.kind == kind) =
        draft.successors.countP fun edge => edge.kind == kind := by
    intro kind
    rw [List.countP_map]
    apply List.countP_congr
    intro edge _
    simp [(resolveExit_kind exitId edge).1]
  unfold BlockDraft.TerminatorFits at fits
  unfold BlockDraft.TerminatorComplete
  have kind : (resolveDraft exitId draft).terminatorKind = draft.terminatorKind := rfl
  have successors : (resolveDraft exitId draft).successors =
      draft.successors.map (resolveExit exitId) := rfl
  rw [kind, successors]
  cases same : draft.terminatorKind with
  | fallthrough => trivial
  | ifTerminator | whileTerminator =>
      simp only [same] at fits
      exact ⟨(counts _).trans fits.1, (counts _).trans fits.2⟩
  | caseTerminator =>
      simp only [same] at fits
      refine ⟨by simpa using fits.1, ?_⟩
      intro edge edgeMem
      rcases List.mem_map.mp edgeMem with ⟨source, sourceMem, rfl⟩
      rw [(resolveExit_kind exitId source).1]
      exact fits.2 source sourceMem
  | returnTerminator =>
      simp only [same] at fits
      rcases List.map_eq_singleton_iff.mp fits with ⟨edge, single, shape⟩
      rw [Prod.mk.injEq] at shape
      have edgeMem : edge ∈ draft.successors := by
        rw [single]
        exact List.mem_cons_self
      have target := made.resolved_target member edgeMem exitId
      rw [shape.2] at target
      simp only [single, List.map_cons, List.map_nil, target, (resolveExit_kind exitId edge).1]
      rw [shape.1]
      rfl

/-- The graph of a whole fragment has its drafts, with the exit for the target
of the `return`. -/
theorem Forks.graph_includes (made : Whole after entry paths points new) (function : Function) :
    Includes (graphOf function (orderedDrafts entry after.nextId new) after.nextId).Edge
      after.nextId new := by
  intro draft member
  constructor
  · exact Nat.ne_of_lt (made.range draft member).2
  · intro word next
    constructor
    · rintro ⟨block, blockMem, sameId, edge, edgeMem, target, rfl⟩
      rcases List.mem_map.mp blockMem with ⟨source, sourceMem, rfl⟩
      have resolvedMem : resolveDraft after.nextId draft ∈
          orderedDrafts entry after.nextId new :=
        mem_orderedDrafts.mpr (Or.inr (Or.inl ⟨draft, member, rfl⟩))
      have same := draft_eq made.ids_orderedDrafts sourceMem resolvedMem sameId
      subst same
      rcases List.mem_map.mp edgeMem with ⟨out, outMem, rfl⟩
      rw [made.resolved_target member outMem] at target
      exact ⟨out, outMem, Option.some.inj target, steps_resolveExit draft after.nextId out⟩
    · rintro ⟨out, outMem, target, rfl⟩
      refine ⟨completeBlock (orderedDrafts entry after.nextId new) (resolveDraft after.nextId draft),
        ?_, rfl, resolveExit after.nextId out, List.mem_map_of_mem outMem, ?_, ?_⟩
      · exact List.mem_map_of_mem (mem_orderedDrafts.mpr (Or.inr (Or.inl ⟨draft, member, rfl⟩)))
      · rw [made.resolved_target member outMem, target]
      · exact (steps_resolveExit draft after.nextId out).symm

/-- The entry block leads to the first block of the function. -/
theorem Forks.entry_edge (made : Whole after entry paths points new) (function : Function)
    (word : List FlowStep) (next : BlockId) :
    (graphOf function (orderedDrafts entry after.nextId new) after.nextId).Edge 0 word next ↔
      ∃ out ∈ (entryDraft (some entry)).successors, out.target.getD after.nextId = next ∧
        word = (entryDraft (some entry)).steps out := by
  have entryMem : entryDraft (some entry) ∈ orderedDrafts entry after.nextId new :=
    mem_orderedDrafts.mpr (Or.inl rfl)
  constructor
  · rintro ⟨block, blockMem, sameId, edge, edgeMem, target, rfl⟩
    rcases List.mem_map.mp blockMem with ⟨source, sourceMem, rfl⟩
    have same := draft_eq made.ids_orderedDrafts sourceMem entryMem sameId
    subst same
    exact ⟨edge, edgeMem, by rw [target, Option.getD_some], rfl⟩
  · rintro ⟨out, outMem, target, rfl⟩
    refine ⟨completeBlock (orderedDrafts entry after.nextId new) (entryDraft (some entry)),
      List.mem_map_of_mem entryMem, rfl, out,
      outMem, ?_, rfl⟩
    rw [List.mem_singleton.mp outMem] at target ⊢
    rw [← target]
    rfl

/-- Nothing leads on from the exit. -/
theorem Forks.exit_edge (made : Whole after entry paths points new) (function : Function)
    (word : List FlowStep) (next : BlockId) :
    ¬ (graphOf function (orderedDrafts entry after.nextId new) after.nextId).Edge
      after.nextId word next := by
  rintro ⟨block, blockMem, sameId, edge, edgeMem, _, _⟩
  rcases List.mem_map.mp blockMem with ⟨source, sourceMem, rfl⟩
  have exitMem : exitDraft after.nextId ∈ orderedDrafts entry after.nextId new :=
    mem_orderedDrafts.mpr (Or.inr (Or.inr rfl))
  have same := draft_eq made.ids_orderedDrafts sourceMem exitMem sameId
  subst same
  cases edgeMem

/-- The graph reads what the fragment reads. -/
theorem Forks.graph_paths (made : Whole after entry paths points new) (function : Function) :
    (graphOf function (orderedDrafts entry after.nextId new) after.nextId).paths = paths := by
  have included := made.graph_includes function
  have positive : 0 ≠ after.nextId := Nat.ne_of_lt made.grows
  have atExit : pathsFrom
      (graphOf function (orderedDrafts entry after.nextId new) after.nextId).Edge
      after.nextId after.nextId = 1 := by
    apply Language.ext
    intro word
    rw [Language.mem_one]
    constructor
    · intro reads
      cases reads with
      | done => rfl
      | step first _ => exact absurd first (made.exit_edge function _ _)
    · rintro rfl
      exact GraphPaths.Reads.done
  have meaning := made.meaning _ _ included _ List.mem_cons_self
  rw [Option.getD_none, atExit, mul_one] at meaning
  have fromEntry := GraphPaths.pathsFrom_of_edges positive (made.entry_edge function)
  rw [ControlFlowGraph.paths]
  refine fromEntry.trans ?_
  have single : (entryDraft (some entry)).successors = [⟨some entry, .fallthrough, ""⟩] := rfl
  rw [single, List.map_singleton, List.sum_singleton, Option.getD_some, meaning]
  exact one_mul paths

/-- Every block can be reached from the entry. -/
theorem Forks.graph_reached (made : Whole after entry paths points new) (function : Function)
    {draft : BlockDraft} (member : draft ∈ orderedDrafts entry after.nextId new) :
    Reaches (graphOf function (orderedDrafts entry after.nextId new) after.nextId).Edge
      0 draft.id := by
  have included := made.graph_includes function
  have first : Reaches
      (graphOf function (orderedDrafts entry after.nextId new) after.nextId).Edge 0 entry := by
    apply GraphPaths.Reaches.step
    exact (made.entry_edge function _ _).mpr ⟨_, List.mem_cons_self, rfl, rfl⟩
  rcases mem_orderedDrafts.mp member with rfl | ⟨source, sourceMem, rfl⟩ | rfl
  · exact Relation.ReflTransGen.refl
  · rcases made.reached _ _ included source sourceMem with ⟨branch, branchMem, reaches⟩
    rw [List.mem_singleton.mp branchMem] at reaches
    exact first.trans reaches
  · exact first.trans (made.onwards _ _ included _ List.mem_cons_self)

/-- The drafts of a whole function make a graph without defects. -/
theorem Forks.complete (made : Whole after entry paths points new) (function : Function) :
    Complete (orderedDrafts entry after.nextId new) after.nextId := by
  have positive : 0 ≠ after.nextId := Nat.ne_of_lt made.grows
  have lower : ∀ draft ∈ new, draft.id ≠ 0 := fun draft member =>
    Nat.ne_of_gt (made.range draft member).1
  constructor
  · exact made.ids_orderedDrafts
  · exact made.names_orderedDrafts
  · exact ⟨_, mem_orderedDrafts.mpr (Or.inl rfl), rfl⟩
  · exact ⟨_, mem_orderedDrafts.mpr (Or.inr (Or.inr rfl)), rfl⟩
  · intro draft member same
    have exitMem : exitDraft after.nextId ∈ orderedDrafts entry after.nextId new :=
      mem_orderedDrafts.mpr (Or.inr (Or.inr rfl))
    rw [draft_eq made.ids_orderedDrafts member exitMem same]
    rfl
  · intro draft member edge edgeMem
    rcases mem_orderedDrafts.mp member with rfl | ⟨source, sourceMem, rfl⟩ | rfl
    · rcases made.entry_mem with ⟨first, firstMem, same⟩
      rw [List.mem_singleton.mp edgeMem, ← same]
      exact fun zero => lower first firstMem (Option.some.inj zero)
    · rcases List.mem_map.mp edgeMem with ⟨out, outMem, rfl⟩
      rw [made.resolved_target sourceMem outMem]
      rcases made.target_cases sourceMem outMem with ⟨other, otherMem, target⟩ | target
      · rw [target]
        exact fun zero => lower other otherMem (Option.some.inj zero)
      · rw [target]
        exact fun zero => positive (Option.some.inj zero).symm
    · cases edgeMem
  · intro draft member edge edgeMem
    rcases mem_orderedDrafts.mp member with rfl | ⟨source, sourceMem, rfl⟩ | rfl
    · rcases made.entry_mem with ⟨first, firstMem, same⟩
      refine ⟨resolveDraft after.nextId first,
        mem_orderedDrafts.mpr (Or.inr (Or.inl ⟨first, firstMem, rfl⟩)), ?_⟩
      rw [List.mem_singleton.mp edgeMem, ← same]
      rfl
    · rcases List.mem_map.mp edgeMem with ⟨out, outMem, rfl⟩
      rw [made.resolved_target sourceMem outMem]
      rcases made.target_cases sourceMem outMem with ⟨other, otherMem, target⟩ | target
      · refine ⟨resolveDraft after.nextId other,
          mem_orderedDrafts.mpr (Or.inr (Or.inl ⟨other, otherMem, rfl⟩)), ?_⟩
        rw [target]
        rfl
      · refine ⟨exitDraft after.nextId, mem_orderedDrafts.mpr (Or.inr (Or.inr rfl)), ?_⟩
        rw [target]
        rfl
    · cases edgeMem
  · intro draft member
    rcases mem_orderedDrafts.mp member with rfl | ⟨source, sourceMem, rfl⟩ | rfl
    · exact List.nodup_singleton _
    · apply List.Nodup.map_on _ (made.valid source sourceMem).distinctEdges
      exact fun edge edgeMem other otherMem => made.resolveExit_injective sourceMem edgeMem otherMem
    · exact List.nodup_nil
  · intro draft member
    rcases mem_orderedDrafts.mp member with rfl | ⟨source, sourceMem, rfl⟩ | rfl
    · trivial
    · exact made.terminator_resolved sourceMem _
    · trivial
  · intro draft member
    have reaches := made.graph_reached function member
    refine Relation.ReflTransGen.mono ?_ _ _ reaches
    rintro id next ⟨word, block, blockMem, rfl, edge, edgeMem, target, _⟩
    rcases List.mem_map.mp blockMem with ⟨other, otherMem, rfl⟩
    exact ⟨other, otherMem, rfl, edge, edgeMem, target⟩

end

/-- Building a function of an accepted program gives a graph of a whole fragment. -/
theorem buildForFunction_whole {function : Function}
    (distinct : LabelsDistinct (Stmt.postOrderOf function.stmts)) :
    ∃ after entry new, buildForFunction function =
        .ok (graphOf function (orderedDrafts entry after.nextId new) after.nextId) ∧
      Whole after entry function.flowPaths function.flowPoints new := by
  have ended : Run.WellEnded ⟨[], some (function.returnInfo, function.returnArg)⟩ none :=
    Or.inr ⟨_, rfl, rfl⟩
  rcases buildSequence_forks ⟨1, []⟩ ended (fun stmt _ => stmtBuilds stmt) distinct with
    ⟨opened, run, current, built, closing⟩
  rcases closing [] with ⟨after, entry, new, closed, made⟩
  rw [List.nil_append] at closed
  refine ⟨after, entry, new, ?_, ?_⟩
  · have drafts : after.drafts = new := made.drafts
    unfold buildForFunction
    rw [built]
    simp only [bind, Except.bind, closed, allocateId, addDraft, drafts]
    rfl
  · simpa [Function.flowPaths, Function.flowPoints, Run.steps, Run.points,
      Monitor.singleton_nil] using made

end CFGBuilder

/-- What a control-flow graph has to be for the function it is built for. -/
structure ControlFlowGraph.Correct (graph : ControlFlowGraph) (function : Function) : Prop where
  validates : graph.validate = .ok ()
  paths : graph.paths = function.flowPaths
  points : (graph.blocks.flatMap BasicBlock.points).Perm function.flowPoints
  reached : ∀ block ∈ graph.blocks, Reaches graph.Edge graph.entryId block.id

/-- For every function of a program that passes the completeness check the
builder returns a graph, and the graph is correct. -/
theorem buildForFunction_correct {program : Program} (lexed : program.Lexed)
    (checked : CheckCaseCompleteness.check program = .ok ()) {function : Function}
    (member : function ∈ program.functions) :
    ∃ graph, CFGBuilder.buildForFunction function = .ok graph ∧ graph.Correct function := by
  have distinct : CFGBuilder.LabelsDistinct (Stmt.postOrderOf function.stmts) := by
    intro info caseExpr arms inside
    have inProgram : AstNode.stmt (.caseStmt info caseExpr arms) ∈ program.postOrder :=
      List.mem_flatMap.mpr ⟨function, member, List.mem_append_left _ inside⟩
    rcases CheckCaseCompleteness.check_caseStmt checked inProgram with ⟨nonempty, pairwise⟩
    exact ⟨nonempty, labels_nodup (lexed info caseExpr arms inProgram) pairwise⟩
  rcases CFGBuilder.buildForFunction_whole distinct with ⟨after, entry, new, built, made⟩
  refine ⟨_, built, ?_, ?_, ?_, ?_⟩
  · exact CFGBuilder.validate_graphOf function (made.complete function)
  · exact made.graph_paths function
  · have blocks := CFGBuilder.orderedDrafts_points entry after.nextId new
    rw [CFGBuilder.graphOf, List.flatMap_map]
    exact (List.Perm.of_eq blocks).trans made.points
  · intro block blockMem
    rcases List.mem_map.mp blockMem with ⟨draft, draftMem, rfl⟩
    exact made.graph_reached function draftMem

/-! ## A match inside a loop -/

namespace MatchInLoop

def arms : List CaseArm := [
  .mk { id := 7 } "S" [.var { id := 8 } { id := 9, name := "v" }]
    (.outputStmt { id := 10 } (.varExpr { id := 11 } "v")),
  .mk { id := 12 } "N" [] (.blockStmt { id := 13 } [])]

/-- `main() { var o; while (1) case o of { S(v) -> output v; N -> {} } return 0; }` -/
def main : Function where
  decl := { id := 0, name := "main" }
  formals := []
  declarations := [{ id := 1, name := "o" }]
  stmts := [.whileStmt { id := 2 } (.numExpr { id := 3 } 1)
    (.caseStmt { id := 4 } (.varExpr { id := 5 } "o") arms)]
  returnInfo := { id := 14 }
  returnArg := .numExpr { id := 15 } 0

/-- `type O = S(x) | N;` and `main`. -/
def program : Program where
  typedecls := [⟨"O", [⟨"S", [{ id := 16, name := "x" }], 0⟩, ⟨"N", [], 0⟩], 0⟩]
  functions := [main]

theorem program_lexed : program.Lexed := by
  intro info caseExpr arms' member
  have found : arms' = arms := by
    simp [Program.postOrder, program, Function.postOrder, main, arms, Stmt.postOrderOf,
      Stmt.postOrder, Expr.postOrder, CaseArm.postOrderOf, CaseArm.postOrder] at member
    exact member.2.2
  rw [found]
  intro arm armMem
  rcases List.mem_cons.mp armMem with rfl | armMem
  · refine ⟨⟨'S', [], by simp [CaseArm.getTag], by decide, List.forall_mem_nil _⟩, ?_, trivial⟩
    exact ⟨'v', [], by simp, by decide, List.forall_mem_nil _⟩
  · rw [List.mem_singleton.mp armMem]
    exact ⟨⟨'N', [], by simp [CaseArm.getTag], by decide, List.forall_mem_nil _⟩, trivial⟩

theorem main_correct : ∃ graph, CFGBuilder.buildForFunction main = .ok graph ∧
    graph.Correct main :=
  buildForFunction_correct program_lexed (by decide +kernel) (List.mem_cons_self (l := []))

end MatchInLoop

end Topc
