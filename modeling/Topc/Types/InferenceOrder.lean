import Topc.Foundation.DepthFirst
import Topc.Types.Inference

/-! # The order of inference

The functions that are solved on their own are those that lead to no cycle of
calls, and each is solved after the functions it calls. -/

namespace Topc

/-! ## Call graphs -/

namespace CallGraph

/-- The vertices are distinct functions and the edges lead between them. -/
structure WellFormed (cg : CallGraph) : Prop where
  distinct : (cg.vertices.map Function.decl).Nodup
  closed : ∀ f ∈ cg.vertices.map Function.decl, cg.getCallees f ⊆ cg.vertices.map Function.decl

section

variable (cg : CallGraph)

abbrev Calls : DeclNode → DeclNode → Prop :=
  DepthFirst.Edge cg.getCallees

/-- The function lies on a cycle of calls or reaches one. -/
def LeadsToCycle (f : DeclNode) : Prop :=
  ∃ g, Relation.ReflTransGen cg.Calls f g ∧ Relation.TransGen cg.Calls g g

end

theorem LeadsToCycle.of_calls {cg : CallGraph} {f g : DeclNode} (call : cg.Calls f g)
    (leads : cg.LeadsToCycle g) : cg.LeadsToCycle f := by
  rcases leads with ⟨h, path, cycle⟩
  exact ⟨h, .head call path, cycle⟩

theorem getElements_subset {s : CfaSolver} {elements : List DeclNode}
    (mapping : s.fmapping = elements.zipIdx) (var : NodeId) : s.getElements var ⊆ elements := by
  intro elem member
  rw [CubicSolver.getElements] at member
  split at member
  · cases member
  · rcases List.mem_map.mp member with ⟨entry, entryMem, rfl⟩
    have listed := (List.mem_filter.mp entryMem).1
    rw [mapping] at listed
    exact List.mem_of_getElem? (List.mem_zipIdx_iff_getElem?.mp listed)

theorem IsBuilt.vertices_eq {program : Program} {symbols : SymbolTable} {cg : CallGraph}
    (built : cg.IsBuilt program symbols) : cg.vertices = program.functions := by
  rcases built with ⟨_, _, _, _, _, vertices, _⟩
  exact vertices

/-- The call graph of a program leads from functions of the program to such. -/
theorem IsBuilt.wellFormed {program : Program} {symbols : SymbolTable} {cg : CallGraph}
    (built : cg.IsBuilt program symbols) (distinct : (program.functions.map Function.decl).Nodup) :
    cg.WellFormed := by
  rcases built with ⟨iterate, findPath, steps, s, analyzed, vertices, callees, _⟩
  refine ⟨vertices ▸ distinct, fun f _ g call => ?_⟩
  have grown := CubicSolver.foldlM_grows (fun _ _ _ step => CFAnalyzer.add_grows step) _ analyzed
  rw [(callees f).mem_iff] at call
  rcases List.mem_flatMap.mp (List.mem_dedup.mp call) with ⟨function, _, inCalls⟩
  rcases List.mem_flatMap.mp inCalls with ⟨entry, entryMem, isCallee⟩
  rcases List.mem_filterMap.mp entryMem with ⟨visited, _, isEntry⟩
  cases visited with
  | assign lhs rhs => cases isEntry
  | funApp info callee actuals =>
      cases isEntry
      rw [vertices]
      exact getElements_subset grown.fmapping _ isCallee

end CallGraph

namespace TypeInference

section

variable (cg : CallGraph)

/-! ## Chains of calls -/

theorem mayIndirectlyCallHelper_eq_search (g : DeclNode) (depth : Nat) :
    ∀ f visited, mayIndirectlyCallHelper cg depth f g visited =
      DepthFirst.search cg.getCallees g depth f visited := by
  induction depth with
  | zero => exact fun _ _ => rfl
  | succ depth induction =>
      intro f visited
      rw [mayIndirectlyCallHelper, DepthFirst.search]
      simp only [induction]

variable {cg}

theorem mayIndirectlyCall_iff (wellFormed : cg.WellFormed) {f g : DeclNode}
    (known : f ∈ cg.vertices.map Function.decl) :
    mayIndirectlyCall cg f g = true ↔ Relation.TransGen cg.Calls f g := by
  rw [mayIndirectlyCall, mayIndirectlyCallHelper_eq_search]
  apply DepthFirst.search_iff wellFormed.closed _ known
  rw [List.length_map]
  exact Nat.lt_succ_self _

theorem mem_recursiveFuncs (wellFormed : cg.WellFormed) {r : Function} :
    r ∈ recursiveFuncs cg ↔ r ∈ cg.vertices ∧ Relation.TransGen cg.Calls r.decl r.decl := by
  rw [recursiveFuncs, List.mem_filter]
  refine and_congr_right fun member => ?_
  exact mayIndirectlyCall_iff wellFormed (List.mem_map_of_mem member)

/-- What a function leads to is a vertex. -/
theorem reached_known (wellFormed : cg.WellFormed) {f g : DeclNode}
    (known : f ∈ cg.vertices.map Function.decl) (path : Relation.ReflTransGen cg.Calls f g) :
    g ∈ cg.vertices.map Function.decl := by
  induction path with
  | refl => exact known
  | tail _ call induction => exact wellFormed.closed _ induction call

/-- The functions that the sort is given. -/
def nonRecursiveFuncs (cg : CallGraph) : List Function :=
  cg.vertices.filter fun f =>
    !((recursiveFuncs cg).any fun r => f.decl = r.decl || mayIndirectlyCall cg f.decl r.decl)

theorem mem_nonRecursiveFuncs (wellFormed : cg.WellFormed) {f : Function} :
    f ∈ nonRecursiveFuncs cg ↔ f ∈ cg.vertices ∧ ¬ cg.LeadsToCycle f.decl := by
  rw [nonRecursiveFuncs, List.mem_filter]
  refine and_congr_right fun member => ?_
  have known : f.decl ∈ cg.vertices.map Function.decl := List.mem_map_of_mem member
  rw [Bool.not_eq_true', ← Bool.not_eq_true, not_iff_not, List.any_eq_true]
  constructor
  · rintro ⟨r, recursive, reaches⟩
    have cycle := ((mem_recursiveFuncs wellFormed).mp recursive).2
    refine ⟨r.decl, ?_, cycle⟩
    rcases Bool.or_eq_true_iff.mp reaches with same | calls
    · rw [of_decide_eq_true same]
    · exact ((mayIndirectlyCall_iff wellFormed known).mp calls).to_reflTransGen
  · rintro ⟨g, path, cycle⟩
    rcases List.mem_map.mp (reached_known wellFormed known path) with ⟨r, rMem, rfl⟩
    refine ⟨r, (mem_recursiveFuncs wellFormed).mpr ⟨rMem, cycle⟩, ?_⟩
    rcases Relation.reflTransGen_iff_eq_or_transGen.mp path with same | calls
    · simp [same]
    · simp [(mayIndirectlyCall_iff wellFormed known).mpr calls]

/-! ## The sort -/

/-- A sort of functions as a search of their declarations. -/
def Sorting.progress (sorting : Sorting) : DepthFirst.Progress DeclNode where
  finished := sorting.sorted.map Function.decl
  unmarked := sorting.unmarked.map Function.decl

theorem map_decl_eraseP (f : DeclNode) (functions : List Function) :
    (functions.eraseP fun other => other.decl = f).map Function.decl =
      (functions.map Function.decl).erase f := by
  induction functions with
  | nil => rfl
  | cons function functions induction =>
      by_cases same : function.decl = f
      · simp [same]
      · simp [same, induction]

theorem topoVisit_progress (depth : Nat) : ∀ (sorting : Sorting) (f : DeclNode),
    (topoVisit cg depth sorting f).progress =
      DepthFirst.visit cg.getCallees depth sorting.progress f := by
  induction depth with
  | zero => exact fun _ _ => rfl
  | succ depth induction =>
      have folded : ∀ (callees : List DeclNode) (sorting : Sorting),
          (callees.foldl (topoVisit cg depth) sorting).progress =
            callees.foldl (DepthFirst.visit cg.getCallees depth) sorting.progress := by
        intro callees
        induction callees with
        | nil => exact fun _ => rfl
        | cons callee callees rest =>
            intro sorting
            rw [List.foldl_cons, List.foldl_cons, rest, induction]
      intro sorting f
      rw [DepthFirst.visit]
      unfold topoVisit
      cases found : sorting.unmarked.find? fun function => function.decl = f with
      | none =>
          have missing : f ∉ sorting.progress.unmarked := by
            intro member
            rcases List.mem_map.mp member with ⟨function, functionMem, same⟩
            have other := List.find?_eq_none.mp found function functionMem
            simp [same] at other
          rw [if_neg missing]
      | some function =>
          have isDecl : function.decl = f := by
            simpa using List.find?_some found
          have member : f ∈ sorting.progress.unmarked :=
            List.mem_map.mpr ⟨function, List.mem_of_find?_eq_some found, isDecl⟩
          rw [if_pos member]
          have marked := folded (cg.getCallees f)
            { sorting with unmarked := sorting.unmarked.eraseP fun other => other.decl = f }
          have sameMarked : Sorting.progress
              { sorting with unmarked := sorting.unmarked.eraseP fun other => other.decl = f } =
              { sorting.progress with unmarked := sorting.progress.unmarked.erase f } := by
            simp only [Sorting.progress, map_decl_eraseP]
          rw [sameMarked] at marked
          simp only [← marked]
          simp [Sorting.progress, isDecl]

theorem topoVisit_mem (depth : Nat) : ∀ (sorting : Sorting) (f : DeclNode) (function : Function),
    function ∈ (topoVisit cg depth sorting f).sorted ∨
        function ∈ (topoVisit cg depth sorting f).unmarked →
      function ∈ sorting.sorted ∨ function ∈ sorting.unmarked := by
  induction depth with
  | zero => exact fun _ _ _ => id
  | succ depth induction =>
      intro sorting f function
      unfold topoVisit
      split
      · exact id
      · rename_i found isFound
        have foundMem := List.mem_of_find?_eq_some isFound
        have folded : ∀ (callees : List DeclNode) (start : Sorting),
            function ∈ (callees.foldl (topoVisit cg depth) start).sorted ∨
                function ∈ (callees.foldl (topoVisit cg depth) start).unmarked →
              function ∈ start.sorted ∨ function ∈ start.unmarked := by
          intro callees
          induction callees with
          | nil => exact fun _ => id
          | cons callee callees foldInduction =>
              intro start member
              exact induction start callee function (foldInduction _ member)
        have marked : function ∈ ((cg.getCallees f).foldl (topoVisit cg depth)
            { sorting with unmarked := sorting.unmarked.eraseP fun other => other.decl = f }).sorted ∨
            function ∈ ((cg.getCallees f).foldl (topoVisit cg depth)
              { sorting with unmarked := sorting.unmarked.eraseP fun other => other.decl = f }).unmarked →
            function ∈ sorting.sorted ∨ function ∈ sorting.unmarked := by
          intro member
          exact (folded _ _ member).imp_right fun kept => List.mem_of_mem_eraseP kept
        rintro (sorted | unmarked)
        · rcases List.mem_append.mp sorted with earlier | last
          · exact marked (.inl earlier)
          · rw [List.mem_singleton.mp last]
            exact .inr foundMem
        · exact marked (.inr unmarked)

theorem topoSortFrom_mem (rounds : Nat) : ∀ (sorting : Sorting) (function : Function),
    function ∈ topoSortFrom cg rounds sorting →
      function ∈ sorting.sorted ∨ function ∈ sorting.unmarked := by
  induction rounds with
  | zero => exact fun _ _ => .inl
  | succ rounds induction =>
      intro sorting function member
      unfold topoSortFrom at member
      split at member
      · exact .inl member
      · exact topoVisit_mem _ _ _ function (induction _ function member)

theorem topoSortNonRecursive_mem {function : Function}
    (member : function ∈ topoSortNonRecursive cg) : function ∈ cg.vertices := by
  rcases topoSortFrom_mem _ _ function member with none | inside
  · cases none
  · exact (List.mem_filter.mp inside).1

/-- A round of the sort. -/
structure Rounds (cg : CallGraph) (inside : DeclNode → Prop) (start sorting : Sorting) : Prop where
  covers : DepthFirst.Covers inside [] sorting.progress
  ordered : DepthFirst.Ordered cg.getCallees sorting.progress.finished
  perm : (sorting.progress.finished ++ sorting.progress.unmarked).Perm
    (start.progress.finished ++ start.progress.unmarked)

theorem topoSortFrom_spec {inside : DeclNode → Prop}
    (closed : ∀ f, inside f → ∀ g ∈ cg.getCallees f, inside g)
    (acyclic : ∀ f, inside f → ¬ Relation.TransGen cg.Calls f f) (start : Sorting)
    (all : ∀ f ∈ start.progress.finished ++ start.progress.unmarked, inside f)
    (nodup : (start.progress.finished ++ start.progress.unmarked).Nodup)
    (bounded : start.unmarked.length ≤ cg.vertices.length) (rounds : Nat) :
    ∀ sorting, Rounds cg inside start sorting → sorting.unmarked.length < rounds →
      sorting.unmarked.length ≤ start.unmarked.length →
      DepthFirst.Ordered cg.getCallees ((topoSortFrom cg rounds sorting).map Function.decl) ∧
        ((topoSortFrom cg rounds sorting).map Function.decl).Perm
          (start.progress.finished ++ start.progress.unmarked) := by
  induction rounds with
  | zero => exact fun _ _ enough => absurd enough (Nat.not_lt_zero _)
  | succ rounds induction =>
      intro sorting invariant enough fewer
      unfold topoSortFrom
      cases last : sorting.unmarked.getLast? with
      | none =>
          have empty := List.getLast?_eq_none_iff.mp last
          have perm := invariant.perm
          simp only [Sorting.progress, empty, List.map_nil, List.append_nil] at perm
          exact ⟨invariant.ordered, perm⟩
      | some f =>
          have waiting : f.decl ∈ sorting.progress.unmarked :=
            List.mem_map_of_mem (List.mem_of_getLast? last)
          have fInside : inside f.decl :=
            all f.decl (invariant.perm.mem_iff.mp (List.mem_append_right _ waiting))
          have depth : sorting.progress.unmarked.length < cg.vertices.length + 1 := by
            rw [Sorting.progress, List.length_map]
            omega
          have visit := DepthFirst.visit_spec closed acyclic (cg.vertices.length + 1) f.decl []
            sorting.progress fInside nofun invariant.covers invariant.ordered depth
          rw [← topoVisit_progress] at visit
          rcases visit with ⟨visited, left⟩
          have perm := visited.perm.trans invariant.perm
          have shorter : (topoVisit cg (cg.vertices.length + 1) sorting f.decl).unmarked.length <
              sorting.unmarked.length := by
            have total := visited.perm.length_eq
            have longer := visited.extends_finished.length_le
            have notBefore : f.decl ∉ sorting.progress.finished := by
              intro before
              have disjoint := (List.nodup_append.mp (invariant.perm.nodup_iff.mpr nodup)).2.2
              exact disjoint _ before _ waiting rfl
            have grown : sorting.progress.finished.length ≠
                (topoVisit cg (cg.vertices.length + 1) sorting f.decl).progress.finished.length := by
              intro sameLength
              rw [← visited.extends_finished.eq_of_length sameLength] at left
              exact notBefore left
            rw [List.length_append, List.length_append] at total
            simp only [Sorting.progress, List.length_map] at total longer grown
            omega
          apply induction
          · exact ⟨invariant.covers.visited visited, visited.ordered, perm⟩
          · omega
          · omega

/-- Exactly the vertices that lead to no cycle, each once and after what it calls. -/
structure OrdersNonRecursive (cg : CallGraph) (order : List Function) : Prop where
  nodup : order.Nodup
  mem_iff : ∀ f, f ∈ order ↔ f ∈ cg.vertices ∧ ¬ cg.LeadsToCycle f.decl
  callees_before : ∀ before f after, order = before ++ f :: after →
    ∀ callee ∈ cg.getCallees f.decl, ∃ g ∈ before, g.decl = callee

theorem topoSortNonRecursive_orders (wellFormed : cg.WellFormed) :
    OrdersNonRecursive cg (topoSortNonRecursive cg) := by
  let inside : DeclNode → Prop := fun f => f ∈ (nonRecursiveFuncs cg).map Function.decl
  let start : Sorting := ⟨[], nonRecursiveFuncs cg⟩
  have subset : (nonRecursiveFuncs cg).Sublist cg.vertices := List.filter_sublist
  have startNodup : ((nonRecursiveFuncs cg).map Function.decl).Nodup :=
    wellFormed.distinct.sublist (subset.map Function.decl)
  have acyclic : ∀ f, inside f → ¬ Relation.TransGen cg.Calls f f := by
    intro f isInside cycle
    rcases List.mem_map.mp isInside with ⟨function, member, rfl⟩
    exact ((mem_nonRecursiveFuncs wellFormed).mp member).2 ⟨function.decl, .refl, cycle⟩
  have closed : ∀ f, inside f → ∀ g ∈ cg.getCallees f, inside g := by
    intro f isInside g call
    rcases List.mem_map.mp isInside with ⟨function, member, rfl⟩
    have nonRecursive := (mem_nonRecursiveFuncs wellFormed).mp member
    have known := wellFormed.closed _ (List.mem_map_of_mem nonRecursive.1) call
    rcases List.mem_map.mp known with ⟨callee, calleeMem, rfl⟩
    refine List.mem_map_of_mem ((mem_nonRecursiveFuncs wellFormed).mpr ⟨calleeMem, ?_⟩)
    exact fun leads => nonRecursive.2 (leads.of_calls call)
  have sorted := topoSortFrom_spec closed acyclic start (fun _ => id) startNodup
    subset.length_le ((nonRecursiveFuncs cg).length + 1) start
    ⟨fun _ => .inr, fun before _ _ split => by simp [start, Sorting.progress] at split, .refl _⟩
    (Nat.lt_succ_self _) (Nat.le_refl _)
  change DepthFirst.Ordered cg.getCallees ((topoSortNonRecursive cg).map Function.decl) ∧
    ((topoSortNonRecursive cg).map Function.decl).Perm
      ((nonRecursiveFuncs cg).map Function.decl) at sorted
  rcases sorted with ⟨ordered, perm⟩
  refine ⟨(perm.nodup_iff.mpr startNodup).of_map, ?_, ?_⟩
  · intro f
    rw [← mem_nonRecursiveFuncs wellFormed]
    constructor
    · intro member
      rcases topoSortFrom_mem _ _ f member with none | inside
      · cases none
      · exact inside
    · intro member
      have known := perm.mem_iff.mpr (List.mem_map_of_mem member)
      rcases List.mem_map.mp known with ⟨g, gMem, same⟩
      have equal : g = f :=
        List.inj_on_of_nodup_map wellFormed.distinct (topoSortNonRecursive_mem gMem)
          (subset.subset member) same
      exact equal ▸ gMem
  · intro before f after split callee call
    have mapped := congrArg (List.map Function.decl) split
    rw [List.map_append, List.map_cons] at mapped
    exact List.mem_map.mp (ordered _ _ _ mapped call)

theorem topoSortNonRecursive_correct (wellFormed : cg.WellFormed) :
    OrdersNonRecursive cg (topoSortNonRecursive cg) :=
  topoSortNonRecursive_orders wellFormed

end

/-! ## A graph with a cycle -/

namespace MutualCalls

def named (id : NodeId) (name : String) : Function where
  decl := { id := id, name := name }
  formals := []
  declarations := []
  stmts := []
  returnInfo := { id := id + 10 }
  returnArg := .numExpr { id := id + 20 } 0

/-- `even` and `odd` call each other and `leaf`, which `helper` calls too. -/
def graph : CallGraph where
  vertices := [named 0 "main", named 1 "even", named 2 "helper", named 3 "odd", named 4 "leaf"]
  getCallees f :=
    match f.id with
    | 0 => [(named 1 "even").decl, (named 2 "helper").decl]
    | 1 => [(named 3 "odd").decl, (named 4 "leaf").decl]
    | 2 => [(named 4 "leaf").decl]
    | 3 => [(named 1 "even").decl]
    | _ => []
  getCalledFuns _ := []

theorem graph_ordered : OrdersNonRecursive graph (topoSortNonRecursive graph) :=
  topoSortNonRecursive_correct ⟨by decide, by decide⟩

example : (topoSortNonRecursive graph).map Function.getName = ["leaf", "helper"] := by
  decide

end MutualCalls

/-! ## A function called by its name -/

namespace NamedCall

/-- `leaf(x) { return x + 1; }` -/
def leaf : Function where
  decl := { id := 0, name := "leaf" }
  formals := [{ id := 1, name := "x" }]
  declarations := []
  stmts := []
  returnInfo := { id := 2 }
  returnArg := .binaryExpr { id := 3 } .add (.varExpr { id := 4 } "x") (.numExpr { id := 5 } 1)

/-- `main() { return leaf(1); }` -/
def main : Function where
  decl := { id := 6, name := "main" }
  formals := []
  declarations := []
  stmts := []
  returnInfo := { id := 7 }
  returnArg := .funAppExpr { id := 8 } (.varExpr { id := 9 } "leaf") [.numExpr { id := 10 } 1]

def program : Program where
  typedecls := []
  functions := [main, leaf]

def solver (symbols : SymbolTable) : Option CfaSolver :=
  CFAnalyzer.analyze program symbols id (fun s source target =>
    (s.findPath id 8 source target).getD []) 16

end NamedCall

end TypeInference

end Topc
