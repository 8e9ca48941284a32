import Mathlib.Data.Set.Basic
import Topc.Solver.CubicSolver.CycleRemoval

/-! # The cubic solver adds nothing extra

Whatever a solution of the constraints is, the sets of the solver stay within it.
A node has a share of the solution, the set of each variable it stands for. Nodes
on a cycle have the same share. -/

namespace Topc

namespace CubicSolver

variable {V E : Type}

/-- A node stays within its share. Its elements are in the share, its edges lead to
larger shares, and what waits for an element that is in the share holds. -/
structure NodeBelow (fmapping : List (E × Nat)) (solution : V → Set E) (share : Nat → Set E)
    (address : Nat) (n : CubicSolverNode V) : Prop where
  bits : ∀ index, n.bitvector[index]?.getD false = true →
    ∀ elem, (elem, index) ∈ fmapping → elem ∈ share address
  supsets : ∀ next ∈ n.supsets, share address ⊆ share next
  subsets : ∀ other ∈ n.subsets, share other ⊆ share address
  waits : ∀ index : Nat, ∀ pair ∈ n.conditionalConstraints[index]?.getD [],
    (∀ elem, (elem, index) ∈ fmapping → elem ∈ share address) →
      solution pair.1 ⊆ solution pair.2

/-- The solver stays within a solution. -/
structure Below (solution : V → Set E) (share : Nat → Set E) (s : CubicSolver V E) : Prop where
  stored : ∀ entry ∈ s.dagmapping, solution entry.1 = share entry.2
  node : ∀ address, NodeBelow s.fmapping solution share address (s.node address)

variable {solution : V → Set E} {share : Nat → Set E} {s s' : CubicSolver V E}

theorem Below.modifyNode (below : s.Below solution share) {address : Nat}
    {change : CubicSolverNode V → CubicSolverNode V}
    (changed : NodeBelow s.fmapping solution share address (change (s.node address))) :
    (s.modifyNode address change).Below solution share where
  stored := below.stored
  node other := by
    rw [modifyNode_node]
    by_cases same : other = address
    · subst same
      rw [Function.update_self]
      exact changed
    · rw [Function.update_of_ne same]
      exact below.node other

theorem NodeBelow.withSupsets {fmapping : List (E × Nat)} {address : Nat} {n : CubicSolverNode V}
    (below : NodeBelow fmapping solution share address n) {supsets : List Nat}
    (larger : ∀ next ∈ supsets, share address ⊆ share next) :
    NodeBelow fmapping solution share address { n with supsets := supsets } :=
  ⟨below.bits, larger, below.subsets, below.waits⟩

theorem NodeBelow.withSubsets {fmapping : List (E × Nat)} {address : Nat} {n : CubicSolverNode V}
    (below : NodeBelow fmapping solution share address n) {subsets : List Nat}
    (smaller : ∀ other ∈ subsets, share other ⊆ share address) :
    NodeBelow fmapping solution share address { n with subsets := subsets } :=
  ⟨below.bits, below.supsets, smaller, below.waits⟩

theorem mem_of_mem_redirect {set : List Nat} {fromNode toNode address : Nat}
    (member : address ∈ redirect set fromNode toNode) : address = toNode ∨ address ∈ set := by
  rcases List.mem_insert_iff.mp member with isTo | kept
  · exact .inl isTo
  · exact .inr (List.mem_of_mem_erase kept)

theorem orBits_set {target source : List Bool} {index : Nat}
    (set : (orBits target source)[index]?.getD false = true) :
    target[index]?.getD false = true ∨ source[index]?.getD false = true := by
  rw [orBits, List.getElem?_mapIdx] at set
  cases found : target[index]? with
  | none => simp [found] at set
  | some value => simpa [found] using set

/-- A loop stays within the solution when its steps do. -/
theorem Below.foldl {α : Type} {step : CubicSolver V E → α → CubicSolver V E} {items : List α}
    (steps : ∀ s, ∀ item ∈ items, s.Below solution share → (step s item).Below solution share)
    (below : s.Below solution share) : (items.foldl step s).Below solution share := by
  induction items generalizing s with
  | nil => exact below
  | cons item items induction =>
      exact induction (fun s other member => steps s other (List.mem_cons_of_mem _ member))
        (steps s item List.mem_cons_self below)

theorem Below.foldlM {α : Type} {step : CubicSolver V E → α → Option (CubicSolver V E)}
    {items : List α}
    (steps : ∀ s s', ∀ item ∈ items, step s item = some s' → s.Below solution share →
      s'.Below solution share)
    (below : s.Below solution share) (result : items.foldlM step s = some s') :
    s'.Below solution share := by
  induction items generalizing s with
  | nil =>
      cases result
      exact below
  | cons item items induction =>
      rw [List.foldlM_cons, Option.bind_eq_bind, Option.bind_eq_some_iff] at result
      rcases result with ⟨middle, first, rest⟩
      exact induction (fun s s' other member => steps s s' other (List.mem_cons_of_mem _ member))
        (steps s middle item List.mem_cons_self first below) rest

/-! ## Merges -/

/-- The elements and waiting inclusions of both nodes stay within the same share. -/
theorem NodeBelow.merge {fmapping : List (E × Nat)} {n1 n2 : Nat} {target source : CubicSolverNode V}
    (below : NodeBelow fmapping solution share n1 target)
    (sourceBelow : NodeBelow fmapping solution share n2 source) (same : share n1 = share n2) :
    NodeBelow fmapping solution share n1 { target with
      bitvector := orBits target.bitvector source.bitvector
      conditionalConstraints := target.conditionalConstraints.mapIdx fun index waiting =>
        waiting ++ source.conditionalConstraints[index]?.getD [] } where
  bits index set elem entry := by
    rcases orBits_set set with set | set
    · exact below.bits index set elem entry
    · rw [same]
      exact sourceBelow.bits index set elem entry
  supsets := below.supsets
  subsets := below.subsets
  waits index pair member held := by
    dsimp only at member
    rw [List.getElem?_mapIdx] at member
    cases found : target.conditionalConstraints[index]? with
    | none => simp [found] at member
    | some waiting =>
        rw [found, Option.map_some, Option.getD_some, List.mem_append] at member
        rcases member with member | member
        · exact below.waits index pair (by rw [found]; exact member) held
        · exact sourceBelow.waits index pair member fun elem entry => same ▸ held elem entry

theorem Below.eraseEdges (below : s.Below solution share) (address other : Nat) :
    (s.modifyNode address fun n => { n with
      supsets := n.supsets.erase other
      subsets := n.subsets.erase other }).Below solution share := by
  have node := below.node address
  apply below.modifyNode
  apply (node.withSupsets ?_).withSubsets
  · exact fun next member => node.subsets next (List.mem_of_mem_erase member)
  · exact fun next member => node.supsets next (List.mem_of_mem_erase member)

/-- A superset of a merged node becomes one of the node it is merged into. -/
theorem Below.redirectSubset (below : s.Below solution share) {n1 n2 a : Nat}
    (larger : share n1 ⊆ share a) :
    ((s.modifyNode a fun n => { n with subsets := redirect n.subsets n2 n1 }).modifyNode n1
      fun n => { n with supsets := n.supsets.insert a }).Below solution share := by
  have redirected : (s.modifyNode a fun n =>
      { n with subsets := redirect n.subsets n2 n1 }).Below solution share := by
    refine below.modifyNode ((below.node a).withSubsets ?_)
    intro other member
    rcases mem_of_mem_redirect member with rfl | member
    · exact larger
    · exact (below.node a).subsets other member
  refine redirected.modifyNode ((redirected.node n1).withSupsets ?_)
  intro next member
  rcases List.mem_insert_iff.mp member with rfl | member
  · exact larger
  · exact (redirected.node n1).supsets next member

theorem Below.redirectSupset (below : s.Below solution share) {n1 n2 a : Nat}
    (smaller : share a ⊆ share n1) :
    ((s.modifyNode a fun n => { n with supsets := redirect n.supsets n2 n1 }).modifyNode n1
      fun n => { n with subsets := n.subsets.insert a }).Below solution share := by
  have redirected : (s.modifyNode a fun n =>
      { n with supsets := redirect n.supsets n2 n1 }).Below solution share := by
    refine below.modifyNode ((below.node a).withSupsets ?_)
    intro next member
    rcases mem_of_mem_redirect member with rfl | member
    · exact smaller
    · exact (below.node a).supsets next member
  refine redirected.modifyNode ((redirected.node n1).withSubsets ?_)
  intro other member
  rcases List.mem_insert_iff.mp member with rfl | member
  · exact smaller
  · exact (redirected.node n1).subsets other member

theorem Below.mergeNodes (below : s.Below solution share) {n1 n2 : Nat}
    (same : share n1 = share n2) : (s.mergeNodes n1 n2).Below solution share := by
  have source := below.node n2
  have redirected : CubicSolver.Below solution share { s with
      dagmapping := s.dagmapping.map fun (entry : V × Nat) =>
        if entry.2 = n2 then (entry.1, n1) else entry } := by
    refine ⟨fun entry member => ?_, below.node⟩
    rcases List.mem_map.mp member with ⟨earlier, earlierMem, rfl⟩
    have stored := below.stored earlier earlierMem
    split
    · rename_i isMerged
      rw [stored, isMerged, same]
    · exact stored
  unfold CubicSolver.mergeNodes
  dsimp only
  apply Below.eraseEdges
  apply Below.foldl
  · intro s a member below
    apply below.redirectSupset
    rw [same]
    exact source.subsets a (List.mem_of_mem_filter member)
  apply Below.foldl
  · intro s a member below
    apply below.redirectSubset
    rw [same]
    exact source.supsets a (List.mem_of_mem_filter member)
  exact redirected.modifyNode ((below.node n1).merge source same)

/-! ## Cycles -/

/-- The nodes of a path have growing shares. -/
theorem Below.share_le_of_path (below : s.Below solution share) {first : Nat} {rest : List Nat}
    (path : (first :: rest).IsChain fun address next => next ∈ (s.node address).supsets) :
    ∀ address ∈ first :: rest, share first ⊆ share address := by
  induction rest generalizing first with
  | nil =>
      intro address member
      rw [List.mem_singleton.mp member]
  | cons second rest induction =>
      rw [List.isChain_cons_cons] at path
      intro address member
      rcases List.mem_cons.mp member with rfl | member
      · exact Set.Subset.refl _
      · exact ((below.node first).supsets second path.1).trans (induction path.2 address member)

/-- The nodes of a cycle have the same share. -/
theorem Below.share_eq_of_cycle (below : s.Below solution share) {first last : Nat}
    {rest : List Nat}
    (path : (first :: rest).IsChain fun address next => next ∈ (s.node address).supsets)
    (ends : (first :: rest).getLast? = some last) (closed : first ∈ (s.node last).supsets) :
    ∀ address ∈ first :: rest, share address = share first := by
  intro address member
  apply Set.Subset.antisymm
  · rcases List.append_of_mem member with ⟨front, back, split⟩
    rw [split] at path ends
    have lastMem : last ∈ address :: back := by
      rw [List.getLast?_append_of_ne_nil _ (List.cons_ne_nil _ _)] at ends
      exact List.mem_of_getLast? ends
    exact (below.share_le_of_path path.right_of_append last lastMem).trans
      ((below.node last).supsets first closed)
  · exact below.share_le_of_path path address member

theorem Below.mergePath (below : s.Below solution share) {last : Nat} {rest : List Nat}
    (same : ∀ address ∈ rest, share address = share last) :
    (s.mergePath (last :: rest)).Below solution share := by
  rw [CubicSolver.mergePath]
  apply Below.foldl _ below
  intro s b member below
  exact below.mergeNodes (same b member).symm

section

variable {iterate : List Nat → List Nat} {findPath : CubicSolver V E → Nat → Nat → List Nat}
  (permutes : ∀ nodes, (iterate nodes).Perm nodes) (finds : FindsPaths findPath)

include permutes finds

theorem Below.killCyclesAt (rounds : Nat) : ∀ {s s' : CubicSolver V E} {n : Nat},
    s.Below solution share → s.killCyclesAt iterate findPath rounds n = some s' →
      s'.Below solution share := by
  induction rounds with
  | zero => exact nofun
  | succ rounds induction =>
      intro s s' n below result
      rw [CubicSolver.killCyclesAt] at result
      split at result
      · cases result
        exact below
      · rename_i last rest reversed
        rcases findCycle_cases finds s n (iterate (s.node n).supsets) with
          ⟨t, tMem, found⟩ | ⟨noCycle, _⟩
        · have starts : (s.findCycle findPath n (iterate (s.node n).supsets)).reverse.head? =
              some t := by
            rw [List.head?_reverse]
            exact found.last
          have ends : (s.findCycle findPath n (iterate (s.node n).supsets)).reverse.getLast? =
              some n := by
            rw [List.getLast?_reverse]
            exact found.head
          have path := List.isChain_reverse.mpr found.linked
          rw [reversed] at starts ends path
          cases starts
          apply induction (below.mergePath ?_) result
          intro address member
          exact below.share_eq_of_cycle path ends ((permutes _).mem_iff.mp tMem) address
            (List.mem_cons_of_mem _ member)
        · rw [noCycle] at reversed
          cases reversed

theorem Below.link (below : s.Below solution share) {steps fromNode toNode : Nat}
    (included : share fromNode ⊆ share toNode)
    (result : s.link iterate findPath steps fromNode toNode = some s') :
    s'.Below solution share := by
  refine Below.killCyclesAt permutes finds steps ?_ result
  have linked : (s.modifyNode fromNode fun n =>
      { n with supsets := n.supsets.insert toNode }).Below solution share := by
    refine below.modifyNode ((below.node fromNode).withSupsets fun next member => ?_)
    rcases List.mem_insert_iff.mp member with rfl | member
    · exact included
    · exact (below.node fromNode).supsets next member
  refine linked.modifyNode ((linked.node toNode).withSubsets fun other member => ?_)
  rcases List.mem_insert_iff.mp member with rfl | member
  · exact included
  · exact (linked.node toNode).subsets other member

end

/-! ## Propagation -/

variable [DecidableEq V]

theorem Below.dag (below : s.Below solution share) {var : V} {address : Nat}
    (stored : s.dag var = some address) : solution var = share address := by
  rw [CubicSolver.dag, Option.map_eq_some_iff] at stored
  rcases stored with ⟨entry, found, rfl⟩
  have isVar := List.find?_some found
  rw [← of_decide_eq_true isVar]
  exact below.stored entry (List.mem_of_find?_eq_some found)

section

variable {iterate : List Nat → List Nat} {findPath : CubicSolver V E → Nat → Nat → List Nat}
  (permutes : ∀ nodes, (iterate nodes).Perm nodes) (finds : FindsPaths findPath)

/-- What propagation with so many steps does. An activated inclusion holds in the
solution. -/
def PropagationBelow (iterate : List Nat → List Nat)
    (findPath : CubicSolver V E → Nat → Nat → List Nat) (solution : V → Set E)
    (share : Nat → Set E) (steps : Nat) : Prop :=
  (∀ s s' n, propagateNodeChanges iterate findPath steps s n = some s' →
      Below solution share s → s'.Below solution share) ∧
    ∀ s s' fromVar toVar, solution fromVar ⊆ solution toVar →
      activateConditionalConstraint iterate findPath steps s fromVar toVar = some s' →
        Below solution share s → s'.Below solution share

include permutes finds

theorem propagationBelow (steps : Nat) :
    PropagationBelow iterate findPath solution share steps := by
  induction steps with
  | zero => exact ⟨nofun, nofun⟩
  | succ steps induction =>
      rcases induction with ⟨propagates, activates⟩
      constructor
      · intro s s' n result below
        rw [propagateNodeChanges, Option.bind_eq_bind, Option.bind_eq_some_iff] at result
        rcases result with ⟨middle, activated, passedOn⟩
        have middleBelow : middle.Below solution share := by
          refine below.foldlM (fun s s' i _ step below => ?_) activated
          split at step
          · rename_i set
            have node := below.node n
            refine Below.foldlM (fun s s' pair member step below => ?_) ?_ step
            · exact activates s s' pair.1 pair.2 (node.waits i pair member (node.bits i set)) step
                below
            · refine below.modifyNode ⟨node.bits, node.supsets, node.subsets, ?_⟩
              intro index pair member
              rw [List.getElem?_set] at member
              split at member
              · split at member
                · cases member
                · cases member
              · exact node.waits index pair member
          · cases step
            exact below
        refine middleBelow.foldlM (fun s s' sups member step below => ?_) passedOn
        have larger := (middleBelow.node n).supsets sups ((permutes _).mem_iff.mp member)
        have node := below.node sups
        refine propagates _ _ sups step
          (below.modifyNode ⟨fun index set => ?_, node.supsets, node.subsets, node.waits⟩)
        rcases orBits_set set with set | set
        · exact node.bits index set
        · exact fun elem entry => larger ((below.node n).bits index set elem entry)
      · intro s s' fromVar toVar included result below
        rw [activateConditionalConstraint, Option.bind_eq_bind, Option.bind_eq_some_iff] at result
        rcases result with ⟨fromNode, fromStored, result⟩
        rw [Option.bind_eq_bind, Option.bind_eq_some_iff] at result
        rcases result with ⟨toNode, toStored, result⟩
        split at result
        · cases result
          exact below
        · rw [Option.bind_eq_some_iff] at result
          rcases result with ⟨middle, linked, result⟩
          rw [Option.bind_eq_some_iff] at result
          rcases result with ⟨newFrom, _, result⟩
          rw [below.dag fromStored, below.dag toStored] at included
          exact propagates middle s' newFrom result
            (below.link permutes finds included linked)

end

end CubicSolver

end Topc
