import Mathlib.Data.List.MinMax
import Topc.Foundation.FrameMachine
import Topc.Solver.CubicSolver.LeastSolution

/-! # Propagation over sets that change

The loop over the supersets of a node goes through the set itself, which nested
activations change. When they merge away the superset that the loop has just visited,
the iterator is one to an erased element and cannot be incremented. The solver is run
step by step here, so that this is a failure of its own. -/

namespace Topc

namespace CubicSolver

namespace LiveLoops

variable {V E : Type} [DecidableEq V]

/-! ## The machine -/

/-- The public operations. -/
inductive Operation (V E : Type)
  | addElementofConstraint (elem : E) (var : V)
  | addConditionalConstraint (condition : E) (inVar fromVar toVar : V)
  | addSubseteqConstraint (fromVar toVar : V)
  | getElements (var : V)

/-- What is left to do of a call or of a loop. -/
inductive Frame (V E : Type)
  | operation (operation : Operation V E)
  | propagateNodeChanges (n : Nat)
  /-- The loop of propagation over the elements, from the index on. -/
  | elements (n : Nat) (indices : List Nat)
  /-- The inclusions that are activated one after the other. -/
  | activate (waiting : List (V × V))
  /-- Cycles are removed at the node, then propagation starts where the variable is. -/
  | killCyclesAt (n : Nat) (fromVar : V)
  /-- The loop of propagation over the supersets, after the one it has visited last. -/
  | supsets (n : Nat) (visited : Option Nat)

inductive Failure
  | assertion
  | erasedIterator
  | nullNode
deriving DecidableEq

/-- The set is ordered by pointers. -/
def nextSuperset (pointer : Nat → Nat) (s : CubicSolver V E) (n : Nat) (visited : Option Nat) :
    Option Nat :=
  ((s.node n).supsets.filter fun sups =>
    visited.all fun earlier => pointer earlier < pointer sups).argmin pointer

section

variable [DecidableEq E] (iterate : List Nat → List Nat)
  (findPath : CubicSolver V E → Nat → Nat → List Nat) (pointer : Nat → Nat)

def startOperation (s : CubicSolver V E) :
    Operation V E → Except Failure (CubicSolver V E × List (Frame V E))
  | .addElementofConstraint elem var =>
      let s := s.addEmptyVariableIfNecessary var
      match s.dag var with
      | none => .error .nullNode
      | some address => .ok (s.setBit address (s.indexOf elem), [.propagateNodeChanges address])
  | .addConditionalConstraint condition inVar fromVar toVar =>
      let s := ((s.addEmptyVariableIfNecessary inVar).addEmptyVariableIfNecessary
        fromVar).addEmptyVariableIfNecessary toVar
      match s.dag inVar with
      | none => .error .nullNode
      | some address =>
          .ok (s.addWaiting address (s.indexOf condition) (fromVar, toVar),
            [.propagateNodeChanges address])
  | .addSubseteqConstraint fromVar toVar =>
      .ok ((s.addEmptyVariableIfNecessary fromVar).addEmptyVariableIfNecessary toVar,
        [.activate [(fromVar, toVar)]])
  | .getElements _ => .ok (s, [])

/-- One step of the frame on top. -/
def stepFrame (s : CubicSolver V E) :
    Frame V E → Except Failure (CubicSolver V E × List (Frame V E))
  | .operation operation => startOperation s operation
  | .propagateNodeChanges n =>
      .ok (s, [.elements n (List.range (s.node n).bitvector.length), .supsets n none])
  | .elements _ [] => .ok (s, [])
  | .elements n (i :: indices) =>
      if s.bit n i then
        .ok (s.clearWaiting n i, [.activate (s.waiting n i), .elements n indices])
      else .ok (s, [.elements n indices])
  | .activate [] => .ok (s, [])
  | .activate ((fromVar, toVar) :: waiting) =>
      match s.dag fromVar, s.dag toVar with
      | some fromNode, some toNode =>
          if fromNode = toNode then .ok (s, [.activate waiting])
          else .ok (s.linkNodes fromNode toNode, [.killCyclesAt fromNode fromVar, .activate waiting])
      | _, _ => .error .nullNode
  | .killCyclesAt n fromVar =>
      match (s.findCycle findPath n (iterate (s.node n).supsets)).reverse with
      | [] =>
          match s.dag fromVar with
          | none => .error .nullNode
          | some node => .ok (s, [.propagateNodeChanges node])
      | last :: rest => .ok (s.mergePath (last :: rest), [.killCyclesAt last fromVar])
  | .supsets n visited =>
      -- A superset that was erased is merged away and never entered into the set again.
      if visited.any fun sups => sups ∉ (s.node n).supsets then .error .erasedIterator
      else
        match nextSuperset pointer s n visited with
        | none => .ok (s, [])
        | some sups =>
            -- assert(sups != node)
            if sups = n then .error .assertion
            else .ok (s.addBits n sups, [.propagateNodeChanges sups, .supsets n (some sups)])

/-- The operations one after another on a new solver. -/
def start (elements : List E) (operations : List (Operation V E)) :
    FrameMachine.Config (CubicSolver V E) (Frame V E) :=
  (create elements, operations.map .operation)

end

/-- The superset that a loop stands at is in the set. -/
def StandsInSet (s : CubicSolver V E) : Frame V E → Prop
  | .supsets n (some sups) => sups ∈ (s.node n).supsets
  | _ => True

/-! ## What an operation keeps -/

/-- The graph is consistent again, and there is no more work than before. -/
structure Keeps (s s' : CubicSolver V E) : Prop where
  consistent : s'.Consistent
  sameVariables : SameVariables s s'
  progress : Progress s s'

omit [DecidableEq V] in
theorem Keeps.refl {s : CubicSolver V E} (consistent : s.Consistent) : Keeps s s :=
  ⟨consistent, .refl s, .refl s⟩

omit [DecidableEq V] in
theorem Keeps.trans {first second third : CubicSolver V E} (left : Keeps first second)
    (right : Keeps second third) : Keeps first third :=
  ⟨right.consistent, left.sameVariables.trans right.sameVariables,
    left.progress.trans right.progress⟩

/-! ## Frames -/

section

variable [DecidableEq E] {iterate : List Nat → List Nat}
  {findPath : CubicSolver V E → Nat → Nat → List Nat} {pointer : Nat → Nat}

open FrameMachine

theorem stepFrame_erased {s : CubicSolver V E} {frame : Frame V E} (outside : ¬ StandsInSet s frame) :
    stepFrame iterate findPath pointer s frame = .error .erasedIterator := by
  cases frame with
  | supsets n visited =>
      cases visited with
      | none => exact absurd trivial outside
      | some sups =>
          have erased : sups ∉ (s.node n).supsets := outside
          rw [stepFrame, if_pos (by simpa using erased)]
  | _ => exact absurd trivial outside

omit [DecidableEq V] [DecidableEq E] in
theorem nextSuperset_spec {s : CubicSolver V E} {n sups : Nat} {visited : Option Nat}
    (chosen : nextSuperset pointer s n visited = some sups) :
    sups ∈ (s.node n).supsets ∧ ∀ earlier ∈ visited, pointer earlier < pointer sups := by
  have member := List.argmin_mem (Option.mem_def.mpr chosen)
  rw [List.mem_filter, Option.all_eq_true] at member
  refine ⟨member.1, fun earlier isVisited => ?_⟩
  exact of_decide_eq_true (member.2 earlier isVisited)

variable (iterate findPath pointer) in
/-- Propagation from a node ends, if no loop comes to stand outside of its set. -/
def PropagationEnds (s : CubicSolver V E) (n : Nat) : Prop :=
  Ends (stepFrame iterate findPath pointer) StandsInSet [.propagateNodeChanges n] (Keeps s) s

/-- When the cycles are removed, propagation starts at the node of the variable. -/
theorem killCyclesAt_ends {post : CubicSolver V E → Prop} {fromVar : V} {rounds : Nat} :
    ∀ {s s' : CubicSolver V E} {n center : Nat},
      s.killCyclesAt iterate findPath rounds n = some s' → s'.dag fromVar = some center →
      Ends (stepFrame iterate findPath pointer) StandsInSet [.propagateNodeChanges center] post s' →
        Ends (stepFrame iterate findPath pointer) StandsInSet [.killCyclesAt n fromVar] post s := by
  induction rounds with
  | zero => exact fun killed => by cases killed
  | succ rounds induction =>
      intro s s' n center killed stored ends
      rw [killCyclesAt] at killed
      split at killed
      · rename_i noCycle
        cases killed
        exact .step (by rw [stepFrame, noCycle]; dsimp only; rw [stored]) ends
      · rename_i last rest cycle
        exact .step (by rw [stepFrame, cycle]) (induction killed stored ends)

variable (permutes : ∀ nodes, (iterate nodes).Perm nodes) (finds : FindsPaths findPath)

section

include permutes finds

/-- The activations of known inclusions end, with no more work left than before. -/
theorem activate_ends {waiting : List (V × V)} : ∀ {s : CubicSolver V E}, s.Consistent →
    (∀ pair ∈ waiting, pair.1 ∈ s.dagmapping.map Prod.fst ∧ pair.2 ∈ s.dagmapping.map Prod.fst) →
    (∀ (s' : CubicSolver V E) n, s'.Consistent → n < s'.allocated → s'.work ≤ s.work →
      PropagationEnds iterate findPath pointer s' n) →
    Ends (stepFrame iterate findPath pointer) StandsInSet [.activate waiting]
      (fun s' => s'.Consistent ∧ SameVariables s s' ∧ s'.work ≤ s.work) s := by
  induction waiting with
  | nil => exact fun consistent _ _ => .step rfl (.nil ⟨consistent, .refl _, le_refl _⟩)
  | cons pair waiting induction =>
      rintro s consistent pairsKnown propagates
      rcases pair with ⟨fromVar, toVar⟩
      have rest : ∀ s' : CubicSolver V E,
          s'.Consistent ∧ SameVariables s s' ∧ s'.work ≤ s.work →
            Ends (stepFrame iterate findPath pointer) StandsInSet [.activate waiting]
              (fun s' => s'.Consistent ∧ SameVariables s s' ∧ s'.work ≤ s.work) s' := by
        rintro s' ⟨consistent', sameVariables, lessWork⟩
        have sameKeys : s'.dagmapping.map Prod.fst = s.dagmapping.map Prod.fst :=
          sameVariables.dagmapping
        have ends := induction consistent'
          (fun pair member => sameKeys ▸ pairsKnown pair (List.mem_cons_of_mem _ member))
          (fun after n afterConsistent known afterWork =>
            propagates after n afterConsistent known (le_trans afterWork lessWork))
        exact ends.mono fun after ⟨afterConsistent, afterVariables, afterWork⟩ =>
          ⟨afterConsistent, sameVariables.trans afterVariables, le_trans afterWork lessWork⟩
      have wellFormed := consistent.toWellFormed
      rcases pairsKnown _ List.mem_cons_self with ⟨fromMem, toMem⟩
      rcases wellFormed.exists_dag fromMem with ⟨fromNode, fromStored⟩
      rcases wellFormed.exists_dag toMem with ⟨toNode, toStored⟩
      have fromLive := wellFormed.live_of_dag fromStored
      have toLive := wellFormed.live_of_dag toStored
      by_cases same : fromNode = toNode
      · refine .step ?_ (rest s ⟨consistent, .refl s, le_refl _⟩)
        simp only [stepFrame, fromStored, toStored, if_pos same]
      · have wellFormed' := wellFormed.linkNodes_wellFormed fromLive toLive same
        rcases CubicSolver.killCyclesAt_converges permutes finds wellFormed' fromLive
          consistent.linkNodes_edge_of_merged consistent.linkNodes_ranked with
          ⟨middle, center, ⟨rounds, kills⟩, removed⟩
        have lessWork : middle.work ≤ s.work := by
          rw [← linkNodes_work s fromNode toNode]
          rcases removed.fewer with rfl | fewer
          · exact le_refl _
          · exact le_of_lt (Prod.Lex.toLex_lt_toLex.mpr (.inl fewer))
        have propagation := propagates middle center removed.consistent
          (removed.consistent.live_known center removed.live) lessWork
        have centerStored : middle.dag fromVar = some center := by
          have stored : (s.linkNodes fromNode toNode).dag fromVar = some fromNode := fromStored
          rw [wellFormed'.dag_evolves removed.consistent.toWellFormed removed.sameVariables
            removed.touches.evolves stored, removed.represents]
        have relinked := (linkNodes_sameVariables fromNode toNode).trans removed.sameVariables
        have first := (killCyclesAt_ends (kills rounds (le_refl _)) centerStored propagation).mono
          fun after kept => (⟨kept.consistent, relinked.trans kept.sameVariables,
            le_trans kept.progress.le lessWork⟩ :
              after.Consistent ∧ SameVariables s after ∧ after.work ≤ s.work)
        refine .step ?_ (first.append rest)
        simp only [stepFrame, fromStored, toStored, if_neg same]
        rfl

/-- The loop over the elements of a node ends. -/
theorem elements_end {n : Nat} (indices : List Nat) : ∀ {s : CubicSolver V E}, s.Consistent →
    n < s.allocated →
    (∀ (s' : CubicSolver V E) other, s'.Consistent → other < s'.allocated → s'.work < s.work →
      PropagationEnds iterate findPath pointer s' other) →
    Ends (stepFrame iterate findPath pointer) StandsInSet [.elements n indices] (Keeps s) s := by
  induction indices with
  | nil => exact fun consistent _ _ => .step rfl (.nil (.refl consistent))
  | cons index indices induction =>
      intro s consistent known lower
      have rest : ∀ s' : CubicSolver V E, Keeps s s' →
          Ends (stepFrame iterate findPath pointer) StandsInSet [.elements n indices] (Keeps s) s' := by
        intro s' kept
        have ends := induction kept.consistent (kept.sameVariables.allocated ▸ known)
          fun after other consistent' known' work' => lower after other consistent' known'
            (lt_of_lt_of_le work' kept.progress.le)
        exact ends.mono fun _ further => kept.trans further
      by_cases set : s.bit n index = true
      · have cleared := consistent.clearWaiting n index
        have shape := clearWaiting_sameShape s n index
        have activated : Ends (stepFrame iterate findPath pointer) StandsInSet
            [.activate (s.waiting n index)] (Keeps s) (s.clearWaiting n index) := by
          by_cases none : s.waiting n index = []
          · rw [none]
            exact .step rfl (.nil ⟨cleared, shape.variables,
              .inr ⟨clearWaiting_work_of_empty none, shape.supsets⟩⟩)
          · have less : (s.clearWaiting n index).work < s.work := clearWaiting_work known none
            have ends : Ends (stepFrame iterate findPath pointer) StandsInSet _ _ _ :=
              activate_ends permutes finds cleared (consistent.waiting_known n index)
                fun s' other consistent' known' work' => lower s' other consistent' known'
                  (lt_of_le_of_lt work' less)
            exact ends.mono fun after ⟨consistent', variables', work'⟩ =>
              ⟨consistent', shape.variables.trans variables', .inl (lt_of_le_of_lt work' less)⟩
        refine .step ?_ (activated.append rest)
        simp only [stepFrame, set, if_true]
        rfl
      · refine .step ?_ (rest s (.refl consistent))
        simp only [stepFrame, set, if_false, Bool.false_eq_true]

end

/-- The nodes that a loop over supersets may still come to. -/
def ahead (pointer : Nat → Nat) (allocated : Nat) (visited : Option Nat) : Finset Nat :=
  (Finset.range allocated).filter fun node =>
    visited.all fun earlier => pointer earlier < pointer node

omit [DecidableEq V] [DecidableEq E] in
theorem ahead_next {s : CubicSolver V E} {n sups : Nat} {visited : Option Nat}
    (chosen : nextSuperset pointer s n visited = some sups) {allocated : Nat}
    (known : sups < allocated) :
    (ahead pointer allocated (some sups)).card < (ahead pointer allocated visited).card := by
  have later := (nextSuperset_spec chosen).2
  apply Finset.card_lt_card
  refine ⟨fun node member => ?_, fun subset => ?_⟩
  · rw [ahead, Finset.mem_filter, Option.all_some, decide_eq_true_eq] at member
    rw [ahead, Finset.mem_filter, Option.all_eq_true]
    refine ⟨member.1, fun earlier isVisited => decide_eq_true ?_⟩
    exact Nat.lt_trans (later earlier isVisited) member.2
  · have inside : sups ∈ ahead pointer allocated visited := by
      rw [ahead, Finset.mem_filter, Option.all_eq_true]
      exact ⟨Finset.mem_range.mpr known, fun earlier isVisited =>
        decide_eq_true (later earlier isVisited)⟩
    have itself := subset inside
    rw [ahead, Finset.mem_filter, Option.all_some, decide_eq_true_eq] at itself
    exact Nat.lt_irrefl _ itself.2

/-- The loop over the supersets of a node ends: its pointers go up. -/
theorem supsets_end {s : CubicSolver V E} {n : Nat}
    (each : ∀ (s' : CubicSolver V E), ∀ sups ∈ (s'.node n).supsets, Keeps s s' →
      PropagationEnds iterate findPath pointer (s'.addBits n sups) sups) (visited : Option Nat) :
    ∀ s' : CubicSolver V E, Keeps s s' →
      Ends (stepFrame iterate findPath pointer) StandsInSet [.supsets n visited] (Keeps s) s' := by
  induction size : (ahead pointer s.allocated visited).card using Nat.strong_induction_on
    generalizing visited with
  | _ size induction =>
      intro s' kept
      refine .assuming fun stands => ?_
      have inSet : (visited.any fun sups => sups ∉ (s'.node n).supsets) = false := by
        cases visited with
        | none => rfl
        | some sups =>
            have isMember : sups ∈ (s'.node n).supsets := stands
            simpa using isMember
      cases chosen : nextSuperset pointer s' n visited with
      | none =>
          refine .step ?_ (.nil kept)
          simp only [stepFrame, inSet, chosen, if_false, Bool.false_eq_true]
      | some sups =>
          have edge := (nextSuperset_spec chosen).1
          have supsKnown := (kept.consistent.edge_known n sups edge).2
          rw [kept.sameVariables.allocated] at supsKnown
          -- the assertion
          have different : sups ≠ n := by
            rintro rfl
            exact kept.consistent.irreflexive sups edge
          have shape := addBits_sameShape s' n sups
          have propagated := (each s' sups edge kept).mono fun middle further =>
            (⟨further.consistent,
              (kept.sameVariables.trans shape.variables).trans further.sameVariables,
              (kept.progress.trans (.inr ⟨addBits_work s' n sups, shape.supsets⟩)).trans
                further.progress⟩ : Keeps s middle)
          refine .step ?_ (propagated.append
            (induction _ (size ▸ ahead_next chosen supsKnown) (some sups) rfl))
          simp only [stepFrame, inSet, chosen, if_neg different, if_false, Bool.false_eq_true]
          rfl

include permutes finds

/-- Propagation from a node ends if it does with less work, and with the same work
and edges from each superset. -/
theorem propagation_of_lower {s : CubicSolver V E} (consistent : s.Consistent) {n : Nat}
    (known : n < s.allocated)
    (lower : ∀ (s' : CubicSolver V E) other, s'.Consistent → other < s'.allocated →
      s'.work < s.work → PropagationEnds iterate findPath pointer s' other)
    (supsets : ∀ (s' : CubicSolver V E), ∀ sups ∈ (s.node n).supsets, s'.Consistent →
      sups < s'.allocated → s'.work = s.work →
      (∀ address, (s'.node address).supsets = (s.node address).supsets) →
      PropagationEnds iterate findPath pointer s' sups) :
    PropagationEnds iterate findPath pointer s n := by
  have activated := elements_end permutes finds (List.range (s.node n).bitvector.length) consistent
    known lower
  have each : ∀ (s' : CubicSolver V E), ∀ sups ∈ (s'.node n).supsets, Keeps s s' →
      PropagationEnds iterate findPath pointer (s'.addBits n sups) sups := by
    intro s' sups edge kept'
    have supsKnown := (kept'.consistent.edge_known n sups edge).2
    have sameWork := addBits_work s' n sups
    have added := kept'.consistent.addBits n supsKnown
    rcases kept'.progress with less | ⟨same, edges⟩
    · exact lower _ sups added supsKnown (sameWork ▸ less)
    · rw [edges] at edge
      exact supsets _ sups edge added supsKnown (sameWork.trans same)
        fun address => ((addBits_sameShape s' n sups).supsets address).trans (edges address)
  exact .step rfl (activated.append (supsets_end each none))

/-- Propagation ends from every node of a consistent solver. The recursion goes down
in the work left, and at equal work along the edges. -/
theorem propagation_ends {s : CubicSolver V E} (consistent : s.Consistent) {n : Nat}
    (known : n < s.allocated) : PropagationEnds iterate findPath pointer s n := by
  induction amount : s.work using WellFoundedLT.induction generalizing s n with
  | ind size induction =>
      have sameEdges : ∀ node, ∀ s' : CubicSolver V E, s'.Consistent → node < s'.allocated →
          s'.work = size →
          (∀ address, (s'.node address).supsets = (s.node address).supsets) →
          PropagationEnds iterate findPath pointer s' node := by
        intro node
        induction node using consistent.acyclic.induction with
        | step node inner =>
            intro s' consistent' known' sameWork sameSupsets
            apply propagation_of_lower permutes finds consistent' known'
            · intro lower other lowerConsistent otherKnown less
              exact induction lower.work (sameWork ▸ less) lowerConsistent otherKnown rfl
            · intro after sups edge afterConsistent supsKnown afterWork afterSupsets
              rw [sameSupsets] at edge
              exact inner sups edge after afterConsistent supsKnown (afterWork.trans sameWork)
                fun address => (afterSupsets address).trans (sameSupsets address)
      exact sameEdges n s consistent known amount fun _ => rfl

end

/-! ## Runs -/

theorem addEmptyVariable_consistent {s : CubicSolver V E} (consistent : s.Consistent) (var : V) :
    (s.addEmptyVariableIfNecessary var).Consistent := by
  rw [addEmptyVariableIfNecessary]
  split
  · exact consistent
  · rename_i absent
    apply consistent.enter
    intro member
    rcases consistent.exists_dag member with ⟨address, stored⟩
    rw [stored] at absent
    exact absent rfl

/-- The nodes of variables lead to such nodes only, supersets and subsets are each
other's inverse, and no node leads back to itself. -/
structure GraphInvariant (s : CubicSolver V E) : Prop where
  closed : ∀ {var node}, s.dag var = some node →
    ∀ other ∈ (s.node node).supsets ++ (s.node node).subsets, ∃ var', s.dag var' = some other
  inverse : ∀ {var node var' node'}, s.dag var = some node → s.dag var' = some node' →
    (node' ∈ (s.node node).supsets ↔ node ∈ (s.node node').subsets)
  irreflexive : ∀ {var node}, s.dag var = some node →
    node ∉ (s.node node).supsets ∧ node ∉ (s.node node).subsets
  acyclic : ∀ node,
    ¬ Relation.TransGen (fun node next => next ∈ (s.node node).supsets) node node

theorem dag_of_live {s : CubicSolver V E} (wellFormed : s.WellFormed) {node : Nat}
    (live : s.Live node) : ∃ var, s.dag var = some node := by
  rcases List.mem_map.mp live with ⟨entry, member, rfl⟩
  exact ⟨entry.1, wellFormed.dag_eq_some_iff.mpr member⟩

theorem graphInvariant {s : CubicSolver V E} (consistent : s.Consistent) : GraphInvariant s where
  closed {var node} stored other member := by
    have live := consistent.live_of_dag stored
    apply dag_of_live consistent.toWellFormed
    rcases List.mem_append.mp member with isSuperset | isSubset
    · exact consistent.live_of_edge node live other isSuperset
    · exact ((consistent.mem_subsets node live other).mp isSubset).1
  inverse {var node var' node'} stored stored' := by
    rw [consistent.mem_subsets node' (consistent.live_of_dag stored') node]
    exact (and_iff_right (consistent.live_of_dag stored)).symm
  irreflexive {var node} stored := by
    refine ⟨consistent.irreflexive node, fun isSubset => ?_⟩
    rw [consistent.mem_subsets node (consistent.live_of_dag stored) node] at isSubset
    exact consistent.irreflexive node isSubset.2
  acyclic node cycle := by
    rcases consistent.acyclic with ⟨rank, falls⟩
    have lower : ∀ {first last}, Relation.TransGen
        (fun node next => next ∈ (s.node node).supsets) first last →
          rank last < rank first := by
      intro first last path
      induction path with
      | single edge => exact falls _ _ edge
      | tail _ edge induction => exact Nat.lt_trans (falls _ _ edge) induction
    exact Nat.lt_irrefl _ (lower cycle)

section

variable [DecidableEq E] {iterate : List Nat → List Nat}
  {findPath : CubicSolver V E → Nat → Nat → List Nat} {pointer : Nat → Nat}

open FrameMachine

section

variable (permutes : ∀ nodes, (iterate nodes).Perm nodes) (finds : FindsPaths findPath)

include permutes finds

/-- A public operation ends, and the graph is consistent again. -/
theorem operation_ends {s : CubicSolver V E} (consistent : s.Consistent)
    (operation : Operation V E) :
    Ends (stepFrame iterate findPath pointer) StandsInSet [.operation operation] Consistent s := by
  cases operation with
  | addElementofConstraint elem var =>
      have entered := addEmptyVariable_consistent consistent var
      rcases addEmptyVariable_exists (s := s) var with ⟨address, stored⟩
      have live := entered.live_of_dag stored
      have changed := entered.setBit live ((s.addEmptyVariableIfNecessary var).indexOf elem)
      have propagated : Ends (stepFrame iterate findPath pointer) StandsInSet _ _ _ :=
        propagation_ends permutes finds changed (entered.live_known address live)
      refine .step ?_ (propagated.mono fun _ kept => kept.consistent)
      simp only [stepFrame, startOperation, stored]
  | addConditionalConstraint condition inVar fromVar toVar =>
      have entered := addEmptyVariable_consistent (addEmptyVariable_consistent
        (addEmptyVariable_consistent consistent inVar) fromVar) toVar
      rcases addEmptyVariable_exists (s := s) inVar with ⟨address, inStored⟩
      rcases addEmptyVariable_exists (s := s.addEmptyVariableIfNecessary inVar) fromVar with
        ⟨fromNode, fromStored⟩
      rcases addEmptyVariable_exists (s := (s.addEmptyVariableIfNecessary
        inVar).addEmptyVariableIfNecessary fromVar) toVar with ⟨toNode, toStored⟩
      have stored : (((s.addEmptyVariableIfNecessary inVar).addEmptyVariableIfNecessary
          fromVar).addEmptyVariableIfNecessary toVar).dag inVar = some address :=
        addEmptyVariable_dag (addEmptyVariable_dag inStored)
      have live := entered.live_of_dag stored
      have fromMem := List.mem_map_of_mem (f := Prod.fst)
        (entered.dag_eq_some_iff.mp (addEmptyVariable_dag fromStored))
      have toMem := List.mem_map_of_mem (f := Prod.fst) (entered.dag_eq_some_iff.mp toStored)
      have changed := entered.addWaiting live (((s.addEmptyVariableIfNecessary
        inVar).addEmptyVariableIfNecessary fromVar).addEmptyVariableIfNecessary toVar |>.indexOf
          condition) (show (fromVar, toVar).1 ∈ _ from fromMem) toMem
      have propagated : Ends (stepFrame iterate findPath pointer) StandsInSet _ _ _ :=
        propagation_ends permutes finds changed (entered.live_known address live)
      refine .step ?_ (propagated.mono fun _ kept => kept.consistent)
      simp only [stepFrame, startOperation, stored]
  | addSubseteqConstraint fromVar toVar =>
      have entered := addEmptyVariable_consistent (addEmptyVariable_consistent consistent fromVar)
        toVar
      rcases addEmptyVariable_exists (s := s) fromVar with ⟨fromNode, fromStored⟩
      rcases addEmptyVariable_exists (s := s.addEmptyVariableIfNecessary fromVar) toVar with
        ⟨toNode, toStored⟩
      have fromMem := List.mem_map_of_mem (f := Prod.fst)
        (entered.dag_eq_some_iff.mp (addEmptyVariable_dag fromStored))
      have toMem := List.mem_map_of_mem (f := Prod.fst) (entered.dag_eq_some_iff.mp toStored)
      have activated : Ends (stepFrame iterate findPath pointer) StandsInSet
          [.activate [(fromVar, toVar)]] _ _ :=
        activate_ends permutes finds entered (List.forall_mem_singleton.mpr ⟨fromMem, toMem⟩)
          fun s' n consistent' known' _ => propagation_ends permutes finds consistent' known'
      exact .step rfl (activated.mono fun _ after => after.1)
  | getElements var => exact .step rfl (.nil consistent)

theorem operations_end (operations : List (Operation V E)) : ∀ {s : CubicSolver V E},
    s.Consistent → Ends (stepFrame iterate findPath pointer) StandsInSet
      (operations.map .operation) Consistent s := by
  induction operations with
  | nil => exact fun consistent => .nil consistent
  | cons operation operations induction =>
      intro s consistent
      exact (operation_ends permutes finds consistent operation).append fun _ => induction

end

variable (iterate findPath pointer) in
/-- The operations end with the graph as it should be, and no assertion fails. -/
structure KeepsInvariant (elements : List E) (operations : List (Operation V E)) : Prop where
  ends : ∃ s, Reaches (stepFrame iterate findPath pointer) (start elements operations) (s, []) ∧
    GraphInvariant s
  asserts : ∀ s frame frames,
    Reaches (stepFrame iterate findPath pointer) (start elements operations) (s, frame :: frames) →
      stepFrame iterate findPath pointer s frame ≠ .error .assertion

end

/-! ## A visited superset that is merged away -/

namespace MergedSuperset

/-- `t ⊆ x`, `x ⊆ n`, `y ⊆ x`, and `n ⊆ t` as soon as `e` is in `x`. Then `e` is put
into `y`, and passed on to `x`. -/
def operations : List (Operation String String) :=
  [.addSubseteqConstraint "t" "x", .addSubseteqConstraint "x" "n", .addSubseteqConstraint "y" "x",
    .addConditionalConstraint "e" "x" "n" "t", .addElementofConstraint "e" "y"]

end MergedSuperset

end LiveLoops

end CubicSolver

end Topc
