import Mathlib.Algebra.GroupWithZero.Nat
import Mathlib.Data.Prod.Lex
import Topc.Solver.CubicSolver.CycleRemoval

/-! # Activating an inclusion

A new edge between two nodes closes cycles, which are removed before the elements
of the first node are passed on. -/

namespace Topc

namespace CubicSolver

variable {V E : Type}

/-! ## Work left -/

/-- The inclusions that wait at any node. -/
def pendingCount (s : CubicSolver V E) : Nat :=
  ((List.range s.allocated).map fun address =>
    ((s.node address).conditionalConstraints.map List.length).sum).sum

/-- Merges leave fewer nodes, activations fewer waiting inclusions. -/
def work (s : CubicSolver V E) : Nat ×ₗ Nat :=
  toLex (s.liveCount, s.pendingCount)

/-- Less work is left, or the same with the same edges. -/
def Progress (s s' : CubicSolver V E) : Prop :=
  s'.work < s.work ∨
    (s'.work = s.work ∧ ∀ address, (s'.node address).supsets = (s.node address).supsets)

theorem Progress.le {s s' : CubicSolver V E} (progress : Progress s s') : s'.work ≤ s.work := by
  rcases progress with less | ⟨same, _⟩
  · exact le_of_lt less
  · exact le_of_eq same

theorem Progress.refl (s : CubicSolver V E) : Progress s s :=
  .inr ⟨rfl, fun _ => rfl⟩

theorem Progress.trans {first second third : CubicSolver V E} (left : Progress first second)
    (right : Progress second third) : Progress first third := by
  rcases right with less | ⟨same, edges⟩
  · exact .inl (lt_of_lt_of_le less left.le)
  · rcases left with less | ⟨same', edges'⟩
    · exact .inl (same ▸ less)
    · exact .inr ⟨same.trans same', fun address => (edges address).trans (edges' address)⟩

/-! ## A new edge -/

/-- Two nodes with an edge from one to the other. -/
def linkNodes (s : CubicSolver V E) (fromNode toNode : Nat) : CubicSolver V E :=
  (s.modifyNode fromNode fun n => { n with supsets := n.supsets.insert toNode }).modifyNode toNode
    fun n => { n with subsets := n.subsets.insert fromNode }

section

variable {s : CubicSolver V E} {fromNode toNode : Nat}

theorem linkNodes_node (address : Nat) : (s.linkNodes fromNode toNode).node address =
    { s.node address with
      supsets := if address = fromNode then (s.node address).supsets.insert toNode
        else (s.node address).supsets
      subsets := if address = toNode then (s.node address).subsets.insert fromNode
        else (s.node address).subsets } := by
  rw [linkNodes, modifyNode_node, modifyNode_node]
  by_cases isTo : address = toNode
  · subst isTo
    by_cases isFrom : address = fromNode
    · subst isFrom
      simp
    · simp [isFrom]
  · by_cases isFrom : address = fromNode
    · subst isFrom
      simp [isTo]
    · simp [isTo, isFrom]

theorem mem_linkNodes_supsets {address next : Nat} :
    next ∈ ((s.linkNodes fromNode toNode).node address).supsets ↔
      next ∈ (s.node address).supsets ∨ (address = fromNode ∧ next = toNode) := by
  rw [linkNodes_node]
  dsimp only
  split
  · rename_i isFrom
    rw [List.mem_insert_iff, or_comm]
    simp [isFrom]
  · rename_i other
    simp [other]

theorem mem_linkNodes_subsets {address other : Nat} :
    other ∈ ((s.linkNodes fromNode toNode).node address).subsets ↔
      other ∈ (s.node address).subsets ∨ (address = toNode ∧ other = fromNode) := by
  rw [linkNodes_node]
  dsimp only
  split
  · rename_i isTo
    rw [List.mem_insert_iff, or_comm]
    simp [isTo]
  · rename_i notTo
    simp [notTo]

theorem linkNodes_bit (address index : Nat) :
    (s.linkNodes fromNode toNode).bit address index = s.bit address index := by
  rw [bit, bit, linkNodes_node]

variable (s fromNode toNode) in
theorem linkNodes_waiting (address index : Nat) :
    (s.linkNodes fromNode toNode).waiting address index = s.waiting address index := by
  rw [waiting, waiting, linkNodes_node]

variable (fromNode toNode) in
theorem linkNodes_sameVariables : SameVariables s (s.linkNodes fromNode toNode) :=
  ⟨rfl, rfl, rfl⟩

variable (s fromNode toNode) in
theorem linkNodes_work : (s.linkNodes fromNode toNode).work = s.work := by
  have sameLive : (s.linkNodes fromNode toNode).liveCount = s.liveCount := rfl
  have samePending : (s.linkNodes fromNode toNode).pendingCount = s.pendingCount := by
    rw [pendingCount, pendingCount]
    simp only [linkNodes_node]
    rfl
  rw [work, work, sameLive, samePending]

theorem WellFormed.linkNodes_wellFormed (wellFormed : s.WellFormed) (fromLive : s.Live fromNode)
    (toLive : s.Live toNode) (different : fromNode ≠ toNode) :
    (s.linkNodes fromNode toNode).WellFormed where
  sized address := by
    rw [linkNodes_node]
    exact wellFormed.sized address
  waitingSized address := by
    rw [linkNodes_node]
    exact wellFormed.waitingSized address
  allocated := wellFormed.allocated
  variablesNodup := wellFormed.variablesNodup
  live_known := wellFormed.live_known
  representative_of_live := wellFormed.representative_of_live
  supsetsNodup address := by
    rw [linkNodes_node]
    dsimp only
    split
    · exact (wellFormed.supsetsNodup address).insert
    · exact wellFormed.supsetsNodup address
  subsetsNodup address := by
    rw [linkNodes_node]
    dsimp only
    split
    · exact (wellFormed.subsetsNodup address).insert
    · exact wellFormed.subsetsNodup address
  irreflexive address member := by
    rcases mem_linkNodes_supsets.mp member with member | ⟨isFrom, isTo⟩
    · exact wellFormed.irreflexive address member
    · exact different (isFrom.symm.trans isTo)
  mem_subsets address live other := by
    rw [mem_linkNodes_subsets, mem_linkNodes_supsets, wellFormed.mem_subsets address live other]
    change _ ↔ s.Live other ∧ _
    constructor
    · rintro (⟨otherLive, edge⟩ | ⟨isTo, isFrom⟩)
      · exact ⟨otherLive, .inl edge⟩
      · exact ⟨isFrom ▸ fromLive, .inr ⟨isFrom, isTo⟩⟩
    · rintro ⟨otherLive, edge | ⟨isFrom, isTo⟩⟩
      · exact .inl ⟨otherLive, edge⟩
      · exact .inr ⟨isTo, isFrom⟩
  live_of_edge address live next edge := by
    rcases mem_linkNodes_supsets.mp edge with edge | ⟨_, isTo⟩
    · exact wellFormed.live_of_edge address live next edge
    · rw [isTo]
      exact toLive
  edge_known address next edge := by
    rcases mem_linkNodes_supsets.mp edge with edge | ⟨isFrom, isTo⟩
    · exact wellFormed.edge_known address next edge
    · rw [isFrom, isTo]
      exact ⟨wellFormed.live_known fromNode fromLive, wellFormed.live_known toNode toLive⟩
  subset_known address other member := by
    rcases mem_linkNodes_subsets.mp member with member | ⟨isTo, isFrom⟩
    · exact wellFormed.subset_known address other member
    · rw [isFrom, isTo]
      exact ⟨wellFormed.live_known toNode toLive, wellFormed.live_known fromNode fromLive⟩
  waiting_known address index pair member := by
    rw [linkNodes_waiting] at member
    exact wellFormed.waiting_known address index pair member
  fresh address unknown index := by
    rw [linkNodes_bit, linkNodes_waiting]
    exact wellFormed.fresh address unknown index

theorem WellFormed.linkNodes_touches (wellFormed : s.WellFormed) (fromLive : s.Live fromNode) :
    s.graph.Touches fromNode (s.linkNodes fromNode toNode).graph where
  evolves := {
    known := .rfl
    live := fun live => live
    representative := fun known =>
      wellFormed.representative_of_live _ (wellFormed.graph.live_representative known)
    frozen := by
      intro address next dead
      have other : address ≠ fromNode := by
        rintro rfl
        exact dead fromLive
      change next ∈ ((s.linkNodes fromNode toNode).node address).supsets ↔
        next ∈ (s.node address).supsets
      rw [mem_linkNodes_supsets]
      simp [other]
    grows := fun held => (linkNodes_bit _ _).trans held
    flows := by
      intro address index live held
      change (s.linkNodes fromNode toNode).bit (s.representative address) index = true
      rw [linkNodes_bit, wellFormed.representative_of_live address live]
      exact held
    linked := by
      intro address next live edge
      have nextLive := wellFormed.live_of_edge address live next edge
      right
      change s.representative next ∈
        ((s.linkNodes fromNode toNode).node (s.representative address)).supsets
      rw [wellFormed.representative_of_live address live,
        wellFormed.representative_of_live next nextLive, mem_linkNodes_supsets]
      exact .inl edge }
  keeps {address} _ := by
    by_cases isFrom : address = fromNode
    · exact .inl isFrom
    · refine .inr (.inl ⟨fun {index} held => ?_, fun {index pair} _ waits => ?_,
        fun {next} live edge => ?_⟩)
      · exact (linkNodes_bit address index).symm.trans held
      · change pair ∈ (s.linkNodes fromNode toNode).waiting address index at waits
        rw [linkNodes_waiting] at waits
        exact waits
      · rcases mem_linkNodes_supsets.mp edge with edge | ⟨isFrom', _⟩
        · exact ⟨next, edge, wellFormed.representative_of_live next
            (wellFormed.live_of_edge address live next edge)⟩
        · exact absurd isFrom' isFrom
  collapsed live dead := absurd live dead

theorem Consistent.linkNodes_ranked (consistent : s.Consistent) :
    ∃ rank, (s.linkNodes fromNode toNode).graph.RankedExcept (· = fromNode) rank := by
  rcases consistent.acyclic.rankedExcept with ⟨rank, ranked⟩
  have enlarged : ∃ rank', s.graph.RankedExcept (· = fromNode) rank' := ranked.enlarge nofun
  rcases enlarged with ⟨rank', ranked'⟩
  refine ⟨rank', ranked'.zero, fun notFrom edge => ?_⟩
  rcases mem_linkNodes_supsets.mp edge with edge | ⟨isFrom, _⟩
  · exact ranked'.falls notFrom edge
  · exact absurd isFrom notFrom

theorem Consistent.linkNodes_edge_of_merged (consistent : s.Consistent) (address : Nat)
    (known : address < (s.linkNodes fromNode toNode).allocated)
    (dead : ¬ (s.linkNodes fromNode toNode).Live address) :
    ∃ next ∈ ((s.linkNodes fromNode toNode).node address).supsets,
      (s.linkNodes fromNode toNode).representative next =
        (s.linkNodes fromNode toNode).representative address := by
  rcases consistent.edge_of_merged address known dead with ⟨next, edge, same⟩
  exact ⟨next, mem_linkNodes_supsets.mpr (.inl edge), same⟩

end

/-! ## Inclusions that are in force -/

variable [DecidableEq V]

/-- Two variables share a node, or their nodes have an edge. -/
def Linked (s : CubicSolver V E) (pair : V × V) : Prop :=
  ∃ fromNode toNode, s.dag pair.1 = some fromNode ∧ s.dag pair.2 = some toNode ∧
    (fromNode = toNode ∨ toNode ∈ (s.node fromNode).supsets)

theorem Linked.evolve {s s' : CubicSolver V E} {pair : V × V} (linked : s.Linked pair)
    (wellFormed : s.WellFormed) (wellFormed' : s'.WellFormed) (same : SameVariables s s')
    (evolves : s.graph.Evolves s'.graph) : s'.Linked pair := by
  rcases linked with ⟨fromNode, toNode, fromStored, toStored, connected⟩
  refine ⟨s'.representative fromNode, s'.representative toNode,
    wellFormed.dag_evolves wellFormed' same evolves fromStored,
    wellFormed.dag_evolves wellFormed' same evolves toStored, ?_⟩
  rcases connected with rfl | edge
  · exact .inl rfl
  · exact evolves.linked (wellFormed.live_of_dag fromStored) edge

/-- An inclusion that waits at a live node goes on waiting or is in force. -/
def KeepsTasks (s s' : CubicSolver V E) : Prop :=
  ∀ address, s.Live address → ∀ index, ∀ pair ∈ s.waiting address index,
    pair ∈ s'.waiting (s'.representative address) index ∨ s'.Linked pair

/-- What the steps of propagation have in common. -/
structure Continues (s s' : CubicSolver V E) : Prop where
  consistent : s'.Consistent
  sameVariables : SameVariables s s'
  advances : s.graph.Advances s'.graph
  keepsTasks : KeepsTasks s s'

theorem KeepsTasks.refl {s : CubicSolver V E} (wellFormed : s.WellFormed) : KeepsTasks s s := by
  intro address live index pair member
  rw [wellFormed.representative_of_live address live]
  exact .inl member

theorem KeepsTasks.trans {first second third : CubicSolver V E} (left : KeepsTasks first second)
    (right : KeepsTasks second third) (wellFormed : first.WellFormed)
    (wellFormed' : second.WellFormed) (wellFormed'' : third.WellFormed)
    (same : SameVariables second third) (before : first.graph.Evolves second.graph)
    (after : second.graph.Evolves third.graph) : KeepsTasks first third := by
  intro address live index pair member
  rcases left address live index pair member with waits | linked
  · have known := before.known.mpr (wellFormed.live_known address live)
    rw [← representative_evolves after known]
    exact right _ (wellFormed'.graph.live_representative known) index pair waits
  · exact .inr (linked.evolve wellFormed' wellFormed'' same after)

theorem Continues.refl {s : CubicSolver V E} (consistent : s.Consistent) : Continues s s where
  consistent := consistent
  sameVariables := .refl s
  advances := .refl consistent.graph
  keepsTasks := .refl consistent.toWellFormed

theorem Continues.trans {first second third : CubicSolver V E} (left : Continues first second)
    (right : Continues second third) (consistent : first.Consistent) : Continues first third where
  consistent := right.consistent
  sameVariables := left.sameVariables.trans right.sameVariables
  advances := left.advances.trans right.advances consistent.graph left.consistent.graph
    right.consistent.graph left.consistent.acyclic
  keepsTasks := left.keepsTasks.trans right.keepsTasks consistent.toWellFormed
    left.consistent.toWellFormed right.consistent.toWellFormed right.sameVariables
    left.advances.evolves right.advances.evolves

/-- What propagating the changes of a node does. -/
structure Propagates (n : Nat) (s s' : CubicSolver V E) : Prop extends Continues s s' where
  delivered : s'.graph.Delivered n
  progress : Progress s s'

/-- Propagation from a node ends, and delivers its elements. -/
def PropagationConverges (iterate : List Nat → List Nat)
    (findPath : CubicSolver V E → Nat → Nat → List Nat) (s : CubicSolver V E) (n : Nat) : Prop :=
  ∃ s', Fuel.Converges (fun steps => s.propagateNodeChanges iterate findPath steps n) s' ∧
    Propagates n s s'

/-! ## Activation -/

section

variable {iterate : List Nat → List Nat} {findPath : CubicSolver V E → Nat → Nat → List Nat}

theorem activateConditionalConstraint_of_same {s : CubicSolver V E} {fromVar toVar : V}
    {address : Nat} (fromStored : s.dag fromVar = some address)
    (toStored : s.dag toVar = some address) (steps : Nat) :
    s.activateConditionalConstraint iterate findPath (steps + 1) fromVar toVar = some s := by
  simp [activateConditionalConstraint, fromStored, toStored]

theorem activateConditionalConstraint_of_ne {s : CubicSolver V E} {fromVar toVar : V}
    {fromNode toNode : Nat} (fromStored : s.dag fromVar = some fromNode)
    (toStored : s.dag toVar = some toNode) (different : fromNode ≠ toNode) (steps : Nat) :
    s.activateConditionalConstraint iterate findPath (steps + 1) fromVar toVar =
      (s.linkNodes fromNode toNode).killCyclesAt iterate findPath steps fromNode >>= fun s =>
        s.dag fromVar >>= s.propagateNodeChanges iterate findPath steps := by
  simp only [activateConditionalConstraint, fromStored, toStored, Option.bind_eq_bind,
    Option.bind_some, if_neg different]
  rfl

/-- A new edge, the removal of its cycles and propagation make one step. -/
theorem Propagates.after_link {s middle s' : CubicSolver V E} {fromNode toNode center : Nat}
    (propagates : Propagates center middle s')
    (removed : CyclesRemoved fromNode center (s.linkNodes fromNode toNode) middle)
    (consistent : s.Consistent) (fromLive : s.Live fromNode) (toLive : s.Live toNode)
    (different : fromNode ≠ toNode) : Continues s s' where
  consistent := propagates.consistent
  sameVariables := ((linkNodes_sameVariables fromNode toNode).trans removed.sameVariables).trans
    propagates.sameVariables
  advances := by
    have wellFormed := consistent.linkNodes_wellFormed fromLive toLive different
    have centerRepresented := removed.consistent.representative_of_live center removed.live
    have centerLive : s.Live center := removed.touches.evolves.live removed.live
    have touches := (consistent.linkNodes_touches fromLive).trans removed.touches consistent.graph
      wellFormed.graph fromLive (removed.represents.trans centerRepresented.symm)
    exact touches.advances propagates.advances propagates.delivered consistent.graph
      removed.consistent.graph (consistent.live_known center centerLive)
  keepsTasks := by
    have wellFormed := consistent.linkNodes_wellFormed fromLive toLive different
    intro address live index pair member
    rw [← linkNodes_waiting s fromNode toNode] at member
    have waits := removed.waits address live index pair member
    have known : address < (s.linkNodes fromNode toNode).allocated :=
      consistent.live_known address live
    have known' := removed.touches.evolves.known.mpr known
    rw [← representative_evolves propagates.advances.evolves known']
    exact propagates.keepsTasks _ (removed.consistent.graph.live_representative known') index pair
      waits

variable (permutes : ∀ nodes, (iterate nodes).Perm nodes) (finds : FindsPaths findPath)

include permutes finds

theorem activate_converges {s : CubicSolver V E} (consistent : s.Consistent) {pair : V × V}
    (fromMem : pair.1 ∈ s.dagmapping.map Prod.fst) (toMem : pair.2 ∈ s.dagmapping.map Prod.fst)
    (propagates : ∀ (s' : CubicSolver V E) n, s'.Consistent → n < s'.allocated →
      s'.work ≤ s.work → PropagationConverges iterate findPath s' n) :
    ∃ s', Fuel.Converges (fun steps =>
        s.activateConditionalConstraint iterate findPath steps pair.1 pair.2) s' ∧
      Continues s s' ∧ s'.Linked pair ∧ s'.work ≤ s.work := by
  have wellFormed := consistent.toWellFormed
  rcases wellFormed.exists_dag fromMem with ⟨fromNode, fromStored⟩
  rcases wellFormed.exists_dag toMem with ⟨toNode, toStored⟩
  have fromLive := wellFormed.live_of_dag fromStored
  have toLive := wellFormed.live_of_dag toStored
  by_cases same : fromNode = toNode
  · subst same
    refine ⟨s, Fuel.Converges.of_succ ?_, .refl consistent,
      ⟨fromNode, fromNode, fromStored, toStored, .inl rfl⟩, le_refl _⟩
    simp only [activateConditionalConstraint_of_same fromStored toStored]
    exact Fuel.converges_some s
  · have wellFormed' := wellFormed.linkNodes_wellFormed fromLive toLive same
    rcases killCyclesAt_converges permutes finds wellFormed' fromLive
      consistent.linkNodes_edge_of_merged consistent.linkNodes_ranked with
      ⟨middle, center, kills, removed⟩
    have lessWork : middle.work ≤ s.work := by
      rw [← linkNodes_work s fromNode toNode]
      rcases removed.fewer with rfl | fewer
      · exact le_refl _
      · have less : middle.work < (s.linkNodes fromNode toNode).work :=
          Prod.Lex.toLex_lt_toLex.mpr (.inl fewer)
        exact le_of_lt less
    rcases propagates middle center removed.consistent
      (removed.consistent.live_known center removed.live) lessWork with
      ⟨s', converges, propagated⟩
    have centerStored : middle.dag pair.1 = some center := by
      have stored : (s.linkNodes fromNode toNode).dag pair.1 = some fromNode := fromStored
      rw [wellFormed'.dag_evolves removed.consistent.toWellFormed removed.sameVariables
        removed.touches.evolves stored, removed.represents]
    refine ⟨s', Fuel.Converges.of_succ ?_,
      propagated.after_link removed consistent fromLive toLive same, ?_, ?_⟩
    · simp only [activateConditionalConstraint_of_ne fromStored toStored same]
      apply Fuel.Converges.bind kills
      simp only [centerStored, Option.bind_eq_bind, Option.bind_some]
      exact converges
    · have linked : (s.linkNodes fromNode toNode).Linked pair :=
        ⟨fromNode, toNode, fromStored, toStored, .inr (mem_linkNodes_supsets.mpr (.inr ⟨rfl, rfl⟩))⟩
      exact (linked.evolve wellFormed' removed.consistent.toWellFormed removed.sameVariables
        removed.touches.evolves).evolve removed.consistent.toWellFormed
          propagated.consistent.toWellFormed propagated.sameVariables propagated.advances.evolves
    · exact le_trans propagated.progress.le lessWork

end

end CubicSolver

end Topc
