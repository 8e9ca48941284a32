import Mathlib.Order.Bounds.Basic
import Topc.Solver.CubicSolver.PathSearch
import Topc.Solver.CubicSolver.Propagation
import Topc.Solver.CubicSolver.Soundness

/-! # The cubic solver finds the least solution

After every constraint all live nodes are settled, every constraint added so far is
in force, and the sets are within those of any solution. -/

namespace Topc

/-- A constraint on sets of elements. -/
inductive CubicConstraint (V E : Type)
  | elementOf (elem : E) (var : V)
  | conditional (condition : E) (inVar fromVar toVar : V)
  | subseteq (fromVar toVar : V)

namespace CubicConstraint

variable {V E : Type}

def elements : CubicConstraint V E → List E
  | elementOf elem _ => [elem]
  | conditional condition _ _ _ => [condition]
  | subseteq _ _ => []

/-- A choice of sets satisfies the constraint. -/
def Holds (solution : V → Set E) : CubicConstraint V E → Prop
  | elementOf elem var => elem ∈ solution var
  | conditional condition inVar fromVar toVar =>
      condition ∈ solution inVar → solution fromVar ⊆ solution toVar
  | subseteq fromVar toVar => solution fromVar ⊆ solution toVar

end CubicConstraint

namespace CubicSolver

variable {V E : Type} [DecidableEq V] [DecidableEq E]

section

variable (iterate : List Nat → List Nat) (findPath : CubicSolver V E → Nat → Nat → List Nat)

def add (steps : Nat) (s : CubicSolver V E) : CubicConstraint V E → Option (CubicSolver V E)
  | .elementOf elem var => s.addElementofConstraint iterate findPath steps elem var
  | .conditional condition inVar fromVar toVar =>
      s.addConditionalConstraint iterate findPath steps condition inVar fromVar toVar
  | .subseteq fromVar toVar => s.addSubseteqConstraint iterate findPath steps fromVar toVar

/-- A new solver that gets the constraints one after another. -/
def addAll (steps : Nat) (elements : List E) (constraints : List (CubicConstraint V E)) :
    Option (CubicSolver V E) :=
  constraints.foldlM (add iterate findPath steps) (create elements)

end

/-! ## Elements -/

omit [DecidableEq V] in
theorem indexOf_spec {s : CubicSolver V E} {elements : List E}
    (fmapping : s.fmapping = elements.zipIdx) {elem : E} (member : elem ∈ elements) :
    (elem, s.indexOf elem) ∈ s.fmapping := by
  rw [indexOf]
  cases found : s.fmapping.find? fun entry => entry.1 = elem with
  | none =>
      rw [List.find?_eq_none, fmapping] at found
      rcases List.mem_iff_getElem?.mp member with ⟨index, isElem⟩
      have absent := found (elem, index) (List.mem_zipIdx_iff_getElem?.mpr isElem)
      exact absurd (decide_eq_true rfl) absent
  | some entry =>
      have isElem := List.find?_some found
      have entryMem := List.mem_of_find?_eq_some found
      rw [← of_decide_eq_true isElem]
      exact entryMem

omit [DecidableEq V] [DecidableEq E] in
theorem elem_eq_of_index {s : CubicSolver V E} {elements : List E}
    (fmapping : s.fmapping = elements.zipIdx) {left right : E} {index : Nat}
    (leftMem : (left, index) ∈ s.fmapping) (rightMem : (right, index) ∈ s.fmapping) :
    left = right := by
  rw [fmapping, List.mem_zipIdx_iff_getElem?] at leftMem rightMem
  rw [leftMem] at rightMem
  exact Option.some.inj rightMem

omit [DecidableEq V] [DecidableEq E] in
theorem index_eq_of_elem {s : CubicSolver V E} {elements : List E}
    (fmapping : s.fmapping = elements.zipIdx) (distinct : elements.Nodup) {elem : E}
    {left right : Nat} (leftMem : (elem, left) ∈ s.fmapping)
    (rightMem : (elem, right) ∈ s.fmapping) : left = right := by
  rw [fmapping, List.mem_zipIdx_iff_getElem?] at leftMem rightMem
  rcases List.getElem?_eq_some_iff.mp leftMem with ⟨bound, _⟩
  exact (List.getElem?_inj bound distinct).mp (leftMem.trans rightMem.symm)

omit [DecidableEq E] in
theorem mem_getElements {s : CubicSolver V E} {var : V} {elem : E} :
    elem ∈ s.getElements var ↔ ∃ address index, s.dag var = some address ∧
      (elem, index) ∈ s.fmapping ∧ s.bit address index = true := by
  rw [getElements]
  cases stored : s.dag var with
  | none => simp
  | some address =>
      simp only [List.mem_map, List.mem_filter, Option.some.injEq]
      constructor
      · rintro ⟨entry, ⟨entryMem, set⟩, rfl⟩
        exact ⟨address, entry.2, rfl, entryMem, set⟩
      · rintro ⟨_, index, rfl, entryMem, set⟩
        exact ⟨(elem, index), ⟨entryMem, set⟩, rfl⟩

/-! ## New variables -/

/-- A node for one more variable. -/
def enter (s : CubicSolver V E) (var : V) : CubicSolver V E :=
  { s with
    dagmapping := s.dagmapping ++ [(var, s.allocated)]
    allocated := s.allocated + 1 }

section

omit [DecidableEq V] [DecidableEq E]

variable {s : CubicSolver V E} (wellFormed : s.WellFormed) {var : V}

theorem enter_live {address : Nat} :
    (s.enter var).Live address ↔ s.Live address ∨ address = s.allocated := by
  simp [Live, enter]

include wellFormed

theorem WellFormed.enter_representative : (s.enter var).representative = s.representative := by
  funext address
  rw [representative, representative, enter]
  dsimp only
  rcases Nat.lt_trichotomy address s.dagmapping.length with inside | new | outside
  · rw [List.getElem?_append_left inside]
  · rw [new, List.getElem?_concat_length, List.getElem?_eq_none (Nat.le_refl _)]
    exact wellFormed.allocated.symm
  · rw [List.getElem?_eq_none (Nat.le_of_lt outside), List.getElem?_eq_none]
    rw [List.length_append]
    exact outside

theorem WellFormed.edge_old {address next : Nat} (edge : next ∈ (s.node address).supsets) :
    address ≠ s.allocated ∧ next ≠ s.allocated := by
  have known := wellFormed.edge_known address next edge
  exact ⟨Nat.ne_of_lt known.1, Nat.ne_of_lt known.2⟩

theorem WellFormed.enter_wellFormed (new : var ∉ s.dagmapping.map Prod.fst) :
    (s.enter var).WellFormed where
  sized := wellFormed.sized
  waitingSized := wellFormed.waitingSized
  allocated := by
    rw [enter, List.length_append, wellFormed.allocated]
    rfl
  variablesNodup := by
    rw [enter, List.map_append, List.nodup_append]
    refine ⟨wellFormed.variablesNodup, List.nodup_singleton _, ?_⟩
    rintro other otherMem _ isNew rfl
    have isVar : other = var := List.mem_singleton.mp isNew
    exact new (isVar ▸ otherMem)
  live_known address live := by
    rcases enter_live.mp live with live | rfl
    · exact Nat.lt_succ_of_lt (wellFormed.live_known address live)
    · exact Nat.lt_succ_self _
  representative_of_live address live := by
    rw [wellFormed.enter_representative]
    rcases enter_live.mp live with live | rfl
    · exact wellFormed.representative_of_live address live
    · rw [representative, List.getElem?_eq_none (Nat.le_of_eq wellFormed.allocated)]
      rfl
  supsetsNodup := wellFormed.supsetsNodup
  subsetsNodup := wellFormed.subsetsNodup
  irreflexive := wellFormed.irreflexive
  mem_subsets address live other := by
    change other ∈ (s.node address).subsets ↔
      (s.enter var).Live other ∧ address ∈ (s.node other).supsets
    rw [enter_live]
    rcases enter_live.mp live with live | rfl
    · rw [wellFormed.mem_subsets address live other]
      constructor
      · rintro ⟨otherLive, edge⟩
        exact ⟨.inl otherLive, edge⟩
      · rintro ⟨otherLive | isNew, edge⟩
        · exact ⟨otherLive, edge⟩
        · exact absurd isNew (wellFormed.edge_old edge).1
    · constructor
      · intro member
        exact absurd rfl (Nat.ne_of_lt (wellFormed.subset_known _ _ member).1)
      · rintro ⟨_, edge⟩
        exact absurd rfl (wellFormed.edge_old edge).2
  live_of_edge address live next edge := by
    rcases enter_live.mp live with live | isNew
    · exact enter_live.mpr (.inl (wellFormed.live_of_edge address live next edge))
    · exact absurd isNew (wellFormed.edge_old edge).1
  edge_known address next edge := by
    have known := wellFormed.edge_known address next edge
    exact ⟨Nat.lt_succ_of_lt known.1, Nat.lt_succ_of_lt known.2⟩
  subset_known address other member := by
    have known := wellFormed.subset_known address other member
    exact ⟨Nat.lt_succ_of_lt known.1, Nat.lt_succ_of_lt known.2⟩
  waiting_known address index pair member := by
    have known := wellFormed.waiting_known address index pair member
    rw [enter, List.map_append]
    exact ⟨List.mem_append_left _ known.1, List.mem_append_left _ known.2⟩
  fresh address unknown index := wellFormed.fresh address (Nat.le_of_succ_le unknown) index

end

omit [DecidableEq V] [DecidableEq E] in
theorem Consistent.enter {s : CubicSolver V E} (consistent : s.Consistent) {var : V}
    (new : var ∉ s.dagmapping.map Prod.fst) : (s.enter var).Consistent where
  toWellFormed := consistent.enter_wellFormed new
  edge_of_merged address known dead := by
    rw [enter_live, not_or] at dead
    have known' : address < s.allocated :=
      Nat.lt_of_le_of_ne (Nat.le_of_lt_succ known) dead.2
    rw [consistent.enter_representative]
    exact consistent.edge_of_merged address known' dead.1
  acyclic := consistent.acyclic

omit [DecidableEq V] [DecidableEq E] in
theorem Consistent.enter_settled {s : CubicSolver V E} (consistent : s.Consistent) {var : V}
    (settled : ∀ address, s.Live address → s.graph.Settled address) (address : Nat)
    (live : (s.enter var).Live address) : (s.enter var).graph.Settled address := by
  rcases enter_live.mp live with live | rfl
  · exact ⟨(settled address live).passed, (settled address live).idle⟩
  · have empty : ∀ index, ¬ (s.enter var).graph.holds s.allocated index := by
      intro index held
      change s.bit s.allocated index = true at held
      rw [(consistent.fresh s.allocated (Nat.le_refl _) index).1] at held
      cases held
    exact ⟨fun _ index held => absurd held (empty index),
      fun {index} held => absurd held (empty index)⟩

omit [DecidableEq V] [DecidableEq E] in
theorem WellFormed.enter_below {s : CubicSolver V E} (wellFormed : s.WellFormed) {var : V}
    {solution : V → Set E} {share : Nat → Set E} (below : s.Below solution share) :
    (s.enter var).Below solution (Function.update share s.allocated (solution var)) where
  stored entry member := by
    rcases List.mem_append.mp member with member | isNew
    · have live : s.Live entry.2 := List.mem_map_of_mem member
      rw [Function.update_of_ne (Nat.ne_of_lt (wellFormed.live_known _ live))]
      exact below.stored entry member
    · rw [List.mem_singleton.mp isNew, Function.update_self]
  node address := by
    have old := below.node address
    have edges := wellFormed.edge_known address
    have subsets := wellFormed.subset_known address
    refine ⟨fun index set elem entry => ?_, fun next edge => ?_, fun other member => ?_,
      fun index pair member held => ?_⟩
    · by_cases isNew : address = s.allocated
      · rw [isNew] at set
        have empty := (wellFormed.fresh s.allocated (Nat.le_refl _) index).1
        rw [bit] at empty
        exact absurd (empty.symm.trans set) Bool.false_ne_true
      · rw [Function.update_of_ne isNew]
        exact old.bits index set elem entry
    · have known := edges next edge
      rw [Function.update_of_ne (Nat.ne_of_lt known.1), Function.update_of_ne (Nat.ne_of_lt known.2)]
      exact old.supsets next edge
    · have known := subsets other member
      rw [Function.update_of_ne (Nat.ne_of_lt known.1), Function.update_of_ne (Nat.ne_of_lt known.2)]
      exact old.subsets other member
    · by_cases isNew : address = s.allocated
      · rw [isNew] at member
        have empty := (wellFormed.fresh s.allocated (Nat.le_refl _) index).2
        rw [waiting] at empty
        rw [show (s.enter var).node = s.node from rfl, empty] at member
        cases member
      · rw [Function.update_of_ne isNew] at held
        exact old.waits index pair member held

/-! ## Solved constraints -/

/-- A constraint is seen to by the solver's graph. -/
def InForce (s : CubicSolver V E) : CubicConstraint V E → Prop
  | .elementOf elem var => ∃ address, s.dag var = some address ∧
      s.bit address (s.indexOf elem) = true
  | .conditional condition inVar fromVar toVar => ∃ address, s.dag inVar = some address ∧
      ((fromVar, toVar) ∈ s.waiting address (s.indexOf condition) ∨ s.Linked (fromVar, toVar))
  | .subseteq fromVar toVar => s.Linked (fromVar, toVar)

/-- What holds after every constraint. -/
structure Solved (elements : List E) (constraints : List (CubicConstraint V E))
    (s : CubicSolver V E) : Prop where
  consistent : s.Consistent
  fmapping : s.fmapping = elements.zipIdx
  settled : ∀ address, s.Live address → s.graph.Settled address
  inForce : ∀ constraint ∈ constraints, s.InForce constraint
  below : ∀ solution : V → Set E, (∀ constraint ∈ constraints, constraint.Holds solution) →
    ∃ share, s.Below solution share

omit [DecidableEq E] in
theorem enter_dag {s : CubicSolver V E} {var other : V} {address : Nat}
    (stored : s.dag other = some address) : (s.enter var).dag other = some address := by
  rw [dag, Option.map_eq_some_iff] at stored ⊢
  rcases stored with ⟨entry, found, rfl⟩
  exact ⟨entry, by rw [enter, List.find?_append, found]; rfl, rfl⟩

omit [DecidableEq E] in
theorem enter_linked {s : CubicSolver V E} {var : V} {pair : V × V} (linked : s.Linked pair) :
    (s.enter var).Linked pair := by
  rcases linked with ⟨fromNode, toNode, fromStored, toStored, connected⟩
  exact ⟨fromNode, toNode, enter_dag fromStored, enter_dag toStored, connected⟩

theorem enter_inForce {s : CubicSolver V E} {var : V} {constraint : CubicConstraint V E}
    (inForce : s.InForce constraint) : (s.enter var).InForce constraint := by
  cases constraint with
  | elementOf elem other =>
      rcases inForce with ⟨address, stored, set⟩
      exact ⟨address, enter_dag stored, set⟩
  | conditional condition inVar fromVar toVar =>
      rcases inForce with ⟨address, stored, waits | linked⟩
      · exact ⟨address, enter_dag stored, .inl waits⟩
      · exact ⟨address, enter_dag stored, .inr (enter_linked linked)⟩
  | subseteq fromVar toVar => exact enter_linked inForce

theorem Solved.addEmptyVariable {elements : List E} {constraints : List (CubicConstraint V E)}
    {s : CubicSolver V E} (solved : Solved elements constraints s) (var : V) :
    Solved elements constraints (s.addEmptyVariableIfNecessary var) := by
  rw [addEmptyVariableIfNecessary]
  split
  · exact solved
  · rename_i absent
    have new : var ∉ s.dagmapping.map Prod.fst := by
      intro member
      rcases solved.consistent.exists_dag member with ⟨address, stored⟩
      rw [stored] at absent
      exact absent rfl
    change Solved elements constraints (s.enter var)
    exact {
      consistent := solved.consistent.enter new
      fmapping := solved.fmapping
      settled := solved.consistent.enter_settled solved.settled
      inForce := fun constraint member => enter_inForce (solved.inForce constraint member)
      below := fun solution holds => by
        rcases solved.below solution holds with ⟨share, below⟩
        exact ⟨_, solved.consistent.enter_below below⟩ }

omit [DecidableEq E] in
theorem addEmptyVariable_exists {s : CubicSolver V E} (var : V) :
    ∃ address, (s.addEmptyVariableIfNecessary var).dag var = some address := by
  rw [addEmptyVariableIfNecessary]
  split
  · rename_i present
    exact Option.isSome_iff_exists.mp present
  · rename_i absent
    refine ⟨s.allocated, ?_⟩
    change (s.enter var).dag var = some s.allocated
    rw [Option.not_isSome_iff_eq_none, dag, Option.map_eq_none_iff] at absent
    rw [dag, enter, List.find?_append, absent]
    simp

omit [DecidableEq E] in
theorem addEmptyVariable_dag {s : CubicSolver V E} {var other : V} {address : Nat}
    (stored : s.dag other = some address) :
    (s.addEmptyVariableIfNecessary var).dag other = some address := by
  rw [addEmptyVariableIfNecessary]
  split
  · exact stored
  · exact enter_dag stored

theorem InForce.evolve {s s' : CubicSolver V E} {constraint : CubicConstraint V E}
    (inForce : s.InForce constraint) (consistent : s.Consistent) (continued : Continues s s') :
    s'.InForce constraint := by
  have wellFormed := consistent.toWellFormed
  have wellFormed' := continued.consistent.toWellFormed
  have same := continued.sameVariables
  have evolves := continued.advances.evolves
  have sameIndex : ∀ elem, s'.indexOf elem = s.indexOf elem := by
    intro elem
    rw [indexOf, indexOf, same.fmapping]
  cases constraint with
  | elementOf elem var =>
      rcases inForce with ⟨address, stored, set⟩
      refine ⟨_, wellFormed.dag_evolves wellFormed' same evolves stored, ?_⟩
      rw [sameIndex]
      exact evolves.flows (wellFormed.live_of_dag stored) set
  | conditional condition inVar fromVar toVar =>
      rcases inForce with ⟨address, stored, waits⟩
      refine ⟨_, wellFormed.dag_evolves wellFormed' same evolves stored, ?_⟩
      rw [sameIndex]
      rcases waits with waits | linked
      · exact continued.keepsTasks address (wellFormed.live_of_dag stored) _ _ waits
      · exact .inr (linked.evolve wellFormed wellFormed' same evolves)
  | subseteq fromVar toVar => exact Linked.evolve inForce wellFormed wellFormed' same evolves

section

variable {iterate : List Nat → List Nat} {findPath : CubicSolver V E → Nat → Nat → List Nat}
  (permutes : ∀ nodes, (iterate nodes).Perm nodes) (finds : FindsPaths findPath)

include permutes finds

/-- Propagation from the only node that may not be settled. -/
theorem propagate_solves {s : CubicSolver V E} {elements : List E}
    {constraints : List (CubicConstraint V E)} (consistent : s.Consistent)
    (fmapping : s.fmapping = elements.zipIdx) {address : Nat} (live : s.Live address)
    (settled : ∀ other, s.Live other → other ≠ address → s.graph.Settled other)
    (inForce : ∀ constraint ∈ constraints, s.InForce constraint)
    (below : ∀ solution : V → Set E, (∀ constraint ∈ constraints, constraint.Holds solution) →
      ∃ share, s.Below solution share) :
    ∃ s', Fuel.Converges (fun steps =>
        s.propagateNodeChanges iterate findPath steps address) s' ∧
      Solved elements constraints s' := by
  rcases propagation_converges permutes finds consistent (consistent.live_known address live) with
    ⟨s', converges, propagated⟩
  refine ⟨s', converges, propagated.consistent, ?_, ?_, ?_, ?_⟩
  · exact propagated.sameVariables.fmapping.trans fmapping
  · exact propagated.advances.settles consistent.graph propagated.consistent.graph
      consistent.acyclic settled propagated.delivered
  · exact fun constraint member =>
      (inForce constraint member).evolve consistent propagated.toContinues
  · intro solution holds
    rcases below solution holds with ⟨share, below⟩
    rcases converges with ⟨bound, runs⟩
    exact ⟨share, (propagationBelow permutes finds bound).1 s s' address
      (runs bound (Nat.le_refl bound)) below⟩

theorem addSubseteq_solves {s : CubicSolver V E} {elements : List E}
    {constraints : List (CubicConstraint V E)} (solved : Solved elements constraints s)
    (fromVar toVar : V) :
    ∃ s', Fuel.Converges (fun steps =>
        s.addSubseteqConstraint iterate findPath steps fromVar toVar) s' ∧
      Solved elements (constraints ++ [.subseteq fromVar toVar]) s' := by
  have entered := (solved.addEmptyVariable fromVar).addEmptyVariable toVar
  have consistent := entered.consistent
  rcases addEmptyVariable_exists (s := s) fromVar with ⟨fromNode, fromStored⟩
  rcases addEmptyVariable_exists (s := s.addEmptyVariableIfNecessary fromVar) toVar with
    ⟨toNode, toStored⟩
  have known : ∀ {var : V} {address : Nat}, ((s.addEmptyVariableIfNecessary
      fromVar).addEmptyVariableIfNecessary toVar).dag var = some address →
      var ∈ ((s.addEmptyVariableIfNecessary
        fromVar).addEmptyVariableIfNecessary toVar).dagmapping.map Prod.fst :=
    fun stored => List.mem_map_of_mem (consistent.dag_eq_some_iff.mp stored)
  have fromKnown := known (addEmptyVariable_dag fromStored)
  rcases activate_converges permutes finds consistent
    (show (fromVar, toVar).1 ∈ _ from fromKnown) (known toStored)
    (fun s' n consistent' known' _ => propagation_converges permutes finds consistent' known') with
    ⟨s', converges, continued, linked, _⟩
  refine ⟨s', converges, continued.consistent, ?_, ?_, ?_, ?_⟩
  · exact continued.sameVariables.fmapping.trans entered.fmapping
  · intro address live
    have wasLive := continued.advances.evolves.live live
    apply continued.consistent.graph.settled live
    apply continued.advances.delivered consistent.graph continued.consistent.graph
      consistent.acyclic (consistent.live_known address wasLive)
    exact consistent.graph.delivered entered.settled wasLive
  · intro constraint member
    rcases List.mem_append.mp member with member | isNew
    · exact (entered.inForce constraint member).evolve consistent continued
    · rw [List.mem_singleton.mp isNew]
      exact linked
  · intro solution holds
    have earlier : ∀ constraint ∈ constraints, constraint.Holds solution :=
      fun constraint member => holds constraint (List.mem_append_left _ member)
    have included : solution fromVar ⊆ solution toVar := holds (.subseteq fromVar toVar) (by simp)
    rcases entered.below solution earlier with ⟨share, below⟩
    rcases converges with ⟨bound, runs⟩
    exact ⟨share, (propagationBelow permutes finds bound).2 _ s' fromVar toVar included
      (runs bound (Nat.le_refl bound)) below⟩

end

/-! ## Changes of the dirty node -/

section

omit [DecidableEq V] [DecidableEq E]

/-- An element is put into a node. -/
def setBit (s : CubicSolver V E) (address index : Nat) : CubicSolver V E :=
  s.modifyNode address fun n => { n with bitvector := n.bitvector.set index true }

/-- An inclusion waits at a node for an element. -/
def addWaiting (s : CubicSolver V E) (address index : Nat) (pair : V × V) : CubicSolver V E :=
  s.modifyNode address fun n => { n with
    conditionalConstraints := n.conditionalConstraints.modify index (· ++ [pair]) }

variable (s : CubicSolver V E) (address index : Nat) (pair : V × V)

theorem setBit_node (other : Nat) : (s.setBit address index).node other =
    { s.node other with
      bitvector := if other = address then (s.node other).bitvector.set index true
        else (s.node other).bitvector } := by
  rw [setBit, modifyNode_node]
  by_cases same : other = address
  · subst same
    simp
  · simp [same]

theorem addWaiting_node (other : Nat) : (s.addWaiting address index pair).node other =
    { s.node other with
      conditionalConstraints := if other = address
        then (s.node other).conditionalConstraints.modify index (· ++ [pair])
        else (s.node other).conditionalConstraints } := by
  rw [addWaiting, modifyNode_node]
  by_cases same : other = address
  · subst same
    simp
  · simp [same]

theorem setBit_sameShape : SameShape s (s.setBit address index) where
  fmapping := rfl
  dagmapping := rfl
  allocated := rfl
  supsets other := by rw [setBit_node]
  subsets other := by rw [setBit_node]
  bits other := by
    rw [setBit_node]
    dsimp only
    split
    · exact List.length_set
    · rfl
  waits other := by rw [setBit_node]

theorem addWaiting_sameShape : SameShape s (s.addWaiting address index pair) where
  fmapping := rfl
  dagmapping := rfl
  allocated := rfl
  supsets other := by rw [addWaiting_node]
  subsets other := by rw [addWaiting_node]
  bits other := by rw [addWaiting_node]
  waits other := by
    rw [addWaiting_node]
    dsimp only
    split
    · exact List.length_modify ..
    · rfl

theorem setBit_waiting (other otherIndex : Nat) :
    (s.setBit address index).waiting other otherIndex = s.waiting other otherIndex := by
  rw [waiting, waiting, setBit_node]

theorem addWaiting_bit (other otherIndex : Nat) :
    (s.addWaiting address index pair).bit other otherIndex = s.bit other otherIndex := by
  rw [bit, bit, addWaiting_node]

variable {s address index pair}

theorem setBit_bit_of_ne {other : Nat} (different : other ≠ address) (otherIndex : Nat) :
    (s.setBit address index).bit other otherIndex = s.bit other otherIndex := by
  rw [bit, bit, setBit_node]
  dsimp only
  rw [if_neg different]

theorem setBit_grows {other otherIndex : Nat} (held : s.bit other otherIndex = true) :
    (s.setBit address index).bit other otherIndex = true := by
  rw [bit, setBit_node]
  dsimp only
  split
  · exact (keepsBits_set index (s.node other)).2 otherIndex held
  · exact held

theorem setBit_set (bound : index < (s.node address).bitvector.length) :
    (s.setBit address index).bit address index = true := by
  rw [bit, setBit_node]
  simp [bound]

theorem addWaiting_waiting (bound : index < (s.node address).conditionalConstraints.length)
    (other otherIndex : Nat) : (s.addWaiting address index pair).waiting other otherIndex =
      if other = address ∧ otherIndex = index then s.waiting other otherIndex ++ [pair]
      else s.waiting other otherIndex := by
  rw [waiting, waiting, addWaiting_node]
  dsimp only
  by_cases isNode : other = address
  · subst isNode
    rw [if_pos rfl, List.getElem?_modify]
    by_cases isIndex : otherIndex = index
    · subst isIndex
      rw [if_pos (And.intro rfl rfl), List.getElem?_eq_getElem bound]
      simp
    · rw [if_neg fun both => isIndex both.2]
      simp [Ne.symm isIndex]
  · rw [if_neg isNode, if_neg fun both => isNode both.1]

theorem mem_addWaiting_waiting {other otherIndex : Nat} {waits : V × V}
    (member : waits ∈ (s.addWaiting address index pair).waiting other otherIndex) :
    waits ∈ s.waiting other otherIndex ∨ waits = pair := by
  rw [waiting, addWaiting_node] at member
  dsimp only at member
  split at member
  · rw [List.getElem?_modify] at member
    cases stored : (s.node other).conditionalConstraints[otherIndex]? with
    | none => simp [stored] at member
    | some pairs =>
        rw [waiting, stored]
        rw [stored] at member
        by_cases isIndex : index = otherIndex <;> simp [isIndex] at member ⊢ <;> tauto
  · exact .inl member

end

omit [DecidableEq V] [DecidableEq E] in
theorem Consistent.setBit {s : CubicSolver V E} (consistent : s.Consistent) {address : Nat}
    (live : s.Live address) (index : Nat) : (s.setBit address index).Consistent := by
  apply (setBit_sameShape s address index).consistent consistent
  · intro other otherIndex pair member
    rw [setBit_waiting] at member
    exact consistent.waiting_known other otherIndex pair member
  · intro other unknown otherIndex
    have different : other ≠ address := by
      rintro rfl
      exact absurd (consistent.live_known other live) (Nat.not_lt.mpr unknown)
    rw [setBit_bit_of_ne different, setBit_waiting]
    exact consistent.fresh other unknown otherIndex

omit [DecidableEq V] [DecidableEq E] in
theorem Consistent.addWaiting {s : CubicSolver V E} (consistent : s.Consistent) {address : Nat}
    (live : s.Live address) (index : Nat) {pair : V × V}
    (fromMem : pair.1 ∈ s.dagmapping.map Prod.fst) (toMem : pair.2 ∈ s.dagmapping.map Prod.fst) :
    (s.addWaiting address index pair).Consistent := by
  apply (addWaiting_sameShape s address index pair).consistent consistent
  · intro other otherIndex waiting member
    rcases mem_addWaiting_waiting member with earlier | rfl
    · exact consistent.waiting_known other otherIndex waiting earlier
    · exact ⟨fromMem, toMem⟩
  · intro other unknown otherIndex
    have different : other ≠ address := by
      rintro rfl
      exact absurd (consistent.live_known other live) (Nat.not_lt.mpr unknown)
    have same : (s.addWaiting address index pair).waiting other otherIndex =
        s.waiting other otherIndex := by
      rw [waiting, addWaiting_node, if_neg different]
      rfl
    rw [addWaiting_bit, same]
    exact consistent.fresh other unknown otherIndex

omit [DecidableEq E] in
theorem SameShape.dag {s s' : CubicSolver V E} (same : SameShape s s') (var : V) :
    s'.dag var = s.dag var := by
  rw [CubicSolver.dag, CubicSolver.dag, same.dagmapping]

omit [DecidableEq E] in
theorem SameShape.linked {s s' : CubicSolver V E} (same : SameShape s s') {pair : V × V}
    (linked : s.Linked pair) : s'.Linked pair := by
  rcases linked with ⟨fromNode, toNode, fromStored, toStored, connected⟩
  refine ⟨fromNode, toNode, (same.dag _).trans fromStored, (same.dag _).trans toStored, ?_⟩
  rw [same.supsets]
  exact connected

theorem SameShape.inForce {s s' : CubicSolver V E} (same : SameShape s s')
    (grows : ∀ address index, s.bit address index = true → s'.bit address index = true)
    (waits : ∀ address index, ∀ pair ∈ s.waiting address index, pair ∈ s'.waiting address index)
    {constraint : CubicConstraint V E} (inForce : s.InForce constraint) :
    s'.InForce constraint := by
  have sameIndex : ∀ elem, s'.indexOf elem = s.indexOf elem := by
    intro elem
    rw [indexOf, indexOf, same.fmapping]
  cases constraint with
  | elementOf elem var =>
      rcases inForce with ⟨address, stored, set⟩
      refine ⟨address, (same.dag var).trans stored, ?_⟩
      rw [sameIndex]
      exact grows address _ set
  | conditional condition inVar fromVar toVar =>
      rcases inForce with ⟨address, stored, waiting | linked⟩
      · refine ⟨address, (same.dag inVar).trans stored, .inl ?_⟩
        rw [sameIndex]
        exact waits address _ _ waiting
      · exact ⟨address, (same.dag inVar).trans stored, .inr (same.linked linked)⟩
  | subseteq fromVar toVar => exact same.linked inForce

section

variable {iterate : List Nat → List Nat} {findPath : CubicSolver V E → Nat → Nat → List Nat}
  (permutes : ∀ nodes, (iterate nodes).Perm nodes) (finds : FindsPaths findPath)

include permutes finds

/-- An element is put into the set of a variable. -/
theorem setBit_solves {s : CubicSolver V E} {elements : List E}
    {constraints : List (CubicConstraint V E)} (solved : Solved elements constraints s)
    {elem : E} (elemMem : elem ∈ elements) {var : V} {address : Nat}
    (stored : s.dag var = some address) :
    ∃ s', Fuel.Converges (fun steps => (s.setBit address (s.indexOf elem)).propagateNodeChanges
        iterate findPath steps address) s' ∧
      Solved elements (constraints ++ [.elementOf elem var]) s' := by
  have consistent := solved.consistent
  have live := consistent.live_of_dag stored
  have same := setBit_sameShape s address (s.indexOf elem)
  have indexed := indexOf_spec solved.fmapping elemMem
  have consistent' := consistent.setBit live (s.indexOf elem)
  apply propagate_solves permutes finds consistent' (same.fmapping.trans solved.fmapping)
  · rw [same.live]
    exact live
  · intro other otherLive different
    rw [same.live] at otherLive
    have settled := solved.settled other otherLive
    constructor
    · intro next edge index held
      rw [same.edge] at edge
      apply setBit_grows
      apply settled.passed edge
      exact (setBit_bit_of_ne different index).symm.trans held
    · intro index held pair waits
      change pair ∈ (s.setBit address (s.indexOf elem)).waiting other index at waits
      rw [setBit_waiting] at waits
      exact settled.idle ((setBit_bit_of_ne different index).symm.trans held) pair waits
  · intro constraint member
    rcases List.mem_append.mp member with member | isNew
    · apply same.inForce (fun _ _ held => setBit_grows held) _ (solved.inForce constraint member)
      intro other index pair waits
      rw [setBit_waiting]
      exact waits
    · rw [List.mem_singleton.mp isNew]
      refine ⟨address, (same.dag var).trans stored, setBit_set ?_⟩
      rw [consistent.sized, solved.fmapping, List.length_zipIdx]
      rw [solved.fmapping] at indexed
      exact (List.getElem?_eq_some_iff.mp (List.mem_zipIdx_iff_getElem?.mp indexed)).1
  · intro solution holds
    rcases solved.below solution fun constraint member =>
      holds constraint (List.mem_append_left _ member) with ⟨share, below⟩
    have member : elem ∈ solution var := holds (.elementOf elem var) (by simp)
    have node := below.node address
    refine ⟨share, below.modifyNode ⟨fun index set other entry => ?_, node.supsets, node.subsets,
      node.waits⟩⟩
    dsimp only at set
    rw [List.getElem?_set] at set
    split at set
    · rename_i isIndex
      rw [← isIndex] at entry
      rw [elem_eq_of_index solved.fmapping entry indexed, ← below.dag stored]
      exact member
    · exact node.bits index set other entry

/-- An inclusion waits for an element of a variable. -/
theorem addWaiting_solves {s : CubicSolver V E} {elements : List E}
    {constraints : List (CubicConstraint V E)} (solved : Solved elements constraints s)
    {condition : E} (elemMem : condition ∈ elements) {inVar fromVar toVar : V} {address : Nat}
    (stored : s.dag inVar = some address) (fromMem : fromVar ∈ s.dagmapping.map Prod.fst)
    (toMem : toVar ∈ s.dagmapping.map Prod.fst) :
    ∃ s', Fuel.Converges (fun steps =>
        (s.addWaiting address (s.indexOf condition) (fromVar, toVar)).propagateNodeChanges
          iterate findPath steps address) s' ∧
      Solved elements (constraints ++ [.conditional condition inVar fromVar toVar]) s' := by
  have consistent := solved.consistent
  have live := consistent.live_of_dag stored
  have same := addWaiting_sameShape s address (s.indexOf condition) (fromVar, toVar)
  have indexed := indexOf_spec solved.fmapping elemMem
  have bound : s.indexOf condition < (s.node address).conditionalConstraints.length := by
    rw [consistent.waitingSized, solved.fmapping, List.length_zipIdx]
    rw [solved.fmapping] at indexed
    exact (List.getElem?_eq_some_iff.mp (List.mem_zipIdx_iff_getElem?.mp indexed)).1
  have waiting : ∀ other index,
      (s.addWaiting address (s.indexOf condition) (fromVar, toVar)).waiting other index =
        if other = address ∧ index = s.indexOf condition
        then s.waiting other index ++ [(fromVar, toVar)] else s.waiting other index :=
    addWaiting_waiting bound
  have consistent' := consistent.addWaiting live (s.indexOf condition)
    (show (fromVar, toVar).1 ∈ _ from fromMem) toMem
  apply propagate_solves permutes finds consistent' (same.fmapping.trans solved.fmapping)
  · rw [same.live]
    exact live
  · intro other otherLive different
    rw [same.live] at otherLive
    have settled := solved.settled other otherLive
    constructor
    · intro next edge index held
      rw [same.edge] at edge
      change (s.addWaiting _ _ _).bit other index = true at held
      change (s.addWaiting _ _ _).bit next index = true
      rw [addWaiting_bit] at held ⊢
      exact settled.passed edge index held
    · intro index held pair waits
      change (s.addWaiting _ _ _).bit other index = true at held
      rw [addWaiting_bit] at held
      change pair ∈ (s.addWaiting _ _ _).waiting other index at waits
      rw [waiting, if_neg fun both => different both.1] at waits
      exact settled.idle held pair waits
  · intro constraint member
    rcases List.mem_append.mp member with member | isNew
    · apply same.inForce _ _ (solved.inForce constraint member)
      · intro other index held
        rw [addWaiting_bit]
        exact held
      · intro other index pair waits
        rw [waiting]
        split
        · exact List.mem_append_left _ waits
        · exact waits
    · rw [List.mem_singleton.mp isNew]
      refine ⟨address, (same.dag inVar).trans stored, .inl ?_⟩
      change (fromVar, toVar) ∈ (s.addWaiting _ _ _).waiting address (s.indexOf condition)
      rw [waiting, if_pos ⟨rfl, rfl⟩]
      simp
  · intro solution holds
    rcases solved.below solution fun constraint member =>
      holds constraint (List.mem_append_left _ member) with ⟨share, below⟩
    have implied : condition ∈ solution inVar → solution fromVar ⊆ solution toVar :=
      holds (.conditional condition inVar fromVar toVar) (by simp)
    have node := below.node address
    refine ⟨share, below.modifyNode ⟨node.bits, node.supsets, node.subsets,
      fun index pair member held => ?_⟩⟩
    dsimp only at member
    have member' : pair ∈ (s.addWaiting address (s.indexOf condition) (fromVar, toVar)).waiting
        address index := by
      rw [CubicSolver.waiting, addWaiting_node]
      simpa using member
    rw [waiting] at member'
    split at member'
    · rename_i both
      rcases List.mem_append.mp member' with member' | isNew
      · exact node.waits index pair member' held
      · rw [List.mem_singleton.mp isNew]
        apply implied
        rw [below.dag stored]
        exact held condition (both.2 ▸ indexed)
    · exact node.waits index pair member' held

/-! ## All constraints -/

theorem add_solves {s : CubicSolver V E} {elements : List E}
    {constraints : List (CubicConstraint V E)} (solved : Solved elements constraints s)
    (constraint : CubicConstraint V E) (elemMem : ∀ elem ∈ constraint.elements, elem ∈ elements) :
    ∃ s', Fuel.Converges (fun steps => s.add iterate findPath steps constraint) s' ∧
      Solved elements (constraints ++ [constraint]) s' := by
  cases constraint with
  | elementOf elem var =>
      have entered := solved.addEmptyVariable var
      rcases addEmptyVariable_exists (s := s) var with ⟨address, stored⟩
      rcases setBit_solves permutes finds entered (elemMem elem List.mem_cons_self) stored with
        ⟨s', converges, solves⟩
      refine ⟨s', ?_, solves⟩
      simp only [add, addElementofConstraint, stored, Option.bind_eq_bind, Option.bind_some]
      exact converges
  | conditional condition inVar fromVar toVar =>
      have entered := ((solved.addEmptyVariable inVar).addEmptyVariable fromVar).addEmptyVariable
        toVar
      rcases addEmptyVariable_exists (s := s) inVar with ⟨address, stored⟩
      rcases addEmptyVariable_exists (s := s.addEmptyVariableIfNecessary inVar) fromVar with
        ⟨fromNode, fromStored⟩
      rcases addEmptyVariable_exists (s := (s.addEmptyVariableIfNecessary
        inVar).addEmptyVariableIfNecessary fromVar) toVar with ⟨toNode, toStored⟩
      have stored' : (((s.addEmptyVariableIfNecessary inVar).addEmptyVariableIfNecessary
          fromVar).addEmptyVariableIfNecessary toVar).dag inVar = some address :=
        addEmptyVariable_dag (addEmptyVariable_dag stored)
      have fromEntry := entered.consistent.dag_eq_some_iff.mp (addEmptyVariable_dag fromStored)
      have toEntry := entered.consistent.dag_eq_some_iff.mp toStored
      rcases addWaiting_solves permutes finds entered (elemMem condition List.mem_cons_self) stored'
        (List.mem_map_of_mem fromEntry) (List.mem_map_of_mem toEntry) with
        ⟨s', converges, solves⟩
      refine ⟨s', ?_, solves⟩
      simp only [add, addConditionalConstraint, stored', Option.bind_eq_bind, Option.bind_some]
      exact converges
  | subseteq fromVar toVar => exact addSubseteq_solves permutes finds solved fromVar toVar

end

omit [DecidableEq V] [DecidableEq E] in
theorem bit_create (elements : List E) (address index : Nat) :
    (create elements : CubicSolver V E).bit address index = false := by
  simp only [bit, create, emptyNode, List.getElem?_replicate]
  split <;> rfl

omit [DecidableEq V] [DecidableEq E] in
theorem waiting_create (elements : List E) (address index : Nat) :
    (create elements : CubicSolver V E).waiting address index = [] := by
  simp only [waiting, create, emptyNode, List.getElem?_replicate]
  split <;> rfl

omit [DecidableEq V] [DecidableEq E] in
theorem create_consistent (elements : List E) :
    (create elements : CubicSolver V E).Consistent where
  sized := sized_create elements
  waitingSized address := by simp [create, emptyNode]
  allocated := rfl
  variablesNodup := List.nodup_nil
  live_known := nofun
  representative_of_live := nofun
  supsetsNodup _ := List.nodup_nil
  subsetsNodup _ := List.nodup_nil
  irreflexive := nofun
  mem_subsets := nofun
  live_of_edge := nofun
  edge_known := nofun
  subset_known := nofun
  waiting_known address index pair member := by
    rw [waiting_create] at member
    cases member
  fresh address _ index := ⟨bit_create elements address index, waiting_create elements address index⟩
  edge_of_merged := nofun
  acyclic := ⟨fun _ => 0, nofun⟩

theorem create_solved (elements : List E) :
    Solved elements [] (create elements : CubicSolver V E) where
  consistent := create_consistent elements
  fmapping := rfl
  settled := nofun
  inForce := nofun
  below solution _ := by
    refine ⟨fun _ => ∅, nofun, fun address => ⟨fun index set => ?_, nofun, nofun,
      fun index pair member => ?_⟩⟩
    · have empty := bit_create (V := V) elements address index
      exact absurd (empty.symm.trans set) Bool.false_ne_true
    · have empty := waiting_create (V := V) elements address index
      rw [waiting] at empty
      rw [empty] at member
      cases member

/-! ## The least solution -/

omit [DecidableEq E] in
/-- The sets follow the inclusions in force. -/
theorem Linked.subset {s : CubicSolver V E} {pair : V × V} (linked : s.Linked pair)
    (consistent : s.Consistent) (settled : ∀ address, s.Live address → s.graph.Settled address)
    {elem : E} (member : elem ∈ s.getElements pair.1) : elem ∈ s.getElements pair.2 := by
  rcases linked with ⟨fromNode, toNode, fromStored, toStored, connected⟩
  rcases mem_getElements.mp member with ⟨address, index, stored, entry, set⟩
  rw [fromStored] at stored
  cases stored
  refine mem_getElements.mpr ⟨toNode, index, toStored, entry, ?_⟩
  rcases connected with rfl | edge
  · exact set
  · exact (settled fromNode (consistent.live_of_dag fromStored)).passed edge index set

/-- A solved constraint holds of the solver's sets. -/
theorem Solved.holds {s : CubicSolver V E} {elements : List E}
    {constraints : List (CubicConstraint V E)} (solved : Solved elements constraints s)
    (distinct : elements.Nodup) {constraint : CubicConstraint V E}
    (member : constraint ∈ constraints)
    (elemMem : ∀ elem ∈ constraint.elements, elem ∈ elements) :
    constraint.Holds fun var => {elem | elem ∈ s.getElements var} := by
  have consistent := solved.consistent
  have inForce := solved.inForce constraint member
  cases constraint with
  | elementOf elem var =>
      rcases inForce with ⟨address, stored, set⟩
      exact mem_getElements.mpr ⟨address, s.indexOf elem, stored,
        indexOf_spec solved.fmapping (elemMem elem List.mem_cons_self), set⟩
  | conditional condition inVar fromVar toVar =>
      intro inSet elem elemIn
      rcases inForce with ⟨address, stored, waits⟩
      rcases mem_getElements.mp inSet with ⟨_, index, stored', entry, set⟩
      rw [stored] at stored'
      cases stored'
      have indexed := indexOf_spec solved.fmapping (elemMem condition List.mem_cons_self)
      have sameIndex := index_eq_of_elem solved.fmapping distinct entry indexed
      rw [sameIndex] at set
      rcases waits with waits | linked
      · exact absurd waits ((solved.settled address (consistent.live_of_dag stored)).idle set _)
      · exact linked.subset consistent solved.settled elemIn
  | subseteq fromVar toVar =>
      exact fun elem elemIn => Linked.subset inForce consistent solved.settled elemIn

section

variable {iterate : List Nat → List Nat} {findPath : CubicSolver V E → Nat → Nat → List Nat}

/-- In every order of the constraints and of the node sets, with any search for
paths, the solver ends and its sets are the least solution. -/
theorem addAll_isLeast (permutes : ∀ nodes, (iterate nodes).Perm nodes)
    (finds : FindsPaths findPath) {elements : List E} (distinct : elements.Nodup)
    (constraints : List (CubicConstraint V E))
    (elemMem : ∀ constraint ∈ constraints, ∀ elem ∈ constraint.elements, elem ∈ elements) :
    ∃ s bound, (∀ steps, bound ≤ steps →
        addAll iterate findPath steps elements constraints = some s) ∧
      IsLeast {solution | ∀ constraint ∈ constraints, constraint.Holds solution}
        fun var => {elem | elem ∈ s.getElements var} := by
  have run : ∃ s, Fuel.Converges (fun steps =>
        addAll iterate findPath steps elements constraints) s ∧
      Solved elements constraints s := by
    apply Fuel.exists_converges_foldlM fun done s => Solved elements done s
    · exact create_solved elements
    · intro done constraint rest s split solved
      apply add_solves permutes finds solved constraint (elemMem constraint _)
      rw [split]
      simp
  rcases run with ⟨s, ⟨bound, converges⟩, solved⟩
  refine ⟨s, bound, converges, ?_, ?_⟩
  · exact fun constraint member =>
      solved.holds distinct member (elemMem constraint member)
  · intro solution holds var elem member
    rcases solved.below solution holds with ⟨share, below⟩
    rcases mem_getElements.mp member with ⟨address, index, stored, entry, set⟩
    rw [below.dag stored]
    exact (below.node address).bits index set elem entry

end

/-- Two variables on a cycle, an element for one of them, and an inclusion that
waits for it at the other. -/
theorem addAll_isLeast_cycle :
    ∃ s bound, (∀ steps, bound ≤ steps → addAll (fun nodes => nodes) depthFirst steps [10, 20]
        [.subseteq 0 1, .conditional 10 1 2 3, .subseteq 1 0, .elementOf 20 2,
          .elementOf 10 0] = some s) ∧
      IsLeast {solution : Nat → Set Nat | ∀ constraint ∈ [CubicConstraint.subseteq 0 1,
          .conditional 10 1 2 3, .subseteq 1 0, .elementOf 20 2, .elementOf 10 0],
          constraint.Holds solution}
        fun var => {elem | elem ∈ s.getElements var} :=
  addAll_isLeast (fun _ => .refl _) depthFirst_findsPaths (by decide) _ (by decide)

end CubicSolver

end Topc
