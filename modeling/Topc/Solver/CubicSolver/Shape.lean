import Mathlib.Data.List.Nodup
import Topc.Foundation.CollapsingGraph
import Topc.Solver.CubicSolver.Growth

/-! # The shape of the cubic solver's graph

The node allocated for a variable is known by its position in the map of
variables. The map gives the node that stands for it since the last merge. -/

namespace Topc

namespace CubicSolver

variable {V E : Type}

/-- The node that stands for an allocated one. -/
def representative (s : CubicSolver V E) (address : Nat) : Nat :=
  (s.dagmapping[address]?.map Prod.snd).getD address

def Live (s : CubicSolver V E) (address : Nat) : Prop :=
  address ∈ s.dagmapping.map Prod.snd

instance (s : CubicSolver V E) (address : Nat) : Decidable (s.Live address) :=
  inferInstanceAs (Decidable (address ∈ s.dagmapping.map Prod.snd))

/-- The inclusions that wait at a node for an element. -/
def waiting (s : CubicSolver V E) (address index : Nat) : List (V × V) :=
  (s.node address).conditionalConstraints[index]?.getD []

/-- The solver as a graph that collapses. -/
def graph (s : CubicSolver V E) : CollapsingGraph Nat Nat (V × V) where
  known address := address < s.allocated
  live := s.Live
  representative := s.representative
  edge address next := next ∈ (s.node address).supsets
  holds address index := s.bit address index = true
  waits address index pair := pair ∈ s.waiting address index

/-- What all operations keep. The subsets of a live node are the live nodes whose
superset it is. -/
structure WellFormed (s : CubicSolver V E) : Prop where
  sized : s.Sized
  waitingSized : ∀ address, (s.node address).conditionalConstraints.length = s.fmapping.length
  allocated : s.dagmapping.length = s.allocated
  variablesNodup : (s.dagmapping.map Prod.fst).Nodup
  live_known : ∀ address, s.Live address → address < s.allocated
  representative_of_live : ∀ address, s.Live address → s.representative address = address
  supsetsNodup : ∀ address, (s.node address).supsets.Nodup
  subsetsNodup : ∀ address, (s.node address).subsets.Nodup
  irreflexive : ∀ address, address ∉ (s.node address).supsets
  mem_subsets : ∀ address, s.Live address → ∀ other,
    other ∈ (s.node address).subsets ↔ s.Live other ∧ address ∈ (s.node other).supsets
  live_of_edge : ∀ address, s.Live address → ∀ next ∈ (s.node address).supsets, s.Live next
  edge_known : ∀ address, ∀ next ∈ (s.node address).supsets,
    address < s.allocated ∧ next < s.allocated
  subset_known : ∀ address, ∀ other ∈ (s.node address).subsets,
    address < s.allocated ∧ other < s.allocated
  waiting_known : ∀ address index, ∀ pair ∈ s.waiting address index,
    pair.1 ∈ s.dagmapping.map Prod.fst ∧ pair.2 ∈ s.dagmapping.map Prod.fst
  fresh : ∀ address, s.allocated ≤ address → ∀ index,
    s.bit address index = false ∧ s.waiting address index = []

theorem live_representative {s : CubicSolver V E} {address : Nat}
    (known : address < s.dagmapping.length) : s.Live (s.representative address) := by
  rw [representative, List.getElem?_eq_getElem known]
  exact List.mem_map_of_mem (List.getElem_mem known)

theorem WellFormed.graph {s : CubicSolver V E} (wellFormed : s.WellFormed) :
    s.graph.WellFormed where
  live_representative known := live_representative (wellFormed.allocated ▸ known)
  known_of_live live := wellFormed.live_known _ live
  representative_of_live live := wellFormed.representative_of_live _ live
  live_of_edge live edge := wellFormed.live_of_edge _ live _ edge
  known_of_edge edge := (wellFormed.edge_known _ _ edge).2

theorem finite_known (s : CubicSolver V E) :
    {address | s.graph.known address}.Finite :=
  Set.finite_lt_nat s.allocated

/-- What holds between operations. A merged node leads to one that was merged
along with it, and there are no cycles. -/
structure Consistent (s : CubicSolver V E) : Prop extends s.WellFormed where
  edge_of_merged : ∀ address < s.allocated, ¬ s.Live address →
    ∃ next ∈ (s.node address).supsets, s.representative next = s.representative address
  acyclic : s.graph.Acyclic

/-- Representatives compose. -/
theorem representative_evolves {s s' : CubicSolver V E} (evolves : s.graph.Evolves s'.graph)
    {address : Nat} (known : address < s.allocated) :
    s'.representative (s.representative address) = s'.representative address :=
  evolves.representative known

/-! ## Variables -/

/-- The same variables and elements. -/
structure SameVariables (s s' : CubicSolver V E) : Prop where
  fmapping : s'.fmapping = s.fmapping
  allocated : s'.allocated = s.allocated
  dagmapping : s'.dagmapping.map Prod.fst = s.dagmapping.map Prod.fst

theorem SameVariables.refl (s : CubicSolver V E) : SameVariables s s :=
  ⟨rfl, rfl, rfl⟩

theorem SameVariables.trans {first second third : CubicSolver V E}
    (left : SameVariables first second) (right : SameVariables second third) :
    SameVariables first third :=
  ⟨right.fmapping.trans left.fmapping, right.allocated.trans left.allocated,
    right.dagmapping.trans left.dagmapping⟩

/-! ## Changes of what nodes hold -/

/-- The variables and the edges are those of before. -/
structure SameShape (s s' : CubicSolver V E) : Prop where
  fmapping : s'.fmapping = s.fmapping
  dagmapping : s'.dagmapping = s.dagmapping
  allocated : s'.allocated = s.allocated
  supsets : ∀ address, (s'.node address).supsets = (s.node address).supsets
  subsets : ∀ address, (s'.node address).subsets = (s.node address).subsets
  bits : ∀ address, (s'.node address).bitvector.length = (s.node address).bitvector.length
  waits : ∀ address, (s'.node address).conditionalConstraints.length =
    (s.node address).conditionalConstraints.length

section

variable {s s' : CubicSolver V E} (same : SameShape s s')

include same

theorem SameShape.variables : SameVariables s s' :=
  ⟨same.fmapping, same.allocated, by rw [same.dagmapping]⟩

theorem SameShape.live : s'.Live = s.Live := by
  funext address
  rw [Live, Live, same.dagmapping]

theorem SameShape.representative : s'.representative = s.representative := by
  funext address
  rw [CubicSolver.representative, CubicSolver.representative, same.dagmapping]

theorem SameShape.wellFormed (wellFormed : s.WellFormed)
    (waitingKnown : ∀ address index, ∀ pair ∈ s'.waiting address index,
      pair.1 ∈ s.dagmapping.map Prod.fst ∧ pair.2 ∈ s.dagmapping.map Prod.fst)
    (fresh : ∀ address, s.allocated ≤ address → ∀ index,
      s'.bit address index = false ∧ s'.waiting address index = []) :
    s'.WellFormed where
  sized address := by
    rw [same.bits, same.fmapping]
    exact wellFormed.sized address
  waitingSized address := by
    rw [same.waits, same.fmapping]
    exact wellFormed.waitingSized address
  allocated := by
    rw [same.dagmapping, same.allocated]
    exact wellFormed.allocated
  variablesNodup := by
    rw [same.dagmapping]
    exact wellFormed.variablesNodup
  live_known := by
    rw [same.live, same.allocated]
    exact wellFormed.live_known
  representative_of_live := by
    rw [same.live, same.representative]
    exact wellFormed.representative_of_live
  supsetsNodup address := by
    rw [same.supsets]
    exact wellFormed.supsetsNodup address
  subsetsNodup address := by
    rw [same.subsets]
    exact wellFormed.subsetsNodup address
  irreflexive address := by
    rw [same.supsets]
    exact wellFormed.irreflexive address
  mem_subsets := by
    rw [same.live]
    intro address live other
    rw [same.supsets, same.subsets]
    exact wellFormed.mem_subsets address live other
  live_of_edge := by
    rw [same.live]
    intro address live
    rw [same.supsets]
    exact wellFormed.live_of_edge address live
  edge_known address := by
    rw [same.supsets, same.allocated]
    exact wellFormed.edge_known address
  subset_known address := by
    rw [same.subsets, same.allocated]
    exact wellFormed.subset_known address
  waiting_known := by
    rw [same.dagmapping]
    exact waitingKnown
  fresh := by
    rw [same.allocated]
    exact fresh

theorem SameShape.edge {address next : Nat} :
    s'.graph.edge address next ↔ s.graph.edge address next := by
  change next ∈ (s'.node address).supsets ↔ next ∈ (s.node address).supsets
  rw [same.supsets]

theorem SameShape.consistent (consistent : s.Consistent)
    (waitingKnown : ∀ address index, ∀ pair ∈ s'.waiting address index,
      pair.1 ∈ s.dagmapping.map Prod.fst ∧ pair.2 ∈ s.dagmapping.map Prod.fst)
    (fresh : ∀ address, s.allocated ≤ address → ∀ index,
      s'.bit address index = false ∧ s'.waiting address index = []) :
    s'.Consistent where
  toWellFormed := same.wellFormed consistent.toWellFormed waitingKnown fresh
  edge_of_merged := by
    rw [same.live, same.representative, same.allocated]
    intro address
    rw [same.supsets]
    exact consistent.edge_of_merged address
  acyclic := by
    rcases consistent.acyclic with ⟨rank, falls⟩
    exact ⟨rank, fun address next edge => falls address next (same.edge.mp edge)⟩

theorem SameShape.evolves (wellFormed : s.WellFormed)
    (grows : ∀ address index, s.bit address index = true → s'.bit address index = true) :
    s.graph.Evolves s'.graph where
  known := by
    intro address
    change address < s'.allocated ↔ address < s.allocated
    rw [same.allocated]
  live {address} live := by
    change s'.Live address at live
    rw [same.live] at live
    exact live
  representative {address} known := by
    change s'.representative (s.representative address) = s'.representative address
    rw [same.representative]
    exact wellFormed.graph.representative_of_live (wellFormed.graph.live_representative known)
  frozen _ := same.edge
  grows held := grows _ _ held
  flows {address index} live held := by
    change s'.bit (s'.representative address) index = true
    rw [same.representative, wellFormed.representative_of_live address live]
    exact grows address index held
  linked {address next} live edge := by
    right
    rw [same.edge]
    change s.graph.edge (s'.representative address) (s'.representative next)
    rw [same.representative, wellFormed.representative_of_live address live,
      wellFormed.representative_of_live next (wellFormed.live_of_edge address live next edge)]
    exact edge

theorem SameShape.unchanged (wellFormed : s.WellFormed) {address : Nat}
    (bits : ∀ index, s'.bit address index = true → s.bit address index = true)
    (waits : ∀ index, ∀ pair ∈ s'.waiting address index, pair ∈ s.waiting address index) :
    s.graph.Unchanged s'.graph address where
  holds held := bits _ held
  waits _ waiting := waits _ _ waiting
  edge {next} live edge := by
    rw [same.edge] at edge
    refine ⟨next, edge, ?_⟩
    change s'.representative next = next
    change s'.Live address at live
    rw [same.live] at live
    rw [same.representative]
    exact wellFormed.representative_of_live next (wellFormed.live_of_edge address live next edge)

theorem SameShape.touches (wellFormed : s.WellFormed) {center : Nat}
    (grows : ∀ address index, s.bit address index = true → s'.bit address index = true)
    (bits : ∀ address ≠ center, ∀ index, s'.bit address index = true → s.bit address index = true)
    (waits : ∀ address ≠ center, ∀ index, ∀ pair ∈ s'.waiting address index,
      pair ∈ s.waiting address index) : s.graph.Touches center s'.graph where
  evolves := same.evolves wellFormed grows
  keeps {address} _ := by
    by_cases isCenter : address = center
    · exact .inl isCenter
    · exact .inr (.inl (same.unchanged wellFormed (bits address isCenter) (waits address isCenter)))
  collapsed {address} live dead := by
    change ¬ s'.Live address at dead
    rw [same.live] at dead
    exact absurd live dead

theorem SameShape.advances (wellFormed : s.WellFormed)
    (bits : ∀ address index, s'.bit address index = s.bit address index)
    (waits : ∀ address index, ∀ pair ∈ s'.waiting address index, pair ∈ s.waiting address index) :
    s.graph.Advances s'.graph where
  evolves := same.evolves wellFormed fun address index held => (bits address index).trans held
  keeps {address} _ := .inr (same.unchanged wellFormed
    (fun index held => (bits address index).symm.trans held) (waits address))
  collapsed {address} live dead := by
    change ¬ s'.Live address at dead
    rw [same.live] at dead
    exact absurd live dead

end

variable [DecidableEq V]

theorem WellFormed.dag_eq_some_iff {s : CubicSolver V E} (wellFormed : s.WellFormed) {var : V}
    {address : Nat} : s.dag var = some address ↔ (var, address) ∈ s.dagmapping := by
  rw [dag, Option.map_eq_some_iff]
  constructor
  · rintro ⟨entry, found, rfl⟩
    have isVar := List.find?_some found
    have member := List.mem_of_find?_eq_some found
    rw [← of_decide_eq_true isVar]
    exact member
  · intro member
    cases found : s.dagmapping.find? fun entry => entry.1 = var with
    | none =>
        rw [List.find?_eq_none] at found
        exact absurd (decide_eq_true rfl) (found _ member)
    | some entry =>
        have isVar := List.find?_some found
        have foundMember := List.mem_of_find?_eq_some found
        have same : entry = (var, address) :=
          List.inj_on_of_nodup_map wellFormed.variablesNodup foundMember member
            (of_decide_eq_true isVar)
        exact ⟨entry, rfl, by rw [same]⟩

theorem WellFormed.exists_dag {s : CubicSolver V E} (wellFormed : s.WellFormed) {var : V}
    (member : var ∈ s.dagmapping.map Prod.fst) : ∃ address, s.dag var = some address := by
  rcases List.mem_map.mp member with ⟨entry, entryMem, rfl⟩
  exact ⟨entry.2, wellFormed.dag_eq_some_iff.mpr entryMem⟩

theorem WellFormed.live_of_dag {s : CubicSolver V E} (wellFormed : s.WellFormed) {var : V}
    {address : Nat} (stored : s.dag var = some address) : s.Live address :=
  List.mem_map_of_mem (wellFormed.dag_eq_some_iff.mp stored)

/-- A variable follows the node it had. -/
theorem WellFormed.dag_evolves {s s' : CubicSolver V E} (wellFormed : s.WellFormed)
    (wellFormed' : s'.WellFormed) (same : SameVariables s s')
    (evolves : s.graph.Evolves s'.graph) {var : V} {address : Nat}
    (stored : s.dag var = some address) : s'.dag var = some (s'.representative address) := by
  rw [wellFormed.dag_eq_some_iff] at stored
  rcases List.mem_iff_getElem?.mp stored with ⟨position, found⟩
  have bound : position < s.dagmapping.length := by
    rcases List.getElem?_eq_some_iff.mp found with ⟨bound, _⟩
    exact bound
  have sameLength : s'.dagmapping.length = s.dagmapping.length := by
    rw [wellFormed'.allocated, wellFormed.allocated, same.allocated]
  have bound' : position < s'.dagmapping.length := sameLength ▸ bound
  have known : s.graph.known position := by
    change position < s.allocated
    rw [← wellFormed.allocated]
    exact bound
  have represented : s.representative position = address := by
    rw [representative, found]
    rfl
  have isVar : (s'.dagmapping[position]).1 = var := by
    have sameKey := congrArg (fun keys => keys[position]?) same.dagmapping
    rw [List.getElem?_map, List.getElem?_map, found, List.getElem?_eq_getElem bound'] at sameKey
    exact Option.some.inj sameKey
  have isAddress : (s'.dagmapping[position]).2 = s'.representative address := by
    have composed := representative_evolves evolves known
    rw [represented] at composed
    rw [composed, representative, List.getElem?_eq_getElem bound']
    rfl
  rw [wellFormed'.dag_eq_some_iff, ← isVar, ← isAddress]
  exact List.getElem_mem bound'

end CubicSolver

end Topc
