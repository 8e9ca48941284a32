import Mathlib.Data.List.Basic
import Mathlib.Logic.Function.Basic

/-! # The cubic constraint solver

Variables share nodes of a graph whose edges are inclusions. A node knows the
elements of its set, and for each element the inclusions that wait for it.
Cycles of inclusions are collapsed into one node. -/

namespace Topc

/-- A node. Nodes refer to each other by address. -/
structure CubicSolverNode (V : Type) where
  supsets : List Nat
  subsets : List Nat
  bitvector : List Bool
  conditionalConstraints : List (List (V × V))

/-- Nodes are allocated one after another and never deleted. The ones still to
be allocated are empty. -/
structure CubicSolver (V E : Type) where
  fmapping : List (E × Nat)
  dagmapping : List (V × Nat)
  node : Nat → CubicSolverNode V
  allocated : Nat

namespace CubicSolver

variable {V E : Type} [DecidableEq V] [DecidableEq E]

def emptyNode (count : Nat) : CubicSolverNode V where
  supsets := []
  subsets := []
  bitvector := List.replicate count false
  conditionalConstraints := List.replicate count []

def create (elements : List E) : CubicSolver V E where
  fmapping := elements.zipIdx
  dagmapping := []
  node _ := emptyNode elements.length
  allocated := 0

def bit (s : CubicSolver V E) (address index : Nat) : Bool :=
  (s.node address).bitvector[index]?.getD false

def modifyNode (s : CubicSolver V E) (address : Nat)
    (change : CubicSolverNode V → CubicSolverNode V) : CubicSolver V E :=
  { s with node := Function.update s.node address (change (s.node address)) }

/-- The index of an element. Asking for one the solver was not created with
gives index 0, as the map's default does. -/
def indexOf (s : CubicSolver V E) (elem : E) : Nat :=
  (s.fmapping.find? fun entry => entry.1 = elem).elim 0 Prod.snd

/-- The node of a variable. -/
def dag (s : CubicSolver V E) (var : V) : Option Nat :=
  (s.dagmapping.find? fun entry => entry.1 = var).map Prod.snd

def addEmptyVariableIfNecessary (s : CubicSolver V E) (var : V) : CubicSolver V E :=
  if (s.dag var).isSome then s
  else { s with
    dagmapping := s.dagmapping ++ [(var, s.allocated)]
    allocated := s.allocated + 1 }

def getElements (s : CubicSolver V E) (var : V) : List E :=
  match s.dag var with
  | none => []
  | some address => (s.fmapping.filter fun entry => s.bit address entry.2).map Prod.fst

/-! ## Collapsing cycles -/

/-- The elements of one node are added to another. -/
def orBits (target source : List Bool) : List Bool :=
  target.mapIdx fun index bit => bit || source[index]?.getD false

/-- Redirect the edges a set holds to one node to another. -/
def redirect (set : List Nat) (fromNode toNode : Nat) : List Nat :=
  (set.erase fromNode).insert toNode

def mergeNodes (s : CubicSolver V E) (n1 n2 : Nat) : CubicSolver V E :=
  let source := s.node n2
  let s := { s with dagmapping := s.dagmapping.map fun (entry : V × Nat) =>
    if entry.2 = n2 then (entry.1, n1) else entry }
  let s := s.modifyNode n1 fun target => { target with
    bitvector := orBits target.bitvector source.bitvector
    conditionalConstraints := target.conditionalConstraints.mapIdx fun index waiting =>
      waiting ++ source.conditionalConstraints[index]?.getD [] }
  let s := (source.supsets.filter (· ≠ n1)).foldl (fun s a =>
    (s.modifyNode a fun n => { n with subsets := redirect n.subsets n2 n1 }).modifyNode n1
      fun n => { n with supsets := n.supsets.insert a }) s
  let s := (source.subsets.filter (· ≠ n1)).foldl (fun s a =>
    (s.modifyNode a fun n => { n with supsets := redirect n.supsets n2 n1 }).modifyNode n1
      fun n => { n with subsets := n.subsets.insert a }) s
  s.modifyNode n1 fun n => { n with
    supsets := n.supsets.erase n2
    subsets := n.subsets.erase n2 }

/-- Merge a path from its end, two nodes at a time. -/
def mergePath (s : CubicSolver V E) : List Nat → CubicSolver V E
  | [] => s
  | last :: rest => rest.foldl (fun s b => s.mergeNodes last b) s

section

-- The order in which loops go through a set of nodes.
variable (iterate : List Nat → List Nat)

/-- One round of the breadth-first search. -/
def populateDistances (s : CubicSolver V E) (distances : List (Nat × Nat)) (queue : List Nat)
    (current : Nat) : List (Nat × Nat) × List Nat :=
  let distance := ((distances.find? fun entry => entry.1 = current).map Prod.snd).getD 0
  (iterate (s.node current).supsets).foldl (fun (distances, queue) n =>
    if distances.any fun entry => entry.1 = n then (distances, queue)
    else (distances ++ [(n, distance + 1)], queue ++ [n])) (distances, queue)

/-- The search stops once the target has a distance. -/
def searchFrom (s : CubicSolver V E) (target : Nat) :
    Nat → List (Nat × Nat) → List Nat → List (Nat × Nat)
  | 0, distances, _ => distances
  | _, distances, [] => distances
  | rounds + 1, distances, current :: queue =>
      let (distances, queue) := s.populateDistances iterate distances queue current
      if distances.any fun entry => entry.1 = target then distances
      else searchFrom s target rounds distances queue

/-- Walk back from the target. Only the first subset that has a distance is
looked at in each round. -/
def walkBack (s : CubicSolver V E) (source : Nat) (distances : List (Nat × Nat)) :
    Nat → Nat → List Nat → Option (List Nat)
  | 0, _, _ => none
  | rounds + 1, current, out =>
      if current = source then some out
      else
        let distanceOf := fun n => (distances.find? fun entry => entry.1 = n).map Prod.snd
        let next :=
          match (iterate (s.node current).subsets).find? fun n => (distanceOf n).isSome with
          | some n => if (distanceOf n).map (· + 1) = distanceOf current then n else current
          | none => current
        walkBack s source distances rounds next (out ++ [next])

/-- The nodes from the target back to the source, or nothing when the target
is not reached. -/
def findPath (s : CubicSolver V E) (steps source target : Nat) : Option (List Nat) :=
  let (distances, queue) := s.populateDistances iterate [(source, 0)] [] source
  let distances := searchFrom iterate s target s.allocated distances queue
  if distances.any fun entry => entry.1 = target then
    walkBack iterate s source distances steps target [target]
  else some []

end

section

-- The order in which loops go through a set of nodes, and the search for a path.
variable (iterate : List Nat → List Nat) (findPath : CubicSolver V E → Nat → Nat → List Nat)

/-- The first cycle through a node that a loop over its supersets finds. -/
def findCycle (s : CubicSolver V E) (n : Nat) : List Nat → List Nat
  | [] => []
  | t :: supsets =>
      let path := findPath s t n
      if path.isEmpty then findCycle s n supsets else path

/-- Collapse cycles through a node until there is none. -/
def killCyclesAt : Nat → CubicSolver V E → Nat → Option (CubicSolver V E)
  | 0, _, _ => none
  | rounds + 1, s, n =>
      match (s.findCycle findPath n (iterate (s.node n).supsets)).reverse with
      | [] => some s
      | last :: rest => killCyclesAt rounds (s.mergePath (last :: rest)) last

/-! ## Propagation -/

/-- Link two nodes and collapse the cycles this closes. -/
def link (s : CubicSolver V E) (steps fromNode toNode : Nat) : Option (CubicSolver V E) :=
  let s := s.modifyNode fromNode fun n => { n with supsets := n.supsets.insert toNode }
  let s := s.modifyNode toNode fun n => { n with subsets := n.subsets.insert fromNode }
  s.killCyclesAt iterate findPath steps fromNode

mutual
/-- Activate the constraints that wait for elements of a node, then pass its
elements on to its supersets. -/
def propagateNodeChanges : Nat → CubicSolver V E → Nat → Option (CubicSolver V E)
  | 0, _, _ => none
  | steps + 1, s, n => do
      let s ← (List.range (s.node n).bitvector.length).foldlM (fun s i =>
        if s.bit n i then do
          let constraints := (s.node n).conditionalConstraints[i]?.getD []
          let s := s.modifyNode n fun m =>
            { m with conditionalConstraints := m.conditionalConstraints.set i [] }
          constraints.foldlM (fun s pair =>
            activateConditionalConstraint steps s pair.1 pair.2) s
        else some s) s
      (iterate (s.node n).supsets).foldlM (fun s sups => do
        let source := (s.node n).bitvector
        let s := s.modifyNode sups fun m => { m with bitvector := orBits m.bitvector source }
        propagateNodeChanges steps s sups) s

def activateConditionalConstraint : Nat → CubicSolver V E → V → V → Option (CubicSolver V E)
  | 0, _, _, _ => none
  | steps + 1, s, fromVar, toVar => do
      let fromNode ← s.dag fromVar
      let toNode ← s.dag toVar
      if fromNode = toNode then return s
      let s ← s.link iterate findPath steps fromNode toNode
      let fromNode ← s.dag fromVar
      propagateNodeChanges steps s fromNode
end

def addElementofConstraint (steps : Nat) (s : CubicSolver V E) (elem : E) (var : V) :
    Option (CubicSolver V E) := do
  let s := s.addEmptyVariableIfNecessary var
  let address ← s.dag var
  let s := s.modifyNode address fun n => { n with bitvector := n.bitvector.set (s.indexOf elem) true }
  propagateNodeChanges iterate findPath steps s address

def addConditionalConstraint (steps : Nat) (s : CubicSolver V E) (condition : E)
    (inVar fromVar toVar : V) : Option (CubicSolver V E) := do
  let s := ((s.addEmptyVariableIfNecessary inVar).addEmptyVariableIfNecessary
    fromVar).addEmptyVariableIfNecessary toVar
  let address ← s.dag inVar
  let s := s.modifyNode address fun n => { n with
    conditionalConstraints := n.conditionalConstraints.modify (s.indexOf condition)
      (· ++ [(fromVar, toVar)]) }
  propagateNodeChanges iterate findPath steps s address

def addSubseteqConstraint (steps : Nat) (s : CubicSolver V E) (fromVar toVar : V) :
    Option (CubicSolver V E) :=
  let s := (s.addEmptyVariableIfNecessary fromVar).addEmptyVariableIfNecessary toVar
  activateConditionalConstraint iterate findPath steps s fromVar toVar

end

end CubicSolver

end Topc
