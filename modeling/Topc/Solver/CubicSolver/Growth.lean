import Topc.Solver.CubicSolver

/-! # Sets of the cubic solver only grow

Whatever the order of iteration and whatever paths are found, no operation
takes an element away from a variable. -/

namespace Topc

namespace CubicSolver

variable {V E : Type}

/-- All bitvectors have one bit for each element. -/
def Sized (s : CubicSolver V E) : Prop :=
  ∀ address, (s.node address).bitvector.length = s.fmapping.length

variable [DecidableEq V]

/-- Every variable keeps the elements it has. -/
structure Grows (before after : CubicSolver V E) : Prop where
  fmapping : after.fmapping = before.fmapping
  sized : before.Sized → after.Sized
  keeps : before.Sized → ∀ var address, before.dag var = some address →
    ∃ address', after.dag var = some address' ∧
      ∀ index, before.bit address index = true → after.bit address' index = true

theorem Grows.refl (s : CubicSolver V E) : Grows s s where
  fmapping := rfl
  sized sized := sized
  keeps _ _ address stored := ⟨address, stored, fun _ set => set⟩

theorem Grows.trans {first second third : CubicSolver V E} (left : Grows first second)
    (right : Grows second third) : Grows first third where
  fmapping := right.fmapping.trans left.fmapping
  sized sized := right.sized (left.sized sized)
  keeps sized var address stored := by
    rcases left.keeps sized var address stored with ⟨mid, midStored, midKeeps⟩
    rcases right.keeps (left.sized sized) var mid midStored with ⟨last, lastStored, lastKeeps⟩
    exact ⟨last, lastStored, fun index set => lastKeeps index (midKeeps index set)⟩

theorem Grows.mem_getElements {before after : CubicSolver V E} (grows : Grows before after)
    (sized : before.Sized) {var : V} {elem : E} (member : elem ∈ before.getElements var) :
    elem ∈ after.getElements var := by
  rw [getElements] at member ⊢
  cases stored : before.dag var with
  | none =>
      rw [stored] at member
      cases member
  | some address =>
      rw [stored] at member
      rcases grows.keeps sized var address stored with ⟨address', stored', keeps⟩
      rw [stored', grows.fmapping]
      rcases List.mem_map.mp member with ⟨entry, entryMem, rfl⟩
      rw [List.mem_filter] at entryMem
      exact List.mem_map.mpr ⟨entry, List.mem_filter.mpr ⟨entryMem.1, keeps _ entryMem.2⟩, rfl⟩

/-! ## Changes to one node -/

/-- A change to a node that clears no bit. -/
def KeepsBits (change : CubicSolverNode V → CubicSolverNode V) : Prop :=
  ∀ n : CubicSolverNode V, (change n).bitvector.length = n.bitvector.length ∧
    ∀ index : Nat, n.bitvector[index]?.getD false = true →
      (change n).bitvector[index]?.getD false = true

omit [DecidableEq V] in
@[simp] theorem modifyNode_node (s : CubicSolver V E) (address : Nat)
    (change : CubicSolverNode V → CubicSolverNode V) :
    (s.modifyNode address change).node =
      Function.update s.node address (change (s.node address)) :=
  rfl

theorem modifyNode_grows (s : CubicSolver V E) (address : Nat)
    {change : CubicSolverNode V → CubicSolverNode V} (keepsBits : KeepsBits change) :
    Grows s (s.modifyNode address change) where
  fmapping := rfl
  sized sized other := by
    rw [modifyNode_node]
    by_cases same : other = address
    · subst same
      rw [Function.update_self, (keepsBits _).1]
      exact sized other
    · rw [Function.update_of_ne same]
      exact sized other
  keeps _ var other stored := by
    refine ⟨other, stored, fun index set => ?_⟩
    rw [bit, modifyNode_node]
    by_cases same : other = address
    · subst same
      rw [Function.update_self]
      exact (keepsBits _).2 index set
    · rw [Function.update_of_ne same]
      exact set

omit [DecidableEq V] in
theorem keepsBits_of_eq {change : CubicSolverNode V → CubicSolverNode V}
    (same : ∀ n, (change n).bitvector = n.bitvector) : KeepsBits change := by
  intro n
  rw [same]
  exact ⟨rfl, fun _ set => set⟩

theorem orBits_of_target {target source : List Bool} {index : Nat}
    (set : target[index]?.getD false = true) :
    (orBits target source)[index]?.getD false = true := by
  rw [orBits, List.getElem?_mapIdx]
  cases found : target[index]? with
  | none => simp [found] at set
  | some value => simp_all

theorem orBits_of_source {target source : List Bool} {index : Nat}
    (bound : index < target.length) (set : source[index]?.getD false = true) :
    (orBits target source)[index]?.getD false = true := by
  rw [orBits, List.getElem?_mapIdx, List.getElem?_eq_getElem bound]
  simp [set]

omit [DecidableEq V] in
theorem keepsBits_orBits (source : List Bool) :
    KeepsBits fun n : CubicSolverNode V => { n with bitvector := orBits n.bitvector source } :=
  fun n => ⟨by simp [orBits], fun _ => orBits_of_target⟩

/-! ## Loops -/

theorem foldl_grows {step : CubicSolver V E → α → CubicSolver V E}
    (grows : ∀ s item, Grows s (step s item)) (items : List α) :
    ∀ s, Grows s (items.foldl step s) := by
  induction items with
  | nil => exact Grows.refl
  | cons item items induction =>
      intro s
      exact (grows s item).trans (induction (step s item))

theorem foldlM_grows {step : CubicSolver V E → α → Option (CubicSolver V E)}
    (grows : ∀ s item s', step s item = some s' → Grows s s') (items : List α) :
    ∀ {s s'}, items.foldlM step s = some s' → Grows s s' := by
  induction items with
  | nil =>
      intro s s' result
      cases result
      exact .refl s
  | cons item items induction =>
      intro s s' result
      rw [List.foldlM_cons, Option.bind_eq_bind, Option.bind_eq_some_iff] at result
      rcases result with ⟨mid, first, rest⟩
      exact (grows s item mid first).trans (induction rest)

/-! ## Operations -/

/-- A merge keeps the elements of both nodes at the first. -/
theorem mergeBits_grows (s : CubicSolver V E) (n1 n2 : Nat) :
    Grows s (modifyNode { s with dagmapping := s.dagmapping.map fun (entry : V × Nat) =>
        if entry.2 = n2 then (entry.1, n1) else entry } n1 fun target => { target with
      bitvector := orBits target.bitvector (s.node n2).bitvector
      conditionalConstraints := target.conditionalConstraints.mapIdx fun index waiting =>
        waiting ++ (s.node n2).conditionalConstraints[index]?.getD [] }) where
  fmapping := rfl
  sized sized other := by
    rw [modifyNode_node]
    by_cases same : other = n1
    · subst same
      rw [Function.update_self]
      simpa [orBits, modifyNode] using sized other
    · rw [Function.update_of_ne same]
      exact sized other
  keeps sized var address stored := by
    refine ⟨if address = n2 then n1 else address, ?_, ?_⟩
    · rw [dag, Option.map_eq_some_iff] at stored
      rcases stored with ⟨entry, found, rfl⟩
      rw [dag, modifyNode, List.find?_map]
      have sameKey : ((fun entry : V × Nat => decide (entry.1 = var)) ∘
          fun entry : V × Nat => if entry.2 = n2 then (entry.1, n1) else entry) =
          fun entry => decide (entry.1 = var) := by
        funext other
        dsimp only [Function.comp_apply]
        split <;> rfl
      rw [sameKey, found]
      simp only [Option.map_some, Option.some.injEq]
      split <;> rfl
    · intro index set
      have bound : index < (s.node n1).bitvector.length := by
        rw [sized n1, ← sized address]
        by_contra outside
        rw [bit, List.getElem?_eq_none (Nat.le_of_not_lt outside)] at set
        cases set
      rw [bit, modifyNode_node]
      by_cases merged : address = n2
      · subst merged
        rw [if_pos rfl, Function.update_self]
        exact orBits_of_source bound set
      · rw [if_neg merged]
        by_cases same : address = n1
        · subst same
          rw [Function.update_self]
          exact orBits_of_target set
        · rw [Function.update_of_ne same]
          exact set

theorem mergeNodes_grows (s : CubicSolver V E) (n1 n2 : Nat) : Grows s (s.mergeNodes n1 n2) := by
  unfold mergeNodes
  dsimp only
  refine Grows.trans (Grows.trans (Grows.trans (mergeBits_grows s n1 n2)
    (foldl_grows (fun s a => ?_) _ _)) (foldl_grows (fun s a => ?_) _ _)) (modifyNode_grows _ n1 ?_)
  · refine Grows.trans (modifyNode_grows s a ?_) (modifyNode_grows _ n1 ?_)
    · exact keepsBits_of_eq fun _ => rfl
    · exact keepsBits_of_eq fun _ => rfl
  · refine Grows.trans (modifyNode_grows s a ?_) (modifyNode_grows _ n1 ?_)
    · exact keepsBits_of_eq fun _ => rfl
    · exact keepsBits_of_eq fun _ => rfl
  · exact keepsBits_of_eq fun _ => rfl

theorem mergePath_grows (s : CubicSolver V E) (path : List Nat) : Grows s (s.mergePath path) := by
  cases path with
  | nil => exact .refl s
  | cons last rest => exact foldl_grows (fun s b => mergeNodes_grows s last b) rest s

section

variable {iterate : List Nat → List Nat} {findPath : CubicSolver V E → Nat → Nat → List Nat}

theorem killCyclesAt_grows (rounds : Nat) : ∀ {s s' : CubicSolver V E} {n : Nat},
    killCyclesAt iterate findPath rounds s n = some s' → Grows s s' := by
  induction rounds with
  | zero => exact nofun
  | succ rounds induction =>
      intro s s' n result
      rw [killCyclesAt] at result
      split at result
      · cases result
        exact .refl s
      · exact (mergePath_grows s _).trans (induction result)

theorem link_grows {s s' : CubicSolver V E} {steps fromNode toNode : Nat}
    (result : s.link iterate findPath steps fromNode toNode = some s') : Grows s s' := by
  refine Grows.trans (Grows.trans (modifyNode_grows s fromNode ?_)
    (modifyNode_grows _ toNode ?_)) (killCyclesAt_grows steps result)
  · exact keepsBits_of_eq fun _ => rfl
  · exact keepsBits_of_eq fun _ => rfl

/-- What propagation with so many steps does. -/
def PropagationGrows (iterate : List Nat → List Nat)
    (findPath : CubicSolver V E → Nat → Nat → List Nat) (steps : Nat) : Prop :=
  (∀ s s' n, propagateNodeChanges iterate findPath steps s n = some s' → Grows s s') ∧
    ∀ s s' fromVar toVar,
      activateConditionalConstraint iterate findPath steps s fromVar toVar = some s' → Grows s s'

theorem propagationGrows (steps : Nat) : PropagationGrows (E := E) iterate findPath steps := by
  induction steps with
  | zero => exact ⟨nofun, nofun⟩
  | succ steps induction =>
      rcases induction with ⟨propagateGrows, activateGrows⟩
      constructor
      · intro s s' n result
        rw [propagateNodeChanges, Option.bind_eq_bind, Option.bind_eq_some_iff] at result
        rcases result with ⟨mid, activated, passedOn⟩
        refine (foldlM_grows (fun s i s' step => ?_) _ activated).trans
          (foldlM_grows (fun s sups s' step => ?_) _ passedOn)
        · split at step
          · refine (modifyNode_grows s n ?_).trans (foldlM_grows (fun s pair s' step => ?_) _ step)
            · exact keepsBits_of_eq fun _ => rfl
            · exact activateGrows s s' pair.1 pair.2 step
          · cases step
            exact .refl s
        · exact (modifyNode_grows s sups (keepsBits_orBits _)).trans
            (propagateGrows _ _ sups step)
      · intro s s' fromVar toVar result
        rw [activateConditionalConstraint, Option.bind_eq_bind, Option.bind_eq_some_iff] at result
        rcases result with ⟨fromNode, _, result⟩
        rw [Option.bind_eq_bind, Option.bind_eq_some_iff] at result
        rcases result with ⟨toNode, _, result⟩
        split at result
        · cases result
          exact .refl s
        · rw [Option.bind_eq_some_iff] at result
          rcases result with ⟨mid, linked, result⟩
          rw [Option.bind_eq_some_iff] at result
          rcases result with ⟨newFrom, _, result⟩
          exact (link_grows linked).trans (propagateGrows mid s' newFrom result)

theorem addEmptyVariableIfNecessary_grows (s : CubicSolver V E) (var : V) :
    Grows s (s.addEmptyVariableIfNecessary var) := by
  rw [addEmptyVariableIfNecessary]
  split
  · exact .refl s
  · refine ⟨rfl, fun sized => sized, fun _ other address stored => ⟨address, ?_, fun _ set => set⟩⟩
    rw [dag, Option.map_eq_some_iff] at stored ⊢
    rcases stored with ⟨entry, found, rfl⟩
    exact ⟨entry, by rw [List.find?_append, found]; rfl, rfl⟩

omit [DecidableEq V] in
theorem sized_create (elements : List E) : (create elements : CubicSolver V E).Sized := by
  intro address
  simp [create, emptyNode]

variable [DecidableEq E]

theorem addConditionalConstraint_grows {s s' : CubicSolver V E} {steps : Nat} {condition : E}
    {inVar fromVar toVar : V}
    (result : s.addConditionalConstraint iterate findPath steps condition inVar fromVar toVar =
      some s') : Grows s s' := by
  rw [addConditionalConstraint, Option.bind_eq_bind, Option.bind_eq_some_iff] at result
  rcases result with ⟨address, _, result⟩
  refine Grows.trans (Grows.trans (Grows.trans (Grows.trans
    (addEmptyVariableIfNecessary_grows s inVar) (addEmptyVariableIfNecessary_grows _ fromVar))
    (addEmptyVariableIfNecessary_grows _ toVar)) (modifyNode_grows _ address ?_))
    ((propagationGrows steps).1 _ _ _ result)
  exact keepsBits_of_eq fun _ => rfl

omit [DecidableEq E] in
theorem addSubseteqConstraint_grows {s s' : CubicSolver V E} {steps : Nat} {fromVar toVar : V}
    (result : s.addSubseteqConstraint iterate findPath steps fromVar toVar = some s') :
    Grows s s' := by
  refine Grows.trans (Grows.trans (addEmptyVariableIfNecessary_grows s fromVar)
    (addEmptyVariableIfNecessary_grows _ toVar)) ?_
  exact (propagationGrows steps).2 _ _ fromVar toVar result

omit [DecidableEq V] [DecidableEq E] in
theorem keepsBits_set (index : Nat) :
    KeepsBits fun n : CubicSolverNode V => { n with bitvector := n.bitvector.set index true } := by
  intro n
  refine ⟨List.length_set, fun other set => ?_⟩
  dsimp only
  rw [List.getElem?_set]
  split
  · rename_i same
    subst same
    split
    · rfl
    · rename_i outside
      rw [List.getElem?_eq_none (Nat.le_of_not_lt outside)] at set
      cases set
  · exact set

theorem addElementofConstraint_grows {s s' : CubicSolver V E} {steps : Nat} {elem : E} {var : V}
    (result : s.addElementofConstraint iterate findPath steps elem var = some s') :
    Grows s s' := by
  rw [addElementofConstraint, Option.bind_eq_bind, Option.bind_eq_some_iff] at result
  rcases result with ⟨address, _, result⟩
  exact Grows.trans (Grows.trans (addEmptyVariableIfNecessary_grows s var)
    (modifyNode_grows _ address (keepsBits_set _))) ((propagationGrows steps).1 _ _ _ result)

/-- An element that is put into a set is in it from then on. -/
theorem addElementofConstraint_mem {s s' : CubicSolver V E} {steps : Nat} {elem : E} {var : V}
    (result : s.addElementofConstraint iterate findPath steps elem var = some s')
    (sized : s.Sized) (known : ∃ index < s.fmapping.length, (elem, index) ∈ s.fmapping ∧
      s.indexOf elem = index) : elem ∈ s'.getElements var := by
  rw [addElementofConstraint, Option.bind_eq_bind, Option.bind_eq_some_iff] at result
  rcases result with ⟨address, stored, result⟩
  rcases known with ⟨index, bound, entryMem, isIndex⟩
  have entered := addEmptyVariableIfNecessary_grows s var
  have sameIndex : (s.addEmptyVariableIfNecessary var).indexOf elem = index := by
    rw [indexOf, entered.fmapping]
    exact isIndex
  rw [sameIndex] at result
  refine ((propagationGrows steps).1 _ _ _ result).mem_getElements
    ((modifyNode_grows _ address (keepsBits_set _)).sized (entered.sized sized)) ?_
  have stillStored : (modifyNode (s.addEmptyVariableIfNecessary var) address fun n =>
      { n with bitvector := n.bitvector.set index true }).dag var = some address := stored
  rw [getElements, stillStored]
  refine List.mem_map.mpr ⟨(elem, index), List.mem_filter.mpr ⟨?_, ?_⟩, rfl⟩
  · rw [modifyNode, entered.fmapping]
    exact entryMem
  · have inRange : index < ((s.addEmptyVariableIfNecessary var).node address).bitvector.length := by
      rw [entered.sized sized address, entered.fmapping]
      exact bound
    simp [bit, inRange]

end

end CubicSolver

end Topc
