import Mathlib.Algebra.Order.BigOperators.Group.List
import Mathlib.Algebra.Order.Ring.Nat
import Topc.Solver.CubicSolver.Activation

/-! # Propagation ends and delivers

Propagation first activates what waits for the elements of a node, then passes
the elements on. Activations leave fewer waiting inclusions or fewer nodes. A
step that leaves the edges alone goes down in the acyclic graph. -/

namespace Topc

namespace CubicSolver

variable {V E : Type} [DecidableEq V]

/-! ## The two loops of propagation -/

section

variable (iterate : List Nat → List Nat) (findPath : CubicSolver V E → Nat → Nat → List Nat)

/-- Forget the inclusions that wait at a node for an element. -/
def clearWaiting (s : CubicSolver V E) (n index : Nat) : CubicSolver V E :=
  s.modifyNode n fun m =>
    { m with conditionalConstraints := m.conditionalConstraints.set index [] }

/-- The activations for one element. -/
def activateAt (steps n : Nat) (s : CubicSolver V E) (index : Nat) : Option (CubicSolver V E) :=
  if s.bit n index then
    (s.waiting n index).foldlM (fun s pair =>
      s.activateConditionalConstraint iterate findPath steps pair.1 pair.2)
      (s.clearWaiting n index)
  else some s

/-- Add the elements of one node to another. -/
def addBits (s : CubicSolver V E) (n sups : Nat) : CubicSolver V E :=
  s.modifyNode sups fun m => { m with bitvector := orBits m.bitvector (s.node n).bitvector }

/-- Pass the elements of a node on to a superset. -/
def passTo (steps n : Nat) (s : CubicSolver V E) (sups : Nat) : Option (CubicSolver V E) :=
  (s.addBits n sups).propagateNodeChanges iterate findPath steps sups

theorem propagateNodeChanges_succ (steps : Nat) (s : CubicSolver V E) (n : Nat) :
    s.propagateNodeChanges iterate findPath (steps + 1) n =
      (List.range (s.node n).bitvector.length).foldlM (activateAt iterate findPath steps n) s >>=
        fun s => (iterate (s.node n).supsets).foldlM (passTo iterate findPath steps n) s := by
  rw [propagateNodeChanges]
  rfl

end

/-! ## Activations -/

omit [DecidableEq V]

theorem clearWaiting_node (s : CubicSolver V E) (n index address : Nat) :
    (s.clearWaiting n index).node address = { s.node address with
      conditionalConstraints := if address = n
        then (s.node address).conditionalConstraints.set index []
        else (s.node address).conditionalConstraints } := by
  rw [clearWaiting, modifyNode_node]
  by_cases same : address = n
  · subst same
    simp
  · simp [same]

theorem clearWaiting_sameShape (s : CubicSolver V E) (n index : Nat) :
    SameShape s (s.clearWaiting n index) where
  fmapping := rfl
  dagmapping := rfl
  allocated := rfl
  supsets address := by rw [clearWaiting_node]
  subsets address := by rw [clearWaiting_node]
  bits address := by rw [clearWaiting_node]
  waits address := by
    rw [clearWaiting_node]
    dsimp only
    split
    · exact List.length_set
    · rfl

theorem clearWaiting_waiting (s : CubicSolver V E) (n index address other : Nat) :
    (s.clearWaiting n index).waiting address other =
      if address = n ∧ other = index then [] else s.waiting address other := by
  rw [waiting, waiting, clearWaiting_node]
  dsimp only
  by_cases isNode : address = n
  · rw [if_pos isNode, List.getElem?_set]
    by_cases isIndex : other = index
    · rw [if_pos (And.intro isNode isIndex), if_pos isIndex.symm]
      split <;> rfl
    · rw [if_neg (Ne.symm isIndex), if_neg fun both => isIndex both.2]
  · rw [if_neg isNode, if_neg fun both => isNode both.1]

theorem sum_length_set {α : Type} (lists : List (List α)) (index : Nat) :
    ((lists.set index []).map List.length).sum + (lists[index]?.getD []).length =
      (lists.map List.length).sum := by
  induction lists generalizing index with
  | nil => rfl
  | cons list lists induction =>
      cases index with
      | zero => simp [Nat.add_comm]
      | succ index =>
          have rest := induction index
          simp only [List.set_cons_succ, List.map_cons, List.sum_cons, List.getElem?_cons_succ]
          omega

theorem clearWaiting_work {s : CubicSolver V E} {n index : Nat} (known : n < s.allocated)
    (waits : s.waiting n index ≠ []) : (s.clearWaiting n index).work < s.work := by
  refine Prod.Lex.toLex_lt_toLex.mpr (.inr ⟨rfl, ?_⟩)
  have atNode := sum_length_set (s.node n).conditionalConstraints index
  have nonempty : 0 < ((s.node n).conditionalConstraints[index]?.getD []).length :=
    List.length_pos_iff.mpr waits
  apply List.sum_lt_sum
  · intro address _
    rw [clearWaiting_node]
    dsimp only
    split
    · rename_i isNode
      subst isNode
      omega
    · exact Nat.le_refl _
  · refine ⟨n, List.mem_range.mpr known, ?_⟩
    rw [clearWaiting_node]
    simp only [if_true]
    omega

/-- Forgetting what waits nowhere changes nothing. -/
theorem clearWaiting_work_of_empty {s : CubicSolver V E} {n index : Nat}
    (waits : s.waiting n index = []) : (s.clearWaiting n index).work = s.work := by
  have samePending : (s.clearWaiting n index).pendingCount = s.pendingCount := by
    rw [pendingCount, pendingCount]
    congr 1
    apply List.map_congr_left
    intro address _
    rw [clearWaiting_node]
    dsimp only
    split
    · rename_i isNode
      subst isNode
      have atNode := sum_length_set (s.node address).conditionalConstraints index
      rw [waiting] at waits
      rw [waits] at atNode
      exact atNode
    · rfl
  rw [work, work, samePending]
  rfl

theorem clearWaiting_bit (s : CubicSolver V E) (n index address other : Nat) :
    (s.clearWaiting n index).bit address other = s.bit address other := by
  rw [bit, bit, clearWaiting_node]

theorem Consistent.clearWaiting {s : CubicSolver V E} (consistent : s.Consistent) (n index : Nat) :
    (s.clearWaiting n index).Consistent := by
  apply (clearWaiting_sameShape s n index).consistent consistent
  · intro address other pair member
    rw [clearWaiting_waiting] at member
    split at member
    · cases member
    · exact consistent.waiting_known address other pair member
  · intro address unknown other
    have empty := consistent.fresh address unknown other
    rw [clearWaiting_bit, clearWaiting_waiting]
    refine ⟨empty.1, ?_⟩
    split
    · rfl
    · exact empty.2

theorem Consistent.clearWaiting_advances {s : CubicSolver V E} (consistent : s.Consistent)
    (n index : Nat) : s.graph.Advances (s.clearWaiting n index).graph := by
  apply (clearWaiting_sameShape s n index).advances consistent.toWellFormed
  · exact clearWaiting_bit s n index
  · intro address other pair member
    rw [clearWaiting_waiting] at member
    split at member
    · cases member
    · exact member

/-! ## Passing on -/

theorem addBits_node (s : CubicSolver V E) (n sups address : Nat) :
    (s.addBits n sups).node address = { s.node address with
      bitvector := if address = sups then orBits (s.node address).bitvector (s.node n).bitvector
        else (s.node address).bitvector } := by
  rw [addBits, modifyNode_node]
  by_cases same : address = sups
  · subst same
    simp
  · simp [same]

theorem addBits_sameShape (s : CubicSolver V E) (n sups : Nat) :
    SameShape s (s.addBits n sups) where
  fmapping := rfl
  dagmapping := rfl
  allocated := rfl
  supsets address := by rw [addBits_node]
  subsets address := by rw [addBits_node]
  bits address := by
    rw [addBits_node]
    dsimp only
    split
    · rw [orBits, List.length_mapIdx]
    · rfl
  waits address := by rw [addBits_node]

theorem addBits_waiting (s : CubicSolver V E) (n sups address index : Nat) :
    (s.addBits n sups).waiting address index = s.waiting address index := by
  rw [waiting, waiting, addBits_node]

theorem addBits_bit_of_ne (s : CubicSolver V E) (n : Nat) {sups address : Nat}
    (other : address ≠ sups) (index : Nat) :
    (s.addBits n sups).bit address index = s.bit address index := by
  rw [bit, bit, addBits_node]
  dsimp only
  rw [if_neg other]

theorem addBits_grows {s : CubicSolver V E} (n sups : Nat) {address index : Nat}
    (held : s.bit address index = true) : (s.addBits n sups).bit address index = true := by
  rw [bit, addBits_node]
  dsimp only
  split
  · exact orBits_of_target held
  · exact held

theorem WellFormed.addBits_passes {s : CubicSolver V E} (wellFormed : s.WellFormed) {n sups : Nat}
    {index : Nat} (held : s.bit n index = true) : (s.addBits n sups).bit sups index = true := by
  rw [bit, addBits_node]
  dsimp only
  rw [if_pos rfl]
  refine orBits_of_source ?_ held
  rw [wellFormed.sized, ← wellFormed.sized n]
  by_contra outside
  rw [bit, List.getElem?_eq_none (Nat.le_of_not_lt outside)] at held
  cases held

theorem Consistent.addBits {s : CubicSolver V E} (consistent : s.Consistent) (n : Nat)
    {sups : Nat} (known : sups < s.allocated) : (s.addBits n sups).Consistent := by
  apply (addBits_sameShape s n sups).consistent consistent
  · intro address index pair member
    rw [addBits_waiting] at member
    exact consistent.waiting_known address index pair member
  · intro address unknown index
    have other : address ≠ sups := by
      rintro rfl
      exact absurd known (Nat.not_lt.mpr unknown)
    rw [addBits_bit_of_ne s n other, addBits_waiting]
    exact consistent.fresh address unknown index

theorem Consistent.addBits_touches {s : CubicSolver V E} (consistent : s.Consistent)
    (n sups : Nat) : s.graph.Touches sups (s.addBits n sups).graph := by
  apply (addBits_sameShape s n sups).touches consistent.toWellFormed
  · exact fun address index held => addBits_grows n sups held
  · intro address other index held
    rw [addBits_bit_of_ne s n other] at held
    exact held
  · intro address _ index pair member
    rw [addBits_waiting] at member
    exact member

theorem addBits_work (s : CubicSolver V E) (n sups : Nat) :
    (s.addBits n sups).work = s.work := by
  have samePending : (s.addBits n sups).pendingCount = s.pendingCount := by
    rw [pendingCount, pendingCount]
    simp only [addBits_node]
    rfl
  rw [work, work, samePending]
  rfl

variable [DecidableEq V]

section

variable {iterate : List Nat → List Nat} {findPath : CubicSolver V E → Nat → Nat → List Nat}

/-- One superset gets the elements of the node and passes them on. -/
theorem passTo_converges {s : CubicSolver V E} (consistent : s.Consistent) {n sups : Nat}
    (known : sups < s.allocated)
    (propagates : PropagationConverges iterate findPath (s.addBits n sups) sups) :
    ∃ s', Fuel.Converges (fun steps => s.passTo iterate findPath steps n sups) s' ∧
      Continues s s' ∧ Progress s s' ∧ s'.graph.Delivered sups ∧
      ∀ index, s.bit n index = true → s'.bit sups index = true := by
  rcases propagates with ⟨s', converges, propagated⟩
  have touches := consistent.addBits_touches n sups
  refine ⟨s', converges, ⟨propagated.consistent, ?_, ?_, ?_⟩, ?_, propagated.delivered, ?_⟩
  · exact (addBits_sameShape s n sups).variables.trans propagated.sameVariables
  · exact touches.advances propagated.advances propagated.delivered consistent.graph
      (consistent.addBits n known).graph known
  · intro address live index pair member
    rw [← addBits_waiting s n sups] at member
    exact propagated.keepsTasks address live index pair member
  · have kept : Progress s (s.addBits n sups) :=
      .inr ⟨addBits_work s n sups, (addBits_sameShape s n sups).supsets⟩
    exact kept.trans propagated.progress
  · intro index held
    exact propagated.advances.evolves.grows (consistent.addBits_passes held)

/-- The invariant of the loop over the supersets. -/
structure Passing (n : Nat) (targets done : List Nat) (s s' : CubicSolver V E) : Prop
    extends Continues s s' where
  progress : Progress s s'
  passing : s'.graph.Delivered n ∨ s'.graph.PassingOn (· ∈ targets) (· ∈ done) n

theorem Passing.step {s mid s' : CubicSolver V E} {n item : Nat} {targets done : List Nat}
    (passed : Passing n targets done s mid) (consistent : s.Consistent) (known : n < s.allocated)
    (targetsKnown : ∀ target ∈ targets, target < s.allocated) (doneTargets : done ⊆ targets)
    (continued : Continues mid s') (progress : Progress mid s')
    (delivered : s'.graph.Delivered item)
    (handed : ∀ index, mid.bit n index = true → s'.bit item index = true) :
    Passing n targets (done ++ [item]) s s' where
  toContinues := passed.toContinues.trans continued consistent
  progress := passed.progress.trans progress
  passing := by
    have midConsistent := passed.consistent
    have sameAllocated := passed.sameVariables.allocated
    have known' : n < mid.allocated := sameAllocated ▸ known
    have targetsKnown' : ∀ target ∈ targets, target < mid.allocated :=
      fun target member => sameAllocated ▸ targetsKnown target member
    rcases passed.passing with finished | passing
    · exact .inl (continued.advances.delivered midConsistent.graph continued.consistent.graph
        midConsistent.acyclic known' finished)
    · rcases continued.advances.keeps known' with finished | unchanged
      · exact .inl finished
      · rcases passing.advance continued.advances midConsistent.graph continued.consistent.graph
          midConsistent.acyclic known' targetsKnown' doneTargets with finished | further
        · exact .inl finished
        · refine .inr ⟨further.idle, further.leads, further.led, ?_, ?_⟩
          · intro target index isDone held
            rcases List.mem_append.mp isDone with isDone | isItem
            · exact further.passed isDone held
            · rw [List.mem_singleton.mp isItem]
              exact delivered.handedOver (handed index (unchanged.holds held))
          · intro target isDone
            rcases List.mem_append.mp isDone with isDone | isItem
            · exact further.settled isDone
            · rw [List.mem_singleton.mp isItem]
              exact delivered.settled

/-- The invariant of the loop over waiting inclusions. -/
structure Activating (done : List (V × V)) (s s' : CubicSolver V E) : Prop
    extends Continues s s' where
  linked : ∀ pair ∈ done, s'.Linked pair
  work : s'.work ≤ s.work

/-- What the activations for one element do. -/
structure Activated (n index : Nat) (s s' : CubicSolver V E) : Prop
    extends Continues s s' where
  progress : Progress s s'
  cleared : s'.graph.Cleared n (· = index)

/-- Forgetting what waits and activating it make one step. -/
theorem Activating.activated {s s' : CubicSolver V E} {n index : Nat}
    (activating : Activating (s.waiting n index) (s.clearWaiting n index) s')
    (consistent : s.Consistent) (known : n < s.allocated)
    (idle : s.waiting n index = [] → s' = s.clearWaiting n index) : Activated n index s s' := by
  have cleared := consistent.clearWaiting n index
  have clears := consistent.clearWaiting_advances n index
  refine ⟨⟨activating.consistent, ?_, ?_, ?_⟩, ?_, ?_⟩
  · exact (clearWaiting_sameShape s n index).variables.trans activating.sameVariables
  · exact clears.trans activating.advances consistent.graph cleared.graph
      activating.consistent.graph cleared.acyclic
  · intro address live other pair member
    by_cases isCleared : address = n ∧ other = index
    · right
      apply activating.linked
      rw [← isCleared.1, ← isCleared.2]
      exact member
    · apply activating.keepsTasks address live other pair
      rw [clearWaiting_waiting, if_neg isCleared]
      exact member
  · by_cases waits : s.waiting n index = []
    · rw [idle waits]
      exact .inr ⟨clearWaiting_work_of_empty waits, (clearWaiting_sameShape s n index).supsets⟩
    · exact .inl (lt_of_le_of_lt activating.work (clearWaiting_work known waits))
  · have started : (s.clearWaiting n index).graph.Cleared n (· = index) := by
      refine .inr fun _ other isIndex _ task waits => ?_
      change task ∈ (s.clearWaiting n index).waiting n other at waits
      rw [clearWaiting_waiting, if_pos ⟨rfl, isIndex⟩] at waits
      cases waits
    exact started.advance activating.advances cleared.graph activating.consistent.graph
      cleared.acyclic known

variable (permutes : ∀ nodes, (iterate nodes).Perm nodes) (finds : FindsPaths findPath)

include permutes finds

/-- The activations for one element end when propagation with less work does. -/
theorem activateAt_converges {s : CubicSolver V E} (consistent : s.Consistent) {n : Nat}
    (known : n < s.allocated)
    (propagates : ∀ (s' : CubicSolver V E) n, s'.Consistent → n < s'.allocated →
      s'.work < s.work → PropagationConverges iterate findPath s' n) (index : Nat) :
    ∃ s', Fuel.Converges (fun steps => s.activateAt iterate findPath steps n index) s' ∧
      Activated n index s s' := by
  by_cases set : s.bit n index = true
  · have cleared := consistent.clearWaiting n index
    have activates : ∃ s', Fuel.Converges (fun steps =>
          (s.waiting n index).foldlM (fun s pair =>
            s.activateConditionalConstraint iterate findPath steps pair.1 pair.2)
            (s.clearWaiting n index)) s' ∧
        Activating (s.waiting n index) (s.clearWaiting n index) s' ∧
        (s.waiting n index = [] → s' = s.clearWaiting n index) := by
      apply Fuel.exists_converges_foldlM fun done s' =>
        Activating done (s.clearWaiting n index) s' ∧ (done = [] → s' = s.clearWaiting n index)
      · exact ⟨⟨.refl cleared, nofun, le_refl _⟩, fun _ => rfl⟩
      rintro done pair rest middle split ⟨activating, _⟩
      have member : pair ∈ s.waiting n index := by
        rw [split]
        simp
      have less : (s.clearWaiting n index).work < s.work :=
        clearWaiting_work known (List.ne_nil_of_mem member)
      have pairKnown := consistent.waiting_known n index pair member
      have sameKeys : middle.dagmapping.map Prod.fst = s.dagmapping.map Prod.fst :=
        activating.sameVariables.dagmapping
      rcases activate_converges permutes finds activating.consistent
        (sameKeys ▸ pairKnown.1) (sameKeys ▸ pairKnown.2)
        (fun s' n consistent' known' work' => propagates s' n consistent' known'
          (lt_of_le_of_lt (le_trans work' activating.work) less)) with
        ⟨next, converges, continued, linked, nextWork⟩
      refine ⟨next, converges, ⟨activating.toContinues.trans continued cleared, ?_,
        le_trans nextWork activating.work⟩, by simp⟩
      intro other otherMem
      rcases List.mem_append.mp otherMem with earlier | isPair
      · exact (activating.linked other earlier).evolve activating.consistent.toWellFormed
          continued.consistent.toWellFormed continued.sameVariables continued.advances.evolves
      · rw [List.mem_singleton.mp isPair]
        exact linked
    rcases activates with ⟨s', converges, activating, idle⟩
    refine ⟨s', ?_, activating.activated consistent known idle⟩
    simp only [activateAt, set, if_true]
    exact converges
  · refine ⟨s, ?_, .refl consistent, .refl s, .inr fun _ other isIndex held => ?_⟩
    · simp only [activateAt, if_neg set]
      exact Fuel.converges_some s
    · rw [isIndex] at held
      exact absurd held set

/-- The loop over the elements ends, and no inclusion waits for one that is there. -/
theorem activations_converge {s : CubicSolver V E} (consistent : s.Consistent) {n : Nat}
    (known : n < s.allocated)
    (propagates : ∀ (s' : CubicSolver V E) n, s'.Consistent → n < s'.allocated →
      s'.work < s.work → PropagationConverges iterate findPath s' n) (indices : List Nat) :
    ∃ s', Fuel.Converges (fun steps =>
        indices.foldlM (activateAt iterate findPath steps n) s) s' ∧
      Continues s s' ∧ Progress s s' ∧ s'.graph.Cleared n (· ∈ indices) := by
  apply Fuel.exists_converges_foldlM fun done s' =>
    Continues s s' ∧ Progress s s' ∧ s'.graph.Cleared n (· ∈ done)
  · exact ⟨.refl consistent, .refl s, .inr fun _ _ isDone => by cases isDone⟩
  · rintro done index rest middle _ ⟨continued, progress, cleared⟩
    have known' : n < middle.allocated := continued.sameVariables.allocated ▸ known
    rcases activateAt_converges permutes finds continued.consistent known'
      (fun s' n consistent' known' work' => propagates s' n consistent' known'
        (lt_of_lt_of_le work' progress.le)) index with ⟨next, converges, activated⟩
    refine ⟨next, converges, continued.trans activated.toContinues consistent,
      progress.trans activated.progress, ?_⟩
    have stillCleared := cleared.advance activated.advances continued.consistent.graph
      activated.consistent.graph continued.consistent.acyclic known'
    rcases stillCleared with delivered | earlier
    · exact .inl delivered
    · rcases activated.cleared with delivered | now
      · exact .inl delivered
      · refine .inr fun live other isDone => ?_
        rcases List.mem_append.mp isDone with isDone | isIndex
        · exact earlier live other isDone
        · exact now live other (List.mem_singleton.mp isIndex)

omit finds in
/-- When no inclusion waits for an element of a node it can be passed on. -/
theorem Consistent.passing {s : CubicSolver V E} (consistent : s.Consistent) {n length : Nat}
    (enough : (s.node n).bitvector.length = length)
    (cleared : s.graph.Cleared n (· ∈ List.range length)) :
    Passing n (iterate (s.node n).supsets) [] s s := by
  refine ⟨.refl consistent, .refl s, ?_⟩
  rcases cleared with delivered | cleared
  · exact .inl delivered
  · refine .inr ⟨fun {index task} live held => ?_, fun {next} live edge => ?_, ?_, nofun, nofun⟩
    · apply cleared live index ?_ held
      rw [List.mem_range, ← enough]
      by_contra outside
      change s.bit n index = true at held
      rw [bit, List.getElem?_eq_none (Nat.le_of_not_lt outside)] at held
      cases held
    · exact ⟨next, (permutes _).mem_iff.mpr edge,
        consistent.representative_of_live next (consistent.live_of_edge n live next edge)⟩
    · exact fun _ edge => (permutes _).mem_iff.mpr edge

/-- Propagation from a node ends if it does with less work, and with the same work
and edges from each superset. -/
theorem propagates_of_lower {s : CubicSolver V E} (consistent : s.Consistent) {n : Nat}
    (known : n < s.allocated)
    (lower : ∀ (s' : CubicSolver V E) other, s'.Consistent → other < s'.allocated →
      s'.work < s.work → PropagationConverges iterate findPath s' other)
    (supsets : ∀ (s' : CubicSolver V E), ∀ sups ∈ (s.node n).supsets, s'.Consistent →
      sups < s'.allocated → s'.work = s.work →
      (∀ address, (s'.node address).supsets = (s.node address).supsets) →
      PropagationConverges iterate findPath s' sups) : PropagationConverges iterate findPath s n := by
  rcases activations_converge permutes finds consistent known lower
    (List.range (s.node n).bitvector.length) with ⟨middle, activates, continued, progress, cleared⟩
  have midConsistent := continued.consistent
  have sameAllocated := continued.sameVariables.allocated
  have sameLength : (middle.node n).bitvector.length = (s.node n).bitvector.length := by
    rw [midConsistent.sized, consistent.sized, continued.sameVariables.fmapping]
  have passes : ∃ s', Fuel.Converges (fun steps =>
        (iterate (middle.node n).supsets).foldlM (passTo iterate findPath steps n) middle) s' ∧
      Passing n (iterate (middle.node n).supsets) (iterate (middle.node n).supsets)
        middle s' := by
    apply Fuel.exists_converges_foldlM fun done s' =>
      Passing n (iterate (middle.node n).supsets) done middle s'
    · exact midConsistent.passing permutes sameLength cleared
    · intro done sups rest s' split passed
      have isTarget : sups ∈ iterate (middle.node n).supsets := by
        rw [split]
        simp
      have edge := (permutes _).mem_iff.mp isTarget
      have supsKnown := (midConsistent.edge_known n sups edge).2
      have supsKnown' : sups < s'.allocated := passed.sameVariables.allocated ▸ supsKnown
      have propagates : PropagationConverges iterate findPath (s'.addBits n sups) sups := by
        have sameWork := addBits_work s' n sups
        have added := passed.consistent.addBits n supsKnown'
        have addedKnown : sups < (s'.addBits n sups).allocated := supsKnown'
        have sameEdges := (addBits_sameShape s' n sups).supsets
        rcases progress.trans passed.progress with less | ⟨same, edges⟩
        · exact lower _ sups added addedKnown (sameWork ▸ less)
        · rcases progress with less | ⟨_, midEdges⟩
          · have less' := lt_of_le_of_lt passed.progress.le less
            exact absurd same (ne_of_lt less')
          · rw [midEdges] at edge
            exact supsets _ sups edge added addedKnown (sameWork.trans same)
              fun address => (sameEdges address).trans (edges address)
      rcases passTo_converges passed.consistent supsKnown' propagates with
        ⟨next, converges, further, nextProgress, delivered, handed⟩
      refine ⟨next, converges, passed.step midConsistent (sameAllocated ▸ known) ?_ ?_ further
        nextProgress delivered handed⟩
      · exact fun target member =>
          (midConsistent.edge_known n target ((permutes _).mem_iff.mp member)).2
      · intro target member
        rw [split]
        exact List.mem_append_left _ member
  rcases passes with ⟨s', passesOn, passed⟩
  refine ⟨s', Fuel.Converges.of_succ ?_, continued.trans passed.toContinues consistent, ?_,
    progress.trans passed.progress⟩
  · simp only [propagateNodeChanges_succ]
    exact activates.bind passesOn
  · rcases passed.passing with delivered | passing
    · exact delivered
    · apply passing.delivered passed.consistent.graph
      apply passed.consistent.edge_of_merged
      rw [passed.sameVariables.allocated, sameAllocated]
      exact known

/-- Propagation ends from every node of a consistent solver. The recursion goes down
in the work left, and at equal work along the edges. -/
theorem propagation_converges {s : CubicSolver V E} (consistent : s.Consistent) {n : Nat}
    (known : n < s.allocated) : PropagationConverges iterate findPath s n := by
  induction amount : s.work using WellFoundedLT.induction generalizing s n with
  | ind size induction =>
      have sameEdges : ∀ node, ∀ s' : CubicSolver V E, s'.Consistent → node < s'.allocated →
          s'.work = size →
          (∀ address, (s'.node address).supsets = (s.node address).supsets) →
          PropagationConverges iterate findPath s' node := by
        intro node
        induction node using consistent.acyclic.induction with
        | step node inner =>
            intro s' consistent' known' sameWork sameSupsets
            apply propagates_of_lower permutes finds consistent' known'
            · intro lower other lowerConsistent otherKnown less
              exact induction lower.work (sameWork ▸ less) lowerConsistent otherKnown rfl
            · intro next sups edge nextConsistent supsKnown nextWork nextSupsets
              rw [sameSupsets] at edge
              exact inner sups edge next nextConsistent supsKnown (nextWork.trans sameWork)
                fun address => (nextSupsets address).trans (sameSupsets address)
      exact sameEdges n s consistent known amount fun _ => rfl

end

end CubicSolver

end Topc
