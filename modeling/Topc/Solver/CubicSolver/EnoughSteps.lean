import Topc.Foundation.Fuel
import Topc.Solver.CubicSolver

/-! # More steps do not change what the cubic solver does -/

namespace Topc.CubicSolver

variable {V E : Type} [DecidableEq V] [DecidableEq E]

section

variable {iterate : List Nat → List Nat} {findPath : CubicSolver V E → Nat → Nat → List Nat}

omit [DecidableEq V] [DecidableEq E] in
theorem killCyclesAt_lasts (rounds : Nat) : ∀ {s s' : CubicSolver V E} {n : Nat},
    killCyclesAt iterate findPath rounds s n = some s' →
      killCyclesAt iterate findPath (rounds + 1) s n = some s' := by
  induction rounds with
  | zero => exact nofun
  | succ rounds induction =>
      intro s s' n result
      rw [killCyclesAt] at result ⊢
      cases cycle : (s.findCycle findPath n (iterate (s.node n).supsets)).reverse with
      | nil =>
          rw [cycle] at result
          exact result
      | cons last rest =>
          rw [cycle] at result
          exact induction result

variable (iterate findPath) in
/-- What propagation does with so many steps it does with one more. -/
def PropagationLasts (steps : Nat) : Prop :=
  (∀ s n s', propagateNodeChanges iterate findPath steps s n = some s' →
      propagateNodeChanges iterate findPath (steps + 1) s n = some s') ∧
    ∀ s fromVar toVar s', activateConditionalConstraint iterate findPath steps s fromVar toVar =
        some s' →
      activateConditionalConstraint iterate findPath (steps + 1) s fromVar toVar = some s'

omit [DecidableEq E] in
theorem propagationLasts (steps : Nat) : PropagationLasts iterate findPath steps := by
  induction steps with
  | zero => exact ⟨nofun, nofun⟩
  | succ steps induction =>
      rcases induction with ⟨propagates, activates⟩
      constructor
      · intro s n s' result
        rw [propagateNodeChanges, Option.bind_eq_bind, Option.bind_eq_some_iff] at result ⊢
        rcases result with ⟨middle, activated, passedOn⟩
        refine ⟨middle, ?_, ?_⟩
        · apply Fuel.foldlM_extends _ _ activated
          intro state i next ran
          split at ran
          · rename_i set
            rw [if_pos set]
            exact Fuel.foldlM_extends (fun state pair next => activates state pair.1 pair.2 next) _
              ran
          · rename_i unset
            rw [if_neg unset]
            exact ran
        · apply Fuel.foldlM_extends _ _ passedOn
          exact fun state sups next ran => propagates _ sups next ran
      · intro s fromVar toVar s' result
        rw [activateConditionalConstraint, Option.bind_eq_bind, Option.bind_eq_some_iff] at result ⊢
        rcases result with ⟨fromNode, fromStored, result⟩
        rw [Option.bind_eq_bind, Option.bind_eq_some_iff] at result
        rcases result with ⟨toNode, toStored, result⟩
        refine ⟨fromNode, fromStored, ?_⟩
        rw [Option.bind_eq_bind, Option.bind_eq_some_iff]
        refine ⟨toNode, toStored, ?_⟩
        split at result
        · rename_i same
          rw [if_pos same]
          exact result
        · rename_i different
          rw [if_neg different]
          rw [Option.bind_eq_some_iff] at result ⊢
          rcases result with ⟨linked, isLinked, result⟩
          rw [Option.bind_eq_some_iff] at result
          rcases result with ⟨newFrom, newStored, result⟩
          refine ⟨linked, killCyclesAt_lasts steps isLinked, ?_⟩
          rw [Option.bind_eq_some_iff]
          exact ⟨newFrom, newStored, propagates _ _ _ result⟩

theorem addElementofConstraint_lasts {steps : Nat} {s s' : CubicSolver V E} {elem : E} {var : V}
    (result : s.addElementofConstraint iterate findPath steps elem var = some s') :
    s.addElementofConstraint iterate findPath (steps + 1) elem var = some s' := by
  rw [addElementofConstraint, Option.bind_eq_bind, Option.bind_eq_some_iff] at result ⊢
  rcases result with ⟨address, stored, result⟩
  exact ⟨address, stored, (propagationLasts steps).1 _ _ _ result⟩

theorem addConditionalConstraint_lasts {steps : Nat} {s s' : CubicSolver V E} {condition : E}
    {inVar fromVar toVar : V}
    (result : s.addConditionalConstraint iterate findPath steps condition inVar fromVar toVar =
      some s') :
    s.addConditionalConstraint iterate findPath (steps + 1) condition inVar fromVar toVar =
      some s' := by
  rw [addConditionalConstraint, Option.bind_eq_bind, Option.bind_eq_some_iff] at result ⊢
  rcases result with ⟨address, stored, result⟩
  exact ⟨address, stored, (propagationLasts steps).1 _ _ _ result⟩

omit [DecidableEq E] in
theorem addSubseteqConstraint_lasts {steps : Nat} {s s' : CubicSolver V E} {fromVar toVar : V}
    (result : s.addSubseteqConstraint iterate findPath steps fromVar toVar = some s') :
    s.addSubseteqConstraint iterate findPath (steps + 1) fromVar toVar = some s' :=
  (propagationLasts steps).2 _ _ _ _ result

end

end Topc.CubicSolver
