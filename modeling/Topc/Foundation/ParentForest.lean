import Mathlib.Data.List.Nodup
import Mathlib.Data.List.Perm.Subperm
import Mathlib.Logic.Relation
import Mathlib.Order.Iterate

/-! # Forests given by a parent function

A root is its own parent. Climbing from an element reaches the root of its tree
after at most as many steps as there are elements that are not roots. -/

variable {α : Type*}

/-- Parents lead to roots: every step to a different parent goes down in depth. -/
def ParentForest (parent : α → α) : Prop :=
  ∃ depth : α → Nat, ∀ element, parent element ≠ element →
    depth (parent element) < depth element

namespace ParentForest

section

variable [DecidableEq α] (parent : α → α)

/-- Go to the parent until it is the element itself. -/
def climb : Nat → α → α
  | 0, element => element
  | steps + 1, element =>
      if parent element = element then element else climb steps (parent element)

theorem climb_eq_iterate (steps : Nat) : ∀ element,
    climb parent steps element = parent^[steps] element := by
  induction steps with
  | zero => exact fun _ => rfl
  | succ steps induction =>
      intro element
      rw [climb, Function.iterate_succ_apply]
      split
      · rename_i fixed
        rw [fixed, Function.iterate_fixed fixed]
      · exact induction (parent element)

end

variable {parent : α → α}

/-- Climbing that has not reached a root has not met one. -/
theorem moving_before {element : α} {steps : Nat}
    (unfinished : parent (parent^[steps] element) ≠ parent^[steps] element) (step : Nat)
    (bound : step ≤ steps) : parent (parent^[step] element) ≠ parent^[step] element := by
  intro fixed
  apply unfinished
  have reached : parent^[steps] element = parent^[step] element := by
    rw [← Nat.sub_add_cancel bound, Function.iterate_add_apply]
    exact Function.iterate_fixed fixed (steps - step)
  rw [reached, fixed]

/-- The elements on the way up are distinct until a root is met. -/
theorem iterate_injective (forest : ParentForest parent) {element : α} {steps : Nat}
    (unfinished : parent (parent^[steps] element) ≠ parent^[steps] element) :
    ∀ first second, first < second → second ≤ steps →
      parent^[first] element ≠ parent^[second] element := by
  rcases forest with ⟨depth, descends⟩
  have moving := moving_before unfinished
  have lower : ∀ gap first, first + gap + 1 ≤ steps + 1 →
      depth (parent^[first + gap] element) + gap ≤ depth (parent^[first] element) := by
    intro gap
    induction gap with
    | zero => exact fun _ _ => le_rfl
    | succ gap induction =>
        intro first bound
        have before := induction first (by omega)
        have step := descends _ (moving (first + gap) (by omega))
        rw [← Function.iterate_succ_apply' parent] at step
        have next : first + (gap + 1) = (first + gap).succ := by omega
        rw [next]
        omega
  intro first second order bound same
  have falls := lower (second - first) first (by omega)
  have gap : first + (second - first) = second := by omega
  rw [gap, ← same] at falls
  omega

/-- With a step for every element that is not a root, climbing ends at a root. -/
theorem climb_root [DecidableEq α] (forest : ParentForest parent) (support : List α)
    (covers : ∀ element, parent element ≠ element → element ∈ support) (element : α) :
    parent (climb parent support.length element) = climb parent support.length element := by
  rw [climb_eq_iterate]
  by_contra unfinished
  let visited := (List.range (support.length + 1)).map fun step => parent^[step] element
  have distinct : visited.Nodup := by
    apply List.Nodup.map_on _ List.nodup_range
    intro first firstMem second secondMem same
    rw [List.mem_range] at firstMem secondMem
    rcases Nat.lt_trichotomy first second with before | equal | after
    · exact absurd same (iterate_injective forest unfinished first second before (by omega))
    · exact equal
    · exact absurd same.symm (iterate_injective forest unfinished second first after (by omega))
  have inside : visited ⊆ support := by
    intro other member
    rcases List.mem_map.mp member with ⟨step, stepMem, rfl⟩
    rw [List.mem_range] at stepMem
    exact covers _ (moving_before unfinished step (by omega))
  have length := (List.subperm_of_subset distinct inside).length_le
  simp only [visited, List.length_map, List.length_range] at length
  omega

/-- A map to the roots: a root goes to itself, any other element goes where its
parent goes. -/
structure RootMap (parent root : α → α) : Prop where
  fixed : ∀ element, parent element = element → root element = element
  climbs : ∀ element, parent element ≠ element → root element = root (parent element)

theorem climb_rootMap [DecidableEq α] (forest : ParentForest parent) (support : List α)
    (covers : ∀ element, parent element ≠ element → element ∈ support) :
    RootMap parent (climb parent support.length) where
  fixed element fixed := by
    rw [climb_eq_iterate]
    exact Function.iterate_fixed fixed support.length
  climbs element moving := by
    have fixed := climb_root forest support covers element
    rw [climb_eq_iterate] at fixed
    rw [climb_eq_iterate, climb_eq_iterate, ← Function.iterate_succ_apply,
      Function.iterate_succ_apply', fixed]

theorem RootMap.unique (forest : ParentForest parent) {left right : α → α}
    (leftMap : RootMap parent left) (rightMap : RootMap parent right) : left = right := by
  rcases forest with ⟨depth, descends⟩
  funext element
  induction bound : depth element using Nat.strong_induction_on generalizing element with
  | _ value induction =>
      by_cases fixed : parent element = element
      · rw [leftMap.fixed element fixed, rightMap.fixed element fixed]
      · rw [leftMap.climbs element fixed, rightMap.climbs element fixed]
        exact induction _ (bound ▸ descends element fixed) _ rfl

/-! ## Hanging one root under another -/

section

variable [DecidableEq α] {root : α → α} {lower upper : α}

theorem link (forest : ParentForest parent) (rootMap : RootMap parent root)
    (lowerRoot : parent lower = lower) (upperRoot : parent upper = upper) :
    ParentForest (Function.update parent lower upper) := by
  rcases forest with ⟨depth, descends⟩
  have rootLower := rootMap.fixed lower lowerRoot
  have rootUpper := rootMap.fixed upper upperRoot
  refine ⟨fun element =>
    if root element = lower then depth element + depth upper + 1 else depth element, ?_⟩
  intro element moving
  by_cases isLower : element = lower
  · subst isLower
    have different : upper ≠ element := by simpa using moving
    simp only [Function.update_self, rootUpper, rootLower, different, ↓reduceIte]
    omega
  · rw [Function.update_of_ne isLower] at moving ⊢
    have below := descends element moving
    simp only [rootMap.climbs element moving]
    split <;> omega

/-- Linking two roots moves one tree under the other and leaves the rest. -/
theorem RootMap.link (rootMap : RootMap parent root)
    (lowerRoot : parent lower = lower) (upperRoot : parent upper = upper) :
    RootMap (Function.update parent lower upper)
      fun element => if root element = lower then upper else root element := by
  have rootLower := rootMap.fixed lower lowerRoot
  have rootUpper := rootMap.fixed upper upperRoot
  constructor
  · intro element fixed
    by_cases isLower : element = lower
    · subst isLower
      rw [Function.update_self] at fixed
      rw [if_pos rootLower, fixed]
    · rw [Function.update_of_ne isLower] at fixed
      rw [rootMap.fixed element fixed, if_neg isLower]
  · intro element moving
    by_cases isLower : element = lower
    · subst isLower
      rw [Function.update_self, if_pos rootLower, rootUpper, ite_self]
    · rw [Function.update_of_ne isLower] at moving ⊢
      rw [rootMap.climbs element moving]

/-- Putting the class of `x` under the root of `y` merges the two classes. -/
theorem merged_classes {relation : α → α → Prop} {root' : α → α} {x y : α}
    (classes : ∀ left right, root left = root right ↔ Relation.EqvGen relation left right)
    (linked : ∀ element, root' element = if root element = root x then root y else root element)
    (left right : α) :
    root' left = root' right ↔
      Relation.EqvGen (fun left right => left = x ∧ right = y ∨ relation left right)
        left right := by
  have older : ∀ {left right}, root left = root right →
      Relation.EqvGen (fun left right => left = x ∧ right = y ∨ relation left right)
        left right :=
    fun same => ((classes _ _).mp same).mono fun _ _ => Or.inr
  have merged :
      Relation.EqvGen (fun left right => left = x ∧ right = y ∨ relation left right) x y :=
    .rel _ _ (.inl ⟨rfl, rfl⟩)
  constructor
  · intro same
    rw [linked, linked] at same
    split at same <;> rename_i leftInside <;> split at same <;> rename_i rightInside
    · exact older (leftInside.trans rightInside.symm)
    · exact (older leftInside).trans _ _ _ (merged.trans _ _ _ (older same))
    · exact (older same).trans _ _ _ ((merged.symm _ _).trans _ _ _ (older rightInside.symm))
    · exact older same
  · intro chain
    induction chain with
    | rel left right step =>
        rcases step with ⟨rfl, rfl⟩ | step
        · rw [linked, linked, if_pos rfl]
          split <;> rfl
        · rw [linked, linked, (classes left right).mpr (.rel _ _ step)]
    | refl _ => rfl
    | symm _ _ _ induction => exact induction.symm
    | trans _ _ _ _ _ first second => exact first.trans second

end

end ParentForest
