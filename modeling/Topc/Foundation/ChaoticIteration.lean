import Mathlib.Order.Bounds.Basic

/-! # Chaotic iteration

A loop visits items one after the other, in any order, until a round moves
nothing. A visit raises the state or stops the loop with an error. -/

namespace ChaoticIteration

variable {Item State E : Type*}

section

variable (visit : Item → State → Except E (State × Bool))

/-- Visit each item once. The flag says whether a visit moved the state. -/
def sweep : List Item → State × Bool → Except E (State × Bool)
  | [], status => .ok status
  | item :: items, (state, moved) =>
      match visit item state with
      | .error error => .error error
      | .ok (next, movedHere) => sweep items (next, moved || movedHere)

/-- Sweep until nothing moves, at most so often. -/
def propagate (items : List Item) : Nat → State → Option (Except E State)
  | 0, _ => none
  | fuel + 1, state =>
      match sweep visit items (state, false) with
      | .error error => some (.error error)
      | .ok (next, false) => some (.ok next)
      | .ok (next, true) => propagate items fuel next

/-- No visit moves the state or stops the loop. -/
def Settled (items : List Item) (state : State) : Prop :=
  ∀ item ∈ items, visit item state = .ok (state, false)

end

/-! ## Visits that only raise -/

/-- A visit moves the state up or leaves it, and a state below one that the visit
leaves stays below it. -/
structure Raising [PartialOrder State] (visit : Item → State → Except E (State × Bool))
    (items : List Item) : Prop where
  up : ∀ {item state next moved}, item ∈ items → visit item state = .ok (next, moved) →
    state ≤ next
  same : ∀ {item state next}, item ∈ items → visit item state = .ok (next, false) → next = state
  below : ∀ {item state upper}, item ∈ items → state ≤ upper →
    visit item upper = .ok (upper, false) →
      ∃ next moved, visit item state = .ok (next, moved) ∧ next ≤ upper

namespace Raising

variable [PartialOrder State] {visit : Item → State → Except E (State × Bool)} {items : List Item}

theorem of_subset {others : List Item} (raising : Raising visit items) (subset : others ⊆ items) :
    Raising visit others where
  up member := raising.up (subset member)
  same member := raising.same (subset member)
  below member := raising.below (subset member)

theorem sweep_up (raising : Raising visit items) : ∀ {status final : State × Bool},
    sweep visit items status = .ok final → status.1 ≤ final.1 := by
  induction items with
  | nil =>
      intro status final swept
      cases swept
      exact le_refl _
  | cons item items induction =>
      intro status final swept
      rw [sweep] at swept
      split at swept
      · cases swept
      · rename_i next movedHere visited
        have rest := raising.of_subset (List.subset_cons_self item items)
        exact (raising.up List.mem_cons_self visited).trans (induction rest swept)

/-- A round that reports no move has left the state, and so has each of its visits. -/
theorem sweep_settled (raising : Raising visit items) : ∀ {state next : State} {moved : Bool},
    sweep visit items (state, moved) = .ok (next, false) →
      moved = false ∧ next = state ∧ Settled visit items state := by
  induction items with
  | nil =>
      intro state next moved swept
      cases swept
      exact ⟨rfl, rfl, nofun⟩
  | cons item items induction =>
      intro state next moved swept
      rw [sweep] at swept
      split at swept
      · cases swept
      · rename_i mid movedHere visited
        have rest := raising.of_subset (List.subset_cons_self item items)
        rcases induction rest swept with ⟨unmoved, equal, settled⟩
        rw [Bool.or_eq_false_iff] at unmoved
        rw [unmoved.2] at visited
        have stayed := raising.same List.mem_cons_self visited
        subst stayed
        refine ⟨unmoved.1, equal, fun other member => ?_⟩
        rcases List.mem_cons.mp member with rfl | later
        · exact visited
        · exact settled other later

theorem sweep_below (raising : Raising visit items) {upper : State}
    (settled : Settled visit items upper) : ∀ {state : State} (moved : Bool), state ≤ upper →
      ∃ next movedAfter, sweep visit items (state, moved) = .ok (next, movedAfter) ∧
        next ≤ upper := by
  induction items with
  | nil => exact fun {state} moved small => ⟨state, moved, rfl, small⟩
  | cons item items induction =>
      intro state moved small
      rcases raising.below List.mem_cons_self small (settled item List.mem_cons_self) with
        ⟨next, movedHere, visited, still⟩
      have rest := raising.of_subset (List.subset_cons_self item items)
      rw [sweep, visited]
      exact induction rest (fun other member => settled other (List.mem_cons_of_mem _ member)) _ still

/-- What the loop stops with is the least settled state above where it started. -/
theorem propagate_isLeast (raising : Raising visit items) : ∀ {fuel : Nat} {state result : State},
    propagate visit items fuel state = some (.ok result) →
      IsLeast {upper | state ≤ upper ∧ Settled visit items upper} result := by
  intro fuel
  induction fuel with
  | zero => exact nofun
  | succ fuel induction =>
      intro state result ran
      rw [propagate] at ran
      split at ran
      · cases ran
      · rename_i next swept
        cases ran
        rcases raising.sweep_settled swept with ⟨_, rfl, settled⟩
        exact ⟨⟨le_refl _, settled⟩, fun upper member => member.1⟩
      · rename_i next swept
        rcases induction ran with ⟨⟨above, settled⟩, least⟩
        refine ⟨⟨(raising.sweep_up swept).trans above, settled⟩, fun upper member => least ?_⟩
        rcases raising.sweep_below member.2 false member.1 with ⟨_, _, sweptBelow, small⟩
        rw [swept] at sweptBelow
        cases sweptBelow
        exact ⟨small, member.2⟩

/-- A loop that stops with an error has no settled state above where it started. -/
theorem propagate_error (raising : Raising visit items) : ∀ {fuel : Nat} {state : State} {error : E},
    propagate visit items fuel state = some (.error error) →
      ¬ ∃ upper, state ≤ upper ∧ Settled visit items upper := by
  intro fuel
  induction fuel with
  | zero => exact nofun
  | succ fuel induction =>
      rintro state error ran ⟨upper, above, settled⟩
      rcases raising.sweep_below settled false above with ⟨next, moved, swept, small⟩
      rw [propagate, swept] at ran
      cases moved with
      | false => cases ran
      | true => exact induction ran ⟨upper, small, settled⟩

/-- The loop accepts exactly when some state above where it starts is settled. -/
theorem propagate_accepts_iff (raising : Raising visit items) {fuel : Nat} {state : State}
    {outcome : Except E State} (ran : propagate visit items fuel state = some outcome) :
    (∃ result, outcome = .ok result) ↔ ∃ upper, state ≤ upper ∧ Settled visit items upper := by
  cases outcome with
  | error error =>
      have none := raising.propagate_error ran
      exact ⟨nofun, fun exists_ => absurd exists_ none⟩
  | ok result =>
      have least := raising.propagate_isLeast ran
      exact ⟨fun _ => ⟨result, least.1⟩, fun _ => ⟨result, rfl⟩⟩

/-- Rounds over the same items in other orders give the same result. -/
theorem propagate_unique (raising : Raising visit items) {others : List Item}
    (same : ∀ item, item ∈ items ↔ item ∈ others) {fuel otherFuel : Nat} {state result other : State}
    (ran : propagate visit items fuel state = some (.ok result))
    (otherRan : propagate visit others otherFuel state = some (.ok other)) : result = other := by
  have equal : Settled visit items = Settled visit others := by
    funext upper
    simp only [Settled, same]
  have least := raising.propagate_isLeast ran
  rw [equal] at least
  have otherRaising := raising.of_subset fun item member => (same item).mpr member
  exact least.unique (otherRaising.propagate_isLeast otherRan)

end Raising

/-! ## Termination -/

/-- A rank that every visit that moves raises, and that is bounded as long as the
invariant holds. -/
structure Bounded (visit : Item → State → Except E (State × Bool)) (items : List Item)
    (invariant : State → Prop) (rank : State → Nat) (limit : Nat) : Prop where
  kept : ∀ {item state next moved}, item ∈ items → invariant state →
    visit item state = .ok (next, moved) → invariant next
  rises : ∀ {item state next moved}, item ∈ items → visit item state = .ok (next, moved) →
    rank state + moved.toNat ≤ rank next
  limited : ∀ {state}, invariant state → rank state ≤ limit

namespace Bounded

variable {visit : Item → State → Except E (State × Bool)} {items : List Item}
  {invariant : State → Prop} {rank : State → Nat} {limit : Nat}

theorem sweep_kept (bounded : Bounded visit items invariant rank limit) {rest : List Item}
    (inside : rest ⊆ items) : ∀ {state next : State} {moved movedAfter : Bool}, invariant state →
      sweep visit rest (state, moved) = .ok (next, movedAfter) →
        invariant next ∧ rank state + movedAfter.toNat ≤ rank next + moved.toNat := by
  induction rest with
  | nil =>
      intro state next moved movedAfter holds swept
      cases swept
      exact ⟨holds, Nat.le_refl _⟩
  | cons item rest induction =>
      intro state next moved movedAfter holds swept
      have member := inside List.mem_cons_self
      rw [sweep] at swept
      split at swept
      · cases swept
      · rename_i mid movedHere visited
        have risen := bounded.rises member visited
        rcases induction (fun _ later => inside (List.mem_cons_of_mem _ later))
          (bounded.kept member holds visited) swept with ⟨kept, rest⟩
        refine ⟨kept, ?_⟩
        have either : (moved || movedHere).toNat ≤ moved.toNat + movedHere.toNat := by
          cases moved <;> cases movedHere <;> decide
        omega

theorem propagate_terminates (bounded : Bounded visit items invariant rank limit) :
    ∀ {fuel : Nat} {state : State}, invariant state → limit < rank state + fuel →
      ∃ outcome, propagate visit items fuel state = some outcome := by
  intro fuel
  induction fuel with
  | zero =>
      intro state holds enough
      have small := bounded.limited holds
      omega
  | succ fuel induction =>
      intro state holds enough
      rw [propagate]
      split
      · exact ⟨_, rfl⟩
      · exact ⟨_, rfl⟩
      · rename_i next swept
        rcases bounded.sweep_kept (List.Subset.refl _) holds swept with ⟨kept, risen⟩
        apply induction kept
        simp only [Bool.toNat_true, Bool.toNat_false] at risen
        omega

end Bounded

end ChaoticIteration
