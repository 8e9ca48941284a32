import Mathlib.Data.List.Basic

/-! # Computations with fuel

A computation that takes fuel converges to a result once every larger amount of
fuel gives it. -/

namespace Fuel

universe u

variable {α β : Type u}

def Converges (computation : Nat → Option α) (result : α) : Prop :=
  ∃ bound, ∀ fuel, bound ≤ fuel → computation fuel = some result

theorem converges_some (result : α) : Converges (fun _ => some result) result :=
  ⟨0, fun _ _ => rfl⟩

theorem Converges.bind {first : Nat → Option α} {next : Nat → α → Option β} {middle : α}
    {result : β} (left : Converges first middle)
    (right : Converges (fun fuel => next fuel middle) result) :
    Converges (fun fuel => first fuel >>= next fuel) result := by
  rcases left with ⟨leftBound, leftRuns⟩
  rcases right with ⟨rightBound, rightRuns⟩
  refine ⟨max leftBound rightBound, fun fuel enough => ?_⟩
  dsimp only
  rw [leftRuns fuel (Nat.le_trans (Nat.le_max_left _ _) enough), Option.bind_eq_bind,
    Option.bind_some]
  exact rightRuns fuel (Nat.le_trans (Nat.le_max_right _ _) enough)

/-- A unit of fuel for entering the computation. -/
theorem Converges.of_succ {computation : Nat → Option α} {result : α}
    (converges : Converges (fun fuel => computation (fuel + 1)) result) :
    Converges computation result := by
  rcases converges with ⟨bound, runs⟩
  refine ⟨bound + 1, fun fuel enough => ?_⟩
  cases fuel with
  | zero => cases enough
  | succ fuel => exact runs fuel (Nat.le_of_succ_le_succ enough)

/-- A loop converges when each of its steps does. The invariant knows the items
that are done. -/
theorem exists_converges_foldlM {step : Nat → β → α → Option β}
    (invariant : List α → β → Prop) (items : List α) {start : β} (holds : invariant [] start)
    (advance : ∀ done item rest state, items = done ++ item :: rest → invariant done state →
      ∃ next, Converges (fun fuel => step fuel state item) next ∧
        invariant (done ++ [item]) next) :
    ∃ result, Converges (fun fuel => items.foldlM (step fuel) start) result ∧
      invariant items result := by
  have run : ∀ (rest done : List α) (state : β), items = done ++ rest → invariant done state →
      ∃ result, Converges (fun fuel => rest.foldlM (step fuel) state) result ∧
        invariant items result := by
    intro rest
    induction rest with
    | nil =>
        intro done state split holds
        rw [List.append_nil] at split
        exact ⟨state, converges_some state, split ▸ holds⟩
    | cons item rest induction =>
        intro done state split holds
        rcases advance done item rest state split holds with ⟨next, stepConverges, nextHolds⟩
        have splitNext : items = (done ++ [item]) ++ rest := by
          rw [← List.append_cons]
          exact split
        rcases induction (done ++ [item]) next splitNext nextHolds with ⟨result, runs, final⟩
        refine ⟨result, ?_, final⟩
        simp only [List.foldlM_cons]
        exact Converges.bind stepConverges runs
  exact run items [] start rfl holds

/-- More fuel does not change a result. -/
def Lasts (computation : Nat → Option α) : Prop :=
  ∀ fuel result, computation fuel = some result → computation (fuel + 1) = some result

theorem Lasts.converges {computation : Nat → Option α} (lasts : Lasts computation) {fuel : Nat}
    {result : α} (ran : computation fuel = some result) : Converges computation result := by
  refine ⟨fuel, fun more enough => ?_⟩
  induction enough with
  | refl => exact ran
  | step _ induction => exact lasts _ result induction

theorem Converges.unique {computation : Nat → Option α} {result other : α}
    (converges : Converges computation result) (again : Converges computation other) :
    result = other := by
  rcases converges with ⟨bound, runs⟩
  rcases again with ⟨otherBound, otherRuns⟩
  have first := runs (max bound otherBound) (Nat.le_max_left _ _)
  rw [otherRuns (max bound otherBound) (Nat.le_max_right _ _)] at first
  exact (Option.some.inj first).symm

/-- A loop gives the same with a step that gives at least the same. -/
theorem foldlM_extends {step extended : β → α → Option β}
    (extends' : ∀ state item next, step state item = some next → extended state item = some next)
    (items : List α) : ∀ {start result : β}, items.foldlM step start = some result →
      items.foldlM extended start = some result := by
  induction items with
  | nil => exact fun ran => ran
  | cons item items induction =>
      intro start result ran
      rw [List.foldlM_cons, Option.bind_eq_bind, Option.bind_eq_some_iff] at ran ⊢
      rcases ran with ⟨next, first, rest⟩
      exact ⟨next, extends' start item next first, induction rest⟩

end Fuel
