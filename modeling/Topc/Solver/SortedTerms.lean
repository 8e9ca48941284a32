import Topc.Solver.MostGeneralSolution

/-! # Unification of sorted terms

When both sides of every constraint are of one sort, and functors fix the sorts
of their subterms, a term and its representative are of one sort. -/

namespace Topc.TermUnifier

open Term

section

variable {T Functor Kind : Type*} [Term T Functor]

/-- Both terms are of one sort. -/
def SameSort (sort : T → Option Kind) (constraint : T × T) : Prop :=
  ∃ kind, sort constraint.1 = some kind ∧ sort constraint.2 = some kind

/-- Compound terms of one sort and functor have subterms of the same sorts. -/
def SortsDescend (sort : T → Option Kind) : Prop :=
  ∀ left right, SameSort sort (left, right) → isVariable left = false →
    isVariable right = false → matchesFunctor left right →
      ∀ constraint ∈ (getSubterms left).zip (getSubterms right), SameSort sort constraint

def KeepsSort (sort : T → Option Kind) (root : T → T) : Prop :=
  ∀ term kind, sort term = some kind → sort (root term) = some kind

theorem KeepsSort.sameSort {sort : T → Option Kind} {root : T → T}
    (keeps : KeepsSort sort root) {left right : T}
    (same : SameSort sort (left, right)) : SameSort sort (root left, root right) := by
  rcases same with ⟨kind, leftKind, rightKind⟩
  exact ⟨kind, keeps left kind leftKind, keeps right kind rightKind⟩

end

variable {T Functor Kind : Type*} [DecidableEq T] [Term T Functor] {sort : T → Option Kind}

/-- Putting one class under the root of another of its sort. -/
theorem KeepsSort.redirect {root : T → T} (keeps : KeepsSort sort root) {lower upper : T}
    (same : SameSort sort (lower, upper)) :
    KeepsSort sort fun term => if root term = lower then upper else root term := by
  intro term kind termKind
  have rootKind := keeps term kind termKind
  change sort (if root term = lower then upper else root term) = some kind
  split
  · rename_i atLower
    rcases same with ⟨other, lowerKind, upperKind⟩
    rw [atLower, lowerKind] at rootKind
    rw [← rootKind]
    exact upperKind
  · exact rootKind

theorem Merge.keepsSort {uf : TermUnionFind T} {t1 t2 : T} {root' : T → T} {added : List (T × T)}
    (descend : SortsDescend sort) (merge : Merge uf t1 t2 root' added)
    (keeps : KeepsSort sort uf.root) (same : SameSort sort (t1, t2)) :
    KeepsSort sort root' ∧ ∀ constraint ∈ added, SameSort sort constraint := by
  have roots := keeps.sameSort same
  have swapped : SameSort sort (uf.root t2, uf.root t1) := by
    rcases roots with ⟨kind, first, second⟩
    exact ⟨kind, second, first⟩
  cases merge with
  | same equal => exact ⟨keeps, List.forall_mem_nil _⟩
  | bind lower upper different sides unbound =>
      refine ⟨keeps.redirect ?_, List.forall_mem_nil _⟩
      rcases sides with ⟨rfl, rfl⟩ | ⟨rfl, rfl⟩
      · exact roots
      · exact swapped
  | decompose different left right functors =>
      exact ⟨keeps.redirect roots, descend _ _ roots left right functors⟩

variable [DecidableEq Functor]

theorem solveWithin_keepsSort (descend : SortsDescend sort) (steps : Nat) :
    ∀ {uf uf' : TermUnionFind T} {constraints : List (T × T)},
      solveWithin steps uf constraints = some (.ok uf') → KeepsSort sort uf.root →
        (∀ constraint ∈ constraints, SameSort sort constraint) → KeepsSort sort uf'.root := by
  induction steps with
  | zero =>
      intro uf uf' constraints solved keeps _
      cases constraints with
      | nil =>
          cases solved
          exact keeps
      | cons constraint constraints => cases solved
  | succ steps induction =>
      intro uf uf' constraints solved keeps sorted
      cases constraints with
      | nil =>
          cases solved
          exact keeps
      | cons constraint constraints =>
          rcases constraint with ⟨t1, t2⟩
          rw [solveWithin] at solved
          split at solved
          · cases solved
          · rename_i mid added unified
            rcases (unify_merge unified).keepsSort descend keeps (sorted _ List.mem_cons_self) with
              ⟨midKeeps, addedSorted⟩
            apply induction solved midKeeps
            intro constraint member
            rcases List.mem_append.mp member with waiting | new
            · exact sorted constraint (List.mem_cons_of_mem _ waiting)
            · exact addedSorted constraint new

theorem solve_keepsSort (descend : SortsDescend sort) {uf uf' : TermUnionFind T}
    {constraints : List (T × T)} (solved : solve uf constraints = .ok uf')
    (keeps : KeepsSort sort uf.root)
    (sorted : ∀ constraint ∈ constraints, SameSort sort constraint) :
    KeepsSort sort uf'.root := by
  have ran := Option.some_get (solveWithin_stepBound uf constraints)
  rw [show (solveWithin (stepBound uf constraints) uf constraints).get _ = .ok uf' from solved]
    at ran
  exact solveWithin_keepsSort descend _ ran.symm keeps sorted

/-- Representatives are of the sort of what they represent. -/
theorem solveBatches_keepsSort (descend : SortsDescend sort) {batches : List (List (T × T))}
    (sorted : ∀ batch ∈ batches, ∀ constraint ∈ batch, SameSort sort constraint)
    {uf : TermUnionFind T} (solved : solveBatches batches = .ok uf) : KeepsSort sort uf.root := by
  have general : ∀ {start : TermUnionFind T}, batches.foldlM solve start = .ok uf →
      KeepsSort sort start.root → KeepsSort sort uf.root := by
    clear solved
    induction batches with
    | nil =>
        intro start solved keeps
        cases solved
        exact keeps
    | cons batch batches induction =>
        intro start solved keeps
        rw [List.foldlM_cons] at solved
        cases first : solve start batch with
        | error error =>
            rw [first] at solved
            cases solved
        | ok mid =>
            rw [first] at solved
            apply induction (fun other member => sorted other (List.mem_cons_of_mem _ member)) solved
            exact solve_keepsSort descend first keeps (sorted batch List.mem_cons_self)
  exact general solved fun term kind termKind => termKind

end Topc.TermUnifier
