import Mathlib.Data.Set.Finite.Lattice
import Mathlib.Data.Set.Finite.List
import Topc.Solver.TermUnifier

/-! # What the unifier solves

Equality of rational trees: possibly infinite trees with finitely many subtrees. -/

namespace TermTree

variable {Functor Leaf : Type*}

/-- The subtree at a path. -/
def subtree (tree : TermTree Functor Leaf) (path : List Nat) : TermTree Functor Leaf :=
  fun rest => tree (path ++ rest)

/-- Rational trees have finitely many subtrees. -/
def Rational (tree : TermTree Functor Leaf) : Prop :=
  (Set.range tree.subtree).Finite

/-- A tree is rational when its subtrees stay in a finite set closed under
taking children. -/
theorem rational_of_closed {tree : TermTree Functor Leaf} {trees : Set (TermTree Functor Leaf)}
    (finite : trees.Finite) (member : tree ∈ trees)
    (closed : ∀ inner ∈ trees, ∀ index, inner.child index ∈ trees) : tree.Rational := by
  apply finite.subset
  rintro _ ⟨path, rfl⟩
  induction path generalizing tree with
  | nil => exact member
  | cons index path induction => exact induction (closed tree member index)

end TermTree

namespace Topc

open Term

namespace TermUnifier

variable {T Functor : Type*} [DecidableEq T] [Term T Functor]

/-- Following representatives from a term meets finitely many terms. -/
theorem unfolding_rational (uf : TermUnionFind T) (term : T) :
    (unfolding uf.root term).Rational := by
  let terms := (reachable uf [(term, term)]).toFinset
  have confined := confined_reachable uf [(term, term)]
  let nowhere : TermTree Functor T := fun _ => none
  have finite : (insert nowhere (unfolding uf.root '' terms)).Finite :=
    (terms.finite_toSet.image _).insert _
  have member : term ∈ terms := (confined.pending _ List.mem_cons_self).1
  apply TermTree.rational_of_closed finite
  · exact Set.mem_insert_of_mem _ ⟨term, member, rfl⟩
  · rintro inner (rfl | ⟨other, otherMem, rfl⟩) index
    · exact Set.mem_insert _ _
    · cases kind : isVariable (uf.root other) with
      | true =>
          rw [unfolding_of_variable kind]
          exact Set.mem_insert _ _
      | false =>
          rw [unfolding_of_compound kind]
          cases found : (getSubterms (uf.root other))[index]? with
          | none =>
              apply Or.inl
              apply TermTree.ext
              intro path
              simp [TermTree.child, found, nowhere]
          | some subterm =>
              have inside := confined.closed _ (root_mem confined otherMem) subterm
                (List.mem_of_getElem? found)
              refine Or.inr ⟨subterm, inside, ?_⟩
              apply TermTree.ext
              intro path
              simp [TermTree.child, found]

variable [DecidableEq Functor]

/-- Constraints added in batches, each solved before the next is added. -/
def solveBatches (batches : List (List (T × T))) :
    Except (TermUnificationError T) (TermUnionFind T) :=
  batches.foldlM solve .empty

/-- A solution of a list of constraints, most general among all tree solutions. -/
structure MostGeneral (constraints : List (T × T)) (solution : T → TermTree Functor T) : Prop where
  interprets : Interprets solution
  rational : ∀ term, (solution term).Rational
  solves : Solves solution constraints
  general : ∀ {Leaf : Type} (other : T → TermTree Functor Leaf), Interprets other →
    Solves other constraints → ∃ assignment, ∀ term, other term = (solution term).subst assignment

theorem foldlM_solve_sound (batches : List (List (T × T))) : ∀ {uf uf' : TermUnionFind T},
    batches.foldlM solve uf = .ok uf' → Consistent uf.root [] →
      Consistent uf'.root [] ∧
        (∀ left right, uf.root left = uf.root right → uf'.root left = uf'.root right) ∧
        ∀ constraint ∈ batches.flatten, uf'.root constraint.1 = uf'.root constraint.2 := by
  induction batches with
  | nil =>
      intro uf uf' solved consistent
      cases solved
      exact ⟨consistent, fun _ _ same => same, nofun⟩
  | cons batch batches induction =>
      intro uf uf' solved consistent
      rw [List.foldlM_cons] at solved
      cases first : solve uf batch with
      | error error =>
          rw [first] at solved
          cases solved
      | ok mid =>
          rw [first] at solved
          rcases solve_sound first consistent with ⟨midConsistent, coarser, holds⟩
          rcases induction solved midConsistent with ⟨settled, coarser', holds'⟩
          refine ⟨settled, fun left right same => coarser' _ _ (coarser _ _ same), ?_⟩
          intro constraint member
          rw [List.flatten_cons, List.mem_append] at member
          rcases member with own | later
          · exact coarser' _ _ (holds constraint own)
          · exact holds' constraint later

theorem foldlM_solve_complete {Leaf : Type*} {interpretation : T → TermTree Functor Leaf}
    (interprets : Interprets interpretation) (batches : List (List (T × T))) :
    ∀ {uf : TermUnionFind T},
      (∀ term, interpretation (uf.root term) = interpretation term) →
      Solves interpretation batches.flatten →
        ∃ uf', batches.foldlM solve uf = .ok uf' ∧
          ∀ term, interpretation (uf'.root term) = interpretation term := by
  induction batches with
  | nil => exact fun {uf} respects _ => ⟨uf, rfl, respects⟩
  | cons batch batches induction =>
      intro uf respects solves
      rw [List.flatten_cons, solves_append] at solves
      rcases solve_complete interprets respects solves.1 with ⟨mid, first, midRespects⟩
      rcases induction midRespects solves.2 with ⟨last, rest, lastRespects⟩
      refine ⟨last, ?_, lastRespects⟩
      rw [List.foldlM_cons, first]
      exact rest

theorem solveBatches_complete {Leaf : Type*} {interpretation : T → TermTree Functor Leaf}
    (interprets : Interprets interpretation) {batches : List (List (T × T))}
    (solves : Solves interpretation batches.flatten) :
    ∃ uf, solveBatches batches = .ok uf ∧
      ∀ term, interpretation (uf.root term) = interpretation term := by
  apply foldlM_solve_complete interprets batches
  · exact fun _ => rfl
  · exact solves

/-- Every batch is worked off in finitely many steps. Solving fails exactly when
no rational trees satisfy the constraints, and otherwise leaves classes whose
unfolding is a most general solution. -/
theorem solveBatches_correct (batches : List (List (T × T))) :
    (∀ (uf : TermUnionFind T) (batch : List (T × T)),
      solveWithin (stepBound uf batch) uf batch = some (solve uf batch)) ∧
    ((∃ error, solveBatches batches = .error error) ↔
      ¬ ∃ solution : T → TermTree Functor T, Interprets solution ∧
        (∀ term, (solution term).Rational) ∧ Solves solution batches.flatten) ∧
    ∀ uf, solveBatches batches = .ok uf → MostGeneral batches.flatten (unfolding uf.root) := by
  have mostGeneral : ∀ uf, solveBatches batches = .ok uf →
      MostGeneral batches.flatten (unfolding uf.root) := by
    intro uf solved
    rcases foldlM_solve_sound batches solved consistent_empty with ⟨settled, _, holds⟩
    constructor
    · exact settled.congruent.unfolding_interprets
    · exact unfolding_rational uf
    · exact fun constraint member => unfolding_congr (holds constraint member)
    · intro Leaf other interprets solves
      rcases solveBatches_complete interprets solves with ⟨uf', solved', respects⟩
      have same : uf' = uf := by
        rw [solved'] at solved
        exact Except.ok.inj solved
      subst same
      exact ⟨other, unfolding_mostGeneral interprets respects⟩
  refine ⟨fun uf batch => (Option.some_get _).symm, ⟨?_, ?_⟩, mostGeneral⟩
  · rintro ⟨error, failed⟩ ⟨solution, interprets, _, solves⟩
    rcases solveBatches_complete interprets solves with ⟨uf, solved, _⟩
    rw [solved] at failed
    cases failed
  · intro unsolvable
    cases outcome : solveBatches batches with
    | error error => exact ⟨error, rfl⟩
    | ok uf =>
        have general := mostGeneral uf outcome
        exact absurd ⟨_, general.interprets, general.rational, general.solves⟩ unsolvable

end TermUnifier

end Topc
