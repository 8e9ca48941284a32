import Mathlib.Algebra.BigOperators.Group.Finset.Basic
import Mathlib.Algebra.GroupWithZero.Nat
import Mathlib.Algebra.Order.BigOperators.Group.Finset
import Mathlib.Logic.Relation
import Topc.Foundation.RationalTree
import Topc.Solver.TermUnionFind

/-! # Unification by union-find

Constraints are taken from a queue. Two compound terms of one functor are
merged and their subterms are enqueued. There is no occurs check, so what is
solved is equality of possibly infinite trees. -/

namespace Topc

open Term

/-- The two terms that could not be unified. -/
structure TermUnificationError (T : Type*) where
  lhs : T
  rhs : T

namespace TermUnifier

/-! ## Classes while constraints are pending -/

section

variable {T : Type*} {root : T → T} {pending : List (T × T)} {left right : T}

/-- Terms that are one class once the pending constraints are solved. -/
def Linked (root : T → T) (pending : List (T × T)) : T → T → Prop :=
  Relation.EqvGen fun left right => root left = root right ∨ (left, right) ∈ pending

theorem Linked.of_root (same : root left = root right) : Linked root pending left right :=
  .rel _ _ (Or.inl same)

theorem Linked.of_pending (member : (left, right) ∈ pending) :
    Linked root pending left right :=
  .rel _ _ (Or.inr member)

theorem Linked.mono {more : List (T × T)} (subset : pending ⊆ more)
    (linked : Linked root pending left right) : Linked root more left right := by
  refine Relation.EqvGen.mono (fun first second step => ?_) _ _ linked
  rcases step with same | member
  · exact .inl same
  · exact .inr (subset member)

theorem Linked.settled (linked : Linked root [] left right) : root left = root right := by
  induction linked with
  | rel _ _ step => simpa using step
  | refl _ => rfl
  | symm _ _ _ induction => exact induction.symm
  | trans _ _ _ _ _ first second => exact first.trans second

end

theorem forall₂_trans {α : Type*} {relation : α → α → Prop}
    (transitive : ∀ a b c, relation a b → relation b c → relation a c) :
    ∀ {first second third : List α}, List.Forall₂ relation first second →
      List.Forall₂ relation second third → List.Forall₂ relation first third
  | _, _, _, .nil, .nil => .nil
  | _, _, _, .cons head tail, .cons head' tail' =>
      .cons (transitive _ _ _ head head') (forall₂_trans transitive tail tail')

section

variable {T Functor : Type*} [Term T Functor]

def matchesFunctor (t1 t2 : T) : Prop :=
  getFunctor t1 = getFunctor t2 ∧ (getSubterms t1).length = (getSubterms t2).length

instance [DecidableEq Functor] (t1 t2 : T) : Decidable (matchesFunctor t1 t2) :=
  inferInstanceAs (Decidable (_ ∧ _))

/-- Compound terms have compound roots of their functor, child by child, up to
the pending constraints. -/
structure Consistent (root : T → T) (pending : List (T × T)) : Prop where
  compound : ∀ term, isVariable term = false → isVariable (root term) = false
  functor : ∀ term, isVariable term = false → getFunctor (root term) = getFunctor term
  subterms : ∀ term, isVariable term = false →
    List.Forall₂ (Linked root pending) (getSubterms term) (getSubterms (root term))

theorem Consistent.mono {root : T → T} {pending more : List (T × T)}
    (consistent : Consistent root pending) (subset : pending ⊆ more) :
    Consistent root more where
  compound := consistent.compound
  functor := consistent.functor
  subterms term compound :=
    (consistent.subterms term compound).imp fun _ _ => Linked.mono subset

theorem Consistent.congruent {root : T → T} (consistent : Consistent root []) :
    Congruent root where
  compound := consistent.compound
  functor := consistent.functor
  subterms term compound := (consistent.subterms term compound).imp fun _ _ => Linked.settled

end

variable {T Functor : Type*} [DecidableEq T] [Term T Functor]

theorem consistent_empty : Consistent (TermUnionFind.empty : TermUnionFind T).root [] where
  compound _ compound := compound
  functor _ _ := rfl
  subterms _ _ := List.forall₂_same.mpr fun _ _ => .of_root rfl

/-! ## One constraint -/

section

variable [DecidableEq Functor]

/-- One constraint: the union-find after it and the constraints it adds. -/
def unify (uf : TermUnionFind T) (t1 t2 : T) :
    Except (TermUnificationError T) (TermUnionFind T × List (T × T)) :=
  let (uf, t1) := uf.find t1
  let (uf, t2) := uf.find t2
  if t1 = t2 then .ok (uf, [])
  else if isVariable t1 && isVariable t2 then .ok (uf.quickUnion t1 t2, [])
  else if isVariable t1 then .ok (uf.quickUnion t1 t2, [])
  else if isVariable t2 then .ok (uf.quickUnion t2 t1, [])
  else if matchesFunctor t1 t2 then
    .ok (uf.quickUnion t1 t2, (getSubterms t1).zip (getSubterms t2))
  else .error ⟨t1, t2⟩

/-- Work through the queue, at most so many constraints. -/
def solveWithin : Nat → TermUnionFind T → List (T × T) →
    Option (Except (TermUnificationError T) (TermUnionFind T))
  | _, uf, [] => some (.ok uf)
  | 0, _, _ :: _ => none
  | steps + 1, uf, (t1, t2) :: constraints =>
      match unify uf t1 t2 with
      | .error error => some (.error error)
      | .ok (uf, added) => solveWithin steps uf (constraints ++ added)

end

/-- What one constraint does to the classes: nothing when its sides are one
class already, else one class is put under the root of the other. Compound
roots that meet have one functor and their subterms are enqueued. -/
inductive Merge (uf : TermUnionFind T) (t1 t2 : T) : (T → T) → List (T × T) → Prop
  | same (equal : uf.root t1 = uf.root t2) : Merge uf t1 t2 uf.root []
  | bind (lower upper : T) (different : lower ≠ upper)
      (sides : lower = uf.root t1 ∧ upper = uf.root t2 ∨
        lower = uf.root t2 ∧ upper = uf.root t1)
      (unbound : isVariable lower = true) :
      Merge uf t1 t2 (fun t => if uf.root t = lower then upper else uf.root t) []
  | decompose (different : uf.root t1 ≠ uf.root t2)
      (left : isVariable (uf.root t1) = false) (right : isVariable (uf.root t2) = false)
      (functors : matchesFunctor (uf.root t1) (uf.root t2)) :
      Merge uf t1 t2 (fun t => if uf.root t = uf.root t1 then uf.root t2 else uf.root t)
        ((getSubterms (uf.root t1)).zip (getSubterms (uf.root t2)))

theorem unify_merge [DecidableEq Functor] {uf uf' : TermUnionFind T} {t1 t2 : T} {added : List (T × T)}
    (unified : unify uf t1 t2 = .ok (uf', added)) : Merge uf t1 t2 uf'.root added := by
  have united : ∀ left right : T, (((uf.smartInsert t1).smartInsert t2).quickUnion left right).root =
      fun t => if uf.root t = uf.root left then uf.root right else uf.root t := by
    intro left right
    funext t
    rw [TermUnionFind.root_quickUnion]
    simp
  simp only [unify, TermUnionFind.find_fst, TermUnionFind.find_snd,
    TermUnionFind.root_smartInsert] at unified
  split at unified
  · rename_i equal
    cases unified
    simpa using Merge.same equal
  rename_i different
  split at unified
  · rename_i kinds
    cases unified
    rw [united]
    simp only [TermUnionFind.root_root]
    exact .bind _ _ different (.inl ⟨rfl, rfl⟩) (Bool.and_eq_true_iff.mp kinds).1
  split at unified
  · rename_i kind
    cases unified
    rw [united]
    simp only [TermUnionFind.root_root]
    exact .bind _ _ different (.inl ⟨rfl, rfl⟩) kind
  rename_i left
  split at unified
  · rename_i kind
    cases unified
    rw [united]
    simp only [TermUnionFind.root_root]
    exact .bind _ _ (Ne.symm different) (.inr ⟨rfl, rfl⟩) kind
  rename_i right
  split at unified
  · rename_i functors
    cases unified
    rw [united]
    simp only [TermUnionFind.root_root]
    exact .decompose different (by simpa using left) (by simpa using right) functors
  · cases unified

/-- Unification fails at two compound roots of different functors. -/
theorem unify_error [DecidableEq Functor] {uf : TermUnionFind T} {t1 t2 : T} {error : TermUnificationError T}
    (failed : unify uf t1 t2 = .error error) :
    isVariable (uf.root t1) = false ∧ isVariable (uf.root t2) = false ∧
      ¬ matchesFunctor (uf.root t1) (uf.root t2) := by
  simp only [unify, TermUnionFind.find_fst, TermUnionFind.find_snd,
    TermUnionFind.root_smartInsert] at failed
  split at failed
  · cases failed
  split at failed
  · cases failed
  split at failed
  · cases failed
  rename_i left
  split at failed
  · cases failed
  rename_i right
  split at failed
  · cases failed
  · rename_i functors
    exact ⟨by simpa using left, by simpa using right, functors⟩

/-- A merge only brings classes together, and settles its own constraint. -/
theorem Merge.coarser {uf : TermUnionFind T} {t1 t2 : T} {root' : T → T} {added : List (T × T)}
    (merge : Merge uf t1 t2 root' added) :
    (∀ left right, uf.root left = uf.root right → root' left = root' right) ∧
      root' t1 = root' t2 := by
  cases merge with
  | same equal => exact ⟨fun _ _ same => same, equal⟩
  | bind lower upper different sides unbound =>
      constructor
      · intro left right same
        simp only [same]
      · rcases sides with ⟨rfl, rfl⟩ | ⟨rfl, rfl⟩
        · simp
        · simp
  | decompose different left right functors =>
      constructor
      · intro left right same
        simp only [same]
      · simp

theorem Merge.linked {uf : TermUnionFind T} {t1 t2 : T} {root' : T → T}
    {added constraints : List (T × T)} (merge : Merge uf t1 t2 root' added) {left right : T}
    (linked : Linked uf.root ((t1, t2) :: constraints) left right) :
    Linked root' (constraints ++ added) left right := by
  rcases merge.coarser with ⟨coarser, settles⟩
  induction linked with
  | rel first second step =>
      rcases step with same | member
      · exact .of_root (coarser first second same)
      · rcases List.mem_cons.mp member with own | later
        · cases own
          exact .of_root settles
        · exact .of_pending (List.mem_append_left added later)
  | refl _ => exact .refl _
  | symm _ _ _ induction => exact .symm _ _ induction
  | trans _ _ _ _ _ first second => exact .trans _ _ _ first second

theorem Merge.consistent {uf : TermUnionFind T} {t1 t2 : T} {root' : T → T}
    {added constraints : List (T × T)} (merge : Merge uf t1 t2 root' added)
    (consistent : Consistent uf.root ((t1, t2) :: constraints)) :
    Consistent root' (constraints ++ added) := by
  have children : ∀ term, isVariable term = false →
      List.Forall₂ (Linked root' (constraints ++ added)) (getSubterms term)
        (getSubterms (uf.root term)) :=
    fun term compound => (consistent.subterms term compound).imp fun _ _ => merge.linked
  cases merge with
  | same equal => exact ⟨consistent.compound, consistent.functor, children⟩
  | bind lower upper different sides unbound =>
      have kept : ∀ term, isVariable term = false →
          (if uf.root term = lower then upper else uf.root term) = uf.root term := by
        intro term compound
        apply if_neg
        rintro rfl
        rw [consistent.compound term compound] at unbound
        cases unbound
      constructor
      · intro term compound
        simp only [kept term compound, consistent.compound term compound]
      · intro term compound
        simp only [kept term compound, consistent.functor term compound]
      · intro term compound
        simp only [kept term compound]
        exact children term compound
  | decompose different left right functors =>
      constructor
      · intro term compound
        split
        · exact right
        · exact consistent.compound term compound
      · intro term compound
        split
        · rename_i atLower
          rw [← functors.1, ← atLower, consistent.functor term compound]
        · exact consistent.functor term compound
      · intro term compound
        by_cases atLower : uf.root term = uf.root t1
        · rw [if_pos atLower]
          have above := children term compound
          rw [atLower] at above
          apply forall₂_trans (fun _ _ _ => Relation.EqvGen.trans _ _ _) above
          exact List.forall₂_iff_zip.mpr
            ⟨functors.2, fun member => .of_pending (List.mem_append_right _ member)⟩
        · rw [if_neg atLower]
          exact children term compound

/-- The constraints a merge adds are between subterms of the two roots. -/
theorem Merge.added_mem {uf : TermUnionFind T} {t1 t2 : T} {root' : T → T} {added : List (T × T)}
    (merge : Merge uf t1 t2 root' added) : ∀ constraint ∈ added,
      constraint.1 ∈ getSubterms (uf.root t1) ∧ constraint.2 ∈ getSubterms (uf.root t2) := by
  cases merge with
  | same equal => exact List.forall_mem_nil _
  | bind lower upper different sides unbound => exact List.forall_mem_nil _
  | decompose different left right functors => exact fun _ => List.of_mem_zip

/-- After a run every class respects the structure of terms and both sides of
every constraint are in one class. -/
theorem solveWithin_sound [DecidableEq Functor] (steps : Nat) : ∀ {uf uf' : TermUnionFind T} {constraints : List (T × T)},
    solveWithin steps uf constraints = some (.ok uf') → Consistent uf.root constraints →
      Consistent uf'.root [] ∧
        ∀ left right, Linked uf.root constraints left right → uf'.root left = uf'.root right := by
  induction steps with
  | zero =>
      intro uf uf' constraints solved consistent
      cases constraints with
      | nil =>
          cases solved
          exact ⟨consistent, fun _ _ => Linked.settled⟩
      | cons constraint constraints => cases solved
  | succ steps induction =>
      intro uf uf' constraints solved consistent
      cases constraints with
      | nil =>
          cases solved
          exact ⟨consistent, fun _ _ => Linked.settled⟩
      | cons constraint constraints =>
          rcases constraint with ⟨t1, t2⟩
          rw [solveWithin] at solved
          split at solved
          · cases solved
          · rename_i mid added unified
            have merge := unify_merge unified
            rcases induction solved (merge.consistent consistent) with ⟨settled, together⟩
            exact ⟨settled, fun left right linked => together left right (merge.linked linked)⟩

/-! ## Solutions are kept -/

section

variable {Leaf : Type*} {interpretation : T → TermTree Functor Leaf}

/-- An interpretation that agrees with the classes so far and solves what is pending. -/
structure Solution (interpretation : T → TermTree Functor Leaf) (root : T → T)
    (pending : List (T × T)) : Prop where
  respects : ∀ term, interpretation (root term) = interpretation term
  solves : Solves interpretation pending

omit [DecidableEq T] [Term T Functor] in
theorem solves_zip {left right : List T}
    (same : left.map interpretation = right.map interpretation) :
    Solves interpretation (left.zip right) := by
  intro constraint member
  rw [← List.forall₂_eq_eq_eq, List.forall₂_map_left_iff, List.forall₂_map_right_iff,
    List.forall₂_iff_zip] at same
  exact same.2 member

theorem Merge.solution {uf : TermUnionFind T} {t1 t2 : T} {root' : T → T}
    {added constraints : List (T × T)} (merge : Merge uf t1 t2 root' added)
    (interprets : Interprets interpretation)
    (solution : Solution interpretation uf.root ((t1, t2) :: constraints)) :
    Solution interpretation root' (constraints ++ added) := by
  rcases solution with ⟨respects, solves⟩
  rcases solves_cons.mp solves with ⟨own, rest⟩
  have roots : interpretation (uf.root t1) = interpretation (uf.root t2) := by
    rw [respects, respects, own]
  cases merge with
  | same equal => exact ⟨respects, solves_append.mpr ⟨rest, solves_nil⟩⟩
  | bind lower upper different sides unbound =>
      refine ⟨fun term => ?_, solves_append.mpr ⟨rest, solves_nil⟩⟩
      have sameSides : interpretation lower = interpretation upper := by
        rcases sides with ⟨rfl, rfl⟩ | ⟨rfl, rfl⟩
        · exact roots
        · exact roots.symm
      split
      · rename_i atLower
        rw [← sameSides, ← atLower, respects]
      · exact respects term
  | decompose different left right functors =>
      constructor
      · intro term
        split
        · rename_i atLower
          rw [← roots, ← atLower, respects]
        · exact respects term
      · rw [interprets _ left, interprets _ right] at roots
        exact solves_append.mpr ⟨rest, solves_zip (TermTree.node_injective roots).2⟩

variable [DecidableEq Functor]

/-- A run loses no solution, and fails only where there is none. -/
theorem solveWithin_complete (steps : Nat) (interprets : Interprets interpretation) :
    ∀ {uf : TermUnionFind T} {constraints : List (T × T)}
      {result : Except (TermUnificationError T) (TermUnionFind T)},
      solveWithin steps uf constraints = some result →
      Solution interpretation uf.root constraints →
        ∃ uf', result = .ok uf' ∧ ∀ term, interpretation (uf'.root term) = interpretation term := by
  induction steps with
  | zero =>
      intro uf constraints result solved solution
      cases constraints with
      | nil =>
          cases solved
          exact ⟨uf, rfl, solution.respects⟩
      | cons constraint constraints => cases solved
  | succ steps induction =>
      intro uf constraints result solved solution
      cases constraints with
      | nil =>
          cases solved
          exact ⟨uf, rfl, solution.respects⟩
      | cons constraint constraints =>
          rcases constraint with ⟨t1, t2⟩
          rw [solveWithin] at solved
          split at solved
          · rename_i error failed
            rcases unify_error failed with ⟨left, right, functors⟩
            have roots : interpretation (uf.root t1) = interpretation (uf.root t2) := by
              rw [solution.respects, solution.respects]
              exact (solves_cons.mp solution.solves).1
            rw [interprets _ left, interprets _ right] at roots
            rcases TermTree.node_injective roots with ⟨sameFunctor, sameChildren⟩
            have lengths := congrArg List.length sameChildren
            simp only [List.length_map] at lengths
            exact absurd ⟨sameFunctor, lengths⟩ functors
          · rename_i mid added unified
            exact induction solved ((unify_merge unified).solution interprets solution)

end

/-! ## Termination -/

section

/-- The subterms of a term, down to a depth. -/
def subtermsWithin : Nat → T → List T
  | 0, term => [term]
  | depth + 1, term => term :: (getSubterms term).flatMap (subtermsWithin depth)

def subtermsOf (term : T) : List T :=
  subtermsWithin (size term) term

omit [DecidableEq T] in
theorem self_mem_subtermsWithin (depth : Nat) (term : T) : term ∈ subtermsWithin depth term := by
  cases depth <;> simp [subtermsWithin]

omit [DecidableEq T] in
theorem subtermsWithin_closed (depth : Nat) : ∀ {term : T}, size term ≤ depth →
    ∀ {inner : T}, inner ∈ subtermsWithin depth term →
      ∀ subterm ∈ getSubterms inner, subterm ∈ subtermsWithin depth term := by
  induction depth with
  | zero =>
      intro term bound inner member subterm child
      rw [subtermsWithin, List.mem_singleton] at member
      subst member
      have smaller := subterm_smaller inner subterm child
      omega
  | succ depth induction =>
      intro term bound inner member subterm child
      rw [subtermsWithin, List.mem_cons, List.mem_flatMap] at member ⊢
      right
      rcases member with rfl | ⟨above, aboveMem, below⟩
      · exact ⟨subterm, child, self_mem_subtermsWithin depth subterm⟩
      · have smaller := subterm_smaller term above aboveMem
        exact ⟨above, aboveMem, induction (by omega) below subterm child⟩

/-- The terms a run over these constraints can meet. -/
def reachable (uf : TermUnionFind T) (constraints : List (T × T)) : List T :=
  (uf.edges.map Prod.fst ++ constraints.flatMap fun constraint => [constraint.1, constraint.2]).flatMap
    subtermsOf

def arity (term : T) : Nat :=
  (getSubterms term).length

/-- Each constraint takes one step, and each compound term that stops being a
root enqueues its subterms. -/
def stepBound (uf : TermUnionFind T) (constraints : List (T × T)) : Nat :=
  constraints.length + ((reachable uf constraints).map arity).sum

/-- The run stays inside a set of terms closed under subterms. -/
structure Confined (terms : Finset T) (uf : TermUnionFind T) (constraints : List (T × T)) :
    Prop where
  closed : ∀ term ∈ terms, ∀ subterm ∈ getSubterms term, subterm ∈ terms
  stored : ∀ term, uf.Stored term → term ∈ terms
  pending : ∀ constraint ∈ constraints, constraint.1 ∈ terms ∧ constraint.2 ∈ terms

theorem confined_reachable (uf : TermUnionFind T) (constraints : List (T × T)) :
    Confined (reachable uf constraints).toFinset uf constraints where
  closed term member subterm child := by
    rw [List.mem_toFinset, reachable, List.mem_flatMap] at member ⊢
    rcases member with ⟨outer, outerMem, inside⟩
    exact ⟨outer, outerMem, subtermsWithin_closed _ le_rfl inside subterm child⟩
  stored term stored := by
    rw [List.mem_toFinset, reachable, List.mem_flatMap]
    exact ⟨term, List.mem_append_left _ stored, self_mem_subtermsWithin _ term⟩
  pending constraint member := by
    simp only [List.mem_toFinset, reachable, List.mem_flatMap]
    constructor
    · refine ⟨constraint.1, List.mem_append_right _ ?_, self_mem_subtermsWithin _ _⟩
      exact List.mem_flatMap.mpr ⟨constraint, member, by simp⟩
    · refine ⟨constraint.2, List.mem_append_right _ ?_, self_mem_subtermsWithin _ _⟩
      exact List.mem_flatMap.mpr ⟨constraint, member, by simp⟩

/-- The subterms that compound roots may still enqueue. -/
def potential (terms : Finset T) (root : T → T) : Nat :=
  ∑ term ∈ terms with root term = term, arity term

theorem root_mem {terms : Finset T} {uf : TermUnionFind T} {constraints : List (T × T)}
    (confined : Confined terms uf constraints) {term : T} (member : term ∈ terms) :
    uf.root term ∈ terms := by
  by_cases stored : uf.Stored term
  · exact confined.stored _ (TermUnionFind.stored_root stored)
  · have alone := uf.rootMap.fixed term (TermUnionFind.getParent_of_not_stored stored)
    rw [alone]
    exact member

theorem Merge.potential {terms : Finset T} {uf : TermUnionFind T} {t1 t2 : T} {root' : T → T}
    {added : List (T × T)} (merge : Merge uf t1 t2 root' added) (member : uf.root t1 ∈ terms) :
    TermUnifier.potential terms root' + added.length ≤ TermUnifier.potential terms uf.root := by
  have stillRoot : ∀ lower upper : T, lower ≠ upper → uf.root upper = upper → ∀ term,
      (if uf.root term = lower then upper else uf.root term) = term → uf.root term = term := by
    intro lower upper different upperRoot term same
    split at same
    · rename_i atLower
      subst same
      exact absurd (atLower.symm.trans upperRoot) different
    · exact same
  cases merge with
  | same equal => simp
  | bind lower upper different sides unbound =>
      have upperRoot : uf.root upper = upper := by
        rcases sides with ⟨_, rfl⟩ | ⟨_, rfl⟩ <;> simp
      apply Finset.sum_le_sum_of_subset
      intro term atRoot
      rw [Finset.mem_filter] at atRoot ⊢
      exact ⟨atRoot.1, stillRoot lower upper different upperRoot term atRoot.2⟩
  | decompose different left right functors =>
      have lost : uf.root t1 ∈ terms.filter fun term => uf.root term = term := by
        simpa using member
      have fewer : (terms.filter fun term =>
          (if uf.root term = uf.root t1 then uf.root t2 else uf.root term) = term) ⊆
          (terms.filter fun term => uf.root term = term).erase (uf.root t1) := by
        intro term atRoot
        rw [Finset.mem_filter] at atRoot
        rw [Finset.mem_erase, Finset.mem_filter]
        refine ⟨?_, atRoot.1, stillRoot _ _ different (by simp) term atRoot.2⟩
        rintro rfl
        simp only [TermUnionFind.root_root, ↓reduceIte] at atRoot
        exact different atRoot.2.symm
      have enqueued : ((getSubterms (uf.root t1)).zip (getSubterms (uf.root t2))).length =
          arity (uf.root t1) := by
        rw [List.length_zip, ← functors.2, Nat.min_self]
        rfl
      rw [enqueued, TermUnifier.potential, TermUnifier.potential,
        ← Finset.sum_erase_add _ _ lost]
      exact Nat.add_le_add_right (Finset.sum_le_sum_of_subset fewer) _

variable [DecidableEq Functor]

theorem unify_stored {uf uf' : TermUnionFind T} {t1 t2 : T} {added : List (T × T)}
    (unified : unify uf t1 t2 = .ok (uf', added)) {term : T} (stored : uf'.Stored term) :
    uf.Stored term ∨ term = t1 ∨ term = t2 ∨ term = uf.root t1 ∨ term = uf.root t2 := by
  have asked : ((uf.smartInsert t1).smartInsert t2).Stored term →
      uf.Stored term ∨ term = t1 ∨ term = t2 := by
    rw [TermUnionFind.stored_smartInsert, TermUnionFind.stored_smartInsert]
    rintro (second | first | older)
    · exact .inr (.inr second)
    · exact .inr (.inl first)
    · exact .inl older
  have united : ∀ left right : T, (left = uf.root t1 ∧ right = uf.root t2 ∨
      left = uf.root t2 ∧ right = uf.root t1) →
      (((uf.smartInsert t1).smartInsert t2).quickUnion left right).Stored term →
      uf.Stored term ∨ term = t1 ∨ term = t2 ∨ term = uf.root t1 ∨ term = uf.root t2 := by
    intro left right sides stored
    rcases TermUnionFind.stored_quickUnion stored with isLeft | isRight | older | isRoot
    · rcases sides with ⟨rfl, _⟩ | ⟨rfl, _⟩ <;> simp [isLeft]
    · rcases sides with ⟨_, rfl⟩ | ⟨_, rfl⟩ <;> simp [isRight]
    · rcases asked older with older | first | second <;> simp [*]
    · simp only [TermUnionFind.root_smartInsert] at isRoot
      rcases sides with ⟨rfl, _⟩ | ⟨rfl, _⟩ <;> simp [isRoot]
  simp only [unify, TermUnionFind.find_fst, TermUnionFind.find_snd,
    TermUnionFind.root_smartInsert] at unified
  split at unified
  · cases unified
    rcases asked stored with older | first | second <;> simp [*]
  split at unified
  · cases unified
    exact united _ _ (.inl ⟨rfl, rfl⟩) stored
  split at unified
  · cases unified
    exact united _ _ (.inl ⟨rfl, rfl⟩) stored
  split at unified
  · cases unified
    exact united _ _ (.inr ⟨rfl, rfl⟩) stored
  split at unified
  · cases unified
    exact united _ _ (.inl ⟨rfl, rfl⟩) stored
  · cases unified

theorem Confined.step {terms : Finset T} {uf uf' : TermUnionFind T} {t1 t2 : T}
    {added constraints : List (T × T)}
    (confined : Confined terms uf ((t1, t2) :: constraints))
    (unified : unify uf t1 t2 = .ok (uf', added)) :
    Confined terms uf' (constraints ++ added) := by
  rcases confined.pending (t1, t2) List.mem_cons_self with ⟨left, right⟩
  constructor
  · exact confined.closed
  · intro term stored
    rcases unify_stored unified stored with older | rfl | rfl | rfl | rfl
    · exact confined.stored term older
    · exact left
    · exact right
    · exact root_mem confined left
    · exact root_mem confined right
  · intro constraint member
    rcases List.mem_append.mp member with waiting | new
    · exact confined.pending constraint (List.mem_cons_of_mem _ waiting)
    · have parts := (unify_merge unified).added_mem constraint new
      exact ⟨confined.closed _ (root_mem confined left) _ parts.1,
        confined.closed _ (root_mem confined right) _ parts.2⟩

theorem solveWithin_isSome {terms : Finset T} (steps : Nat) :
    ∀ {uf : TermUnionFind T} {constraints : List (T × T)}, Confined terms uf constraints →
      constraints.length + potential terms uf.root ≤ steps →
        (solveWithin steps uf constraints).isSome = true := by
  induction steps with
  | zero =>
      intro uf constraints confined enough
      cases constraints with
      | nil => rfl
      | cons constraint constraints =>
          rw [List.length_cons] at enough
          omega
  | succ steps induction =>
      intro uf constraints confined enough
      cases constraints with
      | nil => rfl
      | cons constraint constraints =>
          rcases constraint with ⟨t1, t2⟩
          rw [solveWithin]
          split
          · rfl
          · rename_i mid added unified
            apply induction (confined.step unified)
            have member := (confined.pending (t1, t2) List.mem_cons_self).1
            have spent := (unify_merge unified).potential (root_mem confined member)
            rw [List.length_cons] at enough
            rw [List.length_append]
            omega

omit [DecidableEq Functor] in
theorem potential_le (uf : TermUnionFind T) (constraints : List (T × T)) :
    potential (reachable uf constraints).toFinset uf.root ≤
      ((reachable uf constraints).map arity).sum := by
  calc potential (reachable uf constraints).toFinset uf.root
      ≤ ∑ term ∈ (reachable uf constraints).toFinset, arity term :=
        Finset.sum_le_sum_of_subset (Finset.filter_subset _ _)
    _ = ((reachable uf constraints).dedup.map arity).sum :=
        rfl
    _ ≤ ((reachable uf constraints).map arity).sum :=
        List.Sublist.sum_le_sum ((List.dedup_sublist _).map arity) (fun _ _ => Nat.zero_le _)

theorem solveWithin_stepBound (uf : TermUnionFind T) (constraints : List (T × T)) :
    (solveWithin (stepBound uf constraints) uf constraints).isSome = true := by
  apply solveWithin_isSome _ (confined_reachable uf constraints)
  exact Nat.add_le_add_left (potential_le uf constraints) _

/-- Work through the queue until it is empty. -/
def solve (uf : TermUnionFind T) (constraints : List (T × T)) :
    Except (TermUnificationError T) (TermUnionFind T) :=
  (solveWithin (stepBound uf constraints) uf constraints).get
    (solveWithin_stepBound uf constraints)

theorem solve_sound {uf uf' : TermUnionFind T} {constraints : List (T × T)}
    (solved : solve uf constraints = .ok uf') (consistent : Consistent uf.root []) :
    Consistent uf'.root [] ∧
      (∀ left right, uf.root left = uf.root right → uf'.root left = uf'.root right) ∧
      ∀ constraint ∈ constraints, uf'.root constraint.1 = uf'.root constraint.2 := by
  have ran := Option.some_get (solveWithin_stepBound uf constraints)
  rw [show (solveWithin (stepBound uf constraints) uf constraints).get _ = .ok uf' from solved]
    at ran
  rcases solveWithin_sound _ ran.symm (consistent.mono (List.nil_subset _)) with
    ⟨settled, together⟩
  exact ⟨settled, fun left right same => together left right (.of_root same),
    fun constraint member => together _ _ (.of_pending member)⟩

/-- The classes describe a most general solution: every solution of the new
constraints that agrees with the classes before agrees with the classes after. -/
theorem solve_complete {Leaf : Type*} {interpretation : T → TermTree Functor Leaf}
    (interprets : Interprets interpretation) {uf : TermUnionFind T} {constraints : List (T × T)}
    (respects : ∀ term, interpretation (uf.root term) = interpretation term)
    (solves : Solves interpretation constraints) :
    ∃ uf', solve uf constraints = .ok uf' ∧
      ∀ term, interpretation (uf'.root term) = interpretation term :=
  solveWithin_complete _ interprets
    (Option.some_get (solveWithin_stepBound uf constraints)).symm ⟨respects, solves⟩

end

end TermUnifier

end Topc
