import Mathlib.Data.List.Forall2

/-! # Possibly infinite first-order trees

The solutions of equations between terms when a variable may stand for a term
that contains it. A tree is given by its label at each path; an interpretation
of terms as trees respects the structure of the terms. -/

/-- A tree over functors and leaf variables: the label found at each path. A
functor's label also tells how many children its node has. -/
def TermTree (Functor Leaf : Type*) := List Nat → Option ((Functor × Nat) ⊕ Leaf)

namespace TermTree

variable {Functor Leaf Leaf' : Type*}

@[ext] theorem ext {left right : TermTree Functor Leaf}
    (labels : ∀ path, left path = right path) : left = right :=
  funext labels

def leaf (v : Leaf) : TermTree Functor Leaf
  | [] => some (.inr v)
  | _ :: _ => none

def node (functor : Functor) (children : List (TermTree Functor Leaf)) : TermTree Functor Leaf
  | [] => some (.inl (functor, children.length))
  | index :: path => children[index]?.bind fun child => child path

/-- The subtree at a child position. -/
def child (tree : TermTree Functor Leaf) (index : Nat) : TermTree Functor Leaf :=
  fun path => tree (index :: path)

@[simp] theorem leaf_nil (v : Leaf) : (leaf v : TermTree Functor Leaf) [] = some (.inr v) := rfl

@[simp] theorem leaf_cons (v : Leaf) (index : Nat) (path : List Nat) :
    (leaf v : TermTree Functor Leaf) (index :: path) = none := rfl

@[simp] theorem node_nil (functor : Functor) (children : List (TermTree Functor Leaf)) :
    node functor children [] = some (.inl (functor, children.length)) := rfl

@[simp] theorem node_cons (functor : Functor) (children : List (TermTree Functor Leaf))
    (index : Nat) (path : List Nat) :
    node functor children (index :: path) = children[index]?.bind fun child => child path :=
  rfl

theorem leaf_injective : Function.Injective (leaf : Leaf → TermTree Functor Leaf) := by
  intro left right equal
  have labels := congrFun equal []
  simpa using labels

theorem node_injective {functor functor' : Functor} {children children' : List (TermTree Functor Leaf)}
    (equal : node functor children = node functor' children') :
    functor = functor' ∧ children = children' := by
  have labels := congrFun equal []
  simp only [node_nil, Option.some.injEq, Sum.inl.injEq, Prod.mk.injEq] at labels
  rcases labels with ⟨functors, lengths⟩
  constructor
  · exact functors
  · apply List.ext_getElem lengths
    intro index bound bound'
    apply TermTree.ext
    intro path
    have below := congrFun equal (index :: path)
    simpa [bound, bound'] using below

/-! ## Substitution for the leaves -/

/-- Replace each leaf by the tree an assignment gives it. -/
def subst (assignment : Leaf → TermTree Functor Leaf') :
    TermTree Functor Leaf → TermTree Functor Leaf' :=
  fun tree path => go tree path
where
  go (tree : TermTree Functor Leaf) : List Nat → Option ((Functor × Nat) ⊕ Leaf')
    | [] =>
        match tree [] with
        | some (.inl label) => some (.inl label)
        | some (.inr v) => assignment v []
        | none => none
    | index :: path =>
        match tree [] with
        | some (.inl _) => go (tree.child index) path
        | some (.inr v) => assignment v (index :: path)
        | none => none

theorem subst_cons_of_functor (assignment : Leaf → TermTree Functor Leaf')
    {tree : TermTree Functor Leaf} {label : Functor × Nat} (atRoot : tree [] = some (.inl label))
    (index : Nat) (path : List Nat) :
    tree.subst assignment (index :: path) = (tree.child index).subst assignment path := by
  simp [subst, subst.go, atRoot]

theorem subst_of_leaf (assignment : Leaf → TermTree Functor Leaf')
    {tree : TermTree Functor Leaf} {v : Leaf} (atRoot : tree [] = some (.inr v)) :
    tree.subst assignment = assignment v := by
  apply TermTree.ext
  intro path
  cases path <;> simp [subst, subst.go, atRoot]

@[simp] theorem subst_leaf (assignment : Leaf → TermTree Functor Leaf') (v : Leaf) :
    (leaf v).subst assignment = assignment v :=
  subst_of_leaf assignment rfl

@[simp] theorem subst_node (assignment : Leaf → TermTree Functor Leaf') (functor : Functor)
    (children : List (TermTree Functor Leaf)) :
    (node functor children).subst assignment =
      node functor (children.map (subst assignment)) := by
  apply TermTree.ext
  intro path
  cases path with
  | nil => simp [subst, subst.go]
  | cons index path =>
      rw [subst_cons_of_functor assignment (node_nil functor children)]
      by_cases bound : index < children.length
      · have below : (node functor children).child index = children[index] := by
          apply TermTree.ext
          intro rest
          simp [child, bound]
        simp [below, bound]
      · have empty : ∀ rest, (node functor children).child index rest = none := by
          intro rest
          simp [child, bound]
        cases path <;> simp [subst, subst.go, empty, bound]

end TermTree

/-! ## Terms and their interpretations -/

/-- First-order terms: variables and functors applied to subterms. Terms are
finite, as `size` shows. -/
class Term (T : Type*) (Functor : outParam Type*) where
  isVariable : T → Bool
  getFunctor : T → Functor
  getSubterms : T → List T
  size : T → Nat
  subterm_smaller : ∀ term, ∀ subterm ∈ getSubterms term, size subterm < size term

namespace Term

variable {T Functor Leaf Leaf' : Type*}

/-- An interpretation satisfies an equation when both sides are one tree. -/
def Solves (interpretation : T → TermTree Functor Leaf) (constraints : List (T × T)) : Prop :=
  ∀ constraint ∈ constraints, interpretation constraint.1 = interpretation constraint.2

theorem solves_append {interpretation : T → TermTree Functor Leaf} {first second : List (T × T)} :
    Solves interpretation (first ++ second) ↔
      Solves interpretation first ∧ Solves interpretation second := by
  simp [Solves, or_imp, forall_and]

@[simp] theorem solves_cons {interpretation : T → TermTree Functor Leaf} {left right : T}
    {rest : List (T × T)} :
    Solves interpretation ((left, right) :: rest) ↔
      interpretation left = interpretation right ∧ Solves interpretation rest := by
  simp [Solves]

@[simp] theorem solves_nil {interpretation : T → TermTree Functor Leaf} :
    Solves interpretation ([] : List (T × T)) := by
  simp [Solves]

variable [Term T Functor]

/-- An assignment of trees to terms that respects their structure. -/
def Interprets (interpretation : T → TermTree Functor Leaf) : Prop :=
  ∀ term, isVariable term = false →
    interpretation term = .node (getFunctor term) ((getSubterms term).map interpretation)

/-! ## Unfolding a graph of representatives -/

/-- The tree reached from a term by going to representatives: a representative
that is a variable is a leaf, any other is a node over its subterms. -/
def unfolding (root : T → T) (term : T) : TermTree Functor T :=
  fun path => go term path
where
  go (term : T) : List Nat → Option ((Functor × Nat) ⊕ T)
    | [] =>
        if isVariable (root term) then some (.inr (root term))
        else some (.inl (getFunctor (root term), (getSubterms (root term)).length))
    | index :: path =>
        if isVariable (root term) then none
        else (getSubterms (root term))[index]?.bind fun subterm => go subterm path

theorem unfolding_of_variable {root : T → T} {term : T}
    (unbound : isVariable (root term) = true) :
    unfolding root term = .leaf (root term) := by
  apply TermTree.ext
  intro path
  cases path <;> simp [unfolding, unfolding.go, unbound]

theorem unfolding_of_compound {root : T → T} {term : T}
    (bound : isVariable (root term) = false) :
    unfolding root term =
      .node (getFunctor (root term)) ((getSubterms (root term)).map (unfolding root)) := by
  apply TermTree.ext
  intro path
  cases path with
  | nil => simp [unfolding, unfolding.go, bound]
  | cons index path =>
      simp only [TermTree.node_cons, List.getElem?_map]
      rw [unfolding, unfolding.go, bound]
      simp only [Bool.false_eq_true, ↓reduceIte]
      cases (getSubterms (root term))[index]? <;> rfl

theorem unfolding_congr {root : T → T} {left right : T} (same : root left = root right) :
    unfolding root left = unfolding root right := by
  cases kind : isVariable (root left) with
  | true =>
      rw [unfolding_of_variable kind, unfolding_of_variable (same ▸ kind), same]
  | false =>
      rw [unfolding_of_compound kind, unfolding_of_compound (same ▸ kind), same]

/-- Representatives respect the structure of terms: a compound term is
represented by a compound term of the same functor, child by child. -/
structure Congruent (root : T → T) : Prop where
  compound : ∀ term, isVariable term = false → isVariable (root term) = false
  functor : ∀ term, isVariable term = false → getFunctor (root term) = getFunctor term
  subterms : ∀ term, isVariable term = false →
    List.Forall₂ (fun left right => root left = root right)
      (getSubterms term) (getSubterms (root term))

/-- Compound terms of one class have children of the same classes. -/
theorem Congruent.map_subterms {root : T → T} (congruent : Congruent root) {left right : T}
    (leftCompound : isVariable left = false) (rightCompound : isVariable right = false)
    (same : root left = root right) :
    (getSubterms left).map root = (getSubterms right).map root := by
  have ofRep : ∀ term, isVariable term = false →
      (getSubterms term).map root = (getSubterms (root term)).map root := by
    intro term compound
    apply List.forall₂_eq_eq_eq ▸ List.forall₂_map_left_iff.mpr (List.forall₂_map_right_iff.mpr _)
    exact congruent.subterms term compound
  rw [ofRep left leftCompound, ofRep right rightCompound, same]

theorem Congruent.unfolding_interprets {root : T → T} (congruent : Congruent root) :
    Interprets (unfolding root : T → TermTree Functor T) := by
  intro term compound
  rw [unfolding_of_compound (congruent.compound term compound),
    congruent.functor term compound]
  have children : (getSubterms term).map (unfolding root) =
      (getSubterms (root term)).map (unfolding root) := by
    apply List.forall₂_eq_eq_eq ▸ List.forall₂_map_left_iff.mpr (List.forall₂_map_right_iff.mpr _)
    exact (congruent.subterms term compound).imp fun _ _ => unfolding_congr
  rw [children]

/-- Every interpretation that does not tell a term from its representative is
an instance of the unfolding. -/
theorem unfolding_mostGeneral {root : T → T} {interpretation : T → TermTree Functor Leaf}
    (interprets : Interprets interpretation)
    (respects : ∀ term, interpretation (root term) = interpretation term) (term : T) :
    interpretation term = (unfolding root term).subst interpretation := by
  apply TermTree.ext
  intro path
  induction path generalizing term with
  | nil =>
      cases kind : isVariable (root term) with
      | true => rw [unfolding_of_variable kind, TermTree.subst_leaf, respects]
      | false =>
          rw [unfolding_of_compound kind, TermTree.subst_node, ← respects, interprets _ kind]
          simp
  | cons index path induction =>
      cases kind : isVariable (root term) with
      | true => rw [unfolding_of_variable kind, TermTree.subst_leaf, respects]
      | false =>
          rw [unfolding_of_compound kind, TermTree.subst_node, ← respects, interprets _ kind]
          simp only [TermTree.node_cons, List.getElem?_map]
          cases (getSubterms (root term))[index]? with
          | none => rfl
          | some subterm => simpa using induction subterm

end Term
