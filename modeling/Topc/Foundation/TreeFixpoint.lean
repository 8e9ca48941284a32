import Mathlib.Logic.Function.Iterate
import Topc.Foundation.RationalTree

/-! # Fixed points of tree equations

An equation whose right-hand side puts a node above the unknown has at most one
solution among the possibly infinite trees, and `fix` is it. -/

namespace TermTree

variable {Functor Leaf : Type*}

/-! ## Agreement up to a depth -/

/-- The trees have the same labels at all paths shorter than the depth. -/
def AgreeTo (depth : Nat) (left right : TermTree Functor Leaf) : Prop :=
  ∀ path : List Nat, path.length < depth → left path = right path

namespace AgreeTo

variable {depth : Nat} {left right : TermTree Functor Leaf}

theorem refl (depth : Nat) (tree : TermTree Functor Leaf) : AgreeTo depth tree tree :=
  fun _ _ => rfl

theorem mono {smaller : Nat} (agree : AgreeTo depth left right) (below : smaller ≤ depth) :
    AgreeTo smaller left right :=
  fun path short => agree path (by omega)

theorem zero (left right : TermTree Functor Leaf) : AgreeTo 0 left right :=
  fun path short => absurd short (by omega)

/-- Nodes agree one level deeper than their children. -/
theorem node (functor : Functor) {lefts rights : List (TermTree Functor Leaf)}
    (children : List.Forall₂ (AgreeTo depth) lefts rights) :
    AgreeTo (depth + 1) (.node functor lefts) (.node functor rights) := by
  intro path short
  cases path with
  | nil => rw [node_nil, node_nil, children.length_eq]
  | cons index path =>
      rw [List.length_cons] at short
      rw [node_cons, node_cons]
      by_cases bound : index < lefts.length
      · have bound' : index < rights.length := children.length_eq ▸ bound
        rw [List.getElem?_eq_getElem bound, List.getElem?_eq_getElem bound']
        exact children.get bound bound' path (by omega)
      · have bound' : ¬ index < rights.length := children.length_eq ▸ bound
        rw [List.getElem?_eq_none (by omega), List.getElem?_eq_none (by omega)]

end AgreeTo

/-! ## Contractive steps -/

/-- The step puts at least one node above what it is given. -/
def Contractive (step : TermTree Functor Leaf → TermTree Functor Leaf) : Prop :=
  ∀ depth left right, AgreeTo depth left right → AgreeTo (depth + 1) (step left) (step right)

/-- A tree without labels. -/
def bare : TermTree Functor Leaf := fun _ => none

/-- The solution of `X = step X`: a label is settled after one step more than
its path is long. -/
def fix (step : TermTree Functor Leaf → TermTree Functor Leaf) : TermTree Functor Leaf :=
  fun path => step^[path.length + 1] bare path

section

variable {step : TermTree Functor Leaf → TermTree Functor Leaf}

/-- After so many steps it no longer matters where they started. -/
theorem Contractive.iterate (contractive : Contractive step) (left right : TermTree Functor Leaf)
    (depth : Nat) : AgreeTo depth (step^[depth] left) (step^[depth] right) := by
  induction depth with
  | zero => exact .zero _ _
  | succ depth induction =>
      rw [Function.iterate_succ_apply', Function.iterate_succ_apply']
      exact contractive depth _ _ induction

/-- The equation has no other solution. -/
theorem Contractive.eq_fix (contractive : Contractive step) {tree : TermTree Functor Leaf}
    (solves : step tree = tree) : tree = fix step := by
  apply TermTree.ext
  intro path
  have stays : step^[path.length + 1] tree = tree := Function.iterate_fixed solves _
  have agree := contractive.iterate tree bare (path.length + 1) path (by omega)
  rw [stays] at agree
  exact agree

end

/-- Steps that agree on agreeing trees have agreeing fixed points. -/
theorem fix_agree {depth : Nat} {step other : TermTree Functor Leaf → TermTree Functor Leaf}
    (together : ∀ left right, AgreeTo depth left right → AgreeTo depth (step left) (other right)) :
    AgreeTo depth (fix step) (fix other) := by
  have iterates : ∀ count, AgreeTo depth (step^[count] bare) (other^[count] bare) := by
    intro count
    induction count with
    | zero => exact .refl _ _
    | succ count induction =>
        rw [Function.iterate_succ_apply', Function.iterate_succ_apply']
        exact together _ _ induction
  intro path short
  exact iterates (path.length + 1) path short

end TermTree
