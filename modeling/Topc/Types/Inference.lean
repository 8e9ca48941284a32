import Topc.Types.Constraints

/-! # Type inference

Functions that do not lead to a recursive function are generalised. They are
solved one by one, callees first, in one unifier; the constraints of the others
are solved together at the end. -/

namespace Topc

namespace TypeInference

/-! ## Order of the functions -/

section

variable (cg : CallGraph)

/-- Search for a chain of calls. The functions visited so far are not explored again. -/
def mayIndirectlyCallHelper : Nat → DeclNode → DeclNode → List DeclNode → Bool × List DeclNode
  | 0, _, _, visited => (false, visited)
  | depth + 1, f, g, visited =>
      if f ∈ visited then (false, visited)
      else
        (cg.getCallees f).foldl (fun (found, visited) c =>
          if found then (true, visited)
          else if c = g then (true, visited)
          else mayIndirectlyCallHelper depth c g visited) (false, f :: visited)

/-- Each level of the search visits another function. -/
def mayIndirectlyCall (f g : DeclNode) : Bool :=
  (mayIndirectlyCallHelper cg (cg.vertices.length + 1) f g []).1

def recursiveFuncs : List Function :=
  cg.vertices.filter fun f => mayIndirectlyCall cg f.decl f.decl

/-- The functions sorted so far and those not marked yet. -/
structure Sorting where
  sorted : List Function
  unmarked : List Function

/-- Depth-first search over the functions not marked yet, callees first. -/
def topoVisit : Nat → Sorting → DeclNode → Sorting
  | 0, sorting, _ => sorting
  | depth + 1, sorting, f =>
      match sorting.unmarked.find? fun function => function.decl = f with
      | none => sorting
      | some function =>
          let marked := { sorting with
            unmarked := sorting.unmarked.eraseP fun other => other.decl = f }
          let visited := (cg.getCallees f).foldl (topoVisit depth) marked
          { visited with sorted := visited.sorted ++ [function] }

/-- Start from the last function that is not marked until all are. -/
def topoSortFrom : Nat → Sorting → List Function
  | 0, sorting => sorting.sorted
  | rounds + 1, sorting =>
      match sorting.unmarked.getLast? with
      | none => sorting.sorted
      | some f => topoSortFrom rounds (topoVisit cg (cg.vertices.length + 1) sorting f.decl)

def topoSort (funcs : List Function) : List Function :=
  topoSortFrom cg (funcs.length + 1) ⟨[], funcs⟩

/-- A topological order of the functions that neither are recursive nor lead to a
recursive function. -/
def topoSortNonRecursive : List Function :=
  let recFuncs := recursiveFuncs cg
  topoSort cg (cg.vertices.filter fun f =>
    !(recFuncs.any fun r => f.decl = r.decl || mayIndirectlyCall cg f.decl r.decl))

end

/-! ## Solving -/

/-- Why inference stops: a constraint has no solution, or closing a type failed. -/
inductive InferenceError
  | unification (failed : TermUnificationError TopType)
  | closure (error : CompileError)

/-- Add the constraints to the unifier and solve them. -/
def solve (unifier : TermUnionFind TopType) (constraints : List TypeConstraint) :
    Except InferenceError (TermUnionFind TopType) :=
  (TermUnifier.solve unifier constraints).mapError .unification

section

variable (symbols : SymbolTable) (cg : CallGraph)

/-- One generalised function. -/
def inferPoly (unifier : TermUnionFind TopType) (f : Function) :
    Except InferenceError (TermUnionFind TopType) := do
  let constraints ←
    (PolyTypeConstraintVisitor.getCollectedConstraints symbols cg unifier f).mapError .closure
  solve unifier constraints

/-- The functions that were not solved on their own. -/
def residual (nonRecursiveFuncs : List Function) : List Function :=
  cg.vertices.filter fun f => !(nonRecursiveFuncs.any fun other => other.decl = f.decl)

/-- The symbol table with the generalised functions marked, and the unifier. -/
def runPoly : Except InferenceError (SymbolTable × TermUnionFind TopType) := do
  let nonRecursiveFuncs := topoSortNonRecursive cg
  let symbols := nonRecursiveFuncs.foldl (fun symbols f => symbols.setPoly f.getName) symbols
  let unifier ← nonRecursiveFuncs.foldlM (inferPoly symbols cg) .empty
  let unifier ← solve unifier ((residual cg nonRecursiveFuncs).flatMap
    (TypeConstraintVisitor.getCollectedConstraints symbols))
  return (symbols, unifier)

end

/-! ## Inferred types -/

section

variable (symbols : SymbolTable) (unifier : TermUnionFind TopType)

def getInferredType (decl : DeclNode) : Except CompileError TopType :=
  TopTypeClosure.close unifier decl.typeVar

/-- The type of an expression of a function. A name has the type of its declaration. -/
def getInferredExprType (scope : DeclNode) (expr : Expr) : Except CompileError TopType :=
  TopTypeClosure.close unifier (TypeConstraintVisitor.astToVar symbols scope expr)

end

end TypeInference

end Topc
