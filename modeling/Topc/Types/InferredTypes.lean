import Topc.Types.SolvedConstraints

/-! # The types that inference gives -/

namespace Topc

open TopType TopTypeClosure

section

variable {uf : TermUnionFind TopType}

/-- After any successful solve, a type over the variables of the program is closed
faithfully exactly when it is closable. -/
theorem close_faithful_iff {batches : List (List (TopType × TopType))}
    (sorted : ∀ batch ∈ batches, ∀ constraint ∈ batch, TermUnifier.SameSort sort constraint)
    {uf : TermUnionFind TopType} (solved : TermUnifier.solveBatches batches = .ok uf)
    {type : TopType} (program : type.inProgram = true) :
    (∃ closed, close uf type = .ok closed ∧ FaithfullyClosed uf type closed) ↔
      Closable uf type := by
  have keeps := TermUnifier.solveBatches_keepsSort sortsDescend sorted solved
  have congruent :=
    (TermUnifier.foldlM_solve_sound batches solved TermUnifier.consistent_empty).1.congruent
  constructor
  · rintro ⟨closed, result, faithful⟩
    exact closable_of_faithful keeps (.inr program) result faithful
  · intro closable
    rcases closes keeps congruent closable (.inr program) (uf.edges.length + 3) type [] .refl
      (by rw [List.length_nil]; omega) with ⟨closed, result, sound⟩
    have names : NamesTrees uf [] fun v => .leaf (.var v) := ⟨nofun, fun _ _ _ => rfl⟩
    refine ⟨closed, result, sound.tree _ names, ?_, ?_, sound.binders _ names⟩
    · intro w free
      rcases sound.free w free with ⟨v, isProgram, alpha, unbound | ⟨seen, _⟩⟩
      · exact ⟨v, isProgram, unbound, alpha⟩
      · cases seen
    · exact fun v w => solvedTree_apart keeps

end

/-! ## A type that recurs through an instantiation -/

namespace InstantiatedCycle

def x : DeclNode := { id := 1, name := "x" }

def l : DeclNode := { id := 6, name := "l" }

/-- `mk(x) { return alloc x; }` -/
def mk : Function where
  decl := { id := 0, name := "mk" }
  formals := [x]
  declarations := []
  stmts := []
  returnInfo := { id := 2 }
  returnArg := .allocExpr { id := 3 } (.varExpr { id := 4 } "x")

/-- `main() { var l; l = mk(l); return 0; }` -/
def main : Function where
  decl := { id := 5, name := "main" }
  formals := []
  declarations := [l]
  stmts := [.assignStmt { id := 7 } (.varExpr { id := 8 } "l")
    (.funAppExpr { id := 9 } (.varExpr { id := 10 } "mk") [.varExpr { id := 11 } "l"])]
  returnInfo := { id := 12 }
  returnArg := .numExpr { id := 13 } 0

def program : Program where
  typedecls := []
  functions := [mk, main]

def solver (symbols : SymbolTable) : Option CfaSolver :=
  CFAnalyzer.analyze program symbols id (fun s source target =>
    (s.findPath id 8 source target).getD []) 16

/-- The type of `l`: the alpha that stands for it below the `mu` has lost its context. -/
def closedL : TopType :=
  .owningRef (.mu (.alpha 1 (some 9) "") (.owningRef (.var (.alpha 1 none ""))))

theorem program_solved : ∃ symbols callGraph marked uf,
    SymbolTable.build program = .ok symbols ∧ callGraph.IsBuilt program symbols ∧
      TypeInference.runPoly symbols callGraph = .ok (marked, uf) ∧
      (callGraph.vertices.map Function.decl).Nodup ∧ close uf l.typeVar = .ok closedL := by
  have holds : (match SymbolTable.build program with
      | .error _ => false
      | .ok symbols =>
          match solver symbols with
          | none => false
          | some s =>
              match TypeInference.runPoly symbols (CallGraphBuilder.build program symbols s) with
              | .error _ => false
              | .ok result => decide ((close result.2 l.typeVar).toOption = some closedL)) = true := by
    decide +kernel
  split at holds
  · cases holds
  · rename_i symbols built
    split at holds
    · cases holds
    · rename_i s analyzed
      split at holds
      · cases holds
      · rename_i result inferred
        refine ⟨symbols, CallGraphBuilder.build program symbols s, result.1, result.2, built,
          ⟨_, _, _, s, analyzed, rfl, fun _ => .rfl, fun _ => .rfl⟩, inferred, ?_, ?_⟩
        · change (program.functions.map Function.decl).Nodup
          decide
        · cases outcome : close result.2 l.typeVar with
          | error error =>
              rw [outcome] at holds
              cases holds
          | ok closed =>
              rw [outcome] at holds
              exact congrArg _ (Option.some.inj (of_decide_eq_true holds))

theorem closedL_unfaithful : ∃ symbols callGraph marked uf,
    SymbolTable.build program = .ok symbols ∧ callGraph.IsBuilt program symbols ∧
      TypeInference.runPoly symbols callGraph = .ok (marked, uf) ∧
      ¬ ∃ closed, close uf l.typeVar = .ok closed ∧ FaithfullyClosed uf l.typeVar closed := by
  rcases program_solved with ⟨symbols, callGraph, marked, uf, built, graph, inferred, _, result⟩
  refine ⟨symbols, callGraph, marked, uf, built, graph, inferred, ?_⟩
  rintro ⟨closed, closedResult, faithful⟩
  rw [result] at closedResult
  cases closedResult
  rcases faithful.binders.2 with ⟨v, _, _, binds, _⟩
  revert binds
  decide

theorem closedL_iff : ∃ symbols callGraph marked uf,
    TypeInference.runPoly symbols callGraph = .ok (marked, uf) ∧
      ((∃ closed, close uf l.typeVar = .ok closed ∧ FaithfullyClosed uf l.typeVar closed) ↔
        Closable uf l.typeVar) := by
  rcases program_solved with ⟨symbols, callGraph, marked, uf, _, _, inferred, distinct, _⟩
  rcases (TypeInference.runPoly_solves distinct inferred).2 with ⟨batches, solved, _⟩
  exact ⟨symbols, callGraph, marked, uf, inferred,
    close_faithful_iff solved.sorted solved.solved rfl⟩

end InstantiatedCycle

end Topc
