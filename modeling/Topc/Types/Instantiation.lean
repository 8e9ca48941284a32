import Topc.Types.InferredTypes

/-! # Instantiating a generalised type

A call of a generalised function gets a copy of its type in which every alpha
carries the call as its context. -/

namespace Topc

open TopType

/-! ## Occurrences of variables -/

mutual
/-- The occurrences of variables in a type, left to right. A `mu` binds at one. -/
def TopType.occurrences : TopType → List TypeVar
  | .var v => [v]
  | .int | .mode _ | .modeVar _ => []
  | .function params ret => TopType.occurrencesOfAll params ++ ret.occurrences
  | .reference refMode referenced => refMode.occurrences ++ referenced.occurrences
  | .sumType _ _ payloads => TopType.occurrencesOfAll payloads
  | .mu v body => v :: body.occurrences

def TopType.occurrencesOfAll : List TopType → List TypeVar
  | [] => []
  | type :: types => type.occurrences ++ TopType.occurrencesOfAll types
end

/-- A type with its variables blotted out: its constructors, the order of their
arguments, its modes and the metadata of its sums. -/
def TopType.skeleton (type : TopType) : TopType :=
  type.mapVars fun _ => .var (.plain 0)

/-- The copy is the original with its variables renamed one to one. -/
structure InjectiveRenaming (original copy : TopType) : Prop where
  skeleton : copy.skeleton = original.skeleton
  occurrences : ∀ i j : Nat, copy.occurrences[i]? = copy.occurrences[j]? ↔
    original.occurrences[i]? = original.occurrences[j]?

/-! ## Renaming variables -/

section

variable (rename : TypeVar → TypeVar)

theorem occurrencesOfAll_renamed {types : List TopType}
    (each : ∀ type ∈ types, (type.mapVars fun v => .var (rename v)).occurrences =
      type.occurrences.map rename) :
    TopType.occurrencesOfAll (types.map fun type => type.mapVars fun v => .var (rename v)) =
      (TopType.occurrencesOfAll types).map rename := by
  induction types with
  | nil => rfl
  | cons type types induction =>
      rw [List.map_cons, occurrencesOfAll, occurrencesOfAll, List.map_append,
        each type List.mem_cons_self,
        induction fun other member => each other (List.mem_cons_of_mem _ member)]

theorem occurrences_renamed (type : TopType) :
    (type.mapVars fun v => .var (rename v)).occurrences = type.occurrences.map rename := by
  induction type with
  | var v => rfl
  | int | mode | modeVar => rfl
  | function params ret paramsRenamed retRenamed =>
      rw [mapVars, mapAllVars_eq, TopType.occurrences, TopType.occurrences, List.map_append,
        occurrencesOfAll_renamed rename paramsRenamed, retRenamed]
  | reference refMode referenced modeRenamed referencedRenamed =>
      rw [mapVars, TopType.occurrences, TopType.occurrences, List.map_append, modeRenamed,
        referencedRenamed]
  | sumType typeName ctors payloads payloadsRenamed =>
      rw [mapVars, mapAllVars_eq, TopType.occurrences, TopType.occurrences,
        occurrencesOfAll_renamed rename payloadsRenamed]
  | mu v body bodyRenamed =>
      rw [mapVars, TopType.occurrences, TopType.occurrences, List.map_cons, bodyRenamed]

theorem skeleton_renamed (type : TopType) :
    (type.mapVars fun v => .var (rename v)).skeleton = type.skeleton := by
  induction type with
  | var v => rfl
  | int | mode | modeVar => rfl
  | function params ret paramsRenamed retRenamed =>
      simp only [skeleton, mapVars, mapAllVars_eq, List.map_map]
      exact congrArg₂ TopType.function (List.map_congr_left paramsRenamed) retRenamed
  | reference refMode referenced modeRenamed referencedRenamed =>
      simp only [skeleton, mapVars] at modeRenamed referencedRenamed ⊢
      rw [modeRenamed, referencedRenamed]
  | sumType typeName ctors payloads payloadsRenamed =>
      simp only [skeleton, mapVars, mapAllVars_eq, List.map_map]
      exact congrArg (TopType.sumType typeName ctors) (List.map_congr_left payloadsRenamed)
  | mu v body bodyRenamed =>
      simp only [skeleton, mapVars] at bodyRenamed ⊢
      rw [bodyRenamed]

/-- A renaming is one to one on a type if it is on the variables that occur there. -/
theorem injectiveRenaming_iff (type : TopType) :
    InjectiveRenaming type (type.mapVars fun v => .var (rename v)) ↔
      ∀ v ∈ type.occurrences, ∀ w ∈ type.occurrences, rename v = rename w → v = w := by
  constructor
  · intro oneToOne v vMem w wMem same
    rcases List.mem_iff_getElem?.mp vMem with ⟨i, atI⟩
    rcases List.mem_iff_getElem?.mp wMem with ⟨j, atJ⟩
    have copied : (type.mapVars fun v => .var (rename v)).occurrences[i]? =
        (type.mapVars fun v => .var (rename v)).occurrences[j]? := by
      rw [occurrences_renamed, List.getElem?_map, List.getElem?_map, atI, atJ]
      exact congrArg some same
    have originals := (oneToOne.occurrences i j).mp copied
    rw [atI, atJ] at originals
    exact Option.some.inj originals
  · intro injective
    refine ⟨skeleton_renamed rename type, fun i j => ?_⟩
    rw [occurrences_renamed, List.getElem?_map, List.getElem?_map]
    constructor
    · intro copied
      cases atI : type.occurrences[i]? with
      | none =>
          rw [atI] at copied
          cases atJ : type.occurrences[j]? with
          | none => rfl
          | some w =>
              rw [atJ] at copied
              cases copied
      | some v =>
          rw [atI] at copied
          cases atJ : type.occurrences[j]? with
          | none =>
              rw [atJ] at copied
              cases copied
          | some w =>
              rw [atJ] at copied
              rw [injective v (List.mem_of_getElem? atI) w (List.mem_of_getElem? atJ)
                (Option.some.inj copied)]
    · intro originals
      rw [originals]

end

/-! ## The copy for a call -/

namespace FreshAlphaCopier

def renameVar (context : NodeId) : TypeVar → TypeVar
  | .plain node => .plain node
  | .alpha node _ name => .alpha node (some context) name

theorem copy_eq (t : TopType) (context : NodeId) :
    copy t context = t.mapVars fun v => .var (renameVar context v) := by
  have same : copyVar context = fun v => .var (renameVar context v) := by
    funext v
    cases v <;> rfl
  rw [copy, same]

/-- Two alphas are told apart after the copy unless only their contexts differ. -/
theorem renameVar_eq_iff {context : NodeId} {v w : TypeVar} :
    renameVar context v = renameVar context w ↔
      v = w ∨ ∃ node name left right, v = .alpha node left name ∧ w = .alpha node right name := by
  cases v with
  | plain node =>
      cases w <;> simp [renameVar]
  | alpha node left name =>
      cases w with
      | plain other => simp [renameVar]
      | alpha other right name' =>
          constructor
          · intro same
            cases same
            exact .inr ⟨node, name, left, right, rfl, rfl⟩
          · rintro (equal | ⟨_, _, _, _, first, second⟩)
            · cases equal
              rfl
            · cases first
              cases second
              rfl

end FreshAlphaCopier

/-- An alpha occurs in the type in one context only. -/
def OneContext (type : TopType) : Prop :=
  ∀ node name left right, TypeVar.alpha node left name ∈ type.occurrences →
    TypeVar.alpha node right name ∈ type.occurrences → left = right

/-- The copy for a call renames the variables of a type one to one exactly when no
two of them differ in their contexts alone. -/
theorem copy_injectiveRenaming_iff (type : TopType) (call : NodeId) :
    InjectiveRenaming type (FreshAlphaCopier.copy type call) ↔ OneContext type := by
  rw [FreshAlphaCopier.copy_eq, injectiveRenaming_iff]
  constructor
  · intro injective node name left right leftMem rightMem
    have same := injective _ leftMem _ rightMem
      (FreshAlphaCopier.renameVar_eq_iff.mpr (.inr ⟨node, name, left, right, rfl, rfl⟩))
    cases same
    rfl
  · intro oneContext v vMem w wMem same
    rcases FreshAlphaCopier.renameVar_eq_iff.mp same with equal | ⟨node, name, left, right, rfl, rfl⟩
    · exact equal
    · rw [oneContext node name left right vMem wMem]

/-! ## A type generalised from two instantiations -/

namespace TwoInstantiations

def x : DeclNode := { id := 1, name := "x" }

def t : DeclNode := { id := 5, name := "t" }

def y : DeclNode := { id := 14, name := "y" }

def z : DeclNode := { id := 15, name := "z" }

/-- `same(x) { return x; }` -/
def same : Function where
  decl := { id := 0, name := "same" }
  formals := [x]
  declarations := []
  stmts := []
  returnInfo := { id := 2 }
  returnArg := .varExpr { id := 3 } "x"

/-- `pick() { var t; t = same(1); return same; }` -/
def pick : Function where
  decl := { id := 4, name := "pick" }
  formals := []
  declarations := [t]
  stmts := [.assignStmt { id := 6 } (.varExpr { id := 7 } "t")
    (.funAppExpr { id := 8 } (.varExpr { id := 9 } "same") [.numExpr { id := 10 } 1])]
  returnInfo := { id := 11 }
  returnArg := .varExpr { id := 12 } "same"

/-- `both(y, z) { y = pick(); z = pick(); return 0; }` -/
def both : Function where
  decl := { id := 13, name := "both" }
  formals := [y, z]
  declarations := []
  stmts := [
    .assignStmt { id := 16 } (.varExpr { id := 17 } "y")
      (.funAppExpr { id := 18 } (.varExpr { id := 19 } "pick") []),
    .assignStmt { id := 20 } (.varExpr { id := 21 } "z")
      (.funAppExpr { id := 22 } (.varExpr { id := 23 } "pick") [])]
  returnInfo := { id := 24 }
  returnArg := .numExpr { id := 25 } 0

/-- `main() { return both(same, same); }` -/
def main : Function where
  decl := { id := 26, name := "main" }
  formals := []
  declarations := []
  stmts := []
  returnInfo := { id := 27 }
  returnArg := .funAppExpr { id := 28 } (.varExpr { id := 29 } "both")
    [.varExpr { id := 30 } "same", .varExpr { id := 31 } "same"]

def program : Program where
  typedecls := []
  functions := [same, pick, both, main]

def solver (symbols : SymbolTable) : Option CfaSolver :=
  CFAnalyzer.analyze program symbols id (fun s source target =>
    (s.findPath id 8 source target).getD []) 16

/-- The function `pick` returns, as one call instantiates it. -/
def instanceAt (call : NodeId) : TopType :=
  .function [.var (.alpha 1 (some call) "")] (.var (.alpha 1 (some call) ""))

/-- The type of `both`: its formals are functions over different variables. -/
def genericBoth : TopType :=
  .function [instanceAt 18, instanceAt 22] .int

/-- The call of `both` makes one variable of the two. -/
theorem genericBoth_conflated : ∃ symbols callGraph marked uf,
    SymbolTable.build program = .ok symbols ∧ callGraph.IsBuilt program symbols ∧
      TypeInference.runPoly symbols callGraph = .ok (marked, uf) ∧
      TopTypeClosure.close uf both.decl.typeVar = .ok genericBoth ∧
      ¬ InjectiveRenaming genericBoth (FreshAlphaCopier.copy genericBoth 28) := by
  have holds : (match SymbolTable.build program with
      | .error _ => false
      | .ok symbols =>
          match solver symbols with
          | none => false
          | some s =>
              match TypeInference.runPoly symbols (CallGraphBuilder.build program symbols s) with
              | .error _ => false
              | .ok result =>
                  decide ((TopTypeClosure.close result.2 both.decl.typeVar).toOption =
                    some genericBoth)) = true := by
    decide +kernel
  split at holds
  · cases holds
  · rename_i symbols built
    split at holds
    · cases holds
    · rename_i s analyzed
      split at holds
      · cases holds
      · rename_i result inferred
        refine ⟨symbols, CallGraphBuilder.build program symbols s, result.1, result.2, built,
          ⟨_, _, _, s, analyzed, rfl, fun _ => .rfl, fun _ => .rfl⟩, inferred, ?_, ?_⟩
        · cases outcome : TopTypeClosure.close result.2 both.decl.typeVar with
          | error error =>
              rw [outcome] at holds
              cases holds
          | ok closed =>
              rw [outcome] at holds
              exact congrArg _ (Option.some.inj (of_decide_eq_true holds))
        · intro oneToOne
          -- The first formal's variable and the second's are occurrences 0 and 2.
          have conflated := (oneToOne.occurrences 0 2).mp rfl
          revert conflated
          decide

end TwoInstantiations

end Topc
