import Topc.Foundation.ValueTracing
import Topc.FunctionEffectSummaries.OnePassOrigins
import Topc.OwnershipPaths
import Topc.Weeding.RedundantArms

/-! # What a function returns

The runs of a body that writes its variables only by assignment, and where the
values of the variables come from on them. The recorded formals are what every run
returns exactly when the copies of one pass tell those of any number of iterations. -/

namespace Topc.FunctionEffectSummaries

open OwnershipPaths (armBinders armScope functionScope)

/-! ## Branches of a case statement -/

/-- The arm that is the first to match the value, if one does. -/
inductive FirstMatch (value : Datum String) : List CaseArm → Option CaseArm → Prop
  | none : FirstMatch value [] none
  | here {arm : CaseArm} {arms : List CaseArm} (matched : arm.shape.Matches value) :
      FirstMatch value (arm :: arms) (some arm)
  | later {arm : CaseArm} {arms : List CaseArm} {branch : Option CaseArm}
      (unmatched : ¬ arm.shape.Matches value) (rest : FirstMatch value arms branch) :
      FirstMatch value (arm :: arms) branch

/-- The sum type of a payload. -/
def payloadSum (symbols : SymbolTable) (types : TypeResults) (param : DeclNode) :
    Option SumTypeDecl :=
  match types.ofDecl param with
  | .sumType typeName _ _ | .mu _ (.sumType typeName _ _) => symbols.getSumType typeName
  | _ => none

/-- Some value of the matched type takes the branch: an arm, or none of them. -/
def BranchTaken (symbols : SymbolTable) (types : TypeResults) (arms : List CaseArm)
    (branch : Option CaseArm) : Prop :=
  ∃ owner value, (arms.head?.bind fun arm => symbols.getConstructorOwner arm.getTag) = some owner ∧
    value.Fits (payloadConstructors (payloadSum symbols types)) (some owner) ∧
      FirstMatch value arms branch

/-- The variable an expression is, if it is one. -/
def denoted (scope : Scope) : Expr → Option DeclNode
  | .varExpr _ name => (scope.lookup name).map Binding.decl
  | _ => none

section

variable (taken : List CaseArm → Option CaseArm → Prop)

/-! ## Runs -/

section

variable (V : Type*)

mutual
/-- The runs of a statement from a store to a store, for any conditions, results of
calls and other values that are not those of variables. -/
def runs (scope : Scope) : Stmt → (DeclNode → V) → (DeclNode → V) → Prop
  | .assignStmt _ lhs rhs =>
      match denoted scope lhs with
      | some decl => fun before after => ∃ value, Source.Holds before value (denoted scope rhs) ∧
          after = Function.update before decl value
      | none => Eq
  | .blockStmt _ stmts => runsAll scope stmts
  | .whileStmt _ _ body => Relation.ReflTransGen (runs scope body)
  | .ifStmt _ _ thenStmt elseStmt => fun before after =>
      runs scope thenStmt before after ∨ runsElse scope elseStmt before after
  | .outputStmt .. => Eq
  -- The program exits.
  | .errorStmt .. => fun _ _ => False
  | .caseStmt _ caseExpr arms => fun before after =>
      (taken arms none ∧ before = after) ∨
        runsArms scope (!caseExpr.isDeRef) arms arms before after

def runsAll (scope : Scope) : List Stmt → (DeclNode → V) → (DeclNode → V) → Prop
  | [] => Eq
  | stmt :: stmts => Relation.Comp (runs scope stmt) (runsAll scope stmts)

def runsElse (scope : Scope) : Option Stmt → (DeclNode → V) → (DeclNode → V) → Prop
  | none => Eq
  | some stmt => runs scope stmt

def runsArm (scope : Scope) (byValue : Bool) : CaseArm → (DeclNode → V) → (DeclNode → V) → Prop
  | .mk _ _ patterns body =>
      Relation.Comp
        (fun before entered => ∀ decl ∉ Pattern.collectAllBindings patterns, entered decl = before decl)
        (runs (armScope scope (armBinders byValue patterns)) body)

def runsArms (scope : Scope) (byValue : Bool) (all : List CaseArm) :
    List CaseArm → (DeclNode → V) → (DeclNode → V) → Prop
  | [] => fun _ _ => False
  | arm :: arms => fun before after =>
      (taken all (some arm) ∧ runsArm scope byValue arm before after) ∨
        runsArms scope byValue all arms before after
end

end

/-! ## Copies -/

mutual
/-- The variable after the statement may have the value that the other one had before
it, through copies. A value that comes from no variable comes from `none`. -/
def flows (scope : Scope) : Stmt → Source DeclNode → Source DeclNode → Prop
  | .assignStmt _ lhs rhs =>
      match denoted scope lhs with
      | some decl => fun source origin =>
          origin = if source = some decl then denoted scope rhs else source
      | none => Eq
  | .blockStmt _ stmts => flowsAll scope stmts
  | .whileStmt _ _ body => Relation.ReflTransGen (flows scope body)
  | .ifStmt _ _ thenStmt elseStmt => fun source origin =>
      flows scope thenStmt source origin ∨ flowsElse scope elseStmt source origin
  | .outputStmt .. => Eq
  | .errorStmt .. => fun _ _ => False
  | .caseStmt _ caseExpr arms => fun source origin =>
      (taken arms none ∧ source = origin) ∨
        flowsArms scope (!caseExpr.isDeRef) arms arms source origin

def flowsAll (scope : Scope) : List Stmt → Source DeclNode → Source DeclNode → Prop
  | [] => Eq
  | stmt :: stmts => Relation.Comp (flowsAll scope stmts) (flows scope stmt)

def flowsElse (scope : Scope) : Option Stmt → Source DeclNode → Source DeclNode → Prop
  | none => Eq
  | some stmt => flows scope stmt

def flowsArm (scope : Scope) (byValue : Bool) : CaseArm → Source DeclNode → Source DeclNode → Prop
  | .mk _ _ patterns body =>
      Relation.Comp (flows (armScope scope (armBinders byValue patterns)) body)
        (fun source origin => origin =
          if ∃ decl ∈ Pattern.collectAllBindings patterns, source = some decl then none else source)

def flowsArms (scope : Scope) (byValue : Bool) (all : List CaseArm) :
    List CaseArm → Source DeclNode → Source DeclNode → Prop
  | [] => fun _ _ => False
  | arm :: arms => fun source origin =>
      (taken all (some arm) ∧ flowsArm scope byValue arm source origin) ∨
        flowsArms scope byValue all arms source origin
end

theorem flows_assign {scope : Scope} {info : NodeInfo} {lhs rhs : Expr} (decl : DeclNode)
    {source origin : Source DeclNode} (target : denoted scope lhs = some decl)
    (copied : origin = if source = some decl then denoted scope rhs else source) :
    flows taken scope (.assignStmt info lhs rhs) source origin := by
  rw [flows, target]
  exact copied

/-! ## The copies are those of the runs -/

section

variable {V : Type*}

/-- The copies of the statement are those of its runs. -/
def StmtTraces (V : Type*) (stmt : Stmt) : Prop :=
  ∀ scope, Traces (runs taken V scope stmt) (flows taken scope stmt)

theorem runsAll_traces {stmts : List Stmt} (each : ∀ stmt ∈ stmts, StmtTraces taken V stmt)
    (scope : Scope) : Traces (runsAll taken V scope stmts) (flowsAll taken scope stmts) := by
  induction stmts with
  | nil => exact .refl
  | cons stmt stmts induction =>
      have rest := induction fun other member => each other (List.mem_cons_of_mem _ member)
      exact (each stmt List.mem_cons_self scope).comp rest

theorem runsArm_traces {arm : CaseArm} (body : StmtTraces taken V arm.getBody) (scope : Scope)
    (byValue : Bool) :
    Traces (runsArm taken V scope byValue arm) (flowsArm taken scope byValue arm) := by
  cases arm with
  | mk info tag patterns armBody =>
      exact (Traces.receive _).comp (body _)

theorem runsArms_traces {all arms : List CaseArm}
    (each : ∀ arm ∈ arms, StmtTraces taken V arm.getBody) (scope : Scope) (byValue : Bool) :
    Traces (runsArms taken V scope byValue all arms) (flowsArms taken scope byValue all arms) := by
  induction arms with
  | nil => exact .never
  | cons arm arms induction =>
      have rest := induction fun other member => each other (List.mem_cons_of_mem _ member)
      have first := runsArm_traces taken (each arm List.mem_cons_self) scope byValue
      exact (first.guard (taken all (some arm))).or rest

theorem stmtTraces (stmt : Stmt) : StmtTraces taken V stmt := by
  induction stmt with
  | assignStmt info lhs rhs =>
      intro scope
      rw [runs, flows]
      cases denoted scope lhs with
      | none => exact .refl
      | some decl => exact .store decl (denoted scope rhs)
  | blockStmt info stmts each => exact runsAll_traces taken each
  | whileStmt info condition body bodyTraces => exact fun scope => (bodyTraces scope).star
  | ifStmt info condition thenStmt elseStmt thenTraces elseTraces =>
      intro scope
      refine (thenTraces scope).or ?_
      cases elseStmt with
      | none => exact .refl
      | some stmt => exact elseTraces stmt rfl scope
  | outputStmt info arg => exact fun _ => .refl
  | errorStmt info arg => exact fun _ => .never
  | caseStmt info caseExpr arms each =>
      intro scope
      exact (Traces.refl.guard (taken arms none)).or (runsArms_traces taken each scope _)

end

end

/-! ## Recorded origins -/

section

variable (V : Type*) (rules : RuleToggles) (symbols : SymbolTable) (types : TypeResults)

/-- Every run of the body that returns does so with the value the formal had at first. -/
def AlwaysReturns (function : Function) (formal : DeclNode) : Prop :=
  ∀ before after value,
    runsAll (BranchTaken symbols types) V (functionScope function) function.stmts before after →
      Source.Holds after value (denoted (functionScope function) function.returnArg) →
        value = before formal

/-- Copies lead to the result from the formal only. -/
def ReturnsCopyOf (function : Function) (formal : DeclNode) : Prop :=
  ∀ origin, flowsAll (BranchTaken symbols types) (functionScope function) function.stmts
    (denoted (functionScope function) function.returnArg) origin → origin = some formal

theorem alwaysReturns_iff [Nontrivial V] (function : Function) (formal : DeclNode) :
    AlwaysReturns V symbols types function formal ↔ ReturnsCopyOf symbols types function formal :=
  (runsAll_traces _ (fun stmt _ => stmtTraces _ stmt) _).always_iff _ formal

/-- The recorded formals of a program are what every run returns exactly when, in each
function, copies that one pass leads to a formal only lead there in any number of
iterations. -/
theorem recordedFormals_iff [Nontrivial V] {program : Program}
    {result : List (DeclNode × Summary) × List (DeclNode × List ForwardRecord)}
    (built : build rules symbols types program = .ok result) :
    (∀ function ∈ program.functions, ∀ formal, RecordsFormal rules symbols types function formal →
      AlwaysReturns V symbols types function formal) ↔
    ∀ function ∈ program.functions, ∀ formal ∈ function.formals, CopiesOnce symbols function formal →
      ReturnsCopyOf symbols types function formal := by
  rw [build, bind_eq_ok] at built
  rcases built with ⟨_, summarized, _⟩
  refine forall₂_congr fun function member => ?_
  rcases exists_of_mapM summarized function member with ⟨_, _, entry⟩
  rcases bind_eq_ok.mp entry with ⟨summary, isSummary, _⟩
  simp only [recordsFormal_iff isSummary, alwaysReturns_iff, and_imp]

end

/-! ## Copies that rotate in a loop -/

namespace Rotation

def p : DeclNode := { id := 1, name := "p" }

def q : DeclNode := { id := 2, name := "q" }

def n : DeclNode := { id := 3, name := "n" }

def a : DeclNode := { id := 4, name := "a" }

def b : DeclNode := { id := 5, name := "b" }

/-- `a = b; b = q; n = n - 1;` -/
def body : List Stmt := [
  .assignStmt { id := 15 } (.varExpr { id := 16 } "a") (.varExpr { id := 17 } "b"),
  .assignStmt { id := 18 } (.varExpr { id := 19 } "b") (.varExpr { id := 20 } "q"),
  .assignStmt { id := 21 } (.varExpr { id := 22 } "n")
    (.binaryExpr { id := 23 } .sub (.varExpr { id := 24 } "n") (.numExpr { id := 25 } 1))]

/-- `rotate(p, q, n) { var a, b; a = p; b = p; while (n > 0) { … } return a; }` -/
def rotate : Function where
  decl := { id := 0, name := "rotate" }
  formals := [p, q, n]
  declarations := [a, b]
  stmts := [
    .assignStmt { id := 6 } (.varExpr { id := 7 } "a") (.varExpr { id := 8 } "p"),
    .assignStmt { id := 9 } (.varExpr { id := 10 } "b") (.varExpr { id := 11 } "p"),
    .whileStmt { id := 12 }
      (.binaryExpr { id := 13 } .gt (.varExpr { id := 14 } "n") (.numExpr { id := 26 } 0))
      (.blockStmt { id := 27 } body)]
  returnInfo := { id := 28 }
  returnArg := .varExpr { id := 29 } "a"

/-- `main() { return rotate(1, 2, 2); }` -/
def main : Function where
  decl := { id := 30, name := "main" }
  formals := []
  declarations := []
  stmts := []
  returnInfo := { id := 31 }
  returnArg := .funAppExpr { id := 32 } (.varExpr { id := 33 } "rotate")
    [.numExpr { id := 34 } 1, .numExpr { id := 35 } 2, .numExpr { id := 36 } 2]

def program : Program where
  typedecls := []
  functions := [rotate, main]

def types : TypeResults where
  ofDecl decl :=
    if decl = rotate.decl then .function [.int, .int, .int] .int
    else if decl = main.decl then .function [] .int
    else .int
  ofExpr _ := .int

section

variable (taken : List CaseArm → Option CaseArm → Prop)

/-- An iteration copies `b` to `a`, and `q` to `b`. -/
theorem iteration_flows :
    flows taken (functionScope rotate) (.blockStmt { id := 27 } body) (some a) (some b) ∧
      flows taken (functionScope rotate) (.blockStmt { id := 27 } body) (some b) (some q) := by
  constructor
  · have first : flows taken (functionScope rotate) body[0] (some a) (some b) :=
        flows_assign taken a (by decide) (by decide)
    have second : flows taken (functionScope rotate) body[1] (some a) (some a) :=
        flows_assign taken b (by decide) (by decide)
    have third : flows taken (functionScope rotate) body[2] (some a) (some a) :=
        flows_assign taken n (by decide) (by decide)
    exact ⟨some a, ⟨some a, ⟨some a, rfl, third⟩, second⟩, first⟩
  · have first : flows taken (functionScope rotate) body[0] (some q) (some q) :=
        flows_assign taken a (by decide) (by decide)
    have second : flows taken (functionScope rotate) body[1] (some b) (some q) :=
        flows_assign taken b (by decide) (by decide)
    have third : flows taken (functionScope rotate) body[2] (some b) (some b) :=
        flows_assign taken n (by decide) (by decide)
    exact ⟨some q, ⟨some b, ⟨some b, rfl, third⟩, second⟩, first⟩

/-- After two iterations the result is a copy of `q`. -/
theorem rotate_flows :
    flowsAll taken (functionScope rotate) rotate.stmts
      (denoted (functionScope rotate) rotate.returnArg) (some q) := by
  have returned : denoted (functionScope rotate) rotate.returnArg = some a := by decide
  have first : flows taken (functionScope rotate) rotate.stmts[0] (some q) (some q) :=
      flows_assign taken a (by decide) (by decide)
  have second : flows taken (functionScope rotate) rotate.stmts[1] (some q) (some q) :=
      flows_assign taken b (by decide) (by decide)
  have loop : flows taken (functionScope rotate) rotate.stmts[2] (some a) (some q) := by
    have twice := iteration_flows taken
    exact (Relation.ReflTransGen.single twice.1).tail twice.2
  rw [returned]
  exact ⟨some q, ⟨some q, ⟨some a, rfl, loop⟩, second⟩, first⟩

end

/-- The second iteration copies `q`, so `rotate(1, 2, 2)` returns `2` and not `1`. -/
theorem rotate_not_formal : ∃ symbols, SymbolTable.build program = .ok symbols ∧
    RecordsFormal .allEnabled symbols types rotate p ∧
      ¬ AlwaysReturns Int symbols types rotate p := by
  have holds : (match SymbolTable.build program with
      | .error _ => false
      | .ok symbols =>
          match summarize .allEnabled symbols types rotate with
          | .error _ => false
          | .ok summary => decide (summary.returnOrigin = .fromFormal ∧
              summary.returnFormalIndex = some 0)) = true := by
    decide +kernel
  split at holds
  · cases holds
  · rename_i symbols built
    split at holds
    · cases holds
    · rename_i summary summarized
      have recorded := of_decide_eq_true holds
      refine ⟨symbols, built, ⟨summary, 0, summarized, rfl, recorded.1, recorded.2⟩, ?_⟩
      rw [alwaysReturns_iff]
      intro copy
      have same := copy (some q) (rotate_flows _)
      exact absurd same (by decide)

theorem program_recordedFormals_iff : ∃ symbols result, SymbolTable.build program = .ok symbols ∧
    build .allEnabled symbols types program = .ok result ∧
    ((∀ function ∈ program.functions, ∀ formal,
        RecordsFormal .allEnabled symbols types function formal →
          AlwaysReturns Int symbols types function formal) ↔
      ∀ function ∈ program.functions, ∀ formal ∈ function.formals,
        CopiesOnce symbols function formal → ReturnsCopyOf symbols types function formal) := by
  have accepted : ((SymbolTable.build program).toOption.bind fun symbols =>
      (build .allEnabled symbols types program).toOption).isSome = true := by
    decide +kernel
  rcases Option.isSome_iff_exists.mp accepted with ⟨result, accepted⟩
  rcases Option.bind_eq_some_iff.mp accepted with ⟨symbols, isTable, isResult⟩
  rw [toOption_eq_some] at isTable isResult
  exact ⟨symbols, result, isTable, isResult,
    recordedFormals_iff Int .allEnabled symbols types isResult⟩

end Rotation

end Topc.FunctionEffectSummaries
