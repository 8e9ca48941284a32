import Mathlib.Order.Lattice
import Topc.Foundation.ChaoticIteration
import Topc.FunctionEffectSummaries
import Topc.Types.Inference

/-! # Function effect summaries, second phase

A generic body may need its formals to be copies. Each call decides from the
types of its actuals, and where these are generic too the requirement moves to a
formal of the caller, until nothing moves any more. -/

namespace Topc

/-! ## The order of requirements -/

open FunctionEffectSummaries (joinRequirement)

namespace CopyRequirement

/-- `none` is below `referent` and `self`, and both are below `both`. -/
instance : SemilatticeSup CopyRequirement where
  le left right := left = .none ∨ right = .both ∨ left = right
  le_refl kind := .inr (.inr rfl)
  le_trans left mid right := by cases left <;> cases mid <;> cases right <;> simp
  le_antisymm left right := by cases left <;> cases right <;> simp
  sup := joinRequirement
  le_sup_left left right := by cases left <;> cases right <;> simp [joinRequirement]
  le_sup_right left right := by cases left <;> cases right <;> simp [joinRequirement]
  sup_le left right upper := by
    cases left <;> cases right <;> cases upper <;> simp [joinRequirement]

theorem le_iff {left right : CopyRequirement} :
    left ≤ right ↔ left = .none ∨ right = .both ∨ left = right :=
  Iff.rfl

def rank : CopyRequirement → Nat
  | .none => 0
  | .referent | .self => 1
  | .both => 2

theorem rank_mono {left right : CopyRequirement} (below : left ≤ right) : left.rank ≤ right.rank := by
  rw [le_iff] at below
  cases left <;> cases right <;> simp_all [rank]

theorem rank_strict {left right : CopyRequirement} (below : left ≤ right) (different : left ≠ right) :
    left.rank < right.rank := by
  rw [le_iff] at below
  cases left <;> cases right <;> simp_all [rank]

end CopyRequirement

namespace FormalRequirement

/-- A requirement grows in its kind and in its set of reasons. -/
instance : SemilatticeSup FormalRequirement where
  le left right := left.kind ≤ right.kind ∧ left.reasons ||| right.reasons = right.reasons
  le_refl requirement := ⟨le_refl _, Nat.or_self _⟩
  le_trans left mid right := by
    rintro ⟨lower, lowerReasons⟩ ⟨upper, upperReasons⟩
    refine ⟨lower.trans upper, ?_⟩
    rw [← upperReasons, ← Nat.or_assoc, lowerReasons]
  le_antisymm left right := by
    rintro ⟨lower, lowerReasons⟩ ⟨upper, upperReasons⟩
    have sameKind := le_antisymm lower upper
    rw [Nat.or_comm, lowerReasons] at upperReasons
    cases left
    cases right
    simp_all
  sup left right := ⟨joinRequirement left.kind right.kind, left.reasons ||| right.reasons⟩
  le_sup_left left right := ⟨le_sup_left, by rw [← Nat.or_assoc, Nat.or_self]⟩
  le_sup_right left right := ⟨le_sup_right, by rw [Nat.or_comm left.reasons, ← Nat.or_assoc, Nat.or_self]⟩
  sup_le left right upper := by
    rintro ⟨lower, lowerReasons⟩ ⟨other, otherReasons⟩
    refine ⟨sup_le lower other, ?_⟩
    change left.reasons ||| right.reasons ||| upper.reasons = upper.reasons
    rw [Nat.or_assoc, otherReasons, lowerReasons]

/-- The join that the loop stores, with its kind and its reasons. -/
theorem sup_def (left right : FormalRequirement) :
    left ⊔ right = ⟨joinRequirement left.kind right.kind, left.reasons ||| right.reasons⟩ :=
  rfl

def rank (requirement : FormalRequirement) : Nat :=
  requirement.kind.rank + requirement.reasons

theorem reasons_mono {left right : FormalRequirement} (below : left ≤ right) :
    left.reasons ≤ right.reasons := by
  have grown := below.2
  rw [← grown]
  exact Nat.left_le_or

theorem rank_mono {left right : FormalRequirement} (below : left ≤ right) : left.rank ≤ right.rank :=
  Nat.add_le_add (CopyRequirement.rank_mono below.1) (reasons_mono below)

theorem rank_strict {left right : FormalRequirement} (below : left ≤ right)
    (different : left ≠ right) : left.rank < right.rank := by
  have reasonsBelow := reasons_mono below
  have kindBelow := CopyRequirement.rank_mono below.1
  simp only [rank]
  by_cases sameKind : left.kind = right.kind
  · have otherReasons : left.reasons ≠ right.reasons := by
      intro same
      apply different
      cases left
      cases right
      simp_all
    omega
  · have strict := CopyRequirement.rank_strict below.1 sameKind
    omega

end FormalRequirement

namespace FunctionEffectSummaries

/-! ## Verdicts -/

inductive Verdict
  | satisfied
  | violated
  | undetermined
deriving DecidableEq, Repr

def judgeSubject (subject : TopType) : Verdict :=
  if OwnershipClassifier.classifyType subject = .own then .violated
  else if OwnershipTypeRules.classDependsOnInstantiation subject then .undetermined
  else .satisfied

def judgeOne (requirement : CopyRequirement) (actualType : TopType) : Verdict :=
  if requirement = .referent then
    match actualType with
    | .reference _ referenced => judgeSubject referenced
    | _ => if OwnershipTypeRules.containsTypeVariable actualType then .undetermined else .satisfied
  else judgeSubject actualType

def judge (requirement : CopyRequirement) (actualType : TopType) : Verdict :=
  if requirement ≠ .both then judgeOne requirement actualType
  else
    let referent := judgeOne .referent actualType
    let self := judgeOne .self actualType
    if referent = .violated ∨ self = .violated then .violated
    else if referent = .undetermined ∨ self = .undetermined then .undetermined
    else .satisfied

/-! ## Calls -/

/-- A call with the function it is in. -/
structure Call where
  info : NodeInfo
  function : Expr
  actuals : List Expr
  scope : DeclNode

/-- Every call of the program. -/
def calls (program : Program) : List Call :=
  program.functions.flatMap fun function => function.postOrder.filterMap fun node =>
    match node with
    | .expr (.funAppExpr info callee actuals) => some ⟨info, callee, actuals, function.decl⟩
    | _ => none

/-- An actual of a call and the formal of a possible callee that it is passed to. -/
structure Passing where
  call : Call
  target : DeclNode
  summary : Summary
  position : Nat
  actual : Expr

/-- The formal of a function. -/
abbrev FormalSlot := DeclNode × Nat

/-- The requirements on the formals so far. -/
abbrev Requirements := FormalSlot → FormalRequirement

def Passing.slot (passing : Passing) : FormalSlot := (passing.target, passing.position)

section

variable (program : Program) (symbols : SymbolTable) (cg : CallGraph)
  (summaries : List (DeclNode × Summary)) (logs : List (DeclNode × List ForwardRecord))

def findSummary (decl : DeclNode) : Option (DeclNode × Summary) :=
  summaries.find? fun entry => entry.1 = decl

/-- The named function, else the functions the call graph knows. -/
def targetsOf (call : Call) : List (DeclNode × Summary) :=
  let named := match call.function with
    | .varExpr _ name => ((symbols.getFunction name).bind (findSummary summaries)).toList
    | _ => []
  if named = [] then (cg.getCalledFuns call.info.id).filterMap (findSummary summaries) else named

def passings (call : Call) : List Passing :=
  (targetsOf symbols cg summaries call).flatMap fun (target, summary) =>
    (call.actuals.take summary.formalRequirement.length).zipIdx.map fun (actual, position) =>
      { call, target, summary, position, actual }

/-! ## Inheritance -/

/-- The formal that a variable is, if it is one. -/
def formalIndexOf (scope : DeclNode) : Expr → Option Nat
  | .varExpr _ name =>
      match symbols.getLocal name scope, program.functions.find? (fun f => f.decl = scope) with
      | some decl, some function => function.formals.findIdx? fun formal => formal = decl
      | _, _ => none
  | _ => none

/-- The variable of `&x`, where the requirement is on what is behind the borrow. -/
def lentVar (kind : CopyRequirement) : Expr → Option Expr
  | .borrowExpr _ var => if kind = .self then none else some var
  | _ => none

/-- The formal the walk over the body has recorded for the actual, the last one. -/
def recordedFormal (passing : Passing) : Option Nat :=
  let log := (logs.find? fun entry => entry.1 = passing.call.scope).elim [] Prod.snd
  (log.reverse.find? fun record =>
    record.call = passing.call.info.id ∧ record.position = passing.position).map ForwardRecord.formal

/-- The formal of the caller that a requirement moves to. -/
def heirOf (passing : Passing) (kind : CopyRequirement) : Option Nat :=
  match lentVar kind passing.actual with
  | some var => formalIndexOf program symbols passing.call.scope var
  | none => (recordedFormal logs passing).or
      (formalIndexOf program symbols passing.call.scope passing.actual)

/-- For `&x`, `x` itself must be a copy. -/
def inheritedKind (actual : Expr) (kind : CopyRequirement) : CopyRequirement :=
  if (lentVar kind actual).isSome then .self else kind

def inherited (actual : Expr) (requirement : FormalRequirement) : FormalRequirement where
  kind := inheritedKind actual requirement.kind
  reasons :=
    if (lentVar requirement.kind actual).isSome then
      requirement.reasons ||| RequirementReason.lendsToMoveOut.bit
    else requirement.reasons

end

/-! ## The loop -/

section

variable (rules : RuleToggles)

def hasReason (requirement : FormalRequirement) (reason : RequirementReason) : Bool :=
  requirement.reasons &&& reason.bit ≠ 0

/-- The report names the reason that applies to how the actual violates the
requirement: an owned value itself, or one behind a borrow. -/
def rejectViolated (passing : Passing) (requirement : FormalRequirement) (actualType : TopType) :
    Except CompileError Unit :=
  let selfViolated := judgeOne .self actualType = .violated
  let call := (Expr.funAppExpr passing.call.info passing.call.function passing.call.actuals).print
  let line := passing.call.info.line
  let formal := (passing.summary.formalNames[passing.position]?).getD ""
  let callee := passing.summary.functionName
  if selfViolated ∧ hasReason requirement .notDisposed ∧ ¬ hasReason requirement .usedAfterPassedOn then
    rules.reject "generic-drop"
      (s!"owned value passed to generic formal '{formal}' of '{callee}' on line {line}" ++
        s!": the callee neither returns it" ++
        (if passing.summary.returnOrigin = .unknown then " on every path" else "") ++
        " nor passes it on, and cannot free a value whose type it does not know")
  else
    let text :=
      if selfViolated ∧ hasReason requirement .usedAfterPassedOn then
        s!" passes an owned value to generic formal '{formal}' of '{callee}'" ++
          ", which uses it again after passing it on"
      else if ¬ selfViolated ∧ hasReason requirement .overwritesThroughBorrow
          ∧ ¬ hasReason requirement .movesOutOfBorrow then
        s!" overwrites an owned value through the borrow: callee '{callee}'" ++
          s!" writes through formal '{formal}'"
      else if selfViolated ∧ hasReason requirement .lendsToMoveOut then
        s!" moves an owned value out of the borrow: callee '{callee}'" ++
          s!" hands a borrow of formal '{formal}' to a callee that takes the value behind it"
      else
        s!" moves an owned value out of the borrow: callee '{callee}'" ++
          s!" dereferences formal '{formal}' in a position that takes ownership"
    rules.reject "generic-copy-bound" (s!"call {call} on line {line}" ++ text)

def rejectUntracked (passing : Passing) : Except CompileError Unit :=
  let call := (Expr.funAppExpr passing.call.info passing.call.function passing.call.actuals).print
  rules.reject "generic-untracked-actual"
    (s!"call {call} on line {passing.call.info.line}: cannot tell whether argument " ++
      s!"{passing.position} ({passing.actual.print}) refers to an owned value that callee '" ++
      s!"{passing.summary.functionName}' would take; pass the formal parameter itself (or a " ++
      "borrow of it) rather than a local copy of it")

variable (program : Program) (symbols : SymbolTable) (cg : CallGraph)
  (unifier : TermUnionFind TopType) (logs : List (DeclNode × List ForwardRecord))

/-- Judge one passing. The flag says whether a requirement has moved. -/
def resolve (passing : Passing) (requirements : Requirements) :
    Except CompileError (Requirements × Bool) :=
  let requirement := requirements passing.slot
  if requirement.kind = .none then .ok (requirements, false)
  else do
    let actualType ←
      TypeInference.getInferredExprType symbols unifier passing.call.scope passing.actual
    match judge requirement.kind actualType with
    | .satisfied => return (requirements, false)
    | .violated => do
        rejectViolated rules passing requirement actualType
        return (requirements, false)
    | .undetermined =>
        match heirOf program symbols logs passing requirement.kind with
        | none => do
            rejectUntracked rules passing
            return (requirements, false)
        | some formal =>
            let slot : FormalSlot := (passing.call.scope, formal)
            let joined := requirements slot ⊔ inherited passing.actual requirement
            if joined ≠ requirements slot then
              return (Function.update requirements slot joined, true)
            else return (requirements, false)

/-- The requirements the walk over each body has recorded, with those of the position
check if it has one for each formal. -/
def startRequirements (summaries : List (DeclNode × Summary))
    (positions : DeclNode → List FormalRequirement) : Requirements := fun (decl, index) =>
  match findSummary summaries decl with
  | none => {}
  | some (_, summary) =>
      let recorded := (summary.formalRequirement[index]?).getD {}
      if (positions decl).length = summary.formalRequirement.length then
        recorded ⊔ ((positions decl)[index]?).getD {}
      else recorded

/-- Visit the calls in the order given until no requirement moves, at most so often. -/
def resolveRequirements (summaries : List (DeclNode × Summary)) (order : List Call) (fuel : Nat)
    (initial : Requirements) : Option (Except CompileError Requirements) :=
  ChaoticIteration.propagate (resolve rules program symbols unifier logs)
    (order.flatMap (passings symbols cg summaries)) fuel initial

end

end FunctionEffectSummaries

end Topc
