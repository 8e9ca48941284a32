import Topc.CodeGen.SourceValues
import Topc.Solver.MostGeneralSolution
import Topc.Types.SolvedConstraints
import Topc.Weeding.RedundantArms

/-! # Arms are typed

The checks and the inferred types make the arms of an accepted case statement
typed patterns of the sum type of its expression. -/

namespace Topc

/-! ## Constructors after inference -/

theorem SymbolTable.HoldsConstructors.setPoly {program : Program} {symbols : SymbolTable}
    (holds : symbols.HoldsConstructors program) (name : String) :
    (symbols.setPoly name).HoldsConstructors program := by
  unfold SymbolTable.setPoly
  split
  · exact holds
  · exact ⟨holds.unique, holds.owners, holds.variants⟩

namespace TypeInference

theorem markedSymbols_holdsConstructors {program : Program} {symbols : SymbolTable}
    (holds : symbols.HoldsConstructors program) (cg : CallGraph) :
    (markedSymbols symbols cg).HoldsConstructors program := by
  rw [markedSymbols]
  generalize topoSortNonRecursive cg = functions
  induction functions generalizing symbols with
  | nil => exact holds
  | cons f functions induction => exact induction (holds.setPoly f.getName)

/-! ## Sum types of slots -/

section

variable (program : Program) (unifier : TermUnionFind TopType)

/-- The declared sum type that a type has been solved to. -/
def sumTypeOf (type : TopType) : Option SumTypeDecl :=
  program.typedecls.find? fun owner => unifier.root type = unifier.root owner.sumType

def payloadTypeOf (param : DeclNode) : Option SumTypeDecl :=
  sumTypeOf program unifier param.typeVar

variable {program unifier}

theorem sumTypeOf_eq (unique : program.ConstructorsUnique)
    (congruent : Term.Congruent unifier.root) {owner : SumTypeDecl}
    (member : owner ∈ program.typedecls) {type : TopType}
    (same : unifier.root type = unifier.root owner.sumType) :
    sumTypeOf program unifier type = some owner := by
  cases found : sumTypeOf program unifier type with
  | none =>
      rw [sumTypeOf, List.find?_eq_none] at found
      exact absurd (decide_eq_true same) (found owner member)
  | some other =>
      have otherSame : unifier.root type = unifier.root other.sumType := by
        simpa using List.find?_some found
      have functor := congruent.functor owner.sumType rfl
      rw [← same, otherSame, congruent.functor other.sumType rfl] at functor
      change "sumtype_" ++ other.name = "sumtype_" ++ owner.name at functor
      rw [String.append_right_inj] at functor
      rw [List.inj_on_of_nodup_map unique.typeNames (List.mem_of_find?_eq_some found) member
        functor]

/-- The classes satisfy the constraints. -/
def Satisfies (unifier : TermUnionFind TopType) (constraints : List TypeConstraint) : Prop :=
  ∀ constraint ∈ constraints, unifier.root constraint.1 = unifier.root constraint.2

end

/-- The classes that a run leaves satisfy the constraints of each case statement. -/
theorem runPoly_satisfies_case {program : Program} {symbols marked : SymbolTable} {cg : CallGraph}
    {unifier : TermUnionFind TopType} (distinct : (program.functions.map Function.decl).Nodup)
    (graph : cg.vertices = program.functions)
    (inferred : runPoly symbols cg = .ok (marked, unifier)) {function : Function}
    (functionMem : function ∈ program.functions) {info : NodeInfo} {caseExpr : Expr}
    {arms : List CaseArm} (member : .stmt (.caseStmt info caseExpr arms) ∈ function.postOrder) :
    marked = markedSymbols symbols cg ∧ Term.Congruent unifier.root ∧
      Satisfies unifier
        (TypeConstraintVisitor.endVisitCase marked function.decl caseExpr arms) := by
  rw [← graph] at distinct
  rcases runPoly_solves distinct inferred with ⟨isMarked, batches, solved, own⟩
  have sound := TermUnifier.foldlM_solve_sound batches solved.solved TermUnifier.consistent_empty
  refine ⟨isMarked, sound.1.congruent, fun constraint inside => sound.2.2 constraint ?_⟩
  apply own function (graph ▸ functionMem)
  apply List.mem_append_left
  refine List.mem_flatMap.mpr ⟨.stmt (.caseStmt info caseExpr arms), ?_, inside⟩
  exact List.mem_filter.mpr ⟨member, rfl⟩

end TypeInference

/-! ## Arms of an accepted case statement -/

namespace CheckCaseCompleteness

theorem checkArms_valid {constructors : List (String × Nat × String)} {arms : List CaseArm} :
    ∀ {seen : List CaseArm}, checkArms constructors seen arms = .ok () →
      ∀ arm ∈ arms, ValidArm constructors arm := by
  induction arms with
  | nil => exact fun _ => nofun
  | cons first arms induction =>
      intro seen checked
      rw [checkArms, bind_eq_ok] at checked
      rcases checked with ⟨_, firstChecked, rest⟩
      rw [List.forall_mem_cons]
      constructor
      · unfold checkArm at firstChecked
        split at firstChecked
        · cases firstChecked
        · rename_i arity typeName declared
          split at firstChecked
          · cases firstChecked
          · rename_i sameArity
            rw [not_not] at sameArity
            exact ⟨typeName, sameArity ▸ declared⟩
      · exact induction rest

theorem checkCoverage_sameType {constructors : List (String × Nat × String)} {line : Nat}
    {arms : List CaseArm} {typeName : String}
    (checked : checkCoverage constructors line arms typeName = .ok ()) :
    ∀ arm ∈ arms, ∀ entry, constructors.lookup arm.getTag = some entry → entry.2 = typeName := by
  intro arm member entry declared
  rw [checkCoverage] at checked
  split at checked
  · cases checked
  · dsimp only at checked
    split at checked
    · cases checked
    · rename_i none
      rw [List.find?_eq_none] at none
      have used : arm.getTag ∈ (Std.ExtTreeSet.ofList (arms.map CaseArm.getTag)).toList := by
        rw [Std.ExtTreeSet.mem_toList, Std.ExtTreeSet.mem_ofList, List.contains_iff_mem]
        exact List.mem_map_of_mem member
      have same := none arm.getTag used
      rw [declared] at same
      simpa using same

/-- The arms have constructors of one declared type, with a pattern for each payload. -/
theorem endVisitCase_declared {program : Program} (unique : program.ConstructorsUnique)
    {info : NodeInfo} {arms : List CaseArm}
    (checked : endVisitCase program.constructors info arms = .ok ()) :
    arms ≠ [] ∧ ∃ owner, ∀ arm ∈ arms, ∃ variant, program.Declares owner variant ∧
      variant.tag = arm.getTag ∧ variant.params.length = arm.getPatterns.length := by
  unfold endVisitCase at checked
  rw [bind_eq_ok] at checked
  rcases checked with ⟨_, armsChecked, covered⟩
  have valid := checkArms_valid armsChecked
  cases arms with
  | nil => cases covered
  | cons first arms =>
      refine ⟨List.cons_ne_nil _ _, ?_⟩
      rcases valid first List.mem_cons_self with ⟨typeName, firstDeclared⟩
      dsimp only at covered
      rw [firstDeclared] at covered
      rcases Program.lookup_declared firstDeclared with ⟨owner, _, firstDeclares, _, _, ownerName⟩
      refine ⟨owner, fun arm member => ?_⟩
      rcases valid arm member with ⟨armType, declared⟩
      rcases Program.lookup_declared declared with ⟨other, variant, declares, tag, arity, otherName⟩
      have sameName : other.name = owner.name := by
        rw [otherName, ownerName]
        exact checkCoverage_sameType covered arm member _ declared
      have sameOwner := List.inj_on_of_nodup_map unique.typeNames declares.ownerMem
        firstDeclares.ownerMem sameName
      exact ⟨variant, sameOwner ▸ declares, tag, arity⟩

end CheckCaseCompleteness

namespace CheckPatternTypes

open TypeInference TypeConstraintVisitor

section

variable {program : Program} {symbols : SymbolTable} {unifier : TermUnionFind TopType}

mutual
/-- Its constraints give a checked pattern the type of its slot. -/
theorem checkPattern_hasType (holds : symbols.HoldsConstructors program)
    (congruent : Term.Congruent unifier.root) {line : Nat} {slotType : TopType} :
    ∀ pattern : Pattern, checkPattern program.constructors line pattern = .ok () →
      Satisfies unifier (constrainPattern symbols slotType pattern) →
        pattern.HasType program (payloadTypeOf program unifier) (sumTypeOf program unifier slotType)
  | .var .., _, _ => by
      rw [Pattern.HasType]
      trivial
  | .wildcard _, _, _ => by
      rw [Pattern.HasType]
      trivial
  | .ctor info tag subPatterns, checked, satisfied => by
      rw [checkPattern] at checked
      split at checked
      · cases checked
      · rename_i arity typeName declared
        split at checked
        · cases checked
        · rename_i sameArity
          rcases Program.lookup_declared declared with ⟨owner, variant, declares, rfl, rfl, _⟩
          rw [constrainPattern, holds.owners declares, holds.variants declares] at satisfied
          rcases List.forall_mem_cons.mp satisfied with ⟨slotSolved, subSatisfied⟩
          rw [sumTypeOf_eq holds.unique congruent declares.ownerMem slotSolved]
          refine ⟨variant, declares, rfl, ?_⟩
          rw [not_not] at sameArity
          exact checkPatterns_haveTypes holds congruent subPatterns variant.params sameArity checked
            subSatisfied

theorem checkPatterns_haveTypes (holds : symbols.HoldsConstructors program)
    (congruent : Term.Congruent unifier.root) {line : Nat} :
    ∀ (patterns : List Pattern) (params : List DeclNode), patterns.length = params.length →
      checkPatterns program.constructors line patterns = .ok () →
      Satisfies unifier (constrainPatterns symbols params patterns) →
        Pattern.AllHaveTypes program (payloadTypeOf program unifier) patterns params
  | [], [], _, _, _ => trivial
  | [], _ :: _, same, _, _ => by cases same
  | _ :: _, [], same, _, _ => by cases same
  | pattern :: patterns, param :: params, same, checked, satisfied => by
      rw [checkPatterns, bind_eq_ok] at checked
      rcases checked with ⟨_, first, rest⟩
      rw [constrainPatterns] at satisfied
      rcases List.forall_mem_append.mp satisfied with ⟨firstSatisfied, restSatisfied⟩
      constructor
      · exact checkPattern_hasType holds congruent pattern first firstSatisfied
      · exact checkPatterns_haveTypes holds congruent patterns params (Nat.succ.inj same) rest
          restSatisfied
end

end

end CheckPatternTypes

/-! ## Accepted case statements -/

section

variable {program : Program} {symbols marked : SymbolTable} {cg : CallGraph}
  {unifier : TermUnionFind TopType} {function : Function} {info : NodeInfo} {caseExpr : Expr}
  {arms : List CaseArm}

/-- The expression and all arms of a case statement have the type that the code
looks the constructors up in. -/
structure CaseTyped (program : Program) (marked : SymbolTable) (unifier : TermUnionFind TopType)
    (scope : DeclNode) (caseExpr : Expr) (arms : List CaseArm) (owner : SumTypeDecl) : Prop where
  constructors : marked.HoldsConstructors program
  lookedUp : CaseCodeGen.ownerDecl marked arms = some owner
  scrutinee : TypeInference.sumTypeOf program unifier
    (TypeConstraintVisitor.astToVar marked scope caseExpr) = some owner
  patterns : ∀ arm ∈ arms, arm.HasType program (TypeInference.payloadTypeOf program unifier) owner

theorem caseStmt_typed (built : SymbolTable.build program = .ok symbols)
    (names : CheckSumTypeNames.check program = .ok ())
    (complete : CheckCaseCompleteness.check program = .ok ())
    (nested : CheckPatternTypes.check program = .ok ())
    (distinct : (program.functions.map Function.decl).Nodup)
    (graph : cg.vertices = program.functions)
    (inferred : TypeInference.runPoly symbols cg = .ok (marked, unifier))
    (functionMem : function ∈ program.functions)
    (member : .stmt (.caseStmt info caseExpr arms) ∈ function.postOrder) :
    ∃ owner, CaseTyped program marked unifier function.decl caseExpr arms owner := by
  rcases TypeInference.runPoly_satisfies_case distinct graph inferred functionMem member with
    ⟨isMarked, congruent, satisfied⟩
  have unique := CheckSumTypeNames.check_unique names
  have holds : marked.HoldsConstructors program := by
    rw [isMarked]
    exact TypeInference.markedSymbols_holdsConstructors
      (SymbolTable.build_holdsConstructors unique built) cg
  have inProgram : .stmt (.caseStmt info caseExpr arms) ∈ program.postOrder :=
    List.mem_flatMap.mpr ⟨function, functionMem, member⟩
  rcases CheckCaseCompleteness.endVisitCase_declared unique
    (forM_eq_ok.mp complete _ inProgram) with ⟨nonempty, owner, declared⟩
  have armsChecked := forM_eq_ok.mp (forM_eq_ok.mp nested _ inProgram)
  cases arms with
  | nil => exact absurd rfl nonempty
  | cons first arms =>
      rcases declared first List.mem_cons_self with ⟨firstVariant, firstDeclares, firstTag, _⟩
      rw [TypeConstraintVisitor.endVisitCase, ← firstTag, holds.owners firstDeclares] at satisfied
      rcases List.forall_mem_cons.mp satisfied with ⟨scrutinee, armsSatisfied⟩
      refine ⟨owner, holds, ?_, ?_, ?_⟩
      · rw [CaseCodeGen.ownerDecl, List.head?_cons, Option.bind_some, ← firstTag,
          holds.owners firstDeclares]
      · exact TypeInference.sumTypeOf_eq unique congruent firstDeclares.ownerMem scrutinee
      · intro arm armMem
        rcases declared arm armMem with ⟨variant, declares, tag, arity⟩
        refine ⟨variant, declares, tag, ?_⟩
        apply CheckPatternTypes.checkPatterns_haveTypes holds congruent _ _ arity.symm
          (armsChecked arm armMem)
        intro constraint inside
        apply armsSatisfied
        refine List.mem_flatMap.mpr ⟨arm, armMem, ?_⟩
        rwa [TypeConstraintVisitor.constrainArm, ← tag, holds.variants declares]

end

end Topc
