import Topc.CodeGen.PatternBlocks
import Topc.CodeGen.TypedArms

/-! # Case statements select the first match

On the values of its type the code of an accepted case statement enters the arm
that comes first in the source. -/

namespace Topc

namespace CaseCodeGen

/-! ## Chains of arms -/

/-- How an arm is entered: all its tests pass before anything is bound or freed,
and its variables get their fields. -/
structure EntersArm (symbols : SymbolTable) (value : Value) (tested : List CaseInstruction)
    (arm : CaseArm) (bound : List (DeclNode × SourceValue))
    (tests bindings : List CaseInstruction) : Prop where
  effectFree : tests.filterMap CaseInstruction.effect? = []
  passed : AllPassed value tests (emitPatternTestCodes symbols [] 1 arm.getPatterns)
  testFree : ∀ slot expected, .testTag slot expected ∉ bindings
  binds : bindings.filterMap (boundField? value) = encodedBindings symbols bound
  guarded : Guarded value tested (tests ++ bindings)

theorem EntersArm.after {symbols : SymbolTable} {value : Value}
    {tested before tests bindings : List CaseInstruction} {arm : CaseArm}
    {bound : List (DeclNode × SourceValue)}
    (enters : EntersArm symbols value (tested ++ before) arm bound tests bindings)
    (effectFree : before.filterMap CaseInstruction.effect? = [])
    (guarded : Guarded value tested before) :
    EntersArm symbols value tested arm bound (before ++ tests) bindings where
  effectFree := by rw [List.filterMap_append, effectFree, enters.effectFree, List.nil_append]
  passed := enters.passed.mono (List.subset_append_right _ _) (List.Subset.refl _)
  testFree := enters.testFree
  binds := enters.binds
  guarded := by
    rw [List.append_assoc]
    exact guarded.append enters.guarded

/-- The code enters the first arm that matches the value. -/
def SelectsFirst (symbols : SymbolTable) (code : CaseCode) (arms : List CaseArm)
    (source : SourceValue) : Prop :=
  ∀ arm bound, firstMatch arms source = some (arm, bound) → ∃ tests bindings,
    runCase (source.encode symbols) code = some ⟨some arm, tests ++ bindings⟩ ∧
      EntersArm symbols (source.encode symbols) [] arm bound tests bindings

section

variable {program : Program} {symbols : SymbolTable} {payloadType : DeclNode → Option SumTypeDecl}
  (types : TypeResults) (plan : DestructionPlan) (consuming : Bool) {owner : SumTypeDecl}
  (holds : symbols.HoldsConstructors program)

theorem generateArm_tests (arms : List CaseArm) (arm : CaseArm) :
    (generateArm symbols types plan consuming arms arm).tests =
      emitPatternTestCodes symbols [] 1 arm.getPatterns := rfl

include holds

theorem runChain_firstMatch {tag : String} {fields : List SourceValue} {value : Value}
    (encoded : value = (SourceValue.ctor tag fields).encode symbols)
    (typed : (SourceValue.ctor tag fields).HasType payloadType (some owner)) (arms : List CaseArm)
    {arm : CaseArm} {bound : List (DeclNode × SourceValue)} (chain : List CaseArm) :
    ∀ {tested : List CaseInstruction}, Passed value tested [] →
      (∀ other ∈ chain, other.getTag = tag ∧ other.HasType program payloadType owner) →
      firstMatch chain (.ctor tag fields) = some (arm, bound) → ∃ tests bindings,
        runChain value (chain.map (generateArm symbols types plan consuming arms)) =
            some ⟨some arm, tests ++ bindings⟩ ∧
          EntersArm symbols value tested arm bound tests bindings := by
  induction chain with
  | nil => exact fun _ _ selected => by cases selected
  | cons first chain induction =>
      intro tested rootPassed chainTyped selected
      rw [List.forall_mem_cons] at chainTyped
      rcases chainTyped with ⟨⟨sameTag, variant, declares, variantTag, patternsTyped⟩, restTyped⟩
      rcases typed with ⟨other, again, otherTag, fieldsTyped⟩
      have sameVariant : variant = other :=
        (holds.unique.variant_eq declares ⟨declares.ownerMem, again⟩
          (by rw [variantTag, sameTag, otherTag])).2
      subst sameVariant
      have stands : value.at? [] = some ((SourceValue.ctor tag fields).encode symbols) := by
        rw [encoded, Value.at?]
      rcases testPatterns holds rootPassed first.getPatterns variant.params fields patternsTyped
        fieldsTyped (fieldsAt_of_ctor stands) with ⟨trace, tests⟩
      rw [firstMatch, List.findSome?_cons, CaseArm.bindings?, if_pos sameTag] at selected
      rw [List.map_cons, runChain]
      cases matched : Pattern.allBindings? first.getPatterns fields with
      | none =>
          rw [matched] at selected tests
          rcases induction (rootPassed.mono (List.subset_append_left _ trace)) restTyped
            selected with ⟨later, bindings, ran, enters⟩
          refine ⟨trace ++ later, bindings, ?_, enters.after tests.effectFree tests.guarded⟩
          rw [generateArm_tests, tests.ran]
          dsimp only
          rw [ran, List.append_assoc]
          rfl
      | some firstBound =>
          rw [matched] at selected tests
          cases selected
          rcases runBlock_passed tests.ran with ⟨rfl, passes⟩
          have passed : AllPassed value (emitPatternTestCodes symbols [] 1 arm.getPatterns)
              (emitPatternTestCodes symbols [] 1 arm.getPatterns) :=
            fun instruction member => ⟨member, passes instruction member⟩
          have bindings : BindRun value
              (tested ++ emitPatternTestCodes symbols [] 1 arm.getPatterns)
              (generateArm symbols types plan consuming arms arm).bindings
              (encodedBindings symbols bound) := by
            apply bindPatterns _ _ _ fields matched (fieldsAt_of_ctor stands)
            · exact passed.mono (List.subset_append_right _ _) (List.Subset.refl _)
            · exact rootPassed.mono (List.subset_append_left _ _)
          refine ⟨_, _, ?_, ⟨tests.effectFree, passed, bindings.testFree, bindings.binds,
            tests.guarded.append bindings.guarded⟩⟩
          rw [generateArm_tests, tests.ran]
          dsimp only
          rw [bindings.ran]
          rfl

/-! ## The switch -/

omit holds in
theorem mem_tagOrder {arms : List CaseArm} {tag : String} :
    tag ∈ tagOrder arms ↔ ∃ arm ∈ arms, arm.getTag = tag := by
  rw [tagOrder, List.mem_reverse, List.mem_dedup, List.mem_reverse, List.mem_map]

/-- The switch goes to the chain of the constructor of the value. -/
theorem find?_generateCase {arms : List CaseArm} {variant : SumVariant}
    (ownerIs : ownerDecl symbols arms = some owner) (declares : program.Declares owner variant)
    (typed : ∀ arm ∈ arms, arm.HasType program payloadType owner)
    (present : ∃ arm ∈ arms, arm.getTag = variant.tag) :
    (generateCase symbols types plan consuming arms).find?
        (fun branch => branch.1 == innerTagIdx symbols variant.tag) =
      some (innerTagIdx symbols variant.tag,
        (arms.filter fun arm => arm.getTag == variant.tag).map
          (generateArm symbols types plan consuming arms)) := by
  have selected : (tagOrder arms).find? (fun tag =>
      variantIndex (some owner) tag == innerTagIdx symbols variant.tag) = some variant.tag := by
    cases found : (tagOrder arms).find? fun tag =>
        variantIndex (some owner) tag == innerTagIdx symbols variant.tag with
    | none =>
        rw [List.find?_eq_none] at found
        have differs := found variant.tag (mem_tagOrder.mpr present)
        rw [variantIndex_eq holds declares, beq_self_eq_true] at differs
        exact absurd rfl differs
    | some tag =>
        rcases mem_tagOrder.mp (List.mem_of_find?_eq_some found) with ⟨arm, member, rfl⟩
        rcases typed arm member with ⟨other, again, otherTag, _⟩
        have same := List.find?_some found
        rw [← otherTag, variantIndex_eq holds again, beq_iff_eq] at same
        rw [← otherTag, innerTagIdx_inj holds again declares same]
  rw [generateCase, ownerIs, List.find?_map]
  unfold Function.comp
  dsimp only
  rw [selected, Option.map_some, variantIndex_eq holds declares]

/-- Typed arms and values are all that selecting the first match takes. -/
theorem generateCase_selects {arms : List CaseArm} {source : SourceValue}
    (ownerIs : ownerDecl symbols arms = some owner)
    (armsTyped : ∀ arm ∈ arms, arm.HasType program payloadType owner)
    (typed : source.HasType payloadType (some owner)) :
    SelectsFirst symbols (generateCase symbols types plan consuming arms) arms source := by
  intro arm bound selected
  rcases firstMatch_tag selected with ⟨member, fields, rfl⟩
  rcases armsTyped arm member with ⟨variant, declares, tag, _⟩
  have branch := find?_generateCase types plan consuming holds ownerIs declares armsTyped
    ⟨arm, member, tag.symm⟩
  have chainTyped : ∀ other ∈ arms.filter fun other => other.getTag == arm.getTag,
      other.getTag = arm.getTag ∧ other.HasType program payloadType owner := by
    intro other otherMem
    rw [List.mem_filter, beq_iff_eq] at otherMem
    exact ⟨otherMem.2, armsTyped other otherMem.1⟩
  rw [← firstMatch_filter] at selected
  rw [tag] at branch
  let index := innerTagIdx symbols arm.getTag
  have rootTested : Passed ((SourceValue.ctor arm.getTag fields).encode symbols)
      ([] ++ [.testTag [] index]) [] := by
    refine ⟨index, List.mem_singleton_self _, ?_⟩
    rw [SourceValue.encode, construct, step, Value.at?]
    exact congrArg some (beq_self_eq_true index)
  rcases runChain_firstMatch types plan consuming holds rfl typed arms _ rootTested chainTyped
    selected with ⟨tests, bindings, ran, enters⟩
  refine ⟨.testTag [] index :: tests, bindings, ?_, enters.after rfl ?_⟩
  · rw [SourceValue.encode, construct] at ran ⊢
    rw [runCase, branch]
    dsimp only
    rw [ran]
    rfl
  · exact guarded_single fun _ same => by cases same

end

/-! ## Accepted programs -/

section

variable {program : Program} {symbols marked : SymbolTable} {cg : CallGraph}
  {unifier : TermUnionFind TopType}

/-- The code of each case statement of an accepted program selects the first match. -/
theorem generateCase_selectsFirst (built : SymbolTable.build program = .ok symbols)
    (names : CheckSumTypeNames.check program = .ok ())
    (complete : CheckCaseCompleteness.check program = .ok ())
    (nested : CheckPatternTypes.check program = .ok ())
    (distinct : (program.functions.map Function.decl).Nodup) (graph : cg.IsBuilt program symbols)
    (inferred : TypeInference.runPoly symbols cg = .ok (marked, unifier)) (types : TypeResults)
    (plan : DestructionPlan) {function : Function} (functionMem : function ∈ program.functions)
    {info : NodeInfo} {caseExpr : Expr} {arms : List CaseArm}
    (member : .stmt (.caseStmt info caseExpr arms) ∈ function.postOrder) {source : SourceValue}
    (typed : source.HasType (TypeInference.payloadTypeOf program unifier)
      (TypeInference.sumTypeOf program unifier
        (TypeConstraintVisitor.astToVar marked function.decl caseExpr))) :
    SelectsFirst marked (generateCase marked types plan (isConsuming plan info) arms) arms
      source := by
  rcases graph with ⟨_, _, _, _, _, vertices, _⟩
  rcases caseStmt_typed built names complete nested distinct vertices inferred functionMem
    member with ⟨owner, caseTyped⟩
  rw [caseTyped.scrutinee] at typed
  exact generateCase_selects types plan (isConsuming plan info) caseTyped.constructors
    caseTyped.lookedUp caseTyped.patterns typed

end

namespace PairedArms

def inner : SumTypeDecl where
  name := "Inner"
  variants := [{ tag := "Lit", params := [{ id := 2, name := "n" }] },
    { tag := "Neg", params := [{ id := 4, name := "x" }] }]

def outer : SumTypeDecl where
  name := "Outer"
  variants := [{ tag := "Wrap", params := [{ id := 7, name := "inner" }] },
    { tag := "Pair", params := [{ id := 8, name := "left" }, { id := 9, name := "right" }] }]

def var (id : NodeId) (name : String) : Pattern :=
  .var { id := id } { id := id, name := name }

def output (id : NodeId) : Stmt :=
  .outputStmt { id := id } (.numExpr { id := id + 1 } 0)

/-- `Pair(p, Neg(q)) -> output 0;` -/
def pairNeg : CaseArm :=
  .mk { id := 40 } "Pair" [var 41 "p", .ctor { id := 42 } "Neg" [var 43 "q"]] (output 44)

/-- `Pair(Lit(a), Lit(b)) -> output 0; Wrap(w) -> output 0; Pair(p, Neg(q)) -> output 0;
Pair(c, _) -> output 0;` -/
def arms : List CaseArm :=
  [.mk { id := 20 } "Pair" [.ctor { id := 21 } "Lit" [var 22 "a"],
      .ctor { id := 23 } "Lit" [var 24 "b"]] (output 25),
    .mk { id := 30 } "Wrap" [var 31 "w"] (output 32),
    pairNeg,
    .mk { id := 50 } "Pair" [var 51 "c", .wildcard { id := 52 }] (output 53)]

def caseInfo : NodeInfo := { id := 60 }

/-- `main() { var o; o = Wrap(Lit(1)); case o of { … } return 0; }` -/
def main : Function where
  decl := { id := 80, name := "main" }
  formals := []
  declarations := [{ id := 81, name := "o" }]
  stmts := [
    .assignStmt { id := 82 } (.varExpr { id := 83 } "o")
      (.sumCtorExpr { id := 84 } "Wrap"
        [.sumCtorExpr { id := 85 } "Lit" [.numExpr { id := 86 } 1]]),
    .caseStmt caseInfo (.varExpr { id := 88 } "o") arms]
  returnInfo := { id := 89 }
  returnArg := .numExpr { id := 90 } 0

def program : Program where
  typedecls := [inner, outer]
  functions := [main]

def solver (symbols : SymbolTable) : Option CfaSolver :=
  CFAnalyzer.analyze program symbols id (fun s source target =>
    (s.findPath id 8 source target).getD []) 16

/-- The names of the sum types of `o` and of the payloads of a pair of `Neg`s. -/
def typeNames (marked : SymbolTable) (unifier : TermUnionFind TopType) : List (Option String) :=
  (TypeInference.sumTypeOf program unifier
      (TypeConstraintVisitor.astToVar marked main.decl (.varExpr { id := 88 } "o")) ::
    [8, 9, 4].map fun id =>
      TypeInference.payloadTypeOf program unifier { id := id, name := "" }).map fun owner =>
        owner.map SumTypeDecl.name

/-- `Pair(Neg(3), Neg(4))` -/
def value : SourceValue :=
  .ctor "Pair" [.ctor "Neg" [.word 3], .ctor "Neg" [.word 4]]

theorem declared_of_name {unifier : TermUnionFind TopType} {type : TopType} {owner : SumTypeDecl}
    (member : owner ∈ program.typedecls)
    (named : (TypeInference.sumTypeOf program unifier type).map SumTypeDecl.name =
      some owner.name) :
    TypeInference.sumTypeOf program unifier type = some owner := by
  rcases Option.map_eq_some_iff.mp named with ⟨found, solved, same⟩
  have unique : (program.typedecls.map SumTypeDecl.name).Nodup := by decide
  rw [solved, List.inj_on_of_nodup_map unique (List.mem_of_find?_eq_some solved) member same]

theorem value_hasType {marked : SymbolTable} {unifier : TermUnionFind TopType}
    (names : typeNames marked unifier = [some "Outer", some "Inner", some "Inner", none]) :
    value.HasType (TypeInference.payloadTypeOf program unifier)
      (TypeInference.sumTypeOf program unifier
        (TypeConstraintVisitor.astToVar marked main.decl (.varExpr { id := 88 } "o"))) := by
  simp only [typeNames, List.map_cons, List.map_nil, List.cons.injEq, and_true] at names
  rcases names with ⟨scrutinee, left, right, word⟩
  have isOuter := declared_of_name (List.mem_cons_of_mem inner (List.mem_singleton_self outer))
    scrutinee
  have neg : ∀ (bits : Int) (param : DeclNode),
      (TypeInference.payloadTypeOf program unifier param).map SumTypeDecl.name = some "Inner" →
        SourceValue.HasType (TypeInference.payloadTypeOf program unifier) (.ctor "Neg" [.word bits])
          (TypeInference.payloadTypeOf program unifier param) := by
    intro bits param isInner
    have solved : TypeInference.payloadTypeOf program unifier param = some inner :=
      declared_of_name List.mem_cons_self isInner
    have noType : TypeInference.payloadTypeOf program unifier { id := 4, name := "x" } = none :=
      Option.map_eq_none_iff.mp word
    rw [solved]
    refine ⟨_, List.mem_cons_of_mem _ (List.mem_singleton_self _), rfl, ?_, trivial⟩
    rw [noType]
    trivial
  rw [isOuter]
  exact ⟨_, List.mem_cons_of_mem _ (List.mem_singleton_self _), rfl, neg 3 _ left, neg 4 _ right,
    trivial⟩

theorem case_mem_postOrder :
    .stmt (.caseStmt caseInfo (.varExpr { id := 88 } "o") arms) ∈ main.postOrder := by
  simp [main, Function.postOrder, Stmt.postOrderOf, Stmt.postOrder]

theorem selectsFirst : ∃ symbols cg marked unifier,
    SymbolTable.build program = .ok symbols ∧ cg.IsBuilt program symbols ∧
      TypeInference.runPoly symbols cg = .ok (marked, unifier) ∧
      firstMatch arms value =
        some (pairNeg, [({ id := 41, name := "p" }, .ctor "Neg" [.word 3]),
          ({ id := 43, name := "q" }, .word 4)]) ∧
      ∀ types plan, SelectsFirst marked
        (generateCase marked types plan (isConsuming plan caseInfo) arms) arms value := by
  have holds : ((SymbolTable.build program).toOption.bind fun symbols =>
      (solver symbols).bind fun s =>
        (TypeInference.runPoly symbols (CallGraphBuilder.build program symbols s)).toOption.map
          fun result => typeNames result.1 result.2) =
      some [some "Outer", some "Inner", some "Inner", none] := by
    decide +kernel
  rcases Option.bind_eq_some_iff.mp holds with ⟨symbols, built, holds⟩
  rcases Option.bind_eq_some_iff.mp holds with ⟨s, analyzed, holds⟩
  rcases Option.map_eq_some_iff.mp holds with ⟨⟨marked, unifier⟩, inferred, names⟩
  rw [toOption_eq_some] at built inferred
  have graph : (CallGraphBuilder.build program symbols s).IsBuilt program symbols :=
    ⟨_, _, _, s, analyzed, rfl, fun _ => .rfl, fun _ => .rfl⟩
  refine ⟨symbols, _, marked, unifier, built, graph, inferred, rfl, fun types plan => ?_⟩
  exact generateCase_selectsFirst built (by decide +kernel) (by decide +kernel)
    (by decide +kernel) (by decide) graph inferred types plan (List.mem_singleton_self main)
    case_mem_postOrder (value_hasType names)

end PairedArms

end CaseCodeGen

end Topc
