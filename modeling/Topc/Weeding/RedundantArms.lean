import Topc.Foundation.PatternCoverage
import Topc.Weeding

/-! # Redundant arms

An arm is called unreachable exactly when an earlier arm of its constructor has only
variables and wildcards, or has the same patterns. Each of the two covers the arm. -/

namespace Topc

/-! ## Patterns as shapes -/

mutual
/-- What the pattern tests. A variable tests as little as a wildcard. -/
def Pattern.shape : Pattern → Shape String
  | .var .. | .wildcard _ => .any
  | .ctor _ tag subPatterns => .ctor tag (Pattern.shapes subPatterns)

def Pattern.shapes : List Pattern → List (Shape String)
  | [] => []
  | pattern :: patterns => pattern.shape :: Pattern.shapes patterns
end

theorem Pattern.shapes_eq (patterns : List Pattern) :
    Pattern.shapes patterns = patterns.map Pattern.shape := by
  induction patterns with
  | nil => rfl
  | cons pattern patterns induction => rw [shapes, induction, List.map_cons]

def CaseArm.shape (arm : CaseArm) : Shape String :=
  .ctor arm.getTag (Pattern.shapes arm.getPatterns)

/-- The constructors of a payload of the given sum type. A payload of any other
type has none. -/
def payloadConstructors (payloadType : DeclNode → Option SumTypeDecl) :
    Option SumTypeDecl → Option (List (String × List (Option SumTypeDecl)))
  | none => none
  | some owner => some (owner.variants.map fun variant =>
      (variant.tag, variant.params.map payloadType))

/-! ## Patterns as written -/

mutual
/-- The pattern without its place in the source. -/
def Pattern.unplaced : Pattern → Pattern
  | .var _ decl => .var { id := 0 } { id := 0, name := decl.name }
  | .wildcard _ => .wildcard { id := 0 }
  | .ctor _ tag subPatterns => .ctor { id := 0 } tag (Pattern.unplacedAll subPatterns)

def Pattern.unplacedAll : List Pattern → List Pattern
  | [] => []
  | pattern :: patterns => pattern.unplaced :: Pattern.unplacedAll patterns
end

mutual
theorem Pattern.shape_unplaced : ∀ pattern : Pattern, pattern.unplaced.shape = pattern.shape
  | .var .. | .wildcard _ => rfl
  | .ctor _ tag subPatterns => by
      rw [Pattern.unplaced, Pattern.shape, Pattern.shape, Pattern.shapes_unplacedAll subPatterns]

theorem Pattern.shapes_unplacedAll : ∀ patterns : List Pattern,
    Pattern.shapes (Pattern.unplacedAll patterns) = Pattern.shapes patterns
  | [] => rfl
  | pattern :: patterns => by
      rw [Pattern.unplacedAll, Pattern.shapes, Pattern.shapes, pattern.shape_unplaced,
        Pattern.shapes_unplacedAll patterns]
end

/-- Nothing is left for a later arm of the constructor: the payloads are not tested,
or the later arm has the same patterns. -/
def CaseArm.Precludes (earlier later : CaseArm) : Prop :=
  earlier.getTag = later.getTag ∧
    ((∀ shape ∈ Pattern.shapes earlier.getPatterns, shape = .any) ∨
      Pattern.unplacedAll earlier.getPatterns = Pattern.unplacedAll later.getPatterns)

/-- An arm that precludes another one with as many patterns covers it. -/
theorem CaseArm.Precludes.subsumes {earlier later : CaseArm} (precludes : earlier.Precludes later)
    (sameLength : earlier.getPatterns.length = later.getPatterns.length) {Ty : Type}
    {constructors : Ty → Option (List (String × List Ty))} (type : Ty) :
    earlier.shape.Subsumes constructors type later.shape := by
  rcases precludes with ⟨sameTag, untested | samePatterns⟩
  · rw [CaseArm.shape, CaseArm.shape, sameTag]
    refine Shape.subsumes_of_any untested ?_ _ _
    rw [Pattern.shapes_eq, Pattern.shapes_eq, List.length_map, List.length_map, sameLength]
  · have sameShapes : Pattern.shapes earlier.getPatterns = Pattern.shapes later.getPatterns := by
      rw [← Pattern.shapes_unplacedAll, samePatterns, Pattern.shapes_unplacedAll]
    rw [CaseArm.shape, CaseArm.shape, sameTag, sameShapes]
    exact .refl _ _

namespace CheckCaseCompleteness

/-! ## What the two tests decide -/

theorem isIrrefutablePattern_iff (pattern : Pattern) :
    isIrrefutablePattern pattern = true ↔ pattern.shape = .any := by
  cases pattern <;> simp [isIrrefutablePattern, Pattern.shape]

mutual
theorem patternsIdentical_iff : ∀ first second : Pattern,
    patternsIdentical first second = true ↔ first.unplaced = second.unplaced
  | .var .., second => by
      cases second <;> simp [patternsIdentical, Pattern.unplaced]
  | .wildcard _, second => by
      cases second <;> simp [patternsIdentical, Pattern.unplaced]
  | .ctor _ tag subPatterns, .ctor _ tag' subPatterns' => by
      simp [patternsIdentical, Pattern.unplaced, subPatternsIdentical_iff subPatterns subPatterns']
  | .ctor .., .var .. | .ctor .., .wildcard _ => by
      simp [patternsIdentical, Pattern.unplaced]

theorem subPatternsIdentical_iff : ∀ patterns others : List Pattern,
    subPatternsIdentical patterns others = true ↔
      Pattern.unplacedAll patterns = Pattern.unplacedAll others
  | [], others => by
      cases others <;> simp [subPatternsIdentical, Pattern.unplacedAll]
  | pattern :: patterns, other :: others => by
      simp [subPatternsIdentical, Pattern.unplacedAll, patternsIdentical_iff pattern other,
        subPatternsIdentical_iff patterns others]
  | _ :: _, [] => by
      simp [subPatternsIdentical, Pattern.unplacedAll]
end

/-- The two tests against the arms of the same constructor. -/
theorem sameTag_any_iff {before : List CaseArm} {arm : CaseArm} :
    ((sameTag before arm).any fun previous =>
        allIrrefutablePayload previous || allPatternsIdentical previous arm) = true ↔
      ∃ earlier ∈ before, earlier.Precludes arm := by
  have untested : ∀ earlier : CaseArm, allIrrefutablePayload earlier = true ↔
      ∀ shape ∈ Pattern.shapes earlier.getPatterns, shape = .any := by
    intro earlier
    rw [allIrrefutablePayload, List.all_eq_true, Pattern.shapes_eq, List.forall_mem_map]
    simp only [isIrrefutablePattern_iff]
  simp only [List.any_eq_true, sameTag, List.mem_filter, beq_iff_eq, Bool.or_eq_true, untested,
    allPatternsIdentical, subPatternsIdentical_iff, CaseArm.Precludes, and_assoc]

/-- The constructor of the arm is declared with as many payloads as the arm has patterns. -/
def ValidArm (constructors : List (String × Nat × String)) (arm : CaseArm) : Prop :=
  ∃ typeName, constructors.lookup arm.getTag = some (arm.getPatterns.length, typeName)

def unreachableArm (arm : CaseArm) : CompileError :=
  .semantic s!"Case error on line {arm.getLine}: unreachable case arm — constructor '{arm.getTag}' is already fully covered by an earlier arm\n"

section

variable {constructors : List (String × Nat × String)} {before : List CaseArm} {arm : CaseArm}

theorem checkArm_rejects_iff (valid : ValidArm constructors arm) :
    checkArm constructors before arm = .error (unreachableArm arm) ↔
      ∃ earlier ∈ before, earlier.Precludes arm := by
  rcases valid with ⟨typeName, declared⟩
  unfold checkArm
  rw [declared]
  simp only [ne_eq, not_true_eq_false, ↓reduceIte]
  rw [← sameTag_any_iff]
  split
  · rename_i redundant
    exact ⟨fun _ => redundant, fun _ => rfl⟩
  · rename_i allowed
    exact ⟨nofun, fun redundant => absurd redundant allowed⟩

/-- The statement is rejected for the first of its arms that the check rejects. -/
theorem endVisitCase_rejects {after : List CaseArm} {error : CompileError} (info : NodeInfo)
    (passed : checkArms constructors [] before = .ok ())
    (rejected : checkArm constructors before arm = .error error) :
    endVisitCase constructors info (before ++ arm :: after) = .error error := by
  have walk : ∀ (arms seen : List CaseArm), checkArms constructors seen arms = .ok () →
      checkArm constructors (seen ++ arms) arm = .error error →
        checkArms constructors seen (arms ++ arm :: after) = .error error := by
    intro arms
    induction arms with
    | nil =>
        intro seen _ rejects
        rw [List.append_nil] at rejects
        rw [List.nil_append, checkArms, rejects]
        rfl
    | cons first arms induction =>
        intro seen checked rejects
        rw [checkArms, bind_eq_ok] at checked
        rcases checked with ⟨_, firstChecked, rest⟩
        rw [List.cons_append, checkArms, firstChecked]
        apply induction (seen ++ [first]) rest
        rwa [List.append_assoc, List.singleton_append]
  unfold endVisitCase
  rw [walk before [] passed rejected]
  rfl

end

/-! ## Exactness -/

section

variable (program : Program) (payloadType : DeclNode → Option SumTypeDecl)

/-- Every arm of the statement is rejected as unreachable exactly when an earlier
arm of its constructor matches every value of a declared type that it matches. -/
def RedundancyExact (arms : List CaseArm) : Prop :=
  ∀ before arm after, arms = before ++ arm :: after →
    (checkArm program.constructors before arm = .error (unreachableArm arm) ↔
      ∃ earlier ∈ sameTag before arm, ∀ owner ∈ program.typedecls,
        earlier.shape.Subsumes (payloadConstructors payloadType) (some owner) arm.shape)

/-- An arm is rejected as unreachable exactly when an earlier one precludes it, which
then covers it, and the first such arm is what the whole statement is rejected for. -/
theorem rejects_iff_precludes {arms : List CaseArm}
    (valid : ∀ arm ∈ arms, ValidArm program.constructors arm) :
    ∀ before arm after, arms = before ++ arm :: after →
      (checkArm program.constructors before arm = .error (unreachableArm arm) ↔
        ∃ earlier ∈ before, earlier.Precludes arm) ∧
      (∀ earlier ∈ before, earlier.Precludes arm → ∀ owner ∈ program.typedecls,
        earlier.shape.Subsumes (payloadConstructors payloadType) (some owner) arm.shape) ∧
      (checkArms program.constructors [] before = .ok () →
        (∃ earlier ∈ before, earlier.Precludes arm) → ∀ info,
          endVisitCase program.constructors info arms = .error (unreachableArm arm)) := by
  intro before arm after split
  have armValid := valid arm (split ▸ List.mem_append_right _ List.mem_cons_self)
  have rejects : checkArm program.constructors before arm = .error (unreachableArm arm) ↔
      ∃ earlier ∈ before, earlier.Precludes arm := checkArm_rejects_iff armValid
  refine ⟨rejects, ?_, ?_⟩
  · intro earlier member precludes owner _
    rcases valid earlier (split ▸ List.mem_append_left _ member) with ⟨_, earlierDeclared⟩
    rcases armValid with ⟨_, declared⟩
    rw [precludes.1, declared] at earlierDeclared
    exact precludes.subsumes (congrArg Prod.fst (Option.some.inj earlierDeclared)).symm _
  · intro passed precluded info
    rw [split]
    exact endVisitCase_rejects info passed (rejects.mpr precluded)

end

/-! ## Arms that differ in a variable -/

namespace RenamedArm

def inner : SumTypeDecl where
  name := "Inner"
  variants := [{ tag := "Lit", params := [{ id := 2, name := "n" }] },
    { tag := "Neg", params := [{ id := 4, name := "x" }] }]

def outer : SumTypeDecl where
  name := "Outer"
  variants := [{ tag := "Wrap", params := [{ id := 7, name := "inner" }] }]

def wrapLit (arm payload : NodeId) (name : String) (binder : NodeId) (output : Int) : CaseArm :=
  .mk { id := arm } "Wrap"
    [.ctor { id := payload } "Lit" [.var { id := binder } { id := binder, name := name }]]
    (.outputStmt { id := arm + 10 } (.numExpr { id := arm + 20 } output))

/-- `case o of { Wrap(Lit(x)) -> output 0; Wrap(Lit(y)) -> output 1; }` -/
def arms : List CaseArm :=
  [wrapLit 20 21 "x" 22 0, wrapLit 50 51 "y" 52 1]

/-- The payload of `Wrap` is an `Inner`. -/
def payloadType (param : DeclNode) : Option SumTypeDecl :=
  if param.id = 7 then some inner else none

/-- `type Inner = Lit(n) | Neg(x); type Outer = Wrap(inner);
main() { var o; o = Wrap(Lit(1)); case o of { … } return 0; }` -/
def program : Program where
  typedecls := [inner, outer]
  functions := [{
    decl := { id := 80, name := "main" }
    formals := []
    declarations := [{ id := 81, name := "o" }]
    stmts := [
      .assignStmt { id := 82 } (.varExpr { id := 83 } "o")
        (.sumCtorExpr { id := 84 } "Wrap" [.sumCtorExpr { id := 85 } "Lit" [.numExpr { id := 86 } 1]]),
      .caseStmt { id := 87 } (.varExpr { id := 88 } "o") arms]
    returnInfo := { id := 89 }
    returnArg := .numExpr { id := 90 } 0 }]

/-- The second arm is accepted although it tests what the first one tests. -/
theorem arms_not_exact : check program = .ok () ∧ ¬ RedundancyExact program payloadType arms := by
  constructor
  · decide +kernel
  · intro exact
    have rejected := (exact [wrapLit 20 21 "x" 22 0] (wrapLit 50 51 "y" 52 1) [] rfl).mpr
      ⟨_, List.mem_singleton_self _, fun _ _ _ _ matched => matched⟩
    cases rejected

/-- `case o of { Wrap(Lit(x)) -> output 0; Wrap(Lit(x)) -> output 1; }` -/
def repeated : List CaseArm :=
  [wrapLit 20 21 "x" 22 0, wrapLit 50 51 "x" 52 1]

theorem repeated_rejected : (∀ arm ∈ repeated, ValidArm program.constructors arm) ∧
    endVisitCase program.constructors { id := 87 } repeated =
      .error (unreachableArm (wrapLit 50 51 "x" 52 1)) ∧
    ∀ owner ∈ program.typedecls, (wrapLit 20 21 "x" 22 0).shape.Subsumes
      (payloadConstructors payloadType) (some owner) (wrapLit 50 51 "x" 52 1).shape := by
  have valid : ∀ arm ∈ repeated, ValidArm program.constructors arm := by
    intro arm member
    refine ⟨"Outer", ?_⟩
    rcases List.mem_pair.mp member with rfl | rfl <;> rfl
  have precludes : (wrapLit 20 21 "x" 22 0).Precludes (wrapLit 50 51 "x" 52 1) :=
    ⟨rfl, .inr rfl⟩
  rcases rejects_iff_precludes program payloadType valid [wrapLit 20 21 "x" 22 0]
    (wrapLit 50 51 "x" 52 1) [] rfl with ⟨_, covers, rejects⟩
  exact ⟨valid, rejects rfl ⟨_, List.mem_singleton_self _, precludes⟩ _,
    covers _ (List.mem_singleton_self _) precludes⟩

end RenamedArm

end CheckCaseCompleteness

end Topc
