import Topc.FunctionEffectSummaries

/-! # Function types inside recursive types

The traversal keeps one flag: it is set on entering a `mu` and cleared on leaving
any. After a nested `mu` it is clear although the outer one has not ended. -/

namespace Topc

/-! ## Occurrences -/

namespace TopType

/-- The types a traversal visits next. -/
def parts : TopType → List TopType
  | .var _ | .int | .mode _ | .modeVar _ => []
  | .function params ret => params ++ [ret]
  | .reference refMode referenced => [refMode, referenced]
  | .sumType _ _ payloads => payloads
  | .mu _ body => [body]

/-- A type occurs in another, at any depth. -/
inductive Occurs (inner : TopType) : TopType → Prop
  | here : Occurs inner inner
  | inside {part outer : TopType} (isPart : part ∈ outer.parts) (occurs : Occurs inner part) :
      Occurs inner outer

/-- A function type occurs in the body of a `mu`. -/
def HasRecursiveFunction (type : TopType) : Prop :=
  ∃ v body params ret, Occurs (.mu v body) type ∧ Occurs (.function params ret) body

mutual
/-- A function type is met outside every `mu`, and before any. -/
def functionFirst : TopType → Bool
  | .function .. => true
  | .reference refMode referenced =>
      functionFirst refMode || (!containsTopMu refMode && functionFirst referenced)
  | .sumType _ _ payloads => functionFirstOf payloads
  | .var _ | .int | .mode _ | .modeVar _ | .mu .. => false

def functionFirstOf : List TopType → Bool
  | [] => false
  | type :: types => functionFirst type || (!containsTopMu type && functionFirstOf types)
end

/-- The body of some `mu` meets a function type first. -/
def HasFunctionFirst (type : TopType) : Prop :=
  ∃ v body, Occurs (.mu v body) type ∧ functionFirst body = true

theorem hasFunctionFirst_of_part {part outer : TopType} (isPart : part ∈ outer.parts)
    (holds : part.HasFunctionFirst) : outer.HasFunctionFirst := by
  rcases holds with ⟨v, body, occurs, first⟩
  exact ⟨v, body, .inside isPart occurs, first⟩

/-- The `mu` is the type itself or lies in one of its parts. -/
theorem hasFunctionFirst_iff (type : TopType) : type.HasFunctionFirst ↔
    (∃ v body, type = .mu v body ∧ functionFirst body = true) ∨
      ∃ part ∈ type.parts, part.HasFunctionFirst := by
  constructor
  · rintro ⟨v, body, occurs, first⟩
    cases occurs with
    | here => exact .inl ⟨v, body, rfl, first⟩
    | inside isPart occurs => exact .inr ⟨_, isPart, v, body, occurs, first⟩
  · rintro (⟨v, body, rfl, first⟩ | ⟨part, isPart, holds⟩)
    · exact ⟨v, body, .here, first⟩
    · exact hasFunctionFirst_of_part isPart holds

theorem functionFirstOf_occurs {types : List TopType}
    (each : ∀ type ∈ types, functionFirst type = true →
      ∃ params ret, Occurs (.function params ret) type)
    (first : functionFirstOf types = true) :
    ∃ type ∈ types, ∃ params ret, Occurs (.function params ret) type := by
  induction types with
  | nil => cases first
  | cons type types induction =>
      rw [functionFirstOf] at first
      rcases Bool.or_eq_true_iff.mp first with head | tail
      · exact ⟨type, List.mem_cons_self, each type List.mem_cons_self head⟩
      · rcases induction (fun other member => each other (List.mem_cons_of_mem type member))
          (Bool.and_eq_true_iff.mp tail).2 with ⟨other, member, occurs⟩
        exact ⟨other, List.mem_cons_of_mem type member, occurs⟩

theorem functionFirst_occurs (type : TopType) (first : functionFirst type = true) :
    ∃ params ret, Occurs (.function params ret) type := by
  induction type with
  | var v | int | mode value | modeVar id | mu v body => cases first
  | function params ret => exact ⟨params, ret, .here⟩
  | reference refMode referenced modeOccurs referencedOccurs =>
      rw [functionFirst] at first
      rcases Bool.or_eq_true_iff.mp first with inMode | inReferenced
      · rcases modeOccurs inMode with ⟨params, ret, occurs⟩
        exact ⟨params, ret, .inside List.mem_cons_self occurs⟩
      · rcases referencedOccurs (Bool.and_eq_true_iff.mp inReferenced).2 with ⟨params, ret, occurs⟩
        exact ⟨params, ret, .inside (by simp [parts]) occurs⟩
  | sumType typeName ctors payloads each =>
      rw [functionFirst] at first
      rcases functionFirstOf_occurs each first with ⟨payload, member, params, ret, occurs⟩
      exact ⟨params, ret, .inside member occurs⟩

theorem HasFunctionFirst.hasRecursiveFunction {type : TopType} (holds : type.HasFunctionFirst) :
    type.HasRecursiveFunction := by
  rcases holds with ⟨v, body, occurs, first⟩
  rcases functionFirst_occurs body first with ⟨params, ret, function⟩
  exact ⟨v, body, params, ret, occurs, function⟩

end TopType

/-! ## The traversal -/

namespace OwnershipTypeRules

open TopType

/-- What the traversal finds in a type, and how it leaves the flag. -/
structure Finds (inside : Bool) (type : TopType) : Prop where
  found : (findRecursiveFunction inside type).1 = true ↔
    (inside = true ∧ functionFirst type = true) ∨ type.HasFunctionFirst
  flag : (findRecursiveFunction inside type).2 = (inside && !containsTopMu type)

theorem findInAll_finds {types : List TopType}
    (each : ∀ type ∈ types, ∀ inside, Finds inside type) (inside : Bool) :
    ((findInAll inside types).1 = true ↔ (inside = true ∧ functionFirstOf types = true) ∨
      ∃ type ∈ types, type.HasFunctionFirst) ∧
    (findInAll inside types).2 = (inside && !anyContainsTopMu types) := by
  induction types generalizing inside with
  | nil => simp [findInAll, functionFirstOf, anyContainsTopMu]
  | cons type types induction =>
      have head := each type List.mem_cons_self inside
      have tail := induction (fun other member => each other (List.mem_cons_of_mem type member))
        (findRecursiveFunction inside type).2
      rw [head.flag] at tail
      constructor
      · rw [findInAll, Bool.or_eq_true, head.found, head.flag, tail.1, functionFirstOf]
        simp only [Bool.or_eq_true, Bool.and_eq_true, List.exists_mem_cons_iff]
        tauto
      · rw [findInAll, head.flag, tail.2, anyContainsTopMu, Bool.not_or, Bool.and_assoc]

/-- The flag survives a part of a type exactly when the part has no `mu`. -/
theorem finds (type : TopType) : ∀ inside, Finds inside type := by
  induction type with
  | var v | int | mode value | modeVar id =>
      intro inside
      constructor
      · rw [hasFunctionFirst_iff]
        simp [findRecursiveFunction, functionFirst, parts]
      · simp [findRecursiveFunction, containsTopMu]
  | function params ret paramsFind retFinds =>
      intro inside
      have paramsFound := findInAll_finds paramsFind inside
      have retFound := retFinds (findInAll inside params).2
      rw [paramsFound.2] at retFound
      constructor
      · rw [findRecursiveFunction, hasFunctionFirst_iff]
        simp only [Bool.or_eq_true, paramsFound.1, retFound.found, functionFirst, and_true, parts,
          List.mem_append, List.mem_singleton, paramsFound.2, Bool.and_eq_true]
        simp only [reduceCtorEq, false_and, exists_false, false_or]
        constructor
        · rintro ((isInside | (isInside | ⟨param, member, holds⟩)) | (isInside | holds))
          · exact .inl isInside
          · exact .inl isInside.1
          · exact .inr ⟨param, .inl member, holds⟩
          · exact .inl isInside.1.1
          · exact .inr ⟨ret, .inr rfl, holds⟩
        · rintro (isInside | ⟨part, member | rfl, holds⟩)
          · exact .inl (.inl isInside)
          · exact .inl (.inr (.inr ⟨part, member, holds⟩))
          · exact .inr (.inr holds)
      · rw [findRecursiveFunction, paramsFound.2, retFound.flag, containsTopMu, Bool.not_or,
          Bool.and_assoc]
  | reference refMode referenced modeFinds referencedFinds =>
      intro inside
      have modeFound := modeFinds inside
      have referencedFound := referencedFinds (findRecursiveFunction inside refMode).2
      rw [modeFound.flag] at referencedFound
      constructor
      · rw [findRecursiveFunction, hasFunctionFirst_iff]
        simp only [Bool.or_eq_true, modeFound.found, referencedFound.found, modeFound.flag,
          functionFirst, Bool.and_eq_true, parts, List.mem_cons, List.not_mem_nil, or_false,
          exists_eq_or_imp, exists_eq_left, reduceCtorEq, false_and, exists_false, false_or]
        tauto
      · rw [findRecursiveFunction, modeFound.flag, referencedFound.flag, containsTopMu, Bool.not_or,
          Bool.and_assoc]
  | sumType typeName ctors payloads each =>
      intro inside
      have found := findInAll_finds each inside
      constructor
      · rw [findRecursiveFunction, found.1, functionFirst, hasFunctionFirst_iff]
        simp [parts]
      · rw [findRecursiveFunction, found.2, containsTopMu]
  | mu v body bodyFinds =>
      intro inside
      constructor
      · rw [findRecursiveFunction, (bodyFinds true).found,
          hasFunctionFirst_iff (.mu v body)]
        simp [functionFirst, parts]
      · simp [findRecursiveFunction, containsTopMu]

/-- The rule rejects the types in which the body of some `mu` meets a function
type first. -/
theorem rejects_iff {rules : RuleToggles} (enabled : rules.enabled "recursive-type" = true)
    (type : TopType) (context : String) :
    (∃ error, rejectUnsupportedRecursiveType rules type context = .error error) ↔
      type.HasFunctionFirst := by
  have found := (finds type false).found
  rw [rejectUnsupportedRecursiveType, RuleToggles.reject, if_pos enabled]
  split
  · rename_i isFound
    simpa using found.mp isFound
  · rename_i missed
    constructor
    · rintro ⟨_, impossible⟩
      cases impossible
    · exact fun holds => absurd (found.mpr (.inr holds)) missed

theorem rejects_hasRecursiveFunction_iff {rules : RuleToggles}
    (enabled : rules.enabled "recursive-type" = true) (type : TopType) (context : String) :
    ((∃ error, rejectUnsupportedRecursiveType rules type context = .error error) ↔
      type.HasRecursiveFunction) ↔ (type.HasRecursiveFunction → type.HasFunctionFirst) := by
  rw [rejects_iff enabled]
  constructor
  · exact Iff.mpr
  · exact fun first => ⟨HasFunctionFirst.hasRecursiveFunction, first⟩

/-! ## A function after a nested list -/

namespace TableOfLists

/-- `L{N|C(int,μ l. L{N|C(int,l)})}` -/
def listType : TopType :=
  .sumType "L" [("N", 0), ("C", 2)] [.int, .mu (.alpha 1 none "")
    (.sumType "L" [("N", 0), ("C", 2)] [.int, .var (.alpha 1 none "")])]

/-- `μ t. T{E|M(l,f,t)}` with a list `l` and a function `f`. -/
def tableType : TopType :=
  .mu (.alpha 4 none "") (.sumType "T" [("E", 0), ("M", 3)]
    [listType, .function [.int] .int, .var (.alpha 4 none "")])

/-- The type of a formal that is matched with `M(l, f, r)`. -/
def formalType : TopType :=
  .sumType "T" [("E", 0), ("M", 3)] [listType, .function [.int] .int, tableType]

theorem formalType_hasRecursiveFunction : formalType.HasRecursiveFunction := by
  have table : tableType ∈ formalType.parts := by simp [formalType, parts]
  refine ⟨_, _, [.int], .int, .inside table .here, .inside ?_ .here⟩
  simp [parts]

theorem formalType_accepted (context : String) :
    rejectUnsupportedRecursiveType .allEnabled formalType context = .ok () := rfl

theorem formalType_not_exact :
    ¬ ((∃ error, rejectUnsupportedRecursiveType .allEnabled formalType "function use" =
      .error error) ↔ formalType.HasRecursiveFunction) := by
  intro claimed
  rcases claimed.mpr formalType_hasRecursiveFunction with ⟨error, rejected⟩
  rw [formalType_accepted] at rejected
  cases rejected

theorem formalType_rejects_iff :
    ((∃ error, rejectUnsupportedRecursiveType .allEnabled formalType "function use" =
      .error error) ↔ formalType.HasRecursiveFunction) ↔
      (formalType.HasRecursiveFunction → formalType.HasFunctionFirst) :=
  rejects_hasRecursiveFunction_iff (by decide) formalType "function use"

end TableOfLists

end OwnershipTypeRules

end Topc
