import Topc.CodeGen.CaseInstructions
import Topc.SymbolTable.Constructors

/-! # Values of the source and their encoding

What a case statement means on the values of sum types: the first arm that
matches, with what its variables stand for. The generated code sees a value
through its encoding. -/

namespace Topc

/-- A value of the source. A word is an integer, a function or a reference. -/
inductive SourceValue where
  | word (bits : Int)
  | ctor (tag : String) (fields : List SourceValue)

namespace SourceValue

/-! ## Encoding -/

section

variable (symbols : SymbolTable)

mutual
def encode : SourceValue → Value
  | .word bits => .word bits
  | .ctor tag fields => CaseCodeGen.construct symbols tag (encodeAll fields)

def encodeAll : List SourceValue → List Value
  | [] => []
  | field :: fields => field.encode :: encodeAll fields
end

theorem encodeAll_getElem? {fields : List SourceValue} {index : Nat} {field : SourceValue}
    (stands : fields[index]? = some field) :
    (encodeAll symbols fields)[index]? = some (field.encode symbols) := by
  induction fields generalizing index with
  | nil => cases stands
  | cons first fields induction =>
      cases index with
      | zero =>
          cases stands
          rfl
      | succ index => exact induction stands

end

/-! ## Types -/

section

variable (payloadType : DeclNode → Option SumTypeDecl)

mutual
/-- The value belongs to the sum type. A slot of no sum type can hold anything. -/
def HasType : SourceValue → Option SumTypeDecl → Prop
  | _, none => True
  | .word _, some _ => False
  | .ctor tag fields, some owner =>
      ∃ variant ∈ owner.variants, variant.tag = tag ∧ AllHaveTypes fields variant.params

def AllHaveTypes : List SourceValue → List DeclNode → Prop
  | [], [] => True
  | field :: fields, param :: params =>
      field.HasType (payloadType param) ∧ AllHaveTypes fields params
  | [], _ :: _ | _ :: _, [] => False
end

end

end SourceValue

/-! ## Matching -/

mutual
/-- What the variables of the pattern stand for, if it matches the value. -/
def Pattern.bindings? : Pattern → SourceValue → Option (List (DeclNode × SourceValue))
  | .var _ decl, value => some [(decl, value)]
  | .wildcard _, _ => some []
  | .ctor .., .word _ => none
  | .ctor _ tag subPatterns, .ctor tag' fields =>
      if tag = tag' then Pattern.allBindings? subPatterns fields else none

def Pattern.allBindings? : List Pattern → List SourceValue →
    Option (List (DeclNode × SourceValue))
  | [], [] => some []
  | pattern :: patterns, field :: fields =>
      (pattern.bindings? field).bind fun bound =>
        (Pattern.allBindings? patterns fields).map fun others => bound ++ others
  | [], _ :: _ | _ :: _, [] => none
end

def CaseArm.bindings? (arm : CaseArm) : SourceValue → Option (List (DeclNode × SourceValue))
  | .word _ => none
  | .ctor tag fields =>
      if arm.getTag = tag then Pattern.allBindings? arm.getPatterns fields else none

/-- The first arm in source order that matches the value, with its bindings. -/
def firstMatch (arms : List CaseArm) (value : SourceValue) :
    Option (CaseArm × List (DeclNode × SourceValue)) :=
  arms.findSome? fun arm => (arm.bindings? value).map fun bound => (arm, bound)

/-- Only the arms of the constructor of the value count. -/
theorem firstMatch_filter (arms : List CaseArm) (tag : String) (fields : List SourceValue) :
    firstMatch (arms.filter fun arm => arm.getTag == tag) (.ctor tag fields) =
      firstMatch arms (.ctor tag fields) := by
  induction arms with
  | nil => rfl
  | cons arm arms induction =>
      rw [firstMatch, firstMatch, List.findSome?_cons]
      by_cases same : arm.getTag = tag
      · rw [List.filter_cons_of_pos (by simpa using same), List.findSome?_cons]
        cases (arm.bindings? (.ctor tag fields)).map fun bound => (arm, bound) with
        | none => exact induction
        | some selected => rfl
      · rw [List.filter_cons_of_neg (by simpa using same)]
        rw [CaseArm.bindings?, if_neg same]
        exact induction

theorem firstMatch_tag {arms : List CaseArm} {value : SourceValue} {arm : CaseArm}
    {bound : List (DeclNode × SourceValue)} (selected : firstMatch arms value = some (arm, bound)) :
    arm ∈ arms ∧ ∃ fields, value = .ctor arm.getTag fields := by
  rw [firstMatch] at selected
  rcases List.exists_of_findSome?_eq_some selected with ⟨candidate, member, matched⟩
  rw [Option.map_eq_some_iff] at matched
  rcases matched with ⟨_, matched, equal⟩
  cases equal
  refine ⟨member, ?_⟩
  cases value with
  | word bits => cases matched
  | ctor tag fields =>
      rw [CaseArm.bindings?] at matched
      split at matched
      · rename_i same
        exact ⟨fields, by rw [same]⟩
      · cases matched

/-! ## Typed patterns -/

section

variable (program : Program) (payloadType : DeclNode → Option SumTypeDecl)

mutual
/-- The constructors of the pattern belong to the types of their slots. -/
def Pattern.HasType : Pattern → Option SumTypeDecl → Prop
  | .var .., _ | .wildcard _, _ => True
  | .ctor .., none => False
  | .ctor _ tag subPatterns, some owner =>
      ∃ variant, program.Declares owner variant ∧ variant.tag = tag ∧
        Pattern.AllHaveTypes subPatterns variant.params

def Pattern.AllHaveTypes : List Pattern → List DeclNode → Prop
  | [], [] => True
  | pattern :: patterns, param :: params =>
      pattern.HasType (payloadType param) ∧ Pattern.AllHaveTypes patterns params
  | [], _ :: _ | _ :: _, [] => False
end

/-- The arm has a pattern for each payload of its constructor. -/
def CaseArm.HasType (arm : CaseArm) (owner : SumTypeDecl) : Prop :=
  ∃ variant, program.Declares owner variant ∧ variant.tag = arm.getTag ∧
    Pattern.AllHaveTypes program payloadType arm.getPatterns variant.params

end

/-! ## Constructors in the symbol table -/

/-- Constructors are unique, and the tables hold them under their tags. -/
structure SymbolTable.HoldsConstructors (symbols : SymbolTable) (program : Program) : Prop where
  unique : program.ConstructorsUnique
  owners : ∀ {owner variant}, program.Declares owner variant →
    symbols.getConstructorOwner variant.tag = some owner
  variants : ∀ {owner variant}, program.Declares owner variant →
    symbols.getConstructor variant.tag = some variant

theorem SymbolTable.build_holdsConstructors {program : Program} {symbols : SymbolTable}
    (unique : program.ConstructorsUnique) (built : SymbolTable.build program = .ok symbols) :
    symbols.HoldsConstructors program where
  unique := unique
  owners declares := getConstructorOwner_eq unique built declares
  variants declares := getConstructor_eq unique built declares

namespace CaseCodeGen

section

variable {program : Program} {symbols : SymbolTable} {owner : SumTypeDecl}
  {variant other : SumVariant} (holds : symbols.HoldsConstructors program)

theorem tags_nodup (unique : program.ConstructorsUnique) (member : owner ∈ program.typedecls) :
    (owner.variants.map SumVariant.tag).Nodup := by
  have tags := unique.tags
  rw [List.nodup_flatMap] at tags
  exact tags.1 owner member

include holds

/-- The tag index of a constructor is its position in the declaration. -/
theorem variants_innerTagIdx (declares : program.Declares owner variant) :
    owner.variants[innerTagIdx symbols variant.tag]? = some variant := by
  rw [innerTagIdx, holds.owners declares]
  dsimp only
  cases found : owner.variants.findIdx? fun candidate => candidate.tag == variant.tag with
  | none =>
      rw [List.findIdx?_eq_none_iff] at found
      have absent := found variant declares.variantMem
      simp at absent
  | some index =>
      rw [List.findIdx?_eq_some_iff_getElem] at found
      rcases found with ⟨bounded, same, _⟩
      rw [Option.getD_some, List.getElem?_eq_getElem bounded]
      have sameTag : owner.variants[index].tag = variant.tag := by simpa using same
      have equal := (holds.unique.tag_iff declares _ (List.getElem_mem bounded)).mp sameTag
      rw [equal]

/-- Constructors of one type have different tag indices. -/
theorem innerTagIdx_inj (declares : program.Declares owner variant)
    (again : program.Declares owner other)
    (same : innerTagIdx symbols variant.tag = innerTagIdx symbols other.tag) : variant = other := by
  have first := variants_innerTagIdx holds declares
  rw [same, variants_innerTagIdx holds again] at first
  exact (Option.some.inj first).symm

/-- The switch goes by the tag index that a constructor expression stores. -/
theorem variantIndex_eq (declares : program.Declares owner variant) :
    variantIndex (some owner) variant.tag = innerTagIdx symbols variant.tag := by
  have stands := variants_innerTagIdx holds declares
  rw [variantIndex, Option.bind_some]
  cases found : owner.variants.zipIdx.reverse.find? fun entry => entry.1.tag == variant.tag with
  | none =>
      rw [List.find?_eq_none] at found
      have member : (variant, innerTagIdx symbols variant.tag) ∈ owner.variants.zipIdx.reverse :=
        List.mem_reverse.mpr (List.mk_mem_zipIdx_iff_getElem?.mpr stands)
      exact absurd (beq_self_eq_true _) (found _ member)
  | some entry =>
      have member := List.mem_reverse.mp (List.mem_of_find?_eq_some found)
      rcases entry with ⟨candidate, index⟩
      rw [List.mk_mem_zipIdx_iff_getElem?] at member
      have same : candidate.tag = variant.tag := by simpa using List.find?_some found
      have equal := (holds.unique.tag_iff declares _ (List.mem_of_getElem? member)).mp same
      rw [Option.map_some, Option.getD_some]
      have distinct := (tags_nodup holds.unique declares.ownerMem).of_map
      rw [equal] at member
      have bounded := (List.getElem?_eq_some_iff.mp member).1
      exact (List.getElem?_inj bounded distinct).mp (member.trans stands.symm)

end

end CaseCodeGen

end Topc
