import Mathlib.Data.List.Induction
import Mathlib.Data.List.Pairwise
import Topc.SymbolTable
import Topc.Weeding

/-! # Constructors of an accepted program

Type names are unique and so are constructors, so every table of constructors
holds the declared ones and nothing else. -/

namespace Topc

/-- The variant belongs to a declared sum type. -/
structure Program.Declares (program : Program) (owner : SumTypeDecl) (variant : SumVariant) :
    Prop where
  ownerMem : owner ∈ program.typedecls
  variantMem : variant ∈ owner.variants

/-- No two sum types share a name and no two constructors a tag. -/
structure Program.ConstructorsUnique (program : Program) : Prop where
  typeNames : (program.typedecls.map SumTypeDecl.name).Nodup
  tags : (program.typedecls.flatMap fun decl => decl.variants.map SumVariant.tag).Nodup

theorem CheckSumTypeNames.check_unique {program : Program}
    (checked : CheckSumTypeNames.check program = .ok ()) : program.ConstructorsUnique :=
  ⟨(CheckSumTypeNames.check_nodup checked).1, (CheckSumTypeNames.check_nodup checked).2⟩

namespace Program.ConstructorsUnique

variable {program : Program} {owner other : SumTypeDecl} {variant second : SumVariant}

theorem variant_eq (unique : program.ConstructorsUnique) (declares : program.Declares owner variant)
    (again : program.Declares other second) (same : variant.tag = second.tag) :
    owner = other ∧ variant = second := by
  have tags := unique.tags
  rw [List.nodup_flatMap] at tags
  have sameOwner : owner = other := by
    by_contra different
    have symmetric : Std.Symm (Function.onFun List.Disjoint fun decl : SumTypeDecl =>
        decl.variants.map SumVariant.tag) := ⟨fun _ _ disjoint => List.Disjoint.symm disjoint⟩
    have apart := tags.2.forall declares.ownerMem again.ownerMem different
    exact apart (List.mem_map_of_mem declares.variantMem) (same ▸ List.mem_map_of_mem again.variantMem)
  subst sameOwner
  exact ⟨rfl, List.inj_on_of_nodup_map (tags.1 owner declares.ownerMem) declares.variantMem
    again.variantMem same⟩

/-- The variant is the only one of its type with its tag. -/
theorem tag_iff (unique : program.ConstructorsUnique) (declares : program.Declares owner variant) :
    ∀ other ∈ owner.variants, other.tag = variant.tag ↔ other = variant := by
  intro other member
  constructor
  · exact fun same => (unique.variant_eq ⟨declares.ownerMem, member⟩ declares same).2
  · exact fun equal => congrArg SumVariant.tag equal

end Program.ConstructorsUnique

/-! ## Tables -/

section

variable {program : Program} (unique : program.ConstructorsUnique) {owner : SumTypeDecl}
  {variant : SumVariant}

theorem TypeNameCollector.buildConstructors_getElem? (program : Program) (tag : String) :
    (buildConstructors program)[tag]? =
      (program.typedecls.flatMap SumTypeDecl.variants).reverse.find? fun variant =>
        variant.tag == tag := by
  rw [buildConstructors]
  generalize program.typedecls.flatMap SumTypeDecl.variants = variants
  induction variants using List.reverseRecOn with
  | nil => simp
  | append_singleton variants variant induction =>
      rw [List.foldl_append, List.foldl_cons, List.foldl_nil, Std.ExtTreeMap.getElem?_insert,
        List.reverse_append, induction]
      by_cases same : variant.tag = tag <;> simp [same]

theorem TypeNameCollector.buildTypes_getElem? (program : Program) (name : String) :
    (buildTypes program)[name]? =
      program.typedecls.reverse.find? fun decl => decl.name == name := by
  rw [buildTypes]
  induction program.typedecls using List.reverseRecOn with
  | nil => simp
  | append_singleton decls decl induction =>
      rw [List.foldl_append, List.foldl_cons, List.foldl_nil, Std.ExtTreeMap.getElem?_insert,
        List.reverse_append, induction]
      by_cases same : decl.name = name <;> simp [same]

theorem SymbolTable.build_types {symbols : SymbolTable}
    (built : SymbolTable.build program = .ok symbols) :
    symbols.typeNames = TypeNameCollector.buildTypes program ∧
      symbols.constructorNames = TypeNameCollector.buildConstructors program := by
  rw [SymbolTable.build, bind_eq_ok] at built
  rcases built with ⟨functionNames, _, built⟩
  rw [bind_eq_ok] at built
  rcases built with ⟨localNames, _, built⟩
  cases built
  exact ⟨rfl, rfl⟩

theorem SymbolTable.getConstructor_declared {symbols : SymbolTable} {tag : String}
    (built : SymbolTable.build program = .ok symbols)
    (found : symbols.getConstructor tag = some variant) :
    variant.tag = tag ∧ ∃ owner, program.Declares owner variant := by
  rw [getConstructor, (build_types built).2, TypeNameCollector.buildConstructors_getElem?] at found
  have member := List.mem_reverse.mp (List.mem_of_find?_eq_some found)
  rcases List.mem_flatMap.mp member with ⟨owner, ownerMem, variantMem⟩
  exact ⟨by simpa using List.find?_some found, owner, ownerMem, variantMem⟩

theorem SymbolTable.getConstructorOwner_declared {symbols : SymbolTable} {tag : String}
    (built : SymbolTable.build program = .ok symbols)
    (found : symbols.getConstructorOwner tag = some owner) :
    ∃ variant, variant.tag = tag ∧ program.Declares owner variant := by
  rw [getConstructorOwner] at found
  have member := List.mem_of_find?_eq_some found
  have tagged : (owner.variants.any fun variant => variant.tag == tag) = true := by
    simpa using List.find?_some found
  rcases List.any_eq_true.mp tagged with ⟨variant, variantMem, same⟩
  rcases List.mem_map.mp member with ⟨⟨name, decl⟩, stored, rfl⟩
  rw [Std.ExtTreeMap.mem_toList_iff_getElem?_eq_some, (build_types built).1,
    TypeNameCollector.buildTypes_getElem?] at stored
  exact ⟨variant, by simpa using same, List.mem_reverse.mp (List.mem_of_find?_eq_some stored),
    variantMem⟩

/-- The constructors by tag, as the weeding passes keep them. -/
theorem Program.lookup_declared {tag : String} {arity : Nat} {typeName : String}
    (found : program.constructors.lookup tag = some (arity, typeName)) :
    ∃ owner variant, program.Declares owner variant ∧ variant.tag = tag ∧
      variant.params.length = arity ∧ owner.name = typeName := by
  have member : (tag, arity, typeName) ∈ program.constructors := by
    rcases List.lookup_eq_some_iff.mp found with ⟨before, after, split, _⟩
    rw [split]
    exact List.mem_append_right _ List.mem_cons_self
  rw [Program.constructors, List.mem_reverse, List.mem_flatMap] at member
  rcases member with ⟨owner, ownerMem, member⟩
  rcases List.mem_map.mp member with ⟨variant, variantMem, equal⟩
  cases equal
  exact ⟨owner, variant, ⟨ownerMem, variantMem⟩, rfl, rfl, rfl⟩

include unique

theorem SymbolTable.getConstructor_eq {symbols : SymbolTable}
    (built : SymbolTable.build program = .ok symbols) (declares : program.Declares owner variant) :
    symbols.getConstructor variant.tag = some variant := by
  cases found : symbols.getConstructor variant.tag with
  | none =>
      rw [getConstructor, (build_types built).2, TypeNameCollector.buildConstructors_getElem?,
        List.find?_eq_none] at found
      have member : variant ∈ (program.typedecls.flatMap SumTypeDecl.variants).reverse :=
        List.mem_reverse.mpr (List.mem_flatMap.mpr ⟨owner, declares.ownerMem, declares.variantMem⟩)
      exact absurd (beq_self_eq_true _) (found variant member)
  | some other =>
      rcases getConstructor_declared built found with ⟨same, otherOwner, again⟩
      rw [(unique.variant_eq again declares same).2]

theorem SymbolTable.getConstructorOwner_eq {symbols : SymbolTable}
    (built : SymbolTable.build program = .ok symbols) (declares : program.Declares owner variant) :
    symbols.getConstructorOwner variant.tag = some owner := by
  cases found : symbols.getConstructorOwner variant.tag with
  | none =>
      rw [getConstructorOwner, List.find?_eq_none] at found
      have stored : symbols.typeNames[owner.name]? = some owner := by
        rw [(build_types built).1, TypeNameCollector.buildTypes_getElem?]
        cases named : program.typedecls.reverse.find? fun decl => decl.name == owner.name with
        | none =>
            rw [List.find?_eq_none] at named
            exact absurd (beq_self_eq_true _) (named owner (List.mem_reverse.mpr declares.ownerMem))
        | some other =>
            have member := List.mem_reverse.mp (List.mem_of_find?_eq_some named)
            have same : other.name = owner.name := by simpa using List.find?_some named
            rw [List.inj_on_of_nodup_map unique.typeNames member declares.ownerMem same]
      have member : owner ∈ symbols.typeNames.toList.map Prod.snd :=
        List.mem_map.mpr ⟨(owner.name, owner),
          Std.ExtTreeMap.mem_toList_iff_getElem?_eq_some.mpr stored, rfl⟩
      refine absurd (List.any_eq_true.mpr ⟨variant, declares.variantMem, ?_⟩) (found owner member)
      exact beq_self_eq_true _
  | some other =>
      rcases getConstructorOwner_declared built found with ⟨second, same, again⟩
      rw [(unique.variant_eq again declares same).1]

end

end Topc
