import Mathlib.Logic.Relation
import Topc.Solver.SortedTerms
import Topc.Types.Unrolling

/-! # The variables a type leads to

Closing a type follows bound variables to their representatives. What it visits
is a walk over the solved graph that follows each variable once. -/

namespace Topc

/-! ## Types that occur in constraints -/

/-- A variable of a syntax node, or an alpha that an instantiation made. -/
def TypeVar.inProgram : TypeVar → Bool
  | .plain _ => true
  | .alpha _ context _ => context.isSome

def TypeVar.isPlain : TypeVar → Bool
  | .plain _ => true
  | .alpha .. => false

namespace TopType

def isMode : TopType → Bool
  | .mode _ | .modeVar _ => true
  | .var _ | .int | .function .. | .reference .. | .sumType .. | .mu .. => false

mutual
/-- The type is over the variables of the program, and references have modes. -/
def inProgram : TopType → Bool
  | .var v => v.inProgram
  | .int => true
  | .function params ret => allInProgram params && ret.inProgram
  | .reference refMode referenced => refMode.isMode && referenced.inProgram
  | .sumType _ _ payloads => allInProgram payloads
  | .mode _ | .modeVar _ | .mu .. => false

def allInProgram : List TopType → Bool
  | [] => true
  | type :: types => type.inProgram && allInProgram types
end

@[simp] theorem allInProgram_eq (types : List TopType) :
    allInProgram types = types.all inProgram := by
  induction types with
  | nil => rfl
  | cons type types induction => rw [allInProgram, induction, List.all_cons]

end TopType

/-- Modes and types are never equated. -/
inductive TypeSort
  | type
  | mode
deriving DecidableEq

namespace TopType

def sort (type : TopType) : Option TypeSort :=
  if type.isMode then some .mode else if type.inProgram then some .type else none

theorem sort_eq_mode {type : TopType} : type.sort = some .mode ↔ type.isMode = true := by
  unfold sort
  split
  · simp [*]
  · split <;> simp [*]

theorem not_isMode_of_inProgram {type : TopType} (program : type.inProgram = true) :
    type.isMode = false := by
  cases type <;> simp_all [inProgram, isMode]

theorem sort_eq_type {type : TopType} : type.sort = some .type ↔ type.inProgram = true := by
  unfold sort
  split
  · rename_i mode
    simp only [Option.some.injEq, reduceCtorEq, false_iff]
    intro program
    rw [not_isMode_of_inProgram program] at mode
    cases mode
  · split <;> simp [*]

/-- The children of a type have sorts. -/
theorem child_sort {type : TopType} (program : type.inProgram = true) :
    ∀ child ∈ type.getChildTypes, child.isMode = true ∨ child.inProgram = true := by
  intro child member
  cases type with
  | var | int | mode | modeVar | mu => cases member
  | function params ret =>
      simp only [inProgram, allInProgram_eq, Bool.and_eq_true, List.all_eq_true] at program
      rcases List.mem_append.mp member with isParam | isRet
      · exact .inr (program.1 child isParam)
      · rw [List.mem_singleton.mp isRet]
        exact .inr program.2
  | reference refMode referenced =>
      simp only [inProgram, Bool.and_eq_true] at program
      rcases List.mem_pair.mp member with rfl | rfl
      · exact .inl program.1
      · exact .inr program.2
  | sumType typeName ctors payloads =>
      simp only [inProgram, allInProgram_eq, List.all_eq_true] at program
      exact .inr (program child member)

theorem sumType_functor_ne (typeName : String) : "sumtype_" ++ typeName ≠ "ref" := by
  intro equal
  have lengths := congrArg String.length equal
  rw [String.length_append] at lengths
  have longer : "ref".length < "sumtype_".length := by decide
  omega

/-- A reference has a reference as its only match. -/
theorem children_inProgram {type : TopType} (program : type.inProgram = true)
    (other : type.getFunctor ≠ "ref") : ∀ child ∈ type.getChildTypes, child.inProgram = true := by
  intro child member
  cases type with
  | var | int | mode | modeVar | mu => cases member
  | function params ret =>
      simp only [inProgram, allInProgram_eq, Bool.and_eq_true, List.all_eq_true] at program
      rcases List.mem_append.mp member with isParam | isRet
      · exact program.1 child isParam
      · rw [List.mem_singleton.mp isRet]
        exact program.2
  | reference refMode referenced => exact absurd rfl other
  | sumType typeName ctors payloads =>
      simp only [inProgram, allInProgram_eq, List.all_eq_true] at program
      exact program child member

theorem eq_reference {type : TopType} (program : type.inProgram = true)
    (compound : type.isVariable = false) (functor : type.getFunctor = "ref") :
    ∃ refMode referenced, type = .reference refMode referenced ∧ refMode.isMode = true ∧
      referenced.inProgram = true := by
  cases type with
  | var | modeVar => cases compound
  | mode | mu => cases program
  | int | function => exact absurd functor (by simp [getFunctor])
  | reference refMode referenced =>
      simp only [inProgram, Bool.and_eq_true] at program
      exact ⟨refMode, referenced, rfl, program.1, program.2⟩
  | sumType typeName ctors payloads => exact absurd functor (sumType_functor_ne typeName)

/-- Functors fix the sorts of child types. -/
theorem sortsDescend : TermUnifier.SortsDescend sort := by
  intro left right same leftCompound rightCompound functors
  rcases same with ⟨kind, leftKind, rightKind⟩
  cases kind with
  | mode =>
      rw [sort_eq_mode] at leftKind
      cases left <;> cases leftKind
      · exact nofun
      · cases leftCompound
  | type =>
      rw [sort_eq_type] at leftKind rightKind
      change left.getFunctor = right.getFunctor ∧ _ at functors
      intro constraint member
      by_cases isRef : left.getFunctor = "ref"
      · rcases eq_reference leftKind leftCompound isRef with ⟨mode, referenced, rfl, isMode, inside⟩
        rcases eq_reference rightKind rightCompound (functors.1 ▸ isRef) with
          ⟨mode', referenced', rfl, isMode', inside'⟩
        rcases List.mem_pair.mp member with rfl | rfl
        · exact ⟨.mode, sort_eq_mode.mpr isMode, sort_eq_mode.mpr isMode'⟩
        · exact ⟨.type, sort_eq_type.mpr inside, sort_eq_type.mpr inside'⟩
      · have parts := List.of_mem_zip member
        exact ⟨.type, sort_eq_type.mpr (children_inProgram leftKind isRef _ parts.1),
          sort_eq_type.mpr (children_inProgram rightKind (functors.1 ▸ isRef) _ parts.2)⟩

end TopType

/-! ## Following representatives -/

namespace TopTypeClosure

open TopType

section

variable (uf : TermUnionFind TopType)

/-- One step of a walk: from a type to a child, or from a bound variable that
was not followed before to its representative. -/
inductive Visits : List TypeVar × TopType → List TypeVar × TopType → Prop
  | child {path : List TypeVar} {type child : TopType} (member : child ∈ type.getChildTypes) :
      Visits (path, type) (path, child)
  | follow {path : List TypeVar} {v : TypeVar} (fresh : v ∉ path)
      (bound : uf.root (.var v) ≠ .var v) :
      Visits (path, .var v) (v :: path, uf.root (.var v))

/-- A walk, with the variables followed before it and after it. -/
abbrev Reaches : List TypeVar × TopType → List TypeVar × TopType → Prop :=
  Relation.ReflTransGen (Visits uf)

end

variable {uf : TermUnionFind TopType}

theorem Visits.path_suffix {start final : List TypeVar × TopType} (visits : Visits uf start final) :
    start.1 <:+ final.1 := by
  cases visits with
  | child member => exact List.suffix_rfl
  | follow fresh bound => exact List.suffix_cons _ _

/-- A walk only adds to the variables it has followed. -/
theorem Reaches.path_suffix {start final : List TypeVar × TopType} (reaches : Reaches uf start final) :
    start.1 <:+ final.1 := by
  induction reaches with
  | refl => exact List.suffix_rfl
  | tail _ step induction => exact induction.trans step.path_suffix

/-- The variables followed are bound, and each is followed once. -/
structure Followed (uf : TermUnionFind TopType) (path : List TypeVar) : Prop where
  once : path.Nodup
  bound : ∀ v ∈ path, uf.root (.var v) ≠ .var v
  program : ∀ v ∈ path, v.inProgram = true

theorem Followed.nil : Followed uf [] :=
  ⟨List.nodup_nil, nofun, nofun⟩

theorem Followed.cons {path : List TypeVar} (followed : Followed uf path) {v : TypeVar}
    (fresh : v ∉ path) (bound : uf.root (.var v) ≠ .var v) (program : v.inProgram = true) :
    Followed uf (v :: path) where
  once := List.nodup_cons.mpr ⟨fresh, followed.once⟩
  bound := List.forall_mem_cons.mpr ⟨bound, followed.bound⟩
  program := List.forall_mem_cons.mpr ⟨program, followed.program⟩

/-- Bound variables are stored in the union-find, so a walk is finite. -/
theorem Followed.length_le {path : List TypeVar} (followed : Followed uf path) :
    path.length ≤ uf.edges.length := by
  have stored : (path.map TopType.var) ⊆ uf.edges.map Prod.fst := by
    intro type member
    rcases List.mem_map.mp member with ⟨v, vMem, rfl⟩
    by_contra missing
    exact followed.bound v vMem
      (uf.rootMap.fixed _ (TermUnionFind.getParent_of_not_stored missing))
  have once : (path.map TopType.var).Nodup :=
    followed.once.map fun left right equal => TopType.var.inj equal
  have bounded := (once.subperm stored).length_le
  rwa [List.length_map, List.length_map] at bounded

/-- The variable at the end of a walk that it has followed before was followed
on the way. -/
theorem Reaches.split {start final : List TypeVar × TopType} (reaches : Reaches uf start final)
    {v : TypeVar} (member : v ∈ final.1) (fresh : v ∉ start.1) :
    ∃ path, v ∉ path ∧ uf.root (.var v) ≠ .var v ∧ Reaches uf start (path, .var v) ∧
      Reaches uf (v :: path, uf.root (.var v)) final := by
  induction reaches with
  | refl => exact absurd member fresh
  | tail walked step induction =>
      cases step with
      | child childMem =>
          rcases induction member with ⟨path, unseen, bound, before, after⟩
          exact ⟨path, unseen, bound, before, after.tail (.child childMem)⟩
      | @follow path w unseen bound =>
          rcases List.mem_cons.mp member with rfl | older
          · exact ⟨path, unseen, bound, walked, .refl⟩
          · rcases induction older with ⟨path', unseen', bound', before, after⟩
            exact ⟨path', unseen', bound', before, after.tail (.follow unseen bound)⟩

/-! ## Sorts along a walk -/

/-- A mode, or a type over the variables of the program. -/
def IsTerm (type : TopType) : Prop :=
  type.isMode = true ∨ type.inProgram = true

section

variable (keeps : TermUnifier.KeepsSort sort uf.root)

include keeps

theorem root_inProgram {type : TopType} (program : type.inProgram = true) :
    (uf.root type).inProgram = true :=
  sort_eq_type.mp (keeps type .type (sort_eq_type.mpr program))

theorem root_isMode {type : TopType} (mode : type.isMode = true) :
    (uf.root type).isMode = true :=
  sort_eq_mode.mp (keeps type .mode (sort_eq_mode.mpr mode))

theorem Visits.isTerm {start final : List TypeVar × TopType} (visits : Visits uf start final)
    (term : IsTerm start.2) : IsTerm final.2 := by
  cases visits with
  | @child path type child member =>
      rcases term with mode | program
      · cases type with
        | mode | modeVar => cases member
        | _ => cases mode
      · exact child_sort program child member
  | follow fresh bound =>
      rcases term with mode | program
      · cases mode
      · exact .inr (root_inProgram keeps program)

theorem Reaches.isTerm {start final : List TypeVar × TopType} (reaches : Reaches uf start final)
    (term : IsTerm start.2) : IsTerm final.2 := by
  induction reaches with
  | refl => exact term
  | tail _ step induction => exact step.isTerm keeps induction

theorem Reaches.followed {start final : List TypeVar × TopType} (reaches : Reaches uf start final)
    (term : IsTerm start.2) (followed : Followed uf start.1) : Followed uf final.1 := by
  induction reaches with
  | refl => exact followed
  | tail walked step induction =>
      have here := Reaches.isTerm keeps walked term
      cases step with
      | child member => exact induction
      | follow fresh bound =>
          rcases here with mode | program
          · cases mode
          · exact induction.cons fresh bound program

end

end TopTypeClosure

end Topc
