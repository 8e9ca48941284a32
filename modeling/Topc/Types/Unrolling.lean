import Topc.Foundation.TreeFixpoint
import Topc.Types.Closure

/-! # The infinite tree of a closed type

A `mu` stands for the tree that solves its equation. -/

namespace Topc

namespace TopType

/-! ## Shapes of types -/

/-- The type is built by a constructor other than `mu`. -/
def isCompound : TopType → Bool
  | .var _ | .modeVar _ | .mu .. => false
  | .int | .function .. | .mode _ | .reference .. | .sumType .. => true

/-- Induction that treats all compound types alike. -/
theorem shapeInduction {motive : TopType → Prop}
    (var : ∀ v, motive (.var v))
    (modeVar : ∀ id, motive (.modeVar id))
    (compound : ∀ type, type.isCompound = true → (∀ child ∈ type.getChildTypes, motive child) →
      motive type)
    (mu : ∀ v body, motive body → motive (.mu v body))
    (type : TopType) : motive type := by
  induction type with
  | var v => exact var v
  | modeVar id => exact modeVar id
  | mu v body holds => exact mu v body holds
  | int => exact compound .int rfl nofun
  | mode value => exact compound (.mode value) rfl nofun
  | function params ret paramsHold retHolds =>
      apply compound (.function params ret) rfl
      intro child member
      rcases List.mem_append.mp member with isParam | isRet
      · exact paramsHold child isParam
      · rw [List.mem_singleton.mp isRet]
        exact retHolds
  | reference refMode referenced modeHolds referencedHolds =>
      apply compound (.reference refMode referenced) rfl
      intro child member
      rcases List.mem_pair.mp member with rfl | rfl
      · exact modeHolds
      · exact referencedHolds
  | sumType typeName ctors payloads payloadsHold =>
      exact compound (.sumType typeName ctors payloads) rfl payloadsHold

theorem isVariable_of_compound {type : TopType} (compound : type.isCompound = true) :
    type.isVariable = false := by
  cases type <;> simp_all [isCompound, isVariable]

/-! ## Variables, free and bound -/

mutual
def freeVars : TopType → List TypeVar
  | .var v => [v]
  | .int | .mode _ | .modeVar _ => []
  | .function params ret => allFreeVars params ++ ret.freeVars
  | .reference refMode referenced => refMode.freeVars ++ referenced.freeVars
  | .sumType _ _ payloads => allFreeVars payloads
  | .mu v body => body.freeVars.filter (· ≠ v)

def allFreeVars : List TopType → List TypeVar
  | [] => []
  | type :: types => type.freeVars ++ allFreeVars types
end

mutual
/-- The variables a `mu` in the type binds. -/
def binders : TopType → List TypeVar
  | .var _ | .int | .mode _ | .modeVar _ => []
  | .function params ret => allBinders params ++ ret.binders
  | .reference refMode referenced => refMode.binders ++ referenced.binders
  | .sumType _ _ payloads => allBinders payloads
  | .mu v body => v :: body.binders

def allBinders : List TopType → List TypeVar
  | [] => []
  | type :: types => type.binders ++ allBinders types
end

theorem mem_allFreeVars {types : List TopType} {v : TypeVar} :
    v ∈ allFreeVars types ↔ ∃ type ∈ types, v ∈ type.freeVars := by
  induction types with
  | nil => simp [allFreeVars]
  | cons type types induction => simp [allFreeVars, induction]

theorem mem_allBinders {types : List TopType} {v : TypeVar} :
    v ∈ allBinders types ↔ ∃ type ∈ types, v ∈ type.binders := by
  induction types with
  | nil => simp [allBinders]
  | cons type types induction => simp [allBinders, induction]

theorem mem_freeVars_compound {type : TopType} (compound : type.isCompound = true) {v : TypeVar} :
    v ∈ type.freeVars ↔ ∃ child ∈ type.getChildTypes, v ∈ child.freeVars := by
  cases type <;> simp_all [isCompound, freeVars, getChildTypes, mem_allFreeVars, or_and_right,
    exists_or]

theorem mem_binders_compound {type : TopType} (compound : type.isCompound = true) {v : TypeVar} :
    v ∈ type.binders ↔ ∃ child ∈ type.getChildTypes, v ∈ child.binders := by
  cases type <;> simp_all [isCompound, binders, getChildTypes, mem_allBinders, or_and_right,
    exists_or]

theorem mem_vars_compound {type : TopType} (compound : type.isCompound = true) {v : TypeVar} :
    v ∈ type.vars ↔ ∃ child ∈ type.getChildTypes, v ∈ child.vars := by
  cases type <;> simp_all [isCompound, vars, getChildTypes, mem_varsOfAll, or_and_right,
    exists_or]

/-- A variable that no `mu` binds is free wherever it occurs. -/
theorem mem_freeVars_of_not_binder (type : TopType) {v : TypeVar} (unbound : v ∉ type.binders) :
    v ∈ type.freeVars ↔ v ∈ type.vars := by
  induction type using shapeInduction with
  | var w => simp [freeVars, vars]
  | modeVar id => simp [freeVars, vars]
  | compound type compound children =>
      rw [mem_freeVars_compound compound, mem_vars_compound compound]
      rw [mem_binders_compound compound] at unbound
      apply exists_congr
      intro child
      apply and_congr_right
      intro member
      exact children child member fun bound => unbound ⟨child, member, bound⟩
  | mu w body induction =>
      rw [binders, List.mem_cons, not_or] at unbound
      rw [freeVars, vars, List.mem_filter, induction unbound.2]
      simp [unbound.1]

/-! ## Replacing variables -/

section

variable {replace : TypeVar → TopType}

theorem mapVars_compound {type : TopType} (compound : type.isCompound = true) :
    (type.mapVars replace).isCompound = true ∧
      (type.mapVars replace).getChildTypes = type.getChildTypes.map (mapVars replace) := by
  cases type <;> simp_all [isCompound, mapVars, getChildTypes]

theorem mapAllVars_eq_self {types : List TopType}
    (same : ∀ type ∈ types, type.mapVars replace = type) : mapAllVars replace types = types := by
  rw [mapAllVars_eq]
  exact (List.map_congr_left same).trans (List.map_id types)

theorem mapVars_eq_self (type : TopType) (vars : ∀ w ∈ type.vars, replace w = .var w)
    (binders : ∀ w ∈ type.binders, replace w = .var w) : type.mapVars replace = type := by
  induction type with
  | var v => exact vars v (by simp [TopType.vars])
  | int | mode | modeVar => rfl
  | function params ret paramsSame retSame =>
      simp only [TopType.vars, TopType.binders, List.mem_append, or_imp, forall_and, mem_varsOfAll,
        mem_allBinders] at vars binders
      rw [mapVars, retSame vars.2 binders.2, mapAllVars_eq_self fun param member =>
        paramsSame param member (fun w occurs => vars.1 w ⟨param, member, occurs⟩)
          fun w bound => binders.1 w ⟨param, member, bound⟩]
  | reference refMode referenced modeSame referencedSame =>
      simp only [TopType.vars, TopType.binders, List.mem_append, or_imp, forall_and] at vars binders
      rw [mapVars, modeSame vars.1 binders.1, referencedSame vars.2 binders.2]
  | sumType typeName ctors payloads payloadsSame =>
      simp only [TopType.vars, TopType.binders, mem_varsOfAll, mem_allBinders] at vars binders
      rw [mapVars, mapAllVars_eq_self fun payload member =>
        payloadsSame payload member (fun w occurs => vars w ⟨payload, member, occurs⟩)
          fun w bound => binders w ⟨payload, member, bound⟩]
  | mu v body bodySame =>
      simp only [TopType.vars, TopType.binders, List.forall_mem_cons] at vars binders
      rw [mapVars, binders.1, bodySame vars binders.2]

/-- The renames after a substitution come from those before it. -/
theorem mem_vars_mapVars (type : TopType) {w : TypeVar} :
    w ∈ (type.mapVars replace).vars → ∃ v ∈ type.vars, w ∈ (replace v).vars := by
  induction type using shapeInduction with
  | var v => exact fun occurs => ⟨v, by simp [TopType.vars], occurs⟩
  | modeVar id =>
      intro impossible
      cases impossible
  | compound type compound children =>
      intro occurs
      rw [mem_vars_compound (mapVars_compound compound).1, (mapVars_compound compound).2] at occurs
      rcases occurs with ⟨_, member, occurs⟩
      rcases List.mem_map.mp member with ⟨child, childMem, rfl⟩
      rcases children child childMem occurs with ⟨v, vMem, inReplaced⟩
      exact ⟨v, (mem_vars_compound compound).mpr ⟨child, childMem, vMem⟩, inReplaced⟩
  | mu v body induction =>
      intro occurs
      rw [mapVars] at occurs
      split at occurs <;> exact induction occurs

/-- A variable that is kept still occurs. -/
theorem mem_mapVars_vars (type : TopType) {w : TypeVar} (kept : replace w = .var w)
    (occurs : w ∈ type.vars) : w ∈ (type.mapVars replace).vars := by
  induction type using shapeInduction with
  | var v =>
      rw [TopType.vars, List.mem_singleton] at occurs
      subst occurs
      rw [mapVars, kept]
      simp [TopType.vars]
  | modeVar id => cases occurs
  | compound type compound children =>
      rw [mem_vars_compound compound] at occurs
      rcases occurs with ⟨child, member, occurs⟩
      rw [mem_vars_compound (mapVars_compound compound).1, (mapVars_compound compound).2]
      exact ⟨_, List.mem_map_of_mem member, children child member occurs⟩
  | mu v body induction =>
      rw [mapVars]
      split <;> exact induction occurs

theorem binders_mapVars (type : TopType) (kept : ∀ w ∈ type.binders, replace w = .var w)
    (renames : ∀ w, ∃ v, replace w = .var v) : (type.mapVars replace).binders = type.binders := by
  have allBinders_mapVars : ∀ {types : List TopType},
      (∀ type ∈ types, (type.mapVars replace).binders = type.binders) →
        allBinders (mapAllVars replace types) = allBinders types := by
    intro types same
    induction types with
    | nil => rfl
    | cons type types induction =>
        rw [mapAllVars, allBinders, allBinders, same type List.mem_cons_self,
          induction fun other member => same other (List.mem_cons_of_mem _ member)]
  induction type with
  | var v =>
      rcases renames v with ⟨w, equal⟩
      rw [mapVars, equal]
      rfl
  | int | mode | modeVar => rfl
  | function params ret paramsSame retSame =>
      simp only [TopType.binders, List.mem_append, or_imp, forall_and, mem_allBinders] at kept
      rw [mapVars, TopType.binders, TopType.binders, retSame kept.2, allBinders_mapVars
        fun param member => paramsSame param member fun w bound => kept.1 w ⟨param, member, bound⟩]
  | reference refMode referenced modeSame referencedSame =>
      simp only [TopType.binders, List.mem_append, or_imp, forall_and] at kept
      rw [mapVars, TopType.binders, TopType.binders, modeSame kept.1, referencedSame kept.2]
  | sumType typeName ctors payloads payloadsSame =>
      simp only [TopType.binders, mem_allBinders] at kept
      rw [mapVars, TopType.binders, TopType.binders, allBinders_mapVars
        fun payload member => payloadsSame payload member
          fun w bound => kept w ⟨payload, member, bound⟩]
  | mu v body bodySame =>
      simp only [TopType.binders, List.forall_mem_cons] at kept
      rw [mapVars, kept.1, TopType.binders, TopType.binders, bodySame kept.2]

end

end TopType

/-! ## Collected variables -/

namespace TypeVars

open TopType

/-- A variable that no `mu` binds is collected where it occurs. -/
def CollectsFree (type : TopType) (v : TypeVar) : Prop :=
  v ∉ type.binders → ∀ vars, v ∈ collectInto vars type ↔ v ∈ vars ∨ v ∈ type.vars

theorem collectAllInto_collectsFree {v : TypeVar} {types : List TopType}
    (each : ∀ type ∈ types, CollectsFree type v) (unbound : ∀ type ∈ types, v ∉ type.binders) :
    ∀ vars, v ∈ collectAllInto vars types ↔ v ∈ vars ∨ v ∈ varsOfAll types := by
  induction types with
  | nil => simp [collectAllInto, varsOfAll]
  | cons type types induction =>
      intro vars
      have rest := induction (fun other member => each other (List.mem_cons_of_mem _ member))
        (fun other member => unbound other (List.mem_cons_of_mem _ member))
      rw [collectAllInto, rest, each type List.mem_cons_self (unbound type List.mem_cons_self),
        varsOfAll, List.mem_append, or_assoc]

theorem collectsFree (type : TopType) (v : TypeVar) : CollectsFree type v := by
  induction type with
  | var w => simp [CollectsFree, collectInto, TopType.vars, or_comm]
  | int | mode value | modeVar id => simp [CollectsFree, collectInto, TopType.vars]
  | function params ret paramsCollect retCollects =>
      intro unbound vars
      simp only [binders, List.mem_append, not_or, mem_allBinders, not_exists, not_and] at unbound
      rw [collectInto, retCollects unbound.2, collectAllInto_collectsFree paramsCollect unbound.1,
        TopType.vars, List.mem_append, or_assoc]
  | reference refMode referenced modeCollects referencedCollects =>
      intro unbound vars
      simp only [binders, List.mem_append, not_or] at unbound
      rw [collectInto, referencedCollects unbound.2, modeCollects unbound.1, TopType.vars,
        List.mem_append, or_assoc]
  | sumType typeName ctors payloads payloadsCollect =>
      intro unbound vars
      simp only [binders, mem_allBinders, not_exists, not_and] at unbound
      rw [collectInto, collectAllInto_collectsFree payloadsCollect unbound, TopType.vars]
  | mu w body bodyCollects =>
      intro unbound vars
      simp only [binders, List.mem_cons, not_or] at unbound
      rw [collectInto, List.mem_filter, bodyCollects unbound.2, List.mem_insert_iff, TopType.vars]
      simp [unbound.1]

theorem mem_collect_of_not_binder {type : TopType} {v : TypeVar} (unbound : v ∉ type.binders) :
    v ∈ collect type ↔ v ∈ type.vars := by
  simp [collect, collectsFree type v unbound []]

end TypeVars

/-! ## Trees of types -/

namespace TopType

/-- The trees that the free variables of a type stand for. -/
abbrev Assignment := TypeVar → TermTree String TopType

mutual
def unrolled : TopType → Assignment → TermTree String TopType
  | .var v, assignment => assignment v
  | .int, _ => .node (getFunctor .int) []
  | .mode value, _ => .node (getFunctor (.mode value)) []
  | .modeVar id, _ => .leaf (.modeVar id)
  | .function params ret, assignment =>
      .node (getFunctor (.function params ret))
        (allUnrolled params assignment ++ [ret.unrolled assignment])
  | .reference refMode referenced, assignment =>
      .node (getFunctor (.reference refMode referenced))
        [refMode.unrolled assignment, referenced.unrolled assignment]
  | .sumType typeName ctors payloads, assignment =>
      .node (getFunctor (.sumType typeName ctors payloads)) (allUnrolled payloads assignment)
  | .mu v body, assignment =>
      .fix fun tree => body.unrolled (Function.update assignment v tree)

def allUnrolled : List TopType → Assignment → List (TermTree String TopType)
  | [], _ => []
  | type :: types, assignment => type.unrolled assignment :: allUnrolled types assignment
end

@[simp] theorem allUnrolled_eq (types : List TopType) (assignment : Assignment) :
    allUnrolled types assignment = types.map fun type => type.unrolled assignment := by
  induction types with
  | nil => rfl
  | cons type types induction => rw [allUnrolled, induction, List.map_cons]

theorem unrolled_compound {type : TopType} (compound : type.isCompound = true)
    (assignment : Assignment) :
    type.unrolled assignment =
      .node type.getFunctor (type.getChildTypes.map fun child => child.unrolled assignment) := by
  cases type <;> simp_all [isCompound, unrolled, getChildTypes]

theorem unrolled_agree (type : TopType) {depth : Nat} : ∀ {assignment other : Assignment},
    (∀ v, (assignment v).AgreeTo depth (other v)) →
      (type.unrolled assignment).AgreeTo depth (type.unrolled other) := by
  induction type using shapeInduction with
  | var v =>
      intro assignment other agree
      rw [unrolled, unrolled]
      exact agree v
  | modeVar id =>
      intro assignment other agree
      rw [unrolled, unrolled]
      exact .refl _ _
  | compound type compound children =>
      intro assignment other agree
      rw [unrolled_compound compound, unrolled_compound compound]
      refine (TermTree.AgreeTo.node _ ?_).mono (Nat.le_succ depth)
      rw [List.forall₂_map_left_iff, List.forall₂_map_right_iff, List.forall₂_same]
      exact fun child member => children child member agree
  | mu v body induction =>
      intro assignment other agree
      rw [unrolled, unrolled]
      apply TermTree.fix_agree
      intro left right same
      apply induction
      intro w
      rcases eq_or_ne w v with rfl | different
      · rw [Function.update_self, Function.update_self]
        exact same
      · rw [Function.update_of_ne different, Function.update_of_ne different]
        exact agree w

/-- The equation of a `mu` over a compound type has one solution. -/
theorem contractive_compound {body : TopType} (compound : body.isCompound = true)
    (assignment : Assignment) (v : TypeVar) :
    TermTree.Contractive fun tree => body.unrolled (Function.update assignment v tree) := by
  intro depth left right agree
  simp only [unrolled_compound compound]
  apply TermTree.AgreeTo.node
  rw [List.forall₂_map_left_iff, List.forall₂_map_right_iff, List.forall₂_same]
  intro child member
  apply unrolled_agree
  intro w
  rcases eq_or_ne w v with rfl | different
  · rw [Function.update_self, Function.update_self]
    exact agree
  · rw [Function.update_of_ne different, Function.update_of_ne different]
    exact .refl _ _

/-- Any solution of the equation of a `mu` is its tree. -/
theorem eq_unrolled_mu {body : TopType} (compound : body.isCompound = true)
    {assignment : Assignment} {v : TypeVar} {tree : TermTree String TopType}
    (solves : body.unrolled (Function.update assignment v tree) = tree) :
    (TopType.mu v body).unrolled assignment = tree := by
  rw [unrolled]
  exact ((contractive_compound compound assignment v).eq_fix solves).symm

/-- The tree of a type depends on its free variables only. -/
theorem unrolled_congr (type : TopType) : ∀ {assignment other : Assignment},
    (∀ v ∈ type.freeVars, assignment v = other v) →
      type.unrolled assignment = type.unrolled other := by
  induction type using shapeInduction with
  | var v =>
      intro assignment other same
      rw [unrolled, unrolled]
      exact same v (by simp [freeVars])
  | modeVar id => exact fun _ => rfl
  | compound type compound children =>
      intro assignment other same
      rw [unrolled_compound compound, unrolled_compound compound]
      congr 1
      apply List.map_congr_left
      intro child member
      apply children child member
      exact fun v free => same v ((mem_freeVars_compound compound).mpr ⟨child, member, free⟩)
  | mu v body induction =>
      intro assignment other same
      rw [unrolled, unrolled]
      congr 1
      funext tree
      apply induction
      intro w free
      rcases eq_or_ne w v with rfl | different
      · rw [Function.update_self, Function.update_self]
      · rw [Function.update_of_ne different, Function.update_of_ne different]
        exact same w (by simp [freeVars, free, different])

end TopType

end Topc
