import Topc.Types.Terms

/-! # The visitors that rebuild types

A post-order traversal leaves the rebuilt children of a type on a stack, and the
visit that ends the type pops them. -/

namespace Topc

/-- A type as the classes of the program build it. References whose mode is known
have classes of their own, and only these hide the mode from a traversal. -/
inductive TypeObject where
  | var (v : TypeVar)
  | int
  | function (params : List TypeObject) (ret : TypeObject)
  | referenceMode (value : ReferenceMode)
  | modeVar (id : Nat)
  | referenceType (mode referenced : TypeObject)
  | owningRef (referenced : TypeObject)
  | borrowRef (referenced : TypeObject)
  | sumType (typeName : String) (ctors : List (String × Nat)) (payloads : List TypeObject)
  | mu (v : TypeVar) (body : TypeObject)
deriving Repr

namespace TypeObject

/-- Structural induction with one hypothesis for each child type. -/
@[elab_as_elim, induction_eliminator]
theorem induction {motive : TypeObject → Prop}
    (var : ∀ v, motive (.var v))
    (int : motive .int)
    (function : ∀ params ret, (∀ param ∈ params, motive param) → motive ret →
      motive (.function params ret))
    (referenceMode : ∀ value, motive (.referenceMode value))
    (modeVar : ∀ id, motive (.modeVar id))
    (referenceType : ∀ mode referenced, motive mode → motive referenced →
      motive (.referenceType mode referenced))
    (owningRef : ∀ referenced, motive referenced → motive (.owningRef referenced))
    (borrowRef : ∀ referenced, motive referenced → motive (.borrowRef referenced))
    (sumType : ∀ typeName ctors payloads, (∀ payload ∈ payloads, motive payload) →
      motive (.sumType typeName ctors payloads))
    (mu : ∀ v body, motive body → motive (.mu v body))
    (type : TypeObject) : motive type :=
  TypeObject.rec (motive_1 := motive) (motive_2 := fun types => ∀ type ∈ types, motive type)
    var int function referenceMode modeVar referenceType owningRef borrowRef sumType mu
    (by simp)
    (fun head tail headHolds tailHolds => by simpa using ⟨headHolds, tailHolds⟩)
    type

/-! ## The stack of a visitor -/

/-- The types visited so far, the last first. -/
abbrev VisitedTypes := List TypeObject

def popBack : VisitedTypes → Option (TypeObject × VisitedTypes)
  | [] => none
  | last :: earlier => some (last, earlier)

/-- Pop as many types as there are arguments; the last one comes first. -/
def popArguments : Nat → VisitedTypes → Option (List TypeObject × VisitedTypes)
  | 0, visited => some ([], visited)
  | count + 1, visited =>
      (popBack visited).bind fun (argument, visited) =>
        (popArguments count visited).map fun (arguments, visited) =>
          (argument :: arguments, visited)

/-- The parameters and the return type are the arguments of a function type. -/
def endVisitFunction (arity : Nat) (visited : VisitedTypes) : Option VisitedTypes :=
  (popArguments arity visited).bind fun (arguments, visited) =>
    let argTypes := arguments.reverse
    argTypes.getLast?.map fun retType => .function argTypes.dropLast retType :: visited

def endVisitReferenceType (visited : VisitedTypes) : Option VisitedTypes :=
  (popBack visited).bind fun (pointedToType, visited) =>
    (popBack visited).map fun (mode, visited) => .referenceType mode pointedToType :: visited

def endVisitOwningRef (visited : VisitedTypes) : Option VisitedTypes :=
  (popBack visited).map fun (pointedToType, visited) => .owningRef pointedToType :: visited

def endVisitBorrowRef (visited : VisitedTypes) : Option VisitedTypes :=
  (popBack visited).map fun (pointedToType, visited) => .borrowRef pointedToType :: visited

def endVisitSumType (typeName : String) (ctors : List (String × Nat)) (arity : Nat)
    (visited : VisitedTypes) : Option VisitedTypes :=
  (popArguments arity visited).map fun (payloads, visited) =>
    .sumType typeName ctors payloads.reverse :: visited

/-- What is popped second must be a variable: the cast gives a null binder
otherwise, which is no type. -/
def endVisitMu (visited : VisitedTypes) : Option VisitedTypes :=
  (popBack visited).bind fun (tType, visited) =>
    (popBack visited).bind fun (vType, visited) =>
      match vType with
      | .var v => some (.mu v tType :: visited)
      | _ => none

/-! ## The traversal -/

mutual
/-- Visit a type; `endVisitVar` is what the visitor pushes for a variable. -/
def accept (endVisitVar : TypeVar → Option TypeObject) :
    TypeObject → VisitedTypes → Option VisitedTypes
  | .var v, visited => (endVisitVar v).map (· :: visited)
  | .int, visited => some (.int :: visited)
  | .function params ret, visited =>
      (acceptAll endVisitVar params visited).bind fun visited =>
        (accept endVisitVar ret visited).bind (endVisitFunction (params.length + 1))
  | .referenceMode value, visited => some (.referenceMode value :: visited)
  | .modeVar id, visited => some (.modeVar id :: visited)
  | .referenceType mode referenced, visited =>
      (accept endVisitVar mode visited).bind fun visited =>
        (accept endVisitVar referenced visited).bind endVisitReferenceType
  | .owningRef referenced, visited =>
      (accept endVisitVar referenced visited).bind endVisitOwningRef
  | .borrowRef referenced, visited =>
      (accept endVisitVar referenced visited).bind endVisitBorrowRef
  | .sumType typeName ctors payloads, visited =>
      (acceptAll endVisitVar payloads visited).bind
        (endVisitSumType typeName ctors payloads.length)
  | .mu v body, visited =>
      ((endVisitVar v).map (· :: visited)).bind fun visited =>
        (accept endVisitVar body visited).bind endVisitMu

def acceptAll (endVisitVar : TypeVar → Option TypeObject) :
    List TypeObject → VisitedTypes → Option VisitedTypes
  | [], visited => some visited
  | type :: types, visited =>
      (accept endVisitVar type visited).bind (acceptAll endVisitVar types)
end

def getResult (visited : VisitedTypes) : Option TypeObject :=
  visited.head?

namespace Copier

/-- An alpha is built again without its context. -/
def endVisitVar : TypeVar → Option TypeObject
  | .plain node => some (.var (.plain node))
  | .alpha node _ name => some (.var (.alpha node none name))

def copy (t : TypeObject) : Option TypeObject :=
  (t.accept endVisitVar []).bind getResult

end Copier

namespace Substituter

def endVisitVar (target : TypeVar) (substitution : TypeObject) (element : TypeVar) :
    Option TypeObject :=
  if element = target then Copier.copy substitution
  else
    match element with
    | .plain node => some (.var (.plain node))
    | .alpha node context name => some (.var (.alpha node context name))

def substitute (t : TypeObject) (v : TypeVar) (s : TypeObject) : Option TypeObject :=
  (t.accept (endVisitVar v s) []).bind getResult

end Substituter

/-! ## Structural rebuilding -/

mutual
/-- Replace the variables of a type and the binders of its `mu`s, in place. -/
def rebuild (replace : TypeVar → TypeObject) (binder : TypeVar → TypeVar) :
    TypeObject → TypeObject
  | .var v => replace v
  | .int => .int
  | .function params ret =>
      .function (rebuildAll replace binder params) (ret.rebuild replace binder)
  | .referenceMode value => .referenceMode value
  | .modeVar id => .modeVar id
  | .referenceType mode referenced =>
      .referenceType (mode.rebuild replace binder) (referenced.rebuild replace binder)
  | .owningRef referenced => .owningRef (referenced.rebuild replace binder)
  | .borrowRef referenced => .borrowRef (referenced.rebuild replace binder)
  | .sumType typeName ctors payloads =>
      .sumType typeName ctors (rebuildAll replace binder payloads)
  | .mu v body => .mu (binder v) (body.rebuild replace binder)

def rebuildAll (replace : TypeVar → TypeObject) (binder : TypeVar → TypeVar) :
    List TypeObject → List TypeObject
  | [] => []
  | type :: types => type.rebuild replace binder :: rebuildAll replace binder types
end

mutual
/-- The variables of a type, those after a `mu` apart. -/
def occurrences : TypeObject → List TypeVar
  | .var v => [v]
  | .int | .referenceMode _ | .modeVar _ => []
  | .function params ret => occurrencesAll params ++ ret.occurrences
  | .referenceType mode referenced => mode.occurrences ++ referenced.occurrences
  | .owningRef referenced | .borrowRef referenced => referenced.occurrences
  | .sumType _ _ payloads => occurrencesAll payloads
  | .mu _ body => body.occurrences

def occurrencesAll : List TypeObject → List TypeVar
  | [] => []
  | type :: types => type.occurrences ++ occurrencesAll types
end

mutual
/-- The variables that the `mu`s of a type bind. -/
def binders : TypeObject → List TypeVar
  | .var _ | .int | .referenceMode _ | .modeVar _ => []
  | .function params ret => bindersAll params ++ ret.binders
  | .referenceType mode referenced => mode.binders ++ referenced.binders
  | .owningRef referenced | .borrowRef referenced => referenced.binders
  | .sumType _ _ payloads => bindersAll payloads
  | .mu v body => v :: body.binders

def bindersAll : List TypeObject → List TypeVar
  | [] => []
  | type :: types => type.binders ++ bindersAll types
end

/-- Every occurrence of a variable replaced by a type, and nothing else changed. -/
def replaceVar (t : TypeObject) (v : TypeVar) (s : TypeObject) : TypeObject :=
  t.rebuild (fun element => if element = v then s else .var element) id

@[simp] theorem rebuildAll_eq (replace : TypeVar → TypeObject) (binder : TypeVar → TypeVar)
    (types : List TypeObject) :
    rebuildAll replace binder types = types.map (rebuild replace binder) := by
  induction types with
  | nil => rfl
  | cons type types induction => rw [rebuildAll, induction, List.map_cons]

@[simp] theorem mem_occurrencesAll {v : TypeVar} {types : List TypeObject} :
    v ∈ occurrencesAll types ↔ ∃ type ∈ types, v ∈ type.occurrences := by
  induction types with
  | nil => simp [occurrencesAll]
  | cons type types induction => simp [occurrencesAll, induction]

@[simp] theorem mem_bindersAll {v : TypeVar} {types : List TypeObject} :
    v ∈ bindersAll types ↔ ∃ type ∈ types, v ∈ type.binders := by
  induction types with
  | nil => simp [bindersAll]
  | cons type types induction => simp [bindersAll, induction]

section

variable {replace replace' : TypeVar → TypeObject} {binder binder' : TypeVar → TypeVar}

/-- Two rebuildings agree on what occurs in a type. -/
def Agree (replace replace' : TypeVar → TypeObject) (binder binder' : TypeVar → TypeVar)
    (t : TypeObject) : Prop :=
  (∀ v ∈ t.occurrences, replace v = replace' v) ∧ ∀ v ∈ t.binders, binder v = binder' v

theorem agree_all {types : List TypeObject}
    (each : ∀ type ∈ types, type.rebuild replace binder = type.rebuild replace' binder' ↔
      Agree replace replace' binder binder' type) :
    types.map (rebuild replace binder) = types.map (rebuild replace' binder') ↔
      (∀ v ∈ occurrencesAll types, replace v = replace' v) ∧
        ∀ v ∈ bindersAll types, binder v = binder' v := by
  rw [List.map_inj_left]
  constructor
  · intro same
    have agrees := fun type member => (each type member).mp (same type member)
    constructor
    · intro v occurs
      rcases mem_occurrencesAll.mp occurs with ⟨type, member, occurs⟩
      exact (agrees type member).1 v occurs
    · intro v binds
      rcases mem_bindersAll.mp binds with ⟨type, member, binds⟩
      exact (agrees type member).2 v binds
  · intro ⟨occurs, binds⟩ type member
    apply (each type member).mpr
    exact ⟨fun v inside => occurs v (mem_occurrencesAll.mpr ⟨type, member, inside⟩),
      fun v inside => binds v (mem_bindersAll.mpr ⟨type, member, inside⟩)⟩

/-- Two rebuildings give the same type exactly when they agree on what occurs in it. -/
theorem rebuild_eq_iff (t : TypeObject) :
    t.rebuild replace binder = t.rebuild replace' binder' ↔
      Agree replace replace' binder binder' t := by
  induction t with
  | var v => simp [rebuild, Agree, occurrences, binders]
  | int => simp [rebuild, Agree, occurrences, binders]
  | referenceMode value => simp [rebuild, Agree, occurrences, binders]
  | modeVar id => simp [rebuild, Agree, occurrences, binders]
  | function params ret paramsAgree retAgrees =>
      simp only [rebuild, rebuildAll_eq, function.injEq, agree_all paramsAgree, retAgrees, Agree,
        occurrences, binders, List.forall_mem_append]
      exact and_and_and_comm
  | referenceType mode referenced modeAgrees referencedAgrees =>
      simp only [rebuild, referenceType.injEq, modeAgrees, referencedAgrees, Agree, occurrences,
        binders, List.forall_mem_append]
      exact and_and_and_comm
  | owningRef referenced agrees =>
      simp only [rebuild, owningRef.injEq, agrees, Agree, occurrences, binders]
  | borrowRef referenced agrees =>
      simp only [rebuild, borrowRef.injEq, agrees, Agree, occurrences, binders]
  | sumType typeName ctors payloads payloadsAgree =>
      simp only [rebuild, rebuildAll_eq, sumType.injEq, true_and, agree_all payloadsAgree, Agree,
        occurrences, binders]
  | mu v body bodyAgrees =>
      simp only [rebuild, mu.injEq, bodyAgrees, Agree, occurrences, binders, List.forall_mem_cons]
      exact and_left_comm

end

theorem map_rebuild_id {types : List TypeObject}
    (each : ∀ type ∈ types, type.rebuild .var id = type) :
    types.map (rebuild .var id) = types :=
  (List.map_congr_left each).trans (List.map_id' types)

theorem rebuild_id (t : TypeObject) : t.rebuild .var id = t := by
  induction t with
  | var v => rfl
  | int => rfl
  | referenceMode value => rfl
  | modeVar id => rfl
  | function params ret paramsSame retSame =>
      rw [rebuild, rebuildAll_eq, retSame, map_rebuild_id paramsSame]
  | referenceType mode referenced modeSame referencedSame =>
      rw [rebuild, modeSame, referencedSame]
  | owningRef referenced same => rw [rebuild, same]
  | borrowRef referenced same => rw [rebuild, same]
  | sumType typeName ctors payloads payloadsSame =>
      rw [rebuild, rebuildAll_eq, map_rebuild_id payloadsSame]
  | mu v body same => rw [rebuild, same, id]

/-! ## The stack is balanced -/

theorem popArguments_append (arguments visited : List TypeObject) :
    popArguments arguments.length (arguments ++ visited) = some (arguments, visited) := by
  induction arguments with
  | nil => rfl
  | cons argument arguments induction =>
      change (popArguments arguments.length (arguments ++ visited)).map _ = _
      rw [induction]
      rfl

section

variable {replace : TypeVar → TypeObject} (binder : TypeVar → TypeVar)
  {endVisitVar : TypeVar → Option TypeObject}

theorem acceptAll_spec {types : List TypeObject}
    (each : ∀ type ∈ types, ∀ visited, type.accept endVisitVar visited =
      some (type.rebuild replace binder :: visited)) :
    ∀ visited, acceptAll endVisitVar types visited =
      some ((types.map (rebuild replace binder)).reverse ++ visited) := by
  induction types with
  | nil => exact fun visited => rfl
  | cons type types induction =>
      intro visited
      rw [acceptAll, each type List.mem_cons_self, Option.bind_some,
        induction fun other member => each other (List.mem_cons_of_mem type member)]
      simp

theorem endVisitFunction_spec (params : List TypeObject) (ret : TypeObject)
    (visited : VisitedTypes) :
    endVisitFunction (params.length + 1) (ret :: (params.reverse ++ visited)) =
      some (.function params ret :: visited) := by
  have popped := popArguments_append (ret :: params.reverse) visited
  rw [List.length_cons, List.length_reverse] at popped
  rw [endVisitFunction]
  change (popArguments (params.length + 1) (ret :: params.reverse ++ visited)).bind _ = _
  rw [popped]
  simp

theorem endVisitSumType_spec (typeName : String) (ctors : List (String × Nat))
    (payloads : List TypeObject) (visited : VisitedTypes) :
    endVisitSumType typeName ctors payloads.length (payloads.reverse ++ visited) =
      some (.sumType typeName ctors payloads :: visited) := by
  have popped := popArguments_append payloads.reverse visited
  rw [List.length_reverse] at popped
  rw [endVisitSumType, popped]
  simp

/-- A visit pushes the rebuilt type and leaves what is below it. -/
theorem accept_spec (pushes : ∀ v, endVisitVar v = some (replace v)) (t : TypeObject)
    (binds : ∀ v ∈ t.binders, replace v = .var (binder v)) :
    ∀ visited, t.accept endVisitVar visited = some (t.rebuild replace binder :: visited) := by
  induction t with
  | var v =>
      intro visited
      rw [accept, pushes]
      rfl
  | int => exact fun visited => rfl
  | referenceMode value => exact fun visited => rfl
  | modeVar id => exact fun visited => rfl
  | function params ret paramsPush retPushes =>
      intro visited
      rw [binders, List.forall_mem_append] at binds
      have params' := acceptAll_spec binder fun param member =>
        paramsPush param member fun v inside =>
          binds.1 v (mem_bindersAll.mpr ⟨param, member, inside⟩)
      have ended := endVisitFunction_spec (params.map (rebuild replace binder))
        (ret.rebuild replace binder) visited
      rw [List.length_map] at ended
      rw [accept, params', Option.bind_some, retPushes binds.2, Option.bind_some, ended, rebuild,
        rebuildAll_eq]
  | referenceType mode referenced modePushes referencedPushes =>
      intro visited
      rw [binders, List.forall_mem_append] at binds
      rw [accept, modePushes binds.1, Option.bind_some, referencedPushes binds.2]
      rfl
  | owningRef referenced pushed =>
      intro visited
      rw [accept, pushed binds]
      rfl
  | borrowRef referenced pushed =>
      intro visited
      rw [accept, pushed binds]
      rfl
  | sumType typeName ctors payloads payloadsPush =>
      intro visited
      rw [binders] at binds
      have payloads' := acceptAll_spec binder fun payload member =>
        payloadsPush payload member fun v inside =>
          binds v (mem_bindersAll.mpr ⟨payload, member, inside⟩)
      have ended := endVisitSumType_spec typeName ctors (payloads.map (rebuild replace binder))
        visited
      rw [List.length_map] at ended
      rw [accept, payloads', Option.bind_some, ended, rebuild, rebuildAll_eq]
  | mu v body bodyPushes =>
      intro visited
      rw [binders, List.forall_mem_cons] at binds
      rw [accept, pushes, binds.1, Option.map_some, Option.bind_some, bodyPushes binds.2]
      rfl

end

/-! ## Copies -/

/-- An alpha without its context. -/
def withoutContext : TypeVar → TypeVar
  | .plain node => .plain node
  | .alpha node _ name => .alpha node none name

/-- No alpha of the type was copied for a call, neither one that occurs nor a binder. -/
def ContextFree (t : TypeObject) : Prop :=
  ∀ v ∈ t.occurrences ++ t.binders, ∀ node context name, v ≠ .alpha node (some context) name

theorem withoutContext_eq_iff (v : TypeVar) :
    withoutContext v = v ↔ ∀ node context name, v ≠ .alpha node (some context) name := by
  rcases v with node | ⟨node, _ | context, name⟩ <;> simp [withoutContext]

namespace Copier

theorem endVisitVar_eq (v : TypeVar) : endVisitVar v = some (.var (withoutContext v)) := by
  cases v <;> rfl

theorem copy_eq (t : TypeObject) :
    copy t = some (t.rebuild (fun v => .var (withoutContext v)) withoutContext) := by
  rw [copy, accept_spec withoutContext endVisitVar_eq t (fun _ _ => rfl)]
  rfl

/-- A copy equals the type exactly when no alpha has a context. -/
theorem copy_eq_self_iff (t : TypeObject) : copy t = some t ↔ t.ContextFree := by
  rw [copy_eq, Option.some.injEq]
  conv_lhs => rhs; rw [← rebuild_id t]
  rw [rebuild_eq_iff, Agree, ContextFree, List.forall_mem_append]
  simp only [var.injEq, id, withoutContext_eq_iff]

end Copier

namespace Substituter

theorem endVisitVar_eq (target : TypeVar) (substitution : TypeObject) (element : TypeVar) :
    endVisitVar target substitution element =
      some (if element = target then
        substitution.rebuild (fun v => .var (withoutContext v)) withoutContext
        else .var element) := by
  by_cases isTarget : element = target
  · rw [if_pos isTarget, ← Copier.copy_eq]
    exact if_pos isTarget
  · rw [if_neg isTarget]
    cases element <;> exact if_neg isTarget

theorem binder_not_replaced {t : TypeObject} {v : TypeVar} (notBound : v ∉ t.binders)
    (replacement : TypeObject) : ∀ element ∈ t.binders,
      (if element = v then replacement else .var element) = .var (id element) := by
  intro element binds
  apply if_neg
  rintro rfl
  exact notBound binds

theorem substitute_eq {t : TypeObject} {v : TypeVar} (notBound : v ∉ t.binders) (s : TypeObject) :
    substitute t v s = some (t.replaceVar v
      (s.rebuild (fun v => .var (withoutContext v)) withoutContext)) := by
  rw [substitute, accept_spec id (endVisitVar_eq v s) t (binder_not_replaced notBound _)]
  rfl

/-- A substitution is structural exactly when what is put in is copied as it is. -/
theorem substitute_eq_replaceVar_iff {t : TypeObject} {v : TypeVar} (notBound : v ∉ t.binders)
    (s : TypeObject) :
    substitute t v s = some (t.replaceVar v s) ↔ (v ∈ t.occurrences → s.ContextFree) := by
  rw [substitute_eq notBound, Option.some.injEq, replaceVar, replaceVar, rebuild_eq_iff, Agree,
    ← Copier.copy_eq_self_iff, Copier.copy_eq, Option.some.injEq]
  constructor
  · intro ⟨agree, _⟩ occurs
    have same := agree v occurs
    rwa [if_pos rfl, if_pos rfl] at same
  · intro unchanged
    refine ⟨fun element occurs => ?_, fun _ _ => rfl⟩
    split
    · rename_i isTarget
      exact unchanged (isTarget ▸ occurs)
    · rfl

end Substituter

/-- Substitution and copying are structural exactly when they copy no alpha that
carries a call. -/
theorem substitute_copy_iff {t : TypeObject} {v : TypeVar} (notBound : v ∉ t.binders)
    (s : TypeObject) :
    Substituter.substitute t v s = some (t.replaceVar v s) ∧ Copier.copy t = some t ↔
      (v ∈ t.occurrences → s.ContextFree) ∧ t.ContextFree := by
  rw [Substituter.substitute_eq_replaceVar_iff notBound, Copier.copy_eq_self_iff]

/-- Closing the type of `x` in `x = box(x)`, with `box(y)` returning `alloc y`,
replaces the alpha copied for the call by itself. -/
theorem substitute_loses_context :
    let v := TypeVar.alpha 1 (some 9) ""
    let t := TypeObject.owningRef (.var v)
    v ∉ t.binders ∧ Substituter.substitute t v (.var v) ≠ some (t.replaceVar v (.var v)) ∧
      Copier.copy t ≠ some t := by
  have notContextFree : ¬ (TypeObject.owningRef (.var (.alpha 1 (some 9) ""))).ContextFree :=
    fun contextFree => contextFree _ (by simp [occurrences]) 1 9 "" rfl
  refine ⟨by simp [binders], ?_, mt (Copier.copy_eq_self_iff _).mp notContextFree⟩
  simp [Substituter.substitute, Copier.copy, accept, Substituter.endVisitVar, Copier.endVisitVar,
    endVisitOwningRef, popBack, getResult, replaceVar, rebuild]

theorem substitute_copy_plain :
    Substituter.substitute (.function [.var (.plain 1)] .int) (.plain 1) (.var (.plain 2)) =
        some ((TypeObject.function [.var (.plain 1)] .int).replaceVar (.plain 1)
          (.var (.plain 2))) ∧
      Copier.copy (.function [.var (.plain 1)] .int) =
        some (.function [.var (.plain 1)] .int) :=
  (substitute_copy_iff (by simp [binders, bindersAll]) (.var (.plain 2))).mpr
    ⟨fun _ => by simp [ContextFree, occurrences, binders],
      by simp [ContextFree, occurrences, occurrencesAll, binders, bindersAll]⟩

/-! ## The types they stand for -/

mutual
def toType : TypeObject → TopType
  | .var v => .var v
  | .int => .int
  | .function params ret => .function (toTypeAll params) ret.toType
  | .referenceMode value => .mode value
  | .modeVar id => .modeVar id
  | .referenceType mode referenced => .reference mode.toType referenced.toType
  | .owningRef referenced => .owningRef referenced.toType
  | .borrowRef referenced => .borrowRef referenced.toType
  | .sumType typeName ctors payloads => .sumType typeName ctors (toTypeAll payloads)
  | .mu v body => .mu v body.toType

def toTypeAll : List TypeObject → List TopType
  | [] => []
  | type :: types => type.toType :: toTypeAll types
end

@[simp] theorem toTypeAll_eq (types : List TypeObject) : toTypeAll types = types.map toType := by
  induction types with
  | nil => rfl
  | cons type types induction => rw [toTypeAll, induction, List.map_cons]

theorem toType_rebuild {replace : TypeVar → TypeObject} {binder : TypeVar → TypeVar}
    (t : TypeObject) (binds : ∀ v ∈ t.binders, replace v = .var (binder v)) :
    (t.rebuild replace binder).toType = t.toType.mapVars fun v => (replace v).toType := by
  induction t with
  | var v => rfl
  | int => rfl
  | referenceMode value => rfl
  | modeVar id => rfl
  | function params ret paramsSame retSame =>
      rw [binders, List.forall_mem_append] at binds
      have all : ∀ param ∈ params, (param.rebuild replace binder).toType =
          param.toType.mapVars fun v => (replace v).toType :=
        fun param member => paramsSame param member fun v inside =>
          binds.1 v (mem_bindersAll.mpr ⟨param, member, inside⟩)
      simpa [rebuild, toType, TopType.mapVars, retSame binds.2] using all
  | referenceType mode referenced modeSame referencedSame =>
      rw [binders, List.forall_mem_append] at binds
      simp [rebuild, toType, TopType.mapVars, modeSame binds.1, referencedSame binds.2]
  | owningRef referenced same =>
      simp [rebuild, toType, TopType.mapVars, same binds]
  | borrowRef referenced same =>
      simp [rebuild, toType, TopType.mapVars, same binds]
  | sumType typeName ctors payloads payloadsSame =>
      rw [binders] at binds
      have all : ∀ payload ∈ payloads, (payload.rebuild replace binder).toType =
          payload.toType.mapVars fun v => (replace v).toType :=
        fun payload member => payloadsSame payload member fun v inside =>
          binds v (mem_bindersAll.mpr ⟨payload, member, inside⟩)
      simpa [rebuild, toType, TopType.mapVars] using all
  | mu v body same =>
      rw [binders, List.forall_mem_cons] at binds
      simp [rebuild, toType, TopType.mapVars, binds.1, same binds.2]

/-- The visitors compute what the solver's view of types says. -/
theorem copy_toType (t : TypeObject) :
    (Copier.copy t).map toType = some (Topc.Copier.copy t.toType) := by
  have same : (fun v => (TypeObject.var (withoutContext v)).toType) = Topc.Copier.copyVar := by
    funext v
    cases v <;> rfl
  rw [Copier.copy_eq, Option.map_some, toType_rebuild t (fun _ _ => rfl), same]
  rfl

theorem substitute_toType {t : TypeObject} {v : TypeVar} (notBound : v ∉ t.binders)
    (s : TypeObject) :
    (Substituter.substitute t v s).map toType =
      some (Topc.Substituter.substitute t.toType v s.toType) := by
  have copied := copy_toType s
  rw [Copier.copy_eq, Option.map_some, Option.some.injEq] at copied
  rw [Substituter.substitute_eq notBound, Option.map_some, replaceVar,
    toType_rebuild t (Substituter.binder_not_replaced notBound _), Topc.Substituter.substitute]
  congr 2
  funext element
  rw [Topc.Substituter.replaceVar, ← copied]
  split <;> rfl

end TypeObject

end Topc
