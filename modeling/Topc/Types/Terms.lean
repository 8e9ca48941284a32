import Topc.Solver.TermUnifier
import Topc.Types

/-! # Types as terms of the solver

Type variables and mode variables are the variables of the solver. A `mu` is
what closing a type makes of a cycle, and never enters the solver. -/

namespace Topc

namespace TopType

/-! ## The term interface -/

def isVariable : TopType → Bool
  | .var _ | .modeVar _ => true
  | _ => false

def getFunctor : TopType → String
  | .var (.plain node) => s!"var@{node}"
  | .var (.alpha _ _ name) => "α" ++ name
  | .int => "int"
  | .function .. => "->"
  | .mode .own => "ownmode"
  | .mode .borrow => "borrowmode"
  | .modeVar id => s!"modevar@{id}"
  | .reference .. => "ref"
  | .sumType typeName _ _ => "sumtype_" ++ typeName
  | .mu .. => "μ"

def getChildTypes : TopType → List TopType
  | .function params ret => params ++ [ret]
  | .reference refMode referenced => [refMode, referenced]
  | .sumType _ _ payloads => payloads
  | .var _ | .int | .mode _ | .modeVar _ | .mu .. => []

mutual
def size : TopType → Nat
  | .var _ | .int | .mode _ | .modeVar _ => 1
  | .function params ret => 1 + sizeAll params + ret.size
  | .reference refMode referenced => 1 + refMode.size + referenced.size
  | .sumType _ _ payloads => 1 + sizeAll payloads
  | .mu _ body => 1 + body.size

def sizeAll : List TopType → Nat
  | [] => 0
  | type :: types => type.size + sizeAll types
end

theorem size_le_sizeAll {types : List TopType} : ∀ type ∈ types, type.size ≤ sizeAll types := by
  induction types with
  | nil => exact nofun
  | cons head types induction =>
      intro type member
      rw [sizeAll]
      rcases List.mem_cons.mp member with rfl | later
      · omega
      · have bound := induction type later
        omega

theorem childType_smaller (type child : TopType) (member : child ∈ type.getChildTypes) :
    child.size < type.size := by
  cases type with
  | function params ret =>
      rw [size]
      rw [getChildTypes] at member
      rcases List.mem_append.mp member with isParam | isRet
      · have bound := size_le_sizeAll child isParam
        omega
      · rw [List.mem_singleton.mp isRet]
        omega
  | reference refMode referenced =>
      rw [size]
      rw [getChildTypes] at member
      rcases List.mem_pair.mp member with rfl | rfl <;> omega
  | sumType typeName ctors payloads =>
      rw [size]
      rw [getChildTypes] at member
      have bound := size_le_sizeAll child member
      omega
  | var v => cases member
  | int => cases member
  | mode value => cases member
  | modeVar id => cases member
  | mu v body => cases member

instance : Term TopType String where
  isVariable := isVariable
  getFunctor := getFunctor
  getSubterms := getChildTypes
  size := size
  subterm_smaller := childType_smaller

/-! ## Replacing variables -/

mutual
/-- Rebuild a type with its variables replaced. The binder of a `mu` is visited
like any other variable. -/
def mapVars (replace : TypeVar → TopType) : TopType → TopType
  | .var v => replace v
  | .int => .int
  | .function params ret => .function (mapAllVars replace params) (ret.mapVars replace)
  | .mode value => .mode value
  | .modeVar id => .modeVar id
  | .reference refMode referenced =>
      .reference (refMode.mapVars replace) (referenced.mapVars replace)
  | .sumType typeName ctors payloads => .sumType typeName ctors (mapAllVars replace payloads)
  | .mu v body =>
      match replace v with
      | .var newV => .mu newV (body.mapVars replace)
      | _ => .mu v (body.mapVars replace)

def mapAllVars (replace : TypeVar → TopType) : List TopType → List TopType
  | [] => []
  | type :: types => type.mapVars replace :: mapAllVars replace types
end

@[simp] theorem mapAllVars_eq (replace : TypeVar → TopType) (types : List TopType) :
    mapAllVars replace types = types.map (mapVars replace) := by
  induction types with
  | nil => rfl
  | cons type types induction => rw [mapAllVars, induction, List.map_cons]

end TopType

namespace Copier

/-- A copied alpha loses its context. -/
def copyVar : TypeVar → TopType
  | .plain node => .var (.plain node)
  | .alpha node _ name => .var (.alpha node none name)

def copy (t : TopType) : TopType :=
  t.mapVars copyVar

end Copier

namespace FreshAlphaCopier

/-- An alpha copied for a call carries that call as its context. -/
def copyVar (context : NodeId) : TypeVar → TopType
  | .plain node => .var (.plain node)
  | .alpha node _ name => .var (.alpha node (some context) name)

def copy (t : TopType) (context : NodeId) : TopType :=
  t.mapVars (copyVar context)

end FreshAlphaCopier

namespace Substituter

def replaceVar (target : TypeVar) (substitution : TopType) (v : TypeVar) : TopType :=
  if v = target then Copier.copy substitution else .var v

def substitute (t : TopType) (target : TypeVar) (substitution : TopType) : TopType :=
  t.mapVars (replaceVar target substitution)

end Substituter

/-! ## Variables of a type -/

namespace TypeVars

mutual
/-- The variables met by a traversal. Leaving a `mu` removes its variable. -/
def collectInto (vars : List TypeVar) : TopType → List TypeVar
  | .var v => vars.insert v
  | .int | .mode _ | .modeVar _ => vars
  | .function params ret => collectInto (collectAllInto vars params) ret
  | .reference refMode referenced => collectInto (collectInto vars refMode) referenced
  | .sumType _ _ payloads => collectAllInto vars payloads
  | .mu v body => (collectInto (vars.insert v) body).filter (· ≠ v)

def collectAllInto (vars : List TypeVar) : List TopType → List TypeVar
  | [] => vars
  | type :: types => collectAllInto (collectInto vars type) types
end

def collect (t : TopType) : List TypeVar :=
  collectInto [] t

end TypeVars

mutual
def containsTopMu : TopType → Bool
  | .var _ | .int | .mode _ | .modeVar _ => false
  | .function params ret => anyContainsTopMu params || containsTopMu ret
  | .reference refMode referenced => containsTopMu refMode || containsTopMu referenced
  | .sumType _ _ payloads => anyContainsTopMu payloads
  | .mu .. => true

def anyContainsTopMu : List TopType → Bool
  | [] => false
  | type :: types => containsTopMu type || anyContainsTopMu types
end

@[simp] theorem anyContainsTopMu_eq (types : List TopType) :
    anyContainsTopMu types = types.any containsTopMu := by
  induction types with
  | nil => rfl
  | cons type types induction => rw [anyContainsTopMu, induction, List.any_cons]

end Topc
