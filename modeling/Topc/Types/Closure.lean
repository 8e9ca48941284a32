import Topc.Errors
import Topc.Types.Terms

/-! # Closing a solved type

Bound variables are replaced by the types of their classes. A variable met
again below itself is left as an alpha and bound by a `mu` at its first
occurrence. -/

namespace Topc

namespace TopTypeClosure

/-- The alpha that stands for an unbound variable. -/
def alphaOf : TypeVar → TypeVar
  | .plain node => .alpha node none ""
  | .alpha node context name => .alpha node context name

section

variable (uf : TermUnionFind TopType)
variable (closeRep : List TypeVar → TopType → Except CompileError TopType)

def closeModeVar (visited : List TypeVar) (id : Nat) : Except CompileError TopType :=
  let rep := uf.root (.modeVar id)
  if rep = .modeVar id then .ok (.modeVar id)
  else
    match rep with
    | .modeVar _ => .error (.internal "cyclic reference mode binding")
    | _ => closeRep visited rep

/-- Wrap the type of a variable's class in a `mu` when the variable occurs in it. -/
def bindCycle (v : TypeVar) (closedV : TopType) : TopType :=
  let newV := alphaOf v
  if closedV ≠ .var newV ∧ newV ∈ TypeVars.collect closedV then
    .mu newV (Substituter.substitute closedV v (.var newV))
  else closedV

def closeVar (visited : List TypeVar) (v : TypeVar) : Except CompileError TopType :=
  let rep := uf.root (.var v)
  if v ∉ visited ∧ rep ≠ .var v then do
    return bindCycle v (← closeRep (v :: visited) rep)
  else .ok (.var (alphaOf v))

def withReferenceChildren (mode referenced : TopType) : Except CompileError TopType :=
  match mode with
  | .mode _ | .modeVar _ => .ok (.reference mode referenced)
  | _ => .error (.internal "ReferenceType mode child must be a reference mode")

mutual
def closeType (visited : List TypeVar) : TopType → Except CompileError TopType
  | .modeVar id => closeModeVar uf closeRep visited id
  | .var v => closeVar uf closeRep visited v
  | .mu v body => do return .mu v (← closeType visited body)
  | .int => .ok .int
  | .mode value => .ok (.mode value)
  | .function params ret => do
      let closedParams ← closeAll visited params
      let closedRet ← closeType visited ret
      return .function closedParams closedRet
  | .reference refMode referenced => do
      let closedMode ← closeType visited refMode
      let closedReferenced ← closeType visited referenced
      withReferenceChildren closedMode closedReferenced
  | .sumType typeName ctors payloads => do
      let closedPayloads ← closeAll visited payloads
      return .sumType typeName ctors closedPayloads

def closeAll (visited : List TypeVar) : List TopType → Except CompileError (List TopType)
  | [] => .ok []
  | type :: types => do
      let closed ← closeType visited type
      let closedTypes ← closeAll visited types
      return closed :: closedTypes
end

end

/-- Close a type, following variables at most so deep. -/
def closeWithin (uf : TermUnionFind TopType) :
    Nat → List TypeVar → TopType → Except CompileError TopType
  | 0 => fun _ _ => .error (.internal "closure depth exceeded")
  | depth + 1 => closeType uf (closeWithin uf depth)

/-- Each variable is followed once on the way down, and a mode variable last. -/
def close (uf : TermUnionFind TopType) (t : TopType) : Except CompileError TopType :=
  closeWithin uf (uf.edges.length + 3) [] t

/-! ## Closed types -/

end TopTypeClosure

mutual
/-- The variables that occur in a type. -/
def TopType.vars : TopType → List TypeVar
  | .var v => [v]
  | .int | .mode _ | .modeVar _ => []
  | .function params ret => TopType.varsOfAll params ++ ret.vars
  | .reference refMode referenced => refMode.vars ++ referenced.vars
  | .sumType _ _ payloads => TopType.varsOfAll payloads
  | .mu _ body => body.vars

def TopType.varsOfAll : List TopType → List TypeVar
  | [] => []
  | type :: types => type.vars ++ TopType.varsOfAll types
end

theorem TopType.mem_varsOfAll {types : List TopType} {v : TypeVar} :
    v ∈ TopType.varsOfAll types ↔ ∃ type ∈ types, v ∈ type.vars := by
  induction types with
  | nil => simp [TopType.varsOfAll]
  | cons type types induction => simp [TopType.varsOfAll, induction]

namespace TopTypeClosure

/-- What an unbound variable closes to. -/
def closedLeaf : TopType → TopType
  | .var v => .var (alphaOf v)
  | other => other

theorem withReferenceChildren_ok {mode referenced closed : TopType}
    (result : withReferenceChildren mode referenced = .ok closed) :
    closed = .reference mode referenced := by
  unfold withReferenceChildren at result
  split at result
  · cases result
    rfl
  · cases result
    rfl
  · cases result

end TopTypeClosure

end Topc
