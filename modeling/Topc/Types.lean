import Topc.Errors

/-! # Solved types and ownership classes

A type is a type variable, a constructor applied to child types, or a `mu` that
closes a cycle of the solver. -/

namespace Topc

/-- The mode of a reference: `alloc` makes owning references, `&` borrows. -/
inductive ReferenceMode
  | own
  | borrow
deriving DecidableEq, Repr

/-- Type variables. A `plain` one belongs to a syntax node and is what the
constraints mention; an `alpha` stands for a generalised variable, and carries
the call it was instantiated for once it has been copied there. -/
inductive TypeVar
  | plain (node : NodeId)
  | alpha (node : NodeId) (context : Option NodeId) (name : String)
deriving DecidableEq, Repr

inductive TopType where
  | var (v : TypeVar)
  | int
  | function (params : List TopType) (ret : TopType)
  | mode (value : ReferenceMode)
  | modeVar (id : Nat)
  | reference (mode referenced : TopType)
  | sumType (typeName : String) (ctors : List (String × Nat)) (payloads : List TopType)
  | mu (v : TypeVar) (body : TopType)
deriving Repr

namespace TopType

/-- Structural induction with one hypothesis for each child type. -/
@[elab_as_elim, induction_eliminator]
theorem induction {motive : TopType → Prop}
    (var : ∀ v, motive (.var v))
    (int : motive .int)
    (function : ∀ params ret, (∀ param ∈ params, motive param) → motive ret →
      motive (.function params ret))
    (mode : ∀ value, motive (.mode value))
    (modeVar : ∀ id, motive (.modeVar id))
    (reference : ∀ mode referenced, motive mode → motive referenced →
      motive (.reference mode referenced))
    (sumType : ∀ typeName ctors payloads, (∀ payload ∈ payloads, motive payload) →
      motive (.sumType typeName ctors payloads))
    (mu : ∀ v body, motive body → motive (.mu v body))
    (type : TopType) : motive type :=
  TopType.rec (motive_1 := motive) (motive_2 := fun types => ∀ type ∈ types, motive type)
    var int function mode modeVar reference sumType mu
    (by simp)
    (fun head tail headHolds tailHolds => by simpa using ⟨headHolds, tailHolds⟩)
    type

/-- The type of an owning reference. -/
abbrev owningRef (referenced : TopType) : TopType :=
  .reference (.mode .own) referenced

/-- The type of a borrow. -/
abbrev borrowRef (referenced : TopType) : TopType :=
  .reference (.mode .borrow) referenced

/-! ## Decidable equality -/

mutual
def beq : TopType → TopType → Bool
  | .var left, .var right => left == right
  | .int, .int => true
  | .function params ret, .function params' ret' => beqAll params params' && ret.beq ret'
  | .mode left, .mode right => left == right
  | .modeVar left, .modeVar right => left == right
  | .reference leftMode left, .reference rightMode right =>
      leftMode.beq rightMode && left.beq right
  | .sumType name ctors payloads, .sumType name' ctors' payloads' =>
      name == name' && ctors == ctors' && beqAll payloads payloads'
  | .mu v body, .mu v' body' => v == v' && body.beq body'
  | _, _ => false

def beqAll : List TopType → List TopType → Bool
  | [], [] => true
  | left :: lefts, right :: rights => left.beq right && beqAll lefts rights
  | _, _ => false
end

theorem beqAll_iff {lefts : List TopType}
    (each : ∀ left ∈ lefts, ∀ right, left.beq right = true ↔ left = right) :
    ∀ rights, beqAll lefts rights = true ↔ lefts = rights := by
  induction lefts with
  | nil =>
      intro rights
      cases rights <;> simp [beqAll]
  | cons left lefts induction =>
      intro rights
      cases rights with
      | nil => simp [beqAll]
      | cons right rights =>
          have headIff := each left (by simp) right
          have tailIff := induction (fun other member => each other (by simp [member])) rights
          simp [beqAll, headIff, tailIff]

theorem beq_iff (left : TopType) : ∀ right, left.beq right = true ↔ left = right := by
  induction left with
  | var v => intro right; cases right <;> simp [beq]
  | int => intro right; cases right <;> simp [beq]
  | function params ret paramsIff retIff =>
      intro right
      cases right <;> simp [beq, beqAll_iff paramsIff, retIff]
  | mode value => intro right; cases right <;> simp [beq]
  | modeVar id => intro right; cases right <;> simp [beq]
  | reference mode referenced modeIff referencedIff =>
      intro right
      cases right <;> simp [beq, modeIff, referencedIff]
  | sumType typeName ctors payloads payloadsIff =>
      intro right
      cases right <;> simp [beq, beqAll_iff payloadsIff, and_assoc]
  | mu v body bodyIff =>
      intro right
      cases right <;> simp [beq, bodyIff]

instance : DecidableEq TopType := fun left right =>
  decidable_of_iff (left.beq right = true) (left.beq_iff right)

end TopType

/-! ## Ownership classes -/

/-- Whether a value may be duplicated or has one owner that must free it. -/
inductive OwnershipClass
  | copy
  | own
deriving DecidableEq, Repr

namespace OwnershipClassifier

/-- The class of a solved type. A constructor value is always a heap box, so a
sum owns whatever its payloads are. -/
def classifyType : TopType → OwnershipClass
  | .reference (.mode .own) _ => .own
  | .reference _ _ => .copy
  | .mu _ body => classifyType body
  | .sumType .. => .own
  | .int | .function .. | .var _ | .mode _ | .modeVar _ => .copy

end OwnershipClassifier

/-- The solved types the ownership passes read. -/
structure TypeResults where
  ofDecl : DeclNode → TopType
  ofExpr : Expr → TopType

namespace OwnershipClassifier

def classify (types : TypeResults) (decl : DeclNode) : OwnershipClass :=
  classifyType (types.ofDecl decl)

def classifyValue (types : TypeResults) (expr : Expr) : OwnershipClass :=
  classifyType (types.ofExpr expr)

end OwnershipClassifier

end Topc
