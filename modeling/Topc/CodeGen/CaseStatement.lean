import Topc.MoveAnalysis

/-! # Generated code for case statements

The code switches on the constructor of the value and tries the arms of that
constructor in order. Here are the indices and payloads it takes for the
constructors, and what it does to the matched value. -/

namespace Topc

/-- A value at run time. A box holds the index of its constructor and then its
payloads, each in the slot at its offset. -/
inductive Value where
  | word (bits : Int)
  | box (tag : Nat) (payloads : List Value)

/-- Where a value stands inside the matched value: the offsets from the outermost
box inwards. The matched value itself stands at `[]`. -/
abbrev Slot := List Nat

/-- What the code that binds the patterns of an arm does. -/
inductive MatchEffect
  /-- The word in the slot becomes the value of the binder. -/
  | bind (binder : DeclNode) (slot : Slot)
  /-- The value in the slot is destroyed, as one of the type of the payload. -/
  | destroy (slot : Slot) (paramDecl : DeclNode)
  /-- The box in the slot is freed, and nothing it points to. -/
  | free (slot : Slot)
deriving DecidableEq, Repr

namespace CaseCodeGen

section

variable (symbols : SymbolTable)

/-! ## Choosing an arm -/

/-- The index of a constructor in a nested pattern. -/
def innerTagIdx (tag : String) : Nat :=
  match symbols.getConstructorOwner tag with
  | none => 0
  | some owner => (owner.variants.findIdx? fun variant => variant.tag == tag).getD 0

/-- The type that the constructors of all arms are looked up in. -/
def ownerDecl (arms : List CaseArm) : Option SumTypeDecl :=
  arms.head?.bind fun arm => symbols.getConstructorOwner arm.getTag

/-- The last variant with the tag counts, as a map keyed by tags has it. -/
def variantIndex (owner : Option SumTypeDecl) (tag : String) : Nat :=
  (owner.bind fun decl => (decl.variants.zipIdx.reverse.find? fun entry =>
    entry.1.tag == tag).map Prod.snd).getD 0

def variantParams (owner : Option SumTypeDecl) (tag : String) : List DeclNode :=
  (owner.bind fun decl => (decl.variants.reverse.find? fun variant =>
    variant.tag == tag).map SumVariant.params).getD []

/-- The constructors of the arms in the order of their first arms. -/
def tagOrder (arms : List CaseArm) : List String :=
  (arms.map CaseArm.getTag).reverse.dedup.reverse

/-! ## Binding the patterns of an arm -/

variable (types : TypeResults) (plan : DestructionPlan)

def innerParams (tag : String) : List DeclNode :=
  match symbols.getConstructorOwner tag with
  | none => []
  | some owner => ((owner.variants.find? fun variant => variant.tag == tag).map
      SumVariant.params).getD []

/-- A value of a `Copy` type is not destroyed. -/
def emitDestroyValue (slot : Slot) (paramDecl : DeclNode) : List MatchEffect :=
  match OwnershipClassifier.classify types paramDecl with
  | .own => [.destroy slot paramDecl]
  | .copy => []

end

/-- A case statement is a consuming match if the plan says so. -/
def isConsuming (plan : DestructionPlan) (info : NodeInfo) : Bool :=
  decide (info.id ∈ plan.consumingMatches)

end CaseCodeGen

end Topc
