import Mathlib.Data.List.Forall2

/-! # Patterns that cover patterns

A pattern covers another one if it matches every value of the type that the other
one matches. -/

namespace Topc

/-- What a pattern tests: nothing, or a constructor and its payloads. -/
inductive Shape (Tag : Type*) where
  | any
  | ctor (tag : Tag) (parts : List (Shape Tag))

/-- A value as patterns see it. Patterns do not look into `other` values. -/
inductive Datum (Tag : Type*) where
  | other
  | ctor (tag : Tag) (parts : List (Datum Tag))

section

variable {Tag Ty : Type*}

/-! ## Matching -/

mutual
def Shape.Matches : Shape Tag → Datum Tag → Prop
  | .any, _ => True
  | .ctor _ _, .other => False
  | .ctor tag parts, .ctor tag' values => tag = tag' ∧ Shape.AllMatch parts values

def Shape.AllMatch : List (Shape Tag) → List (Datum Tag) → Prop
  | [], [] => True
  | shape :: shapes, value :: values => shape.Matches value ∧ Shape.AllMatch shapes values
  | [], _ :: _ | _ :: _, [] => False
end

theorem Shape.AllMatch.length_eq {shapes : List (Shape Tag)} {values : List (Datum Tag)}
    (matched : Shape.AllMatch shapes values) : shapes.length = values.length := by
  induction shapes generalizing values with
  | nil =>
      cases values with
      | nil => rfl
      | cons value values => exact matched.elim
  | cons shape shapes induction =>
      cases values with
      | nil => exact matched.elim
      | cons value values =>
          rw [List.length_cons, List.length_cons, induction matched.2]

theorem Shape.allMatch_any {shapes : List (Shape Tag)} {values : List (Datum Tag)}
    (any : ∀ shape ∈ shapes, shape = .any) (same : shapes.length = values.length) :
    Shape.AllMatch shapes values := by
  induction shapes generalizing values with
  | nil =>
      cases values with
      | nil => trivial
      | cons value values => cases same
  | cons shape shapes induction =>
      cases values with
      | nil => cases same
      | cons value values =>
          constructor
          · rw [any shape List.mem_cons_self]
            trivial
          · exact induction (fun inner member => any inner (List.mem_cons_of_mem _ member))
              (Nat.succ.inj same)

/-! ## Values of a type -/

variable (constructors : Ty → Option (List (Tag × List Ty)))

mutual
/-- The value belongs to the type. The values of a type without constructors are `other`. -/
def Datum.Fits : Datum Tag → Ty → Prop
  | .other, type => constructors type = none
  | .ctor tag parts, type => ∃ variants, constructors type = some variants ∧
      ∃ types, (tag, types) ∈ variants ∧ Datum.AllFit parts types

def Datum.AllFit : List (Datum Tag) → List Ty → Prop
  | [], [] => True
  | value :: values, type :: types => value.Fits type ∧ Datum.AllFit values types
  | [], _ :: _ | _ :: _, [] => False
end

theorem Datum.AllFit.length_eq {values : List (Datum Tag)} {types : List Ty}
    (fit : Datum.AllFit constructors values types) : values.length = types.length := by
  induction values generalizing types with
  | nil =>
      cases types with
      | nil => rfl
      | cons type types => exact fit.elim
  | cons value values induction =>
      cases types with
      | nil => exact fit.elim
      | cons type types =>
          rw [List.length_cons, List.length_cons, induction fit.2]

/-! ## Covering -/

/-- Every value of the type that the second pattern matches is matched by the first. -/
def Shape.Subsumes (shape : Shape Tag) (type : Ty) (later : Shape Tag) : Prop :=
  ∀ value : Datum Tag, value.Fits constructors type → later.Matches value → shape.Matches value

variable {constructors}

theorem Shape.Subsumes.refl (shape : Shape Tag) (type : Ty) :
    shape.Subsumes constructors type shape :=
  fun _ _ matched => matched

/-- A constructor whose payloads are not tested covers all its values. -/
theorem Shape.subsumes_of_any {shapes laters : List (Shape Tag)}
    (any : ∀ shape ∈ shapes, shape = .any) (same : shapes.length = laters.length) (tag : Tag)
    (type : Ty) :
    (Shape.ctor tag shapes).Subsumes constructors type (.ctor tag laters) := by
  intro value _ matched
  cases value with
  | other => exact matched.elim
  | ctor tag' values =>
      exact ⟨matched.1, Shape.allMatch_any any (same.trans matched.2.length_eq)⟩

end

end Topc
