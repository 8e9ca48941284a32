import Topc.FunctionEffectSummaries
import Topc.Weeding

/-! # Ownership rules on types

What a solved type may not contain: an owned cell holds no owned value, and no
value holds a borrow. -/

namespace Topc.OwnershipTypeRules

section

variable (rules : RuleToggles) (types : TypeResults)

/-- Only a type that is an owning reference as it stands is looked into. -/
def checkAllocPayload : AstNode → Except CompileError Unit
  | .expr (.allocExpr info initializer) =>
      match types.ofExpr (.allocExpr info initializer) with
      | .reference (.mode .own) payload =>
          if OwnershipClassifier.classifyType payload = .own then
            rules.reject "alloc-payload"
              s!"Ownership error on line {info.line}: alloc payload must not be an owned value; owned pointers cannot nest (own&own is not allowed). Use a sum type to own structured or heap data.\n"
          else .ok ()
      | _ => .ok ()
  | _ => .ok ()

def checkAllocPayloads (program : Program) : Except CompileError Unit :=
  program.postOrder.forM (checkAllocPayload rules types)

end

section

variable {types : TypeResults} {program : Program}

/-- The payload of an accepted `alloc` is a copy. -/
theorem checkAllocPayloads_copy (checked : checkAllocPayloads .allEnabled types program = .ok ())
    {info : NodeInfo} {initializer : Expr} {payload : TopType}
    (member : .expr (.allocExpr info initializer) ∈ program.postOrder)
    (isOwning : types.ofExpr (.allocExpr info initializer) = .owningRef payload) :
    OwnershipClassifier.classifyType payload = .copy := by
  have visited := forM_eq_ok.mp checked _ member
  rw [checkAllocPayload, isOwning] at visited
  cases class' : OwnershipClassifier.classifyType payload with
  | copy => rfl
  | own =>
      simp only [class', if_true, RuleToggles.reject_allEnabled] at visited
      cases visited

end

/-! ## Borrows inside values -/

mutual
/-- A function value owns nothing, whatever it is called with. -/
def containsBorrow : TopType → Bool
  | .reference (.mode .borrow) _ => true
  | .reference _ referenced => containsBorrow referenced
  | .mu _ body => containsBorrow body
  | .sumType _ _ payloads => anyContainsBorrow payloads
  | .var _ | .int | .function .. | .mode _ | .modeVar _ => false

def anyContainsBorrow : List TopType → Bool
  | [] => false
  | type :: types => containsBorrow type || anyContainsBorrow types
end

def componentAdvice : String :=
  "; a borrow cannot be stored inside a value — pass it as an immediate call argument or store an owned value or a copy instead."

section

variable (rules : RuleToggles) (types : TypeResults) (print : TopType → String)

def checkPayload (owner : SumTypeDecl) (variant : SumVariant) (param : DeclNode) :
    Except CompileError Unit :=
  let payload := types.ofDecl param
  if containsBorrow payload then
    rules.reject "borrow-component"
      (s!"Ownership error on line {owner.line}: payload '{param.name}' of constructor " ++
        s!"{variant.tag} holds a borrow (" ++ print payload ++ ")" ++ componentAdvice)
  else .ok ()

def checkSumType (owner : SumTypeDecl) : Except CompileError Unit :=
  owner.variants.forM fun variant =>
    variant.params.forM (checkPayload rules types print owner variant)

def checkResult (decl : DeclNode) : Except CompileError Unit :=
  match types.ofDecl decl with
  | .function _ ret =>
      if containsBorrow ret then
        rules.reject "borrow-component"
          (s!"Ownership error on line {decl.line}: function {decl.name} returns a borrow (" ++
            print ret ++ ")" ++ componentAdvice)
      else .ok ()
  | _ => .ok ()

def checkAllocComponent : AstNode → Except CompileError Unit
  | .expr (.allocExpr info initializer) =>
      match types.ofExpr (.allocExpr info initializer) with
      | .reference _ payload =>
          if containsBorrow payload then
            rules.reject "borrow-component"
              (s!"Ownership error on line {info.line}: alloc payload holds a borrow (" ++
                print payload ++ ")" ++ componentAdvice)
          else .ok ()
      | _ => .ok ()
  | _ => .ok ()

/-- Payloads of sum types, results of functions and contents of cells. -/
def checkBorrowComponents (symbols : SymbolTable) (program : Program) :
    Except CompileError Unit := do
  (symbols.getSumTypes.filterMap symbols.getSumType).forM (checkSumType rules types print)
  symbols.getFunctions.forM (checkResult rules types print)
  program.postOrder.forM (checkAllocComponent rules types print)

end

section

variable {types : TypeResults}

theorem reject_unless_eq_ok {condition : Bool} {message : String} :
    (if condition then RuleToggles.allEnabled.reject "borrow-component" message else .ok ()) =
      .ok () ↔ condition = false := by
  cases condition <;> simp

/-- No cell, payload or result has a type with a borrow in it. -/
structure ComponentsBorrowFree (types : TypeResults) (symbols : SymbolTable) (program : Program) :
    Prop where
  payloads : ∀ owner ∈ symbols.getSumTypes.filterMap symbols.getSumType,
    ∀ variant ∈ owner.variants, ∀ param ∈ variant.params,
      containsBorrow (types.ofDecl param) = false
  results : ∀ decl ∈ symbols.getFunctions, ∀ params ret,
    types.ofDecl decl = .function params ret → containsBorrow ret = false
  cells : ∀ info initializer, .expr (.allocExpr info initializer) ∈ program.postOrder →
    ∀ refMode payload, types.ofExpr (.allocExpr info initializer) = .reference refMode payload →
      containsBorrow payload = false

theorem checkBorrowComponents_eq_ok {print : TopType → String} {symbols : SymbolTable}
    {program : Program} :
    checkBorrowComponents .allEnabled types print symbols program = .ok () ↔
      ComponentsBorrowFree types symbols program := by
  have split : checkBorrowComponents .allEnabled types print symbols program = .ok () ↔
      ((symbols.getSumTypes.filterMap symbols.getSumType).forM
          (checkSumType .allEnabled types print) = .ok () ∧
        symbols.getFunctions.forM (checkResult .allEnabled types print) = .ok () ∧
        program.postOrder.forM (checkAllocComponent .allEnabled types print) = .ok ()) := by
    rw [checkBorrowComponents, bind_eq_ok]
    constructor
    · rintro ⟨_, sums, rest⟩
      rw [bind_eq_ok] at rest
      rcases rest with ⟨_, results, cells⟩
      exact ⟨sums, results, cells⟩
    · rintro ⟨sums, results, cells⟩
      exact ⟨(), sums, bind_eq_ok.mpr ⟨(), results, cells⟩⟩
  rw [split, forM_eq_ok, forM_eq_ok, forM_eq_ok]
  constructor
  · rintro ⟨sums, results, cells⟩
    constructor
    · intro owner ownerMem variant variantMem param paramMem
      have visited := forM_eq_ok.mp (forM_eq_ok.mp (sums owner ownerMem) variant variantMem) param
        paramMem
      exact reject_unless_eq_ok.mp visited
    · intro decl member params ret isFunction
      have visited := results decl member
      rw [checkResult, isFunction] at visited
      exact reject_unless_eq_ok.mp visited
    · intro info initializer member refMode payload isReference
      have visited := cells _ member
      rw [checkAllocComponent, isReference] at visited
      exact reject_unless_eq_ok.mp visited
  · intro free
    refine ⟨fun owner ownerMem => ?_, fun decl member => ?_, fun node member => ?_⟩
    · apply forM_eq_ok.mpr
      intro variant variantMem
      apply forM_eq_ok.mpr
      intro param paramMem
      exact reject_unless_eq_ok.mpr (free.payloads owner ownerMem variant variantMem param paramMem)
    · unfold checkResult
      split
      · rename_i params ret isFunction
        exact reject_unless_eq_ok.mpr (free.results decl member params ret isFunction)
      · rfl
    · unfold checkAllocComponent
      split
      · rename_i info initializer
        split
        · rename_i refMode payload isReference
          exact reject_unless_eq_ok.mpr (free.cells info initializer member refMode payload
            isReference)
        · rfl
      · rfl

end

end Topc.OwnershipTypeRules
