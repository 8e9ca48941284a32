import Topc.CodeGen.CaseStatement

/-! # The instructions of a case statement

The code is a switch over the tag of the matched box. For each tag it tries the
arms of that constructor one after the other: first all tests of an arm, then its
bindings. An instruction that reads what is not there has no outcome. -/

namespace Topc

/-- The value in a slot. The payloads of a box stand behind its tag. -/
def Value.at? (value : Value) : Slot → Option Value
  | [] => some value
  | offset :: slot =>
      match value, offset with
      | .box _ payloads, offset + 1 => payloads[offset]?.bind fun payload => payload.at? slot
      | _, _ => none

theorem Value.at?_append (slot rest : Slot) : ∀ value : Value,
    value.at? (slot ++ rest) = (value.at? slot).bind fun inner => inner.at? rest := by
  induction slot with
  | nil => exact fun _ => rfl
  | cons offset slot induction =>
      intro value
      cases value with
      | word bits => rfl
      | box tag payloads =>
          cases offset with
          | zero => rfl
          | succ offset =>
              rw [List.cons_append, Value.at?, Value.at?]
              cases payloads[offset]? with
              | none => rfl
              | some payload => exact induction payload

theorem Value.at?_field {value : Value} {box : Slot} {tag : Nat} {payloads : List Value}
    (isBox : value.at? box = some (.box tag payloads)) (offset : Nat) :
    value.at? (box ++ [offset + 1]) = payloads[offset]? := by
  rw [Value.at?_append, isBox, Option.bind_some, Value.at?]
  cases payloads[offset]? <;> rfl

inductive CaseInstruction
  /-- Load the word in a slot. -/
  | loadField (slot : Slot)
  /-- Load the tag of the box in a slot, and fail unless it is the expected one. -/
  | testTag (slot : Slot) (expected : Nat)
  | perform (effect : MatchEffect)
deriving DecidableEq, Repr

namespace CaseInstruction

def effect? : CaseInstruction → Option MatchEffect
  | .perform effect => some effect
  | _ => none

end CaseInstruction

namespace CaseCodeGen

/-! ## Generation -/

section

variable (symbols : SymbolTable)

/-- A constructor expression fills a box of zeros with the values of its arguments. -/
def construct (tag : String) (args : List Value) : Value :=
  .box (innerTagIdx symbols tag)
    (args ++ List.replicate ((innerParams symbols tag).length - args.length) (.word 0))

mutual
def emitPatternTestCode (slot : Slot) : Pattern → List CaseInstruction
  | .var .. | .wildcard _ => []
  | .ctor _ tag subPatterns =>
      .loadField slot :: .testTag slot (innerTagIdx symbols tag) ::
        emitPatternTestCodes slot 1 subPatterns

def emitPatternTestCodes (box : Slot) (offset : Nat) : List Pattern → List CaseInstruction
  | [] => []
  | pattern :: patterns =>
      emitPatternTestCode (box ++ [offset]) pattern
        ++ emitPatternTestCodes box (offset + 1) patterns
end

variable (types : TypeResults) (plan : DestructionPlan) (consuming : Bool)

mutual
/-- Every pattern loads its field, also where nothing is done with it. -/
def emitPatternBindCode (slot : Slot) (paramDecl : Option DeclNode) :
    Pattern → List CaseInstruction
  | .var _ decl => [.loadField slot, .perform (.bind decl slot)]
  | .wildcard info =>
      .loadField slot ::
        match paramDecl with
        | some param =>
            if info.id ∈ plan.discardedPayloads then
              (emitDestroyValue types slot param).map .perform
            else []
        | none => []
  | .ctor _ tag subPatterns =>
      .loadField slot ::
        (emitPatternBindCodes slot 1 (innerParams symbols tag) subPatterns
          ++ if consuming then [.perform (.free slot)] else [])

def emitPatternBindCodes (box : Slot) (offset : Nat) (params : List DeclNode) :
    List Pattern → List CaseInstruction
  | [] => []
  | pattern :: patterns =>
      emitPatternBindCode (box ++ [offset]) params.head? pattern
        ++ emitPatternBindCodes box (offset + 1) params.tail patterns
end

/-- The blocks of an arm before its body. -/
structure ArmCode where
  arm : CaseArm
  tests : List CaseInstruction
  bindings : List CaseInstruction

/-- The switch: for each tag the arms of its constructor. -/
abbrev CaseCode := List (Nat × List ArmCode)

def generateArm (arms : List CaseArm) (arm : CaseArm) : ArmCode where
  arm := arm
  tests := emitPatternTestCodes symbols [] 1 arm.getPatterns
  bindings := emitPatternBindCodes symbols types plan consuming [] 1
    (variantParams (ownerDecl symbols arms) arm.getTag) arm.getPatterns

def generateCase (arms : List CaseArm) : CaseCode :=
  (tagOrder arms).map fun tag =>
    (variantIndex (ownerDecl symbols arms) tag,
      (arms.filter fun arm => arm.getTag == tag).map
        (generateArm symbols types plan consuming arms))

end

/-! ## Execution -/

section

variable (value : Value)

/-- Whether execution goes on, for an instruction that reads only what is there. -/
def step : CaseInstruction → Option Bool
  | .loadField slot => (value.at? slot).map fun _ => true
  | .testTag slot expected =>
      match value.at? slot with
      | some (.box tag _) => some (tag == expected)
      | _ => none
  | .perform _ => some true

/-- Run a block up to the first test that fails. The trace has the instructions
that ran. -/
def runBlock : List CaseInstruction → Option (Bool × List CaseInstruction)
  | [] => some (true, [])
  | instruction :: rest =>
      match step value instruction with
      | none => none
      | some false => some (false, [instruction])
      | some true => (runBlock rest).map fun (passed, trace) => (passed, instruction :: trace)

/-- The arm whose body is entered, or none in the default block, and the
instructions that ran before. -/
structure Run where
  selected : Option CaseArm
  trace : List CaseInstruction

/-- An arm whose tests fail goes on to the next one, the last one to the default block. -/
def runChain : List ArmCode → Option Run
  | [] => some ⟨none, []⟩
  | code :: chain =>
      match runBlock value code.tests with
      | none => none
      | some (true, tested) =>
          (runBlock value code.bindings).map fun (_, bound) => ⟨some code.arm, tested ++ bound⟩
      | some (false, tested) =>
          (runChain chain).map fun run => ⟨run.selected, tested ++ run.trace⟩

def runCase (code : CaseCode) : Option Run :=
  match value with
  | .word _ => none
  | .box tag _ =>
      match code.find? fun branch => branch.1 == tag with
      | none => some ⟨none, []⟩
      | some (index, chain) =>
          (runChain value chain).map fun run => ⟨run.selected, .testTag [] index :: run.trace⟩

end

end CaseCodeGen

end Topc
