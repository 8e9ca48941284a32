import Topc.CodeGen.CaseStatement
import Topc.CodeGen.StoragePositions
import Topc.Foundation.BasicBlocks

/-! # The machine of generated code

Generated code works on words. A word is a number, the index of a function or the
address of a cell. The runtime library reads, writes and ends the program. -/

namespace Topc

open BasicBlocks

abbrev Word := BitVec 64

/-- A mapped cell has a content. A heap block is known by its first cell. -/
structure Memory where
  cell : Word → Option Word
  block : Word → Option Nat

namespace Memory

/-- The address of the word at an offset, as an index of words has it. -/
def field (base : Word) (offset : Nat) : Word :=
  base + 8 * BitVec.ofNat 64 offset

def fields (base : Word) (count : Nat) : List Word :=
  (List.range count).map (field base)

def write (memory : Memory) (address value : Word) : Memory :=
  { memory with cell := Function.update memory.cell address (some value) }

/-- Map cells with a content. -/
def map (memory : Memory) (addresses : List Word) (content : Word) : Memory :=
  { memory with cell := fun address =>
    if address ∈ addresses then some content else memory.cell address }

def unmap (memory : Memory) (addresses : List Word) : Memory :=
  { memory with cell := fun address =>
    if address ∈ addresses then none else memory.cell address }

end Memory

theorem Word.ofNat_inj {left right : Nat} (leftFits : left < 2 ^ 64) (rightFits : right < 2 ^ 64) :
    BitVec.ofNat 64 left = BitVec.ofNat 64 right ↔ left = right := by
  rw [← BitVec.toNat_inj, BitVec.toNat_ofNat, BitVec.toNat_ofNat, Nat.mod_eq_of_lt leftFits,
    Nat.mod_eq_of_lt rightFits]

/-- What the runtime library prints. -/
inductive RuntimeEvent
  | output (value : Word)
  | error (value : Word)
  | divisionError (line overflow : Word)
deriving DecidableEq, Repr

structure World where
  memory : Memory
  /-- What is still to be read. -/
  inputs : List Word
  /-- The arguments of the program. -/
  arguments : List Word
  events : List RuntimeEvent

/-- What depends on the platform: where blocks and stack frames are put, the layout
of a frame, and what is in a slot that was never stored to. -/
structure Platform where
  heap : Memory → Nat → Word
  frame : Memory → Word
  layout : NodeId → Word
  undefined : Word

/-! ## Operations on the world -/

namespace Runtime

abbrev Run := BasicBlocks.Run World

def load (address : Word) : Run Word := fun world =>
  (world.memory.cell address).map fun value => .returned value world

def store (value address : Word) : Run Word := fun world =>
  if (world.memory.cell address).isSome then
    some (.returned 0 { world with memory := world.memory.write address value })
  else none

section

variable (platform : Platform)

/-- A block of zeros. -/
def calloc (count : Nat) : Run Word := fun world =>
  let base := platform.heap world.memory count
  let memory := world.memory.map (Memory.fields base count) 0
  some (.returned base { world with memory :=
    { memory with block := Function.update memory.block base (some count) } })

/-- Only a live block can be freed. -/
def free (address : Word) : Run Word := fun world =>
  (world.memory.block address).map fun count =>
    let memory := world.memory.unmap (Memory.fields address count)
    .returned 0 { world with memory :=
      { memory with block := Function.update memory.block address none } }

/-- An activation has slots until it returns. -/
def withFrame (slots : List NodeId) (body : (NodeId → Word) → Run Word) : Run Word := fun world =>
  let base := platform.frame world.memory
  let addresses := slots.map fun slot => base + platform.layout slot
  (body (fun slot => base + platform.layout slot)
    { world with memory := world.memory.map addresses platform.undefined }).map fun outcome =>
      match outcome with
      | .returned value ended =>
          .returned value { ended with memory := ended.memory.unmap addresses }
      | .exited ended => .exited ended

end

/-- Reading past the end of the input leaves the variable undefined. -/
def topInput : Run Word := fun world =>
  match world.inputs with
  | [] => none
  | value :: inputs => some (.returned value { world with inputs := inputs })

def topOutput (value : Word) : Run Word := fun world =>
  some (.returned 0 { world with events := world.events ++ [.output value] })

def topError (value : Word) : Run Word := fun world =>
  some (.exited { world with events := world.events ++ [.error value] })

def topDivisionError (line overflow : Word) : Run Word := fun world =>
  some (.exited { world with events := world.events ++ [.divisionError line overflow] })

/-- An entry of the array that the program's arguments are read into. -/
def argument (index : Nat) : Run Word := fun world =>
  world.arguments[index]?.map fun value => .returned value world

end Runtime

/-! ## Instructions -/

inductive BinaryInstruction
  | add | sub | mul | sdiv | icmpEq | icmpNe | icmpSgt | and | or
deriving DecidableEq, Repr

/-- A comparison gives one bit. -/
def Word.ofBool (bit : Bool) : Word := if bit then 1 else 0

/-- Division by zero and the quotient that is too large are undefined. -/
def BinaryInstruction.run (left right : Word) : BinaryInstruction → Runtime.Run Word
  | .add => pure (left + right)
  | .sub => pure (left - right)
  | .mul => pure (left * right)
  | .sdiv =>
      if right = 0 ∨ (left = BitVec.intMin 64 ∧ right = -1) then BasicBlocks.Run.stuck
      else pure (left.sdiv right)
  | .icmpEq => pure (Word.ofBool (left = right))
  | .icmpNe => pure (Word.ofBool (left ≠ right))
  | .icmpSgt => pure (Word.ofBool (right.slt left))
  | .and => pure (left &&& right)
  | .or => pure (left ||| right)

/-- A slot on the stack, or an argument of the activation. -/
inductive Local
  | slot (decl : NodeId)
  | argument (index : Nat)
deriving DecidableEq, Repr

/-- A function of the table, or the function that destroys the values of a sum type. -/
inductive Callee
  | function (index : Word)
  | sumDestroy (owner : Option SumTypeDecl)

abbrev IrOperand := Operand Local Word

inductive IrOperation
  | binary (op : BinaryInstruction) (left right : IrOperand)
  /-- Between a word, a bit and a pointer. -/
  | cast (value : IrOperand)
  | field (base : IrOperand) (offset : Nat)
  | load (address : IrOperand)
  | store (value address : IrOperand)
  /-- The entry of the function table. -/
  | loadFunction (index : IrOperand)
  | loadArgument (index : Nat)
  | call (function : IrOperand) (args : List IrOperand)
  | callSumDestroy (owner : Option SumTypeDecl) (value : IrOperand)
  | callNop
  | callInput
  | callOutput (value : IrOperand)
  | callError (value : IrOperand)
  | callDivisionError (line : Word) (overflow : IrOperand)
  | calloc (count : Nat)
  | free (address : IrOperand)

abbrev IrCode := Code IrOperation Local Word
abbrev IrBuilder := Builder IrOperation Local Word

/-- A compiled function. The entry function takes its formals from the arguments of
the program. -/
structure CompiledFunction where
  arity : Nat
  slots : List NodeId
  code : IrCode

section

variable (platform : Platform) (functions : List CompiledFunction)
  (sumDestroyCode : Option SumTypeDecl → IrCode)

def IrOperation.run (call : Callee → List Word → Runtime.Run Word) (value : IrOperand → Word) :
    IrOperation → Runtime.Run Word
  | .binary op left right => op.run (value left) (value right)
  | .cast operand => pure (value operand)
  | .field base offset => pure (Memory.field (value base) offset)
  | .load address => Runtime.load (value address)
  | .store content address => Runtime.store (value content) (value address)
  | .loadFunction index =>
      if (value index).toNat < functions.length then pure (value index) else BasicBlocks.Run.stuck
  | .loadArgument index => Runtime.argument index
  | .call function args => call (.function (value function)) (args.map value)
  | .callSumDestroy owner operand => call (.sumDestroy owner) [value operand]
  | .callNop => pure 0
  | .callInput => Runtime.topInput
  | .callOutput operand => Runtime.topOutput (value operand)
  | .callError operand => Runtime.topError (value operand)
  | .callDivisionError line overflow => Runtime.topDivisionError line (value overflow)
  | .calloc count => Runtime.calloc platform count
  | .free address => Runtime.free (value address)

/-- The locals of an activation. -/
def localsOf (slotAddress : NodeId → Word) (args : List Word) : Local → Word
  | .slot decl => slotAddress decl
  | .argument index => args[index]?.getD 0

/-- A call with another number of arguments is undefined. -/
def invoke (run : IrCode → (Local → Word) → Runtime.Run Word) : Callee → List Word →
    Runtime.Run Word
  | .function index, args =>
      match functions[index.toNat]? with
      | none => BasicBlocks.Run.stuck
      | some function =>
          if args.length = function.arity then
            Runtime.withFrame platform function.slots fun slotAddress =>
              run function.code (localsOf slotAddress args)
          else BasicBlocks.Run.stuck
  | .sumDestroy owner, args => run (sumDestroyCode owner) (localsOf (fun _ => 0) args)

def irMachine : Machine IrOperation Local Word World Callee where
  denote := IrOperation.run platform functions
  invoke := invoke platform functions sumDestroyCode
  truth word := word ≠ 0

end

end Topc
