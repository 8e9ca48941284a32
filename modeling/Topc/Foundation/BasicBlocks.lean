import Mathlib.Data.List.Basic
import Mathlib.Logic.Function.Basic
import Topc.Foundation.Fuel

/-! # Basic blocks

A function is a graph of blocks. A builder appends instructions to one block at a
time and ends it with a terminator. What was built stays: code that contains a
builder's blocks runs through them. -/

namespace BasicBlocks

/-! ## Computations on a world -/

/-- A computation comes back with a value or leaves the program. -/
inductive Outcome (W V : Type)
  | returned (value : V) (world : W)
  | exited (world : W)
deriving DecidableEq, Repr

/-- The world that is left. -/
def Outcome.world {W V : Type} : Outcome W V → W
  | .returned _ world | .exited world => world

/-- A computation without an outcome has no defined meaning or does not end. -/
def Run (W V : Type) : Type := W → Option (Outcome W V)

namespace Run

variable {W V U : Type}

def bind (first : Run W V) (next : V → Run W U) : Run W U := fun world =>
  match first world with
  | none => none
  | some (.returned value world) => next value world
  | some (.exited world) => some (.exited world)

instance : Monad (Run W) where
  pure value world := some (.returned value world)
  bind := bind

theorem bind_apply (first : Run W V) (next : V → Run W U) (world : W) :
    (first >>= next) world = bind first next world := rfl

theorem bind_eq_some {first : Run W V} {next : V → Run W U} {world : W} {outcome : Outcome W U}
    (ran : (first >>= next) world = some outcome) :
    (∃ value middle, first world = some (.returned value middle) ∧
      next value middle = some outcome) ∨
    ∃ ended, first world = some (.exited ended) ∧ outcome = .exited ended := by
  rw [bind_apply, bind] at ran
  cases result : first world with
  | none =>
      rw [result] at ran
      cases ran
  | some early =>
      rw [result] at ran
      cases early with
      | returned value middle => exact .inl ⟨value, middle, rfl, ran⟩
      | exited ended => exact .inr ⟨ended, rfl, (Option.some.inj ran).symm⟩

theorem bind_of_returned {first : Run W V} (next : V → Run W U) {world middle : W} {value : V}
    (ran : first world = some (.returned value middle)) :
    (first >>= next) world = next value middle := by
  rw [bind_apply, bind, ran]

theorem bind_of_exited {first : Run W V} (next : V → Run W U) {world ended : W}
    (ran : first world = some (.exited ended)) :
    (first >>= next) world = some (.exited ended) := by
  rw [bind_apply, bind, ran]

theorem bind_congr_left {first other : Run W V} {world : W} (same : first world = other world)
    (next : V → Run W U) : (first >>= next) world = (other >>= next) world := by
  rw [bind_apply, bind_apply, bind, bind, same]

theorem bind_pure (run : Run W V) : (run >>= pure) = run := by
  funext world
  rw [bind_apply, bind]
  cases run world with
  | none => rfl
  | some outcome => cases outcome <;> rfl

theorem bind_unit (run : Run W Unit) : (run >>= fun _ => pure ()) = run :=
  bind_pure run

theorem bind_ite (run : Run W Bool) : (do if ← run then return true else return false) = run := by
  refine Eq.trans (congrArg (run >>= ·) ?_) (bind_pure run)
  funext passed
  cases passed <;> rfl

theorem bind_assoc {X : Type} (first : Run W V) (second : V → Run W U) (third : U → Run W X) :
    (first >>= second >>= third) = first >>= fun value => second value >>= third := by
  funext world
  simp only [bind_apply, bind]
  cases first world with
  | none => rfl
  | some outcome => cases outcome <;> rfl

/-- What is not defined has no outcome. -/
def stuck : Run W V := fun _ => none

/-- Run again until there is a result. -/
def iterate (step : Run W (Option V)) : Nat → Run W V
  | 0 => stuck
  | fuel + 1 => step >>= fun result => (result.map pure).getD (iterate step fuel)

def whileLoop (condition : Run W Bool) (body : Run W Unit) : Nat → Run W Unit :=
  iterate do
    if ← condition then
      body
      return none
    else
      return some ()

/-- The first entry for the value. -/
def select [DecidableEq U] (entries : List (U × Run W V)) (value : U) (otherwise : V) : Run W V :=
  ((entries.find? fun entry => entry.1 = value).map Prod.snd).getD (pure otherwise)

end Run

/-! ## Code -/

/-- The value of an instruction is known by its number, a local by its slot. -/
inductive Operand (L V : Type)
  | const (value : V)
  | slot (local' : L)
  | register (number : Nat)
deriving DecidableEq, Repr

structure Instruction (Op : Type) where
  result : Nat
  operation : Op
deriving DecidableEq, Repr

inductive Terminator (L V : Type)
  | br (target : Nat)
  | condBr (condition : Operand L V) (ifTrue ifFalse : Nat)
  | switch (condition : Operand L V) (cases : List (V × Nat)) (otherwise : Nat)
  | ret (value : Operand L V)
  | unreachable
deriving DecidableEq, Repr

structure Block (Op L V : Type) where
  instructions : List (Instruction Op)
  terminator : Option (Terminator L V)
deriving DecidableEq, Repr

/-- Blocks are known by their position. The first one is the entry. -/
abbrev Code (Op L V : Type) := List (Block Op L V)

structure Machine (Op L V W F : Type) where
  /-- What an operation does, from what calls do and what operands are. -/
  denote : (F → List V → Run W V) → (Operand L V → V) → Op → Run W V
  /-- What a call does, from what code does on the locals of an activation. -/
  invoke : (Code Op L V → (L → V) → Run W V) → F → List V → Run W V
  truth : V → Bool

section

variable {Op L V W F : Type}

def valueOf (locals : L → V) (registers : Nat → V) : Operand L V → V
  | .const value => value
  | .slot name => locals name
  | .register number => registers number

/-- Where control goes at the end of a block, or what the function returns. -/
def Terminator.next [DecidableEq V] (truth : V → Bool) (value : Operand L V → V) :
    Terminator L V → Option (Nat ⊕ V)
  | .br target => some (.inl target)
  | .condBr condition ifTrue ifFalse =>
      some (.inl (if truth (value condition) then ifTrue else ifFalse))
  | .switch condition cases otherwise =>
      some (.inl (((cases.find? fun entry => entry.1 = value condition).map Prod.snd).getD
        otherwise))
  | .ret result => some (.inr (value result))
  | .unreachable => none

namespace Machine

variable [DecidableEq V] [Inhabited V] (machine : Machine Op L V W F)

def exec : Nat → Code Op L V → (L → V) → Nat → Nat → (Nat → V) → Run W V
  | 0, _, _, _, _, _ => fun _ => none
  | fuel + 1, code, locals, label, index, registers => fun world =>
      match code[label]? with
      | none => none
      | some block =>
          match block.instructions[index]? with
          | some instruction =>
              (machine.denote
                (machine.invoke fun code locals => exec fuel code locals 0 0 fun _ => default)
                (valueOf locals registers) instruction.operation >>= fun value =>
                  exec fuel code locals label (index + 1)
                    (Function.update registers instruction.result value)) world
          | none =>
              match block.terminator.bind (Terminator.next machine.truth
                (valueOf locals registers)) with
              | none => none
              | some (.inl target) => exec fuel code locals target 0 registers world
              | some (.inr value) => some (.returned value world)

/-- What a call does within a number of steps. -/
def call (fuel : Nat) : F → List V → Run W V :=
  machine.invoke fun code locals => machine.exec fuel code locals 0 0 fun _ => default

end Machine

end

/-! ## Building -/

structure Builder (Op L V : Type) where
  blocks : Code Op L V
  insertPoint : Nat
  nextRegister : Nat

namespace Builder

variable {Op L V : Type} (builder : Builder Op L V)

/-- A function that is built begins with an empty entry block. -/
def entry : Builder Op L V where
  blocks := [⟨[], none⟩]
  insertPoint := 0
  nextRegister := 0

def modifyCurrent (change : Block Op L V → Block Op L V) : Builder Op L V :=
  { builder with blocks := builder.blocks.modify builder.insertPoint change }

def append (operation : Op) : Builder Op L V :=
  { builder.modifyCurrent fun block =>
      { block with instructions := block.instructions ++ [⟨builder.nextRegister, operation⟩] } with
    nextRegister := builder.nextRegister + 1 }

def terminate (terminator : Terminator L V) : Builder Op L V :=
  builder.modifyCurrent fun block => { block with terminator := some terminator }

/-- The new blocks are numbered from the number of blocks so far on. -/
def newBlocks (count : Nat) : Builder Op L V :=
  { builder with blocks := builder.blocks ++ List.replicate count ⟨[], none⟩ }

def setInsertPoint (label : Nat) : Builder Op L V :=
  { builder with insertPoint := label }

/-- The current block has these instructions and is not ended. -/
def OpenWith (instructions : List (Instruction Op)) : Prop :=
  builder.blocks[builder.insertPoint]? = some ⟨instructions, none⟩

/-- The instructions of the current block so far. -/
def current : List (Instruction Op) :=
  (builder.blocks[builder.insertPoint]?.map Block.instructions).getD []

/-- Where the next instruction will stand. -/
def point : Nat × Nat := (builder.insertPoint, builder.current.length)

def Open : Prop := ∃ instructions, builder.OpenWith instructions

/-- The code has the blocks of the builder, with more behind those not ended. -/
def Within (code : Code Op L V) : Prop :=
  ∀ (label : Nat) (block : Block Op L V), builder.blocks[label]? = some block →
    ∃ final : Block Op L V, code[label]? = some final ∧ block.instructions <+: final.instructions ∧
      (block.terminator.isSome = true → final = block)

theorem within_self : builder.Within builder.blocks :=
  fun _ block stored => ⟨block, stored, List.prefix_refl _, fun _ => rfl⟩

/-- Building went on: of the blocks before only the current one has changed. -/
structure Extends (builder later : Builder Op L V) : Prop where
  blocks : builder.blocks.length ≤ later.blocks.length
  registers : builder.nextRegister ≤ later.nextRegister
  kept : ∀ label < builder.blocks.length, label ≠ builder.insertPoint →
    later.blocks[label]? = builder.blocks[label]?
  within : ∀ code, later.Within code → builder.Within code
  point : later.insertPoint = builder.insertPoint ∨ builder.blocks.length ≤ later.insertPoint

variable {builder}

theorem entry_open : (entry : Builder Op L V).OpenWith [] := rfl

theorem OpenWith.bound {instructions : List (Instruction Op)}
    (isOpen : builder.OpenWith instructions) : builder.insertPoint < builder.blocks.length :=
  (List.getElem?_eq_some_iff.mp isOpen).1

theorem OpenWith.point {instructions : List (Instruction Op)}
    (isOpen : builder.OpenWith instructions) :
    builder.point = (builder.insertPoint, instructions.length) := by
  rw [OpenWith] at isOpen
  rw [Builder.point, current, isOpen]
  rfl

/-! ### Steps of a builder -/

section

variable {instructions : List (Instruction Op)} (isOpen : builder.OpenWith instructions)

theorem modifyCurrent_other {change : Block Op L V → Block Op L V} {label : Nat}
    (other : label ≠ builder.insertPoint) :
    (builder.modifyCurrent change).blocks[label]? = builder.blocks[label]? := by
  simp [modifyCurrent, Ne.symm other]

include isOpen

theorem modifyCurrent_current (change : Block Op L V → Block Op L V) :
    (builder.modifyCurrent change).blocks[builder.insertPoint]? =
      some (change ⟨instructions, none⟩) := by
  rw [OpenWith] at isOpen
  simp [modifyCurrent, isOpen]

theorem modifyCurrent_within (change : Block Op L V → Block Op L V)
    (grows : instructions <+: (change ⟨instructions, none⟩).instructions) {code : Code Op L V}
    (within : (builder.modifyCurrent change).Within code) : builder.Within code := by
  intro label block stored
  by_cases isCurrent : label = builder.insertPoint
  · subst isCurrent
    rw [isOpen] at stored
    cases stored
    rcases within _ _ (modifyCurrent_current isOpen change) with ⟨final, isFinal, isPrefix, _⟩
    exact ⟨final, isFinal, grows.trans isPrefix, nofun⟩
  · apply within label block
    rw [modifyCurrent_other isCurrent]
    exact stored

theorem append_open (operation : Op) :
    (builder.append operation).OpenWith (instructions ++ [⟨builder.nextRegister, operation⟩]) :=
  modifyCurrent_current isOpen _

theorem append_extends (operation : Op) : builder.Extends (builder.append operation) where
  blocks := by simp [append, modifyCurrent]
  registers := Nat.le_succ _
  kept _ _ other := modifyCurrent_other other
  within _ within := modifyCurrent_within isOpen _ (List.prefix_append _ _) within
  point := .inl rfl

theorem terminate_blocks (terminator : Terminator L V) :
    (builder.terminate terminator).blocks[builder.insertPoint]? =
      some ⟨instructions, some terminator⟩ :=
  modifyCurrent_current isOpen _

theorem terminate_extends (terminator : Terminator L V) :
    builder.Extends (builder.terminate terminator) where
  blocks := by simp [terminate, modifyCurrent]
  registers := Nat.le_refl _
  kept _ _ other := modifyCurrent_other other
  within _ within := modifyCurrent_within isOpen _ (List.prefix_refl _) within
  point := .inl rfl

end

section

variable {count : Nat}

theorem newBlocks_blocks {label : Nat} (bound : label < builder.blocks.length) :
    (builder.newBlocks count).blocks[label]? = builder.blocks[label]? :=
  List.getElem?_append_left bound

theorem newBlocks_fresh {index : Nat} (bound : index < count) :
    (builder.newBlocks count).blocks[builder.blocks.length + index]? = some ⟨[], none⟩ := by
  rw [newBlocks, List.getElem?_append_right (Nat.le_add_right _ _), Nat.add_sub_cancel_left]
  exact List.getElem?_replicate_of_lt bound

theorem newBlocks_extends : builder.Extends (builder.newBlocks count) where
  blocks := by simp [newBlocks]
  registers := Nat.le_refl _
  kept _ bound _ := newBlocks_blocks bound
  within _ within label block stored :=
    within label block ((newBlocks_blocks (List.getElem?_eq_some_iff.mp stored).1).trans stored)
  point := .inl rfl

end

namespace Extends

variable {first second third : Builder Op L V}

theorem refl : first.Extends first where
  blocks := Nat.le_refl _
  registers := Nat.le_refl _
  kept _ _ _ := rfl
  within _ within := within
  point := .inl rfl

theorem trans (left : first.Extends second) (right : second.Extends third) :
    first.Extends third where
  blocks := Nat.le_trans left.blocks right.blocks
  registers := Nat.le_trans left.registers right.registers
  kept label bound other := by
    have stays : label ≠ second.insertPoint := by
      rcases left.point with same | later
      · rwa [same]
      · exact Nat.ne_of_lt (Nat.lt_of_lt_of_le bound later)
    exact (right.kept label (Nat.lt_of_lt_of_le bound left.blocks) stays).trans
      (left.kept label bound other)
  within code within := left.within code (right.within code within)
  point := by
    rcases right.point with same | later
    · rw [same]
      exact left.point
    · exact .inr (Nat.le_trans left.blocks later)

/-- Building goes on in a block that is new. -/
theorem setInsertPoint (ext : first.Extends second) {label : Nat}
    (fresh : first.blocks.length ≤ label) : first.Extends (second.setInsertPoint label) where
  blocks := ext.blocks
  registers := ext.registers
  kept := ext.kept
  within := ext.within
  point := .inr fresh

end Extends

/-! ### Where code stands -/

/-- Building can begin in a block that has nothing yet. -/
theorem openWith_of_fresh {label : Nat} (fresh : builder.blocks[label]? = some ⟨[], none⟩) :
    (builder.setInsertPoint label).OpenWith [] := fresh

section

variable {instructions : List (Instruction Op)} (isOpen : builder.OpenWith instructions)
  {code : Code Op L V}

include isOpen

theorem append_at {operation : Op} (within : (builder.append operation).Within code) :
    ∃ final, code[builder.insertPoint]? = some final ∧
      final.instructions[instructions.length]? = some ⟨builder.nextRegister, operation⟩ := by
  rcases within _ _ (append_open isOpen operation) with ⟨final, isFinal, isPrefix, _⟩
  rcases isPrefix with ⟨rest, split⟩
  refine ⟨final, isFinal, ?_⟩
  rw [← split]
  simp

theorem terminate_at {terminator : Terminator L V}
    (within : (builder.terminate terminator).Within code) :
    code[builder.insertPoint]? = some ⟨instructions, some terminator⟩ := by
  rcases within _ _ (terminate_blocks isOpen terminator) with ⟨final, isFinal, _, same⟩
  rw [isFinal, same rfl]

/-! ### Going on in new blocks -/

theorem newBlocks_open (count : Nat) : (builder.newBlocks count).OpenWith instructions :=
  (newBlocks_blocks isOpen.bound).trans isOpen

variable {count : Nat}

theorem fork_extends (terminator : Terminator L V) :
    builder.Extends ((builder.newBlocks count).terminate terminator) :=
  newBlocks_extends.trans (terminate_extends (newBlocks_open isOpen count) terminator)

theorem fork_at {terminator : Terminator L V}
    (within : ((builder.newBlocks count).terminate terminator).Within code) :
    code[builder.insertPoint]? = some ⟨instructions, some terminator⟩ :=
  terminate_at (newBlocks_open isOpen count) within

theorem fork_fresh (terminator : Terminator L V) {index : Nat} (bound : index < count) :
    ((builder.newBlocks count).terminate terminator).blocks[builder.blocks.length + index]? =
      some ⟨[], none⟩ := by
  have other : builder.blocks.length + index ≠ (builder.newBlocks count).insertPoint :=
    Nat.ne_of_gt (Nat.lt_of_lt_of_le isOpen.bound (Nat.le_add_right _ _))
  exact (modifyCurrent_other other).trans (newBlocks_fresh bound)

theorem fork_first (terminator : Terminator L V) :
    ((builder.newBlocks 1).terminate terminator).blocks[builder.blocks.length]? =
      some ⟨[], none⟩ :=
  fork_fresh isOpen terminator Nat.zero_lt_one

/-- A new block is still empty when building has gone on elsewhere. -/
theorem newBlocks_kept {later : Builder Op L V} (ext : (builder.newBlocks 1).Extends later) :
    later.blocks[builder.blocks.length]? = some ⟨[], none⟩ := by
  have fresh : (builder.newBlocks 1).blocks[builder.blocks.length]? = some ⟨[], none⟩ :=
    newBlocks_fresh Nat.zero_lt_one
  have bound := (List.getElem?_eq_some_iff.mp fresh).1
  exact (ext.kept _ bound (Nat.ne_of_gt isOpen.bound)).trans fresh

end

end Builder

end BasicBlocks
