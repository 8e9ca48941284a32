import Topc.Foundation.BasicBlocks

/-! # Running blocks

From one position to another, code does what a computation does. Such facts are put
together along the computation. -/

namespace BasicBlocks

/-! ## Registers -/

/-- The registers numbered so far are unchanged. -/
def AgreeBelow {V : Type} (bound : Nat) (registers registers' : Nat → V) : Prop :=
  ∀ number < bound, registers' number = registers number

theorem AgreeBelow.refl {V : Type} (bound : Nat) (registers : Nat → V) :
    AgreeBelow bound registers registers :=
  fun _ _ => rfl

theorem AgreeBelow.trans {V : Type} {bound later : Nat} {first second third : Nat → V}
    (left : AgreeBelow bound first second) (right : AgreeBelow later second third)
    (le : bound ≤ later) : AgreeBelow bound first third :=
  fun number below => (right number (Nat.lt_of_lt_of_le below le)).trans (left number below)

/-- The operand does not depend on registers to come. -/
def Operand.Below {L V : Type} (bound : Nat) : Operand L V → Prop
  | .const _ | .slot _ => True
  | .register number => number < bound

theorem Operand.Below.mono {L V : Type} {bound later : Nat} {operand : Operand L V}
    (below : operand.Below bound) (le : bound ≤ later) : operand.Below later := by
  cases operand with
  | register number => exact Nat.lt_of_lt_of_le below le
  | const | slot => trivial

theorem AgreeBelow.valueOf {L V : Type} {bound : Nat} {registers registers' : Nat → V}
    (agree : AgreeBelow bound registers registers') {operand : Operand L V}
    (below : operand.Below bound) (locals : L → V) :
    valueOf locals registers' operand = BasicBlocks.valueOf locals registers operand := by
  cases operand with
  | register number => exact agree number below
  | const | slot => rfl

/-! ## From position to position -/

section

variable {Op L V W F U X : Type} [DecidableEq V] [Inhabited V] (machine : Machine Op L V W F)
  (code : Code Op L V) (locals : L → V)

/-- The code comes to an outcome from a position. -/
def Ends (position : Nat × Nat) (registers : Nat → V) (world : W) (outcome : Outcome W V) : Prop :=
  Fuel.Converges (fun fuel => machine.exec fuel code locals position.1 position.2 registers world)
    outcome

/-- From a position the code does what a computation does, and then stands where the
value of the computation says. -/
structure Realizes (start : Nat × Nat) (registers : Nat → V) (world : W) (run : Run W U)
    (stop : U → Nat × Nat) (after : U → (Nat → V) → Prop) : Prop where
  returned : ∀ value world', run world = some (.returned value world') →
    ∃ registers', after value registers' ∧ ∀ outcome,
      Ends machine code locals (stop value) registers' world' outcome →
        Ends machine code locals start registers world outcome
  exited : ∀ world', run world = some (.exited world') →
    Ends machine code locals start registers world (.exited world')

variable {machine code locals} {start middle : Nat × Nat} {registers : Nat → V} {world : W}
  {stop : U → Nat × Nat} {after : U → (Nat → V) → Prop}

namespace Realizes

theorem pure {value : U} (here : stop value = start) (holds : after value registers) :
    Realizes machine code locals start registers world (Pure.pure value : Run W U) stop after where
  returned value' world' ran := by
    cases ran
    rw [here]
    exact ⟨registers, holds, fun _ ended => ended⟩
  exited world' ran := by cases ran

theorem stuck {run : Run W U} (undefined : run world = none) :
    Realizes machine code locals start registers world run stop after where
  returned value world' ran := by
    rw [undefined] at ran
    cases ran
  exited world' ran := by
    rw [undefined] at ran
    cases ran

theorem bind {first : Run W U} {next : U → Run W X} {stop' : X → Nat × Nat}
    {after' : X → (Nat → V) → Prop}
    (left : Realizes machine code locals start registers world first stop after)
    (right : ∀ value registers' world', after value registers' →
      Realizes machine code locals (stop value) registers' world' (next value) stop' after') :
    Realizes machine code locals start registers world (first >>= next) stop' after' where
  returned value world' ran := by
    rcases Run.bind_eq_some ran with ⟨early, world₁, firstRan, rest⟩ | ⟨_, _, impossible⟩
    · rcases left.returned early world₁ firstRan with ⟨registers₁, holds, continues⟩
      rcases (right early registers₁ world₁ holds).returned value world' rest with
        ⟨registers₂, holds₂, continues₂⟩
      exact ⟨registers₂, holds₂, fun outcome ended => continues outcome (continues₂ outcome ended)⟩
    · cases impossible
  exited world' ran := by
    rcases Run.bind_eq_some ran with ⟨early, world₁, firstRan, rest⟩ | ⟨ended, left', same⟩
    · rcases left.returned early world₁ firstRan with ⟨registers₁, holds, continues⟩
      exact continues _ ((right early registers₁ world₁ holds).exited world' rest)
    · cases same
      exact left.exited _ left'

theorem mono {run : Run W U} {after' : U → (Nat → V) → Prop}
    (realizes : Realizes machine code locals start registers world run stop after)
    (implies : ∀ value registers', after value registers' → after' value registers') :
    Realizes machine code locals start registers world run stop after' where
  returned value world' ran := by
    rcases realizes.returned value world' ran with ⟨registers', holds, continues⟩
    exact ⟨registers', implies value registers' holds, continues⟩
  exited := realizes.exited

theorem congr {run other : Run W U}
    (realizes : Realizes machine code locals start registers world run stop after)
    (same : run world = other world) :
    Realizes machine code locals start registers world other stop after where
  returned value world' ran := realizes.returned value world' (same.trans ran)
  exited world' ran := realizes.exited world' (same.trans ran)

/-- Code that first goes somewhere else. -/
theorem after_jump {run : Run W U}
    (jumps : ∀ outcome, Ends machine code locals middle registers world outcome →
      Ends machine code locals start registers world outcome)
    (realizes : Realizes machine code locals middle registers world run stop after) :
    Realizes machine code locals start registers world run stop after where
  returned value world' ran := by
    rcases realizes.returned value world' ran with ⟨registers', holds, continues⟩
    exact ⟨registers', holds, fun outcome ended => jumps outcome (continues outcome ended)⟩
  exited world' ran := jumps _ (realizes.exited world' ran)

end Realizes

/-! ### Steps of the machine -/

theorem Ends.of_goto {label target : Nat} {instructions : List (Instruction Op)}
    {terminator : Terminator L V} (stored : code[label]? = some ⟨instructions, some terminator⟩)
    (goes : terminator.next machine.truth (valueOf locals registers) = some (.inl target))
    {outcome : Outcome W V}
    (ended : Ends machine code locals (target, 0) registers world outcome) :
    Ends machine code locals (label, instructions.length) registers world outcome := by
  rw [Ends] at ended
  apply Fuel.Converges.of_succ
  simpa [Machine.exec, stored, goes] using ended

theorem Ends.of_ret {label : Nat} {instructions : List (Instruction Op)}
    {terminator : Terminator L V} {value : V}
    (stored : code[label]? = some ⟨instructions, some terminator⟩)
    (returns : terminator.next machine.truth (valueOf locals registers) = some (.inr value)) :
    Ends machine code locals (label, instructions.length) registers world
      (.returned value world) := by
  apply Fuel.Converges.of_succ
  exact ⟨0, fun fuel _ => by simp [Machine.exec, stored, returns]⟩

/-- An instruction does what its operation does. -/
theorem Realizes.instruction {label index : Nat} {block : Block Op L V}
    (stored : code[label]? = some block) {instruction : Instruction Op}
    (here : block.instructions[index]? = some instruction) {run : Run W V}
    (denotes : ∀ outcome, run world = some outcome → Fuel.Converges (fun fuel =>
      machine.denote (machine.call fuel) (valueOf locals registers) instruction.operation world)
        outcome) :
    Realizes machine code locals (label, index) registers world run (fun _ => (label, index + 1))
      fun value registers' => registers' = Function.update registers instruction.result value where
  returned value world' ran := by
    refine ⟨_, rfl, fun outcome ended => ?_⟩
    rcases denotes _ ran with ⟨bound, runs⟩
    rcases ended with ⟨bound', runs'⟩
    apply Fuel.Converges.of_succ
    refine ⟨max bound bound', fun fuel enough => ?_⟩
    simp only [Machine.exec, stored, here]
    exact (Run.bind_of_returned _ (runs fuel (Nat.le_trans (Nat.le_max_left _ _) enough))).trans
      (runs' fuel (Nat.le_trans (Nat.le_max_right _ _) enough))
  exited world' ran := by
    rcases denotes _ ran with ⟨bound, runs⟩
    apply Fuel.Converges.of_succ
    refine ⟨bound, fun fuel enough => ?_⟩
    simp only [Machine.exec, stored, here]
    exact Run.bind_of_exited _ (runs fuel enough)

/-- An appended instruction stands in the register that its operation is known by. -/
theorem Realizes.append {builder : Builder Op L V} (isOpen : builder.Open) {operation : Op}
    (within : (builder.append operation).Within code) {run : Run W V}
    (denotes : ∀ outcome, run world = some outcome → Fuel.Converges (fun fuel =>
      machine.denote (machine.call fuel) (valueOf locals registers) operation world) outcome) :
    Realizes machine code locals builder.point registers world run
      (fun _ => (builder.append operation).point) fun value registers' =>
        AgreeBelow builder.nextRegister registers registers' ∧
          registers' builder.nextRegister = value := by
  rcases isOpen with ⟨instructions, isOpen⟩
  rcases Builder.append_at isOpen within with ⟨final, stored, here⟩
  rw [isOpen.point, (Builder.append_open isOpen operation).point, List.length_append]
  apply (Realizes.instruction stored here denotes).mono
  rintro value _ rfl
  refine ⟨fun number below => Function.update_of_ne (Nat.ne_of_lt below) _ _, ?_⟩
  exact Function.update_self _ _ _

end

end BasicBlocks
