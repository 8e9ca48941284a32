import Topc.CodeGen.Evaluation

/-! # Compiled expressions

The code of an expression computes what the expression means. Its operand shows the
word. -/

namespace Topc

open BasicBlocks CodeGenVisitor

/-- An activation whose calls are those of generated code. -/
structure Execution where
  activation : Activation
  args : List Word
  functions : List CompiledFunction
  sumDestroyCode : Option SumTypeDecl → IrCode
  /-- The code of the function that is executed. -/
  code : IrCode
  functionCount : functions.length = activation.functionCount
  calls : ∀ callee args world outcome, activation.call callee args world = some outcome →
    Fuel.Converges (fun fuel => (irMachine activation.platform functions sumDestroyCode).call fuel
      callee args world) outcome

namespace Execution

variable (execution : Execution)

def locals : Local → Word :=
  localsOf execution.activation.slotAddress execution.args

/-- What is generated does what the computation does. -/
abbrev Implements {U α : Type} (given : Knowledge Word) (before : NamedValues → Prop)
    (gen : IrGen α) (run : Runtime.Run U) (leave : U → Option Nat) (gives : α → U → Knowledge Word)
    (after : NamedValues → Prop) : Prop :=
  Compiles (irMachine execution.activation.platform execution.functions execution.sumDestroyCode)
    execution.code execution.locals given before gen run leave gives after

/-- The operand of a value shows the value. -/
abbrev shows (operand : IrOperand) (value : Word) : Knowledge Word :=
  operand.Shows execution.locals value

abbrev showAll (operands : List IrOperand) (values : List Word) : Knowledge Word :=
  Operand.ShowAll execution.locals operands values

abbrev nothing {α U : Type} (_ : α) (_ : U) : Knowledge Word := Knowledge.none

variable {execution} {given : Knowledge Word} {before after : NamedValues → Prop}

/-! ## Instructions -/

/-- An instruction that makes no call. -/
theorem emitRun {operation : IrOperation} {run : Runtime.Run Word}
    (denotes : ∀ bound registers call, given.holds bound registers →
      operation.run execution.activation.platform execution.functions call
        (valueOf execution.locals registers) = run) :
    execution.Implements given before (Gen.emit operation) run stay execution.shows before := by
  apply Compiles.emit
  intro bound registers world outcome known ran
  exact ⟨0, fun fuel _ => (congrFun (denotes bound registers _ known) world).trans ran⟩

/-- A word is known under another type. -/
theorem emitCast {operand : IrOperand} {value : Word}
    (shows : ∀ bound registers, given.holds bound registers →
      valueOf execution.locals registers operand = value) :
    execution.Implements given before (Gen.emit (.cast operand)) (return value) stay
      execution.shows before := by
  apply emitRun
  intro bound registers _ known
  exact congrArg pure (shows bound registers known)

theorem emitCall {function : IrOperand} {args : List IrOperand} {index : Word} {values : List Word}
    (shows : ∀ bound registers, given.holds bound registers →
      valueOf execution.locals registers function = index ∧
        args.map (valueOf execution.locals registers) = values) :
    execution.Implements given before (Gen.emit (.call function args))
      (execution.activation.call (.function index) values) stay execution.shows before := by
  apply Compiles.emit
  intro bound registers world outcome known ran
  rcases execution.calls _ _ _ _ ran with ⟨steps, runs⟩
  refine ⟨steps, fun fuel enough => ?_⟩
  rw [← runs fuel enough, ← (shows bound registers known).1, ← (shows bound registers known).2]
  rfl

theorem emitLoadFunction {function : IrOperand} {index : Word}
    (shows : ∀ bound registers, given.holds bound registers →
      valueOf execution.locals registers function = index) :
    execution.Implements given before (Gen.emit (.loadFunction function))
      (execution.activation.function index) stay execution.shows before := by
  apply emitRun
  intro bound registers _ known
  rw [IrOperation.run, shows bound registers known, execution.functionCount]
  rfl

/-! ## Operators -/

section

variable {left right : IrOperand} {a b : Word}
  (shows : ∀ bound registers, given.holds bound registers →
    valueOf execution.locals registers left = a ∧ valueOf execution.locals registers right = b)

include shows

theorem emitBinary (op : BinaryInstruction) :
    execution.Implements given before (Gen.emit (.binary op left right)) (op.run a b) stay
      execution.shows before := by
  apply emitRun
  intro bound registers _ known
  rw [IrOperation.run, (shows bound registers known).1, (shows bound registers known).2]

theorem emitBinaryThen {op : BinaryInstruction} {c : Word} (computes : op.run a b = pure c)
    {U α : Type} {next : IrOperand → IrGen α} {run : Runtime.Run U} {leave : U → Option Nat}
    {gives : α → U → Knowledge Word}
    (rest : ∀ operand, execution.Implements (given.and (execution.shows operand c)) before
      (next operand) run leave gives after) :
    execution.Implements given before (Gen.emit (.binary op left right) >>= next) run leave gives
      after := by
  apply Compiles.computeThen
  · intro bound registers call world known
    change op.run _ _ world = _
    rw [(shows bound registers known).1, (shows bound registers known).2, computes]
    rfl
  · exact rest

theorem emitComparison_implements {comparison : BinaryInstruction} {bit : Word}
    (compares : comparison.run a b = pure bit) :
    execution.Implements given before (emitComparison comparison left right) (return bit) stay
      execution.shows before := by
  apply emitBinaryThen shows compares
  intro operand
  exact emitCast fun _ _ known => known.2.2

end

/-! ### Division -/

theorem and_ofBool (p q : Bool) : Word.ofBool p &&& Word.ofBool q = Word.ofBool (p && q) := by
  cases p <;> cases q <;> decide

theorem or_ofBool (p q : Bool) : Word.ofBool p ||| Word.ofBool q = Word.ofBool (p || q) := by
  cases p <;> cases q <;> decide

theorem truth_ofBool (p : Bool) : decide (Word.ofBool p ≠ 0) = p := by
  cases p <;> decide

/-- The quotient does not fit. -/
def overflows (a b : Word) : Bool :=
  decide (a = BitVec.intMin 64) && decide (b = -1)

def divisionError (line : Nat) (overflow : Word) : Runtime.Run Unit := do
  let _ ← Runtime.topDivisionError (BitVec.ofNat 64 line) overflow

/-- The trap of a division and the division after it. -/
theorem divide_eq {activation : Activation}
    (checked : activation.context.rules.enabled "division-check" = true) (a b : Word) (line : Nat) :
    ((if decide (b = 0) || overflows a b then (do
        divisionError line (Word.ofBool (overflows a b))
        Run.stuck) else return ()) >>= fun _ : Unit => BinaryInstruction.sdiv.run a b) =
      activation.divide a b line := by
  rw [Activation.divide, if_pos checked]
  by_cases isZero : b = 0
  · subst isZero
    have fits : overflows a 0 = false := by
      simp [overflows]
    rw [fits]
    rfl
  · by_cases overflow : a = BitVec.intMin 64 ∧ b = -1
    · rcases overflow with ⟨rfl, rfl⟩
      rfl
    · have fits : overflows a b = false := by
        simpa [overflows] using overflow
      rw [fits, if_neg isZero, if_neg overflow, BinaryInstruction.run,
        if_neg (not_or.mpr ⟨isZero, overflow⟩), decide_eq_false isZero]
      rfl

theorem emitCheckedDivision_implements {left right : IrOperand} {a b : Word}
    (shows : ∀ bound registers, given.holds bound registers →
      valueOf execution.locals registers left = a ∧ valueOf execution.locals registers right = b)
    (line : Nat) :
    execution.Implements given before
      (emitCheckedDivision execution.activation.context left right line)
      (execution.activation.divide a b line) stay execution.shows before := by
  rw [emitCheckedDivision]
  by_cases checked : execution.activation.context.rules.enabled "division-check" = true
  · rw [if_pos checked, ← divide_eq checked]
    have compares : ∀ x y : Word, BinaryInstruction.icmpEq.run x y = pure (Word.ofBool (x = y)) :=
      fun _ _ => rfl
    apply emitBinaryThen
    · exact fun _ _ known => ⟨(shows _ _ known).2, rfl⟩
    · exact compares _ _
    intro isZero
    apply emitBinaryThen
    · exact fun _ _ known => ⟨(shows _ _ known.1).1, rfl⟩
    · exact compares _ _
    intro isMin
    apply emitBinaryThen
    · exact fun _ _ known => ⟨(shows _ _ known.1.1).2, rfl⟩
    · exact compares _ _
    intro isMinusOne
    apply emitBinaryThen
    · exact fun _ _ known => ⟨known.1.2.2, known.2.2⟩
    · exact rfl
    intro isOverflow
    apply emitBinaryThen
    · exact fun _ _ known => ⟨known.1.1.1.2.2, known.2.2⟩
    · exact rfl
    intro isBad
    have kind : Word.ofBool (overflows a b) =
        Word.ofBool (a = BitVec.intMin 64) &&& Word.ofBool (b = -1) := (and_ofBool _ _).symm
    have bad : decide (Word.ofBool (b = 0) ||| (Word.ofBool (a = BitVec.intMin 64) &&&
        Word.ofBool (b = -1)) ≠ 0) = (decide (b = 0) || overflows a b) := by
      rw [and_ofBool, or_ofBool, truth_ofBool]
      rfl
    apply Compiles.bind
    · apply Compiles.trap
      · intro bound registers known
        rw [known.2.2]
        exact bad
      · rw [kind]
        apply Compiles.computeThen
        · intro bound registers call world known
          exact congrArg (fun value => some (Outcome.returned value world)) known.1.2.2
        · intro operand
          apply Compiles.bind
          · apply emitRun
            intro bound registers call known
            exact congrArg (Runtime.topDivisionError (BitVec.ofNat 64 line)) known.2.2
          · intro _ _
            exact Compiles.done
    · intro _ _
      apply emitBinary
      exact fun _ _ known => shows _ _ known.1.1.1.1.1.1
  · rw [if_neg checked, Activation.divide, if_neg checked]
    exact emitBinary shows .sdiv

/-! ## Names and memory -/

/-- In a scope, what is generated computes the word and leaves the scope as it is. -/
def ComputesIn (execution : Execution) (scope : NamedValues) (gen : IrGen IrOperand)
    (run : Runtime.Run Word) : Prop :=
  ∀ given, execution.Implements given (fun state => state = scope) gen run stay execution.shows
    fun state => state = scope

theorem constant {value : Word} :
    execution.Implements given before (pure (.const value)) (return value) stay execution.shows
      before :=
  Compiles.pure rfl fun _ _ _ => ⟨trivial, rfl⟩

theorem freeIf_implements {address : IrOperand} {value : Word}
    (shows : ∀ bound registers, given.holds bound registers →
      valueOf execution.locals registers address = value) (condition : Bool) :
    execution.Implements given before (freeIf condition address)
      (Activation.freeIf condition value) stay nothing before := by
  cases condition with
  | false => exact Compiles.done
  | true =>
      apply Compiles.bind
      · apply emitRun
        exact fun bound registers _ known => congrArg Runtime.free (shows bound registers known)
      · exact fun _ _ => Compiles.done

theorem storePayloads_ofLength {box : IrOperand} {address : Word} {operands : List IrOperand} :
    ∀ {values : List Word} {offset : Nat} {given : Knowledge Word},
      (∀ bound registers, given.holds bound registers →
        valueOf execution.locals registers box = address ∧
          operands.map (valueOf execution.locals registers) = values) →
      values.length = operands.length →
      execution.Implements given before (storePayloads box offset operands)
        (Activation.storePayloads address offset values) stay nothing before := by
  induction operands with
  | nil =>
      intro values offset given _ same
      rw [List.eq_nil_of_length_eq_zero same]
      exact Compiles.done
  | cons operand operands induction =>
      intro values offset given shows same
      cases values with
      | nil => cases same
      | cons value values =>
          apply Compiles.computeThen
          · intro bound registers call world known
            exact congrArg (fun base => some (Outcome.returned (Memory.field base offset) world))
              (shows bound registers known).1
          · intro field
            apply Compiles.bind
            · apply emitRun
              intro bound registers _ known
              have first := (List.cons.inj (shows bound registers known.1).2).1
              exact congrArg₂ Runtime.store first known.2.2
            · intro _ _
              apply induction
              · intro bound registers known
                have both := shows bound registers known.1.1
                exact ⟨both.1, (List.cons.inj both.2).2⟩
              · exact Nat.succ.inj same

theorem storePayloads_implements {box : IrOperand} {address : Word} {operands : List IrOperand}
    {values : List Word}
    (shows : ∀ bound registers, given.holds bound registers →
      valueOf execution.locals registers box = address ∧
        operands.map (valueOf execution.locals registers) = values) (offset : Nat) :
    execution.Implements given before (storePayloads box offset operands)
      (Activation.storePayloads address offset values) stay nothing before := by
  by_cases same : values.length = operands.length
  · exact storePayloads_ofLength shows same
  · have some' : execution.Implements Knowledge.never before (storePayloads box offset operands)
        (Activation.storePayloads address offset (operands.map fun _ => 0)) stay nothing before :=
      storePayloads_ofLength (fun _ _ impossible => impossible.elim) (List.length_map _)
    apply some'.undefined (fun goesOn => goesOn)
    intro bound registers world known
    rw [← (shows bound registers known).2, List.length_map] at same
    exact absurd rfl same

/-! ## Expressions -/

section

variable {scope : NamedValues}

theorem functionName_implements (name : String) :
    execution.Implements given before
      (generateFunctionName execution.activation.context name)
      (match execution.activation.context.functionIndex[name]? with
        | some index => return BitVec.ofNat 64 index
        | none => Run.stuck) stay execution.shows before := by
  rw [generateFunctionName]
  cases execution.activation.context.functionIndex[name]? with
  | some index => exact constant
  | none => exact Compiles.throw

/-- The expression and its address are computed. -/
def Computes (execution : Execution) (expr : Expr) : Prop :=
  ∀ scope, execution.ComputesIn scope (generateExpr execution.activation.context expr)
      (execution.activation.evalExpr scope expr) ∧
    execution.ComputesIn scope (generateAddress execution.activation.context expr)
      (execution.activation.evalAddress scope expr)

theorem computes_of_noAddress {expr : Expr}
    (noAddress : generateAddress execution.activation.context expr =
      Gen.throw (.internal "could not generate l-value for address of"))
    (computes : ∀ scope, execution.ComputesIn scope
      (generateExpr execution.activation.context expr) (execution.activation.evalExpr scope expr)) :
    execution.Computes expr := by
  intro scope
  refine ⟨computes scope, fun given => ?_⟩
  rw [noAddress]
  exact Compiles.throw

theorem varExpr_computes (info : NodeInfo) (name : String) :
    execution.Computes (.varExpr info name) := by
  intro scope
  refine ⟨fun given => ?_, fun given => ?_⟩
  · rw [generateExpr, Activation.evalExpr]
    apply Compiles.state
    rintro state rfl
    cases state[name]? with
    | some decl => exact emitRun fun _ _ _ _ => rfl
    | none => exact functionName_implements name
  · rw [generateAddress, Activation.evalAddress]
    apply Compiles.state
    rintro state rfl
    cases state[name]? with
    | some decl => exact Compiles.pure rfl fun _ _ _ => ⟨trivial, rfl⟩
    | none =>
        have implements : execution.Implements given (fun other => other = state)
            (generateFunctionName execution.activation.context name) _ stay execution.shows _ :=
          functionName_implements name
        apply implements.undefined (fun goesOn => goesOn)
        exact fun _ _ _ _ => rfl

theorem evalBinary_implements {left right : IrOperand} {a b : Word}
    (shows : ∀ bound registers, given.holds bound registers →
      valueOf execution.locals registers left = a ∧ valueOf execution.locals registers right = b)
    (op : BinaryOp) (line : Nat) :
    execution.Implements given before
      (generateBinary execution.activation.context op line left right)
      (execution.activation.evalBinary op line a b) stay execution.shows before := by
  cases op with
  | add | sub | mul => exact emitBinary shows _
  | div => exact emitCheckedDivision_implements shows line
  | gt | eq | neq => exact emitComparison_implements shows rfl

theorem binaryExpr_computes {left right : Expr} (info : NodeInfo) (op : BinaryOp)
    (isLeft : execution.Computes left) (isRight : execution.Computes right) :
    execution.Computes (.binaryExpr info op left right) := by
  apply computes_of_noAddress rfl
  intro scope given
  rw [generateExpr, Activation.evalExpr]
  apply ((isLeft scope).1 given).bind
  intro operand a
  apply ((isRight scope).1 _).bind
  intro operand' b
  apply evalBinary_implements
  exact fun _ _ known => ⟨known.1.2.2, known.2.2⟩

theorem exprs_compute {exprs : List Expr} (each : ∀ expr ∈ exprs, execution.Computes expr) :
    ∀ given, execution.Implements given (fun state => state = scope)
      (generateExprs execution.activation.context exprs)
      (execution.activation.evalExprs scope exprs) stay execution.showAll
      fun state => state = scope := by
  induction exprs with
  | nil => exact fun given => Compiles.pure rfl fun _ _ _ => ⟨by simp, rfl⟩
  | cons expr exprs induction =>
      intro given
      rw [generateExprs, Activation.evalExprs]
      apply ((each expr List.mem_cons_self scope).1 given).bind
      intro operand value
      apply (induction (fun other member => each other (List.mem_cons_of_mem _ member)) _).bind
      intro operands values
      apply Compiles.pure rfl
      rintro bound registers ⟨⟨_, shows⟩, showAll⟩
      constructor
      · intro other member
        rcases List.mem_cons.mp member with rfl | later
        · exact shows.1
        · exact showAll.1 other later
      · exact congrArg₂ List.cons shows.2 showAll.2

theorem funAppExpr_computes {function : Expr} {actuals : List Expr} (info : NodeInfo)
    (isFunction : execution.Computes function)
    (each : ∀ actual ∈ actuals, execution.Computes actual) :
    execution.Computes (.funAppExpr info function actuals) := by
  apply computes_of_noAddress rfl
  intro scope given
  rw [generateExpr, Activation.evalExpr]
  apply ((isFunction scope).1 given).bind
  intro operand index
  apply Compiles.bind
  · apply emitLoadFunction
    exact fun _ _ known => known.2.2
  · intro pointer value
    apply (exprs_compute each _).bind
    intro operands values
    apply emitCall
    exact fun _ _ known => ⟨known.1.2.2, known.2.2⟩

theorem allocExpr_computes {initializer : Expr} (info : NodeInfo)
    (isInitializer : execution.Computes initializer) :
    execution.Computes (.allocExpr info initializer) := by
  apply computes_of_noAddress rfl
  intro scope given
  rw [generateExpr, Activation.evalExpr]
  apply ((isInitializer scope).1 given).bind
  intro operand value
  apply Compiles.bind
  · apply emitRun
    exact fun _ _ _ _ => rfl
  · intro cell address
    apply Compiles.bind
    · apply emitRun
      exact fun _ _ _ known => congrArg₂ Runtime.store known.1.2.2 known.2.2
    · intro _ _
      apply emitCast
      exact fun _ _ known => known.1.2.2

theorem borrowExpr_computes {var : Expr} (info : NodeInfo) (isVar : execution.Computes var) :
    execution.Computes (.borrowExpr info var) := by
  apply computes_of_noAddress rfl
  intro scope given
  rw [generateExpr, Activation.evalExpr, ← Run.bind_pure (execution.activation.evalAddress _ _)]
  apply ((isVar scope).2 given).bind
  intro operand address
  apply emitCast
  exact fun _ _ known => known.2.2

theorem deRefExpr_computes {ptr : Expr} (info : NodeInfo) (isPtr : execution.Computes ptr) :
    execution.Computes (.deRefExpr info ptr) := by
  intro scope
  refine ⟨fun given => ?_, fun given => ?_⟩
  · rw [generateExpr, Activation.evalExpr]
    apply ((isPtr scope).1 given).bind
    intro pointer address
    apply Compiles.computeThen
    · intro bound registers call world known
      exact congrArg (fun word => some (Outcome.returned word world)) known.2.2
    · intro cell
      apply Compiles.bind
      · apply emitRun
        exact fun _ _ _ known => congrArg Runtime.load known.2.2
      · intro operand value
        apply Compiles.bind
        · apply freeIf_implements
          exact fun _ _ known => known.1.2.2
        · intro _ _
          exact Compiles.pure rfl fun _ _ known => known.1.2
  · rw [generateAddress, Activation.evalAddress,
      ← Run.bind_pure (execution.activation.evalExpr _ _)]
    apply ((isPtr scope).1 given).bind
    intro operand address
    apply emitCast
    exact fun _ _ known => known.2.2

theorem sumCtorExpr_computes {args : List Expr} (info : NodeInfo) (tag : String)
    (each : ∀ arg ∈ args, execution.Computes arg) :
    execution.Computes (.sumCtorExpr info tag args) := by
  apply computes_of_noAddress rfl
  intro scope given
  rw [generateExpr, Activation.evalExpr]
  apply (exprs_compute each given).bind
  intro operands values
  apply Compiles.bind
  · apply emitRun
    exact fun _ _ _ _ => rfl
  · intro box address
    apply Compiles.bind
    · apply emitRun
      exact fun _ _ _ known => congrArg (Runtime.store _) known.2.2
    · intro _ _
      apply Compiles.bind
      · apply storePayloads_implements
        exact fun _ _ known => ⟨known.1.2.2, known.1.1.2.2⟩
      · intro _ _
        apply emitCast
        exact fun _ _ known => known.1.1.2.2

variable (execution)

theorem computes (expr : Expr) : execution.Computes expr := by
  induction expr using Expr.induction with
  | numExpr info value =>
      apply computes_of_noAddress rfl
      exact fun scope given => constant
  | varExpr info name => exact varExpr_computes info name
  | binaryExpr info op left right isLeft isRight => exact binaryExpr_computes info op isLeft isRight
  | inputExpr info =>
      apply computes_of_noAddress rfl
      exact fun scope given => emitRun fun _ _ _ _ => rfl
  | funAppExpr info function actuals isFunction each =>
      exact funAppExpr_computes info isFunction each
  | allocExpr info initializer isInitializer => exact allocExpr_computes info isInitializer
  | borrowExpr info var isVar => exact borrowExpr_computes info isVar
  | deRefExpr info ptr isPtr => exact deRefExpr_computes info isPtr
  | sumCtorExpr info tag args each => exact sumCtorExpr_computes info tag each

/-- The code of an expression does what the expression means. -/
theorem generateExpr_computes (scope : NamedValues) (expr : Expr) :
    execution.ComputesIn scope (generateExpr execution.activation.context expr)
      (execution.activation.evalExpr scope expr) :=
  (execution.computes expr scope).1

theorem generateAddress_computes (scope : NamedValues) (expr : Expr) :
    execution.ComputesIn scope (generateAddress execution.activation.context expr)
      (execution.activation.evalAddress scope expr) :=
  (execution.computes expr scope).2

end

end Execution

end Topc
