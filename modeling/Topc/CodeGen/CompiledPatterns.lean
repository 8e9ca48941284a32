import Topc.CodeGen.CompiledExpressions
import Topc.SymbolTable.NameResolution

/-! # Compiled patterns

The code of an arm tests its patterns as the match does, and takes the value apart as
the match does. -/

namespace Topc

open BasicBlocks CodeGenVisitor

namespace Execution

variable {execution : Execution} {given : Knowledge Word} {before : NamedValues → Prop}

/-! ## Instructions without a result -/

theorem nop_implements :
    execution.Implements given before nop (return ()) stay nothing before := by
  apply Compiles.computeThen
  · exact fun _ _ _ _ _ => rfl
  · exact fun _ => Compiles.done

/-- What a payload is loaded from. -/
theorem emitFieldThen {base : IrOperand} {address : Word}
    (shows : ∀ bound registers, given.holds bound registers →
      valueOf execution.locals registers base = address) {offset : Nat} {U α : Type}
    {next : IrOperand → IrGen α} {run : Word → Runtime.Run U} {leave : U → Option Nat}
    {gives : α → U → Knowledge Word} {after : NamedValues → Prop}
    (rest : ∀ operand value, execution.Implements (given.and (execution.shows operand value)) before
      (next operand) (run value) leave gives after) :
    execution.Implements given before (do
        let field ← Gen.emit (.field base offset)
        let value ← Gen.emit (.load field)
        next value)
      (do
        let value ← Runtime.load (Memory.field address offset)
        run value) leave gives after := by
  apply Compiles.computeThen
  · intro bound registers call world known
    exact congrArg (fun word => some (Outcome.returned (Memory.field word offset) world))
      (shows bound registers known)
  · intro field
    apply Compiles.bind
    · apply emitRun
      exact fun _ _ _ known => congrArg Runtime.load known.2.2
    · intro operand value
      apply (rest operand value).mono
      · exact fun _ _ known => ⟨known.1.1, known.2⟩
      · exact fun _ _ _ _ gives => gives

theorem emitDestroyValue_implements {operand : IrOperand} {value : Word}
    (shows : ∀ bound registers, given.holds bound registers →
      valueOf execution.locals registers operand = value) (type : TopType) :
    execution.Implements given before
      (emitDestroyValue execution.activation.context operand type)
      (execution.activation.destroyValue value type) stay nothing before := by
  rw [emitDestroyValue, Activation.destroyValue]
  cases OwnershipClassifier.classifyType type with
  | copy => exact Compiles.done
  | own =>
      cases asSumType type with
      | some ctors =>
          apply Compiles.bind
          · apply Compiles.emit
            intro bound registers world outcome known ran
            rcases execution.calls _ _ _ _ ran with ⟨steps, runs⟩
            refine ⟨steps, fun fuel enough => ?_⟩
            rw [← runs fuel enough, ← shows bound registers known]
            rfl
          · exact fun _ _ => Compiles.done
      | none =>
          apply Compiles.computeThen
          · intro bound registers call world known
            exact congrArg (fun word => some (Outcome.returned word world))
              (shows bound registers known)
          · intro ptr
            apply Compiles.bind
            · apply emitRun
              exact fun _ _ _ known => congrArg Runtime.free known.2.2
            · exact fun _ _ => Compiles.done

/-! ## Tests -/

mutual
theorem emitPatternTest_implements {failLabel offset : Nat} {base : IrOperand} {address : Word}
    {given : Knowledge Word} (shows : ∀ bound registers, given.holds bound registers →
      valueOf execution.locals registers base = address) : ∀ pattern : Pattern,
    execution.Implements given before
      (emitPatternTest execution.activation.context base offset failLabel pattern)
      (execution.activation.matchPattern address offset pattern) (Compiles.leaveUnless failLabel)
      nothing
      before
  | .var .. | .wildcard _ => by
      rw [emitPatternTest, Activation.matchPattern]
      exact Compiles.pure rfl fun _ _ _ => trivial
  | .ctor info tag subPatterns => by
      rw [emitPatternTest, Activation.matchPattern]
      apply emitFieldThen shows
      intro value inner
      apply Compiles.computeThen
      · intro bound registers call world known
        exact congrArg (fun word => some (Outcome.returned word world)) known.2.2
      · intro box
        apply Compiles.bind
        · apply emitRun
          exact fun _ _ _ known => congrArg Runtime.load known.2.2
        · intro innerTag word
          apply emitBinaryThen
          · exact fun _ _ known => ⟨known.2.2, rfl⟩
          · exact rfl
          intro bit
          refine Compiles.congr (Compiles.gated ?_ ?_) (if_congr decide_eq_true_iff rfl rfl)
          · intro bound registers known
            rw [known.2.2]
            exact truth_ofBool _
          · apply emitPatternTests_implements _ subPatterns
            exact fun _ _ known => known.1.1.2.2

theorem emitPatternTests_implements {failLabel offset : Nat} {base : IrOperand} {address : Word}
    {given : Knowledge Word} (shows : ∀ bound registers, given.holds bound registers →
      valueOf execution.locals registers base = address) : ∀ patterns : List Pattern,
    execution.Implements given before
      (emitPatternTests execution.activation.context base offset failLabel patterns)
      (execution.activation.matchPatterns address offset patterns)
      (Compiles.leaveUnless failLabel) nothing
      before
  | [] => by
      rw [emitPatternTests, Activation.matchPatterns]
      exact Compiles.pure rfl fun _ _ _ => trivial
  | pattern :: patterns => by
      rw [emitPatternTests, Activation.matchPatterns]
      exact (emitPatternTest_implements shows pattern).andThen
        (emitPatternTests_implements shows patterns)
end

/-! ## Bindings -/

mutual
theorem emitPatternBind_implements {consuming : Bool} {offset : Nat} {base : IrOperand}
    {address : Word} {paramDecl : Option DeclNode} {scope : NamedValues} {given : Knowledge Word}
    (shows : ∀ bound registers, given.holds bound registers →
      valueOf execution.locals registers base = address) : ∀ pattern : Pattern,
    execution.Implements given (fun state => state = scope)
      (emitPatternBind execution.activation.context consuming base offset paramDecl pattern)
      (execution.activation.bindPattern consuming address offset paramDecl pattern) stay nothing
      fun state => state = scope.emitPatternBind pattern
  | .var info decl => by
      rw [emitPatternBind, Activation.bindPattern]
      apply emitFieldThen shows
      intro operand value
      apply Compiles.bind
      · apply emitRun
        exact fun _ _ _ known => congrArg₂ Runtime.store known.2.2 rfl
      · intro _ _
        apply Compiles.modify
        rintro state rfl
        rfl
  | .wildcard info => by
      rw [emitPatternBind, Activation.bindPattern]
      apply emitFieldThen shows
      intro operand value
      cases paramDecl with
      | none => exact Compiles.done
      | some param =>
          by_cases discarded : info.id ∈ execution.activation.context.plan.discardedPayloads
          · simp only [if_pos discarded]
            apply emitDestroyValue_implements
            exact fun _ _ known => known.2.2
          · simp only [if_neg discarded]
            exact Compiles.done
  | .ctor info tag subPatterns => by
      rw [emitPatternBind, Activation.bindPattern]
      apply emitFieldThen shows
      intro value inner
      apply Compiles.computeThen
      · intro bound registers call world known
        exact congrArg (fun word => some (Outcome.returned word world)) known.2.2
      · intro box
        apply Compiles.bind
        · apply emitPatternBinds_implements _ subPatterns
          exact fun _ _ known => known.2.2
        · intro _ _
          apply freeIf_implements
          exact fun _ _ known => known.1.2.2

theorem emitPatternBinds_implements {consuming : Bool} {offset : Nat} {base : IrOperand}
    {address : Word} {params : List DeclNode} {scope : NamedValues} {given : Knowledge Word}
    (shows : ∀ bound registers, given.holds bound registers →
      valueOf execution.locals registers base = address) : ∀ patterns : List Pattern,
    execution.Implements given (fun state => state = scope)
      (emitPatternBinds execution.activation.context consuming base offset params patterns)
      (execution.activation.bindPatterns consuming address offset params patterns) stay nothing
      fun state => state = scope.emitPatternBinds patterns
  | [] => by
      rw [emitPatternBinds, Activation.bindPatterns]
      exact Compiles.done
  | pattern :: patterns => by
      rw [emitPatternBinds, Activation.bindPatterns]
      apply (emitPatternBind_implements shows pattern).bind
      intro _ _
      apply emitPatternBinds_implements _ patterns
      exact fun bound registers known => shows bound registers known.1
end

/-! ## Destruction at the end of a scope -/

theorem generateDestroy_implements {scope : NamedValues} (decl : DeclNode) :
    execution.Implements given (fun state => state = scope)
      (generateDestroy execution.activation.context decl)
      (execution.activation.destroyVariable scope decl) stay nothing
      fun state => state = scope := by
  rw [generateDestroy, Activation.destroyVariable]
  apply Compiles.state
  rintro state rfl
  cases state[decl.name]? with
  | none => exact Compiles.throw
  | some slot =>
      apply Compiles.bind
      · apply emitRun
        exact fun _ _ _ _ => rfl
      · intro operand value
        rw [← Run.bind_unit (execution.activation.destroyValue _ _)]
        apply Compiles.bind
        · apply emitDestroyValue_implements
          exact fun _ _ known => known.2.2
        · exact fun _ _ => nop_implements

theorem generateDestroys_implements {scope : NamedValues} {decls : List DeclNode} :
    ∀ {given : Knowledge Word}, execution.Implements given (fun state => state = scope)
      (generateDestroys execution.activation.context decls)
      (execution.activation.destroyVariables scope decls) stay nothing
      fun state => state = scope := by
  induction decls with
  | nil => exact Compiles.done
  | cons decl decls induction =>
      intro given
      rw [generateDestroys, Activation.destroyVariables]
      apply (generateDestroy_implements decl).bind
      exact fun _ _ => induction

theorem destroyFields_implements {box : IrOperand} {address : Word}
    {fields : List (Nat × DeclNode)} : ∀ {given : Knowledge Word},
    (∀ bound registers, given.holds bound registers →
      valueOf execution.locals registers box = address) →
    execution.Implements given before (destroyFields execution.activation.context box fields)
      (execution.activation.destroyFields address fields) stay nothing before := by
  induction fields with
  | nil => exact fun _ => Compiles.done
  | cons field fields induction =>
      rcases field with ⟨index, param⟩
      intro given shows
      rw [destroyFields, Activation.destroyFields]
      apply emitFieldThen shows
      intro operand value
      apply Compiles.bind
      · apply emitDestroyValue_implements
        exact fun _ _ known => known.2.2
      · intro _ _
        apply induction
        exact fun bound registers known => shows bound registers known.1.1

end Execution

end Topc
