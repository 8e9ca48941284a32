import Topc.CodeGen.CompiledStatements

/-! # Compiled functions

The code of a function, from its entry block on, comes to what the function does. -/

namespace Topc

open BasicBlocks CodeGenVisitor

namespace Execution

variable {execution : Execution} {given : Knowledge Word} {scope : NamedValues}

/-! ## Entry -/

theorem loadFormal_implements (entry : Bool) (index : Nat) :
    execution.Implements given (fun state => state = scope) (loadFormal entry index)
      (Activation.loadFormal entry execution.args index) stay execution.shows
      fun state => state = scope := by
  cases entry with
  | true => exact emitRun fun _ _ _ _ => rfl
  | false => exact Compiles.pure rfl fun _ _ _ => ⟨trivial, rfl⟩

/-- A name stands for its slot from now on. -/
theorem allocate_implements (decl : DeclNode) :
    execution.Implements given (fun state => state = scope)
      (Gen.modify fun namedValues => allocate namedValues decl) (return ()) stay nothing
      fun state => state = allocate scope decl := by
  apply Compiles.modify
  rintro state rfl
  rfl

theorem storeFormals_implements (entry : Bool) {formals : List DeclNode} :
    ∀ {index : Nat} {scope : NamedValues} {given : Knowledge Word},
      execution.Implements given (fun state => state = scope) (storeFormals entry index formals)
        (execution.activation.storeFormals entry execution.args index formals) stay nothing
        fun state => state = formals.foldl allocate scope := by
  induction formals with
  | nil => exact fun {_ _ _} => Compiles.done
  | cons formal formals induction =>
      intro index scope given
      rw [storeFormals, Activation.storeFormals]
      apply (loadFormal_implements entry index).bind
      intro operand value
      apply Compiles.bind
      · apply emitRun
        exact fun _ _ _ known => congrArg₂ Runtime.store known.2.2 rfl
      · intro _ _
        change execution.Implements _ _ _ (pure () >>= fun _ : Unit => _) _ _ _
        exact (allocate_implements formal).bind fun _ _ => induction

theorem generateDeclarations_implements {decls : List DeclNode} :
    ∀ {scope : NamedValues} {given : Knowledge Word},
      execution.Implements given (fun state => state = scope) (generateDeclarations decls)
        (execution.activation.storeDeclarations decls) stay nothing
        fun state => state = decls.foldl allocate scope := by
  induction decls with
  | nil => exact fun {_ _} => Compiles.done
  | cons decl decls induction =>
      intro scope given
      rw [generateDeclarations, Activation.storeDeclarations]
      apply Compiles.bind
      · apply emitRun
        exact fun _ _ _ _ => rfl
      · intro _ _
        change execution.Implements _ _ _ (pure () >>= fun _ : Unit => _) _ _ _
        exact (allocate_implements decl).bind fun _ _ => induction

/-! ## Bodies -/

theorem generateResult_implements {function : Function}
    (distinct : CasesDistinct execution.activation.context.symbols function.postOrder) :
    execution.Implements given (fun state => state = ∅)
      (generateResult execution.activation.context function)
      (execution.activation.evalFunction function execution.args) stay execution.shows
      fun state => state = (function.formals ++ function.declarations).foldl allocate ∅ := by
  rw [generateResult, Activation.evalFunction, List.foldl_append]
  apply (storeFormals_implements _).bind
  intro _ _
  apply generateDeclarations_implements.bind
  intro _ _
  apply Compiles.bind
  · apply stmts_perform
    intro stmt member
    apply execution.generateStmt_performs (distinct.mono _)
    exact List.Subset.trans (Stmt.postOrder_subset_of_mem member) (List.subset_append_left _ _)
  · intro _ _
    apply (execution.generateExpr_computes _ _ _).bind
    intro operand value
    apply generateDestroys_implements.bind
    intro _ _
    exact Compiles.pure rfl fun _ _ known => known.1.2

/-- The branches for the variants that own payloads. -/
theorem ownedVariants_implement {box : IrOperand} {address : Word} (free : Nat)
    (shows : ∀ bound registers, given.holds bound registers →
      valueOf execution.locals registers box = address)
    (variants : List (Word × List (Nat × DeclNode))) :
    List.Forall₂ (fun branch entry => branch.1 = entry.1 ∧ execution.Implements given
      (fun state => state = scope) branch.2 entry.2 (fun _ => some free) nothing
      fun state => state = scope)
    (variants.map fun variant => (variant.1, do
      destroyFields execution.activation.context box variant.2
      Gen.terminate (.br free)))
    (variants.map fun variant =>
      (variant.1, execution.activation.destroyFields address variant.2)) := by
  rw [List.forall₂_map_left_iff, List.forall₂_map_right_iff]
  apply List.forall₂_same.mpr
  intro variant _
  refine ⟨rfl, ?_⟩
  rw [← Run.bind_unit (execution.activation.destroyFields _ _)]
  apply (destroyFields_implements shows).bind
  exact fun _ _ => Compiles.goTo rfl fun _ impossible => by cases impossible

theorem destroyBox_implements {owner : Option SumTypeDecl} {box condition : IrOperand}
    {address tag : Word}
    (showsBox : ∀ bound registers, given.holds bound registers →
      valueOf execution.locals registers box = address)
    (showsTag : ∀ bound registers, given.holds bound registers →
      valueOf execution.locals registers condition = tag) :
    execution.Implements given (fun state => state = scope)
      (destroyBox execution.activation.context owner box condition)
      (execution.activation.destroyBox owner address tag) stay nothing
      fun state => state = scope := by
  have frees : execution.Implements given (fun state => state = scope) (do
      let _ ← Gen.emit (.free box)) (do let _ ← Runtime.free address) stay nothing
      fun state => state = scope := by
    apply Compiles.bind
    · apply emitRun
      exact fun bound registers _ known => congrArg Runtime.free (showsBox bound registers known)
    · exact fun _ _ => Compiles.done
  exact Compiles.meet (fun free => Compiles.cases (ownedVariants_implement free showsBox _)
    showsTag (fun _ impossible => by cases impossible) rfl) frees

theorem emitSumDestroy_implements (owner : Option SumTypeDecl) :
    execution.Implements given (fun state => state = scope)
      (emitSumDestroy execution.activation.context owner)
      (execution.activation.destroySum owner (execution.args[0]?.getD 0)) stay execution.shows
      fun state => state = scope := by
  rw [emitSumDestroy, Activation.destroySum]
  apply Compiles.computeThen
  · exact fun _ _ _ _ _ => rfl
  · intro box
    apply Compiles.bind
    · apply emitRun
      exact fun _ _ _ known => congrArg Runtime.load known.2.2
    · intro tagOperand tag
      apply Compiles.bind
      · apply destroyBox_implements
        · exact fun _ _ known => known.1.2.2
        · exact fun _ _ known => known.2.2
      · exact fun _ _ => constant

/-! ## Whole functions -/

section

variable {finish : NamedValues × IrBuilder} {world : World} {outcome : Outcome World Word}
  {registers : Nat → Word}

/-- The code that is executed is what was generated for the function. -/
theorem generateFunction_ends {function : Function}
    (distinct : CasesDistinct execution.activation.context.symbols function.postOrder)
    (isBuilt : generateFunction execution.activation.context function (∅, .entry) =
      .ok ((), finish)) (isCode : execution.code = finish.2.blocks)
    (ran : execution.activation.evalFunction function execution.args world = some outcome) :
    Ends (irMachine execution.activation.platform execution.functions execution.sumDestroyCode)
      execution.code execution.locals (0, 0) registers world outcome := by
  have compiles : execution.Implements Knowledge.none _ _ _ _ _ _ :=
    generateResult_implements distinct
  rw [Implements, isCode] at compiles
  rw [isCode]
  exact compiles.returns isBuilt rfl ran

theorem getOrCreateSumDestroyFn_ends {owner : Option SumTypeDecl}
    (isBuilt : getOrCreateSumDestroyFn execution.activation.context owner (∅, .entry) =
      .ok ((), finish)) (isCode : execution.code = finish.2.blocks)
    (ran : execution.activation.destroySum owner (execution.args[0]?.getD 0) world =
      some outcome) :
    Ends (irMachine execution.activation.platform execution.functions execution.sumDestroyCode)
      execution.code execution.locals (0, 0) registers world outcome := by
  have compiles : execution.Implements Knowledge.none (fun state => state = ∅)
      (emitSumDestroy execution.activation.context owner)
      (execution.activation.destroySum owner (execution.args[0]?.getD 0)) stay execution.shows
      fun state => state = ∅ := emitSumDestroy_implements owner
  rw [Implements, isCode] at compiles
  rw [isCode]
  exact compiles.returns isBuilt rfl ran

end

end Execution

end Topc
