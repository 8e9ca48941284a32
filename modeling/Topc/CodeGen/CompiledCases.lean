import Topc.CodeGen.CompiledPatterns
import Topc.CodeGen.FirstMatch

/-! # Compiled case statements

The switch and the chains of tests take the first arm that matches. -/

namespace Topc

open BasicBlocks CodeGenVisitor

namespace Activation

variable {activation : Activation} {owner : Option SumTypeDecl} {consuming : Bool}

/-- The arms of one constructor on a value of it. -/
def tryArms (activation : Activation) (owner : Option SumTypeDecl) (consuming : Bool)
    (box : Word) : List (CaseArm × Runtime.Run Unit) → Runtime.Run Bool
  | [] => return false
  | arm :: arms => do
      if ← activation.evalArm owner consuming box arm then return true
      else tryArms activation owner consuming box arms

theorem map_body_fst (arms : List CaseArm) (body : CaseArm → Runtime.Run Unit) :
    (arms.map fun arm => (arm, body arm)).map Prod.fst = arms := by
  rw [List.map_map]
  exact List.map_id arms

/-- An arm of another constructor does not match. -/
theorem evalArms_eq_tryArms (box tag : Word) (arms : List (CaseArm × Runtime.Run Unit)) :
    activation.evalArms owner consuming box tag arms =
      activation.tryArms owner consuming box
        (arms.filter fun arm => tagWord owner arm.1.getTag = tag) := by
  induction arms with
  | nil => rfl
  | cons arm arms induction =>
      rw [evalArms, induction]
      by_cases same : tagWord owner arm.1.getTag = tag
      · rw [if_pos same, List.filter_cons_of_pos (by simpa using same), tryArms]
      · rw [if_neg same, List.filter_cons_of_neg (by simpa using same)]
        rfl

/-- The branches of the switch: the arms of each constructor, under its tag. -/
def switchArms (activation : Activation) (owner : Option SumTypeDecl) (consuming : Bool)
    (box : Word) (arms : List (CaseArm × Runtime.Run Unit)) : List (Word × Runtime.Run Bool) :=
  (CaseCodeGen.tagOrder (arms.map Prod.fst)).map fun name =>
    (tagWord owner name,
      activation.tryArms owner consuming box (arms.filter fun arm => arm.1.getTag == name))

/-- The constructors of the arms are told apart by their tags. -/
def TagsDistinct (owner : Option SumTypeDecl) (arms : List CaseArm) : Prop :=
  ∀ arm ∈ arms, ∀ other ∈ arms, tagWord owner arm.getTag = tagWord owner other.getTag →
    arm.getTag = other.getTag

/-- The switch finds the arms that can match. -/
theorem select_switchArms {arms : List (CaseArm × Runtime.Run Unit)}
    (distinct : TagsDistinct owner (arms.map Prod.fst)) (box tag : Word) :
    Run.select (switchArms activation owner consuming box arms) tag false =
      activation.evalArms owner consuming box tag arms := by
  rw [evalArms_eq_tryArms, Run.select]
  cases found : (switchArms activation owner consuming box arms).find? fun entry =>
      entry.1 = tag with
  | none =>
      have absent : arms.filter (fun arm => tagWord owner arm.1.getTag = tag) = [] := by
        apply List.filter_eq_nil_iff.mpr
        intro arm member same
        have listed := CaseCodeGen.mem_tagOrder.mpr ⟨arm.1, List.mem_map_of_mem member, rfl⟩
        exact List.find?_eq_none.mp found _ (List.mem_map_of_mem listed) same
      rw [absent]
      rfl
  | some entry =>
      have same := List.find?_some found
      rcases List.mem_map.mp (List.mem_of_find?_eq_some found) with ⟨name, member, rfl⟩
      rcases CaseCodeGen.mem_tagOrder.mp member with ⟨first, isFirst, rfl⟩
      have filtered : arms.filter (fun arm => arm.1.getTag == first.getTag) =
          arms.filter fun arm => tagWord owner arm.1.getTag = tag := by
        apply List.filter_congr
        intro arm isArm
        rw [Bool.eq_iff_iff]
        simp only [beq_iff_eq, decide_eq_true_eq] at same ⊢
        constructor
        · intro sameName
          rw [sameName, same]
        · intro sameTag
          exact distinct _ (List.mem_map_of_mem isArm) _ isFirst (sameTag.trans same.symm)
      rw [← filtered]
      rfl

end Activation

namespace Execution

variable {execution : Execution} {given : Knowledge Word} {scope : NamedValues}
  {owner : Option SumTypeDecl} {consuming : Bool} {box : IrOperand} {address : Word}
  {mergeLabel : Nat}

/-! ## Arms -/

/-- Where an arm goes. -/
def mergeOr (mergeLabel failLabel : Nat) (passed : Bool) : Option Nat :=
  some (if passed then mergeLabel else failLabel)

/-- The body that is generated for an arm is the body that runs, in the scope of the binders. -/
def ImplementsArm (execution : Execution) (scope : NamedValues) (arm : CaseArm × IrGen Unit)
    (run : CaseArm × Runtime.Run Unit) : Prop :=
  arm.1 = run.1 ∧ ∀ given, execution.Implements given
    (fun state => state = scope.emitPatternBinds arm.1.getPatterns) arm.2 run.2 stay nothing
    fun state => state = scope.emitPatternBinds arm.1.getPatterns

theorem emitArm_implements {failLabel : Nat} {arm : CaseArm × IrGen Unit}
    {run : CaseArm × Runtime.Run Unit} (isArm : execution.ImplementsArm scope arm run)
    (shows : ∀ bound registers, given.holds bound registers →
      valueOf execution.locals registers box = address) :
    execution.Implements given (fun state => state = scope)
      (emitArm execution.activation.context owner consuming box mergeLabel failLabel arm)
      (execution.activation.evalArm owner consuming address run) (mergeOr mergeLabel failLabel)
      nothing fun state => state = scope := by
  rcases isArm with ⟨same, isBody⟩
  rw [emitArm, Activation.evalArm, ← same]
  apply Compiles.state
  rintro state rfl
  have restores : ∀ given, execution.Implements given
      (fun other => other = state.emitPatternBinds arm.1.getPatterns)
      (Gen.modify (restore state arm.1.getBindings)) (return ()) stay nothing
      fun other => other = state := by
    intro given
    apply Compiles.modify
    rintro ended rfl
    rw [NamedValues.emitPatternBinds_eq]
    exact restore_allocateAll _ _
  apply (emitPatternTests_implements shows _).bindLeaving ⟨true, rfl⟩
  · intro _ passed stays
    cases passed with
    | false => cases stays
    | true =>
        apply Compiles.bind
        · apply emitPatternBinds_implements
          exact fun bound registers known => shows bound registers known.1
        · intro _ _
          apply (isBody _).bind
          intro _ _
          change execution.Implements _ _ _ (pure () >>= fun _ : Unit => pure true) _ _ _
          apply (restores _).bind
          intro _ _
          exact Compiles.goTo rfl fun _ impossible => by cases impossible
  · intro passed label leaves
    cases passed with
    | false =>
        cases leaves
        exact ⟨false, rfl, rfl⟩
    | true => cases leaves

theorem emitChain_implements {defaultLabel : Nat} {arms : List (CaseArm × IrGen Unit)}
    {runs : List (CaseArm × Runtime.Run Unit)}
    (each : List.Forall₂ (execution.ImplementsArm scope) arms runs)
    (shows : ∀ bound registers, given.holds bound registers →
      valueOf execution.locals registers box = address) :
    execution.Implements given (fun state => state = scope)
      (emitChain execution.activation.context owner consuming box mergeLabel defaultLabel arms)
      (execution.activation.tryArms owner consuming address runs)
      (mergeOr mergeLabel defaultLabel) nothing fun state => state = scope := by
  induction each with
  | nil => exact Compiles.goTo rfl fun _ impossible => by cases impossible
  | @cons arm run arms runs isArm others induction =>
      cases others with
      | nil =>
          have alone : execution.activation.tryArms owner consuming address [run] =
              execution.activation.evalArm owner consuming address run :=
            Run.bind_ite _
          rw [alone]
          exact emitArm_implements isArm shows
      | cons _ _ =>
          rw [emitChain, Activation.tryArms]
          exact Compiles.fallThrough rfl (fun failLabel => emitArm_implements isArm shows) induction

/-! ## The switch -/

section

variable {arms : List (CaseArm × IrGen Unit)} {runs : List (CaseArm × Runtime.Run Unit)}
  (each : List.Forall₂ (execution.ImplementsArm scope) arms runs)

include each

theorem sameArms : arms.map Prod.fst = runs.map Prod.fst := by
  induction each with
  | nil => rfl
  | cons isArm _ induction => exact congrArg₂ List.cons isArm.1 induction

/-- The code that the branches of a switch go to. -/
theorem switchArms_implement (defaultLabel : Nat)
    (shows : ∀ bound registers, given.holds bound registers →
      valueOf execution.locals registers box = address) :
    List.Forall₂ (fun branch entry => branch.1 = entry.1 ∧ execution.Implements given
      (fun state => state = scope) branch.2 entry.2 (mergeOr mergeLabel defaultLabel) nothing
      fun state => state = scope)
    (emitBranches execution.activation.context owner consuming box mergeLabel defaultLabel arms)
    (execution.activation.switchArms owner consuming address runs) := by
  rw [emitBranches, Activation.switchArms, sameArms each, List.forall₂_map_left_iff,
    List.forall₂_map_right_iff]
  apply List.forall₂_same.mpr
  intro name _
  refine ⟨rfl, emitChain_implements ?_ shows⟩
  apply List.rel_filter _ each
  intro arm run isArm
  simp only [isArm.1]

/-- After the arms and the default block have come together, control goes on. -/
theorem emitSwitch_implements {condition : IrOperand} {tag : Word} {next : IrGen Unit}
    {rest : Runtime.Run Unit} (distinct : Activation.TagsDistinct owner (runs.map Prod.fst))
    (showsBox : ∀ bound registers, given.holds bound registers →
      valueOf execution.locals registers box = address)
    (showsTag : ∀ bound registers, given.holds bound registers →
      valueOf execution.locals registers condition = tag)
    (isNext : execution.Implements given (fun state => state = scope) next rest stay nothing
      fun state => state = scope) :
    execution.Implements given (fun state => state = scope)
      (Gen.landing (fun mergeLabel =>
        Gen.landing (fun defaultLabel =>
          Gen.cases condition defaultLabel (emitBranches execution.activation.context owner
            consuming box mergeLabel defaultLabel arms)) (do
          nop
          Gen.terminate (.br mergeLabel))) next)
      (do
        let _ ← execution.activation.evalArms owner consuming address tag runs
        rest) stay nothing fun state => state = scope := by
  rw [← Activation.select_switchArms distinct]
  have selects : ∀ mergeLabel defaultLabel, execution.Implements given (fun state => state = scope)
      (Gen.cases condition defaultLabel
        (emitBranches execution.activation.context owner consuming box mergeLabel defaultLabel
          arms))
      (Run.select (execution.activation.switchArms owner consuming address runs) tag false)
      (mergeOr mergeLabel defaultLabel) nothing fun state => state = scope :=
    fun mergeLabel defaultLabel => Compiles.cases
      (switchArms_implement each defaultLabel showsBox) showsTag
      (fun _ impossible => by cases impossible) rfl
  have falls : ∀ mergeLabel, execution.Implements given (fun state => state = scope) (do
      nop
      Gen.terminate (.br mergeLabel)) (return ()) (fun _ => some mergeLabel) nothing
      fun state => state = scope := by
    intro mergeLabel
    change execution.Implements _ _ _ (pure () >>= fun _ : Unit => pure ()) _ _ _
    apply nop_implements.bind
    exact fun _ _ => Compiles.goTo rfl fun _ impossible => by cases impossible
  have merges : ∀ mergeLabel, execution.Implements given (fun state => state = scope) _ (do
      if ← Run.select (execution.activation.switchArms owner consuming address runs) tag false then
        return ()
      else return ()) (fun _ => some mergeLabel) nothing fun state => state = scope :=
    fun mergeLabel => Compiles.fallThrough rfl (selects mergeLabel) (falls mergeLabel)
  have met := Compiles.meet merges isNext
  apply met.congr
  rw [Run.bind_assoc]
  apply congrArg (Run.select _ tag false >>= ·)
  funext passed
  cases passed <;> rfl

theorem emitCase_implements {value : IrOperand}
    (distinct : Activation.TagsDistinct owner (runs.map Prod.fst))
    (shows : ∀ bound registers, given.holds bound registers →
      valueOf execution.locals registers value = address) :
    execution.Implements given (fun state => state = scope)
      (emitCase execution.activation.context owner consuming value arms)
      (execution.activation.evalCase owner consuming address runs) stay nothing
      fun state => state = scope := by
  rw [emitCase, Activation.evalCase]
  apply Compiles.computeThen
  · intro bound registers call world known
    exact congrArg (fun word => some (Outcome.returned word world)) (shows bound registers known)
  · intro box
    apply Compiles.bind
    · apply emitRun
      exact fun _ _ _ known => congrArg Runtime.load known.2.2
    · intro tagOperand tag
      apply emitSwitch_implements each distinct
      · exact fun _ _ known => known.1.2.2
      · exact fun _ _ known => known.2.2
      · cases consuming with
        | false => exact Compiles.done
        | true =>
            apply Compiles.computeThen
            · intro bound registers call world known
              exact congrArg (fun word => some (Outcome.returned word world))
                (shows bound registers known.1.1)
            · intro ptr
              apply Compiles.bind
              · apply emitRun
                exact fun _ _ _ known => congrArg Runtime.free known.2.2
              · exact fun _ _ => Compiles.done

end

end Execution

end Topc
