import Topc.MoveAnalysis.Joins

/-! # What the walk adds to the destruction plan

Each arm is visited once and adds at most one entry, under its own address. -/

namespace Topc.MoveAnalysis

open OwnershipPaths

def endedArms (events : List Event) : List NodeId :=
  events.filterMap Event.endedArm

@[simp] theorem endedArms_append (first second : List Event) :
    endedArms (first ++ second) = endedArms first ++ endedArms second :=
  List.filterMap_append

@[simp] theorem endedArms_leaveArm (arm : NodeId) (binders : List Binding)
    (events : List Event) :
    endedArms (.leaveArm arm binders :: events) = arm :: endedArms events := rfl

@[simp] theorem endedArms_enterArm (binders : List Binding) (events : List Event) :
    endedArms (.enterArm binders :: events) = endedArms events := rfl

theorem endedArms_cons_subset (event : Event) {events : List Event} :
    endedArms events ⊆ endedArms (event :: events) :=
  ((List.sublist_cons_self event events).filterMap _).subset

/-- An arm ends after the arms inside it. -/
theorem endedArms_armEvents (context : Context) (scope : Scope) (byValue : Bool)
    (info : NodeInfo) (tag : String) (patterns : List Pattern) (body : Stmt) :
    endedArms (armEvents context scope byValue (.mk info tag patterns body)) =
      endedArms (stmtEvents context (armScope scope (armBinders byValue patterns)) body)
        ++ [info.id] := by
  rw [armEvents, endedArms_enterArm, endedArms_append]
  rfl

/-- The owners a plan destroys at the end of an arm. -/
def armEndOwners (plan : DestructionPlan) (arm : NodeId) : List DeclNode :=
  (plan.atArmEnd.filter fun entry => entry.1 == arm).flatMap Prod.snd

/-- The entry lists owned binders of the arm that the event is the end of. -/
def PlansFor (context : Context) (entry : NodeId × List DeclNode) (event : Event) : Prop :=
  ∃ binders, event = .leaveArm entry.1 binders ∧
    entry.2.Sublist ((binders.map Binding.decl).filter context.isOwn)

/-- From one plan to the next nothing changed but arm ends, at most one for each
arm that ends among the events. -/
structure Grows (context : Context) (events : List Event) (before after : DestructionPlan) : Prop where
  atExit : after.atExit = before.atExit
  atArmEnd : ∃ added, after.atArmEnd = before.atArmEnd ++ added ∧
    List.SublistForall₂ (PlansFor context) added events

namespace Grows

variable {context : Context}

variable (context) in
theorem refl (events : List Event) (plan : DestructionPlan) : Grows context events plan plan :=
  ⟨rfl, [], by simp, .nil⟩

theorem of_steps {events plan : List Event} {before after : Walk} (steps : Steps context events before after) :
    Grows context plan before.plan after.plan :=
  ⟨steps.atExit, [], by simp [steps.atArmEnd], .nil⟩

theorem append {first second : List Event} {before mid after : DestructionPlan}
    (firstGrows : Grows context first before mid) (secondGrows : Grows context second mid after) :
    Grows context (first ++ second) before after := by
  rcases firstGrows with ⟨firstExit, firstAdded, firstEnd, firstPlans⟩
  rcases secondGrows with ⟨secondExit, secondAdded, secondEnd, secondPlans⟩
  refine ⟨secondExit.trans firstExit, firstAdded ++ secondAdded, ?_, ?_⟩
  · rw [secondEnd, firstEnd, List.append_assoc]
  · rw [List.sublistForall₂_iff] at firstPlans secondPlans ⊢
    rcases firstPlans with ⟨firstEnds, firstFor, firstSub⟩
    rcases secondPlans with ⟨secondEnds, secondFor, secondSub⟩
    exact ⟨firstEnds ++ secondEnds, List.rel_append firstFor secondFor, firstSub.append secondSub⟩

theorem cons {event : Event} {events : List Event} {before after : DestructionPlan}
    (grows : Grows context events before after) : Grows context (event :: events) before after :=
  append (refl context [event] before) grows

end Grows

theorem plannedFor_none {context : Context} {entries : List (NodeId × List DeclNode)} {events : List Event}
    (plans : List.SublistForall₂ (PlansFor context) entries events) {arm : NodeId}
    (elsewhere : arm ∉ endedArms events) :
    (entries.filter fun entry => entry.1 == arm).flatMap Prod.snd = [] := by
  induction plans with
  | nil => rfl
  | cons head _ induction =>
      rcases head with ⟨binders, rfl, _⟩
      rw [endedArms_leaveArm, List.mem_cons, not_or] at elsewhere
      rw [List.filter_cons_of_neg (by simpa using Ne.symm elsewhere.1)]
      exact induction elsewhere.2
  | cons_right _ induction =>
      exact induction fun member => elsewhere (endedArms_cons_subset _ member)

theorem plannedFor_sublist {context : Context} {entries : List (NodeId × List DeclNode)} {events : List Event}
    (plans : List.SublistForall₂ (PlansFor context) entries events) (distinct : (endedArms events).Nodup)
    {arm : NodeId} {binders : List Binding} (member : .leaveArm arm binders ∈ events) :
    ((entries.filter fun entry => entry.1 == arm).flatMap Prod.snd).Sublist
      ((binders.map Binding.decl).filter context.isOwn) := by
  induction plans with
  | nil => exact List.nil_sublist _
  | cons head rest induction =>
      rcases head with ⟨headBinders, rfl, owners⟩
      rw [endedArms_leaveArm, List.nodup_cons] at distinct
      rcases List.mem_cons.mp member with same | later
      · cases same
        rw [List.filter_cons_of_pos (by simp), List.flatMap_cons,
          plannedFor_none rest distinct.1, List.append_nil]
        exact owners
      · have other : arm ∈ endedArms _ := List.mem_filterMap.mpr ⟨_, later, rfl⟩
        rw [List.filter_cons_of_neg]
        · exact induction distinct.2 later
        · intro same
          rw [← beq_iff_eq.mp same] at other
          exact distinct.1 other
  | cons_right rest induction =>
      rcases List.mem_cons.mp member with same | later
      · subst same
        rw [endedArms_leaveArm, List.nodup_cons] at distinct
        rw [plannedFor_none rest distinct.1]
        exact List.nil_sublist _
      · exact induction (distinct.sublist ((List.sublist_cons_self _ _).filterMap _)) later

namespace Grows

variable {context : Context} {events : List Event} {before after : DestructionPlan}

/-- What the plan says of an arm does not change while the walk is elsewhere. -/
theorem armEndOwners_eq (grows : Grows context events before after) {arm : NodeId}
    (elsewhere : arm ∉ endedArms events) : armEndOwners after arm = armEndOwners before arm := by
  rcases grows with ⟨_, added, atArmEnd, plans⟩
  rw [armEndOwners, atArmEnd, List.filter_append, List.flatMap_append,
    plannedFor_none plans elsewhere, List.append_nil]
  rfl

/-- The owners planned for a fresh arm are among its owned binders, each once. -/
theorem armEndOwners_sublist (grows : Grows context events before after)
    (distinct : (endedArms events).Nodup) {arm : NodeId} {binders : List Binding}
    (member : .leaveArm arm binders ∈ events) (fresh : armEndOwners before arm = []) :
    (armEndOwners after arm).Sublist
      ((binders.map Binding.decl).filter context.isOwn) := by
  rcases grows with ⟨_, added, atArmEnd, plans⟩
  rw [armEndOwners] at fresh
  rw [armEndOwners, atArmEnd, List.filter_append, List.flatMap_append, fresh, List.nil_append]
  exact plannedFor_sublist plans distinct member

end Grows

theorem armEndOwners_planArmEnd (context : Context) (arm : NodeId) (binders : List DeclNode)
    (walk : Walk) :
    armEndOwners (planArmEnd context arm binders walk).plan arm =
      armEndOwners walk.plan arm ++
        binders.filter fun binder => ownedIn walk.state (binderKey context binder) := by
  unfold planArmEnd
  split
  · rename_i empty
    rw [empty, List.append_nil]
  · simp [armEndOwners]

theorem planArmEnd_grows (context : Context) (arm : NodeId) (byValue : Bool)
    (patterns : List Pattern) (walk : Walk) :
    Grows context [.leaveArm arm (armBinders byValue patterns)] walk.plan
      (planArmEnd context arm
        (ownedBinders context (Pattern.collectAllBindings patterns) byValue) walk).plan := by
  unfold planArmEnd
  split
  · exact .refl _ _ _
  · refine ⟨rfl, _, rfl, .cons ⟨_, rfl, ?_⟩ .nil⟩
    have binders : (armBinders byValue patterns).map Binding.decl =
        Pattern.collectAllBindings patterns := by
      simp [armBinders, Function.comp_def]
    rw [binders]
    refine List.filter_sublist.trans ?_
    cases byValue
    · exact List.nil_sublist _
    · exact List.Sublist.refl _

@[simp] theorem planArmEnd_state (context : Context) (arm : NodeId) (binders : List DeclNode)
    (walk : Walk) : (planArmEnd context arm binders walk).state = walk.state := by
  unfold planArmEnd
  split <;> rfl

/-! ## Statements -/

section

variable {context : Context} (enforced : context.rules = .allEnabled)

/-- The walk over a statement adds to the plan only at the arms inside it. -/
def StmtGrows (context : Context) (stmt : Stmt) : Prop :=
  ∀ scope before after, analyzeStmt context stmt before = .ok after →
    Grows context (stmtEvents context scope stmt) before.plan after.plan

theorem analyzeStmts_grows {stmts : List Stmt} (each : ∀ stmt ∈ stmts, StmtGrows context stmt) :
    ∀ scope before after, analyzeStmts context stmts before = .ok after →
      Grows context (stmtsEvents context scope stmts) before.plan after.plan := by
  induction stmts with
  | nil =>
      intro scope before after result
      cases result
      exact .refl _ _ _
  | cons stmt stmts induction =>
      intro scope before after result
      rw [analyzeStmts, bind_eq_ok] at result
      rcases result with ⟨mid, first, rest⟩
      exact (each stmt (by simp) scope before mid first).append
        (induction (fun other member => each other (by simp [member])) scope mid after rest)

theorem analyzeArm_grows {byValue : Bool} {arm : CaseArm}
    (bodyGrows : StmtGrows context arm.getBody) (scope : Scope) {before after : Walk}
    (result : analyzeArm context byValue arm before = .ok after) :
    Grows context (armEvents context scope byValue arm) before.plan after.plan := by
  cases arm with
  | mk info tag patterns armBody =>
      rw [analyzeArm, bind_eq_ok] at result
      rcases result with ⟨ended, bodyResult, finished⟩
      cases finished
      have bodyPart := bodyGrows (armScope scope (armBinders byValue patterns)) _ ended bodyResult
      rw [enterArm_plan] at bodyPart
      exact .cons (bodyPart.append (planArmEnd_grows context info.id byValue patterns ended))

theorem analyzeArms_grows {byValue : Bool} {start : StateMap} {arms : List CaseArm}
    (each : ∀ arm ∈ arms, StmtGrows context arm.getBody) :
    ∀ scope before result, analyzeArms context byValue start arms before = .ok result →
      Grows context (armsEvents context scope byValue arms) before.plan result.1.plan := by
  induction arms with
  | nil =>
      intro scope before result analyzed
      cases analyzed
      exact .refl _ _ _
  | cons arm arms induction =>
      intro scope before result analyzed
      rw [analyzeArms, bind_eq_ok] at analyzed
      rcases analyzed with ⟨mid, first, analyzed⟩
      rw [bind_eq_ok] at analyzed
      rcases analyzed with ⟨rest, restResult, finished⟩
      cases finished
      exact (analyzeArm_grows (each arm (by simp)) scope first).append
        (induction (fun other member => each other (by simp [member])) scope mid rest restResult)

theorem analyzeElse_grows {elseStmt : Option Stmt}
    (each : ∀ stmt ∈ elseStmt, StmtGrows context stmt) (scope : Scope) {before after : Walk}
    (result : analyzeElse context elseStmt before = .ok after) :
    Grows context (elseEvents context scope elseStmt) before.plan after.plan := by
  cases elseStmt with
  | none =>
      cases result
      exact .refl _ _ _
  | some stmt =>
      rw [analyzeElse] at result
      exact each stmt rfl scope before after result

include enforced

theorem stmtGrows (stmt : Stmt) : StmtGrows context stmt := by
  induction stmt with
  | assignStmt info lhs rhs =>
      intro scope before after result
      exact .of_steps (analyzeStmt_assign enforced scope result)
  | blockStmt info stmts each =>
      intro scope before after result
      rw [analyzeStmt] at result
      have grows := analyzeStmts_grows each scope _ after result
      exact grows
  | whileStmt info condition body bodyGrows =>
      intro scope before after result
      rcases analyzeStmt_while enforced scope result with
        ⟨condWalk, bodyWalk, steps, _, bodyResult, _, rfl⟩
      exact (Grows.of_steps steps).append
        (bodyGrows scope condWalk bodyWalk bodyResult)
  | ifStmt info condition thenStmt elseStmt thenGrows elseGrows =>
      intro scope before after result
      rcases analyzeStmt_if enforced scope result with
        ⟨condWalk, thenWalk, elseWalk, joined, steps, thenResult, elseResult, _, rfl⟩
      have elsePart := analyzeElse_grows elseGrows scope elseResult
      exact (Grows.of_steps steps).append
        ((thenGrows scope condWalk thenWalk thenResult).append elsePart)
  | outputStmt info arg | errorStmt info arg =>
      intro scope before after result
      rw [analyzeStmt] at result
      exact .of_steps (evalFirst_steps enforced scope result)
  | caseStmt info caseExpr arms each =>
      intro scope before after result
      rcases analyzeStmt_case enforced scope result with ⟨matched, steps, analyzed⟩
      refine (Grows.of_steps steps).append ?_
      rcases analyzed with ⟨rfl, rfl⟩ | ⟨armsWalk, states, _, armsResult, _, samePlan⟩
      · exact .refl _ _ _
      · rw [samePlan]
        exact analyzeArms_grows each scope matched (armsWalk, states) armsResult

end

end Topc.MoveAnalysis
