import Topc.MoveAnalysis.StatementTracking

/-! # The walk over a program

Every function adds its exit owners and the owners of its own arms to the plan. -/

namespace Topc.MoveAnalysis

open OwnershipPaths

/-! ## The variables and arms of a statement -/

theorem declaredBy_of_resolved {scope : Scope} {events : List Event}
    (resolved : ResolvedIn scope events) : declaredBy events = [] := by
  rw [declaredBy, List.flatMap_eq_nil_iff]
  intro event member
  rcases resolved event member with ⟨action, name, rfl⟩
  rfl

theorem endedArms_of_resolved {scope : Scope} {events : List Event}
    (resolved : ResolvedIn scope events) : endedArms events = [] := by
  rw [endedArms, List.filterMap_eq_nil_iff]
  intro event member
  rcases resolved event member with ⟨action, name, rfl⟩
  rfl

section

variable (context : Context)

/-- The events of some code name exactly the variables and the ends of its arms. -/
structure Mirrors (events : List Event) (arms : List CaseArm) : Prop where
  declares : (declaredBy events).Perm (arms.flatMap CaseArm.getBindings)
  ends : (endedArms events).Perm (arms.map fun arm => arm.info.id)
  closes : ∀ arm binders, .leaveArm arm binders ∈ events →
    ∃ closed ∈ arms, closed.getBindings = binders.map Binding.decl

theorem Mirrors.nil : Mirrors [] [] := ⟨.refl _, .refl _, nofun⟩

theorem Mirrors.append {first second : List Event} {firstArms secondArms : List CaseArm}
    (firstMirrors : Mirrors first firstArms) (secondMirrors : Mirrors second secondArms) :
    Mirrors (first ++ second) (firstArms ++ secondArms) where
  declares := by
    rw [declaredBy_append, List.flatMap_append]
    exact firstMirrors.declares.append secondMirrors.declares
  ends := by
    rw [endedArms_append, List.map_append]
    exact firstMirrors.ends.append secondMirrors.ends
  closes := by
    intro arm binders member
    rcases List.mem_append.mp member with member | member
    · rcases firstMirrors.closes arm binders member with ⟨closed, closedMem, same⟩
      exact ⟨closed, List.mem_append_left _ closedMem, same⟩
    · rcases secondMirrors.closes arm binders member with ⟨closed, closedMem, same⟩
      exact ⟨closed, List.mem_append_right _ closedMem, same⟩

theorem Mirrors.of_resolved {scope : Scope} {events : List Event}
    (resolved : ResolvedIn scope events) : Mirrors events [] where
  declares := by
    rw [declaredBy_of_resolved resolved]
    exact .refl _
  ends := by
    rw [endedArms_of_resolved resolved]
    exact .refl _
  closes := by
    intro arm binders member
    rcases resolved _ member with ⟨action, name, equal⟩
    cases equal

theorem stmtsEvents_mirrors {stmts : List Stmt}
    (each : ∀ stmt ∈ stmts, ∀ scope, Mirrors (stmtEvents context scope stmt) stmt.allArms)
    (scope : Scope) : Mirrors (stmtsEvents context scope stmts) (Stmt.allArmsOf stmts) := by
  induction stmts with
  | nil => exact .nil
  | cons stmt stmts induction =>
      exact (each stmt (by simp) scope).append
        (induction fun other member => each other (by simp [member]))

theorem armsEvents_mirrors {byValue : Bool} {arms : List CaseArm}
    (each : ∀ arm ∈ arms, ∀ scope,
      Mirrors (stmtEvents context scope arm.getBody) arm.getBody.allArms)
    (scope : Scope) :
    Mirrors (armsEvents context scope byValue arms) (CaseArm.allArmsOf arms) := by
  induction arms with
  | nil => exact .nil
  | cons arm arms induction =>
      refine .append ?_ (induction fun other member => each other (by simp [member]))
      cases arm with
      | mk info tag patterns body =>
          have bodyMirrors : Mirrors (stmtEvents context
              (armScope scope (armBinders byValue patterns)) body) body.allArms :=
            each (.mk info tag patterns body) (by simp) _
          have binders : (armBinders byValue patterns).map Binding.decl =
              (CaseArm.mk info tag patterns body).getBindings := by
            simp [armBinders, CaseArm.getBindings, CaseArm.getPatterns, Function.comp_def]
          rw [CaseArm.allArms]
          constructor
          · rw [armEvents, List.flatMap_cons, ← binders, declaredBy, List.flatMap_cons,
              List.flatMap_append, ← declaredBy]
            simpa [Event.declared] using bodyMirrors.declares.append_left _
          · rw [endedArms_armEvents, List.map_cons]
            exact (bodyMirrors.ends.append_right _).trans (List.perm_append_singleton _ _)
          · intro ended others member
            rw [armEvents, List.mem_cons, List.mem_append, List.mem_singleton] at member
            rcases member with opens | inner | closes
            · cases opens
            · rcases bodyMirrors.closes ended others inner with ⟨closed, closedMem, same⟩
              exact ⟨closed, List.mem_cons_of_mem _ closedMem, same⟩
            · cases closes
              exact ⟨_, List.mem_cons_self, binders.symm⟩

theorem stmtEvents_mirrors (stmt : Stmt) :
    ∀ scope, Mirrors (stmtEvents context scope stmt) stmt.allArms := by
  induction stmt with
  | assignStmt info lhs rhs =>
      intro scope
      exact .of_resolved (assignEvents_resolved context scope lhs rhs)
  | blockStmt info stmts each => exact stmtsEvents_mirrors context each
  | whileStmt info condition body bodyMirrors =>
      intro scope
      exact (Mirrors.of_resolved (exprEvents_resolved context scope condition)).append
        (bodyMirrors scope)
  | ifStmt info condition thenStmt elseStmt thenMirrors elseMirrors =>
      intro scope
      refine (Mirrors.of_resolved (exprEvents_resolved context scope condition)).append
        ((thenMirrors scope).append ?_)
      cases elseStmt with
      | none => exact .nil
      | some stmt => exact elseMirrors stmt rfl scope
  | outputStmt info arg | errorStmt info arg =>
      intro scope
      exact .of_resolved (exprEvents_resolved context scope arg)
  | caseStmt info caseExpr arms each =>
      intro scope
      exact (Mirrors.of_resolved (takenEvents_resolved context scope caseExpr)).append
        (armsEvents_mirrors context each scope)

theorem functionEvents_mirrors (function : Function) :
    Mirrors (functionEvents context function) function.allArms := by
  have body : Mirrors (stmtsEvents context (functionScope function) function.stmts)
      function.allArms :=
    stmtsEvents_mirrors context (fun stmt _ => stmtEvents_mirrors context stmt) _
  have both := body.append (Mirrors.of_resolved
    (takenEvents_resolved context (functionScope function) function.returnArg))
  rwa [List.append_nil] at both

end

/-! ## Functions -/

def armIds (function : Function) : List NodeId :=
  function.allArms.map fun arm => arm.info.id

/-- The owners a plan destroys at the exit of a function. -/
def exitOwners (plan : DestructionPlan) (function : DeclNode) : List DeclNode :=
  (plan.atExit.filter fun entry => entry.1 == function).flatMap Prod.snd

section

variable {context : Context}

/-- The walk over a function, from the state of its formals to its return. -/
structure FunctionWalk (context : Context) (function : Function) (plan : DestructionPlan)
    (body final : Walk) : Prop where
  stmts : ∃ trace, analyzeStmts context function.stmts
    ⟨initialState context function.formals, [], plan, trace⟩ = .ok body
  returns : Steps context (takenEvents context (functionScope function) function.returnArg)
    body final

theorem analyzeFunction_eq_ok (enforced : context.Enforced) {function : Function}
    {plan : DestructionPlan} {trace : List MoveTraceEvent} {walk : Walk}
    (result : analyzeFunction context function plan trace = .ok walk) :
    ∃ body final, FunctionWalk context function plan body final ∧
      walk.plan.atArmEnd = final.plan.atArmEnd ∧
      walk.plan.atExit = final.plan.atExit ++ [(function.decl, ownersByName final.state)] ∧
      walk.state = final.state := by
  rw [analyzeFunction, bind_eq_ok] at result
  rcases result with ⟨body, stmts, result⟩
  rw [bind_eq_ok] at result
  rcases result with ⟨final, returned, finished⟩
  cases finished
  have steps := evalTaken_steps enforced.rules (functionScope function) returned
  exact ⟨body, final, ⟨⟨trace, stmts⟩, steps.state, steps.atExit, steps.atArmEnd⟩, rfl, rfl, rfl⟩

theorem FunctionWalk.grows (enforced : context.Enforced) {function : Function}
    {plan : DestructionPlan} {body final : Walk}
    (walk : FunctionWalk context function plan body final) :
    Grows context (stmtsEvents context (functionScope function) function.stmts)
      plan final.plan := by
  rcases walk.stmts with ⟨trace, stmts⟩
  have bodyGrows := analyzeStmts_grows (fun stmt _ => stmtGrows enforced.rules stmt)
    (functionScope function) _ body stmts
  have returnGrows : Grows context [] body.plan final.plan := .of_steps walk.returns
  have both := bodyGrows.append returnGrows
  rwa [List.append_nil] at both

theorem analyzeFunction_armEndOwners (enforced : context.Enforced) {function : Function}
    {plan : DestructionPlan} {trace : List MoveTraceEvent} {walk : Walk}
    (result : analyzeFunction context function plan trace = .ok walk) {arm : NodeId}
    (elsewhere : arm ∉ armIds function) :
    armEndOwners walk.plan arm = armEndOwners plan arm := by
  rcases analyzeFunction_eq_ok enforced result with ⟨body, final, functionWalk, atArmEnd, _, _⟩
  have mirrors : Mirrors (stmtsEvents context (functionScope function) function.stmts)
      function.allArms :=
    stmtsEvents_mirrors context (fun stmt _ => stmtEvents_mirrors context stmt) _
  rw [armEndOwners, atArmEnd]
  refine (functionWalk.grows enforced).armEndOwners_eq fun member => elsewhere ?_
  exact (mirrors.ends.mem_iff).mp member

theorem analyzeFunction_exitOwners (enforced : context.Enforced) {function : Function}
    {plan : DestructionPlan} {trace : List MoveTraceEvent} {walk : Walk}
    (result : analyzeFunction context function plan trace = .ok walk) (decl : DeclNode) :
    exitOwners walk.plan decl =
      exitOwners plan decl ++ if function.decl = decl then ownersByName walk.state else [] := by
  rcases analyzeFunction_eq_ok enforced result with
    ⟨body, final, functionWalk, _, atExit, sameState⟩
  rw [exitOwners, atExit, (functionWalk.grows enforced).atExit, List.filter_append,
    List.flatMap_append, ← exitOwners, sameState]
  by_cases same : function.decl = decl <;> simp [same]

end

/-! ## Programs -/

section

variable {symbols : SymbolTable} {types : TypeResults} {callEffect : NodeId → Option CallEffect}

variable (types callEffect) in
theorem contextOf_enforced (canonical : symbols.Canonical) (function : Function) :
    (contextOf .allEnabled symbols types callEffect function).Enforced :=
  ⟨rfl, canonical⟩

/-- Functions elsewhere leave the entries of an arm and of a function alone. -/
theorem analyzeFunctions_elsewhere (canonical : symbols.Canonical) {functions : List Function} :
    ∀ {start final},
      analyzeFunctions .allEnabled symbols types callEffect start functions = .ok final →
      (∀ arm, (∀ function ∈ functions, arm ∉ armIds function) →
        armEndOwners final.1 arm = armEndOwners start.1 arm) ∧
      (∀ decl, decl ∉ functions.map Function.decl →
        exitOwners final.1 decl = exitOwners start.1 decl) := by
  induction functions with
  | nil =>
      intro start final result
      cases result
      exact ⟨fun _ _ => rfl, fun _ _ => rfl⟩
  | cons function functions induction =>
      intro start final result
      rw [analyzeFunctions, List.foldlM_cons, bind_eq_ok] at result
      rcases result with ⟨mid, first, rest⟩
      rw [bind_eq_ok] at first
      rcases first with ⟨walk, analyzed, finished⟩
      cases finished
      have enforced := contextOf_enforced types callEffect canonical function
      have later := induction rest
      constructor
      · intro arm elsewhere
        rw [later.1 arm fun other member => elsewhere other (by simp [member])]
        exact analyzeFunction_armEndOwners enforced analyzed (elsewhere function (by simp))
      · intro decl elsewhere
        rw [List.map_cons, List.mem_cons, not_or] at elsewhere
        rw [later.2 decl elsewhere.2, analyzeFunction_exitOwners enforced analyzed,
          if_neg (Ne.symm elsewhere.1), List.append_nil]

/-- What the final plan lists for a function and its arms is what the walk over
that function found. -/
theorem analyzeFunctions_visit (canonical : symbols.Canonical) {functions : List Function} :
    ∀ {start final},
      analyzeFunctions .allEnabled symbols types callEffect start functions = .ok final →
      (functions.map Function.decl).Nodup → (functions.flatMap armIds).Nodup →
      (∀ function ∈ functions, ∀ arm ∈ armIds function, armEndOwners start.1 arm = []) →
      (∀ function ∈ functions, exitOwners start.1 function.decl = []) →
      ∀ function ∈ functions, ∃ plan trace walk,
        analyzeFunction (contextOf .allEnabled symbols types callEffect function) function
          plan trace = .ok walk ∧
        (∀ arm ∈ armIds function, armEndOwners plan arm = []) ∧
        (∀ arm ∈ armIds function,
          armEndOwners final.1 arm = armEndOwners walk.plan arm) ∧
        exitOwners final.1 function.decl = ownersByName walk.state := by
  induction functions with
  | nil => simp
  | cons head functions induction =>
      intro start final result decls arms armsFresh exitsFresh function member
      rw [analyzeFunctions, List.foldlM_cons, bind_eq_ok] at result
      rcases result with ⟨mid, first, rest⟩
      rw [bind_eq_ok] at first
      rcases first with ⟨walk, analyzed, finished⟩
      cases finished
      have enforced := contextOf_enforced types callEffect canonical head
      have later := analyzeFunctions_elsewhere canonical rest
      rw [List.map_cons, List.nodup_cons] at decls
      rw [List.flatMap_cons, List.nodup_append] at arms
      rcases List.mem_cons.mp member with rfl | member
      · refine ⟨start.1, start.2, walk, analyzed, armsFresh function (by simp), ?_, ?_⟩
        · intro arm armMem
          refine later.1 arm fun other otherMem otherArm => ?_
          exact arms.2.2 arm armMem arm (List.mem_flatMap.mpr ⟨other, otherMem, otherArm⟩) rfl
        · rw [later.2 _ decls.1, analyzeFunction_exitOwners enforced analyzed, if_pos rfl,
            exitsFresh function (by simp), List.nil_append]
      · refine induction rest decls.2 arms.2.1 ?_ ?_ function member
        · intro other otherMem arm armMem
          have elsewhere : arm ∉ armIds head := fun headMem =>
            arms.2.2 arm headMem arm (List.mem_flatMap.mpr ⟨other, otherMem, armMem⟩) rfl
          rw [analyzeFunction_armEndOwners enforced analyzed elsewhere]
          exact armsFresh other (by simp [otherMem]) arm armMem
        · intro other otherMem
          have different : head.decl ≠ other.decl := fun same =>
            decls.1 (same ▸ List.mem_map_of_mem otherMem)
          rw [analyzeFunction_exitOwners enforced analyzed, if_neg different, List.append_nil]
          exact exitsFresh other (by simp [otherMem])

end

end Topc.MoveAnalysis
