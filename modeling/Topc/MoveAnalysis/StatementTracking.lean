import Topc.MoveAnalysis.ArmTracking

/-! # Following one variable through a function -/

open Computability

namespace Topc.MoveAnalysis

open OwnershipPaths

/-- A piece of code that meets the conditions of the analysis, and the plans from
before and after the walk over it. -/
structure Fits (context : Context) {decl : DeclNode} (tracking : Tracking decl) (scope : Scope)
    (events : List Event) (before after : DestructionPlan) : Prop where
  regular : Regular context events
  distinct : (scope.map Binding.decl ++ declaredBy events).Nodup
  arms : (endedArms events).Nodup
  fresh : ∀ arm ∈ endedArms events, armEndOwners before arm = []
  planned : ∀ arm ∈ endedArms events, tracking.planned arm = armEndOwners after arm

section

variable {context : Context} {decl : DeclNode} {tracking : Tracking decl} {scope : Scope}

namespace Fits

variable {first second events : List Event} {before mid after : DestructionPlan}

theorem distinctScope (fits : Fits context tracking scope events before after) :
    Distinct scope :=
  (List.nodup_append.mp fits.distinct).1

theorem left (fits : Fits context tracking scope (first ++ second) before after)
    (secondGrows : Grows context second mid after) :
    Fits context tracking scope first before mid where
  regular := (Regular.append_iff.mp fits.regular).1
  distinct := by
    have distinct := fits.distinct
    rw [declaredBy_append, ← List.append_assoc] at distinct
    exact (List.nodup_append.mp distinct).1
  arms := by
    have arms := fits.arms
    rw [endedArms_append] at arms
    exact (List.nodup_append.mp arms).1
  fresh := fun arm member => fits.fresh arm (by simp [member])
  planned := fun arm member => by
    have arms := fits.arms
    rw [endedArms_append] at arms
    have elsewhere : arm ∉ endedArms second := fun other =>
      (List.nodup_append.mp arms).2.2 arm member arm other rfl
    rw [fits.planned arm (by simp [member]), secondGrows.armEndOwners_eq elsewhere]

theorem right (fits : Fits context tracking scope (first ++ second) before after)
    (firstGrows : Grows context first before mid) :
    Fits context tracking scope second mid after where
  regular := (Regular.append_iff.mp fits.regular).2
  distinct := by
    have distinct := fits.distinct
    rw [declaredBy_append] at distinct
    exact distinct.sublist ((List.sublist_append_right _ _).append_left _)
  arms := by
    have arms := fits.arms
    rw [endedArms_append] at arms
    exact (List.nodup_append.mp arms).2.1
  fresh := fun arm member => by
    have arms := fits.arms
    rw [endedArms_append] at arms
    have elsewhere : arm ∉ endedArms first := fun other =>
      (List.nodup_append.mp arms).2.2 arm other arm member rfl
    rw [firstGrows.armEndOwners_eq elsewhere, fits.fresh arm (by simp [member])]
  planned := fun arm member => fits.planned arm (by simp [member])

/-- The conditions of an arm, for its body in the scope of its binders. -/
theorem armBody {byValue : Bool} {patterns : List Pattern} {info : NodeInfo} {tag : String}
    {body : Stmt} (fits : Fits context tracking scope
      (armEvents context scope byValue (.mk info tag patterns body)) before after)
    (grows : Grows context [.leaveArm info.id (armBinders byValue patterns)] mid after) :
    Fits context tracking (armScope scope (armBinders byValue patterns))
      (stmtEvents context (armScope scope (armBinders byValue patterns)) body) before mid where
  regular := (Regular.append_iff.mp (Regular.cons_iff.mp fits.regular).2).1
  distinct := by
    have distinct := fits.distinct
    rw [armEvents, declaredBy, List.flatMap_cons, List.flatMap_append, ← declaredBy] at distinct
    simp only [Event.declared, List.flatMap_cons, List.flatMap_nil, List.append_nil] at distinct
    rw [armScope, List.map_append, List.map_reverse, List.append_assoc]
    refine (List.Perm.nodup_iff ?_).mp distinct
    rw [← List.append_assoc, ← List.append_assoc]
    exact (List.perm_append_comm.trans
      (List.Perm.append_right _ (List.reverse_perm _).symm)).append_right _
  arms := by
    have arms := fits.arms
    rw [endedArms_armEvents] at arms
    exact (List.nodup_append.mp arms).1
  fresh := fun arm member => fits.fresh arm (by
    rw [endedArms_armEvents]
    exact List.mem_append_left _ member)
  planned := fun arm member => by
    have arms := fits.arms
    rw [endedArms_armEvents] at arms
    have elsewhere : arm ∉ [info.id] := fun other =>
      (List.nodup_append.mp arms).2.2 arm member arm other rfl
    rw [← grows.armEndOwners_eq elsewhere]
    refine fits.planned arm ?_
    rw [endedArms_armEvents]
    exact List.mem_append_left _ member

/-- What the final plan lists for an arm is what its walk found still owned. -/
theorem armPlanned {byValue : Bool} {patterns : List Pattern} {info : NodeInfo} {tag : String}
    {body : Stmt} {ended : Walk} (fits : Fits context tracking scope
      (armEvents context scope byValue (.mk info tag patterns body)) before
      (planArmEnd context info.id
        (ownedBinders context (Pattern.collectAllBindings patterns) byValue) ended).plan)
    (grows : Grows context (stmtEvents context (armScope scope (armBinders byValue patterns)) body)
      before ended.plan) :
    tracking.planned info.id =
      (ownedBinders context (Pattern.collectAllBindings patterns) byValue).filter
        fun binder => ownedIn ended.state (binderKey context binder) := by
  have arms := fits.arms
  rw [endedArms_armEvents] at arms
  have elsewhere : info.id ∉ endedArms
      (stmtEvents context (armScope scope (armBinders byValue patterns)) body) := fun other =>
    (List.nodup_append.mp arms).2.2 info.id other info.id (by simp) rfl
  have member : info.id ∈ endedArms
      (armEvents context scope byValue (.mk info tag patterns body)) := by
    rw [endedArms_armEvents]
    exact List.mem_append_right _ (by simp)
  rw [fits.planned info.id member, armEndOwners_planArmEnd,
    grows.armEndOwners_eq elsewhere, fits.fresh info.id member, List.nil_append]

end Fits

/-! ## Statements -/

/-- Along every path of the statement the monitor permits each event, and the
entry after the analysis follows the status at the end of the path. -/
def StmtTracks (context : Context) {decl : DeclNode} (tracking : Tracking decl)
    (stmt : Stmt) : Prop :=
  ∀ scope rest hidden before after, Monitor.Feasible rest →
    Fits context tracking scope (stmtEvents context scope stmt) before.plan after.plan →
    stmtLoops context tracking.allowed scope stmt rest →
    analyzeStmt context stmt before = .ok after →
    tracking.monitor.Triple
      (Tracks context tracking scope (stmtPaths context scope stmt * rest) hidden before.state)
      (stmtPaths context scope stmt)
      (Tracks context tracking scope rest hidden after.state)

variable (tracking) in
theorem eventsTriple (hidden : Option OwnershipState) (enforced : context.Enforced)
    (own : context.isOwn decl = true) (distinct : Distinct scope) {events : List Event}
    {rest : Language Event} {before after : Walk}
    (feasible : Monitor.Feasible rest) (resolved : ResolvedIn scope events)
    (regular : Regular context events) (steps : Steps context events before after) :
    tracking.monitor.Triple (Tracks context tracking scope ({events} * rest) hidden before.state)
      {events} (Tracks context tracking scope rest hidden after.state) := by
  intro status tracks path member
  rcases Set.mem_singleton_iff.mp member with rfl
  exact tracks.events enforced distinct own feasible resolved regular steps.state

theorem analyzeStmts_tracks (enforced : context.Enforced) {stmts : List Stmt}
    (each : ∀ stmt ∈ stmts, StmtTracks context tracking stmt) :
    ∀ rest hidden before after, Monitor.Feasible rest →
      Fits context tracking scope (stmtsEvents context scope stmts) before.plan after.plan →
      stmtsLoops context tracking.allowed scope stmts rest →
      analyzeStmts context stmts before = .ok after →
      tracking.monitor.Triple
        (Tracks context tracking scope (stmtsPaths context scope stmts * rest) hidden before.state)
        (stmtsPaths context scope stmts)
        (Tracks context tracking scope rest hidden after.state) := by
  induction stmts with
  | nil =>
      intro rest hidden before after _ _ _ result
      cases result
      rw [stmtsPaths, one_mul]
      exact .one fun _ tracks => tracks
  | cons stmt stmts induction =>
      intro rest hidden before after feasible fits loops result
      rw [analyzeStmts, bind_eq_ok] at result
      rcases result with ⟨mid, first, remaining⟩
      rw [stmtsEvents] at fits
      have firstGrows := stmtGrows enforced.rules stmt scope before mid first
      have restGrows := analyzeStmts_grows (fun stmt _ => stmtGrows enforced.rules stmt)
        scope mid after remaining
      rw [stmtsPaths, mul_assoc]
      have restFeasible : Monitor.Feasible (stmtsPaths context scope stmts * rest) :=
        (stmtsPaths_feasible context (fun stmt _ => stmtPaths_feasible context stmt) scope).mul
          feasible
      exact .mul (each stmt (by simp) scope _ hidden before mid restFeasible
          (fits.left restGrows) loops.1 first)
        (induction (fun other member => each other (by simp [member])) rest hidden mid after
          feasible (fits.right firstGrows) loops.2 remaining)

theorem analyzeArm_tracks (enforced : context.Enforced) (own : context.isOwn decl = true)
    {byValue : Bool} {arm : CaseArm} (bodyTracks : StmtTracks context tracking arm.getBody)
    (rest : Language Event) (hidden : Option OwnershipState) (before after : Walk)
    (feasible : Monitor.Feasible rest)
    (fits : Fits context tracking scope (armEvents context scope byValue arm)
      before.plan after.plan)
    (loops : armLoops context tracking.allowed scope byValue arm rest)
    (result : analyzeArm context byValue arm before = .ok after) :
    tracking.monitor.Triple
      (Tracks context tracking scope (armPaths context scope byValue arm * rest) hidden
        before.state)
      (armPaths context scope byValue arm)
      (Tracks context tracking scope rest hidden after.state) := by
  cases arm with
  | mk info tag patterns body =>
      rw [analyzeArm, bind_eq_ok] at result
      rcases result with ⟨ended, bodyResult, finished⟩
      cases finished
      have regular := Regular.cons_iff.mp fits.regular
      have agree := regular.1.1
      have bodyGrows := stmtGrows enforced.rules body
        (armScope scope (armBinders byValue patterns)) _ ended bodyResult
      rw [enterArm_plan] at bodyGrows
      have bodyFits := fits.armBody (planArmEnd_grows context info.id byValue patterns ended)
      have planned := fits.armPlanned bodyGrows
      have distinct := bodyFits.distinctScope
      have settled : Settled context (armScope scope (armBinders byValue patterns))
          (binderKey context decl) → entryOf context ended.state decl = entryOf context
            (enterArm context info.line
              (ownedBinders context (Pattern.collectAllBindings patterns) byValue)
              before).1.state decl := fun settled =>
        stmtSettles enforced body _ _ _ ended settled bodyFits.regular bodyResult
      intro status tracks path member
      rcases Language.mem_mul.mp member with ⟨front, frontMem, last, lastMem, rfl⟩
      rcases Language.mem_mul.mp frontMem with ⟨first, firstMem, bodyPath, bodyMem, rfl⟩
      rcases Set.mem_singleton_iff.mp firstMem with rfl
      rcases Set.mem_singleton_iff.mp lastMem with rfl
      have entering := tracks
      rw [armPaths, mul_assoc, mul_assoc] at entering
      have entered := entering.enter enforced distinct own agree info.line
      have bodyHolds := bodyTracks _ _ _ _ ended ((Monitor.Feasible.singleton _).mul feasible)
        (by rw [enterArm_plan]; exact bodyFits) loops
        bodyResult _ entered.2 bodyPath bodyMem
      have outer := tracks.mono (mul_le_mul_left (Monitor.singleton_le member) rest)
      have unseenBody : decl ∈ scope.map Binding.decl →
          Unseen decl (armScope scope (armBinders byValue patterns)) →
          ∀ event ∈ bodyPath, concerns decl event = false := by
        intro inScope unseen
        have inArmScope : decl ∈ (armScope scope (armBinders byValue patterns)).map
            Binding.decl := by
          rw [armScope, List.map_append]
          exact List.mem_append_right _ inScope
        have undeclared := fun declared =>
          (List.nodup_append.mp bodyFits.distinct).2.2 decl inArmScope decl declared rfl
        intro event eventMem
        exact stmtEvents_unseen body _ unseen undeclared event
          (stmtPaths_within context body _ bodyPath bodyMem event eventMem)
      have leaving := outer.leave enforced distinct own agree (by rw [planned]) settled unseenBody
        bodyHolds.2
      rw [Monitor.safe_append, Monitor.safe_append, Monitor.run_append, Monitor.run_append]
      rw [← planArmEnd_state context info.id _ ended] at leaving
      exact ⟨⟨⟨⟨entered.1, trivial⟩, bodyHolds.1⟩, leaving.1, trivial⟩, leaving.2⟩

theorem analyzeArms_tracks (enforced : context.Enforced) (own : context.isOwn decl = true)
    {byValue : Bool} {start joined : StateMap} {branches : List StateMap} {arms : List CaseArm}
    (each : ∀ arm ∈ arms, StmtTracks context tracking arm.getBody)
    (join : joinStates context branches = .ok joined)
    (rest : Language Event) (hidden : Option OwnershipState)
    (feasible : Monitor.Feasible rest) : ∀ (before : Walk) result,
      Fits context tracking scope (armsEvents context scope byValue arms) before.plan
        result.1.plan →
      armsLoops context tracking.allowed scope byValue arms rest →
      analyzeArms context byValue start arms before = .ok result →
      (∀ state ∈ result.2, state ∈ branches) →
      tracking.monitor.Triple
        (Tracks context tracking scope (armsPaths context scope byValue arms * rest) hidden start)
        (armsPaths context scope byValue arms)
        (Tracks context tracking scope rest hidden joined) := by
  induction arms with
  | nil =>
      intro before result _ _ _ _
      rw [armsPaths]
      exact .zero
  | cons arm arms induction =>
      intro before result fits loops analyzed among
      rw [analyzeArms, bind_eq_ok] at analyzed
      rcases analyzed with ⟨mid, first, analyzed⟩
      rw [bind_eq_ok] at analyzed
      rcases analyzed with ⟨remaining, restResult, finished⟩
      cases finished
      rw [armsEvents] at fits
      have firstGrows := analyzeArm_grows (stmtGrows enforced.rules arm.getBody) scope first
      have restGrows := analyzeArms_grows (fun arm _ => stmtGrows enforced.rules arm.getBody)
        scope mid remaining restResult
      have head := analyzeArm_tracks enforced own (each arm (by simp)) rest hidden
        { before with state := start } mid feasible (fits.left restGrows) loops.1 first
      have tail := induction (fun other member => each other (by simp [member])) mid remaining
        (fits.right firstGrows) loops.2 restResult
        (fun state member => among state (List.mem_cons_of_mem _ member))
      rw [armsPaths, add_mul]
      refine .add ?_ ?_
      · exact head.consequence (fun _ tracks => tracks.mono le_self_add)
          (fun _ tracks => tracks.join enforced.rules join (among _ (by simp)))
      · exact tail.consequence (fun _ tracks => tracks.mono le_add_self) (fun _ tracks => tracks)

theorem analyzeElse_tracks {elseStmt : Option Stmt}
    (each : ∀ stmt ∈ elseStmt, StmtTracks context tracking stmt)
    (rest : Language Event) (hidden : Option OwnershipState) (before after : Walk)
    (feasible : Monitor.Feasible rest)
    (fits : Fits context tracking scope (elseEvents context scope elseStmt)
      before.plan after.plan)
    (loops : elseLoops context tracking.allowed scope elseStmt rest)
    (result : analyzeElse context elseStmt before = .ok after) :
    tracking.monitor.Triple
      (Tracks context tracking scope (elsePaths context scope elseStmt * rest) hidden before.state)
      (elsePaths context scope elseStmt)
      (Tracks context tracking scope rest hidden after.state) := by
  cases elseStmt with
  | none =>
      cases result
      rw [elsePaths, one_mul]
      exact .one fun _ tracks => tracks
  | some stmt =>
      rw [analyzeElse] at result
      exact each stmt rfl scope rest hidden before after feasible fits loops result

/-- The paths still to come whenever the condition of a loop is about to be evaluated. -/
theorem exit_loopPaths_mul (condition body rest : Language Event) :
    condition * rest ≤ loopPaths condition body * rest :=
  mul_le_mul_left (exit_loopPaths condition body) rest

/-- Each iteration of a loop keeps the entries from before the loop. -/
theorem whileStmt_iterates (enforced : context.Enforced) (own : context.isOwn decl = true)
    {condition : Expr} {body : Stmt} (bodyTracks : StmtTracks context tracking body)
    {rest : Language Event} {hidden : Option OwnershipState} {line : Nat}
    {before condWalk bodyWalk : Walk} (feasible : Monitor.Feasible rest)
    (fits : Fits context tracking scope
      (exprEvents context scope condition ++ stmtEvents context scope body)
      before.plan bodyWalk.plan)
    (permitted : tracking.allowed {exprEvents context scope condition}
      (stmtPaths context scope body) rest)
    (loops : stmtLoops context tracking.allowed scope body
      (loopPaths {exprEvents context scope condition} (stmtPaths context scope body) * rest))
    (steps : Steps context (exprEvents context scope condition) before condWalk)
    (bodyResult : analyzeStmt context body condWalk = .ok bodyWalk)
    (invariant : assertLoopInvariant context before.state bodyWalk.state line = .ok ()) :
    tracking.monitor.Triple
      (Tracks context tracking scope
        (loopPaths {exprEvents context scope condition} (stmtPaths context scope body) * rest)
        hidden before.state)
      ({exprEvents context scope condition} * stmtPaths context scope body)
      (Tracks context tracking scope
        (loopPaths {exprEvents context scope condition} (stmtPaths context scope body) * rest)
        hidden before.state) := by
  have bodyGrows := stmtGrows enforced.rules body scope condWalk bodyWalk bodyResult
  have condGrows : Grows context (exprEvents context scope condition) before.plan
      condWalk.plan := Grows.of_steps steps
  have condFits := fits.left bodyGrows
  have bodyFits := fits.right condGrows
  let head : Language Event :=
    loopPaths {exprEvents context scope condition} (stmtPaths context scope body) * rest
  have iterate : {exprEvents context scope condition} * (stmtPaths context scope body * head) ≤
      head := by
    rw [← mul_assoc, ← mul_assoc]
    exact mul_le_mul_left (iterate_loopPaths _ _) rest
  have headFeasible : Monitor.Feasible head :=
    .mono (exit_loopPaths_mul _ _ _) ((Monitor.Feasible.singleton _).mul feasible)
  have test : tracking.monitor.Triple
      (Tracks context tracking scope
        ({exprEvents context scope condition} * (stmtPaths context scope body * head)) hidden
        before.state)
      {exprEvents context scope condition}
      (Tracks context tracking scope (stmtPaths context scope body * head) hidden
        condWalk.state) :=
    eventsTriple tracking _ enforced own condFits.distinctScope
      ((stmtPaths_feasible context body scope).mul headFeasible)
      (exprEvents_resolved context scope condition) condFits.regular steps
  have bodyTriple := bodyTracks scope head hidden condWalk bodyWalk headFeasible bodyFits
    loops bodyResult
  intro status tracks path member
  have result := (test.mul bodyTriple) status (tracks.mono iterate) path member
  have owned := assertLoopInvariant_owned_iff enforced.rules invariant
  exact ⟨result.1, result.2.unbound, result.2.hidden, result.2.aliased, fun owner =>
    tracking.looped permitted member (owned _) (tracks.visible owner) (result.2.visible owner)⟩

/-- The iterations of a loop keep the entries from before it. -/
theorem whileStmt_tracks (enforced : context.Enforced) (own : context.isOwn decl = true)
    (info : NodeInfo) (condition : Expr) {body : Stmt}
    (bodyTracks : StmtTracks context tracking body) :
    StmtTracks context tracking (.whileStmt info condition body) := by
  intro scope rest hidden before after feasible fits loops result
  rcases analyzeStmt_while enforced.rules scope result with
    ⟨condWalk, bodyWalk, steps, sameState, bodyResult, invariant, rfl⟩
  rw [stmtEvents] at fits
  have loopFits : Fits context tracking scope
      (exprEvents context scope condition ++ stmtEvents context scope body) before.plan
      bodyWalk.plan := fits
  have condFits := loopFits.left (stmtGrows enforced.rules body scope condWalk bodyWalk bodyResult)
  have test : tracking.monitor.Triple
      (Tracks context tracking scope ({exprEvents context scope condition} * rest) hidden
        before.state)
      {exprEvents context scope condition}
      (Tracks context tracking scope rest hidden condWalk.state) :=
    eventsTriple tracking _ enforced own condFits.distinctScope feasible
      (exprEvents_resolved context scope condition) condFits.regular steps
  rw [sameState] at test
  have exit := test.consequence
    (fun _ tracks => Tracks.mono (exit_loopPaths_mul _ (stmtPaths context scope body) _) tracks)
    (fun _ tracks => tracks)
  have iteration : tracking.monitor.Triple
      (Tracks context tracking scope (stmtPaths context scope (.whileStmt info condition body) * rest)
        hidden before.state) _ _ :=
    whileStmt_iterates enforced own bodyTracks feasible loopFits loops.1 loops.2 steps bodyResult
      invariant
  exact (Monitor.Triple.kstar iteration).mul exit

theorem stmtTracks (enforced : context.Enforced) (own : context.isOwn decl = true)
    (stmt : Stmt) : StmtTracks context tracking stmt := by
  induction stmt with
  | assignStmt info lhs rhs =>
      intro scope rest hidden before after feasible fits loops result
      exact eventsTriple tracking _ enforced own fits.distinctScope feasible
        (assignEvents_resolved context scope lhs rhs) fits.regular
        (analyzeStmt_assign enforced.rules scope result)
  | blockStmt info stmts each =>
      intro scope rest hidden before after feasible fits loops result
      rw [analyzeStmt] at result
      exact analyzeStmts_tracks enforced each rest hidden { before with movedInStmt := [] } after
        feasible fits loops result
  | whileStmt info condition body bodyTracks =>
      exact whileStmt_tracks enforced own info condition bodyTracks
  | ifStmt info condition thenStmt elseStmt thenTracks elseTracks =>
      intro scope rest hidden before after feasible fits loops result
      rcases analyzeStmt_if enforced.rules scope result with
        ⟨condWalk, thenWalk, elseWalk, joined, steps, thenResult, elseResult, join, rfl⟩
      rw [stmtEvents] at fits
      have thenGrows := stmtGrows enforced.rules thenStmt scope condWalk thenWalk thenResult
      have elseGrows := analyzeElse_grows (fun stmt _ => stmtGrows enforced.rules stmt) scope
        elseResult
      have branchesGrow := thenGrows.append elseGrows
      have condFits := fits.left branchesGrow
      have branchFits := fits.right (Grows.of_steps steps)
      rw [stmtPaths, mul_assoc]
      have branchesFeasible : Monitor.Feasible
          ((stmtPaths context scope thenStmt + elsePaths context scope elseStmt) * rest) :=
        (Monitor.Feasible.mono le_self_add (stmtPaths_feasible context thenStmt scope)).mul feasible
      refine .mul (eventsTriple tracking _ enforced own condFits.distinctScope branchesFeasible
        (exprEvents_resolved context scope condition) condFits.regular steps) ?_
      have thenTriple := thenTracks scope rest hidden condWalk thenWalk feasible
        (branchFits.left elseGrows) loops.1 thenResult
      have elseTriple := analyzeElse_tracks elseTracks rest hidden
        { thenWalk with state := condWalk.state } elseWalk feasible (branchFits.right thenGrows)
        loops.2 elseResult
      rw [add_mul]
      refine .add ?_ ?_
      · exact thenTriple.consequence (fun _ tracks => tracks.mono le_self_add)
          (fun _ tracks => tracks.join enforced.rules join (by simp))
      · exact elseTriple.consequence (fun _ tracks => tracks.mono le_add_self)
          (fun _ tracks => tracks.join enforced.rules join (by simp))
  | outputStmt info arg | errorStmt info arg =>
      intro scope rest hidden before after feasible fits loops result
      rw [analyzeStmt] at result
      exact eventsTriple tracking _ enforced own fits.distinctScope feasible
        (exprEvents_resolved context scope arg) fits.regular
        (evalFirst_steps enforced.rules scope result)
  | caseStmt info caseExpr arms each =>
      intro scope rest hidden before after feasible fits loops result
      rcases analyzeStmt_case enforced.rules scope result with ⟨matched, steps, analyzed⟩
      have resolved := takenEvents_resolved context scope caseExpr
      rw [stmtEvents] at fits
      have takenFits := (Regular.append_iff.mp fits.regular).1
      rcases analyzed with ⟨rfl, rfl⟩ | ⟨armsWalk, states, nonempty, armsResult, join, samePlan⟩
      · exact eventsTriple tracking _ enforced own fits.distinctScope feasible resolved takenFits steps
      · rw [samePlan] at fits
        have armsTriple := analyzeArms_tracks enforced own each join rest hidden feasible matched _
          (fits.right (Grows.of_steps steps)) loops armsResult (fun _ member => member)
        cases arms with
        | nil =>
            cases armsResult
            exact absurd rfl nonempty
        | cons arm arms =>
            have armsFeasible := armsPaths_feasible context scope (!caseExpr.isDeRef) arm arms
            rw [stmtPaths, mul_assoc]
            exact .mul (eventsTriple tracking _ enforced own fits.distinctScope (armsFeasible.mul feasible)
              resolved takenFits steps) armsTriple

end

end Topc.MoveAnalysis
