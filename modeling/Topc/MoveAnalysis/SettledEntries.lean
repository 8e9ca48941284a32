import Topc.MoveAnalysis.HiddenVariables

/-! # Entries the analysis leaves alone

The entry of a key can change only while the key's name stands for an owner. -/

namespace Topc.MoveAnalysis

open OwnershipPaths

section

variable {context : Context} {scope : Scope}

/-- No occurrence in the scope is kept under the key. -/
def Settled (context : Context) (scope : Scope) (key : DeclNode) : Prop :=
  context.resolveVar key.name = some key → scope.owner context key.name = none

/-- The owner a resolved event concerns, where the symbol table finds one too. -/
theorem owner_of_access (canonical : context.symbols.Canonical) {action : Action} {name : String}
    {key : DeclNode} (names : (access scope action name).NamesAgree context)
    (position : (access scope action name).PositionAllowed context)
    (resolved : (context.resolveVar name).filter context.isOwn = some key) :
    key.name = name ∧ ∃ binding, scope.lookup name = some binding ∧
      context.isOwn binding.decl = true ∧ action ≠ .storeBorrow ∧
      (binding.isAlias = true → action = .use) ∧
      (binding.isAlias = false → scope.owner context name = some binding.decl) := by
  rw [Option.filter_eq_some_iff] at resolved
  have keyName := resolveVar_name canonical resolved.1
  cases found : scope.lookup name with
  | none => simp [access, Event.NamesAgree, found, resolved] at names
  | some binding =>
      have own : context.isOwn binding.decl = true := by
        simpa [access, Event.NamesAgree, found, resolved] using names
      simp only [access, found, Event.PositionAllowed] at position
      refine ⟨keyName, binding, rfl, own, position.1, position.2 own, fun notAlias => ?_⟩
      exact Scope.owner_of_lookup found (by simp [Binding.owns, own, notAlias])

theorem stepEvent_settled (canonical : context.symbols.Canonical) {key : DeclNode}
    (settled : Settled context scope key) {action : Action} {name : String}
    (names : (access scope action name).NamesAgree context)
    (position : (access scope action name).PositionAllowed context) {before after : StateMap}
    (step : stepEvent context before (access scope action name) = some after) :
    after[key]? = before[key]? := by
  cases resolved : (context.resolveVar name).filter context.isOwn with
  | none =>
      simp only [stepEvent, access, resolved] at step
      cases step
      rfl
  | some other =>
      rcases owner_of_access canonical names position resolved with
        ⟨otherName, binding, found, _, notBorrow, aliased, owned⟩
      cases use : decide (action = .use) with
      | true =>
          cases of_decide_eq_true use
          simp only [stepEvent, access, resolved] at step
          split at step <;> cases step
          rfl
      | false =>
          have notAlias : binding.isAlias = false := by
            cases isAlias : binding.isAlias with
            | false => rfl
            | true => exact absurd (aliased isAlias) (of_decide_eq_false use)
          have different : other ≠ key := by
            intro equal
            subst equal
            have resolvedOther := (Option.filter_eq_some_iff.mp resolved).1
            have noOwner := settled (otherName.symm ▸ resolvedOther)
            rw [otherName, owned notAlias] at noOwner
            cases noOwner
          cases action with
          | use => simp at use
          | storeBorrow => exact absurd rfl notBorrow
          | take | store =>
              simp only [stepEvent, access, resolved] at step
              split at step <;> cases step
              rw [Std.ExtTreeMap.getElem?_insert]
              simp [different]

theorem stepEvents_settled (canonical : context.symbols.Canonical) {key : DeclNode}
    (settled : Settled context scope key) {events : List Event}
    (resolved : ResolvedIn scope events) (regular : Regular context events) :
    ∀ {before after}, stepEvents context before events = some after →
      after[key]? = before[key]? := by
  induction events with
  | nil =>
      intro before after steps
      cases steps
      rfl
  | cons event events induction =>
      intro before after steps
      rw [stepEvents, List.foldlM_cons, Option.bind_eq_bind, Option.bind_eq_some_iff] at steps
      rcases steps with ⟨mid, first, rest⟩
      rcases resolved event (by simp) with ⟨action, name, rfl⟩
      rcases Regular.cons_iff.mp regular with ⟨⟨names, position⟩, restRegular⟩
      have tail := induction (fun other member => resolved other (by simp [member])) restRegular rest
      exact tail.trans (stepEvent_settled canonical settled names position first)

theorem Steps.settled (canonical : context.symbols.Canonical) {key : DeclNode}
    (settled : Settled context scope key) {events : List Event}
    (resolved : ResolvedIn scope events) (regular : Regular context events)
    {before after : Walk} (steps : Steps context events before after) :
    after.state[key]? = before.state[key]? :=
  stepEvents_settled canonical settled resolved regular steps.state

/-! ## Arms -/

/-- A key that no binder of an arm is kept under is settled inside the arm if it
is outside. -/
theorem Settled.armScope {key : DeclNode}
    (settled : Settled context scope key) {byValue : Bool} {patterns : List Pattern}
    (unbound : key ∉ (ownedBinders context (Pattern.collectAllBindings patterns) byValue).map
      (binderKey context)) :
    Settled context (armScope scope (armBinders byValue patterns)) key := by
  intro resolved
  rw [OwnershipPaths.armScope, Scope.owner_append, settled resolved]
  suffices none : Scope.owner context (armBinders byValue patterns).reverse key.name = none by
    rw [none]
    rfl
  rw [Scope.owner_eq_none]
  intro binding member owns same
  refine unbound (List.mem_map.mpr ⟨binding.decl, ?_, ?_⟩)
  · rw [ownedBinders_eq]
    exact List.mem_map_of_mem (List.mem_filter.mpr ⟨List.mem_reverse.mp member, owns⟩)
  · simp [binderKey, same, resolved]

/-! ## Statements -/

/-- A statement leaves the entries of settled keys alone. -/
def StmtSettles (context : Context) (stmt : Stmt) : Prop :=
  ∀ scope key before after, Settled context scope key →
    Regular context (stmtEvents context scope stmt) →
    analyzeStmt context stmt before = .ok after → after.state[key]? = before.state[key]?

theorem joinStates_settled (rules : context.rules = .allEnabled) {branches : List StateMap}
    {joined : StateMap} {key : DeclNode} {previous : Option OwnershipState}
    (nonempty : branches ≠ []) (join : joinStates context branches = .ok joined)
    (each : ∀ branch ∈ branches, branch[key]? = previous) :
    joined[key]? = previous := by
  rcases List.exists_mem_of_ne_nil branches nonempty with ⟨branch, member⟩
  have same := each branch member
  have owned := joinStates_owned_iff rules join member key
  cases entry : joined[key]? with
  | none =>
      cases previous with
      | none => rfl
      | some status =>
          cases status with
          | owned => rw [entry, same] at owned; simp at owned
          | moved =>
              have moved := joinStates_moved rules join member same
              rw [entry] at moved
              cases moved
  | some status =>
      cases status with
      | owned => rw [← same, owned.mp entry]
      | moved =>
          have result := joinStates_eq_ok rules nonempty join key
          rw [result.2, joinedEntry] at entry
          split at entry
          · cases entry
          · split at entry
            · rename_i any
              rcases List.any_eq_true.mp any with ⟨other, otherMem, otherMoved⟩
              rw [← each other otherMem, (movedIn_iff _ _).mp otherMoved]
            · cases entry

theorem analyzeStmts_settles {stmts : List Stmt} (each : ∀ stmt ∈ stmts, StmtSettles context stmt) :
    ∀ scope key before after, Settled context scope key →
      Regular context (stmtsEvents context scope stmts) →
      analyzeStmts context stmts before = .ok after → after.state[key]? = before.state[key]? := by
  induction stmts with
  | nil =>
      intro scope key before after _ _ result
      cases result
      rfl
  | cons stmt stmts induction =>
      intro scope key before after settled regular result
      rw [analyzeStmts, bind_eq_ok] at result
      rcases result with ⟨mid, first, rest⟩
      rcases Regular.append_iff.mp regular with ⟨headRegular, tailRegular⟩
      exact (induction (fun other member => each other (by simp [member])) scope key mid after
        settled tailRegular rest).trans
        (each stmt (by simp) scope key before mid settled headRegular first)

theorem analyzeArm_settles (canonical : context.symbols.Canonical) {byValue : Bool}
    {arm : CaseArm} (bodySettles : StmtSettles context arm.getBody) {key : DeclNode}
    (settled : Settled context scope key)
    (regular : Regular context (armEvents context scope byValue arm)) {before after : Walk}
    (result : analyzeArm context byValue arm before = .ok after) :
    after.state[key]? = before.state[key]? := by
  cases arm with
  | mk info tag patterns armBody =>
      rw [analyzeArm, bind_eq_ok] at result
      rcases result with ⟨ended, bodyResult, finished⟩
      cases finished
      rcases Regular.cons_iff.mp regular with ⟨⟨distinct, _⟩, restRegular⟩
      have bodyRegular := (Regular.append_iff.mp restRegular).1
      rw [restore_entry context info.line _ key before _
        (binderKeys_nodup canonical distinct), planArmEnd_state]
      split
      · rfl
      · rename_i unbound
        have body := bodySettles _ key _ ended (settled.armScope unbound) bodyRegular
          bodyResult
        rw [body, enterArm_entry, if_neg unbound]

theorem analyzeArms_settles (canonical : context.symbols.Canonical) {byValue : Bool}
    {start : StateMap} {arms : List CaseArm}
    (each : ∀ arm ∈ arms, StmtSettles context arm.getBody) {key : DeclNode}
    (settled : Settled context scope key) : ∀ before result,
    Regular context (armsEvents context scope byValue arms) →
      analyzeArms context byValue start arms before = .ok result →
      ∀ state ∈ result.2, state[key]? = start[key]? := by
  induction arms with
  | nil =>
      intro before result _ analyzed
      cases analyzed
      simp
  | cons arm arms induction =>
      intro before result regular analyzed
      rw [analyzeArms, bind_eq_ok] at analyzed
      rcases analyzed with ⟨mid, first, analyzed⟩
      rw [bind_eq_ok] at analyzed
      rcases analyzed with ⟨rest, restResult, finished⟩
      cases finished
      rcases Regular.append_iff.mp regular with ⟨armRegular, armsRegular⟩
      have head := analyzeArm_settles canonical (each arm (by simp)) settled armRegular first
      have tail := induction (fun other member => each other (by simp [member])) mid rest
        armsRegular restResult
      exact List.forall_mem_cons.mpr ⟨head, tail⟩

theorem stmtSettles (enforced : context.Enforced) (stmt : Stmt) : StmtSettles context stmt := by
  induction stmt with
  | assignStmt info lhs rhs =>
      intro scope key before after settled regular result
      exact (analyzeStmt_assign enforced.rules scope result).settled enforced.canonical settled
        (assignEvents_resolved context scope lhs rhs) regular
  | blockStmt info stmts each =>
      intro scope key before after settled regular result
      rw [analyzeStmt] at result
      have same := analyzeStmts_settles each scope key _ after settled regular result
      exact same
  | whileStmt info condition body bodySettles =>
      intro scope key before after settled regular result
      rcases analyzeStmt_while enforced.rules scope result with ⟨_, _, _, _, _, _, rfl⟩
      rfl
  | ifStmt info condition thenStmt elseStmt thenSettles elseSettles =>
      intro scope key before after settled regular result
      rcases analyzeStmt_if enforced.rules scope result with
        ⟨condWalk, thenWalk, elseWalk, joined, steps, thenResult, elseResult, join, rfl⟩
      rcases Regular.append_iff.mp regular with ⟨condRegular, branchesRegular⟩
      rcases Regular.append_iff.mp branchesRegular with ⟨thenRegular, elseRegular⟩
      have cond := steps.settled enforced.canonical settled
        (exprEvents_resolved context scope condition) condRegular
      have thenSame := thenSettles scope key condWalk thenWalk settled thenRegular thenResult
      have elseSame : elseWalk.state[key]? = condWalk.state[key]? := by
        cases elseStmt with
        | none =>
            cases elseResult
            rfl
        | some elseStmt =>
            rw [analyzeElse] at elseResult
            have same := elseSettles elseStmt rfl scope key _ elseWalk settled elseRegular
              elseResult
            exact same
      refine joinStates_settled enforced.rules (by simp) join ?_
      simp [thenSame, elseSame, cond]
  | outputStmt info arg | errorStmt info arg =>
      intro scope key before after settled regular result
      rw [analyzeStmt] at result
      exact (evalFirst_steps enforced.rules scope result).settled
        enforced.canonical settled (exprEvents_resolved context scope arg) regular
  | caseStmt info caseExpr arms each =>
      intro scope key before after settled regular result
      rcases analyzeStmt_case enforced.rules scope result with ⟨matched, steps, analyzed⟩
      rcases Regular.append_iff.mp regular with ⟨takenRegular, armsRegular⟩
      have taken := steps.settled enforced.canonical settled
        (takenEvents_resolved context scope caseExpr) takenRegular
      rcases analyzed with ⟨rfl, rfl⟩ | ⟨armsWalk, states, nonempty, armsResult, join, _⟩
      · exact taken
      · have arms := analyzeArms_settles enforced.canonical each settled matched _ armsRegular
          armsResult
        rw [joinStates_settled enforced.rules nonempty join arms]
        exact taken

end

end Topc.MoveAnalysis
