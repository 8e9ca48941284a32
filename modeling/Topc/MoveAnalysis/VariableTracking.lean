import Topc.MoveAnalysis.SettledEntries

/-! # Following one variable through the analysis

The analysis keeps one entry for each variable, and a path gives each variable
one status. A relation between the two that survives every kind of event, every
join and every loop holds along every path of an accepted function. -/

open Computability

namespace Topc.MoveAnalysis

open OwnershipPaths

/-- A relation between the analysis's entry for a variable and its status, and
what the relation permits. It may depend on the paths still to come. -/
structure Tracking (decl : DeclNode) where
  ok : Option OwnershipState → Event → Prop
  rel : Language Event → Option OwnershipState → Option OwnershipState → Prop
  /-- The loops the relation survives. -/
  allowed : Language Event → Language Event → Language Event → Prop
  /-- The owners destroyed at the end of each arm. -/
  planned : NodeId → List DeclNode
  antitone : ∀ {rest less entry status}, less ≤ rest → rel rest entry status →
    rel less entry status
  passes : ∀ {event rest entry status}, statusStep decl status event = status →
    rel ({[event]} * rest) entry status → rel rest entry status
  received : ∀ rest, rel rest (some .owned) (some .owned)
  taken : ∀ rest, rel rest (some .moved) (some .moved)
  joined : ∀ {rest branch entry status},
    (entry = some .owned ↔ branch = some .owned) →
      (branch = some .moved → entry = some .moved) →
      rel rest branch status → rel rest entry status
  looped : ∀ {condition body rest path entry bodyEntry status},
    allowed condition body rest → path ∈ condition * body →
      (entry = some .owned ↔ bodyEntry = some .owned) →
      rel (loopPaths condition body * rest) entry status →
      rel (loopPaths condition body * rest) bodyEntry (statusAfter decl status path) →
      rel (loopPaths condition body * rest) entry (statusAfter decl status path)
  idle : ∀ {status event}, concerns decl event = false → ok status event
  vacant : ∀ {event}, event.endedArm = none → ok none event
  read : ∀ {event rest entry status}, Monitor.Feasible rest →
    reads decl event = true → entry ≠ some .moved → rel ({[event]} * rest) entry status → ok status event
  stored : ∀ {name target rest entry status}, entry ≠ some .owned →
    rel ({[.access .store name target]} * rest) entry status →
      ok status (.access .store name target)
  left : ∀ {arm binders rest entry status}, rel rest entry status →
    (decl ∈ planned arm ↔ entry = some .owned) → ok status (.leaveArm arm binders)
  leftVacant : ∀ {arm binders}, decl ∉ planned arm → ok none (.leaveArm arm binders)

namespace Tracking

variable {decl : DeclNode}

def monitor (tracking : Tracking decl) : Monitor (Option OwnershipState) Event where
  step := statusStep decl
  ok := tracking.ok

end Tracking

/-- The entry a declaration's uses are kept under. -/
def entryOf (context : Context) (state : StateMap) (decl : DeclNode) : Option OwnershipState :=
  state[binderKey context decl]?

/-- In a scope, the entry follows the status. A variable that another one hides
keeps the status it was hidden with. -/
structure Tracks (context : Context) {decl : DeclNode} (tracking : Tracking decl) (scope : Scope)
    (rest : Language Event) (hidden : Option OwnershipState) (state : StateMap)
    (status : Option OwnershipState) : Prop where
  unbound : (∀ binding ∈ scope, binding.decl ≠ decl) → status = none
  hidden : (∃ binding ∈ scope, binding.decl = decl) →
    scope.owner context decl.name ≠ some decl → status = hidden
  aliased : (⟨decl, true⟩ : Binding) ∈ scope → status = none
  visible : scope.owner context decl.name = some decl →
    tracking.rel rest (entryOf context state decl) status

section

variable {context : Context} {decl : DeclNode} {tracking : Tracking decl}

theorem statusStep_of_not_concerns {event : Event} (elsewhere : concerns decl event = false)
    (status : Option OwnershipState) : statusStep decl status event = status := by
  cases event with
  | access action name target =>
      cases target with
      | none => rfl
      | some binding => simp_all [concerns, statusStep]
  | enterArm binders =>
      have none : binders.find? (fun binding => binding.decl == decl) = none := by
        simpa [concerns] using elsewhere
      simp [statusStep, none]
  | leaveArm arm binders =>
      rw [concerns] at elsewhere
      simp [statusStep, elsewhere]

theorem statusAfter_of_not_concerns {path : List Event}
    (elsewhere : ∀ event ∈ path, concerns decl event = false)
    (status : Option OwnershipState) : statusAfter decl status path = status := by
  induction path with
  | nil => rfl
  | cons event path induction =>
      rw [statusAfter_cons, statusStep_of_not_concerns (elsewhere event (by simp))]
      exact induction fun other member => elsewhere other (by simp [member])

/-- Events that do not concern the variable keep what is known of it. -/
theorem Tracking.skips (tracking : Tracking decl) {rest : Language Event}
    {entry status : Option OwnershipState} {path : List Event}
    (elsewhere : ∀ event ∈ path, concerns decl event = false)
    (related : tracking.rel ({path} * rest) entry status) : tracking.rel rest entry status := by
  induction path with
  | nil => rwa [Monitor.singleton_nil, one_mul] at related
  | cons event path induction =>
      rw [← List.singleton_append, Monitor.singleton_append, mul_assoc] at related
      refine induction (fun other member => elsewhere other (by simp [member])) ?_
      exact tracking.passes (statusStep_of_not_concerns (elsewhere event (by simp)) status) related

theorem Tracks.mono {scope : Scope} {rest less : Language Event}
    {hidden status : Option OwnershipState} {state : StateMap} (subset : less ≤ rest)
    (tracks : Tracks context tracking scope rest hidden state status) :
    Tracks context tracking scope less hidden state status :=
  ⟨tracks.unbound, tracks.hidden, tracks.aliased, fun owner =>
    tracking.antitone subset (tracks.visible owner)⟩

theorem Tracks.join {scope : Scope} {rest : Language Event}
    {hidden status : Option OwnershipState} {branches : List StateMap} {joined branch : StateMap}
    (rules : context.rules = .allEnabled) (join : joinStates context branches = .ok joined)
    (member : branch ∈ branches)
    (tracks : Tracks context tracking scope rest hidden branch status) :
    Tracks context tracking scope rest hidden joined status :=
  ⟨tracks.unbound, tracks.hidden, tracks.aliased, fun owner =>
    tracking.joined (joinStates_owned_iff rules join member _)
      (joinStates_moved rules join member) (tracks.visible owner)⟩

/-! ## Accesses -/

/-- A variable has one binding. -/
def Distinct (scope : Scope) : Prop := (scope.map Binding.decl).Nodup

theorem Distinct.eq_of_decl {scope : Scope} (distinct : Distinct scope) {left right : Binding}
    (leftMem : left ∈ scope) (rightMem : right ∈ scope) (same : left.decl = right.decl) :
    left = right :=
  List.inj_on_of_nodup_map distinct leftMem rightMem same

/-- An event that leaves the status and the entry as they are. -/
theorem Tracks.pass {scope : Scope} {event : Event} {rest : Language Event}
    {hidden status : Option OwnershipState} {before after : StateMap}
    (sameStatus : statusStep decl status event = status)
    (sameEntry : scope.owner context decl.name = some decl →
      entryOf context after decl = entryOf context before decl)
    (tracks : Tracks context tracking scope ({[event]} * rest) hidden before status) :
    Tracks context tracking scope rest hidden after status :=
  ⟨tracks.unbound, tracks.hidden, tracks.aliased, fun owner => by
    rw [sameEntry owner]
    exact tracking.passes sameStatus (tracks.visible owner)⟩

/-- An owner that is in scope is tracked by its entry alone. -/
theorem Tracks.of_owner {scope : Scope} (distinct : Distinct scope)
    (owner : scope.owner context decl.name = some decl) {rest : Language Event}
    {hidden status : Option OwnershipState} {state : StateMap}
    (visible : tracking.rel rest (entryOf context state decl) status) :
    Tracks context tracking scope rest hidden state status := by
  have member := (Scope.owner_eq_some owner).2.2
  refine ⟨fun unbound => absurd rfl (unbound _ member), fun _ hidden => absurd owner hidden,
    fun aliased => ?_, fun _ => visible⟩
  have equal := distinct.eq_of_decl aliased member rfl
  cases equal

/-- An access of the variable itself. -/
theorem Tracks.accessOwn {scope : Scope} (distinct : Distinct scope)
    (own : context.isOwn decl = true) {action : Action} {binding : Binding}
    (found : scope.lookup decl.name = some binding) (same : binding.decl = decl)
    (names : (access scope action decl.name).NamesAgree context)
    (position : (access scope action decl.name).PositionAllowed context)
    {before after : StateMap}
    (step : stepEvent context before (access scope action decl.name) = some after)
    {rest : Language Event} (feasible : Monitor.Feasible rest)
    {hidden status : Option OwnershipState}
    (tracks : Tracks context tracking scope ({[access scope action decl.name]} * rest) hidden
      before status) :
    tracking.ok status (access scope action decl.name) ∧
      Tracks context tracking scope rest hidden after
        (statusStep decl status (access scope action decl.name)) := by
  have resolvedOwn : (context.resolveVar decl.name).any context.isOwn = true := by
    simpa [access, Event.NamesAgree, found, same, own] using names
  rcases Option.any_eq_true_iff_get _ _ |>.mp resolvedOwn with ⟨isSome, keyOwn⟩
  rcases Option.isSome_iff_exists.mp isSome with ⟨key, resolved⟩
  have keyOf : binderKey context decl = key := by simp [binderKey, resolved]
  have filtered : (context.resolveVar decl.name).filter context.isOwn = some key := by
    rw [Option.filter_eq_some_iff]
    exact ⟨resolved, by simpa [resolved] using keyOwn⟩
  simp only [access, found, Event.PositionAllowed, same] at position
  cases isAlias : binding.isAlias with
  | true =>
      cases position.2 own isAlias
      have vacant : status = none := by
        refine tracks.aliased ?_
        have member := (Scope.lookup_eq_some found).2
        rwa [show binding = ⟨decl, true⟩ by rw [← same, ← isAlias]] at member
      have unchanged : after = before := by
        simp only [stepEvent, access, filtered] at step
        split at step <;> cases step
        rfl
      subst unchanged vacant
      refine ⟨tracking.vacant rfl, ?_⟩
      have sameStatus : statusStep decl none (access scope .use decl.name) = none := by
        simp [statusStep, access, found]
      rw [sameStatus]
      exact tracks.pass sameStatus (fun _ => rfl)
  | false =>
      have owner : scope.owner context decl.name = some decl := by
        rw [← same]
        exact Scope.owner_of_lookup (same ▸ found) (by simp [Binding.owns, same, own, isAlias])
      have related := tracks.visible owner
      rw [entryOf, keyOf] at related
      cases action with
      | storeBorrow => exact absurd rfl position.1
      | use =>
          simp only [stepEvent, access, filtered] at step
          split at step
          · cases step
          · rename_i notMoved
            cases step
            refine ⟨tracking.read feasible (by simp [reads, access, found, same]) notMoved related, ?_⟩
            have sameStatus : statusStep decl status (access scope .use decl.name) = status := by
              simp [statusStep, access, found]
            rw [sameStatus]
            exact tracks.pass sameStatus (fun _ => rfl)
      | take =>
          simp only [stepEvent, access, filtered] at step
          split at step
          · cases step
          · rename_i notMoved
            cases step
            refine ⟨tracking.read feasible (by simp [reads, access, found, same]) notMoved related, ?_⟩
            refine .of_owner distinct owner ?_
            rw [entryOf, keyOf]
            simpa [statusStep, access, found, same] using tracking.taken rest
      | store =>
          simp only [stepEvent, access, filtered] at step
          split at step
          · cases step
          · rename_i notOwned
            cases step
            refine ⟨tracking.stored notOwned related, .of_owner distinct owner ?_⟩
            rw [entryOf, keyOf]
            simpa [statusStep, access, found, same] using tracking.received rest

/-- An access of another variable, or of a name out of scope. -/
theorem Tracks.accessOther (enforced : context.Enforced) {scope : Scope}
    {action : Action} {name : String}
    (elsewhere : concerns decl (access scope action name) = false)
    (names : (access scope action name).NamesAgree context)
    (position : (access scope action name).PositionAllowed context)
    {before after : StateMap}
    (step : stepEvent context before (access scope action name) = some after)
    {rest : Language Event} {hidden status : Option OwnershipState}
    (tracks : Tracks context tracking scope ({[access scope action name]} * rest) hidden
      before status) :
    tracking.ok status (access scope action name) ∧
      Tracks context tracking scope rest hidden after
        (statusStep decl status (access scope action name)) := by
  have sameStatus := statusStep_of_not_concerns elsewhere status
  refine ⟨tracking.idle elsewhere, ?_⟩
  rw [sameStatus]
  refine tracks.pass sameStatus fun owner => ?_
  cases resolved : (context.resolveVar name).filter context.isOwn with
  | none =>
      simp only [stepEvent, access, resolved] at step
      cases step
      rfl
  | some key =>
      rcases owner_of_access enforced.canonical names position resolved with
        ⟨keyName, binding, found, _, notBorrow, aliased, owned⟩
      have other : binding.decl ≠ decl := by simpa [concerns, access, found] using elsewhere
      cases use : decide (action = .use) with
      | true =>
          cases of_decide_eq_true use
          simp only [stepEvent, access, resolved] at step
          split at step <;> cases step
          rfl
      | false =>
          have notAlias : binding.isAlias = false := by
            cases isAlias : binding.isAlias with
            | false => rfl
            | true => exact absurd (aliased isAlias) (of_decide_eq_false use)
          have different : key ≠ binderKey context decl := by
            intro equal
            have sameName : name = decl.name := by
              rw [← keyName, equal, binderKey_name enforced.canonical]
            rw [← sameName, owned notAlias, Option.some.injEq] at owner
            exact other owner
          cases action with
          | use => simp at use
          | storeBorrow => exact absurd rfl notBorrow
          | take | store =>
              simp only [stepEvent, access, resolved] at step
              split at step <;> cases step
              rw [entryOf, Std.ExtTreeMap.getElem?_insert]
              simp [different, entryOf]

theorem Tracks.access (enforced : context.Enforced) {scope : Scope} (distinct : Distinct scope)
    (own : context.isOwn decl = true) {action : Action} {name : String}
    (names : (access scope action name).NamesAgree context)
    (position : (access scope action name).PositionAllowed context)
    {before after : StateMap}
    (step : stepEvent context before (access scope action name) = some after)
    {rest : Language Event} (feasible : Monitor.Feasible rest)
    {hidden status : Option OwnershipState}
    (tracks : Tracks context tracking scope ({[OwnershipPaths.access scope action name]} * rest)
      hidden before status) :
    tracking.ok status (OwnershipPaths.access scope action name) ∧
      Tracks context tracking scope rest hidden after
        (statusStep decl status (OwnershipPaths.access scope action name)) := by
  cases concerned : concerns decl (OwnershipPaths.access scope action name) with
  | false => exact tracks.accessOther enforced concerned names position step
  | true =>
      cases found : scope.lookup name with
      | none => simp [concerns, OwnershipPaths.access, found] at concerned
      | some binding =>
          have same : binding.decl = decl := by
            simpa [concerns, OwnershipPaths.access, found] using concerned
          have named := (Scope.lookup_eq_some found).1
          rw [same] at named
          subst named
          exact tracks.accessOwn distinct own found same names position step feasible

/-- The straight-line part of a statement. -/
theorem Tracks.events (enforced : context.Enforced) {scope : Scope} (distinct : Distinct scope)
    (own : context.isOwn decl = true) {events : List Event} :
    ∀ {before after : StateMap} {rest : Language Event} {hidden status : Option OwnershipState},
    Monitor.Feasible rest → ResolvedIn scope events → Regular context events →
    stepEvents context before events = some after →
    Tracks context tracking scope ({events} * rest) hidden before status →
    tracking.monitor.Safe status events ∧
      Tracks context tracking scope rest hidden after (statusAfter decl status events) := by
  induction events with
  | nil =>
      intro before after rest hidden status _ _ _ steps tracks
      cases steps
      rw [Monitor.singleton_nil, one_mul] at tracks
      exact ⟨trivial, tracks⟩
  | cons event events induction =>
      intro before after rest hidden status feasible resolved regular steps tracks
      rw [stepEvents, List.foldlM_cons, Option.bind_eq_bind, Option.bind_eq_some_iff] at steps
      rcases steps with ⟨mid, first, remaining⟩
      rcases resolved event (by simp) with ⟨action, name, rfl⟩
      rcases Regular.cons_iff.mp regular with ⟨⟨names, position⟩, restRegular⟩
      rw [← List.singleton_append, Monitor.singleton_append, mul_assoc] at tracks
      have head := tracks.access enforced distinct own names position first
        ((Monitor.Feasible.singleton events).mul feasible)
      have tail := induction feasible (fun other member => resolved other (by simp [member]))
        restRegular remaining head.2
      exact ⟨⟨head.1, tail.1⟩, tail.2⟩

end

end Topc.MoveAnalysis
