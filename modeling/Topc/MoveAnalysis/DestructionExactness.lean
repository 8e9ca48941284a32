import Topc.MoveAnalysis.FunctionTracking

/-! # The destruction plan

A plan is one list for each exit and each arm end, whatever path leads there. It
is exact where every path leaves precisely the listed variables owned. -/

open Computability

namespace Topc.MoveAnalysis

open OwnershipPaths

/-! ## Loops that need no condition -/

section

variable {context : Context}
  {allowed : Language Event → Language Event → Language Event → Prop}

theorem stmtsLoops_of_all {stmts : List Stmt}
    (each : ∀ stmt ∈ stmts, ∀ scope rest, stmtLoops context allowed scope stmt rest)
    (scope : Scope) : ∀ rest, stmtsLoops context allowed scope stmts rest := by
  induction stmts with
  | nil => exact fun _ => trivial
  | cons stmt stmts induction =>
      exact fun rest => ⟨each stmt (by simp) scope _,
        induction (fun other member => each other (by simp [member])) rest⟩

theorem armsLoops_of_all {byValue : Bool} {arms : List CaseArm}
    (each : ∀ arm ∈ arms, ∀ scope rest, stmtLoops context allowed scope arm.getBody rest)
    (scope : Scope) (rest : Language Event) :
    armsLoops context allowed scope byValue arms rest := by
  induction arms with
  | nil => trivial
  | cons arm arms induction =>
      refine ⟨?_, induction fun other member => each other (by simp [member])⟩
      cases arm with
      | mk info tag patterns body => exact each (.mk info tag patterns body) (by simp) _ _

theorem stmtLoops_of_all (all : ∀ condition body rest, allowed condition body rest) (stmt : Stmt) :
    ∀ scope rest, stmtLoops context allowed scope stmt rest := by
  induction stmt with
  | assignStmt | outputStmt | errorStmt => exact fun _ _ => trivial
  | blockStmt info stmts each => exact stmtsLoops_of_all each
  | whileStmt info condition body bodyLoops =>
      exact fun scope rest => ⟨all _ _ rest, bodyLoops scope _⟩
  | ifStmt info condition thenStmt elseStmt thenLoops elseLoops =>
      intro scope rest
      refine ⟨thenLoops scope rest, ?_⟩
      cases elseStmt with
      | none => trivial
      | some stmt => exact elseLoops stmt rfl scope rest
  | caseStmt info caseExpr arms each => exact armsLoops_of_all each

theorem functionLoops_of_all (all : ∀ condition body rest, allowed condition body rest)
    (function : Function) : functionLoops context allowed function :=
  stmtsLoops_of_all (fun stmt _ => stmtLoops_of_all all stmt) _ _

end

/-! ## Owners and entries -/

/-- No owner is overwritten, and an arm's end lists the variable if it is owned. -/
def disposalOk (planned : NodeId → List DeclNode) (decl : DeclNode)
    (status : Option OwnershipState) : Event → Prop
  | .access .store _ (some binding) => binding.decl = decl → status ≠ some .owned
  | .leaveArm arm binders =>
      decl ∈ binders.map Binding.decl → (decl ∈ planned arm ↔ status = some .owned)
  | _ => True

/-- A variable is owned exactly when its entry says so. -/
def ownerTracking (decl : DeclNode) (planned : NodeId → List DeclNode) : Tracking decl where
  ok := disposalOk planned decl
  rel _ entry status := entry = some .owned ↔ status = some .owned
  allowed _ _ _ := True
  planned := planned
  antitone _ related := related
  passes _ related := related
  received _ := Iff.rfl
  taken _ := Iff.rfl
  joined sameOwner _ related := sameOwner.trans related
  looped _ _ sameOwner _ related := sameOwner.trans related
  idle := by
    intro status event elsewhere
    cases event with
    | access action name target =>
        cases action <;> cases target <;> simp_all [concerns, disposalOk]
    | enterArm binders => trivial
    | leaveArm arm binders =>
        intro member
        rcases List.mem_map.mp member with ⟨binding, bindingMem, same⟩
        simp only [concerns, List.any_eq_false] at elsewhere
        exact absurd (beq_iff_eq.mpr same) (elsewhere binding bindingMem)
  vacant := by
    intro event notEnd
    cases event with
    | access action name target => cases action <;> cases target <;> simp [disposalOk]
    | enterArm binders => trivial
    | leaveArm arm binders => cases notEnd
  read := by
    intro event rest entry status _ read _ _
    cases event with
    | access action name target =>
        cases action <;> cases target <;> simp_all [reads, disposalOk]
    | enterArm | leaveArm => cases read
  stored := by
    intro name target rest entry status notOwned related
    cases target with
    | none => trivial
    | some binding => exact fun _ owned => notOwned (related.mpr owned)
  left related listed _ := listed.trans related
  leftVacant notListed _ := by simp [notListed]

/-! ## Exact plans -/

/-- What a path leaves owned at the exit and at the end of each arm it goes
through is what the plan destroys there, and no owner is overwritten. -/
structure DestroysOwners (context : Context) (function : Function) (plan : DestructionPlan)
    (path : List Event) : Prop where
  atExit : ∀ decl, decl ∈ exitOwners plan function.decl ↔
    context.isOwn decl = true ∧ decl ∈ function.variables ∧
      statusAfter decl (entryStatus function decl) path = some .owned
  atArmEnd : ∀ before arm binders after, path = before ++ .leaveArm arm binders :: after →
    ∀ decl, decl ∈ armEndOwners plan arm ↔
      context.isOwn decl = true ∧ decl ∈ binders.map Binding.decl ∧
        statusAfter decl (entryStatus function decl) before = some .owned
  kept : ∀ before name binding after,
    path = before ++ .access .store name (some binding) :: after →
      context.isOwn binding.decl = true →
      statusAfter binding.decl (entryStatus function binding.decl) before ≠ some .owned

/-- The plan destroys the owners of every path, each once. -/
structure PlanExact (context : Context) (function : Function) (plan : DestructionPlan) :
    Prop where
  exitOnce : (exitOwners plan function.decl).Nodup
  armEndOnce : ∀ arm ∈ armIds function, (armEndOwners plan arm).Nodup
  everyPath : ∀ path ∈ functionPaths context function, DestroysOwners context function plan path

/-- The event gives the variable a value or takes its value away. -/
def transfers (decl : DeclNode) : Event → Bool
  | .access .use _ _ => false
  | event => concerns decl event

/-- Where an arm binder has taken the name of an `Own` formal or local over, the
formal keeps its argument on every path, and no path leaves the local owned. -/
def ShadowedIdle (context : Context) (function : Function) : Prop :=
  ∀ path ∈ functionPaths context function, ∀ decl, context.isOwn decl = true →
    binderKey context decl ≠ decl →
    (decl ∈ function.formals → ∀ event ∈ path, transfers decl event = false) ∧
      (decl ∈ function.declarations → statusAfter decl none path ≠ some .owned)

section

variable {decl : DeclNode}

theorem statusStep_of_not_transfers {event : Event} (idle : transfers decl event = false)
    (status : Option OwnershipState) : statusStep decl status event = status := by
  cases event with
  | access action name target =>
      cases action with
      | use => cases target <;> simp [statusStep]
      | take | store | storeBorrow => exact statusStep_of_not_concerns idle status
  | enterArm binders =>
      have elsewhere : concerns decl (.enterArm binders) = false := idle
      exact statusStep_of_not_concerns elsewhere status
  | leaveArm arm binders =>
      have elsewhere : concerns decl (.leaveArm arm binders) = false := idle
      exact statusStep_of_not_concerns elsewhere status

theorem statusAfter_of_not_transfers {path : List Event}
    (idle : ∀ event ∈ path, transfers decl event = false) (status : Option OwnershipState) :
    statusAfter decl status path = status := by
  induction path with
  | nil => rfl
  | cons event path induction =>
      rw [statusAfter_cons, statusStep_of_not_transfers (idle event (by simp))]
      exact induction fun other member => idle other (by simp [member])

/-- After a transfer the status no longer depends on what it was. -/
theorem statusAfter_of_transfers {path : List Event} {event : Event} (member : event ∈ path)
    (moves : transfers decl event = true) (status other : Option OwnershipState) :
    statusAfter decl status path = statusAfter decl other path := by
  have step : ∀ status other, statusStep decl status event = statusStep decl other event := by
    intro status other
    cases event with
    | access action name target =>
        cases action with
        | use => cases moves
        | take | store | storeBorrow => cases target <;> simp_all [transfers, concerns, statusStep]
    | enterArm binders =>
        cases found : binders.find? fun binding => binding.decl == decl with
        | none =>
            rw [List.find?_eq_none] at found
            rcases List.any_eq_true.mp moves with ⟨binding, bindingMem, same⟩
            exact absurd same (found binding bindingMem)
        | some binding => simp [statusStep, found]
    | leaveArm arm binders => simp_all [transfers, concerns, statusStep]
  rcases List.append_of_mem member with ⟨before, after, rfl⟩
  rw [statusAfter_append, statusAfter_append, statusAfter_cons, statusAfter_cons,
    step (statusAfter decl status before) (statusAfter decl other before)]

end

theorem mem_ownersByName {state : StateMap} {decl : DeclNode} :
    decl ∈ ownersByName state ↔ state[decl]? = some .owned := by
  rw [ownersByName, List.mem_mergeSort, List.mem_filter, Std.ExtTreeMap.mem_keys, ownedIn]
  constructor
  · rintro ⟨_, owned⟩
    exact beq_iff_eq.mp owned
  · intro owned
    exact ⟨Std.ExtTreeMap.mem_iff_isSome_getElem?.mpr (by simp [owned]), by simp [owned]⟩

theorem ownersByName_nodup (state : StateMap) : (ownersByName state).Nodup := by
  rw [ownersByName, (List.mergeSort_perm _ _).nodup_iff]
  exact state.nodup_keys.filter _

/-! ## Accepted functions -/

section

variable {context : Context} {function : Function} {planned : NodeId → List DeclNode}
  {plan : DestructionPlan} {body final : Walk}

/-- The walk over a function of an accepted program, whose formals and locals
differ in name. -/
structure AcceptedWalk (context : Context) (function : Function)
    (planned : NodeId → List DeclNode) (plan : DestructionPlan) (body final : Walk) : Prop where
  enforced : context.Enforced
  walk : FunctionWalk context function plan body final
  fits : FunctionFits context function planned plan final.plan
  names : ((function.formals ++ function.declarations).map DeclNode.name).Nodup

namespace AcceptedWalk

variable (accepted : AcceptedWalk context function planned plan body final)

include accepted

theorem eq_of_name {decl other : DeclNode}
    (member : decl ∈ function.formals ++ function.declarations)
    (otherMem : other ∈ function.formals ++ function.declarations)
    (sameName : decl.name = other.name) : decl = other :=
  List.inj_on_of_nodup_map accepted.names member otherMem sameName

theorem owner_eq {decl : DeclNode} (member : decl ∈ function.formals ++ function.declarations)
    (own : context.isOwn decl = true) :
    (functionScope function).owner context decl.name = some decl := by
  have binding : (⟨decl, false⟩ : Binding) ∈ functionScope function :=
    List.mem_map.mpr ⟨decl, member, rfl⟩
  cases found : (functionScope function).owner context decl.name with
  | none =>
      rw [Scope.owner_eq_none] at found
      exact absurd rfl (found _ binding (by simp [Binding.owns, own]))
  | some other =>
      rcases Scope.owner_eq_some found with ⟨sameName, _, otherMem⟩
      rcases List.mem_map.mp otherMem with ⟨_, otherMem, equal⟩
      cases equal
      rw [accepted.eq_of_name otherMem member sameName]

/-- The key of a formal or local is no other formal or local. -/
theorem key_not_mem {decl : DeclNode} (member : decl ∈ function.formals ++ function.declarations)
    (shadowed : binderKey context decl ≠ decl) :
    binderKey context decl ∉ function.formals ++ function.declarations := by
  intro keyMem
  exact shadowed (accepted.eq_of_name keyMem member
    (binderKey_name accepted.enforced.canonical decl))

/-- Where a formal is kept under its own declaration, entry and status agree at
the start. -/
theorem started {decl : DeclNode} (own : context.isOwn decl = true)
    (formalKey : decl ∈ function.formals → binderKey context decl = decl)
    (owner : (functionScope function).owner context decl.name = some decl) :
    entryOf context (initialState context function.formals) decl = some .owned ↔
      entryStatus function decl = some .owned := by
  rw [entryOf, initialState_getElem?, entryStatus]
  by_cases formal : decl ∈ function.formals
  · rw [formalKey formal, if_pos ⟨formal, own⟩, if_pos formal]
  · rw [if_neg formal, if_neg]
    rintro ⟨keyFormal, _⟩
    have binding := (Scope.owner_eq_some owner).2.2
    rcases List.mem_map.mp binding with ⟨_, member, equal⟩
    cases equal
    have same : binderKey context decl = decl :=
      accepted.eq_of_name (List.mem_append_left _ keyFormal) member
        (binderKey_name accepted.enforced.canonical decl)
    exact formal (same ▸ keyFormal)

/-- Along every path the events of the variable are as planned, and the entry at
the exit is owned exactly when the variable is. -/
theorem follows {decl : DeclNode} (own : context.isOwn decl = true)
    (formalKey : decl ∈ function.formals → binderKey context decl = decl) {path : List Event}
    (member : path ∈ functionPaths context function) :
    (ownerTracking decl planned).monitor.Safe (entryStatus function decl) path ∧
      Tracks context (ownerTracking decl planned) (functionScope function) 1
        (entryStatus function decl) final.state
        (statusAfter decl (entryStatus function decl) path) :=
  function_tracks (ownerTracking decl planned) accepted.enforced own accepted.walk accepted.fits
    (functionLoops_of_all (fun _ _ _ => trivial) function) entryStatus_absent
    (accepted.started own formalKey) member

/-- The entry that replaces a shadowed formal follows the variable as if it had
started without a value. -/
theorem follows_shadow {decl : DeclNode} (own : context.isOwn decl = true)
    (member : decl ∈ function.formals ++ function.declarations)
    (shadowed : binderKey context decl ≠ decl) {path : List Event}
    (pathMem : path ∈ functionPaths context function) :
    final.state[binderKey context decl]? = some .owned ↔
      statusAfter decl none path = some .owned := by
  have keyFree : ¬ (binderKey context decl ∈ function.formals ∧
      context.isOwn (binderKey context decl) = true) := fun key =>
    accepted.key_not_mem member shadowed (List.mem_append_left _ key.1)
  have followed := function_tracks (ownerTracking decl planned) accepted.enforced own
    accepted.walk accepted.fits (functionLoops_of_all (fun _ _ _ => trivial) function)
    (fun _ => rfl) (fun _ => by rw [entryOf, initialState_getElem?, if_neg keyFree]; exact Iff.rfl) pathMem
  exact followed.2.visible (accepted.owner_eq member own)

/-- A shadowed formal keeps the entry it started with. -/
theorem shadowed_formal {decl : DeclNode} (own : context.isOwn decl = true)
    (formal : decl ∈ function.formals) (shadowed : binderKey context decl ≠ decl) :
    final.state[decl]? = some .owned := by
  have settled : Settled context (functionScope function) decl := by
    intro resolved
    rw [binderKey, resolved] at shadowed
    exact absurd rfl shadowed
  rw [accepted.walk.settles accepted.enforced accepted.fits.regular settled,
    initialState_getElem?, if_pos ⟨formal, own⟩]

/-- An owned variable at the exit of a path has an owned entry. -/
theorem entry_of_owned (idle : ShadowedIdle context function) {path : List Event}
    (pathMem : path ∈ functionPaths context function) {decl : DeclNode}
    (own : context.isOwn decl = true)
    (owned : statusAfter decl (entryStatus function decl) path = some .owned) :
    final.state[decl]? = some .owned := by
  by_cases shadowed : binderKey context decl = decl
  · have followed := (accepted.follows own (fun _ => shadowed) pathMem).2
    by_cases inScope : decl ∈ function.formals ++ function.declarations
    · have entry := (followed.visible (accepted.owner_eq inScope own)).mpr owned
      rwa [entryOf, shadowed] at entry
    · rw [followed.unbound fun binding member same => ?_] at owned
      · cases owned
      · rw [← functionScope_decls] at inScope
        exact inScope (List.mem_map.mpr ⟨binding, member, same⟩)
  · by_cases formal : decl ∈ function.formals
    · exact accepted.shadowed_formal own formal shadowed
    · have followed := (accepted.follows own (fun member => absurd member formal) pathMem).2
      by_cases inScope : decl ∈ function.declarations
      · rw [entryStatus, if_neg formal] at owned
        exact absurd owned ((idle path pathMem decl own shadowed).2 inScope)
      · rw [followed.unbound fun binding member same => ?_] at owned
        · cases owned
        · have bound := List.mem_map_of_mem (f := Binding.decl) member
          rw [functionScope_decls, same, List.mem_append] at bound
          exact bound.elim formal inScope

/-- An owned entry at the exit is that of a formal or local, which every path
leaves owned. -/
theorem owned_of_entry (idle : ShadowedIdle context function) {path : List Event}
    (pathMem : path ∈ functionPaths context function) {key : DeclNode}
    (entry : final.state[key]? = some .owned) :
    context.isOwn key = true ∧ key ∈ function.formals ++ function.declarations ∧
      statusAfter key (entryStatus function key) path = some .owned := by
  by_cases formal : key ∈ function.formals ∧ context.isOwn key = true
  · refine ⟨formal.2, List.mem_append_left _ formal.1, ?_⟩
    by_cases shadowed : binderKey context key = key
    · have followed := (accepted.follows formal.2 (fun _ => shadowed) pathMem).2
      refine (followed.visible (accepted.owner_eq (List.mem_append_left _ formal.1)
        formal.2)).mp ?_
      rwa [entryOf, shadowed]
    · rw [statusAfter_of_not_transfers ((idle path pathMem key formal.2 shadowed).1 formal.1),
        entryStatus, if_pos formal.1]
  · -- The key started without an entry, so an occurrence is kept under it.
    have resolved : context.resolveVar key.name = some key ∧
        (functionScope function).owner context key.name ≠ none := by
      by_contra unsettled
      have settled : Settled context (functionScope function) key := fun resolved => by
        by_contra owner
        exact unsettled ⟨resolved, owner⟩
      rw [accepted.walk.settles accepted.enforced accepted.fits.regular settled,
        initialState_getElem?, if_neg formal] at entry
      cases entry
    rcases Option.ne_none_iff_exists'.mp resolved.2 with ⟨decl, owner⟩
    rcases Scope.owner_eq_some owner with ⟨sameName, own, binding⟩
    have declMem : decl ∈ function.formals ++ function.declarations := by
      rcases List.mem_map.mp binding with ⟨_, member, equal⟩
      cases equal
      exact member
    have keyOf : binderKey context decl = key := by rw [binderKey, sameName, resolved.1]; rfl
    by_cases same : decl = key
    · subst same
      have notFormal : decl ∉ function.formals := fun member => formal ⟨member, own⟩
      have followed := (accepted.follows own (fun member => absurd member notFormal) pathMem).2
      refine ⟨own, declMem, (followed.visible (accepted.owner_eq declMem own)).mp ?_⟩
      rwa [entryOf, keyOf]
    · have shadowed : binderKey context decl ≠ decl := by
        rw [keyOf]
        exact Ne.symm same
      have left := (accepted.follows_shadow own declMem shadowed pathMem).mp (keyOf ▸ entry)
      have quiet := idle path pathMem decl own shadowed
      rcases List.mem_append.mp declMem with isFormal | isLocal
      · rw [statusAfter_of_not_transfers (quiet.1 isFormal)] at left
        cases left
      · exact absurd left (quiet.2 isLocal)

/-- What the plan lists for an arm is what is owned at its end. -/
theorem armEnd_iff {path before after : List Event} {arm : NodeId} {binders : List Binding}
    (pathMem : path ∈ functionPaths context function)
    (split : path = before ++ .leaveArm arm binders :: after) (decl : DeclNode) :
    decl ∈ planned arm ↔ context.isOwn decl = true ∧ decl ∈ binders.map Binding.decl ∧
      statusAfter decl (entryStatus function decl) before = some .owned := by
  have occurs := functionPaths_within context function path pathMem (.leaveArm arm binders)
    (by rw [split]; simp)
  have among := accepted.fits.armEndOwners_sublist accepted.enforced accepted.walk occurs
  have listed : context.isOwn decl = true → decl ∈ binders.map Binding.decl →
      (decl ∈ planned arm ↔
        statusAfter decl (entryStatus function decl) before = some .owned) := by
    intro own bound
    have notFormal : decl ∉ function.formals := by
      intro formal
      rcases (functionEvents_mirrors context function).closes arm binders occurs with
        ⟨closed, closedMem, bindings⟩
      have distinct := (List.nodup_append.mp accepted.fits.variablesDistinct).2.2
      exact distinct decl (List.mem_append_left _ formal) decl
        (List.mem_flatMap.mpr ⟨closed, closedMem, bindings ▸ bound⟩) rfl
    have safe := (accepted.follows own (fun member => absurd member notFormal) pathMem).1
    rw [Monitor.safe_iff_split] at safe
    exact safe before _ after split bound
  constructor
  · intro member
    rcases List.mem_filter.mp (among.subset member) with ⟨bound, own⟩
    exact ⟨own, bound, (listed own bound).mp member⟩
  · rintro ⟨own, bound, owned⟩
    exact (listed own bound).mpr owned

theorem armEnd_nodup {arm : NodeId} (member : arm ∈ armIds function) : (planned arm).Nodup := by
  have mirrors := functionEvents_mirrors context function
  rcases List.mem_filterMap.mp (mirrors.ends.mem_iff.mpr member) with ⟨event, occurs, ends⟩
  cases event with
  | access | enterArm => cases ends
  | leaveArm other binders =>
      cases ends
      rcases mirrors.closes arm binders occurs with ⟨closed, closedMem, bindings⟩
      have distinct := (List.nodup_append.mp accepted.fits.variablesDistinct).2.1
      have bindersDistinct := (List.nodup_flatMap.mp distinct).1 closed closedMem
      rw [bindings] at bindersDistinct
      exact (bindersDistinct.filter _).sublist
        (accepted.fits.armEndOwners_sublist accepted.enforced accepted.walk occurs)

/-- A shadowed formal that no path touches is never overwritten, nor is any other owner. -/
theorem kept (idle : ShadowedIdle context function) {path before after : List Event}
    {name : String} {binding : Binding} (pathMem : path ∈ functionPaths context function)
    (split : path = before ++ .access .store name (some binding) :: after)
    (own : context.isOwn binding.decl = true) :
    statusAfter binding.decl (entryStatus function binding.decl) before ≠ some .owned := by
  have formalKey : binding.decl ∈ function.formals →
      binderKey context binding.decl = binding.decl := by
    intro formal
    by_contra shadowed
    have quiet := (idle path pathMem binding.decl own shadowed).1 formal
      (.access .store name (some binding)) (by rw [split]; simp)
    simp [transfers, concerns] at quiet
  have safe := (accepted.follows own formalKey pathMem).1
  rw [Monitor.safe_iff_split] at safe
  exact safe before _ after split rfl

/-- In an exact plan, no shadowed formal or local is owned through its key. -/
theorem key_not_owned {result : DestructionPlan} (exact : PlanExact context function result)
    (exits : exitOwners result function.decl = ownersByName final.state) {decl : DeclNode}
    (member : decl ∈ function.formals ++ function.declarations)
    (shadowed : binderKey context decl ≠ decl) {path : List Event}
    (pathMem : path ∈ functionPaths context function) :
    final.state[binderKey context decl]? ≠ some .owned := by
  intro entry
  rw [← mem_ownersByName, ← exits] at entry
  rcases ((exact.everyPath path pathMem).atExit _).mp entry with ⟨own, _, owned⟩
  have outside := accepted.key_not_mem member shadowed
  have notFormal : binderKey context decl ∉ function.formals := fun formal =>
    outside (List.mem_append_left _ formal)
  have followed := (accepted.follows own (fun formal => absurd formal notFormal) pathMem).2
  rw [followed.unbound fun binding bindingMem same => ?_] at owned
  · cases owned
  · rw [← functionScope_decls] at outside
    exact outside (List.mem_map.mpr ⟨binding, bindingMem, same⟩)

theorem shadowedIdle_of_exact {result : DestructionPlan}
    (exact : PlanExact context function result)
    (exits : exitOwners result function.decl = ownersByName final.state) :
    ShadowedIdle context function := by
  intro path pathMem decl own shadowed
  constructor
  · intro formal event eventMem
    have member : decl ∈ function.formals ++ function.declarations :=
      List.mem_append_left _ formal
    by_contra touches
    have listed := mem_ownersByName.mpr (accepted.shadowed_formal own formal shadowed)
    rw [← exits] at listed
    have owned := (((exact.everyPath path pathMem).atExit decl).mp listed).2.2
    rw [statusAfter_of_transfers eventMem (Bool.not_eq_false _ ▸ touches) _ none,
      ← accepted.follows_shadow own member shadowed pathMem] at owned
    exact accepted.key_not_owned exact exits member shadowed pathMem owned
  · intro isLocal owned
    have member : decl ∈ function.formals ++ function.declarations :=
      List.mem_append_right _ isLocal
    rw [← accepted.follows_shadow own member shadowed pathMem] at owned
    exact accepted.key_not_owned exact exits member shadowed pathMem owned

theorem exact_of_shadowedIdle {result : DestructionPlan} (idle : ShadowedIdle context function)
    (exits : exitOwners result function.decl = ownersByName final.state)
    (arms : ∀ arm, armEndOwners result arm = planned arm) :
    PlanExact context function result := by
  refine ⟨exits ▸ ownersByName_nodup _, fun arm member => arms arm ▸ accepted.armEnd_nodup member,
    fun path pathMem => ⟨fun decl => ?_, fun before arm binders after split decl => ?_,
      fun before name binding after split own => accepted.kept idle pathMem split own⟩⟩
  · rw [exits, mem_ownersByName]
    constructor
    · intro entry
      rcases accepted.owned_of_entry idle pathMem entry with ⟨own, member, owned⟩
      exact ⟨own, List.mem_append_left _ member, owned⟩
    · rintro ⟨own, _, owned⟩
      exact accepted.entry_of_owned idle pathMem own owned
  · rw [arms]
    exact accepted.armEnd_iff pathMem split decl

end AcceptedWalk

end

/-- The plan of an accepted function whose names denote variables of one class is
exact exactly when the variables an arm binder shadows stay out of its way. -/
theorem planExact_iff {program : Program} {symbols : SymbolTable} {types : TypeResults}
    {summary : DeclNode → Option ReturnSummary} {callEffect : NodeId → Option CallEffect}
    {requirements : List (DeclNode × BorrowChecker.Requirements)}
    {result : DestructionPlan × List MoveTraceEvent}
    (built : SymbolTable.build program = .ok symbols)
    (checked : BorrowChecker.checkPositions .allEnabled symbols types summary program =
      .ok requirements)
    (accepted : run .allEnabled symbols types callEffect program = .ok result)
    (distinct : program.NodesDistinct) {function : Function}
    (member : function ∈ program.functions)
    (names : ∀ event ∈ functionEvents (contextOf .allEnabled symbols types callEffect function)
      function, event.NamesAgree (contextOf .allEnabled symbols types callEffect function)) :
    PlanExact (contextOf .allEnabled symbols types callEffect function) function result.1 ↔
      ShadowedIdle (contextOf .allEnabled symbols types callEffect function) function := by
  rcases run_visit built checked accepted distinct member names with
    ⟨plan, body, final, walk, fits, exits⟩
  have functionAccepted : AcceptedWalk _ function (armEndOwners result.1) plan body final :=
    ⟨contextOf_enforced types callEffect (SymbolTable.build_canonical built) function, walk, fits,
      SymbolTable.build_names_nodup built member⟩
  constructor
  · intro exact
    exact functionAccepted.shadowedIdle_of_exact exact exits
  · intro idle
    exact functionAccepted.exact_of_shadowedIdle idle exits fun _ => rfl

/-! ## A formal that a binder shadows -/

namespace ShadowedFormal

def formalX : DeclNode := { id := 1, name := "x" }

def n : DeclNode := { id := 2, name := "n" }

def binderX : DeclNode := { id := 3, name := "x" }

/-- `len(x) { var n; case x of { N -> n = 0; C(x) -> n = 1 + len(x); } return n; }` -/
def len : Function where
  decl := { id := 0, name := "len" }
  formals := [formalX]
  declarations := [n]
  stmts := [.caseStmt { id := 4 } (.varExpr { id := 5 } "x") [
    .mk { id := 6 } "N" [] (.assignStmt { id := 7 } (.varExpr { id := 8 } "n")
      (.numExpr { id := 9 } 0)),
    .mk { id := 10 } "C" [.var { id := 11 } binderX] (.assignStmt { id := 12 }
      (.varExpr { id := 13 } "n") (.binaryExpr { id := 14 } .add (.numExpr { id := 15 } 1)
        (.funAppExpr { id := 16 } (.varExpr { id := 17 } "len") [.varExpr { id := 18 } "x"])))]]
  returnInfo := { id := 19 }
  returnArg := .varExpr { id := 20 } "n"

/-- `main() { return len(C(N)); }` -/
def main : Function where
  decl := { id := 21, name := "main" }
  formals := []
  declarations := []
  stmts := []
  returnInfo := { id := 22 }
  returnArg := .funAppExpr { id := 23 } (.varExpr { id := 24 } "len")
    [.sumCtorExpr { id := 25 } "C" [.sumCtorExpr { id := 26 } "N" []]]

/-- `type L = N | C(t);`, `len` and `main`. -/
def program : Program where
  typedecls := [⟨"L", [⟨"N", [], 0⟩, ⟨"C", [{ id := 27, name := "t" }], 0⟩], 0⟩]
  functions := [len, main]

def listType : TopType :=
  .mu (.plain 27) (.sumType "L" [("N", 0), ("C", 1)] [.var (.plain 27)])

def types : TypeResults where
  ofDecl decl :=
    if decl.name = "x" then listType
    else if decl = len.decl then .function [listType] .int
    else if decl = main.decl then .function [] .int
    else .int
  ofExpr
    | .sumCtorExpr .. | .varExpr _ "x" => listType
    | _ => .int

/-- Both calls are of `len`, which consumes its argument. -/
def callEffect (_ : NodeId) : Option CallEffect := some ⟨[true]⟩

def context (symbols : SymbolTable) : Context :=
  contextOf .allEnabled symbols types callEffect len

theorem program_accepted : ∃ symbols requirements result,
    SymbolTable.build program = .ok symbols ∧
    BorrowChecker.checkPositions .allEnabled symbols types (fun _ => none) program =
      .ok requirements ∧
    run .allEnabled symbols types callEffect program = .ok result ∧
    (∀ event ∈ functionEvents (context symbols) len, event.NamesAgree (context symbols)) ∧
    formalX ∈ exitOwners result.1 len.decl := by
  have holds : (match SymbolTable.build program with
      | .error _ => false
      | .ok symbols =>
          (BorrowChecker.checkPositions .allEnabled symbols types (fun _ => none) program).isOk
            && ((functionEvents (context symbols) len).all fun event =>
              event.NamesAgree (context symbols))
            && match run .allEnabled symbols types callEffect program with
              | .error _ => false
              | .ok result => decide (formalX ∈ exitOwners result.1 len.decl)) = true := by
    decide +kernel
  split at holds
  · cases holds
  · rename_i symbols built
    rw [Bool.and_eq_true, Bool.and_eq_true, isOk_iff, List.all_eq_true] at holds
    rcases holds with ⟨⟨⟨requirements, checked⟩, names⟩, exits⟩
    split at exits
    · cases exits
    · rename_i result accepted
      exact ⟨symbols, requirements, result, built, checked, accepted,
        fun event member => of_decide_eq_true (names event member), of_decide_eq_true exits⟩

theorem program_distinct : program.NodesDistinct :=
  ⟨by decide, by decide, by decide⟩

/-- The match of an empty list. -/
def path : List Event :=
  [.access .take "x" (some ⟨formalX, false⟩), .enterArm [], .access .store "n" (some ⟨n, false⟩),
    .leaveArm 6 [], .access .take "n" (some ⟨n, false⟩)]

theorem path_mem (symbols : SymbolTable) : path ∈ functionPaths (context symbols) len := by
  have arm : [.enterArm [], .access .store "n" (some ⟨n, false⟩), .leaveArm 6 []] ∈
      armPaths (context symbols) (functionScope len) true (.mk { id := 6 } "N" []
        (.assignStmt { id := 7 } (.varExpr { id := 8 } "n") (.numExpr { id := 9 } 0))) :=
    Language.append_mem_mul (Language.append_mem_mul (Set.mem_singleton _)
      (Set.mem_singleton _)) (Set.mem_singleton _)
  refine Language.append_mem_mul (a := path.take 4) ?_ (Set.mem_singleton _)
  refine Language.append_mem_mul (a := path.take 4) ?_ Language.nil_mem_one
  exact Language.append_mem_mul (a := path.take 1) (Set.mem_singleton _) (.inl arm)

/-- The match consumes the formal, and the exit destroys it once more. -/
theorem accepted_destroysTwice : ∃ symbols requirements result,
    SymbolTable.build program = .ok symbols ∧
    BorrowChecker.checkPositions .allEnabled symbols types (fun _ => none) program =
      .ok requirements ∧
    run .allEnabled symbols types callEffect program = .ok result ∧
    program.NodesDistinct ∧ len ∈ program.functions ∧
    ¬ PlanExact (context symbols) len result.1 := by
  rcases program_accepted with
    ⟨symbols, requirements, result, built, checked, accepted, _, exits⟩
  refine ⟨symbols, requirements, result, built, checked, accepted, program_distinct,
    List.mem_cons_self, fun exact => ?_⟩
  have owned := (((exact.everyPath path (path_mem symbols)).atExit formalX).mp exits).2.2
  have moved : statusAfter formalX (entryStatus len formalX) path = some .moved := by decide
  rw [moved] at owned
  cases owned

theorem shadowedFormal_iff : ∃ symbols result,
    run .allEnabled symbols types callEffect program = .ok result ∧
    (PlanExact (context symbols) len result.1 ↔ ShadowedIdle (context symbols) len) := by
  rcases program_accepted with
    ⟨symbols, requirements, result, built, checked, accepted, names, _⟩
  exact ⟨symbols, result, accepted, planExact_iff built checked accepted program_distinct
    List.mem_cons_self names⟩

end ShadowedFormal

end Topc.MoveAnalysis
