import Topc.MoveAnalysis.VariableTracking

/-! # Following one variable through a case arm -/

open Computability

namespace Topc.MoveAnalysis

open OwnershipPaths

section

variable {context : Context} {byValue : Bool} {patterns : List Pattern} {scope : Scope}

theorem armBinders_isAlias {binding : Binding}
    (member : binding ∈ armBinders byValue patterns) : binding.isAlias = !byValue := by
  rcases List.mem_map.mp member with ⟨decl, _, rfl⟩
  rfl

theorem mem_ownedBinders {decl : DeclNode} :
    decl ∈ ownedBinders context (Pattern.collectAllBindings patterns) byValue ↔
      (⟨decl, false⟩ : Binding) ∈ armBinders byValue patterns ∧ context.isOwn decl = true := by
  rw [ownedBinders_eq, List.mem_map]
  constructor
  · rintro ⟨⟨_, isAlias⟩, member, rfl⟩
    rw [List.mem_filter] at member
    cases isAlias <;> simp_all [Binding.owns]
  · rintro ⟨member, own⟩
    exact ⟨⟨decl, false⟩, List.mem_filter.mpr ⟨member, by simp [Binding.owns, own]⟩, rfl⟩

/-- Owned binders of an arm differ in name, so each is the owner of its name. -/
theorem owner_of_binder (scope : Scope)
    (agree : (Event.enterArm (armBinders byValue patterns)).NamesAgree context)
    {decl : DeclNode} (member : (⟨decl, false⟩ : Binding) ∈ armBinders byValue patterns)
    (own : context.isOwn decl = true) :
    (armScope scope (armBinders byValue patterns)).owner context decl.name = some decl := by
  have owns : Binding.owns context ⟨decl, false⟩ = true := by simp [Binding.owns, own]
  rw [armScope, Scope.owner_append]
  cases found : Scope.owner context (armBinders byValue patterns).reverse decl.name with
  | none =>
      rw [Scope.owner_eq_none] at found
      exact absurd rfl (found _ (List.mem_reverse.mpr member) owns)
  | some other =>
      rcases Scope.owner_eq_some found with ⟨sameName, otherOwn, otherMem⟩
      have otherOwns : Binding.owns context ⟨other, false⟩ = true := by
        simp [Binding.owns, otherOwn]
      have equal := List.inj_on_of_nodup_map agree
        (List.mem_filter.mpr ⟨List.mem_reverse.mp otherMem, otherOwns⟩)
        (List.mem_filter.mpr ⟨member, owns⟩) sameName
      cases equal
      rfl

/-- A variable that is no binder of the arm keeps its owner unless a binder hides it. -/
theorem owner_armScope {decl : DeclNode}
    (unbound : concerns decl (.enterArm (armBinders byValue patterns)) = false)
    (owner : (armScope scope (armBinders byValue patterns)).owner context decl.name = some decl) :
    scope.owner context decl.name = some decl ∧
      Scope.owner context (armBinders byValue patterns).reverse decl.name = none := by
  rw [armScope, Scope.owner_append] at owner
  cases found : Scope.owner context (armBinders byValue patterns).reverse decl.name with
  | none =>
      rw [found] at owner
      exact ⟨owner, rfl⟩
  | some other =>
      rw [found] at owner
      cases owner
      have member := List.mem_reverse.mp (Scope.owner_eq_some found).2.2
      have concerned : concerns decl (.enterArm (armBinders byValue patterns)) = true :=
        List.any_eq_true.mpr ⟨_, member, beq_self_eq_true decl⟩
      rw [unbound] at concerned
      cases concerned

/-- Where no binder hides a variable, none takes its entry over. -/
theorem binderKey_not_mem (canonical : context.symbols.Canonical) {decl : DeclNode}
    (visible : Scope.owner context (armBinders byValue patterns).reverse decl.name = none) :
    binderKey context decl ∉
      (ownedBinders context (Pattern.collectAllBindings patterns) byValue).map
        (binderKey context) := by
  intro member
  rcases List.mem_map.mp member with ⟨binder, binderMem, same⟩
  rcases mem_ownedBinders.mp binderMem with ⟨bound, own⟩
  rw [Scope.owner_eq_none] at visible
  refine visible _ (List.mem_reverse.mpr bound) (by simp [Binding.owns, own]) ?_
  have names := congrArg DeclNode.name same
  rwa [binderKey_name canonical, binderKey_name canonical] at names

/-- The entry of a hidden variable is the one its hiding binder takes over, where
the name resolves at all. -/
theorem binderKey_mem (canonical : context.symbols.Canonical) {decl other : DeclNode}
    (covered : Scope.owner context (armBinders byValue patterns).reverse decl.name = some other)
    (resolved : context.resolveVar (binderKey context decl).name =
      some (binderKey context decl)) :
    binderKey context decl ∈
      (ownedBinders context (Pattern.collectAllBindings patterns) byValue).map
        (binderKey context) := by
  rcases Scope.owner_eq_some covered with ⟨sameName, own, member⟩
  refine List.mem_map.mpr ⟨other, mem_ownedBinders.mpr ⟨List.mem_reverse.mp member, own⟩, ?_⟩
  rw [binderKey_name canonical] at resolved
  rw [binderKey, sameName, resolved]
  rfl

/-- No name stands for a variable in an arm where a binder hides it. -/
theorem unseen_of_covered {decl other : DeclNode}
    (unbound : concerns decl (.enterArm (armBinders byValue patterns)) = false)
    (covered : Scope.owner context (armBinders byValue patterns).reverse decl.name = some other) :
    Unseen decl (armScope scope (armBinders byValue patterns)) := by
  intro name binding found same
  rcases Scope.owner_eq_some covered with ⟨otherName, _, otherMem⟩
  have named := (Scope.lookup_eq_some found).1
  rw [armScope, Scope.lookup, List.find?_append, Option.or_eq_some_iff] at found
  rcases found with inner | ⟨none, _⟩
  · have member := List.mem_reverse.mp (List.mem_of_find?_eq_some inner)
    have concerned : concerns decl (.enterArm (armBinders byValue patterns)) = true :=
      List.any_eq_true.mpr ⟨binding, member, beq_iff_eq.mpr same⟩
    rw [unbound] at concerned
    cases concerned
  · rw [List.find?_eq_none] at none
    refine none _ otherMem ?_
    rw [← named, same, otherName]
    exact beq_self_eq_true _

variable {decl : DeclNode} {tracking : Tracking decl} {rest : Language Event}
  {hidden status : Option OwnershipState}

theorem not_mem_of_bound (distinct : Distinct (armScope scope (armBinders byValue patterns)))
    (bound : concerns decl (.enterArm (armBinders byValue patterns)) = true) :
    ∀ binding ∈ scope, binding.decl ≠ decl := by
  intro binding member same
  rcases List.any_eq_true.mp bound with ⟨other, otherMem, otherSame⟩
  rw [Distinct, armScope, List.map_append, List.nodup_append] at distinct
  refine distinct.2.2 _ (List.mem_map_of_mem (List.mem_reverse.mpr otherMem)) _
    (List.mem_map_of_mem member) ?_
  rw [beq_iff_eq.mp otherSame, same]

/-- A binder of a by-value match receives its payload; one of `case *e` does not. -/
theorem statusStep_enterArm (status : Option OwnershipState)
    (bound : concerns decl (.enterArm (armBinders byValue patterns)) = true) :
    (⟨decl, !byValue⟩ : Binding) ∈ armBinders byValue patterns ∧
      statusStep decl status (.enterArm (armBinders byValue patterns)) =
        if byValue then some .owned else none := by
  cases found : (armBinders byValue patterns).find? fun binding => binding.decl == decl with
  | none =>
      rw [List.find?_eq_none] at found
      rcases List.any_eq_true.mp bound with ⟨other, otherMem, otherSame⟩
      exact absurd otherSame (found other otherMem)
  | some binding =>
      have member := List.mem_of_find?_eq_some found
      have same : binding.decl = decl := by simpa using List.find?_some found
      have isAlias := armBinders_isAlias member
      constructor
      · rwa [show binding = ⟨decl, !byValue⟩ by rw [← same, ← isAlias]] at member
      · simp only [statusStep, found, isAlias]
        cases byValue <;> rfl

/-- The start of an arm. -/
theorem Tracks.enter (enforced : context.Enforced)
    (distinct : Distinct (armScope scope (armBinders byValue patterns)))
    (own : context.isOwn decl = true)
    (agree : (Event.enterArm (armBinders byValue patterns)).NamesAgree context)
    (line : Nat) {before : Walk}
    (tracks : Tracks context tracking scope
      ({[.enterArm (armBinders byValue patterns)]} * rest) hidden before.state status) :
    tracking.ok status (.enterArm (armBinders byValue patterns)) ∧
      Tracks context tracking (armScope scope (armBinders byValue patterns)) rest
        (statusStep decl status (.enterArm (armBinders byValue patterns)))
        (enterArm context line
          (ownedBinders context (Pattern.collectAllBindings patterns) byValue) before).1.state
        (statusStep decl status (.enterArm (armBinders byValue patterns))) := by
  cases bound : concerns decl (.enterArm (armBinders byValue patterns)) with
  | true =>
      have vacant := tracks.unbound (not_mem_of_bound distinct bound)
      subst vacant
      refine ⟨tracking.vacant rfl, ?_⟩
      rcases statusStep_enterArm none bound with ⟨member, step⟩
      rw [step]
      cases byValue with
      | true =>
          have owner := owner_of_binder scope agree member own
          refine .of_owner distinct owner ?_
          rw [entryOf, enterArm_entry, if_pos]
          · exact tracking.received rest
          · exact List.mem_map_of_mem (mem_ownedBinders.mpr ⟨member, own⟩)
      | false =>
          refine ⟨fun _ => rfl, fun _ _ => rfl, fun _ => rfl, fun owner => ?_⟩
          have equal := distinct.eq_of_decl (Scope.owner_eq_some owner).2.2
            (List.mem_append_left _ (List.mem_reverse.mpr member)) rfl
          cases equal
  | false =>
      have sameStatus := statusStep_of_not_concerns bound status
      rw [sameStatus]
      refine ⟨tracking.idle bound, ?_, fun _ _ => rfl, ?_, ?_⟩
      · intro unbound
        exact tracks.unbound fun binding member => unbound binding (List.mem_append_right _ member)
      · intro aliased
        rcases List.mem_append.mp aliased with member | member
        · have concerned : concerns decl (.enterArm (armBinders byValue patterns)) = true :=
            List.any_eq_true.mpr ⟨_, List.mem_reverse.mp member, beq_self_eq_true decl⟩
          rw [bound] at concerned
          cases concerned
        · exact tracks.aliased member
      · intro owner
        rcases owner_armScope bound owner with ⟨outerOwner, visible⟩
        rw [entryOf, enterArm_entry, if_neg (binderKey_not_mem enforced.canonical visible)]
        exact tracking.passes sameStatus (tracks.visible outerOwner)

/-- A binder that owns its payload is planned exactly when it is still owned. -/
theorem mem_stillOwned {ended : StateMap} :
    decl ∈ (ownedBinders context (Pattern.collectAllBindings patterns) byValue).filter
        (fun binder => ownedIn ended (binderKey context binder)) ↔
      ((⟨decl, false⟩ : Binding) ∈ armBinders byValue patterns ∧ context.isOwn decl = true) ∧
        entryOf context ended decl = some .owned := by
  rw [List.mem_filter, mem_ownedBinders, ownedIn_iff]
  rfl

/-- The end of an arm, for a binder of the arm. -/
theorem Tracks.leaveBinder
    (distinct : Distinct (armScope scope (armBinders byValue patterns)))
    (own : context.isOwn decl = true)
    (agree : (Event.enterArm (armBinders byValue patterns)).NamesAgree context)
    (bound : concerns decl (.enterArm (armBinders byValue patterns)) = true)
    {arm : NodeId} {ended after : StateMap} {innerHidden : Option OwnershipState}
    (planned : decl ∈ tracking.planned arm ↔
      decl ∈ (ownedBinders context (Pattern.collectAllBindings patterns) byValue).filter
        fun binder => ownedIn ended (binderKey context binder))
    (inner : Tracks context tracking (armScope scope (armBinders byValue patterns))
      ({[.leaveArm arm (armBinders byValue patterns)]} * rest) innerHidden ended status) :
    tracking.ok status (.leaveArm arm (armBinders byValue patterns)) ∧
      Tracks context tracking scope rest hidden after
        (statusStep decl status (.leaveArm arm (armBinders byValue patterns))) := by
  have outside := not_mem_of_bound distinct bound
  have released : statusStep decl status (.leaveArm arm (armBinders byValue patterns)) = none :=
    if_pos bound
  have member := (statusStep_enterArm status bound).1
  rw [mem_stillOwned] at planned
  constructor
  · cases byValue with
    | true =>
        refine tracking.left (inner.visible (owner_of_binder scope agree member own)) ?_
        rw [planned]
        exact and_iff_right ⟨member, own⟩
    | false =>
        have vacant := inner.aliased (List.mem_append_left _ (List.mem_reverse.mpr member))
        rw [vacant]
        refine tracking.leftVacant fun listed => ?_
        have isAlias := armBinders_isAlias (planned.mp listed).1.1
        cases isAlias
  · rw [released]
    refine ⟨fun _ => rfl, ?_, fun _ => rfl, fun owner => ?_⟩
    · rintro ⟨binding, bindingMem, same⟩
      exact absurd same (outside binding bindingMem)
    · exact absurd rfl (outside _ (Scope.owner_eq_some owner).2.2)

/-- The end of an arm, for a variable from outside the arm. -/
theorem Tracks.leaveOuter (enforced : context.Enforced)
    (agree : (Event.enterArm (armBinders byValue patterns)).NamesAgree context)
    (bound : concerns decl (.enterArm (armBinders byValue patterns)) = false)
    {arm : NodeId} {line : Nat} {before : Walk} {ended : StateMap} {path : List Event}
    {outerStatus : Option OwnershipState}
    (settled : Settled context (armScope scope (armBinders byValue patterns))
        (binderKey context decl) →
      entryOf context ended decl = entryOf context (enterArm context line
        (ownedBinders context (Pattern.collectAllBindings patterns) byValue) before).1.state decl)
    (unseen : decl ∈ scope.map Binding.decl →
      Unseen decl (armScope scope (armBinders byValue patterns)) →
      ∀ event ∈ path, concerns decl event = false)
    (inner : Tracks context tracking (armScope scope (armBinders byValue patterns))
      ({[.leaveArm arm (armBinders byValue patterns)]} * rest) outerStatus ended
      (statusAfter decl outerStatus path))
    (outer : Tracks context tracking scope
      ({.enterArm (armBinders byValue patterns) ::
        (path ++ [.leaveArm arm (armBinders byValue patterns)])} * rest)
      hidden before.state outerStatus) :
    Tracks context tracking scope rest hidden
      (restore (enterArm context line
        (ownedBinders context (Pattern.collectAllBindings patterns) byValue) before).2 ended)
      (statusAfter decl outerStatus path) := by
  have nodup := binderKeys_nodup enforced.canonical agree
  have notBound : ∀ isAlias, (⟨decl, isAlias⟩ : Binding) ∉ armBinders byValue patterns := by
    intro isAlias member
    have concerned : concerns decl (.enterArm (armBinders byValue patterns)) = true :=
      List.any_eq_true.mpr ⟨_, member, beq_self_eq_true decl⟩
    rw [bound] at concerned
    cases concerned
  have leaves : ∀ status,
      statusStep decl status (.leaveArm arm (armBinders byValue patterns)) = status := by
    intro status
    refine statusStep_of_not_concerns ?_ status
    exact bound
  constructor
  · intro unbound
    refine inner.unbound fun binding member => ?_
    rcases List.mem_append.mp member with member | member
    · intro same
      have found := List.mem_reverse.mp member
      rw [show binding = ⟨decl, binding.isAlias⟩ by rw [← same]] at found
      exact notBound _ found
    · exact unbound binding member
  · rintro ⟨binding, member, same⟩ notOwner
    have kept := inner.hidden ⟨binding, List.mem_append_right _ member, same⟩
      fun owner => notOwner (owner_armScope bound owner).1
    rw [kept]
    exact outer.hidden ⟨binding, member, same⟩ notOwner
  · intro aliased
    exact inner.aliased (List.mem_append_right _ aliased)
  · intro owner
    rw [entryOf, restore_entry context line _ _ before ended nodup]
    cases covered : Scope.owner context (armBinders byValue patterns).reverse decl.name with
    | none =>
        have innerOwner : (armScope scope (armBinders byValue patterns)).owner context decl.name =
            some decl := by
          rw [armScope, Scope.owner_append, covered]
          exact owner
        rw [if_neg (binderKey_not_mem enforced.canonical covered)]
        exact tracking.passes (leaves _) (inner.visible innerOwner)
    | some other =>
        -- A binder hides the variable: the arm leaves its status, and puts its entry back.
        have sameEntry : (if binderKey context decl ∈
              (ownedBinders context (Pattern.collectAllBindings patterns) byValue).map
                (binderKey context)
            then before.state[binderKey context decl]? else ended[binderKey context decl]?) =
            entryOf context before.state decl := by
          split
          · rfl
          · rename_i unbound
            have settledKey : Settled context (armScope scope (armBinders byValue patterns))
                (binderKey context decl) := by
              intro resolved
              exact absurd (binderKey_mem enforced.canonical covered resolved) unbound
            rw [← entryOf, settled settledKey, entryOf, enterArm_entry, if_neg unbound]
            rfl
        have inScope : decl ∈ scope.map Binding.decl :=
          List.mem_map.mpr ⟨_, (Scope.owner_eq_some owner).2.2, rfl⟩
        have elsewhere := unseen inScope (unseen_of_covered bound covered)
        rw [sameEntry, statusAfter_of_not_concerns elsewhere]
        refine tracking.skips ?_ (outer.visible owner)
        exact List.forall_mem_cons.mpr ⟨bound,
          List.forall_mem_append.mpr ⟨elsewhere, List.forall_mem_singleton.mpr bound⟩⟩

/-- The end of an arm. -/
theorem Tracks.leave (enforced : context.Enforced)
    (distinct : Distinct (armScope scope (armBinders byValue patterns)))
    (own : context.isOwn decl = true)
    (agree : (Event.enterArm (armBinders byValue patterns)).NamesAgree context)
    {arm : NodeId} {line : Nat} {before : Walk} {ended : StateMap} {path : List Event}
    (planned : decl ∈ tracking.planned arm ↔
      decl ∈ (ownedBinders context (Pattern.collectAllBindings patterns) byValue).filter
        fun binder => ownedIn ended (binderKey context binder))
    (settled : Settled context (armScope scope (armBinders byValue patterns))
        (binderKey context decl) →
      entryOf context ended decl = entryOf context (enterArm context line
        (ownedBinders context (Pattern.collectAllBindings patterns) byValue) before).1.state decl)
    (outer : Tracks context tracking scope
      ({.enterArm (armBinders byValue patterns) ::
        (path ++ [.leaveArm arm (armBinders byValue patterns)])} * rest)
      hidden before.state status)
    (unseen : decl ∈ scope.map Binding.decl →
      Unseen decl (armScope scope (armBinders byValue patterns)) →
      ∀ event ∈ path, concerns decl event = false)
    (inner : Tracks context tracking (armScope scope (armBinders byValue patterns))
      ({[.leaveArm arm (armBinders byValue patterns)]} * rest)
      (statusStep decl status (.enterArm (armBinders byValue patterns))) ended
      (statusAfter decl status (.enterArm (armBinders byValue patterns) :: path))) :
    tracking.ok (statusAfter decl status (.enterArm (armBinders byValue patterns) :: path))
        (.leaveArm arm (armBinders byValue patterns)) ∧
      Tracks context tracking scope rest hidden
        (restore (enterArm context line
          (ownedBinders context (Pattern.collectAllBindings patterns) byValue) before).2 ended)
        (statusStep decl
          (statusAfter decl status (.enterArm (armBinders byValue patterns) :: path))
          (.leaveArm arm (armBinders byValue patterns))) := by
  cases bound : concerns decl (.enterArm (armBinders byValue patterns)) with
  | true => exact inner.leaveBinder distinct own agree bound planned
  | false =>
      have left : concerns decl (.leaveArm arm (armBinders byValue patterns)) = false := bound
      rw [statusStep_of_not_concerns left]
      rw [statusAfter_cons, statusStep_of_not_concerns bound] at inner ⊢
      exact ⟨tracking.idle left, inner.leaveOuter enforced agree bound settled unseen outer⟩

end

end Topc.MoveAnalysis
