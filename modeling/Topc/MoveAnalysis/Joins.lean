import Topc.MoveAnalysis.EventSteps

/-! # Joins, loops and arms, one variable at a time -/

namespace Topc.MoveAnalysis

@[simp] theorem ownedIn_iff (state : StateMap) (key : DeclNode) :
    ownedIn state key = true ↔ state[key]? = some .owned := by
  simp [ownedIn]

@[simp] theorem movedIn_iff (state : StateMap) (key : DeclNode) :
    movedIn state key = true ↔ state[key]? = some .moved := by
  simp [movedIn]

theorem mem_entriesOf (branches : List StateMap) (key : DeclNode) :
    key ∈ entriesOf branches ↔ ∃ branch ∈ branches, key ∈ branch := by
  have collected : ∀ (branches : List StateMap) (keys : Std.ExtTreeSet DeclNode),
      key ∈ branches.foldl (fun keys branch => keys.insertMany branch.keys) keys ↔
        key ∈ keys ∨ ∃ branch ∈ branches, key ∈ branch := by
    intro branches
    induction branches with
    | nil => simp
    | cons branch branches induction =>
        intro keys
        rw [List.foldl_cons, induction]
        simp [or_assoc]
  rw [entriesOf, Std.ExtTreeSet.mem_toList, collected]
  simp

/-! ## Joins -/

/-- The entry of a variable after a join of branches that agree on it. -/
def joinedEntry (branches : List StateMap) (key : DeclNode) : Option OwnershipState :=
  if branches.all fun branch => ownedIn branch key then some .owned
  else if branches.any fun branch => movedIn branch key then some .moved
  else none

/-- The branches agree on whether a variable is owned. -/
def Agree (branches : List StateMap) (key : DeclNode) : Prop :=
  (∃ branch ∈ branches, branch[key]? = some .owned) →
    ∀ branch ∈ branches, branch[key]? = some .owned

section

variable {context : Context} (enforced : context.rules = .allEnabled)

include enforced

theorem joinVar_eq_ok {branches : List StateMap} {joined result : StateMap} {decl : DeclNode}
    (join : joinVar context branches joined decl = .ok result) :
    Agree branches decl ∧ ∀ key, result[key]? =
      if decl = key then joinedEntry branches key <|> joined[key]? else joined[key]? := by
  unfold joinVar at join
  unfold joinedEntry Agree
  by_cases all : branches.all fun branch => ownedIn branch decl
  · simp only [all, if_true] at join
    cases join
    refine ⟨fun _ => by simpa using all, fun key => ?_⟩
    by_cases same : decl = key
    · subst same
      simp [all]
    · simp [Std.ExtTreeMap.getElem?_insert, same]
  · by_cases any : branches.any fun branch => ownedIn branch decl
    · simp [all, any, enforced, bind, Except.bind] at join
    · simp only [all, any] at join
      cases join
      refine ⟨fun owned => absurd (by simpa using owned) any, fun key => ?_⟩
      by_cases same : decl = key
      · subst same
        cases branches.any fun branch => movedIn branch decl <;> simp [all]
      · cases branches.any fun branch => movedIn branch decl <;>
          simp [Std.ExtTreeMap.getElem?_insert, same]

theorem joinVars_eq_ok {branches : List StateMap} {keys : List DeclNode} :
    ∀ {joined result : StateMap},
      keys.foldlM (joinVar context branches) joined = .ok result →
      (∀ key ∈ keys, Agree branches key) ∧ ∀ key, result[key]? =
        if key ∈ keys then joinedEntry branches key <|> joined[key]? else joined[key]? := by
  induction keys with
  | nil =>
      intro joined result join
      cases join
      simp
  | cons head keys induction =>
      intro joined result join
      rw [List.foldlM_cons, bind_eq_ok] at join
      rcases join with ⟨mid, first, rest⟩
      have headResult := joinVar_eq_ok enforced first
      have tailResult := induction rest
      constructor
      · intro key member
        rcases List.mem_cons.mp member with equal | member
        · exact equal ▸ headResult.1
        · exact tailResult.1 key member
      · intro key
        rw [tailResult.2 key, headResult.2 key]
        by_cases same : head = key
        · subst same
          cases joinedEntry branches head <;> by_cases member : head ∈ keys <;> simp [member]
        · simp [same, Ne.symm same]

/-- Every branch agrees with the others on what is owned, and a variable moved
on some branch is moved after the join. -/
theorem joinStates_eq_ok {branches : List StateMap} {joined : StateMap}
    (nonempty : branches ≠ []) (join : joinStates context branches = .ok joined)
    (key : DeclNode) :
    Agree branches key ∧ joined[key]? = joinedEntry branches key := by
  have result := joinVars_eq_ok enforced join
  have entry := result.2 key
  by_cases member : key ∈ entriesOf branches
  · exact ⟨result.1 key member, by simpa [member] using entry⟩
  · have absent : ∀ branch ∈ branches, branch[key]? = none := by
      intro branch branchMem
      rw [getElem?_eq_none_iff]
      intro keyMem
      exact member ((mem_entriesOf branches key).mpr ⟨branch, branchMem, keyMem⟩)
    constructor
    · rintro ⟨branch, branchMem, owned⟩
      rw [absent branch branchMem] at owned
      cases owned
    · rw [entry]
      rcases List.exists_mem_of_ne_nil branches nonempty with ⟨branch, branchMem⟩
      have notOwned : ¬ ∀ branch ∈ branches, branch[key]? = some .owned := by
        intro owned
        have := owned branch branchMem
        rw [absent branch branchMem] at this
        cases this
      have notMoved : ¬ ∃ branch ∈ branches, branch[key]? = some .moved := by
        rintro ⟨other, otherMem, moved⟩
        rw [absent other otherMem] at moved
        cases moved
      simp [member, joinedEntry, notOwned, notMoved]

theorem joinStates_owned_iff {branches : List StateMap} {joined branch : StateMap}
    (join : joinStates context branches = .ok joined) (member : branch ∈ branches)
    (key : DeclNode) :
    joined[key]? = some .owned ↔ branch[key]? = some .owned := by
  have result := joinStates_eq_ok enforced (List.ne_nil_of_mem member) join key
  constructor
  · intro owned
    rw [result.2, joinedEntry] at owned
    by_cases all : branches.all fun branch => ownedIn branch key
    · exact (by simpa using all : ∀ branch ∈ branches, branch[key]? = some .owned) branch member
    · rw [if_neg all] at owned
      split at owned <;> cases owned
  · intro owned
    have all := result.1 ⟨branch, member, owned⟩
    rw [result.2, joinedEntry]
    simp only [List.all_eq_true, ownedIn_iff]
    rw [if_pos all]

theorem joinStates_moved {branches : List StateMap} {joined branch : StateMap}
    (join : joinStates context branches = .ok joined) (member : branch ∈ branches)
    {key : DeclNode} (moved : branch[key]? = some .moved) :
    joined[key]? = some .moved := by
  have result := joinStates_eq_ok enforced (List.ne_nil_of_mem member) join key
  rw [result.2, joinedEntry]
  have notAll : ¬ branches.all fun branch => ownedIn branch key := by
    intro all
    have owned := List.all_eq_true.mp all branch member
    rw [ownedIn_iff, moved] at owned
    cases owned
  have some : branches.any fun branch => movedIn branch key :=
    List.any_eq_true.mpr ⟨branch, member, (movedIn_iff _ _).mpr moved⟩
  simp [notAll, some]

/-! ## Loops -/

theorem assertLoopInvariant_owned_iff {preState bodyState : StateMap} {line : Nat}
    (holds : assertLoopInvariant context preState bodyState line = .ok ()) (key : DeclNode) :
    preState[key]? = some .owned ↔ bodyState[key]? = some .owned := by
  rw [← ownedIn_iff, ← ownedIn_iff]
  by_cases member : key ∈ entriesOf [preState, bodyState]
  · have check := forM_eq_ok.mp holds key member
    cases before : ownedIn preState key <;> cases after : ownedIn bodyState key <;>
      simp [before, after, enforced] at check ⊢
  · have absent : ∀ state ∈ [preState, bodyState], state[key]? = none := by
      intro state stateMem
      rw [getElem?_eq_none_iff]
      intro keyMem
      exact member ((mem_entriesOf _ key).mpr ⟨state, stateMem, keyMem⟩)
    simp [ownedIn, absent preState (by simp), absent bodyState (by simp)]

end

/-! ## Arms -/

section

variable (context : Context) (line : Nat)

theorem enterArm_plan (binders : List DeclNode) : ∀ walk,
    (enterArm context line binders walk).1.plan = walk.plan := by
  induction binders with
  | nil => intro walk; rfl
  | cons binder binders induction => intro walk; exact induction _

theorem enterArm_entry (binders : List DeclNode) (key : DeclNode) : ∀ walk,
    (enterArm context line binders walk).1.state[key]? =
      if key ∈ binders.map (binderKey context) then some .owned else walk.state[key]? := by
  induction binders with
  | nil => intro walk; simp [enterArm]
  | cons binder binders induction =>
      intro walk
      rw [enterArm, induction, Walk.log_state, Walk.set_state, Std.ExtTreeMap.getElem?_insert]
      by_cases member : key ∈ binders.map (binderKey context)
      · rw [if_pos member, if_pos (by simp [member])]
      · by_cases same : binderKey context binder = key
        · simp [same]
        · simp [same, Ne.symm same, member]

@[simp] theorem restore_cons (key : DeclNode) (previous : Option OwnershipState)
    (saved : List (DeclNode × Option OwnershipState)) (state : StateMap) :
    restore ((key, previous) :: saved) state =
      restore saved (state.alter key fun _ => previous) := by
  cases previous with
  | none =>
      rw [restore]
      congr 1
      ext1 other
      simp [Std.ExtTreeMap.getElem?_erase, Std.ExtTreeMap.getElem?_alter]
  | some previous =>
      rw [restore]
      congr 1
      ext1 other
      simp [Std.ExtTreeMap.getElem?_insert, Std.ExtTreeMap.getElem?_alter]

/-- The end of an arm puts back what its binders replaced. Two binders of one
name would not: the second remembers the entry the first one made. -/
theorem restore_entry (binders : List DeclNode) (key : DeclNode) : ∀ walk state,
    (binders.map (binderKey context)).Nodup →
      (restore (enterArm context line binders walk).2 state)[key]? =
        if key ∈ binders.map (binderKey context) then walk.state[key]? else state[key]? := by
  induction binders with
  | nil => intro walk state _; simp [enterArm, restore]
  | cons binder binders induction =>
      intro walk state nodup
      rw [List.map_cons, List.nodup_cons] at nodup
      rw [enterArm, restore_cons, induction _ _ nodup.2, Walk.log_state, Walk.set_state,
        Std.ExtTreeMap.getElem?_insert, Std.ExtTreeMap.getElem?_alter]
      by_cases member : key ∈ binders.map (binderKey context)
      · have different : binderKey context binder ≠ key := fun equal =>
          nodup.1 (equal ▸ member)
        rw [if_pos member, List.map_cons, if_pos (List.mem_cons_of_mem _ member)]
        simp [different]
      · rw [if_neg member]
        by_cases same : binderKey context binder = key
        · subst same
          simp
        · simp only [List.map_cons, List.mem_cons, Ne.symm same, member, or_self, if_false]
          simp [same]

end

end Topc.MoveAnalysis
