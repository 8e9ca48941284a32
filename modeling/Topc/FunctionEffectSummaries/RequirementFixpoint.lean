import Mathlib.Algebra.Order.BigOperators.Group.Finset
import Topc.FunctionEffectSummaries.Requirements
import Topc.Types.ModeClosure

/-! # The least requirements

The loop over the calls stops, with the least requirements that are closed under
inheritance, in whatever order it visits the calls. -/

namespace Topc.FunctionEffectSummaries

open ChaoticIteration

/-! ## Verdicts -/

theorem judge_both_ne_violated {actualType : TopType} (holds : judge .both actualType ≠ .violated) :
    judgeOne .referent actualType ≠ .violated ∧ judgeOne .self actualType ≠ .violated := by
  revert holds
  simp only [judge, ne_eq, not_true_eq_false, ↓reduceIte]
  cases judgeOne .referent actualType <;> cases judgeOne .self actualType <;> decide

theorem judge_both_undetermined {actualType : TopType} (holds : judge .both actualType ≠ .violated)
    (either : judgeOne .referent actualType = .undetermined ∨
      judgeOne .self actualType = .undetermined) : judge .both actualType = .undetermined := by
  revert holds either
  simp only [judge, ne_eq, not_true_eq_false, ↓reduceIte]
  cases judgeOne .referent actualType <;> cases judgeOne .self actualType <;> decide

/-- A larger requirement is violated where the smaller one is, and undetermined
where the smaller one is, unless it is violated. -/
theorem judge_mono {lower upper : CopyRequirement} (below : lower ≤ upper) (needed : lower ≠ .none)
    {actualType : TopType} (holds : judge upper actualType ≠ .violated) :
    judge lower actualType ≠ .violated ∧
      (judge lower actualType = .undetermined → judge upper actualType = .undetermined) := by
  rcases below with none | isBoth | same
  · exact absurd none needed
  · subst isBoth
    have parts := judge_both_ne_violated holds
    cases lower with
    | none => exact absurd rfl needed
    | referent => exact ⟨parts.1, fun verdict => judge_both_undetermined holds (.inl verdict)⟩
    | self => exact ⟨parts.2, fun verdict => judge_both_undetermined holds (.inr verdict)⟩
    | both => exact ⟨holds, id⟩
  · subst same
    exact ⟨holds, id⟩

/-- A borrow is a copy, also one whose type recurs. -/
theorem judge_self_borrow {actualType : TopType} {referenced : TopType}
    (borrow : actualType = .borrowRef referenced ∨ ∃ v, actualType = .mu v (.borrowRef referenced)) :
    judge .self actualType = .satisfied := by
  rcases borrow with rfl | ⟨v, rfl⟩ <;> rfl

theorem inheritedKind_mono {actual : Expr} {lower upper : CopyRequirement} (below : lower ≤ upper)
    (sameVar : lentVar lower actual = lentVar upper actual) :
    inheritedKind actual lower ≤ inheritedKind actual upper := by
  rw [inheritedKind, inheritedKind, sameVar]
  split
  · exact le_refl _
  · exact below

theorem inherited_mono {actual : Expr} {lower upper : FormalRequirement} (below : lower ≤ upper)
    (sameVar : lentVar lower.kind actual = lentVar upper.kind actual) :
    inherited actual lower ≤ inherited actual upper := by
  refine ⟨inheritedKind_mono below.1 sameVar, ?_⟩
  simp only [inherited, sameVar]
  split
  · calc lower.reasons ||| RequirementReason.lendsToMoveOut.bit
          ||| (upper.reasons ||| RequirementReason.lendsToMoveOut.bit)
        = lower.reasons ||| upper.reasons
            ||| (RequirementReason.lendsToMoveOut.bit ||| RequirementReason.lendsToMoveOut.bit) := by
          ac_rfl
      _ = upper.reasons ||| RequirementReason.lendsToMoveOut.bit := by
          rw [below.2, Nat.or_self]
  · exact below.2

/-! ## Closed requirements -/

section

variable (program : Program) (symbols : SymbolTable) (cg : CallGraph)
  (unifier : TermUnionFind TopType) (summaries : List (DeclNode × Summary))
  (logs : List (DeclNode × List ForwardRecord))

/-- Where the formal needs something, the actual is not in violation, and if its type
leaves the verdict open there is a formal of the caller that takes the requirement. -/
def DecidedAt (passing : Passing) (kind : CopyRequirement) (takes : Nat → Prop) : Prop :=
  kind ≠ .none → ∃ actualType,
    TypeInference.getInferredExprType symbols unifier passing.call.scope passing.actual =
        .ok actualType ∧
      judge kind actualType ≠ .violated ∧
      (judge kind actualType = .undetermined →
        ∃ formal, heirOf program symbols logs passing kind = some formal ∧ takes formal)

def ClosedAt (passing : Passing) (kinds : FormalSlot → CopyRequirement) : Prop :=
  DecidedAt program symbols unifier logs passing (kinds passing.slot) fun formal =>
    inheritedKind passing.actual (kinds passing.slot) ≤ kinds (passing.call.scope, formal)

/-- Closed under inheritance at every call, with no call in violation. -/
def Closed (kinds : FormalSlot → CopyRequirement) : Prop :=
  ∀ call ∈ calls program, ∀ passing ∈ passings symbols cg summaries call,
    ClosedAt program symbols unifier logs passing kinds

/-- The heir has the requirement with its reasons. -/
def SettledAt (passing : Passing) (requirements : Requirements) : Prop :=
  DecidedAt program symbols unifier logs passing (requirements passing.slot).kind fun formal =>
    inherited passing.actual (requirements passing.slot) ≤ requirements (passing.call.scope, formal)

end

section

variable {program : Program} {symbols : SymbolTable} {unifier : TermUnionFind TopType}
  {logs : List (DeclNode × List ForwardRecord)} {passing : Passing}
  {requirements next : Requirements} {moved : Bool}

theorem DecidedAt.imp {kind : CopyRequirement} {takes takes' : Nat → Prop}
    (decided : DecidedAt program symbols unifier logs passing kind takes)
    (weaker : ∀ formal, takes formal → takes' formal) :
    DecidedAt program symbols unifier logs passing kind takes' := by
  intro needed
  rcases decided needed with ⟨actualType, typed, holds, moves⟩
  refine ⟨actualType, typed, holds, fun verdict => ?_⟩
  rcases moves verdict with ⟨formal, heir, taken⟩
  exact ⟨formal, heir, weaker formal taken⟩

theorem SettledAt.closedAt (settled : SettledAt program symbols unifier logs passing requirements) :
    ClosedAt program symbols unifier logs passing fun slot => (requirements slot).kind :=
  settled.imp fun _ => And.left

/-! ## One visit -/

theorem rejectViolated_error (requirement : FormalRequirement) (actualType : TopType) :
    rejectViolated .allEnabled passing requirement actualType ≠ .ok () := by
  simp only [rejectViolated, RuleToggles.reject_allEnabled]
  split <;> exact nofun

theorem rejectUntracked_error : rejectUntracked .allEnabled passing ≠ .ok () := by
  simp only [rejectUntracked, RuleToggles.reject_allEnabled]
  exact nofun

/-- Visiting a passing leaves the requirements, or moves one of them to its heir. -/
theorem resolve_cases
    (result : resolve .allEnabled program symbols unifier logs passing requirements =
      .ok (next, moved)) :
    (next = requirements ∧ moved = false ∧
        SettledAt program symbols unifier logs passing requirements) ∨
      ∃ formal, (requirements passing.slot).kind ≠ .none ∧
        heirOf program symbols logs passing (requirements passing.slot).kind = some formal ∧
        ¬ inherited passing.actual (requirements passing.slot) ≤
          requirements (passing.call.scope, formal) ∧
        next = Function.update requirements (passing.call.scope, formal)
          (requirements (passing.call.scope, formal) ⊔
            inherited passing.actual (requirements passing.slot)) ∧ moved = true := by
  rw [resolve] at result
  split at result
  · rename_i unneeded
    cases result
    exact .inl ⟨rfl, rfl, fun needed => absurd unneeded needed⟩
  · rename_i needed
    rw [bind_eq_ok] at result
    rcases result with ⟨actualType, typed, result⟩
    split at result
    · rename_i verdict
      cases result
      exact .inl ⟨rfl, rfl, fun _ => ⟨actualType, typed, by simp [verdict], by simp [verdict]⟩⟩
    · rw [bind_eq_ok] at result
      rcases result with ⟨⟨⟩, rejected, _⟩
      exact absurd rejected (rejectViolated_error _ _)
    · rename_i verdict
      split at result
      · rw [bind_eq_ok] at result
        rcases result with ⟨⟨⟩, rejected, _⟩
        exact absurd rejected rejectUntracked_error
      · rename_i formal heir
        dsimp only at result
        split at result
        · rename_i grows
          cases result
          exact .inr ⟨formal, needed, heir, fun below => grows (sup_eq_left.mpr below), rfl, rfl⟩
        · rename_i same
          cases result
          refine .inl ⟨rfl, rfl, fun _ => ⟨actualType, typed, by simp [verdict], fun _ => ?_⟩⟩
          exact ⟨formal, heir, sup_eq_left.mp (not_not.mp same)⟩

theorem resolve_satisfied {actualType : TopType}
    (typed : TypeInference.getInferredExprType symbols unifier passing.call.scope passing.actual =
      .ok actualType)
    (verdict : judge (requirements passing.slot).kind actualType = .satisfied) :
    resolve .allEnabled program symbols unifier logs passing requirements =
      .ok (requirements, false) := by
  rw [resolve]
  split
  · rfl
  · rw [typed]
    simp only [bind, Except.bind, verdict]
    rfl

theorem resolve_undetermined {actualType : TopType} {formal : Nat}
    (needed : (requirements passing.slot).kind ≠ .none)
    (typed : TypeInference.getInferredExprType symbols unifier passing.call.scope passing.actual =
      .ok actualType)
    (verdict : judge (requirements passing.slot).kind actualType = .undetermined)
    (heir : heirOf program symbols logs passing (requirements passing.slot).kind = some formal) :
    ∃ moved, resolve .allEnabled program symbols unifier logs passing requirements =
        .ok (Function.update requirements (passing.call.scope, formal)
          (requirements (passing.call.scope, formal) ⊔
            inherited passing.actual (requirements passing.slot)), moved) ∧
      (moved = false ↔ inherited passing.actual (requirements passing.slot) ≤
        requirements (passing.call.scope, formal)) := by
  rw [resolve, if_neg needed, typed]
  simp only [bind, Except.bind, verdict, heir]
  split
  · rename_i grows
    refine ⟨true, rfl, nofun, fun below => ?_⟩
    exact absurd (sup_eq_left.mpr below) grows
  · rename_i same
    have equal := not_not.mp same
    refine ⟨false, ?_, fun _ => sup_eq_left.mp equal, fun _ => rfl⟩
    rw [equal, Function.update_eq_self]
    rfl

/-- A visit that is settled leaves the requirements. -/
theorem resolve_of_settled (settled : SettledAt program symbols unifier logs passing requirements) :
    resolve .allEnabled program symbols unifier logs passing requirements =
      .ok (requirements, false) := by
  by_cases unneeded : (requirements passing.slot).kind = .none
  · exact if_pos unneeded
  · rcases settled unneeded with ⟨actualType, typed, holds, moves⟩
    cases verdict : judge (requirements passing.slot).kind actualType with
    | satisfied => exact resolve_satisfied typed verdict
    | violated => exact absurd verdict holds
    | undetermined =>
        rcases moves verdict with ⟨formal, heir, below⟩
        rcases resolve_undetermined unneeded typed verdict heir with ⟨moved, visited, unmoved⟩
        rw [visited, unmoved.mpr below, sup_eq_left.mpr below, Function.update_eq_self]

/-! ## Requirements below settled ones -/

/-- A borrow that is passed is a copy. -/
def BorrowsCopied (symbols : SymbolTable) (unifier : TermUnionFind TopType) (passing : Passing) :
    Prop :=
  ∀ info var actualType, passing.actual = .borrowExpr info var →
    TypeInference.getInferredExprType symbols unifier passing.call.scope passing.actual =
      .ok actualType → judge .self actualType = .satisfied

/-- Of two requirements that are both open, the larger moves where the smaller does. -/
theorem lentVar_eq (borrows : BorrowsCopied symbols unifier passing) {lower upper : CopyRequirement}
    (below : lower ≤ upper) (needed : lower ≠ .none) {actualType : TopType}
    (typed : TypeInference.getInferredExprType symbols unifier passing.call.scope passing.actual =
      .ok actualType)
    (verdict : judge lower actualType = .undetermined) :
    lentVar lower passing.actual = lentVar upper passing.actual := by
  cases isActual : passing.actual with
  | borrowExpr info var =>
      have notSelf : lower ≠ .self := by
        intro isSelf
        rw [isSelf, borrows info var actualType isActual typed] at verdict
        cases verdict
      have upperNotSelf : upper ≠ .self := by
        intro isSelf
        subst isSelf
        rcases below with none | isBoth | same
        · exact needed none
        · cases isBoth
        · exact notSelf same
      rw [lentVar, lentVar, if_neg notSelf, if_neg upperNotSelf]
  | _ => rfl

theorem resolve_below (borrows : BorrowsCopied symbols unifier passing) {upper : Requirements}
    (below : requirements ≤ upper)
    (settled : SettledAt program symbols unifier logs passing upper) :
    ∃ next moved, resolve .allEnabled program symbols unifier logs passing requirements =
      .ok (next, moved) ∧ next ≤ upper := by
  by_cases unneeded : (requirements passing.slot).kind = .none
  · exact ⟨requirements, false, if_pos unneeded, below⟩
  · have slotBelow := below passing.slot
    have upperNeeded : (upper passing.slot).kind ≠ .none := by
      intro none
      have kindBelow := slotBelow.1
      rw [none] at kindBelow
      rcases kindBelow with lowerNone | isBoth | same
      · exact unneeded lowerNone
      · cases isBoth
      · exact unneeded same
    rcases settled upperNeeded with ⟨actualType, typed, holds, moves⟩
    rcases judge_mono slotBelow.1 unneeded holds with ⟨unviolated, opens⟩
    cases verdict : judge (requirements passing.slot).kind actualType with
    | satisfied => exact ⟨requirements, false, resolve_satisfied typed verdict, below⟩
    | violated => exact absurd verdict unviolated
    | undetermined =>
        rcases moves (opens verdict) with ⟨formal, heir, inheritedBelow⟩
        have sameVar := lentVar_eq borrows slotBelow.1 unneeded typed verdict
        have sameHeir : heirOf program symbols logs passing (requirements passing.slot).kind =
            some formal := by
          rw [← heir, heirOf, heirOf, sameVar]
        rcases resolve_undetermined unneeded typed verdict sameHeir with ⟨moved, visited, _⟩
        refine ⟨_, moved, visited, ?_⟩
        rw [update_le_iff]
        constructor
        · exact sup_le (below _) ((inherited_mono slotBelow sameVar).trans inheritedBelow)
        · exact fun slot _ => below slot

theorem resolve_raising {items : List Passing}
    (borrows : ∀ passing ∈ items, BorrowsCopied symbols unifier passing) :
    Raising (resolve .allEnabled program symbols unifier logs) items where
  up := by
    intro passing state next moved _ visited
    rcases resolve_cases visited with ⟨rfl, _⟩ | ⟨formal, _, _, _, rfl, _⟩
    · exact le_refl _
    · exact le_update_self_iff.mpr le_sup_left
  same := by
    intro passing state next _ visited
    rcases resolve_cases visited with ⟨same, _⟩ | ⟨_, _, _, _, _, moves⟩
    · exact same
    · cases moves
  below := by
    intro passing state upper member below visited
    rcases resolve_cases visited with ⟨_, _, settled⟩ | ⟨_, _, _, _, _, moves⟩
    · exact resolve_below (borrows passing member) below settled
    · cases moves

/-! ## The ranks of the requirements are bounded -/

/-- The formals a visit may read or change. -/
def slotsOf (program : Program) (symbols : SymbolTable) (logs : List (DeclNode × List ForwardRecord))
    (passing : Passing) : List FormalSlot :=
  passing.slot :: ([.referent, .self, .both].filterMap (heirOf program symbols logs passing)).map
    fun formal => (passing.call.scope, formal)

theorem heir_mem_slotsOf {kind : CopyRequirement} (needed : kind ≠ .none) {formal : Nat}
    (heir : heirOf program symbols logs passing kind = some formal) :
    (passing.call.scope, formal) ∈ slotsOf program symbols logs passing := by
  refine List.mem_cons_of_mem _ (List.mem_map_of_mem (List.mem_filterMap.mpr ⟨kind, ?_, heir⟩))
  cases kind with
  | none => exact absurd rfl needed
  | referent | self | both => simp

/-- All reasons that are around. -/
def allReasons (slots : List FormalSlot) (requirements : Requirements) : Nat :=
  slots.foldr (fun slot reasons => (requirements slot).reasons ||| reasons)
    RequirementReason.lendsToMoveOut.bit

theorem reasons_le_all {slots : List FormalSlot} {slot : FormalSlot} (member : slot ∈ slots)
    (requirements : Requirements) : (requirements slot).reasons ||| allReasons slots requirements =
      allReasons slots requirements := by
  induction slots with
  | nil => cases member
  | cons head slots induction =>
      rw [allReasons, List.foldr_cons]
      change _ ||| (_ ||| allReasons slots requirements) = _ ||| allReasons slots requirements
      rcases List.mem_cons.mp member with rfl | later
      · rw [← Nat.or_assoc, Nat.or_self]
      · rw [← Nat.or_assoc, Nat.or_comm (requirements slot).reasons, Nat.or_assoc, induction later]

theorem lends_le_all (slots : List FormalSlot) (requirements : Requirements) :
    RequirementReason.lendsToMoveOut.bit ||| allReasons slots requirements =
      allReasons slots requirements := by
  induction slots with
  | nil => exact Nat.or_self _
  | cons head slots induction =>
      rw [allReasons, List.foldr_cons]
      change _ ||| (_ ||| allReasons slots requirements) = _ ||| allReasons slots requirements
      rw [← Nat.or_assoc, Nat.or_comm RequirementReason.lendsToMoveOut.bit, Nat.or_assoc, induction]

/-- The reasons on the slots are among those given. -/
def Within (slots : List FormalSlot) (reasons : Nat) (requirements : Requirements) : Prop :=
  ∀ slot ∈ slots, (requirements slot).reasons ||| reasons = reasons

theorem inherited_within {reasons : Nat} (lends : RequirementReason.lendsToMoveOut.bit ||| reasons = reasons)
    {actual : Expr} {requirement : FormalRequirement}
    (within : requirement.reasons ||| reasons = reasons) :
    (inherited actual requirement).reasons ||| reasons = reasons := by
  rw [inherited]
  split
  · rw [Nat.or_assoc, lends, within]
  · exact within

def totalRank (slots : List FormalSlot) (requirements : Requirements) : Nat :=
  ∑ slot ∈ slots.toFinset, (requirements slot).rank

theorem totalRank_lt {slots : List FormalSlot} {slot : FormalSlot} (member : slot ∈ slots)
    (below : requirements ≤ next) (different : requirements slot ≠ next slot) :
    totalRank slots requirements < totalRank slots next := by
  apply Finset.sum_lt_sum
  · exact fun other _ => FormalRequirement.rank_mono (below other)
  · exact ⟨slot, List.mem_toFinset.mpr member, FormalRequirement.rank_strict (below slot) different⟩

theorem resolve_bounded {items : List Passing} {slots : List FormalSlot} {reasons : Nat}
    (inside : ∀ passing ∈ items, slotsOf program symbols logs passing ⊆ slots)
    (lends : RequirementReason.lendsToMoveOut.bit ||| reasons = reasons) :
    Bounded (resolve .allEnabled program symbols unifier logs) items (Within slots reasons)
      (totalRank slots) (slots.toFinset.card * (2 + reasons)) where
  kept := by
    intro passing state next moved member within visited
    rcases resolve_cases visited with ⟨rfl, _⟩ | ⟨formal, _, _, _, rfl, _⟩
    · exact within
    · intro slot slotMem
      by_cases here : slot = (passing.call.scope, formal)
      · subst here
        rw [Function.update_self, FormalRequirement.sup_def]
        have ownReasons := within _ slotMem
        have passed : (inherited passing.actual (state passing.slot)).reasons ||| reasons = reasons :=
          inherited_within lends (within passing.slot (inside passing member List.mem_cons_self))
        change _ ||| _ ||| reasons = reasons
        rw [Nat.or_assoc, passed, ownReasons]
      · rw [Function.update_of_ne here]
        exact within slot slotMem
  rises := by
    intro passing state next moved member visited
    rcases resolve_cases visited with ⟨rfl, rfl, _⟩ | ⟨formal, needed, heir, grows, rfl, rfl⟩
    · exact le_refl _
    · apply totalRank_lt (inside passing member (heir_mem_slotsOf needed heir))
      · exact le_update_self_iff.mpr le_sup_left
      · rw [Function.update_self]
        exact fun same => grows (sup_eq_left.mp same.symm)
  limited := by
    intro state within
    rw [totalRank, ← Nat.nsmul_eq_mul]
    apply Finset.sum_le_card_nsmul
    intro slot member
    have small := within slot (List.mem_toFinset.mp member)
    have bound : (state slot).reasons ≤ reasons := by
      rw [← small]
      exact Nat.left_le_or
    have kindBound : (state slot).kind.rank ≤ 2 := by
      cases (state slot).kind <;> decide
    simp only [FormalRequirement.rank]
    omega

end

/-! ## Borrows that are passed -/

section

variable {program : Program} {symbols marked : SymbolTable} {cg : CallGraph}
  {unifier : TermUnionFind TopType} {summaries : List (DeclNode × Summary)}
  {logs : List (DeclNode × List ForwardRecord)}

theorem mem_passings {call : Call} {passing : Passing}
    (member : passing ∈ passings symbols cg summaries call) :
    passing.call = call ∧ passing.actual ∈ call.actuals := by
  rcases List.mem_flatMap.mp member with ⟨⟨target, summary⟩, _, inside⟩
  rcases List.mem_map.mp inside with ⟨⟨actual, position⟩, actualMem, rfl⟩
  have taken := List.mem_zipIdx' actualMem
  have bounded : position < (call.actuals.take summary.formalRequirement.length).length := taken.1
  refine ⟨rfl, ?_⟩
  change actual ∈ call.actuals
  rw [taken.2]
  exact List.mem_of_mem_take (List.getElem_mem bounded)

/-- Inference gives `&x` a borrow type. -/
theorem borrowsCopied (distinct : (program.functions.map Function.decl).Nodup)
    (graph : cg.vertices = program.functions)
    (inferred : TypeInference.runPoly symbols cg = .ok (marked, unifier)) {call : Call}
    (callMem : call ∈ calls program) {passing : Passing}
    (member : passing ∈ passings marked cg summaries call) :
    BorrowsCopied marked unifier passing := by
  intro info var actualType isBorrow typed
  rw [← graph] at distinct
  rcases mem_passings member with ⟨sameCall, actualMem⟩
  rcases List.mem_flatMap.mp callMem with ⟨function, functionMem, inFunction⟩
  rcases List.mem_filterMap.mp inFunction with ⟨node, nodeMem, isCall⟩
  cases node with
  | stmt stmt => cases isCall
  | expr expr =>
      cases expr with
      | funAppExpr callInfo callee actuals =>
          cases isCall
          rw [sameCall, isBorrow] at typed
          rw [isBorrow] at actualMem
          have borrowMem := Function.actual_mem_postOrder nodeMem actualMem
          rcases TypeInference.runPoly_solves distinct inferred with ⟨_, batches, solved, own⟩
          have constrained : (.var (.plain info.id),
              .borrowRef (TypeConstraintVisitor.astToVar marked function.decl var)) ∈
                batches.flatten := by
            apply own function (graph ▸ functionMem)
            refine List.mem_append_left _ (List.mem_flatMap.mpr
              ⟨.expr (.borrowExpr info var), ?_, List.mem_singleton_self _⟩)
            exact List.mem_filter.mpr ⟨borrowMem, rfl⟩
          have sound := TermUnifier.foldlM_solve_sound batches solved.solved
            TermUnifier.consistent_empty
          have rep := sound.2.2 _ constrained
          rcases TopTypeClosure.close_reference solved.keeps sound.1.congruent rfl rep typed with
            ⟨referenced, plain | recursive⟩
          · exact judge_self_borrow (.inl plain)
          · exact judge_self_borrow (.inr recursive)
      | _ => cases isCall

/-! ## The loop over the calls -/

section

variable (program : Program) (symbols : SymbolTable) (cg : CallGraph)
  (summaries : List (DeclNode × Summary)) (logs : List (DeclNode × List ForwardRecord))

def allPassings : List Passing :=
  (calls program).flatMap (passings symbols cg summaries)

def allSlots : List FormalSlot :=
  (allPassings program symbols cg summaries).flatMap (slotsOf program symbols logs)

end

theorem mem_allPassings {order : List Call} (perm : order.Perm (calls program)) (passing : Passing) :
    passing ∈ order.flatMap (passings symbols cg summaries) ↔
      passing ∈ allPassings program symbols cg summaries :=
  (perm.flatMap_right _).mem_iff

theorem slotsOf_subset {order : List Call} (perm : order.Perm (calls program)) :
    ∀ passing ∈ order.flatMap (passings symbols cg summaries),
      slotsOf program symbols logs passing ⊆ allSlots program symbols cg summaries logs := by
  intro passing member slot slotMem
  exact List.mem_flatMap.mpr ⟨passing, (mem_allPassings perm passing).mp member, slotMem⟩

theorem settled_iff {items : List Passing} {requirements : Requirements} :
    Settled (resolve .allEnabled program symbols unifier logs) items requirements ↔
      ∀ passing ∈ items, SettledAt program symbols unifier logs passing requirements := by
  constructor
  · intro settled passing member
    rcases resolve_cases (settled passing member) with ⟨_, _, holds⟩ | ⟨_, _, _, _, _, moves⟩
    · exact holds
    · cases moves
  · exact fun settled passing member => resolve_of_settled (settled passing member)

/-- The kinds of settled requirements are closed. -/
theorem closed_of_settled {order : List Call} (perm : order.Perm (calls program))
    {requirements : Requirements}
    (settled : Settled (resolve .allEnabled program symbols unifier logs)
      (order.flatMap (passings symbols cg summaries)) requirements) :
    Closed program symbols cg unifier summaries logs fun slot => (requirements slot).kind := by
  intro call callMem passing ofCall
  apply SettledAt.closedAt
  apply settled_iff.mp settled passing
  exact (mem_allPassings perm passing).mpr (List.mem_flatMap.mpr ⟨call, callMem, ofCall⟩)

/-- Requirements with closed kinds are settled when they have every reason there is. -/
theorem settledAt_of_closedAt {slots : List FormalSlot} {reasons : Nat} {passing : Passing}
    (inside : slotsOf program symbols logs passing ⊆ slots)
    (lends : RequirementReason.lendsToMoveOut.bit ||| reasons = reasons)
    {requirements : Requirements} (full : ∀ slot ∈ slots, (requirements slot).reasons = reasons)
    (closed : ClosedAt program symbols unifier logs passing fun slot => (requirements slot).kind) :
    SettledAt program symbols unifier logs passing requirements := by
  intro needed
  rcases closed needed with ⟨actualType, typed, holds, moves⟩
  refine ⟨actualType, typed, holds, fun verdict => ?_⟩
  rcases moves verdict with ⟨formal, heir, below⟩
  refine ⟨formal, heir, below, ?_⟩
  rw [full _ (inside (heir_mem_slotsOf needed heir))]
  apply inherited_within lends
  rw [full _ (inside List.mem_cons_self), Nat.or_self]

/-- Closed kinds above the initial ones are those of settled requirements above the
initial map. -/
theorem exists_settled {order : List Call} (perm : order.Perm (calls program))
    {initial : Requirements} {kinds : FormalSlot → CopyRequirement}
    (above : ∀ slot, (initial slot).kind ≤ kinds slot)
    (closed : Closed program symbols cg unifier summaries logs kinds) :
    ∃ upper : Requirements, (∀ slot, (upper slot).kind = kinds slot) ∧ initial ≤ upper ∧
      Settled (resolve .allEnabled program symbols unifier logs)
        (order.flatMap (passings symbols cg summaries)) upper := by
  let slots := allSlots program symbols cg summaries logs
  let upper : Requirements := fun slot =>
    ⟨kinds slot, if slot ∈ slots then allReasons slots initial else (initial slot).reasons⟩
  refine ⟨upper, fun _ => rfl, fun slot => ⟨above slot, ?_⟩, settled_iff.mpr ?_⟩
  · by_cases here : slot ∈ slots
    · simp only [upper, if_pos here]
      exact reasons_le_all here initial
    · simp only [upper, if_neg here]
      exact Nat.or_self _
  · intro passing member
    rcases List.mem_flatMap.mp ((mem_allPassings perm passing).mp member) with
      ⟨call, callMem, ofCall⟩
    apply settledAt_of_closedAt (slotsOf_subset perm passing member) (lends_le_all slots initial)
    · exact fun slot slotMem => if_pos slotMem
    · exact closed call callMem passing ofCall

/-- The propagation of requirements from an initial map, in every order of the calls. -/
structure WellDefined (program : Program) (symbols : SymbolTable) (cg : CallGraph)
    (unifier : TermUnionFind TopType) (summaries : List (DeclNode × Summary))
    (logs : List (DeclNode × List ForwardRecord)) (initial : Requirements) : Prop where
  terminates : ∃ bound, ∀ order, order.Perm (calls program) → ∀ fuel, bound ≤ fuel →
    ∃ outcome, resolveRequirements .allEnabled program symbols cg unifier logs summaries order fuel
      initial = some outcome
  accepts : ∀ order, order.Perm (calls program) → ∀ fuel outcome,
    resolveRequirements .allEnabled program symbols cg unifier logs summaries order fuel initial =
      some outcome → ((∃ result, outcome = .ok result) ↔
        ∃ kinds, (∀ slot, (initial slot).kind ≤ kinds slot) ∧
          Closed program symbols cg unifier summaries logs kinds)
  least : ∀ order, order.Perm (calls program) → ∀ fuel result,
    resolveRequirements .allEnabled program symbols cg unifier logs summaries order fuel initial =
      some (.ok result) → IsLeast {kinds | (∀ slot, (initial slot).kind ≤ kinds slot) ∧
        Closed program symbols cg unifier summaries logs kinds} fun slot => (result slot).kind
  unique : ∀ order, order.Perm (calls program) → ∀ fuel result,
    resolveRequirements .allEnabled program symbols cg unifier logs summaries order fuel initial =
      some (.ok result) → ∀ order', order'.Perm (calls program) → ∀ fuel' result',
        resolveRequirements .allEnabled program symbols cg unifier logs summaries order' fuel'
          initial = some (.ok result') → result' = result

theorem resolveRequirements_wellDefined (distinct : (program.functions.map Function.decl).Nodup)
    (graph : cg.IsBuilt program symbols)
    (inferred : TypeInference.runPoly symbols cg = .ok (marked, unifier))
    (summaries : List (DeclNode × Summary)) (logs : List (DeclNode × List ForwardRecord))
    (initial : Requirements) : WellDefined program marked cg unifier summaries logs initial := by
  have vertices : cg.vertices = program.functions := by
    rcases graph with ⟨_, _, _, _, _, vertices, _⟩
    exact vertices
  have raising : ∀ {order : List Call}, order.Perm (calls program) →
      Raising (resolve .allEnabled program marked unifier logs)
        (order.flatMap (passings marked cg summaries)) := by
    intro order perm
    apply resolve_raising
    intro passing member
    rcases List.mem_flatMap.mp ((mem_allPassings perm passing).mp member) with
      ⟨call, callMem, ofCall⟩
    exact borrowsCopied distinct vertices inferred callMem ofCall
  constructor
  · let slots := allSlots program marked cg summaries logs
    refine ⟨slots.toFinset.card * (2 + allReasons slots initial) + 1, ?_⟩
    intro order perm fuel enough
    have bounded : Bounded (resolve .allEnabled program marked unifier logs)
        (order.flatMap (passings marked cg summaries)) (Within slots (allReasons slots initial))
        (totalRank slots) (slots.toFinset.card * (2 + allReasons slots initial)) :=
      resolve_bounded (slotsOf_subset perm) (lends_le_all slots initial)
    apply bounded.propagate_terminates
    · exact fun slot slotMem => reasons_le_all slotMem initial
    · exact Nat.lt_of_lt_of_le enough (Nat.le_add_left _ _)
  · intro order perm fuel outcome ran
    rw [(raising perm).propagate_accepts_iff ran]
    constructor
    · rintro ⟨upper, above, settled⟩
      exact ⟨fun slot => (upper slot).kind, fun slot => (above slot).1, closed_of_settled perm settled⟩
    · rintro ⟨kinds, above, closed⟩
      rcases exists_settled perm above closed with ⟨upper, _, aboveUpper, settled⟩
      exact ⟨upper, aboveUpper, settled⟩
  · intro order perm fuel result ran
    rcases (raising perm).propagate_isLeast ran with ⟨⟨above, settled⟩, smallest⟩
    refine ⟨⟨fun slot => (above slot).1, closed_of_settled perm settled⟩, ?_⟩
    rintro kinds ⟨aboveKinds, closed⟩ slot
    rcases exists_settled perm aboveKinds closed with ⟨upper, sameKinds, aboveUpper, upperSettled⟩
    rw [← sameKinds slot]
    exact (smallest ⟨aboveUpper, upperSettled⟩ slot).1
  · intro order perm fuel result ran order' perm' fuel' result' ran'
    apply (raising perm').propagate_unique _ ran' ran
    intro passing
    rw [mem_allPassings perm', mem_allPassings perm]

end

namespace PassedOn

def x : DeclNode := { id := 1, name := "x" }

def z : DeclNode := { id := 5, name := "z" }

/-- `drop(x) { return 0; }` -/
def drop : Function where
  decl := { id := 0, name := "drop" }
  formals := [x]
  declarations := []
  stmts := []
  returnInfo := { id := 2 }
  returnArg := .numExpr { id := 3 } 0

/-- `relay(z) { return drop(z); }` -/
def relay : Function where
  decl := { id := 4, name := "relay" }
  formals := [z]
  declarations := []
  stmts := []
  returnInfo := { id := 6 }
  returnArg := .funAppExpr { id := 7 } (.varExpr { id := 8 } "drop") [.varExpr { id := 9 } "z"]

/-- `main() { return relay(1); }` -/
def main : Function where
  decl := { id := 10, name := "main" }
  formals := []
  declarations := []
  stmts := []
  returnInfo := { id := 11 }
  returnArg := .funAppExpr { id := 12 } (.varExpr { id := 13 } "relay") [.numExpr { id := 14 } 1]

def program : Program where
  typedecls := []
  functions := [drop, relay, main]

def solver (symbols : SymbolTable) : Option CfaSolver :=
  CFAnalyzer.analyze program symbols id (fun s source target =>
    (s.findPath id 8 source target).getD []) 16

theorem relay_wellDefined : ∃ symbols cg marked unifier,
    SymbolTable.build program = .ok symbols ∧ cg.IsBuilt program symbols ∧
      TypeInference.runPoly symbols cg = .ok (marked, unifier) ∧
      ∀ summaries logs positions, WellDefined program marked cg unifier summaries logs
        (startRequirements summaries positions) := by
  have holds : (match SymbolTable.build program with
      | .error _ => false
      | .ok symbols =>
          match solver symbols with
          | none => false
          | some s =>
              (TypeInference.runPoly symbols (CallGraphBuilder.build program symbols s)).toOption.isSome)
      = true := by
    decide +kernel
  split at holds
  · cases holds
  · rename_i symbols built
    split at holds
    · cases holds
    · rename_i s analyzed
      cases inferred : TypeInference.runPoly symbols (CallGraphBuilder.build program symbols s) with
      | error error =>
          rw [inferred] at holds
          cases holds
      | ok result =>
          have graph : (CallGraphBuilder.build program symbols s).IsBuilt program symbols :=
            ⟨_, _, _, s, analyzed, rfl, fun _ => .rfl, fun _ => .rfl⟩
          refine ⟨symbols, _, result.1, result.2, built, graph, inferred, ?_⟩
          intro summaries logs positions
          exact resolveRequirements_wellDefined (by decide) graph inferred summaries logs _

end PassedOn

end Topc.FunctionEffectSummaries
