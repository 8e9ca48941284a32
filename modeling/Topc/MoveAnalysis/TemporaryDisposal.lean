import Topc.MoveAnalysis.Temporaries

/-! # Disposal of temporaries

Where the checks have left a temporary, the code disposes of it once or not at
all. So it is enough to look at each node by itself. -/

open Computability

namespace Topc.Temporaries

open MoveAnalysis (Context)
open Handling

section

variable {context : Context} {plan : DestructionPlan}

/-! ## Expressions -/

theorem exprTrace_eq (expr : Expr) :
    exprTrace context plan expr = heldTrace context plan expr ++ produce context.types expr := by
  cases expr <;> simp [exprTrace, heldTrace, produce, temporary?]

/-- What comes after the parts of an expression: its value, and how it is handed on. -/
theorem spares_produce (expr : Expr) (handedOn : Prop) [Decidable handedOn] :
    Spares (produce context.types expr ++ if handedOn then dispose context.types expr else []) := by
  rw [produce, dispose]
  cases temporary? context.types expr with
  | none => split <;> exact spares_nil
  | some node =>
      split
      · exact spares_within node spares_nil
      · exact spares_produced node

theorem disposedOnce_produce (expr : Expr) (handedOn : Prop) [Decidable handedOn] :
    DisposedOnce (produce context.types expr
        ++ if handedOn then dispose context.types expr else []) ↔
      (temporary? context.types expr ≠ none → handedOn) := by
  rw [produce, dispose]
  cases temporary? context.types expr with
  | none => simp [disposedOnce_nil]
  | some node =>
      by_cases handed : handedOn
      · rw [if_pos handed]
        exact iff_of_true ((disposedOnce_within List.not_mem_nil).mpr disposedOnce_nil)
          fun _ => handed
      · rw [if_neg handed]
        exact iff_of_false (not_disposedOnce_produced node) fun needed => handed (needed nofun)

theorem spares_handedOn {expr : Expr} (held : Spares (heldTrace context plan expr))
    (handedOn : Prop) [Decidable handedOn] :
    Spares (exprTrace context plan expr
      ++ if handedOn then dispose context.types expr else []) := by
  rw [exprTrace_eq, List.append_assoc]
  exact held.append (spares_produce expr handedOn)

variable (context plan) in
theorem disposedOnce_handedOn (expr : Expr) (handedOn : Prop) [Decidable handedOn] :
    DisposedOnce (exprTrace context plan expr
        ++ if handedOn then dispose context.types expr else []) ↔
      DisposedOnce (heldTrace context plan expr) ∧
        (temporary? context.types expr ≠ none → handedOn) := by
  rw [exprTrace_eq, List.append_assoc, disposedOnce_append (spares_produce expr handedOn),
    disposedOnce_produce]

theorem spares_exprTrace {expr : Expr} (held : Spares (heldTrace context plan expr)) :
    Spares (exprTrace context plan expr) := by
  have handed := spares_handedOn held False
  rwa [if_neg id, List.append_nil] at handed

theorem disposedOnce_exprTrace (expr : Expr) :
    DisposedOnce (exprTrace context plan expr) ↔
      DisposedOnce (heldTrace context plan expr) ∧ temporary? context.types expr = none := by
  have handed := disposedOnce_handedOn context plan expr False
  rwa [if_neg id, List.append_nil, ne_eq, imp_false, not_not] at handed

theorem spares_actualsTrace {actuals : List Expr}
    (each : ∀ actual ∈ actuals, Spares (heldTrace context plan actual)) :
    ∀ consumes, Spares (actualsTrace context plan consumes actuals) := by
  induction actuals with
  | nil => exact fun _ => spares_nil
  | cons actual actuals induction =>
      intro consumes
      rw [actualsTrace]
      exact (spares_handedOn (each actual List.mem_cons_self) _).append
        (induction (fun other member => each other (List.mem_cons_of_mem _ member)) _)

theorem spares_payloadsTrace {payloads : List Expr}
    (each : ∀ payload ∈ payloads, Spares (heldTrace context plan payload)) :
    Spares (payloadsTrace context plan payloads) := by
  induction payloads with
  | nil => exact spares_nil
  | cons payload payloads induction =>
      rw [payloadsTrace]
      have handed := spares_handedOn (each payload List.mem_cons_self) True
      rw [if_pos trivial] at handed
      exact handed.append
        (induction fun other member => each other (List.mem_cons_of_mem _ member))

variable (context plan) in
theorem spares_heldTrace (expr : Expr) : Spares (heldTrace context plan expr) := by
  induction expr with
  | numExpr | varExpr | inputExpr => exact spares_nil
  | binaryExpr info op left right leftSpares rightSpares =>
      exact (spares_exprTrace leftSpares).append (spares_exprTrace rightSpares)
  | funAppExpr info function actuals functionSpares actualsSpare =>
      exact (spares_exprTrace functionSpares).append (spares_actualsTrace actualsSpare _)
  | allocExpr info initializer spares => exact spares_exprTrace spares
  | borrowExpr info var spares =>
      have whole : Spares (exprTrace context plan var) := spares_exprTrace spares
      exact whole
  | deRefExpr info ptr spares => exact spares_handedOn spares _
  | sumCtorExpr info tag args argsSpare => exact spares_payloadsTrace argsSpare

variable (context plan) in
/-- The value of the expression apart, its temporaries are disposed of where each
node hands them on. -/
def Disposes (expr : Expr) : Prop :=
  (∀ node ∈ expr.postOrder, Checked context plan node) →
    (DisposedOnce (heldTrace context plan expr) ↔ ∀ node ∈ expr.postOrder, HandsOn context node)

theorem disposedOnce_actualsTrace {actuals : List Expr}
    (each : ∀ actual ∈ actuals, Disposes context plan actual)
    (checked : ∀ node ∈ Expr.postOrderOf actuals, Checked context plan node) : ∀ consumes,
      DisposedOnce (actualsTrace context plan consumes actuals) ↔
        (∀ node ∈ Expr.postOrderOf actuals, HandsOn context node) ∧
          ActualsConsumed context consumes actuals := by
  induction actuals with
  | nil =>
      intro consumes
      exact iff_of_true disposedOnce_nil ⟨nofun, trivial⟩
  | cons actual actuals induction =>
      intro consumes
      rw [Expr.postOrderOf, List.forall_mem_append] at checked
      have laterSpare := spares_actualsTrace
        (fun other (_ : other ∈ actuals) => spares_heldTrace context plan other) consumes.tail
      have later := induction (fun other member => each other (List.mem_cons_of_mem _ member))
        checked.2 consumes.tail
      rw [actualsTrace, disposedOnce_append laterSpare, disposedOnce_handedOn, later,
        each actual List.mem_cons_self checked.1, Expr.postOrderOf, List.forall_mem_append,
        ActualsConsumed, and_and_and_comm]

theorem disposedOnce_payloadsTrace {payloads : List Expr}
    (each : ∀ payload ∈ payloads, Disposes context plan payload)
    (checked : ∀ node ∈ Expr.postOrderOf payloads, Checked context plan node) :
    DisposedOnce (payloadsTrace context plan payloads) ↔
      ∀ node ∈ Expr.postOrderOf payloads, HandsOn context node := by
  induction payloads with
  | nil => exact iff_of_true disposedOnce_nil nofun
  | cons payload payloads induction =>
      rw [Expr.postOrderOf, List.forall_mem_append] at checked
      have laterSpare := spares_payloadsTrace fun other (_ : other ∈ payloads) =>
        spares_heldTrace context plan other
      have later := induction (fun other member => each other (List.mem_cons_of_mem _ member))
        checked.2
      have first := disposedOnce_handedOn context plan payload True
      rw [if_pos trivial, each payload List.mem_cons_self checked.1] at first
      rw [payloadsTrace, disposedOnce_append laterSpare, first, later, Expr.postOrderOf,
        List.forall_mem_append, and_iff_left fun _ => trivial]

/-- The operands of a node that keeps no value are no temporaries, or they are lost. -/
theorem disposedOnce_operand {expr : Expr} (disposes : Disposes context plan expr)
    (checked : ∀ node ∈ expr.postOrder, Checked context plan node)
    (dropped : temporary? context.types expr = none) :
    DisposedOnce (exprTrace context plan expr) ↔ ∀ node ∈ expr.postOrder, HandsOn context node := by
  rw [disposedOnce_exprTrace, disposes checked, and_iff_left dropped]

theorem disposedOnce_binary {info : NodeInfo} {op : BinaryOp} {left right : Expr}
    (leftDisposes : Disposes context plan left) (rightDisposes : Disposes context plan right) :
    Disposes context plan (.binaryExpr info op left right) := by
  intro checked
  rw [Expr.postOrder, List.forall_mem_append, List.forall_mem_append, List.forall_mem_singleton]
    at checked
  have whole : heldTrace context plan (.binaryExpr info op left right) =
      exprTrace context plan left ++ exprTrace context plan right := rfl
  have operands : HandsOn context (.expr (.binaryExpr info op left right)) ↔
      temporary? context.types left = none ∧ temporary? context.types right = none ∨
        (op ≠ .eq ∧ op ≠ .neq) := by
    cases op <;> simp [HandsOn]
  have ints : op ≠ .eq ∧ op ≠ .neq →
      temporary? context.types left = none ∧ temporary? context.types right = none :=
    fun other => checked.2 other.1 other.2
  rw [whole, disposedOnce_append (spares_exprTrace (spares_heldTrace context plan right)),
    disposedOnce_exprTrace, disposedOnce_exprTrace, leftDisposes checked.1.1,
    rightDisposes checked.1.2, Expr.postOrder, List.forall_mem_append, List.forall_mem_append,
    List.forall_mem_singleton, operands, or_iff_left_of_imp ints]
  tauto

/-- The temporaries inside an expression are all disposed of exactly when its nodes
hand theirs on. -/
theorem disposes (expr : Expr) : Disposes context plan expr := by
  induction expr with
  | numExpr | varExpr | inputExpr =>
      intro _
      refine iff_of_true disposedOnce_nil fun node member => ?_
      rw [List.mem_singleton.mp member]
      trivial
  | binaryExpr info op left right leftDisposes rightDisposes =>
      exact disposedOnce_binary leftDisposes rightDisposes
  | funAppExpr info function actuals functionDisposes actualsDispose =>
      intro checked
      rw [Expr.postOrder, List.forall_mem_append, List.forall_mem_append, List.forall_mem_singleton]
        at checked
      have actualsSpare := spares_actualsTrace (fun actual (_ : actual ∈ actuals) =>
        spares_heldTrace context plan actual) (context.consumes info.id)
      rw [heldTrace, disposedOnce_append actualsSpare,
        disposedOnce_operand functionDisposes checked.1.1 checked.2,
        disposedOnce_actualsTrace actualsDispose checked.1.2, Expr.postOrder,
        List.forall_mem_append, List.forall_mem_append, List.forall_mem_singleton, and_assoc,
        HandsOn]
  | allocExpr info initializer initializerDisposes =>
      intro checked
      rw [Expr.postOrder, List.forall_mem_append, List.forall_mem_singleton] at checked
      rw [heldTrace, disposedOnce_exprTrace, initializerDisposes checked.1, Expr.postOrder,
        List.forall_mem_append, List.forall_mem_singleton]
      refine and_congr_right fun _ => ⟨fun none _ => none, fun recursive => ?_⟩
      by_contra some
      exact some (recursive (checked.2 some))
  | borrowExpr info var varDisposes =>
      intro checked
      rw [Expr.postOrder, List.forall_mem_append, List.forall_mem_singleton] at checked
      have whole : heldTrace context plan (.borrowExpr info var) = exprTrace context plan var := rfl
      rw [whole, disposedOnce_operand varDisposes checked.1 checked.2, Expr.postOrder,
        List.forall_mem_append, List.forall_mem_singleton]
      exact (and_iff_left trivial).symm
  | deRefExpr info ptr ptrDisposes =>
      intro checked
      rw [Expr.postOrder, List.forall_mem_append, List.forall_mem_singleton] at checked
      have whole : heldTrace context plan (.deRefExpr info ptr) = exprTrace context plan ptr
          ++ if info.id ∈ plan.freeAfterUse then dispose context.types ptr else [] := rfl
      have freed : temporary? context.types ptr ≠ none → info.id ∈ plan.freeAfterUse := checked.2
      rw [whole, disposedOnce_handedOn, ptrDisposes checked.1, and_iff_left freed,
        Expr.postOrder, List.forall_mem_append, List.forall_mem_singleton]
      exact (and_iff_left trivial).symm
  | sumCtorExpr info tag args argsDispose =>
      intro checked
      rw [Expr.postOrder, List.forall_mem_append, List.forall_mem_singleton] at checked
      rw [heldTrace, disposedOnce_payloadsTrace argsDispose checked.1, Expr.postOrder,
        List.forall_mem_append, List.forall_mem_singleton]
      exact (and_iff_left trivial).symm

/-! ## Assignments -/

theorem mem_exprIds_append {first second : List AstNode} {node : NodeId} :
    node ∈ exprIds (first ++ second) ↔ node ∈ exprIds first ∨ node ∈ exprIds second := by
  rw [exprIds, List.filterMap_append, List.mem_append]
  rfl

theorem temporary?_mem_exprIds {expr : Expr} {node : NodeId}
    (isTemporary : temporary? context.types expr = some node) :
    node = expr.info.id ∧ node ∈ exprIds expr.postOrder := by
  have same : node = expr.info.id := by
    unfold temporary? at isTemporary
    split at isTemporary
    any_goals
      split at isTemporary
      · exact (Option.some.inj isTemporary).symm
      · cases isTemporary
    cases isTemporary
  subst same
  exact ⟨rfl, List.mem_filterMap.mpr ⟨.expr expr, expr.self_mem_postOrder, rfl⟩⟩

theorem token_mem_produce {expr : Expr} {node : NodeId}
    (member : node ∈ (produce context.types expr).map Handling.token) :
    node ∈ exprIds expr.postOrder := by
  rw [produce, List.map_map, List.mem_map] at member
  rcases member with ⟨_, isTemporary, rfl⟩
  exact (temporary?_mem_exprIds (Option.mem_toList.mp isTemporary)).2

theorem token_mem_dispose {expr : Expr} {node : NodeId} (handedOn : Prop) [Decidable handedOn]
    (member : node ∈ (if handedOn then dispose context.types expr else []).map Handling.token) :
    node ∈ exprIds expr.postOrder := by
  split at member
  · rw [dispose, List.map_map, List.mem_map] at member
    rcases member with ⟨_, isTemporary, rfl⟩
    exact (temporary?_mem_exprIds (Option.mem_toList.mp isTemporary)).2
  · cases member

variable (context plan) in
/-- The trace of an expression mentions its own nodes only. -/
def Mentions (expr : Expr) : Prop :=
  ∀ node ∈ (exprTrace context plan expr).map Handling.token, node ∈ exprIds expr.postOrder

theorem token_mem_actualsTrace {actuals : List Expr}
    (each : ∀ actual ∈ actuals, Mentions context plan actual) {node : NodeId} : ∀ {consumes},
      node ∈ (actualsTrace context plan consumes actuals).map Handling.token →
        node ∈ exprIds (Expr.postOrderOf actuals) := by
  induction actuals with
  | nil => exact fun member => by cases member
  | cons actual actuals induction =>
      intro consumes member
      rw [actualsTrace, List.map_append, List.map_append, List.mem_append, List.mem_append]
        at member
      rw [Expr.postOrderOf, mem_exprIds_append]
      rcases member with (evaluated | handed) | later
      · exact .inl (each actual List.mem_cons_self node evaluated)
      · exact .inl (token_mem_dispose _ handed)
      · exact .inr
          (induction (fun other inside => each other (List.mem_cons_of_mem _ inside)) later)

theorem token_mem_payloadsTrace {payloads : List Expr}
    (each : ∀ payload ∈ payloads, Mentions context plan payload) {node : NodeId}
    (member : node ∈ (payloadsTrace context plan payloads).map Handling.token) :
    node ∈ exprIds (Expr.postOrderOf payloads) := by
  induction payloads with
  | nil => cases member
  | cons payload payloads induction =>
      rw [payloadsTrace, List.map_append, List.map_append, List.mem_append, List.mem_append]
        at member
      rw [Expr.postOrderOf, mem_exprIds_append]
      rcases member with (evaluated | handed) | later
      · exact .inl (each payload List.mem_cons_self node evaluated)
      · exact .inl (token_mem_dispose True (by rwa [if_pos trivial]))
      · exact .inr
          (induction (fun other inside => each other (List.mem_cons_of_mem _ inside)) later)

theorem mentions (expr : Expr) : Mentions context plan expr := by
  induction expr with
  | numExpr | varExpr | inputExpr => exact nofun
  | binaryExpr info op left right leftMentions rightMentions =>
      intro node member
      rw [exprTrace, List.map_append, List.mem_append] at member
      rw [Expr.postOrder, mem_exprIds_append, mem_exprIds_append]
      exact .inl (member.imp (leftMentions node) (rightMentions node))
  | funAppExpr info function actuals functionMentions actualsMention =>
      intro node member
      rw [exprTrace, List.map_append, List.map_append, List.mem_append, List.mem_append] at member
      rcases member with (callee | inActuals) | made
      · rw [Expr.postOrder, mem_exprIds_append, mem_exprIds_append]
        exact .inl (.inl (functionMentions node callee))
      · rw [Expr.postOrder, mem_exprIds_append, mem_exprIds_append]
        exact .inl (.inr (token_mem_actualsTrace actualsMention inActuals))
      · exact token_mem_produce made
  | allocExpr info initializer initializerMentions =>
      intro node member
      rw [exprTrace, List.map_append, List.mem_append] at member
      rcases member with evaluated | made
      · rw [Expr.postOrder, mem_exprIds_append]
        exact .inl (initializerMentions node evaluated)
      · exact token_mem_produce made
  | borrowExpr info var varMentions =>
      intro node member
      rw [Expr.postOrder, mem_exprIds_append]
      exact .inl (varMentions node member)
  | deRefExpr info ptr ptrMentions =>
      intro node member
      rw [exprTrace, List.map_append, List.mem_append] at member
      rw [Expr.postOrder, mem_exprIds_append]
      exact .inl (member.elim (ptrMentions node) (token_mem_dispose _))
  | sumCtorExpr info tag args argsMention =>
      intro node member
      rw [exprTrace, List.map_append, List.mem_append] at member
      rcases member with inArgs | made
      · rw [Expr.postOrder, mem_exprIds_append]
        exact .inl (token_mem_payloadsTrace argsMention inArgs)
      · exact token_mem_produce made

/-- The target of a store that is no temporary is just evaluated. -/
theorem assignTrace_kept {info : NodeInfo} {ptr : Expr}
    (kept : temporary? context.types ptr = none) (rhs : Expr) :
    assignTrace context plan (.deRefExpr info ptr) rhs =
      exprTrace context plan ptr ++ exprTrace context plan rhs := by
  rw [assignTrace, freed, dispose, kept]
  simp

/-- A temporary that is stored through is there until the store is done. -/
theorem assignTrace_freed {info : NodeInfo} {ptr : Expr} {node : NodeId}
    (isTemporary : temporary? context.types ptr = some node)
    (planned : info.id ∈ plan.freeAfterUse) (rhs : Expr) :
    assignTrace context plan (.deRefExpr info ptr) rhs = heldTrace context plan ptr
      ++ (.produced node :: exprTrace context plan rhs ++ [.disposed node]) := by
  rw [assignTrace, exprTrace_eq ptr, freed, if_pos planned, produce, dispose, isTemporary]
  simp

/-! ## Statements -/

variable (context plan) in
/-- What is to be said of the traces of some nodes. -/
structure Judged (paths : Language (Handling NodeId)) (nodes : List AstNode) : Prop where
  feasible : Monitor.Feasible paths
  spare : AllSpare paths
  verdict : AllDisposedOnce paths ↔ ∀ node ∈ nodes, HandsOn context node

namespace Judged

variable {first second : Language (Handling NodeId)} {nodes others : List AstNode}

theorem one : Judged context 1 [] :=
  ⟨.one, allSpare_one, iff_of_true allDisposedOnce_one nofun⟩

theorem singleton {trace : Trace} (spares : Spares trace)
    (verdict : DisposedOnce trace ↔ ∀ node ∈ nodes, HandsOn context node) :
    Judged context {trace} nodes :=
  ⟨.singleton trace, allSpare_singleton.mpr spares, allDisposedOnce_singleton.trans verdict⟩

theorem mul (firstJudged : Judged context first nodes)
    (secondJudged : Judged context second others) :
    Judged context (first * second) (nodes ++ others) where
  feasible := firstJudged.feasible.mul secondJudged.feasible
  spare := firstJudged.spare.mul secondJudged.spare
  verdict := by
    rw [allDisposedOnce_mul secondJudged.spare firstJudged.feasible secondJudged.feasible,
      firstJudged.verdict, secondJudged.verdict, List.forall_mem_append]

theorem add (firstJudged : Judged context first nodes)
    (secondJudged : Judged context second others) :
    Judged context (first + second) (nodes ++ others) where
  feasible := .mono le_self_add firstJudged.feasible
  spare := firstJudged.spare.add secondJudged.spare
  verdict := by
    rw [allDisposedOnce_add, firstJudged.verdict, secondJudged.verdict, List.forall_mem_append]

/-- A loop from its condition and an iteration. -/
theorem loop (conditionJudged : Judged context first nodes)
    (bodyJudged : Judged context second others) :
    Judged context ((first * second)∗ * first) (nodes ++ others) := by
  have iteration := conditionJudged.mul bodyJudged
  have iterations : Monitor.Feasible (first * second)∗ := ⟨[], Language.nil_mem_kstar _⟩
  refine ⟨iterations.mul conditionJudged.feasible,
    iteration.spare.kstar.mul conditionJudged.spare, ?_⟩
  rw [allDisposedOnce_mul conditionJudged.spare iterations conditionJudged.feasible,
    allDisposedOnce_kstar iteration.spare, iteration.verdict, conditionJudged.verdict,
    List.forall_mem_append]
  exact and_iff_left_of_imp And.left

/-- A statement itself holds no value. -/
theorem stmt (judged : Judged context first nodes) (stmt : Stmt) :
    Judged context first (nodes ++ [.stmt stmt]) := by
  refine ⟨judged.feasible, judged.spare, ?_⟩
  rw [judged.verdict, List.forall_mem_append, List.forall_mem_singleton]
  exact (and_iff_left trivial).symm

/-- An expression whose value is handed on. -/
theorem handedOn {expr : Expr} (checked : ∀ node ∈ expr.postOrder, Checked context plan node)
    {handedOn : Prop} [Decidable handedOn]
    (hands : temporary? context.types expr ≠ none → handedOn) :
    Judged context {exprTrace context plan expr
      ++ if handedOn then dispose context.types expr else []} expr.postOrder := by
  apply singleton (spares_handedOn (spares_heldTrace context plan expr) handedOn)
  rw [disposedOnce_handedOn, disposes expr checked, and_iff_left hands]

/-- An expression that is no temporary. -/
theorem operand {expr : Expr} (checked : ∀ node ∈ expr.postOrder, Checked context plan node)
    (dropped : temporary? context.types expr = none) :
    Judged context {exprTrace context plan expr} expr.postOrder :=
  singleton (spares_exprTrace (spares_heldTrace context plan expr))
    (disposedOnce_operand (disposes expr) checked dropped)

end Judged

theorem assign_judged {info : NodeInfo} {lhs rhs : Expr}
    (lhsChecked : ∀ node ∈ lhs.postOrder, Checked context plan node)
    (rhsChecked : ∀ node ∈ rhs.postOrder, Checked context plan node)
    (checked : Checked context plan (.stmt (.assignStmt info lhs rhs))) :
    Judged context {assignTrace context plan lhs rhs} (lhs.postOrder ++ rhs.postOrder) := by
  cases lhs with
  | deRefExpr derefInfo ptr =>
      rw [Expr.postOrder, List.forall_mem_append, List.forall_mem_singleton] at lhsChecked
      have target : (∀ node ∈ (Expr.deRefExpr derefInfo ptr).postOrder, HandsOn context node) ↔
          ∀ node ∈ ptr.postOrder, HandsOn context node := by
        rw [Expr.postOrder, List.forall_mem_append, List.forall_mem_singleton]
        exact and_iff_left trivial
      have ptrSpares := spares_heldTrace context plan ptr
      have rhsSpares := spares_exprTrace (spares_heldTrace context plan rhs)
      have rhsDisposes := disposedOnce_operand (disposes rhs) rhsChecked checked.1
      cases isTemporary : temporary? context.types ptr with
      | none =>
          rw [assignTrace_kept isTemporary]
          apply Judged.singleton ((spares_exprTrace ptrSpares).append rhsSpares)
          rw [disposedOnce_append rhsSpares, rhsDisposes, List.forall_mem_append, target,
            disposedOnce_operand (disposes ptr) lhsChecked.1 isTemporary]
      | some node =>
          have planned : derefInfo.id ∈ plan.freeAfterUse := lhsChecked.2 (by simp [isTemporary])
          have apart : node ∉ (exprTrace context plan rhs).map Handling.token := by
            intro mentioned
            have inside := mentions rhs node mentioned
            rw [(temporary?_mem_exprIds isTemporary).1] at inside
            exact checked.2 inside
          rw [assignTrace_freed isTemporary planned]
          apply Judged.singleton (ptrSpares.append (spares_within node rhsSpares))
          rw [disposedOnce_append (spares_within node rhsSpares), disposedOnce_within apart,
            rhsDisposes, List.forall_mem_append, target, disposes ptr lhsChecked.1]
  | varExpr varInfo name =>
      apply Judged.singleton (spares_heldTrace context plan rhs)
      rw [Expr.postOrder, List.forall_mem_append, List.forall_mem_singleton]
      exact (disposes rhs rhsChecked).trans (and_iff_right trivial).symm
  | _ => cases checked

theorem stmts_judged {stmts : List Stmt}
    (each : ∀ stmt ∈ stmts, (∀ node ∈ stmt.postOrder, Checked context plan node) →
      Judged context (stmtTraces context plan stmt) stmt.postOrder)
    (checked : ∀ node ∈ Stmt.postOrderOf stmts, Checked context plan node) :
    Judged context (stmtsTraces context plan stmts) (Stmt.postOrderOf stmts) := by
  induction stmts with
  | nil => exact .one
  | cons stmt stmts induction =>
      rw [Stmt.postOrderOf, List.forall_mem_append] at checked
      exact (each stmt List.mem_cons_self checked.1).mul
        (induction (fun other member => each other (List.mem_cons_of_mem _ member)) checked.2)

/-- The arms, and the way past them. -/
theorem arms_judged {arms : List CaseArm}
    (each : ∀ arm ∈ arms, (∀ node ∈ arm.getBody.postOrder, Checked context plan node) →
      Judged context (stmtTraces context plan arm.getBody) arm.getBody.postOrder)
    (checked : ∀ node ∈ CaseArm.postOrderOf arms, Checked context plan node) :
    Judged context (1 + armsTraces context plan arms) (CaseArm.postOrderOf arms) := by
  induction arms with
  | nil =>
      rw [armsTraces, add_zero]
      exact .one
  | cons arm arms induction =>
      rw [CaseArm.postOrderOf, List.forall_mem_append] at checked
      rw [armsTraces, add_left_comm]
      have later := induction (fun other member => each other (List.mem_cons_of_mem _ member))
        checked.2
      cases arm with
      | mk info tag patterns body => exact (each _ List.mem_cons_self checked.1).add later

theorem stmt_judged (stmt : Stmt) (checked : ∀ node ∈ stmt.postOrder, Checked context plan node) :
    Judged context (stmtTraces context plan stmt) stmt.postOrder := by
  induction stmt with
  | assignStmt info lhs rhs =>
      simp only [Stmt.postOrder, List.forall_mem_append, List.forall_mem_singleton] at checked
      exact (assign_judged checked.1.1 checked.1.2 checked.2).stmt _
  | blockStmt info stmts each =>
      rw [Stmt.postOrder, List.forall_mem_append] at checked
      exact (stmts_judged each checked.1).stmt _
  | whileStmt info condition body bodyJudged =>
      simp only [Stmt.postOrder, List.forall_mem_append, List.forall_mem_singleton] at checked
      exact ((Judged.operand checked.1.1 checked.2).loop (bodyJudged checked.1.2)).stmt _
  | ifStmt info condition thenStmt elseStmt thenJudged elseJudged =>
      simp only [Stmt.postOrder, List.forall_mem_append, List.forall_mem_singleton] at checked
      rcases checked with ⟨⟨⟨conditionChecked, thenChecked⟩, elseChecked⟩, dropped⟩
      have branches : Judged context
          (stmtTraces context plan thenStmt + elseTraces context plan elseStmt)
          (thenStmt.postOrder ++ Stmt.elsePostOrder elseStmt) := by
        apply (thenJudged thenChecked).add
        cases elseStmt with
        | none => exact .one
        | some stmt => exact elseJudged stmt rfl elseChecked
      rw [Stmt.postOrder, List.append_assoc condition.postOrder]
      exact ((Judged.operand conditionChecked dropped).mul branches).stmt _
  | outputStmt info arg | errorStmt info arg =>
      simp only [Stmt.postOrder, List.forall_mem_append, List.forall_mem_singleton] at checked
      exact (Judged.operand checked.1 checked.2).stmt _
  | caseStmt info caseExpr arms each =>
      simp only [Stmt.postOrder, List.forall_mem_append, List.forall_mem_singleton] at checked
      exact ((Judged.handedOn checked.1.1 checked.2).mul (arms_judged each checked.1.2)).stmt _

/-! ## Functions -/

/-- Of a function that passes the checks, every path disposes of every temporary once
exactly when each node hands its own on. -/
theorem function_judged {function : Function}
    (checked : ∀ node ∈ function.postOrder, Checked context plan node) :
    Judged context (functionTraces context plan function) function.postOrder := by
  rw [Function.postOrder, List.forall_mem_append] at checked
  have returned : Judged context {exprTrace context plan function.returnArg
      ++ dispose context.types function.returnArg} function.returnArg.postOrder := by
    have handed := @Judged.handedOn context plan _ checked.2 True _ fun _ => trivial
    rwa [if_pos trivial] at handed
  exact (stmts_judged (fun stmt _ => stmt_judged stmt) checked.1).mul returned

end

end Topc.Temporaries
