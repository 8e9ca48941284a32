import Topc.MoveAnalysis.Scoping

/-! # Variables that no name in scope stands for

A binder hides an outer variable of its name. No event of the code it hides the
variable from concerns that variable. -/

namespace Topc

namespace MoveAnalysis

open OwnershipPaths

/-- The variables some events bring into scope. -/
def declaredBy (events : List Event) : List DeclNode :=
  events.flatMap Event.declared

@[simp] theorem declaredBy_append (first second : List Event) :
    declaredBy (first ++ second) = declaredBy first ++ declaredBy second :=
  List.flatMap_append

/-- No name resolves to the variable. -/
def Unseen (decl : DeclNode) (scope : Scope) : Prop :=
  ∀ name binding, scope.lookup name = some binding → binding.decl ≠ decl

section

variable {context : Context} {decl : DeclNode}

theorem Unseen.resolved {scope : Scope} (unseen : Unseen decl scope) {events : List Event}
    (resolved : ResolvedIn scope events) : ∀ event ∈ events, concerns decl event = false := by
  intro event member
  rcases resolved event member with ⟨action, name, rfl⟩
  cases found : scope.lookup name with
  | none => simp [access, concerns, found]
  | some binding => simpa [access, concerns, found] using unseen name binding found

theorem Unseen.arm {scope : Scope} (unseen : Unseen decl scope) {binders : List Binding}
    (unbound : decl ∉ binders.map Binding.decl) : Unseen decl (armScope scope binders) := by
  intro name binding found same
  rw [armScope, Scope.lookup, List.find?_append, Option.or_eq_some_iff] at found
  rcases found with inner | ⟨_, outer⟩
  · have member := List.mem_reverse.mp (List.mem_of_find?_eq_some inner)
    exact unbound (List.mem_map.mpr ⟨binding, member, same⟩)
  · exact unseen name binding outer same

theorem stmtsEvents_unseen {stmts : List Stmt}
    (each : ∀ stmt ∈ stmts, ∀ scope, Unseen decl scope →
      decl ∉ declaredBy (stmtEvents context scope stmt) →
      ∀ event ∈ stmtEvents context scope stmt, concerns decl event = false)
    {scope : Scope} (unseen : Unseen decl scope)
    (undeclared : decl ∉ declaredBy (stmtsEvents context scope stmts)) :
    ∀ event ∈ stmtsEvents context scope stmts, concerns decl event = false := by
  induction stmts with
  | nil => exact fun _ => nofun
  | cons stmt stmts induction =>
      rw [stmtsEvents, declaredBy_append, List.mem_append, not_or] at undeclared
      exact List.forall_mem_append.mpr ⟨each stmt (by simp) scope unseen undeclared.1,
        induction (fun other member => each other (by simp [member])) undeclared.2⟩

theorem armEvents_unseen {byValue : Bool} {arm : CaseArm}
    (bodyUnseen : ∀ scope, Unseen decl scope →
      decl ∉ declaredBy (stmtEvents context scope arm.getBody) →
      ∀ event ∈ stmtEvents context scope arm.getBody, concerns decl event = false)
    {scope : Scope} (unseen : Unseen decl scope)
    (undeclared : decl ∉ declaredBy (armEvents context scope byValue arm)) :
    ∀ event ∈ armEvents context scope byValue arm, concerns decl event = false := by
  cases arm with
  | mk info tag patterns body =>
      rw [armEvents, declaredBy, List.flatMap_cons, List.mem_append, not_or, ← declaredBy,
        declaredBy_append, List.mem_append, not_or] at undeclared
      have binders : ((armBinders byValue patterns).any fun binding => binding.decl == decl) =
          false := by
        rw [List.any_eq_false]
        intro binding member same
        exact undeclared.1 (List.mem_map.mpr ⟨binding, member, beq_iff_eq.mp same⟩)
      have body := bodyUnseen _ (unseen.arm undeclared.1) undeclared.2.1
      exact List.forall_mem_cons.mpr ⟨binders,
        List.forall_mem_append.mpr ⟨body, List.forall_mem_singleton.mpr binders⟩⟩

theorem armsEvents_unseen {byValue : Bool} {arms : List CaseArm}
    (each : ∀ arm ∈ arms, ∀ scope, Unseen decl scope →
      decl ∉ declaredBy (stmtEvents context scope arm.getBody) →
      ∀ event ∈ stmtEvents context scope arm.getBody, concerns decl event = false)
    {scope : Scope} (unseen : Unseen decl scope)
    (undeclared : decl ∉ declaredBy (armsEvents context scope byValue arms)) :
    ∀ event ∈ armsEvents context scope byValue arms, concerns decl event = false := by
  induction arms with
  | nil => exact fun _ => nofun
  | cons arm arms induction =>
      rw [armsEvents, declaredBy_append, List.mem_append, not_or] at undeclared
      exact List.forall_mem_append.mpr
        ⟨armEvents_unseen (each arm (by simp)) unseen undeclared.1,
          induction (fun other member => each other (by simp [member])) undeclared.2⟩

theorem stmtEvents_unseen (stmt : Stmt) : ∀ scope, Unseen decl scope →
    decl ∉ declaredBy (stmtEvents context scope stmt) →
    ∀ event ∈ stmtEvents context scope stmt, concerns decl event = false := by
  induction stmt with
  | assignStmt info lhs rhs =>
      exact fun scope unseen _ => unseen.resolved (assignEvents_resolved context scope lhs rhs)
  | blockStmt info stmts each =>
      exact fun scope unseen undeclared => stmtsEvents_unseen each unseen undeclared
  | whileStmt info condition body bodyUnseen =>
      intro scope unseen undeclared
      rw [stmtEvents, declaredBy_append, List.mem_append, not_or] at undeclared
      exact List.forall_mem_append.mpr
        ⟨unseen.resolved (exprEvents_resolved context scope condition),
          bodyUnseen scope unseen undeclared.2⟩
  | ifStmt info condition thenStmt elseStmt thenUnseen elseUnseen =>
      intro scope unseen undeclared
      rw [stmtEvents, declaredBy_append, declaredBy_append, List.mem_append, List.mem_append,
        not_or, not_or] at undeclared
      refine List.forall_mem_append.mpr
        ⟨unseen.resolved (exprEvents_resolved context scope condition),
          List.forall_mem_append.mpr ⟨thenUnseen scope unseen undeclared.2.1, ?_⟩⟩
      cases elseStmt with
      | none => exact fun _ => nofun
      | some stmt => exact elseUnseen stmt rfl scope unseen undeclared.2.2
  | outputStmt info arg | errorStmt info arg =>
      exact fun scope unseen _ => unseen.resolved (exprEvents_resolved context scope arg)
  | caseStmt info caseExpr arms each =>
      intro scope unseen undeclared
      rw [stmtEvents, declaredBy_append, List.mem_append, not_or] at undeclared
      exact List.forall_mem_append.mpr
        ⟨unseen.resolved (takenEvents_resolved context scope caseExpr),
          armsEvents_unseen each unseen undeclared.2⟩

end

end MoveAnalysis

end Topc
