import Topc.MoveAnalysis.PlanGrowth

/-! # Lexical scope and the symbol table

The analysis resolves a name through the symbol table, which keeps one
declaration for each name of a function. Here are the conditions under which
that agrees with lexical scope, and the entries the analysis then leaves alone. -/

namespace Topc

open MoveAnalysis (Context)

/-- The binding owns the value it was given. -/
def Binding.owns (context : Context) (binding : Binding) : Bool :=
  context.isOwn binding.decl && !binding.isAlias

namespace Scope

/-- The owner a name stands for: its innermost binding that owns its value. -/
def owner (context : Context) (scope : Scope) (name : String) : Option DeclNode :=
  (scope.find? fun binding => binding.decl.name == name && binding.owns context).map Binding.decl

theorem lookup_eq_some {scope : Scope} {name : String} {binding : Binding}
    (found : scope.lookup name = some binding) :
    binding.decl.name = name ∧ binding ∈ scope := by
  rw [lookup, List.find?_eq_some_iff_append] at found
  exact ⟨by simpa using found.1, by
    rcases found.2 with ⟨before, after, rfl, _⟩
    simp⟩

theorem owner_eq_some {context : Context} {scope : Scope} {name : String} {decl : DeclNode}
    (found : scope.owner context name = some decl) :
    decl.name = name ∧ context.isOwn decl = true ∧ ⟨decl, false⟩ ∈ scope := by
  rw [owner, Option.map_eq_some_iff] at found
  rcases found with ⟨⟨_, isAlias⟩, found, rfl⟩
  have member := List.mem_of_find?_eq_some found
  have holds := List.find?_some found
  cases isAlias <;> simp_all [Binding.owns]

/-- The binding a name resolves to is its owner if it owns its value. -/
theorem owner_of_lookup {context : Context} {scope : Scope} {name : String} {binding : Binding}
    (found : scope.lookup name = some binding) (owns : binding.owns context = true) :
    scope.owner context name = some binding.decl := by
  rw [lookup, List.find?_eq_some_iff_append] at found
  rcases found with ⟨named, before, after, rfl, none⟩
  rw [owner, Option.map_eq_some_iff]
  refine ⟨binding, List.find?_eq_some_iff_append.mpr ?_, rfl⟩
  refine ⟨by simp_all, before, after, rfl, fun other member => ?_⟩
  have := none other member
  simp_all

theorem owner_append {context : Context} (inner outer : Scope) (name : String) :
    (inner ++ outer : Scope).owner context name =
      (inner.owner context name <|> outer.owner context name) := by
  simp only [owner, List.find?_append]
  cases inner.find? _ <;> simp

theorem owner_eq_none {context : Context} {scope : Scope} {name : String} :
    scope.owner context name = none ↔
      ∀ binding ∈ scope, binding.owns context = true → binding.decl.name ≠ name := by
  rw [owner, Option.map_eq_none_iff, List.find?_eq_none]
  simp only [Bool.and_eq_true, beq_iff_eq, not_and]
  exact forall₂_congr fun binding member => ⟨fun h owns same => h same owns, fun h same owns => h owns same⟩

end Scope

namespace Event

/-- The event's name is resolved to a declaration of the same ownership class by
lexical scope and by the symbol table. The owned binders of an arm differ in name. -/
def NamesAgree (context : Context) : Event → Prop
  | .access _ name target =>
      (context.resolveVar name).any context.isOwn =
        target.any fun binding => context.isOwn binding.decl
  | .enterArm binders =>
      ((binders.filter fun binding => binding.owns context).map
        fun binding => binding.decl.name).Nodup
  | .leaveArm .. => True

/-- What the borrow checker leaves of a program: an alias of an owned payload is
only looked at, and no variable receives a borrow expression. -/
def PositionAllowed (context : Context) : Event → Prop
  | .access action _ (some binding) =>
      action ≠ .storeBorrow ∧
        (context.isOwn binding.decl = true → binding.isAlias = true → action = .use)
  | .access action _ none => action ≠ .storeBorrow
  | .enterArm _ | .leaveArm .. => True

instance (context : Context) : DecidablePred (NamesAgree context) := fun event =>
  match event with
  | .access .. => inferInstanceAs (Decidable (_ = _))
  | .enterArm _ => inferInstanceAs (Decidable (List.Nodup _))
  | .leaveArm .. => inferInstanceAs (Decidable True)

end Event

namespace MoveAnalysis

open OwnershipPaths

/-- The context of a function of a program that has passed the earlier passes. -/
structure Context.Enforced (context : Context) : Prop where
  rules : context.rules = .allEnabled
  canonical : context.symbols.Canonical

/-- Every event of a piece of code is resolved consistently and allowed. -/
structure Regular (context : Context) (events : List Event) : Prop where
  names : ∀ event ∈ events, event.NamesAgree context
  positions : ∀ event ∈ events, event.PositionAllowed context

namespace Regular

variable {context : Context} {first second events : List Event}

theorem append_iff :
    Regular context (first ++ second) ↔ Regular context first ∧ Regular context second := by
  constructor
  · rintro ⟨names, positions⟩
    simp only [List.forall_mem_append] at names positions
    exact ⟨⟨names.1, positions.1⟩, names.2, positions.2⟩
  · rintro ⟨⟨firstNames, firstPositions⟩, secondNames, secondPositions⟩
    exact ⟨List.forall_mem_append.mpr ⟨firstNames, secondNames⟩,
      List.forall_mem_append.mpr ⟨firstPositions, secondPositions⟩⟩

theorem cons_iff {event : Event} :
    Regular context (event :: events) ↔
      (event.NamesAgree context ∧ event.PositionAllowed context) ∧ Regular context events := by
  constructor
  · rintro ⟨names, positions⟩
    simp only [List.forall_mem_cons] at names positions
    exact ⟨⟨names.1, positions.1⟩, names.2, positions.2⟩
  · rintro ⟨⟨name, position⟩, names, positions⟩
    exact ⟨List.forall_mem_cons.mpr ⟨name, names⟩, List.forall_mem_cons.mpr ⟨position, positions⟩⟩

end Regular

theorem resolveVar_name {context : Context} (canonical : context.symbols.Canonical)
    {name : String} {decl : DeclNode} (resolved : context.resolveVar name = some decl) :
    decl.name = name := by
  unfold Context.resolveVar at resolved
  cases found : context.symbols.getLocal name context.currentFuncDecl with
  | some other =>
      rw [found] at resolved
      cases resolved
      exact canonical.locals _ _ _ found
  | none =>
      rw [found] at resolved
      exact canonical.functions _ _ resolved

/-! ## Events with their scope -/

/-- The events access variables, each resolved in the scope. -/
def ResolvedIn (scope : Scope) (events : List Event) : Prop :=
  ∀ event ∈ events, ∃ action name, event = access scope action name

theorem ResolvedIn.append {scope : Scope} {first second : List Event}
    (firstResolved : ResolvedIn scope first) (secondResolved : ResolvedIn scope second) :
    ResolvedIn scope (first ++ second) :=
  List.forall_mem_append.mpr ⟨firstResolved, secondResolved⟩

theorem ResolvedIn.single (scope : Scope) (action : Action) (name : String) :
    ResolvedIn scope [access scope action name] := by
  intro event member
  exact ⟨action, name, List.mem_singleton.mp member⟩

theorem ResolvedIn.nil (scope : Scope) : ResolvedIn scope [] := by
  intro event member
  cases member

section

variable (context : Context) (scope : Scope)

theorem asTaken_resolved {expr : Expr} {events : List Event} (resolved : ResolvedIn scope events) :
    ResolvedIn scope (asTaken scope expr events) := by
  cases expr with
  | varExpr info name => exact .single scope .take name
  | _ => exact resolved

theorem actualEvents_resolved {actuals : List Expr}
    (each : ∀ actual ∈ actuals, ResolvedIn scope (exprEvents context scope actual)) :
    ∀ consumes, ResolvedIn scope (actualEvents context scope consumes actuals) := by
  induction actuals with
  | nil => intro consumes; exact .nil scope
  | cons actual actuals induction =>
      intro consumes
      refine .append ?_ (induction (fun other member => each other (by simp [member])) _)
      split
      · exact asTaken_resolved scope (each actual (by simp))
      · exact each actual (by simp)

theorem payloadEvents_resolved {payloads : List Expr}
    (each : ∀ payload ∈ payloads, ResolvedIn scope (exprEvents context scope payload)) :
    ResolvedIn scope (payloadEvents context scope payloads) := by
  induction payloads with
  | nil => exact .nil scope
  | cons payload payloads induction =>
      exact .append (asTaken_resolved scope (each payload (by simp)))
        (induction fun other member => each other (by simp [member]))

theorem exprEvents_resolved (expr : Expr) : ResolvedIn scope (exprEvents context scope expr) := by
  induction expr with
  | numExpr | inputExpr => exact .nil scope
  | varExpr info name => exact .single scope .use name
  | binaryExpr info op left right leftResolved rightResolved => exact leftResolved.append rightResolved
  | funAppExpr info function actuals functionResolved actualsResolved =>
      exact functionResolved.append (actualEvents_resolved context scope actualsResolved _)
  | allocExpr info initializer resolved => exact resolved
  | borrowExpr info var resolved => exact resolved
  | deRefExpr info ptr resolved => exact resolved
  | sumCtorExpr info tag args argsResolved => exact payloadEvents_resolved context scope argsResolved

theorem takenEvents_resolved (expr : Expr) : ResolvedIn scope (takenEvents context scope expr) :=
  asTaken_resolved scope (exprEvents_resolved context scope expr)

theorem assignEvents_resolved (lhs rhs : Expr) :
    ResolvedIn scope (assignEvents context scope lhs rhs) := by
  refine .append (.append ?_ (takenEvents_resolved context scope rhs)) ?_
  · cases lhs with
    | deRefExpr info ptr => exact exprEvents_resolved context scope ptr
    | _ => exact .nil scope
  · cases lhs with
    | varExpr info name => exact .single scope _ name
    | _ => exact .nil scope

end

/-! ## Binders of an arm -/

section

variable {context : Context}

/-- The binders the analysis makes owners of are those that own their payload. -/
theorem ownedBinders_eq (byValue : Bool) (patterns : List Pattern) :
    ownedBinders context (Pattern.collectAllBindings patterns) byValue =
      ((armBinders byValue patterns).filter fun binding => binding.owns context).map
        Binding.decl := by
  cases byValue <;> simp [ownedBinders, armBinders, Binding.owns, List.filter_map,
    Function.comp_def]

theorem binderKey_name (canonical : context.symbols.Canonical) (binder : DeclNode) :
    (binderKey context binder).name = binder.name := by
  unfold binderKey
  cases resolved : context.resolveVar binder.name with
  | none => rfl
  | some key => exact resolveVar_name canonical resolved

theorem binderKeys_nodup (canonical : context.symbols.Canonical) {byValue : Bool}
    {patterns : List Pattern}
    (agree : (Event.enterArm (armBinders byValue patterns)).NamesAgree context) :
    ((ownedBinders context (Pattern.collectAllBindings patterns) byValue).map
      (binderKey context)).Nodup := by
  refine List.Nodup.of_map DeclNode.name ?_
  have sameNames : DeclNode.name ∘ binderKey context = DeclNode.name :=
    funext (binderKey_name canonical)
  rw [List.map_map, sameNames, ownedBinders_eq, List.map_map]
  exact agree

end

end MoveAnalysis

end Topc
