import Topc.Foundation.ValueTracing
import Topc.FunctionEffectSummaries

/-! # Origins of one pass

The walk over a body goes through each loop once and looks names up in the table of
the function. It keeps an origin for a variable exactly when all copies that such a
pass meets lead from the variable to places with this origin. -/

namespace Topc.FunctionEffectSummaries

/-! ## The walk over expressions leaves the origins alone -/

section

variable (symbols : SymbolTable) (functionDecl : DeclNode)

@[simp] theorem reuse_origins (state : OriginState) (formal : Nat) :
    (state.reuse formal).origins = state.origins := by
  unfold OriginState.reuse
  split <;> rfl

@[simp] theorem notePassed_origins (call : NodeId) (position : Nat) (actual : Expr)
    (walk : OriginState × List ForwardRecord) :
    (notePassed symbols functionDecl call position actual walk).1.origins = walk.1.origins := by
  unfold notePassed
  split <;> rfl

theorem noteActuals_origins {call : NodeId} {actuals : List Expr}
    (each : ∀ actual ∈ actuals, ∀ walk,
      (noteForwards symbols functionDecl actual walk).1.origins = walk.1.origins) :
    ∀ position walk, (noteActuals symbols functionDecl call position actuals walk).1.origins =
      walk.1.origins := by
  induction actuals with
  | nil => exact fun _ _ => rfl
  | cons actual actuals induction =>
      intro position walk
      rw [noteActuals, induction fun other member => each other (List.mem_cons_of_mem _ member),
        notePassed_origins, each actual List.mem_cons_self]

theorem noteAll_origins {exprs : List Expr}
    (each : ∀ expr ∈ exprs, ∀ walk,
      (noteForwards symbols functionDecl expr walk).1.origins = walk.1.origins) :
    ∀ walk, (noteAll symbols functionDecl exprs walk).1.origins = walk.1.origins := by
  induction exprs with
  | nil => exact fun _ => rfl
  | cons expr exprs induction =>
      intro walk
      rw [noteAll, induction fun other member => each other (List.mem_cons_of_mem _ member),
        each expr List.mem_cons_self]

theorem noteForwards_origins (expr : Expr) : ∀ walk,
    (noteForwards symbols functionDecl expr walk).1.origins = walk.1.origins := by
  induction expr with
  | numExpr | inputExpr => exact fun _ => rfl
  | varExpr info name =>
      intro walk
      rw [noteForwards]
      split
      · exact reuse_origins _ _
      · rfl
  | binaryExpr info op left right leftSame rightSame =>
      intro walk
      rw [noteForwards, rightSame, leftSame]
  | funAppExpr info function actuals functionSame actualsSame =>
      intro walk
      rw [noteForwards, noteActuals_origins symbols functionDecl actualsSame, functionSame]
  | allocExpr info initializer same => exact same
  | borrowExpr info var same => exact same
  | deRefExpr info ptr same => exact same
  | sumCtorExpr info tag args argsSame => exact noteAll_origins symbols functionDecl argsSame

/-! ## Copies of one pass -/

/-- The table's declaration for an expression that is a variable. -/
def tabled : Expr → Source DeclNode
  | .varExpr _ name => symbols.getLocal name functionDecl
  | _ => none

mutual
/-- The variable after the statement may be a copy of the other one, with each loop
gone through at most once and any branch taken. -/
def copiedOnce : Stmt → Source DeclNode → Source DeclNode → Prop
  | .assignStmt _ lhs rhs =>
      match tabled symbols functionDecl lhs with
      | some decl => fun source origin =>
          origin = if source = some decl then tabled symbols functionDecl rhs else source
      | none => Eq
  | .blockStmt _ stmts => copiedOnceAll stmts
  | .whileStmt _ _ body => fun source origin => source = origin ∨ copiedOnce body source origin
  | .ifStmt _ _ thenStmt elseStmt => fun source origin =>
      copiedOnce thenStmt source origin ∨ copiedOnceElse elseStmt source origin
  | .outputStmt .. | .errorStmt .. => Eq
  | .caseStmt _ _ [] => Eq
  | .caseStmt _ _ (arm :: arms) => copiedOnceArms (arm :: arms)

def copiedOnceAll : List Stmt → Source DeclNode → Source DeclNode → Prop
  | [] => Eq
  | stmt :: stmts => Relation.Comp (copiedOnceAll stmts) (copiedOnce stmt)

def copiedOnceElse : Option Stmt → Source DeclNode → Source DeclNode → Prop
  | none => Eq
  | some stmt => copiedOnce stmt

def copiedOnceArms : List CaseArm → Source DeclNode → Source DeclNode → Prop
  | [] => fun _ _ => False
  | .mk _ _ _ body :: arms => fun source origin =>
      copiedOnce body source origin ∨ copiedOnceArms arms source origin
end

end

/-! ## What the walk keeps -/

/-- The origin is kept for the variable. -/
def HasOrigin (origins : DeclNode → Option OriginFact) (fact : OriginFact)
    (source : Source DeclNode) : Prop :=
  source.bind origins = some fact

/-- A join keeps what both sides have. A conflict is no origin. -/
theorem hasOrigin_joinStates {left right : OriginState} {fact : OriginFact}
    (known : fact.origin ≠ .unknown) (source : Source DeclNode) :
    HasOrigin (joinStates left right).origins fact source ↔
      HasOrigin left.origins fact source ∧ HasOrigin right.origins fact source := by
  cases source with
  | none => simp [HasOrigin]
  | some decl =>
      simp only [HasOrigin, Option.bind_some, joinStates, joinOrigin]
      split
      · rename_i same
        rw [← same, and_self]
      · rename_i different
        constructor
        · intro conflict
          exact absurd (congrArg OriginFact.origin (Option.some.inj conflict)).symm known
        · rintro ⟨isLeft, isRight⟩
          exact absurd (isLeft.trans isRight.symm) different

section

variable {symbols : SymbolTable} {functionDecl : DeclNode}

/-- Only a variable holds a formal. -/
theorem exists_varExpr {expr : Expr} {origins : DeclNode → Option OriginFact}
    (fromFormal : (originForExpr symbols functionDecl expr origins).origin = .fromFormal) :
    ∃ info name, expr = .varExpr info name := by
  unfold originForExpr at fromFormal
  split at fromFormal
  · exact ⟨_, _, rfl⟩
  · split at fromFormal
    · split at fromFormal <;> cases fromFormal
    · cases fromFormal
  · cases fromFormal
  · cases fromFormal

theorem originForExpr_iff {expr : Expr} {origins : DeclNode → Option OriginFact}
    {fact : OriginFact} (fromFormal : fact.origin = .fromFormal) :
    originForExpr symbols functionDecl expr origins = fact ↔
      HasOrigin origins fact (tabled symbols functionDecl expr) := by
  cases expr with
  | varExpr info name =>
      have notUnknown : unknownOrigin ≠ fact := by
        rintro rfl
        cases fromFormal
      rw [originForExpr, HasOrigin, tabled]
      cases (symbols.getLocal name functionDecl).bind origins with
      | none => simp [notUnknown]
      | some held => simp
  | _ =>
      constructor
      · intro same
        rcases exists_varExpr (same ▸ fromFormal) with ⟨_, _, impossible⟩
        cases impossible
      · intro impossible
        cases impossible

/-- An assigned variable has the origin of the value, any other one its own. -/
theorem hasOrigin_assignOrigin {lhs rhs : Expr} {origins : DeclNode → Option OriginFact}
    {fact : OriginFact} (fromFormal : fact.origin = .fromFormal) (info : NodeInfo)
    (source : Source DeclNode) :
    HasOrigin (assignOrigin symbols functionDecl lhs rhs origins) fact source ↔
      ∀ origin, copiedOnce symbols functionDecl (.assignStmt info lhs rhs) source origin →
        HasOrigin origins fact origin := by
  rw [copiedOnce]
  cases target : tabled symbols functionDecl lhs with
  | none =>
      have unassigned : assignOrigin symbols functionDecl lhs rhs origins = origins := by
        unfold assignOrigin
        split
        · rw [show symbols.getLocal _ functionDecl = none from target]
        · rfl
      simp [unassigned]
  | some decl =>
      have assigned : assignOrigin symbols functionDecl lhs rhs origins =
          Function.update origins decl
            (if (originForExpr symbols functionDecl rhs origins).origin = .unknown then none
              else some (originForExpr symbols functionDecl rhs origins)) := by
        unfold assignOrigin
        split
        · rw [show symbols.getLocal _ functionDecl = some decl from target]
        · rename_i notVariable
          cases lhs with
          | varExpr info name => exact absurd rfl (notVariable info name)
          | _ => cases target
      rw [assigned, forall_eq]
      by_cases here : source = some decl
      · rw [if_pos here, here, ← originForExpr_iff fromFormal, HasOrigin, Option.bind_some,
          Function.update_self]
        constructor
        · intro kept
          exact (Option.some.inj (Option.ite_none_left_eq_some.mp kept).2)
        · intro same
          rw [same, if_neg (by simp [fromFormal])]
      · rw [if_neg here]
        cases source with
        | none => rfl
        | some other =>
            have different : other ≠ decl := fun same => here (congrArg some same)
            rw [HasOrigin, HasOrigin, Option.bind_some, Option.bind_some,
              Function.update_of_ne different]

end

/-! ## Statements -/

section

variable {symbols : SymbolTable} {functionDecl : DeclNode} {fact : OriginFact}

/-- After the walk over the statement a variable has the origin exactly when all its
copies had it before. -/
def KeepsOrigin (symbols : SymbolTable) (functionDecl : DeclNode) (fact : OriginFact)
    (stmt : Stmt) : Prop :=
  ∀ walk source,
    HasOrigin (analyzeStmtOrigins symbols functionDecl stmt walk).1.origins fact source ↔
      ∀ origin, copiedOnce symbols functionDecl stmt source origin →
        HasOrigin walk.1.origins fact origin

theorem analyzeBlockOrigins_keeps {stmts : List Stmt}
    (each : ∀ stmt ∈ stmts, KeepsOrigin symbols functionDecl fact stmt) : ∀ walk source,
      HasOrigin (analyzeBlockOrigins symbols functionDecl stmts walk).1.origins fact source ↔
        ∀ origin, copiedOnceAll symbols functionDecl stmts source origin →
          HasOrigin walk.1.origins fact origin := by
  induction stmts with
  | nil =>
      intro walk source
      rw [analyzeBlockOrigins, copiedOnceAll, forall_eq']
  | cons stmt stmts induction =>
      intro walk source
      have rest := induction fun other member => each other (List.mem_cons_of_mem _ member)
      rw [analyzeBlockOrigins, rest]
      simp only [each stmt List.mem_cons_self walk, copiedOnceAll, Relation.Comp,
        forall_exists_index, and_imp]
      constructor
      · intro all origin between first second
        exact all between first origin second
      · intro all between first origin second
        exact all origin between first second

/-- The states of the arms are joined one after the other. -/
theorem analyzeArmsOrigins_keeps (fromFormal : fact.origin = .fromFormal) (start : OriginState)
    {arms : List CaseArm}
    (each : ∀ arm ∈ arms, KeepsOrigin symbols functionDecl fact arm.getBody) :
    ∀ joined log source,
      HasOrigin (analyzeArmsOrigins symbols functionDecl start (some joined) arms log).1.origins
          fact source ↔
        HasOrigin joined.origins fact source ∧
          ∀ origin, copiedOnceArms symbols functionDecl arms source origin →
            HasOrigin start.origins fact origin := by
  have known : fact.origin ≠ .unknown := by simp [fromFormal]
  induction arms with
  | nil =>
      intro joined log source
      simp [analyzeArmsOrigins, copiedOnceArms]
  | cons arm arms induction =>
      intro joined log source
      have rest := induction fun other member => each other (List.mem_cons_of_mem _ member)
      have first := each arm List.mem_cons_self
      cases arm with
      | mk info tag patterns body =>
          rw [analyzeArmsOrigins, rest, Option.elim_some, hasOrigin_joinStates known, and_assoc,
            show HasOrigin (analyzeStmtOrigins symbols functionDecl body (start, log)).1.origins
              fact source ↔ _ from first (start, log) source]
          simp only [copiedOnceArms, or_imp, forall_and]
          rfl

theorem analyzeStmtOrigins_keeps (fromFormal : fact.origin = .fromFormal) (stmt : Stmt) :
    KeepsOrigin symbols functionDecl fact stmt := by
  have known : fact.origin ≠ .unknown := by simp [fromFormal]
  induction stmt with
  | assignStmt info lhs rhs =>
      intro walk source
      rw [analyzeStmtOrigins, ← noteForwards_origins symbols functionDecl rhs walk]
      exact hasOrigin_assignOrigin fromFormal info source
  | blockStmt info stmts each =>
      intro walk source
      rw [analyzeStmtOrigins, copiedOnce]
      exact analyzeBlockOrigins_keeps each walk source
  | whileStmt info condition body bodyKeeps =>
      intro walk source
      rw [analyzeStmtOrigins, ← noteForwards_origins symbols functionDecl condition walk]
      simp only [copiedOnce, or_imp, forall_and, forall_eq']
      rw [← bodyKeeps, ← hasOrigin_joinStates known]
  | ifStmt info condition thenStmt elseStmt thenKeeps elseKeeps =>
      intro walk source
      rw [analyzeStmtOrigins, ← noteForwards_origins symbols functionDecl condition walk]
      simp only [copiedOnce, or_imp, forall_and]
      rw [hasOrigin_joinStates known, thenKeeps]
      refine and_congr_right fun _ => ?_
      cases elseStmt with
      | none => rw [analyzeElseOrigins, copiedOnceElse, forall_eq']
      | some stmt =>
          rw [analyzeElseOrigins, copiedOnceElse, elseKeeps stmt rfl]
  | outputStmt info arg | errorStmt info arg =>
      intro walk source
      rw [analyzeStmtOrigins, noteForwards_origins, copiedOnce, forall_eq']
  | caseStmt info caseExpr arms each =>
      intro walk source
      rw [analyzeStmtOrigins, ← noteForwards_origins symbols functionDecl caseExpr walk]
      rcases noteForwards symbols functionDecl caseExpr walk with ⟨state, log⟩
      dsimp only
      cases arms with
      | nil => rw [analyzeArmsOrigins, copiedOnce, forall_eq', Option.getD_none]
      | cons arm arms =>
          cases arm with
          | mk armInfo tag patterns body =>
              have first : HasOrigin
                  (analyzeStmtOrigins symbols functionDecl body (state, log)).1.origins fact source ↔
                    ∀ origin, copiedOnce symbols functionDecl body source origin →
                      HasOrigin state.origins fact origin :=
                each _ List.mem_cons_self (state, log) source
              rw [analyzeArmsOrigins, copiedOnce]
              simp only [Option.elim_none, copiedOnceArms, or_imp, forall_and]
              rw [← first]
              rcases analyzeStmtOrigins symbols functionDecl body (state, log) with ⟨armState, armLog⟩
              exact analyzeArmsOrigins_keeps fromFormal state
                (fun other member => each other (List.mem_cons_of_mem _ member)) armState armLog source

end

/-! ## Recorded formals -/

theorem formalOrigins_eq_some {formals : List DeclNode} {decl : DeclNode} {fact : OriginFact}
    (held : formalOrigins formals decl = some fact) :
    ∃ index, formals[index]? = some decl ∧ fact = fromFormalOrigin index := by
  rcases Option.map_eq_some_iff.mp held with ⟨⟨formal, index⟩, found, rfl⟩
  have same : formal = decl := by simpa using List.find?_some found
  have member := List.mem_reverse.mp (List.mem_of_find?_eq_some found)
  exact ⟨index, same ▸ List.mem_zipIdx_iff_getElem?.mp member, rfl⟩

/-- Every formal holds its argument at first. -/
theorem exists_formalOrigins {formals : List DeclNode} {decl : DeclNode} (member : decl ∈ formals) :
    ∃ index, formals[index]? = some decl ∧
      formalOrigins formals decl = some (fromFormalOrigin index) := by
  rcases List.mem_iff_getElem?.mp member with ⟨index, isDecl⟩
  have listed : (decl, index) ∈ formals.zipIdx.reverse :=
    List.mem_reverse.mpr (List.mem_zipIdx_iff_getElem?.mpr isDecl)
  have isSome : (formalOrigins formals decl).isSome = true := by
    rw [formalOrigins, Option.isSome_map, List.find?_isSome]
    exact ⟨_, listed, by simp⟩
  rcases Option.isSome_iff_exists.mp isSome with ⟨fact, held⟩
  rcases formalOrigins_eq_some held with ⟨last, isLast, rfl⟩
  exact ⟨last, isLast, held⟩

section

variable (rules : RuleToggles) (symbols : SymbolTable) (types : TypeResults)

/-- One pass leads from the result to the formal only. -/
def CopiesOnce (function : Function) (formal : DeclNode) : Prop :=
  ∀ origin, copiedOnceAll symbols function.decl function.stmts
    (tabled symbols function.decl function.returnArg) origin → origin = some formal

/-- The summary of the function says that it returns the formal. -/
def RecordsFormal (function : Function) (formal : DeclNode) : Prop :=
  ∃ summary index, summarize rules symbols types function = .ok summary ∧
    function.formals[index]? = some formal ∧ summary.returnOrigin = .fromFormal ∧
      summary.returnFormalIndex = some index

variable {rules symbols types} {function : Function}

theorem analyzeBody_returned {fact : OriginFact} (fromFormal : fact.origin = .fromFormal) :
    (analyzeBody symbols function).returned = fact ↔
      ∀ origin, copiedOnceAll symbols function.decl function.stmts
        (tabled symbols function.decl function.returnArg) origin →
          HasOrigin (formalOrigins function.formals) fact origin := by
  have each : ∀ stmt ∈ function.stmts, KeepsOrigin symbols function.decl fact stmt :=
    fun stmt _ => analyzeStmtOrigins_keeps fromFormal stmt
  have walked := analyzeBlockOrigins_keeps each (⟨formalOrigins function.formals, ∅, ∅, ∅⟩, [])
    (tabled symbols function.decl function.returnArg)
  rw [← walked, ← noteForwards_origins symbols function.decl function.returnArg,
    ← originForExpr_iff fromFormal]
  rfl

theorem returnOriginOf_fromFormal {returned : OriginFact} :
    returnOriginOf types function returned = .fromFormal ↔ returned.origin = .fromFormal := by
  unfold returnOriginOf
  split
  · rename_i unknown
    rw [unknown.1]
    split
    · split <;> simp
    · simp
  · rfl

theorem summarize_returned {summary : Summary}
    (summarized : summarize rules symbols types function = .ok summary) :
    summary.returnOrigin = returnOriginOf types function (analyzeBody symbols function).returned ∧
      summary.returnFormalIndex = (analyzeBody symbols function).returned.formalIndex := by
  rw [summarize, bind_eq_ok] at summarized
  rcases summarized with ⟨_, _, summarized⟩
  rw [bind_eq_ok] at summarized
  rcases summarized with ⟨_, _, summarized⟩
  cases summarized
  exact ⟨rfl, rfl⟩

/-- A function that is summarized is recorded to return a formal exactly when one pass
leads from its result to that formal only. -/
theorem recordsFormal_iff {summary : Summary}
    (summarized : summarize rules symbols types function = .ok summary) (formal : DeclNode) :
    RecordsFormal rules symbols types function formal ↔
      formal ∈ function.formals ∧ CopiesOnce symbols function formal := by
  rcases summarize_returned summarized with ⟨origin, formalIndex⟩
  constructor
  · rintro ⟨other, index, again, isFormal, fromFormal, isIndex⟩
    cases summarized.symm.trans again
    rw [origin, returnOriginOf_fromFormal] at fromFormal
    rw [formalIndex] at isIndex
    refine ⟨List.mem_of_getElem? isFormal, fun source copied => ?_⟩
    have held := (analyzeBody_returned fromFormal).mp rfl source copied
    rcases Option.bind_eq_some_iff.mp held with ⟨decl, rfl, entry⟩
    rcases formalOrigins_eq_some entry with ⟨last, isDecl, isFact⟩
    rw [isFact] at isIndex
    cases isIndex
    exact congrArg some (Option.some.inj (isDecl.symm.trans isFormal))
  · rintro ⟨member, copies⟩
    rcases exists_formalOrigins member with ⟨index, isFormal, entry⟩
    have returned : (analyzeBody symbols function).returned = fromFormalOrigin index := by
      rw [analyzeBody_returned rfl]
      intro source copied
      rw [copies source copied]
      exact entry
    refine ⟨summary, index, summarized, isFormal, ?_, ?_⟩
    · rw [origin, returned, returnOriginOf_fromFormal]
      rfl
    · rw [formalIndex, returned]
      rfl

end

end Topc.FunctionEffectSummaries
