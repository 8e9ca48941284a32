import Topc.MoveAnalysis.FunctionTracking

/-! # Use after move

A loop is checked once, against the state from before it. What an iteration
moved without owning it first is forgotten after the loop. Where that is
harmless, no path of an accepted function uses a moved variable. -/

open Computability

namespace Topc.MoveAnalysis

open OwnershipPaths

section

variable (decl : DeclNode)

/-- The monitor that permits reads of the variable unless it is moved. -/
def useMonitor : Monitor (Option OwnershipState) Event where
  step := statusStep decl
  ok status event := reads decl event = true → status ≠ some .moved

/-- The path reads the variable before it gives it a value again. -/
def usesFirst : List Event → Bool
  | [] => false
  | event :: path =>
      reads decl event
        || (statusStep decl (some .moved) event == some .moved && usesFirst path)

@[simp] theorem run_useMonitor (status : Option OwnershipState) (path : List Event) :
    (useMonitor decl).run status path = statusAfter decl status path := rfl

/-- An event either leaves every status alone or leads to one status from all. -/
theorem statusStep_cases (event : Event) :
    (∀ status, statusStep decl status event = status) ∨
      ∀ status other, statusStep decl status event = statusStep decl other event := by
  cases event with
  | access action name target =>
      cases target with
      | none => exact .inl fun _ => rfl
      | some binding =>
          by_cases same : binding.decl = decl
          · cases action with
            | use => exact .inl fun _ => by simp [statusStep]
            | take | store | storeBorrow => exact .inr fun _ _ => by simp [statusStep, same]
          · exact .inl fun _ => by simp [statusStep, same]
  | enterArm binders =>
      cases found : binders.find? fun binding => binding.decl == decl with
      | none => exact .inl fun _ => by simp [statusStep, found]
      | some binding => exact .inr fun _ _ => by simp [statusStep, found]
  | leaveArm arm binders =>
      cases bound : binders.any fun binding => binding.decl == decl with
      | false => exact .inl fun _ => by simp [statusStep, bound]
      | true => exact .inr fun _ _ => by simp [statusStep, bound]

/-- The same holds of a path. -/
theorem statusAfter_cases (path : List Event) :
    (∀ status, statusAfter decl status path = status) ∨
      ∀ status other, statusAfter decl status path = statusAfter decl other path := by
  induction path with
  | nil => exact .inl fun _ => rfl
  | cons event path induction =>
      rcases induction with kept | reset
      · rcases statusStep_cases decl event with stepKept | stepReset
        · exact .inl fun status => by rw [statusAfter_cons, kept, stepKept]
        · exact .inr fun status other => by
            rw [statusAfter_cons, statusAfter_cons, stepReset status other]
      · exact .inr fun status other => reset _ _

/-- A path that leaves a fresh variable moved leaves it moved from any status. -/
theorem statusAfter_moved {path : List Event}
    (leaves : statusAfter decl none path = some .moved) (status : Option OwnershipState) :
    statusAfter decl status path = some .moved := by
  rcases statusAfter_cases decl path with kept | reset
  · rw [kept] at leaves
    cases leaves
  · rw [reset status none, leaves]

theorem usesFirst_cons {event : Event} {path : List Event}
    (kept : statusStep decl (some .moved) event = some .moved)
    (unused : usesFirst decl (event :: path) = false) :
    reads decl event = false ∧ usesFirst decl path = false := by
  rw [usesFirst, kept, Bool.or_eq_false_iff] at unused
  simpa using unused

/-- From a moved variable, a safe path does not use it first. -/
theorem usesFirst_of_safe {path : List Event}
    (safe : (useMonitor decl).Safe (some .moved) path) : usesFirst decl path = false := by
  induction path with
  | nil => rfl
  | cons event path induction =>
      rw [Monitor.safe_cons] at safe
      have unread : reads decl event = false := by
        cases read : reads decl event with
        | false => rfl
        | true => exact absurd rfl (safe.1 read)
      rw [usesFirst, unread, Bool.false_or, Bool.and_eq_false_iff]
      cases kept : statusStep decl (some .moved) event == some .moved with
      | false => exact .inl rfl
      | true =>
          have moved : (useMonitor decl).step (some .moved) event = some .moved :=
            beq_iff_eq.mp kept
          rw [moved] at safe
          exact .inr (induction safe.2)

end

/-! ## Loops that forget a move -/

/-- Whenever an iteration leaves a variable moved, nothing that can follow uses
the variable before it has a value again. -/
def KeepsMoves (context : Context) (condition body rest : Language Event) : Prop :=
  ∀ decl, context.isOwn decl = true →
    ∀ iteration ∈ condition * body, statusAfter decl none iteration = some .moved →
      ∀ later ∈ loopPaths condition body * rest, usesFirst decl later = false

/-- A moved variable has the entry `Moved`, or no path to come uses it first. -/
def moveTracking (context : Context) (decl : DeclNode) (own : context.isOwn decl = true)
    (planned : NodeId → List DeclNode) : Tracking decl where
  ok := (useMonitor decl).ok
  rel rest entry status := status = some .moved →
    entry = some .moved ∨ ∀ path ∈ rest, usesFirst decl path = false
  allowed := KeepsMoves context
  planned := planned
  antitone subset related moved :=
    (related moved).imp_right fun unused path member => unused path (subset member)
  passes := by
    intro event rest entry status kept related moved
    refine (related moved).imp_right fun unused path member => ?_
    rw [moved] at kept
    exact (usesFirst_cons decl kept
      (unused _ (Language.append_mem_mul (Set.mem_singleton _) member))).2
  received _ := nofun
  taken _ _ := .inl rfl
  joined := by
    intro rest branch entry status _ keepsMoved related moved
    exact (related moved).imp_left keepsMoved
  looped := by
    intro condition body rest path entry bodyEntry status keeps member _ related _ moved
    rcases statusAfter_cases decl path with kept | reset
    · rw [kept] at moved
      exact related moved
    · rw [reset status none] at moved
      exact .inr (keeps decl own path member moved)
  idle := by
    intro status event elsewhere read
    cases event with
    | access action name target => cases action <;> cases target <;> simp_all [concerns, reads]
    | enterArm | leaveArm => cases read
  vacant _ := nofun
  read := by
    intro event rest entry status feasible read notMoved related _ moved
    rcases related moved with entryMoved | unused
    · exact notMoved entryMoved
    · rcases feasible with ⟨path, member⟩
      have first := unused _ (Language.append_mem_mul (Set.mem_singleton _) member)
      simp [usesFirst, read] at first
  stored _ _ := nofun
  left _ _ := nofun
  leftVacant _ := nofun

/-! ## The loops of a function without uses of moved variables -/

section

variable (context : Context) (entry : DeclNode → Option OwnershipState)

/-- After a given start, every path of the language is free of uses of moved variables. -/
def SafeAfter (start : List Event) (paths : Language Event) : Prop :=
  ∀ path ∈ paths, ∀ decl, context.isOwn decl = true →
    (useMonitor decl).Safe (entry decl) (start ++ path)

variable {context entry}

theorem SafeAfter.mono {start : List Event} {paths less : Language Event} (subset : less ≤ paths)
    (safe : SafeAfter context entry start paths) : SafeAfter context entry start less :=
  fun path member => safe path (subset member)

theorem SafeAfter.extend {start front : List Event} {first second : Language Event}
    (member : front ∈ first) (safe : SafeAfter context entry start (first * second)) :
    SafeAfter context entry (start ++ front) second := by
  intro path pathMem decl own
  rw [List.append_assoc]
  exact safe _ (Language.append_mem_mul member pathMem) decl own

theorem SafeAfter.keepsMoves {start : List Event} {condition body rest : Language Event}
    (safe : SafeAfter context entry start (loopPaths condition body * rest)) :
    KeepsMoves context condition body rest := by
  intro decl own iteration member leaves later laterMem
  have iterate : condition * body * (loopPaths condition body * rest) ≤
      loopPaths condition body * rest := by
    rw [← mul_assoc]
    exact mul_le_mul_left (iterate_loopPaths condition body) rest
  have whole := (safe.mono iterate).extend member later laterMem decl own
  rw [Monitor.safe_append, run_useMonitor, statusAfter_append,
    statusAfter_moved decl leaves] at whole
  exact usesFirst_of_safe decl whole.2

/-- Every loop of a statement on safe paths keeps its moves. -/
def StmtKeepsMoves (context : Context) (entry : DeclNode → Option OwnershipState)
    (stmt : Stmt) : Prop :=
  ∀ scope start rest, SafeAfter context entry start (stmtPaths context scope stmt * rest) →
    stmtLoops context (KeepsMoves context) scope stmt rest

theorem stmtsKeepMoves {stmts : List Stmt}
    (each : ∀ stmt ∈ stmts, StmtKeepsMoves context entry stmt) {scope : Scope} :
    ∀ start rest, SafeAfter context entry start (stmtsPaths context scope stmts * rest) →
      stmtsLoops context (KeepsMoves context) scope stmts rest := by
  induction stmts with
  | nil => exact fun _ _ _ => trivial
  | cons stmt stmts induction =>
      intro start rest safe
      rw [stmtsPaths, mul_assoc] at safe
      rcases stmtPaths_feasible context stmt scope with ⟨front, frontMem⟩
      exact ⟨each stmt (by simp) scope start _ safe,
        induction (fun other member => each other (by simp [member])) _ rest
          (safe.extend frontMem)⟩

theorem armsKeepMoves {byValue : Bool} {arms : List CaseArm}
    (each : ∀ arm ∈ arms, StmtKeepsMoves context entry arm.getBody) {scope : Scope} :
    ∀ start rest, SafeAfter context entry start (armsPaths context scope byValue arms * rest) →
      armsLoops context (KeepsMoves context) scope byValue arms rest := by
  induction arms with
  | nil => exact fun _ _ _ => trivial
  | cons arm arms induction =>
      intro start rest safe
      rw [armsPaths, add_mul] at safe
      refine ⟨?_, induction (fun other member => each other (by simp [member])) start rest
        (safe.mono le_add_self)⟩
      cases arm with
      | mk info tag patterns body =>
          have first := safe.mono le_self_add
          rw [armPaths, mul_assoc, mul_assoc] at first
          exact each (.mk info tag patterns body) (by simp) _ _ _
            (first.extend (Set.mem_singleton _))

theorem stmtKeepsMoves (stmt : Stmt) : StmtKeepsMoves context entry stmt := by
  induction stmt with
  | assignStmt | outputStmt | errorStmt => exact fun _ _ _ _ => trivial
  | blockStmt info stmts each => exact fun _ => stmtsKeepMoves each
  | whileStmt info condition body bodyKeeps =>
      intro scope start rest safe
      refine ⟨safe.keepsMoves, bodyKeeps scope (start ++ exprEvents context scope condition) _ ?_⟩
      have iterated := safe.mono (mul_le_mul_left (iterate_loopPaths _ _) rest)
      rw [mul_assoc, mul_assoc] at iterated
      exact iterated.extend (Set.mem_singleton _)
  | ifStmt info condition thenStmt elseStmt thenKeeps elseKeeps =>
      intro scope start rest safe
      rw [stmtPaths, mul_assoc, add_mul] at safe
      have branches := safe.extend (Set.mem_singleton _)
      refine ⟨thenKeeps scope _ rest (branches.mono le_self_add), ?_⟩
      cases elseStmt with
      | none => trivial
      | some stmt => exact elseKeeps stmt rfl scope _ rest (branches.mono le_add_self)
  | caseStmt info caseExpr arms each =>
      intro scope start rest safe
      cases arms with
      | nil => trivial
      | cons arm arms =>
          rw [stmtPaths, mul_assoc] at safe
          exact armsKeepMoves each _ rest (safe.extend (Set.mem_singleton _))

end

/-! ## Paths of accepted functions -/

/-- No event of a path through the function reads a variable of type `Own` whose
latest event on the path is a move. -/
def NeverUsesMoved (context : Context) (function : Function) (path : List Event) : Prop :=
  ∀ decl, context.isOwn decl = true →
    ∀ before event after, path = before ++ event :: after → reads decl event = true →
      statusAfter decl (entryStatus function decl) before ≠ some .moved

theorem neverUsesMoved_iff {context : Context} {function : Function} {path : List Event} :
    NeverUsesMoved context function path ↔ ∀ decl, context.isOwn decl = true →
      (useMonitor decl).Safe (entryStatus function decl) path :=
  forall₂_congr fun decl _ => ((useMonitor decl).safe_iff_split path _).symm

/-- In an accepted function whose names denote variables of one class, no path
uses a moved variable exactly when every loop keeps its moves. -/
theorem neverUsesMoved_iff_loops {program : Program} {symbols : SymbolTable} {types : TypeResults}
    {summary : DeclNode → Option ReturnSummary} {callEffect : NodeId → Option CallEffect}
    {requirements : List (DeclNode × BorrowChecker.Requirements)}
    {result : DestructionPlan × List MoveTraceEvent}
    (built : SymbolTable.build program = .ok symbols)
    (checked : BorrowChecker.checkPositions .allEnabled symbols types summary program =
      .ok requirements)
    (accepted : run .allEnabled symbols types callEffect program = .ok result)
    (distinct : program.NodesDistinct) {function : Function}
    (member : function ∈ program.functions)
    (names : ∀ event ∈ functionEvents (contextOf .allEnabled symbols types callEffect function)
      function, event.NamesAgree (contextOf .allEnabled symbols types callEffect function)) :
    (∀ path ∈ functionPaths (contextOf .allEnabled symbols types callEffect function) function,
        NeverUsesMoved (contextOf .allEnabled symbols types callEffect function) function path) ↔
      functionLoops (contextOf .allEnabled symbols types callEffect function)
        (KeepsMoves (contextOf .allEnabled symbols types callEffect function)) function := by
  constructor
  · intro never
    have safe : SafeAfter _ (entryStatus function) [] (functionPaths _ function) :=
      fun path pathMem => neverUsesMoved_iff.mp (never path pathMem)
    exact stmtsKeepMoves (fun stmt _ => stmtKeepsMoves stmt) [] _ safe
  · intro loops path pathMem
    rw [neverUsesMoved_iff]
    intro decl own
    have enforced := contextOf_enforced types callEffect (SymbolTable.build_canonical built)
      function
    rcases run_visit built checked accepted distinct member names with
      ⟨plan, body, final, walk, fits, _⟩
    have followed := function_tracks (moveTracking _ decl own (armEndOwners result.1)) enforced
      own walk fits loops entryStatus_absent (fun _ moved => ?_) pathMem
    · exact followed.1
    · rw [entryStatus] at moved
      split at moved <;> cases moved

/-! ## A move that a loop forgets -/

namespace ForgottenMove

def n : DeclNode := { id := 1, name := "n" }

def x : DeclNode := { id := 2, name := "x" }

/-- `case x of { A -> n = value; }` -/
def matchX (case arm : NodeId) (value : Int) : Stmt :=
  .caseStmt { id := case } (.varExpr { id := case + 1 } "x")
    [.mk { id := arm } "A" [] (.assignStmt { id := arm + 1 } (.varExpr { id := arm + 2 } "n")
      (.numExpr { id := arm + 3 } value))]

/-- `main() { var n, x; n = 1; while (n) { x = A; case x of { A -> n = 0; } }
case x of { A -> n = 1; } return n; }` -/
def main : Function where
  decl := { id := 0, name := "main" }
  formals := []
  declarations := [n, x]
  stmts := [
    .assignStmt { id := 3 } (.varExpr { id := 4 } "n") (.numExpr { id := 5 } 1),
    .whileStmt { id := 6 } (.varExpr { id := 7 } "n") (.blockStmt { id := 8 } [
      .assignStmt { id := 9 } (.varExpr { id := 10 } "x") (.sumCtorExpr { id := 11 } "A" []),
      matchX 12 14 0]),
    matchX 18 20 1]
  returnInfo := { id := 24 }
  returnArg := .varExpr { id := 25 } "n"

/-- `type T = A;` and `main`. -/
def program : Program where
  typedecls := [{ name := "T", variants := [{ tag := "A", params := [] }] }]
  functions := [main]

def types : TypeResults where
  ofDecl decl :=
    if decl = x then .sumType "T" [("A", 0)] []
    else if decl = main.decl then .function [] .int
    else .int
  ofExpr
    | .sumCtorExpr .. | .varExpr _ "x" => .sumType "T" [("A", 0)] []
    | _ => .int

def context (symbols : SymbolTable) : Context :=
  contextOf .allEnabled symbols types (fun _ => none) main

theorem program_accepted : ∃ symbols requirements result,
    SymbolTable.build program = .ok symbols ∧
    BorrowChecker.checkPositions .allEnabled symbols types (fun _ => none) program =
      .ok requirements ∧
    run .allEnabled symbols types (fun _ => none) program = .ok result ∧
    ∀ event ∈ functionEvents (context symbols) main, event.NamesAgree (context symbols) := by
  have holds : (match SymbolTable.build program with
      | .error _ => false
      | .ok symbols =>
          (BorrowChecker.checkPositions .allEnabled symbols types (fun _ => none) program).isOk
            && (run .allEnabled symbols types (fun _ => none) program).isOk
            && (functionEvents (context symbols) main).all fun event =>
              event.NamesAgree (context symbols)) = true := by
    decide +kernel
  split at holds
  · cases holds
  · rename_i symbols built
    rw [Bool.and_eq_true, Bool.and_eq_true, isOk_iff, isOk_iff, List.all_eq_true] at holds
    rcases holds with ⟨⟨⟨requirements, checked⟩, result, accepted⟩, names⟩
    exact ⟨symbols, requirements, result, built, checked, accepted, fun event member =>
      of_decide_eq_true (names event member)⟩

theorem program_distinct : program.NodesDistinct :=
  ⟨by decide, by decide, by decide⟩

def nIs (action : Action) : Event := .access action "n" (some ⟨n, false⟩)

def xIs (action : Action) : Event := .access action "x" (some ⟨x, false⟩)

theorem matchX_paths (symbols : SymbolTable) (case arm : NodeId) (value : Int) :
    [xIs .take, .enterArm [], nIs .store, .leaveArm arm []] ∈
      stmtPaths (context symbols) (functionScope main) (matchX case arm value) := by
  refine Language.append_mem_mul (a := [xIs .take]) (Set.mem_singleton _) (.inl ?_)
  exact Language.append_mem_mul (Language.append_mem_mul (Set.mem_singleton _)
    (Set.mem_singleton _)) (Set.mem_singleton _)

/-- One iteration, which leaves `x` moved, and a second match of `x`. -/
def path : List Event :=
  [nIs .store, nIs .use, xIs .store, xIs .take, .enterArm [], nIs .store, .leaveArm 14 [],
    nIs .use, xIs .take, .enterArm [], nIs .store, .leaveArm 20 [], nIs .take]

theorem path_mem (symbols : SymbolTable) : path ∈ functionPaths (context symbols) main := by
  have iteration : [nIs .use] ++ ([xIs .store] ++ ([xIs .take, .enterArm [], nIs .store,
      .leaveArm 14 []] ++ [])) ∈ ({[nIs .use]} : Language Event) * ({[xIs .store]} *
        (stmtPaths (context symbols) (functionScope main) (matchX 12 14 0) * 1)) :=
    Language.append_mem_mul (Set.mem_singleton _) (Language.append_mem_mul (Set.mem_singleton _)
      (Language.append_mem_mul (matchX_paths symbols 12 14 0) Language.nil_mem_one))
  have loop := iterate_loopPaths _ _ (Language.append_mem_mul iteration
    (exit_loopPaths _ _ (Set.mem_singleton _)))
  exact Language.append_mem_mul (Language.append_mem_mul (Set.mem_singleton _)
    (Language.append_mem_mul loop (Language.append_mem_mul (matchX_paths symbols 18 20 1)
      Language.nil_mem_one))) (Set.mem_singleton _)

/-- The program is accepted, and the path matches `x` again after it was moved. -/
theorem accepted_usesMoved : ∃ symbols requirements result,
    SymbolTable.build program = .ok symbols ∧
    BorrowChecker.checkPositions .allEnabled symbols types (fun _ => none) program =
      .ok requirements ∧
    run .allEnabled symbols types (fun _ => none) program = .ok result ∧
    program.NodesDistinct ∧ main ∈ program.functions ∧
    ∃ path ∈ functionPaths (context symbols) main,
      ¬ NeverUsesMoved (context symbols) main path := by
  rcases program_accepted with ⟨symbols, requirements, result, built, checked, accepted, _⟩
  refine ⟨symbols, requirements, result, built, checked, accepted, program_distinct,
    List.mem_singleton_self _, path, path_mem symbols, fun never => ?_⟩
  exact never x rfl (path.take 8) (xIs .take) (path.drop 9) rfl rfl rfl

theorem forgottenMove_iff : ∃ symbols result,
    run .allEnabled symbols types (fun _ => none) program = .ok result ∧
    ((∀ path ∈ functionPaths (context symbols) main,
        NeverUsesMoved (context symbols) main path) ↔
      functionLoops (context symbols) (KeepsMoves (context symbols)) main) := by
  rcases program_accepted with ⟨symbols, requirements, result, built, checked, accepted, names⟩
  exact ⟨symbols, result, accepted, neverUsesMoved_iff_loops built checked accepted
    program_distinct (List.mem_singleton_self _) names⟩

end ForgottenMove

end Topc.MoveAnalysis
