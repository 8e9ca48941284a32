import Topc.ControlFlowGraph.Fragments
import Topc.ControlFlowGraph.Labels
import Topc.Foundation.PathMonitor

/-! # The builder's fragments

Every statement gets a fragment that reads exactly its paths. -/

open Computability

namespace Topc.CFGBuilder

/-- The case statements among the nodes have arms, with labels of their own. -/
def LabelsDistinct (nodes : List AstNode) : Prop :=
  ∀ info caseExpr arms, AstNode.stmt (.caseStmt info caseExpr arms) ∈ nodes →
    arms ≠ [] ∧ (arms.map formatCaseArmLabel).Nodup

theorem LabelsDistinct.mono {nodes wider : List AstNode} (distinct : LabelsDistinct wider)
    (inside : nodes ⊆ wider) : LabelsDistinct nodes :=
  fun info caseExpr arms member => distinct info caseExpr arms (inside member)

/-! ## Runs of simple statements -/

def Run.steps (run : Run) : List FlowStep :=
  run.statements.map .simple ++
    match run.ret with
    | some (info, arg) => [.returned info arg]
    | none => []

def Run.points (run : Run) : List FlowPoint :=
  run.statements.map .simple ++
    match run.ret with
    | some (info, arg) => [.returned info arg]
    | none => []

/-- Only the `return` goes on at the exit. -/
def Run.WellEnded (run : Run) (current : Option BlockId) : Prop :=
  (run.ret = none ∧ ∃ next, current = some next) ∨ (∃ ret, run.ret = some ret ∧ current = none)

/-- A block without a condition that falls through. -/
theorem createBlock_fallthrough (state : State) (statements : List Stmt) (next : BlockId) :
    ∃ new, Forks state (createBlock state statements .fallthrough none none
        [⟨some next, .fallthrough, ""⟩]).1
      [(state.nextId, {statements.map .simple})] (some next) (statements.map .simple) new := by
  let draft : BlockDraft := {
    id := state.nextId, name := blockName state.nextId, statements
    terminatorKind := .fallthrough, terminatorStatement := none, condition := none
    successors := [⟨some next, .fallthrough, ""⟩] }
  have valid : draft.Valid := ⟨rfl, List.nodup_singleton _, trivial⟩
  have id : draft.id = state.nextId := rfl
  have made := (Forks.skip state next).block id valid rfl (by simp)
  refine ⟨[draft], ?_⟩
  have points : draft.points ++ [] = statements.map .simple := by
    simp [draft, BlockDraft.points, terminatorPoints]
  have steps : draft.steps ⟨some next, .fallthrough, ""⟩ = statements.map .simple := by
    simp [draft, BlockDraft.steps, terminatorSteps]
  rw [points] at made
  simp only [draft, List.zipWith_cons_cons, List.zipWith_nil_left, List.sum_cons, List.sum_nil,
    mul_one, add_zero] at made
  rw [← steps]
  exact made

theorem closeRun_forks (state : State) {run : Run} {current : Option BlockId}
    (ended : run.WellEnded current) :
    ∃ after entry new, closeRun state run current = (after, some entry) ∧
      Forks state after [(entry, {run.steps})] current run.points new := by
  rcases run with ⟨statements, ret⟩
  rcases ended with ⟨noReturn, next, rfl⟩ | ⟨⟨info, arg⟩, hasReturn, rfl⟩
  · dsimp only at noReturn
    subst noReturn
    cases statements with
    | nil => exact ⟨state, next, [], rfl, Forks.skip state next⟩
    | cons stmt statements =>
        rcases createBlock_fallthrough state (stmt :: statements) next with ⟨new, made⟩
        refine ⟨_, state.nextId, new, rfl, ?_⟩
        rw [Run.steps, Run.points, List.append_nil, List.append_nil]
        exact made
  · dsimp only at hasReturn
    subst hasReturn
    let draft : BlockDraft := {
      id := state.nextId, name := blockName state.nextId, statements
      terminatorKind := .returnTerminator, terminatorStatement := some (.returnStmt info arg)
      condition := none, successors := [⟨none, .returnToExit, "return"⟩] }
    have valid : draft.Valid := ⟨rfl, List.nodup_singleton _, rfl⟩
    have id : draft.id = state.nextId := rfl
    exact ⟨_, state.nextId, [draft], rfl, Forks.ending state id valid rfl rfl rfl⟩

/-! ## Statements -/

/-- The builder makes a fragment for the statement. -/
def StmtBuilds (stmt : Stmt) : Prop :=
  LabelsDistinct stmt.postOrder → ∀ (state : State) (next : BlockId),
    ∃ after entry new, buildStmt state (some next) stmt = .ok (after, some entry) ∧
      Forks state after [(entry, stmt.flowPaths)] (some next) stmt.flowPoints new

/-- A simple statement joins the run after it. -/
theorem simple_flow {stmt : Stmt} (simple : isStructured stmt = false) :
    stmt.flowPaths = {[.simple stmt]} ∧ stmt.flowPoints = [.simple stmt] := by
  cases stmt with
  | assignStmt info lhs rhs | outputStmt info arg | errorStmt info arg =>
      rw [Stmt.flowPaths, Stmt.flowPoints]
      exact ⟨rfl, rfl⟩
  | blockStmt info stmts => cases simple
  | whileStmt info condition body => cases simple
  | ifStmt info condition thenStmt elseStmt => cases simple
  | caseStmt info caseExpr arms => cases simple

/-- What is left open after a sequence can be closed behind any simple statements
`front`, and then reads these, the sequence and the run it was built before. -/
theorem buildSequence_forks {run : Run} {current : Option BlockId} (state : State)
    (ended : run.WellEnded current) {stmts : List Stmt}
    (each : ∀ stmt ∈ stmts, StmtBuilds stmt)
    (distinct : LabelsDistinct (Stmt.postOrderOf stmts)) :
    ∃ open' run' current', buildSequence state run current stmts = .ok (open', run', current') ∧
      ∀ front : List Stmt, ∃ after entry new,
        closeRun open' ⟨front ++ run'.statements, run'.ret⟩ current' = (after, some entry) ∧
        Forks state after
          [(entry, ({front.map .simple} : Language FlowStep) *
            (Stmt.flowPathsOf stmts * {run.steps}))]
          current (front.map .simple ++ (Stmt.flowPointsOf stmts ++ run.points)) new := by
  induction stmts with
  | nil =>
      refine ⟨state, run, current, by rw [buildSequence], ?_⟩
      intro front
      have frontEnded : Run.WellEnded ⟨front ++ run.statements, run.ret⟩ current := ended
      rcases closeRun_forks state frontEnded with ⟨after, entry, new, closed, made⟩
      refine ⟨after, entry, new, closed, ?_⟩
      have steps : Run.steps ⟨front ++ run.statements, run.ret⟩ =
          front.map .simple ++ run.steps := by
        simp [Run.steps]
      have points : Run.points ⟨front ++ run.statements, run.ret⟩ =
          front.map .simple ++ run.points := by
        simp [Run.points]
      rw [steps, points, Monitor.singleton_append] at made
      rw [Stmt.flowPathsOf, Stmt.flowPointsOf, one_mul]
      exact made
  | cons stmt stmts induction =>
      have inside : Stmt.postOrderOf stmts ⊆ Stmt.postOrderOf (stmt :: stmts) := by
        rw [Stmt.postOrderOf]
        exact List.subset_append_right _ _
      have stmtInside : stmt.postOrder ⊆ Stmt.postOrderOf (stmt :: stmts) := by
        rw [Stmt.postOrderOf]
        exact List.subset_append_left _ _
      rcases induction (fun other member => each other (List.mem_cons_of_mem _ member))
        (distinct.mono inside) with ⟨opened, run', current', built, closing⟩
      rw [Stmt.flowPathsOf, Stmt.flowPointsOf]
      cases structured : isStructured stmt with
      | false =>
          rcases simple_flow structured with ⟨paths, points⟩
          refine ⟨opened, { run' with statements := stmt :: run'.statements }, current', ?_, ?_⟩
          · simp [buildSequence, built, structured, bind, Except.bind, pure, Except.pure]
          · intro front
            rcases closing (front ++ [stmt]) with ⟨after, entry, new, closed, made⟩
            refine ⟨after, entry, new, ?_, ?_⟩
            · rw [← closed]
              simp
            · rw [List.map_append, List.map_singleton, Monitor.singleton_append] at made
              rw [paths, points]
              simp only [mul_assoc, List.append_assoc, List.map_append, List.map_cons,
                List.map_nil] at made ⊢
              exact made
      | true =>
          rcases closing [] with ⟨mid, next, laterNew, closed, later⟩
          rcases each stmt List.mem_cons_self (distinct.mono stmtInside) mid next with
            ⟨stmtAfter, stmtEntry, stmtNew, stmtBuilt, stmtMade⟩
          refine ⟨stmtAfter, ⟨[], none⟩, some stmtEntry, ?_, ?_⟩
          · rw [List.nil_append] at closed
            simp [buildSequence, built, structured, closed, stmtBuilt, bind, Except.bind, pure,
              Except.pure]
          · intro front
            have frontEnded : Run.WellEnded ⟨front ++ [], none⟩ (some stmtEntry) :=
              Or.inl ⟨rfl, stmtEntry, rfl⟩
            rcases closeRun_forks stmtAfter frontEnded with
              ⟨after, entry, new, frontClosed, frontMade⟩
            refine ⟨after, entry, laterNew ++ stmtNew ++ new, frontClosed, ?_⟩
            have steps : Run.steps ⟨front ++ [], none⟩ = front.map .simple := by
              simp [Run.steps]
            have points : Run.points ⟨front ++ [], none⟩ = front.map .simple := by
              simp [Run.points]
            rw [steps, points] at frontMade
            have whole := (later.precede stmtMade).precede frontMade
            simp only [List.map_nil, List.nil_append, Monitor.singleton_nil, one_mul] at whole
            simp only [mul_assoc, List.append_assoc] at whole ⊢
            exact whole

/-- The arms of a case statement lead to a fragment each. -/
theorem buildArms_forks {arms : List CaseArm} (each : ∀ arm ∈ arms, StmtBuilds arm.getBody)
    (distinct : LabelsDistinct (CaseArm.postOrderOf arms)) (next : BlockId) :
    ∀ state : State, ∃ after armEdges branches new,
      buildArms state (some next) arms = .ok (after, armEdges) ∧
      Forks state after branches (some next) (CaseArm.flowPointsOf arms) new ∧
      LeadsTo armEdges branches ∧
      armEdges.map (fun edge => (edge.kind, edge.label)) =
        arms.map (fun arm => (.caseArm, formatCaseArmLabel arm)) ∧
      ∀ terminator caseExpr,
        (List.zipWith (fun edge branch =>
          ({[.branch terminator caseExpr edge.kind edge.label]} : Language FlowStep) * branch.2)
          armEdges branches).sum = CaseArm.flowPathsOf terminator caseExpr arms := by
  induction arms with
  | nil =>
      intro state
      refine ⟨state, [], [], [], by rw [buildArms], ?_, rfl, rfl, ?_⟩
      · rw [CaseArm.flowPointsOf]
        exact Forks.nil state (some next)
      · intro terminator caseExpr
        rw [CaseArm.flowPathsOf]
        rfl
  | cons arm arms induction =>
      intro state
      have inside : CaseArm.postOrderOf arms ⊆ CaseArm.postOrderOf (arm :: arms) := by
        rw [CaseArm.postOrderOf]
        exact List.subset_append_right _ _
      have armInside : arm.getBody.postOrder ⊆ CaseArm.postOrderOf (arm :: arms) := by
        rw [CaseArm.postOrderOf]
        cases arm with
        | mk info tag patterns body =>
            rw [CaseArm.postOrder]
            exact List.subset_append_left _ _
      have bodyBuilds := each arm List.mem_cons_self (distinct.mono armInside)
      cases arm with
      | mk info tag patterns body =>
          rcases bodyBuilds state next with ⟨mid, entry, new, built, made⟩
          dsimp only [CaseArm.getBody] at built made
          rcases induction (fun other member => each other (List.mem_cons_of_mem _ member))
            (distinct.mono inside) mid with
            ⟨after, armEdges, branches, laterNew, laterBuilt, later, leads, labels, choice⟩
          let armEdge : CFGEdge :=
            ⟨some entry, .caseArm, formatCaseArmLabel (.mk info tag patterns body)⟩
          refine ⟨after, armEdge :: armEdges, (entry, body.flowPaths) :: branches, new ++ laterNew,
            ?_, ?_, ?_, ?_, ?_⟩
          · rw [buildArms, built]
            simp only [bind, Except.bind, laterBuilt, pure, Except.pure]
            rfl
          · rw [CaseArm.flowPointsOf]
            exact made.append later
          · rw [LeadsTo, List.map_cons, List.map_cons, leads]
          · rw [List.map_cons, List.map_cons, labels]
          · intro terminator caseExpr
            rw [List.zipWith_cons_cons, List.sum_cons, choice, CaseArm.flowPathsOf]

/-- The block of a statement that branches. -/
theorem branching_forks {before mid : State} {branches : List (BlockId × Language FlowStep)}
    {continuation : Option BlockId} {points : List FlowPoint} {new : List BlockDraft}
    (made : Forks before mid branches continuation points new) (kind : CFGTerminatorKind)
    (terminator : Stmt) (condition : Expr) (edges : List CFGEdge)
    (leads : LeadsTo edges branches) (nonempty : branches ≠ []) (distinct : edges.Nodup)
    (fits : BlockDraft.TerminatorFits {
      id := mid.nextId, name := blockName mid.nextId, statements := [], terminatorKind := kind
      terminatorStatement := some (.stmt terminator), condition := some condition
      successors := edges }) :
    ∃ after new', createBlock mid [] kind (some (.stmt terminator)) (some condition) edges =
        (after, some mid.nextId) ∧
      Forks before after [(mid.nextId, (List.zipWith (fun edge branch =>
        ({[.branch terminator condition edge.kind edge.label]} : Language FlowStep) * branch.2)
        edges branches).sum)]
      continuation (.condition terminator condition :: points) new' := by
  let draft : BlockDraft := {
    id := mid.nextId, name := blockName mid.nextId, statements := [], terminatorKind := kind
    terminatorStatement := some (.stmt terminator), condition := some condition
    successors := edges }
  have valid : draft.Valid := ⟨rfl, distinct, fits⟩
  have id : draft.id = mid.nextId := rfl
  exact ⟨_, _, rfl, made.block id valid leads nonempty⟩

theorem stmtBuilds (stmt : Stmt) : StmtBuilds stmt := by
  induction stmt with
  | assignStmt info lhs rhs | outputStmt info arg | errorStmt info arg =>
      intro _ state next
      rcases createBlock_fallthrough state [_] next with ⟨new, made⟩
      refine ⟨_, state.nextId, new, by rw [buildStmt]; rfl, ?_⟩
      rw [Stmt.flowPaths, Stmt.flowPoints]
      exact made
  | blockStmt info stmts each =>
      intro distinct state next
      have inside : Stmt.postOrderOf stmts ⊆ (Stmt.blockStmt info stmts).postOrder := by
        rw [Stmt.postOrder]
        exact List.subset_append_left _ _
      have ended : Run.WellEnded ⟨[], none⟩ (some next) := Or.inl ⟨rfl, next, rfl⟩
      rcases buildSequence_forks state ended each (distinct.mono inside) with
        ⟨opened, run', current', built, closing⟩
      rcases closing [] with ⟨after, entry, new, closed, made⟩
      refine ⟨after, entry, new, ?_, ?_⟩
      · rw [List.nil_append] at closed
        simp [buildStmt, built, closed, bind, Except.bind, pure, Except.pure]
      · rw [Stmt.flowPaths, Stmt.flowPoints]
        simpa [Run.steps, Run.points, Monitor.singleton_nil] using made
  | whileStmt info condition body bodyBuilds =>
      intro distinct state next
      have inside : body.postOrder ⊆ (Stmt.whileStmt info condition body).postOrder := by
        rw [Stmt.postOrder, List.append_assoc]
        exact List.Subset.trans (List.subset_append_left _ _) (List.subset_append_right _ _)
      rcases bodyBuilds (distinct.mono inside) (allocateId state).1 state.nextId with
        ⟨mid, bodyEntry, bodyNew, built, made⟩
      let draft : BlockDraft := {
        id := state.nextId, name := blockName state.nextId, statements := []
        terminatorKind := .whileTerminator
        terminatorStatement := some (.stmt (.whileStmt info condition body))
        condition := some condition
        successors := [⟨some bodyEntry, .trueBranch, ""⟩, ⟨some next, .falseBranch, ""⟩] }
      have valid : draft.Valid := ⟨rfl, by simp [draft], by simp [draft, BlockDraft.TerminatorFits]⟩
      have id : draft.id = state.nextId := rfl
      have loop := made.loop id valid rfl rfl rfl rfl rfl
      refine ⟨addDraft mid draft, state.nextId, bodyNew ++ [draft], ?_, ?_⟩
      · rw [buildStmt]
        simp only [bind, Except.bind, allocateId] at built ⊢
        rw [built]
        rfl
      · rw [Stmt.flowPaths, Stmt.flowPoints]
        exact loop
  | ifStmt info condition thenStmt elseStmt thenBuilds elseBuilds =>
      intro distinct state next
      have thenInside : thenStmt.postOrder ⊆
          (Stmt.ifStmt info condition thenStmt elseStmt).postOrder := by
        rw [Stmt.postOrder]
        intro node member
        simp [member]
      rcases thenBuilds (distinct.mono thenInside) state next with
        ⟨mid, thenEntry, thenNew, thenBuilt, thenMade⟩
      cases elseStmt with
      | none =>
          have forks := thenMade.append (Forks.skip mid next)
          rcases branching_forks forks .ifTerminator (.ifStmt info condition thenStmt none)
            condition [⟨some thenEntry, .trueBranch, ""⟩, ⟨some next, .falseBranch, ""⟩]
            rfl (by simp) (by simp) (by simp [BlockDraft.TerminatorFits]) with
            ⟨final, new, created, made⟩
          refine ⟨final, mid.nextId, new, ?_, ?_⟩
          · rw [buildStmt, thenBuilt, ← created]
            rfl
          · rw [Stmt.flowPaths, Stmt.flowPoints]
            simpa using made
      | some elseStmt =>
          have elseInside : elseStmt.postOrder ⊆
              (Stmt.ifStmt info condition thenStmt (some elseStmt)).postOrder := by
            rw [Stmt.postOrder, Stmt.elsePostOrder]
            intro node member
            simp [member]
          rcases elseBuilds elseStmt rfl (distinct.mono elseInside) mid next with
            ⟨after, elseEntry, elseNew, elseBuilt, elseMade⟩
          have forks := thenMade.append elseMade
          rcases branching_forks forks .ifTerminator
            (.ifStmt info condition thenStmt (some elseStmt)) condition
            [⟨some thenEntry, .trueBranch, ""⟩, ⟨some elseEntry, .falseBranch, ""⟩]
            rfl (by simp) (by simp) (by simp [BlockDraft.TerminatorFits]) with
            ⟨final, new, created, made⟩
          refine ⟨final, after.nextId, new, ?_, ?_⟩
          · rw [buildStmt, thenBuilt, ← created]
            simp only [bind, Except.bind, elseBuilt]
            rfl
          · rw [Stmt.flowPaths, Stmt.flowPoints]
            simpa using made
  | caseStmt info caseExpr arms each =>
      intro distinct state next
      rcases distinct info caseExpr arms (by rw [Stmt.postOrder]; simp) with ⟨nonempty, labels⟩
      have inside : CaseArm.postOrderOf arms ⊆ (Stmt.caseStmt info caseExpr arms).postOrder := by
        rw [Stmt.postOrder]
        intro node member
        simp [member]
      rcases buildArms_forks each (distinct.mono inside) next state with
        ⟨mid, armEdges, branches, new, built, forks, leads, kinds, choice⟩
      have someEdge : armEdges ≠ [] := by
        rintro rfl
        exact nonempty (List.map_eq_nil_iff.mp kinds.symm)
      have someBranch : branches ≠ [] := by
        rintro rfl
        exact someEdge (List.map_eq_nil_iff.mp leads)
      have distinctEdges : armEdges.Nodup := by
        apply List.Nodup.of_map fun edge => (edge.kind, edge.label)
        rw [kinds]
        apply List.Nodup.of_map Prod.snd
        rw [List.map_map]
        exact labels
      have allArms : ∀ edge ∈ armEdges, edge.kind = .caseArm := by
        intro edge member
        have inKinds : (edge.kind, edge.label) ∈
            armEdges.map fun edge => (edge.kind, edge.label) :=
          List.mem_map_of_mem member
        rw [kinds] at inKinds
        rcases List.mem_map.mp inKinds with ⟨arm, _, same⟩
        exact (Prod.ext_iff.mp same).1.symm
      rcases branching_forks forks .caseTerminator (.caseStmt info caseExpr arms) caseExpr armEdges
        leads someBranch distinctEdges ⟨someEdge, allArms⟩ with
        ⟨final, new', created, made⟩
      refine ⟨final, mid.nextId, new', ?_, ?_⟩
      · rw [buildStmt, if_neg (by simpa using nonempty), built, ← created]
        rfl
      · rw [Stmt.flowPaths, Stmt.flowPoints, ← choice]
        exact made

end Topc.CFGBuilder
