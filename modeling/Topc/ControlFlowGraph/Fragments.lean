import Topc.ControlFlowGraph.Builder

/-! # Fragments of a graph under construction

What a statement does on its paths, and what the blocks made for it add to any
graph that has them. -/

open Computability

namespace Topc

open CFGBuilder (formatCaseArmLabel)
open GraphPaths (pathsFrom Reaches)

/-! ## Paths of the structured program -/

mutual
/-- The paths of a statement: either branch, any arm and any number of rounds
are possible. -/
def Stmt.flowPaths : Stmt → Language FlowStep
  | .assignStmt info lhs rhs => {[.simple (.assignStmt info lhs rhs)]}
  | .outputStmt info arg => {[.simple (.outputStmt info arg)]}
  | .errorStmt info arg => {[.simple (.errorStmt info arg)]}
  | .blockStmt _ stmts => Stmt.flowPathsOf stmts
  | .whileStmt info condition body =>
      let branch kind := FlowStep.branch (.whileStmt info condition body) condition kind ""
      (({[branch .trueBranch]} : Language FlowStep) * body.flowPaths)∗ * {[branch .falseBranch]}
  | .ifStmt info condition thenStmt none =>
      let branch kind := FlowStep.branch (.ifStmt info condition thenStmt none) condition kind ""
      ({[branch .trueBranch]} : Language FlowStep) * thenStmt.flowPaths +
        {[branch .falseBranch]}
  | .ifStmt info condition thenStmt (some elseStmt) =>
      let branch kind :=
        FlowStep.branch (.ifStmt info condition thenStmt (some elseStmt)) condition kind ""
      ({[branch .trueBranch]} : Language FlowStep) * thenStmt.flowPaths +
        ({[branch .falseBranch]} : Language FlowStep) * elseStmt.flowPaths
  | .caseStmt info caseExpr arms =>
      CaseArm.flowPathsOf (.caseStmt info caseExpr arms) caseExpr arms

def Stmt.flowPathsOf : List Stmt → Language FlowStep
  | [] => 1
  | stmt :: stmts => stmt.flowPaths * Stmt.flowPathsOf stmts

def CaseArm.flowPathsOf (terminator : Stmt) (caseExpr : Expr) :
    List CaseArm → Language FlowStep
  | [] => 0
  | .mk info tag patterns body :: arms =>
      let label := formatCaseArmLabel (.mk info tag patterns body)
      ({[.branch terminator caseExpr .caseArm label]} : Language FlowStep) * body.flowPaths +
        CaseArm.flowPathsOf terminator caseExpr arms
end

mutual
/-- The simple statements and conditions in a statement. -/
def Stmt.flowPoints : Stmt → List FlowPoint
  | .assignStmt info lhs rhs => [.simple (.assignStmt info lhs rhs)]
  | .outputStmt info arg => [.simple (.outputStmt info arg)]
  | .errorStmt info arg => [.simple (.errorStmt info arg)]
  | .blockStmt _ stmts => Stmt.flowPointsOf stmts
  | .whileStmt info condition body =>
      .condition (.whileStmt info condition body) condition :: body.flowPoints
  | .ifStmt info condition thenStmt none =>
      .condition (.ifStmt info condition thenStmt none) condition :: thenStmt.flowPoints
  | .ifStmt info condition thenStmt (some elseStmt) =>
      .condition (.ifStmt info condition thenStmt (some elseStmt)) condition ::
        (thenStmt.flowPoints ++ elseStmt.flowPoints)
  | .caseStmt info caseExpr arms =>
      .condition (.caseStmt info caseExpr arms) caseExpr :: CaseArm.flowPointsOf arms

def Stmt.flowPointsOf : List Stmt → List FlowPoint
  | [] => []
  | stmt :: stmts => stmt.flowPoints ++ Stmt.flowPointsOf stmts

def CaseArm.flowPointsOf : List CaseArm → List FlowPoint
  | [] => []
  | .mk _ _ _ body :: arms => body.flowPoints ++ CaseArm.flowPointsOf arms
end

def Function.flowPaths (function : Function) : Language FlowStep :=
  Stmt.flowPathsOf function.stmts * {[.returned function.returnInfo function.returnArg]}

def Function.flowPoints (function : Function) : List FlowPoint :=
  Stmt.flowPointsOf function.stmts ++ [.returned function.returnInfo function.returnArg]

namespace CFGBuilder

/-! ## Drafts in a graph -/

namespace BlockDraft

def steps (draft : BlockDraft) (edge : CFGEdge) : List FlowStep :=
  draft.statements.map .simple ++ terminatorSteps draft.terminatorStatement draft.condition edge

def points (draft : BlockDraft) : List FlowPoint :=
  draft.statements.map .simple ++ terminatorPoints draft.terminatorStatement draft.condition

/-- The edges a terminator of its kind has. -/
def TerminatorFits (draft : BlockDraft) : Prop :=
  match draft.terminatorKind with
  | .ifTerminator | .whileTerminator =>
      (draft.successors.countP fun edge => edge.kind == .trueBranch) = 1 ∧
        (draft.successors.countP fun edge => edge.kind == .falseBranch) = 1
  | .returnTerminator =>
      draft.successors.map (fun edge => (edge.kind, edge.target)) = [(.returnToExit, none)]
  | .caseTerminator => draft.successors ≠ [] ∧ ∀ edge ∈ draft.successors, edge.kind = .caseArm
  | .fallthrough => True

/-- What validation asks of a block alone. -/
structure Valid (draft : BlockDraft) : Prop where
  named : draft.name = blockName draft.id
  distinctEdges : draft.successors.Nodup
  terminator : draft.TerminatorFits

end BlockDraft

/-- The graph has the drafts, with the exit where a target is still open. -/
def Includes (edge : BlockId → List FlowStep → BlockId → Prop) (exit : BlockId)
    (drafts : List BlockDraft) : Prop :=
  ∀ draft ∈ drafts, draft.id ≠ exit ∧ ∀ word next, edge draft.id word next ↔
    ∃ out ∈ draft.successors, out.target.getD exit = next ∧ word = draft.steps out

theorem includes_append {edge : BlockId → List FlowStep → BlockId → Prop} {exit : BlockId}
    {drafts later : List BlockDraft} :
    Includes edge exit (drafts ++ later) ↔ Includes edge exit drafts ∧ Includes edge exit later :=
  List.forall_mem_append

/-- The drafts `new` were added for `branches`: from each of these blocks the
graph reads the paths given and goes on at the continuation. Without a
continuation it goes on at the exit. -/
structure Forks (before after : State) (branches : List (BlockId × Language FlowStep))
    (continuation : Option BlockId) (points : List FlowPoint) (new : List BlockDraft) : Prop where
  drafts : after.drafts = before.drafts ++ new
  ids : (new.map BlockDraft.id).Nodup
  grows : before.nextId ≤ after.nextId
  range : ∀ draft ∈ new, before.nextId ≤ draft.id ∧ draft.id < after.nextId
  valid : ∀ draft ∈ new, draft.Valid
  targets : ∀ draft ∈ new, ∀ edge ∈ draft.successors,
    (∃ other ∈ new, edge.target = some other.id) ∨
      (edge.target = continuation ∧ (continuation = none → edge.kind = .returnToExit))
  starts : ∀ branch ∈ branches,
    (∃ draft ∈ new, draft.id = branch.1) ∨ continuation = some branch.1
  points : (new.flatMap BlockDraft.points).Perm points
  meaning : ∀ edge exit, Includes edge exit new → ∀ branch ∈ branches,
    pathsFrom edge exit branch.1 = branch.2 * pathsFrom edge exit (continuation.getD exit)
  onwards : ∀ edge exit, Includes edge exit new → ∀ branch ∈ branches,
    Reaches edge branch.1 (continuation.getD exit)
  reached : ∀ edge exit, Includes edge exit new → ∀ draft ∈ new, ∃ branch ∈ branches,
    Reaches edge branch.1 draft.id

/-- Nothing has to be added to go on at the continuation. -/
theorem Forks.skip (state : State) (next : BlockId) :
    Forks state state [(next, 1)] (some next) [] [] := by
  constructor
  · exact (List.append_nil _).symm
  · exact List.nodup_nil
  · exact Nat.le_refl _
  · exact nofun
  · exact nofun
  · exact nofun
  · intro branch member
    rw [List.mem_singleton.mp member]
    exact Or.inr rfl
  · exact List.Perm.nil
  · intro edge exit _ branch member
    rw [List.mem_singleton.mp member]
    exact (one_mul _).symm
  · intro edge exit _ branch member
    rw [List.mem_singleton.mp member]
    exact Relation.ReflTransGen.refl
  · exact fun _ _ _ => nofun

theorem Forks.nil (state : State) (continuation : Option BlockId) :
    Forks state state [] continuation [] [] := by
  constructor
  · exact (List.append_nil _).symm
  · exact List.nodup_nil
  · exact Nat.le_refl _
  · exact nofun
  · exact nofun
  · exact nofun
  · exact nofun
  · exact List.Perm.nil
  · exact fun _ _ _ => nofun
  · exact fun _ _ _ => nofun
  · exact fun _ _ _ => nofun

section

variable {before mid after : State} {branches later : List (BlockId × Language FlowStep)}
  {continuation : Option BlockId} {points laterPoints : List FlowPoint}
  {new laterNew : List BlockDraft}

theorem Forks.ids_append (first : Forks before mid branches continuation points new)
    {other : Option BlockId} (rest : Forks mid after later other laterPoints laterNew) :
    ((new ++ laterNew).map BlockDraft.id).Nodup := by
  rw [List.map_append]
  apply first.ids.append rest.ids
  intro id early late
  rcases List.mem_map.mp early with ⟨draft, draftMem, rfl⟩
  rcases List.mem_map.mp late with ⟨draft', draftMem', same⟩
  have below := (first.range draft draftMem).2
  have above := (rest.range draft' draftMem').1
  rw [same] at above
  exact Nat.lt_irrefl _ (Nat.lt_of_lt_of_le below above)

theorem Forks.range_append (first : Forks before mid branches continuation points new)
    {other : Option BlockId} (rest : Forks mid after later other laterPoints laterNew) :
    ∀ draft ∈ new ++ laterNew, before.nextId ≤ draft.id ∧ draft.id < after.nextId := by
  intro draft member
  rcases List.mem_append.mp member with early | late
  · rcases first.range draft early with ⟨lower, upper⟩
    exact ⟨lower, Nat.lt_of_lt_of_le upper rest.grows⟩
  · rcases rest.range draft late with ⟨lower, upper⟩
    exact ⟨Nat.le_trans first.grows lower, upper⟩

/-- Branches made one after the other with the same continuation. -/
theorem Forks.append (first : Forks before mid branches continuation points new)
    (rest : Forks mid after later continuation laterPoints laterNew) :
    Forks before after (branches ++ later) continuation (points ++ laterPoints)
      (new ++ laterNew) := by
  constructor
  · rw [rest.drafts, first.drafts, List.append_assoc]
  · exact first.ids_append rest
  · exact Nat.le_trans first.grows rest.grows
  · exact first.range_append rest
  · exact List.forall_mem_append.mpr ⟨first.valid, rest.valid⟩
  · intro draft member edge edgeMem
    rcases List.mem_append.mp member with early | late
    · rcases first.targets draft early edge edgeMem with ⟨other, otherMem, target⟩ | onward
      · exact Or.inl ⟨other, List.mem_append_left _ otherMem, target⟩
      · exact Or.inr onward
    · rcases rest.targets draft late edge edgeMem with ⟨other, otherMem, target⟩ | onward
      · exact Or.inl ⟨other, List.mem_append_right _ otherMem, target⟩
      · exact Or.inr onward
  · intro branch member
    rcases List.mem_append.mp member with early | late
    · rcases first.starts branch early with ⟨draft, draftMem, same⟩ | onward
      · exact Or.inl ⟨draft, List.mem_append_left _ draftMem, same⟩
      · exact Or.inr onward
    · rcases rest.starts branch late with ⟨draft, draftMem, same⟩ | onward
      · exact Or.inl ⟨draft, List.mem_append_right _ draftMem, same⟩
      · exact Or.inr onward
  · rw [List.flatMap_append]
    exact first.points.append rest.points
  · intro edge exit included
    rw [includes_append] at included
    exact List.forall_mem_append.mpr
      ⟨first.meaning edge exit included.1, rest.meaning edge exit included.2⟩
  · intro edge exit included
    rw [includes_append] at included
    exact List.forall_mem_append.mpr
      ⟨first.onwards edge exit included.1, rest.onwards edge exit included.2⟩
  · intro edge exit included draft member
    rw [includes_append] at included
    rcases List.mem_append.mp member with early | late
    · rcases first.reached edge exit included.1 draft early with ⟨branch, branchMem, reaches⟩
      exact ⟨branch, List.mem_append_left _ branchMem, reaches⟩
    · rcases rest.reached edge exit included.2 draft late with ⟨branch, branchMem, reaches⟩
      exact ⟨branch, List.mem_append_right _ branchMem, reaches⟩

/-- A fragment whose continuation was made before it. -/
theorem Forks.precede {entry next : BlockId} {paths laterPaths : Language FlowStep}
    (rest : Forks before mid [(next, laterPaths)] continuation laterPoints laterNew)
    (first : Forks mid after [(entry, paths)] (some next) points new) :
    Forks before after [(entry, paths * laterPaths)] continuation (points ++ laterPoints)
      (laterNew ++ new) := by
  have nextStarts := rest.starts _ List.mem_cons_self
  constructor
  · rw [first.drafts, rest.drafts, List.append_assoc]
  · exact rest.ids_append first
  · exact Nat.le_trans rest.grows first.grows
  · exact rest.range_append first
  · exact List.forall_mem_append.mpr ⟨rest.valid, first.valid⟩
  · intro draft member edge edgeMem
    rcases List.mem_append.mp member with late | early
    · rcases rest.targets draft late edge edgeMem with ⟨other, otherMem, target⟩ | onward
      · exact Or.inl ⟨other, List.mem_append_left _ otherMem, target⟩
      · exact Or.inr onward
    · rcases first.targets draft early edge edgeMem with ⟨other, otherMem, target⟩ | ⟨target, _⟩
      · exact Or.inl ⟨other, List.mem_append_right _ otherMem, target⟩
      · rcases nextStarts with ⟨other, otherMem, same⟩ | same
        · exact Or.inl ⟨other, List.mem_append_left _ otherMem, by rw [target, same]⟩
        · refine Or.inr ⟨by rw [target, same], ?_⟩
          intro none
          rw [none] at same
          cases same
  · intro branch member
    rw [List.mem_singleton.mp member]
    rcases first.starts _ List.mem_cons_self with ⟨draft, draftMem, same⟩ | same
    · exact Or.inl ⟨draft, List.mem_append_right _ draftMem, same⟩
    · cases same
      rcases nextStarts with ⟨draft, draftMem, same⟩ | same
      · exact Or.inl ⟨draft, List.mem_append_left _ draftMem, same⟩
      · exact Or.inr same
  · rw [List.flatMap_append]
    exact (rest.points.append first.points).trans List.perm_append_comm
  · intro edge exit included branch member
    rw [includes_append] at included
    rw [List.mem_singleton.mp member]
    dsimp only
    rw [first.meaning edge exit included.2 _ List.mem_cons_self, mul_assoc]
    apply congrArg
    exact rest.meaning edge exit included.1 _ List.mem_cons_self
  · intro edge exit included branch member
    rw [includes_append] at included
    rw [List.mem_singleton.mp member]
    exact (first.onwards edge exit included.2 _ List.mem_cons_self).trans
      (rest.onwards edge exit included.1 _ List.mem_cons_self)
  · intro edge exit included draft member
    rw [includes_append] at included
    refine ⟨_, List.mem_cons_self, ?_⟩
    rcases List.mem_append.mp member with late | early
    · rcases rest.reached edge exit included.1 draft late with ⟨branch, branchMem, reaches⟩
      rw [List.mem_singleton.mp branchMem] at reaches
      exact (first.onwards edge exit included.2 _ List.mem_cons_self).trans reaches
    · rcases first.reached edge exit included.2 draft early with ⟨branch, branchMem, reaches⟩
      rw [List.mem_singleton.mp branchMem] at reaches
      exact reaches

/-- The edges of a draft lead to the branches, in order. -/
def LeadsTo (edges : List CFGEdge) (branches : List (BlockId × Language FlowStep)) : Prop :=
  edges.map CFGEdge.target = branches.map fun branch => some branch.1

theorem LeadsTo.target {edges : List CFGEdge} (leads : LeadsTo edges branches) {edge : CFGEdge}
    (member : edge ∈ edges) : ∃ branch ∈ branches, edge.target = some branch.1 := by
  have inTargets : edge.target ∈ edges.map CFGEdge.target := List.mem_map_of_mem member
  rw [leads] at inTargets
  rcases List.mem_map.mp inTargets with ⟨branch, branchMem, same⟩
  exact ⟨branch, branchMem, same.symm⟩

theorem LeadsTo.edge {edges : List CFGEdge} (leads : LeadsTo edges branches)
    {branch : BlockId × Language FlowStep} (member : branch ∈ branches) :
    ∃ edge ∈ edges, edge.target = some branch.1 := by
  have inTargets : some branch.1 ∈ branches.map fun branch => some branch.1 :=
    List.mem_map_of_mem member
  rw [← leads] at inTargets
  exact List.mem_map.mp inTargets

/-- The choice between the edges is the choice between the branches. -/
theorem LeadsTo.sum {edges : List CFGEdge} {branches : List (BlockId × Language FlowStep)}
    (leads : LeadsTo edges branches) {from' : BlockId → Language FlowStep}
    {goOn : Language FlowStep} (meaning : ∀ branch ∈ branches, from' branch.1 = branch.2 * goOn)
    (steps : CFGEdge → List FlowStep) (exit : BlockId) :
    (edges.map fun edge => ({steps edge} : Language FlowStep) *
        from' (edge.target.getD exit)).sum =
      (List.zipWith (fun edge branch => ({steps edge} : Language FlowStep) * branch.2)
        edges branches).sum * goOn := by
  induction edges generalizing branches with
  | nil => simp
  | cons edge edges induction =>
      cases branches with
      | nil => cases leads
      | cons branch branches =>
          rw [LeadsTo, List.map_cons, List.map_cons, List.cons.injEq] at leads
          rcases leads with ⟨target, leads⟩
          rw [List.map_cons, List.sum_cons, List.zipWith_cons_cons, List.sum_cons, add_mul,
            induction leads fun other member => meaning other (List.mem_cons_of_mem _ member),
            target, Option.getD_some, meaning branch List.mem_cons_self, mul_assoc]

/-- The block that makes the choice between the branches. -/
theorem Forks.block (made : Forks before mid branches continuation points new)
    {draft : BlockDraft} (id : draft.id = mid.nextId) (valid : draft.Valid)
    (leads : LeadsTo draft.successors branches) (nonempty : branches ≠ []) :
    Forks before (addDraft (allocateId mid).1 draft)
      [(mid.nextId, (List.zipWith (fun edge branch =>
        ({draft.steps edge} : Language FlowStep) * branch.2) draft.successors branches).sum)]
      continuation (draft.points ++ points) (new ++ [draft]) := by
  have included : ∀ {edge : BlockId → List FlowStep → BlockId → Prop} {exit : BlockId},
      Includes edge exit (new ++ [draft]) → Includes edge exit new ∧ mid.nextId ≠ exit ∧
        ∀ word next, edge mid.nextId word next ↔
          ∃ out ∈ draft.successors, out.target.getD exit = next ∧ word = draft.steps out := by
    intro edge exit included
    rw [includes_append] at included
    rw [← id]
    exact ⟨included.1, included.2 draft List.mem_cons_self⟩
  have toBranch : ∀ {edge : BlockId → List FlowStep → BlockId → Prop} {exit : BlockId},
      Includes edge exit (new ++ [draft]) → ∀ branch ∈ branches,
        Reaches edge mid.nextId branch.1 := by
    intro edge exit inside branch branchMem
    rcases leads.edge branchMem with ⟨out, outMem, target⟩
    have step := ((included inside).2.2 (draft.steps out) branch.1).mpr
      ⟨out, outMem, by rw [target]; rfl, rfl⟩
    exact GraphPaths.Reaches.step step
  constructor
  · rw [addDraft, allocateId, made.drafts, List.append_assoc]
  · rw [List.map_append, List.map_singleton, id]
    apply made.ids.append (List.nodup_singleton _)
    intro other early late
    rw [List.mem_singleton.mp late] at early
    rcases List.mem_map.mp early with ⟨older, olderMem, same⟩
    exact Nat.lt_irrefl _ (same ▸ (made.range older olderMem).2)
  · exact Nat.le_succ_of_le made.grows
  · intro other member
    rcases List.mem_append.mp member with early | late
    · rcases made.range other early with ⟨lower, upper⟩
      exact ⟨lower, Nat.lt_succ_of_lt upper⟩
    · rw [List.mem_singleton.mp late, id]
      exact ⟨made.grows, Nat.lt_succ_self _⟩
  · intro other member
    rcases List.mem_append.mp member with early | late
    · exact made.valid other early
    · rw [List.mem_singleton.mp late]
      exact valid
  · intro other member edge edgeMem
    rcases List.mem_append.mp member with early | late
    · rcases made.targets other early edge edgeMem with ⟨next, nextMem, target⟩ | onward
      · exact Or.inl ⟨next, List.mem_append_left _ nextMem, target⟩
      · exact Or.inr onward
    · rw [List.mem_singleton.mp late] at edgeMem
      rcases leads.target edgeMem with ⟨branch, branchMem, target⟩
      rcases made.starts branch branchMem with ⟨next, nextMem, same⟩ | same
      · exact Or.inl ⟨next, List.mem_append_left _ nextMem, by rw [target, same]⟩
      · refine Or.inr ⟨by rw [target, same], ?_⟩
        intro none
        rw [none] at same
        cases same
  · intro branch member
    rw [List.mem_singleton.mp member]
    exact Or.inl ⟨draft, List.mem_append_right _ List.mem_cons_self, id⟩
  · rw [List.flatMap_append, List.flatMap_singleton]
    exact (made.points.append_right _).trans List.perm_append_comm
  · intro edge exit inside branch member
    rw [List.mem_singleton.mp member]
    rcases included inside with ⟨older, notExit, exact⟩
    rw [GraphPaths.pathsFrom_of_edges notExit exact]
    exact leads.sum (made.meaning edge exit older) draft.steps exit
  · intro edge exit inside branch member
    rw [List.mem_singleton.mp member]
    rcases List.exists_mem_of_ne_nil _ nonempty with ⟨first, firstMem⟩
    exact (toBranch inside first firstMem).trans
      (made.onwards edge exit (included inside).1 first firstMem)
  · intro edge exit inside other member
    refine ⟨_, List.mem_cons_self, ?_⟩
    rcases List.mem_append.mp member with early | late
    · rcases made.reached edge exit (included inside).1 other early with
        ⟨branch, branchMem, reaches⟩
      exact (toBranch inside branch branchMem).trans reaches
    · rw [List.mem_singleton.mp late, id]
      exact Relation.ReflTransGen.refl

/-- A loop: its block is the continuation of its body. -/
theorem Forks.loop {bodyEntry next : BlockId} {body : Language FlowStep}
    (made : Forks (allocateId before).1 mid [(bodyEntry, body)] (some before.nextId) points new)
    {draft : BlockDraft} (id : draft.id = before.nextId) (valid : draft.Valid)
    {enter leave : CFGEdge} (successors : draft.successors = [enter, leave])
    (enters : enter.target = some bodyEntry) (leaves : leave.target = some next)
    {entering leaving : FlowStep} (enterSteps : draft.steps enter = [entering])
    (leaveSteps : draft.steps leave = [leaving]) :
    Forks before (addDraft mid draft)
      [(before.nextId, (({[entering]} : Language FlowStep) * body)∗ * {[leaving]})]
      (some next) (draft.points ++ points) (new ++ [draft]) := by
  have bodyStarts := made.starts _ List.mem_cons_self
  have included : ∀ {edge : BlockId → List FlowStep → BlockId → Prop} {exit : BlockId},
      Includes edge exit (new ++ [draft]) → Includes edge exit new ∧ before.nextId ≠ exit ∧
        ∀ word next, edge before.nextId word next ↔
          ∃ out ∈ draft.successors, out.target.getD exit = next ∧ word = draft.steps out := by
    intro edge exit included
    rw [includes_append] at included
    rw [← id]
    exact ⟨included.1, included.2 draft List.mem_cons_self⟩
  have toBody : ∀ {edge : BlockId → List FlowStep → BlockId → Prop} {exit : BlockId},
      Includes edge exit (new ++ [draft]) → Reaches edge before.nextId bodyEntry := by
    intro edge exit inside
    have step := ((included inside).2.2 (draft.steps enter) bodyEntry).mpr
      ⟨enter, by simp [successors], by rw [enters]; rfl, rfl⟩
    exact GraphPaths.Reaches.step step
  constructor
  · rw [addDraft, made.drafts, List.append_assoc]
    rfl
  · rw [List.map_append, List.map_singleton, id]
    apply made.ids.append (List.nodup_singleton _)
    intro other early late
    rw [List.mem_singleton.mp late] at early
    rcases List.mem_map.mp early with ⟨older, olderMem, same⟩
    have lower : before.nextId + 1 ≤ older.id := (made.range older olderMem).1
    rw [same] at lower
    exact Nat.lt_irrefl _ lower
  · exact Nat.le_of_succ_le made.grows
  · intro other member
    rcases List.mem_append.mp member with early | late
    · rcases made.range other early with ⟨lower, upper⟩
      exact ⟨Nat.le_of_succ_le lower, upper⟩
    · rw [List.mem_singleton.mp late, id]
      exact ⟨Nat.le_refl _, made.grows⟩
  · intro other member
    rcases List.mem_append.mp member with early | late
    · exact made.valid other early
    · rw [List.mem_singleton.mp late]
      exact valid
  · intro other member edge edgeMem
    rcases List.mem_append.mp member with early | late
    · rcases made.targets other early edge edgeMem with ⟨target, targetMem, same⟩ | ⟨same, _⟩
      · exact Or.inl ⟨target, List.mem_append_left _ targetMem, same⟩
      · exact Or.inl ⟨draft, List.mem_append_right _ List.mem_cons_self, by rw [same, id]⟩
    · rw [List.mem_singleton.mp late, successors] at edgeMem
      rcases List.mem_cons.mp edgeMem with rfl | edgeMem
      · rcases bodyStarts with ⟨target, targetMem, same⟩ | same
        · exact Or.inl ⟨target, List.mem_append_left _ targetMem, by rw [enters, same]⟩
        · refine Or.inl ⟨draft, List.mem_append_right _ List.mem_cons_self, ?_⟩
          rw [enters, id, same]
      · rw [List.mem_singleton.mp edgeMem]
        exact Or.inr ⟨leaves, nofun⟩
  · intro branch member
    rw [List.mem_singleton.mp member]
    exact Or.inl ⟨draft, List.mem_append_right _ List.mem_cons_self, id⟩
  · rw [List.flatMap_append, List.flatMap_singleton]
    exact (made.points.append_right _).trans List.perm_append_comm
  · intro edge exit inside branch member
    rw [List.mem_singleton.mp member]
    rcases included inside with ⟨older, notExit, exact⟩
    apply GraphPaths.pathsFrom_of_cycle
    have bodyMeaning := made.meaning edge exit older _ List.mem_cons_self
    rw [Option.getD_some] at bodyMeaning
    rw [← bodyMeaning, GraphPaths.pathsFrom_of_edges notExit exact, successors]
    simp only [List.map_cons, List.map_nil, List.sum_cons, List.sum_nil, add_zero, enters, leaves,
      enterSteps, leaveSteps, Option.getD_some]
  · intro edge exit inside branch member
    rw [List.mem_singleton.mp member]
    have step := ((included inside).2.2 (draft.steps leave) next).mpr
      ⟨leave, by simp [successors], by rw [leaves]; rfl, rfl⟩
    exact GraphPaths.Reaches.step step
  · intro edge exit inside other member
    refine ⟨_, List.mem_cons_self, ?_⟩
    rcases List.mem_append.mp member with early | late
    · rcases made.reached edge exit (included inside).1 other early with
        ⟨branch, branchMem, reaches⟩
      rw [List.mem_singleton.mp branchMem] at reaches
      exact (toBody inside).trans reaches
    · rw [List.mem_singleton.mp late, id]
      exact Relation.ReflTransGen.refl

/-- A block of its own that goes on at the exit. -/
theorem Forks.ending (state : State) {draft : BlockDraft} (id : draft.id = state.nextId)
    (valid : draft.Valid) {out : CFGEdge} (successors : draft.successors = [out])
    (kind : out.kind = .returnToExit) (target : out.target = none) :
    Forks state (addDraft (allocateId state).1 draft) [(state.nextId, {draft.steps out})] none
      draft.points [draft] := by
  have step : ∀ {edge : BlockId → List FlowStep → BlockId → Prop} {exit : BlockId},
      Includes edge exit [draft] → state.nextId ≠ exit ∧
        ∀ word next, edge state.nextId word next ↔
          ∃ edge ∈ draft.successors, edge.target.getD exit = next ∧ word = draft.steps edge := by
    intro edge exit inside
    rw [← id]
    exact inside draft List.mem_cons_self
  constructor
  · rfl
  · exact List.nodup_singleton _
  · exact Nat.le_succ _
  · intro other member
    rw [List.mem_singleton.mp member, id]
    exact ⟨Nat.le_refl _, Nat.lt_succ_self _⟩
  · intro other member
    rw [List.mem_singleton.mp member]
    exact valid
  · intro other member edge edgeMem
    rw [List.mem_singleton.mp member, successors] at edgeMem
    rw [List.mem_singleton.mp edgeMem]
    exact Or.inr ⟨target, fun _ => kind⟩
  · intro branch member
    rw [List.mem_singleton.mp member]
    exact Or.inl ⟨draft, List.mem_cons_self, id⟩
  · rw [List.flatMap_singleton]
  · intro edge exit inside branch member
    rw [List.mem_singleton.mp member]
    rw [GraphPaths.pathsFrom_of_edges (step inside).1 (step inside).2, successors]
    simp only [List.map_cons, List.map_nil, List.sum_cons, List.sum_nil, add_zero, target,
      Option.getD_none]
  · intro edge exit inside branch member
    rw [List.mem_singleton.mp member]
    have toExit := ((step inside).2 (draft.steps out) exit).mpr
      ⟨out, by simp [successors], by rw [target]; rfl, rfl⟩
    exact GraphPaths.Reaches.step toExit
  · intro edge exit inside other member
    rw [List.mem_singleton.mp member, id]
    exact ⟨_, List.mem_cons_self, Relation.ReflTransGen.refl⟩

end

end CFGBuilder

end Topc
