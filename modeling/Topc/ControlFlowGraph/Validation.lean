import Topc.ControlFlowGraph.Builder

/-! # Completed graphs validate

What the drafts of a graph have to satisfy for its checks to pass. -/

namespace Topc.CFGBuilder

open ControlFlowGraph (require)

/-- The edges a terminator of its kind has once the exit is known. -/
def BlockDraft.TerminatorComplete (exitId : BlockId) (draft : BlockDraft) : Prop :=
  match draft.terminatorKind with
  | .ifTerminator | .whileTerminator =>
      (draft.successors.countP fun edge => edge.kind == .trueBranch) = 1 ∧
        (draft.successors.countP fun edge => edge.kind == .falseBranch) = 1
  | .returnTerminator =>
      draft.successors.map (fun edge => (edge.kind, edge.target)) =
        [(.returnToExit, some exitId)]
  | .caseTerminator => draft.successors ≠ [] ∧ ∀ edge ∈ draft.successors, edge.kind = .caseArm
  | .fallthrough => True

/-- Drafts that make a graph without defects. -/
structure Complete (drafts : List BlockDraft) (exitId : BlockId) : Prop where
  ids : (drafts.map BlockDraft.id).Nodup
  names : (drafts.map BlockDraft.name).Nodup
  entry : ∃ draft ∈ drafts, draft.id = 0
  exit : ∃ draft ∈ drafts, draft.id = exitId
  exitLeaf : ∀ draft ∈ drafts, draft.id = exitId → draft.successors = []
  entryRoot : ∀ draft ∈ drafts, ∀ edge ∈ draft.successors, edge.target ≠ some 0
  targets : ∀ draft ∈ drafts, ∀ edge ∈ draft.successors,
    ∃ other ∈ drafts, edge.target = some other.id
  distinctEdges : ∀ draft ∈ drafts, draft.successors.Nodup
  terminators : ∀ draft ∈ drafts, draft.TerminatorComplete exitId
  reached : ∀ draft ∈ drafts, Relation.ReflTransGen
    (fun id next => ∃ draft ∈ drafts, draft.id = id ∧
      ∃ edge ∈ draft.successors, edge.target = some next) 0 draft.id

theorem require_ok {holds : Bool} (passes : holds = true) (message : String) :
    require holds message = .ok () := by
  rw [require, if_pos passes]

theorem mem_predecessorsOf {drafts : List BlockDraft} {id pred : BlockId} :
    pred ∈ predecessorsOf drafts id ↔ ∃ draft ∈ drafts, draft.id = pred ∧
      ∃ edge ∈ draft.successors, edge.target = some id := by
  simp only [predecessorsOf, List.mem_flatMap, List.mem_map, List.mem_filter, beq_iff_eq]
  constructor
  · rintro ⟨draft, member, edge, ⟨edgeMem, target⟩, rfl⟩
    exact ⟨draft, member, rfl, edge, edgeMem, target⟩
  · rintro ⟨draft, member, rfl, edge, edgeMem, target⟩
    exact ⟨draft, member, edge, ⟨edgeMem, target⟩, rfl⟩

section

variable {drafts : List BlockDraft} {exitId : BlockId}

theorem draft_eq (distinct : (drafts.map BlockDraft.id).Nodup) {draft other : BlockDraft}
    (member : draft ∈ drafts) (otherMem : other ∈ drafts) (same : draft.id = other.id) :
    draft = other :=
  List.inj_on_of_nodup_map distinct member otherMem same

/-- The graph completed from the drafts. -/
def graphOf (function : Function) (drafts : List BlockDraft) (exitId : BlockId) :
    ControlFlowGraph where
  function
  blocks := drafts.map (completeBlock drafts)
  entryId := 0
  exitId

variable (function : Function)

theorem findBlock_graphOf (complete : Complete drafts exitId) {draft : BlockDraft}
    (member : draft ∈ drafts) :
    (graphOf function drafts exitId).findBlock draft.id = some (completeBlock drafts draft) := by
  rw [ControlFlowGraph.findBlock, graphOf, List.find?_map, Option.map_eq_some_iff]
  refine ⟨draft, ?_, rfl⟩
  cases found : drafts.find? ((fun block => block.id == draft.id) ∘ completeBlock drafts) with
  | none =>
      have passed := List.find?_eq_none.mp found draft member
      simp [completeBlock] at passed
  | some other =>
      have same : other.id = draft.id := by simpa [completeBlock] using List.find?_some found
      rw [draft_eq complete.ids (List.mem_of_find?_eq_some found) member same]

theorem checkIdentities_ok {blocks : List BasicBlock} :
    ∀ {ids : List BlockId} {names : List String}, (blocks.map BasicBlock.id).Nodup →
      (blocks.map BasicBlock.name).Nodup → (∀ block ∈ blocks, block.id ∉ ids) →
      (∀ block ∈ blocks, block.name ∉ names) →
        ControlFlowGraph.checkIdentities ids names blocks = .ok () := by
  induction blocks with
  | nil => exact fun _ _ _ _ => rfl
  | cons block blocks induction =>
      intro ids names distinctIds distinctNames freshIds freshNames
      rw [List.map_cons, List.nodup_cons] at distinctIds distinctNames
      rw [ControlFlowGraph.checkIdentities,
        require_ok (decide_eq_true (freshIds block List.mem_cons_self)),
        require_ok (decide_eq_true (freshNames block List.mem_cons_self))]
      apply induction distinctIds.2 distinctNames.2
      · intro other member
        rw [List.mem_cons, not_or]
        constructor
        · intro same
          exact distinctIds.1 (same ▸ List.mem_map_of_mem member)
        · exact freshIds other (List.mem_cons_of_mem _ member)
      · intro other member
        rw [List.mem_cons, not_or]
        constructor
        · intro same
          exact distinctNames.1 (same ▸ List.mem_map_of_mem member)
        · exact freshNames other (List.mem_cons_of_mem _ member)

theorem checkEdges_ok {graph : ControlFlowGraph} {block : BasicBlock} {edges : List CFGEdge} :
    ∀ {uniqueEdges : List CFGEdge}, edges.Nodup → (∀ edge ∈ edges, edge ∉ uniqueEdges) →
      (∀ edge ∈ edges, ∃ target, edge.target.bind graph.findBlock = some target ∧
        block.id ∈ target.predecessors) →
      graph.checkEdges block uniqueEdges edges = .ok () := by
  induction edges with
  | nil => exact fun _ _ _ => rfl
  | cons edge edges induction =>
      intro uniqueEdges distinct fresh known
      rw [List.nodup_cons] at distinct
      rcases known edge List.mem_cons_self with ⟨target, found, reverse⟩
      rw [ControlFlowGraph.checkEdges, found]
      dsimp only
      rw [require_ok (decide_eq_true (fresh edge List.mem_cons_self)),
        require_ok (decide_eq_true reverse)]
      apply induction distinct.2
      · intro other member
        rw [List.mem_cons, not_or]
        constructor
        · rintro rfl
          exact distinct.1 member
        · exact fresh other (List.mem_cons_of_mem _ member)
      · exact fun other member => known other (List.mem_cons_of_mem _ member)

theorem checkTerminator_ok {draft : BlockDraft}
    (complete : draft.TerminatorComplete exitId) :
    (graphOf function drafts exitId).checkTerminator (completeBlock drafts draft) = .ok () := by
  unfold BlockDraft.TerminatorComplete at complete
  unfold ControlFlowGraph.checkTerminator
  have kind : (completeBlock drafts draft).terminatorKind = draft.terminatorKind := rfl
  have successors : (completeBlock drafts draft).successors = draft.successors := rfl
  rw [kind, successors]
  cases same : draft.terminatorKind with
  | fallthrough => rfl
  | ifTerminator =>
      simp only [same] at complete
      exact require_ok (by simp [complete.1, complete.2]) _
  | whileTerminator =>
      simp only [same] at complete
      exact require_ok (by simp [complete.1, complete.2]) _
  | caseTerminator =>
      simp only [same] at complete
      dsimp only
      rw [require_ok (by simpa using complete.1)]
      exact require_ok (by simpa using complete.2) _
  | returnTerminator =>
      simp only [same] at complete
      exact require_ok (beq_iff_eq.mpr complete) _

theorem checkBlock_ok (complete : Complete drafts exitId) {draft : BlockDraft}
    (member : draft ∈ drafts) :
    (graphOf function drafts exitId).checkBlock (completeBlock drafts draft) = .ok () := by
  have edges : (graphOf function drafts exitId).checkEdges (completeBlock drafts draft) []
      draft.successors = .ok () := by
    apply checkEdges_ok (complete.distinctEdges draft member) (by simp)
    intro edge edgeMem
    rcases complete.targets draft member edge edgeMem with ⟨other, otherMem, target⟩
    refine ⟨completeBlock drafts other, ?_, ?_⟩
    · rw [target]
      exact findBlock_graphOf function complete otherMem
    · exact mem_predecessorsOf.mpr ⟨draft, member, rfl, edge, edgeMem, target⟩
  have predecessors : (predecessorsOf drafts draft.id).forM
      ((graphOf function drafts exitId).checkPredecessor (completeBlock drafts draft)) =
        .ok () := by
    rw [forM_eq_ok]
    intro pred predMem
    rcases mem_predecessorsOf.mp predMem with ⟨other, otherMem, rfl, edge, edgeMem, target⟩
    rw [ControlFlowGraph.checkPredecessor, findBlock_graphOf function complete otherMem]
    apply require_ok
    exact List.any_eq_true.mpr ⟨edge, edgeMem, by simp [target, completeBlock]⟩
  unfold ControlFlowGraph.checkBlock
  have successorsEq : (completeBlock drafts draft).successors = draft.successors := rfl
  have predecessorsEq : (completeBlock drafts draft).predecessors =
      predecessorsOf drafts draft.id := rfl
  rw [successorsEq, predecessorsEq, edges, predecessors]
  exact checkTerminator_ok function (complete.terminators draft member)

theorem mem_successorIds (complete : Complete drafts exitId) {draft : BlockDraft}
    (member : draft ∈ drafts) {next : BlockId} :
    next ∈ (graphOf function drafts exitId).successorIds draft.id ↔
      ∃ edge ∈ draft.successors, edge.target = some next := by
  rw [ControlFlowGraph.successorIds, findBlock_graphOf function complete member]
  exact List.mem_filterMap

/-- The search of a complete graph meets every block. -/
theorem search_graphOf (complete : Complete drafts exitId) :
    ∃ visited, BreadthFirst.search (graphOf function drafts exitId).successorIds drafts.length
      ⟨[0], [0]⟩ = some visited ∧ visited.length = drafts.length := by
  have inside : ∀ id ∈ drafts.map BlockDraft.id,
      ∀ next ∈ (graphOf function drafts exitId).successorIds id,
        next ∈ drafts.map BlockDraft.id := by
    intro id idMem next nextMem
    rcases List.mem_map.mp idMem with ⟨draft, member, rfl⟩
    rcases (mem_successorIds function complete member).mp nextMem with ⟨edge, edgeMem, target⟩
    rcases complete.targets draft member edge edgeMem with ⟨other, otherMem, same⟩
    rw [target] at same
    cases same
    exact List.mem_map_of_mem otherMem
  have startMem : 0 ∈ drafts.map BlockDraft.id := by
    rcases complete.entry with ⟨draft, member, same⟩
    exact same ▸ List.mem_map_of_mem member
  have reached : ∀ id ∈ drafts.map BlockDraft.id, Relation.ReflTransGen
      (fun id next => next ∈ (graphOf function drafts exitId).successorIds id) 0 id := by
    intro id idMem
    rcases List.mem_map.mp idMem with ⟨draft, member, rfl⟩
    refine Relation.ReflTransGen.mono ?_ _ _ (complete.reached draft member)
    rintro source next ⟨other, otherMem, rfl, edge, edgeMem, target⟩
    exact (mem_successorIds function complete otherMem).mpr ⟨edge, edgeMem, target⟩
  have counted := BreadthFirst.search_length inside complete.ids startMem reached
  rw [List.length_map] at counted
  exact counted

/-- A graph from complete drafts passes its checks. -/
theorem validate_graphOf (complete : Complete drafts exitId) :
    (graphOf function drafts exitId).validate = .ok () := by
  rcases complete.entry with ⟨entryDraft, entryMem, entryId⟩
  rcases complete.exit with ⟨exitDraft, exitMem, exitSame⟩
  have foundEntry := findBlock_graphOf function complete entryMem
  have foundExit := findBlock_graphOf function complete exitMem
  rw [entryId] at foundEntry
  rw [exitSame] at foundExit
  have blocks : (graphOf function drafts exitId).blocks = drafts.map (completeBlock drafts) := rfl
  have nonempty : (!(graphOf function drafts exitId).blocks.isEmpty) = true := by
    rw [blocks]
    cases drafts with
    | nil => cases entryMem
    | cons draft drafts => rfl
  have identities : ControlFlowGraph.checkIdentities [] []
      (graphOf function drafts exitId).blocks = .ok () := by
    apply checkIdentities_ok
    · rw [blocks, List.map_map]
      exact complete.ids
    · rw [blocks, List.map_map]
      exact complete.names
    · simp
    · simp
  have rootEmpty : (completeBlock drafts entryDraft).predecessors.isEmpty = true := by
    rw [List.isEmpty_iff, List.eq_nil_iff_forall_not_mem]
    intro pred predMem
    rcases mem_predecessorsOf.mp predMem with ⟨other, otherMem, _, edge, edgeMem, target⟩
    rw [entryId] at target
    exact complete.entryRoot other otherMem edge edgeMem target
  have leafEmpty : (completeBlock drafts exitDraft).successors.isEmpty = true := by
    rw [List.isEmpty_iff]
    exact complete.exitLeaf exitDraft exitMem exitSame
  have checked : (graphOf function drafts exitId).blocks.forM
      (graphOf function drafts exitId).checkBlock = .ok () := by
    rw [forM_eq_ok, blocks]
    intro block blockMem
    rcases List.mem_map.mp blockMem with ⟨draft, member, rfl⟩
    exact checkBlock_ok function complete member
  rcases search_graphOf function complete with ⟨visited, searched, counted⟩
  have length : (graphOf function drafts exitId).blocks.length = drafts.length := by
    rw [blocks, List.length_map]
  have entryIs : (graphOf function drafts exitId).entryId = 0 := rfl
  have exitIs : (graphOf function drafts exitId).exitId = exitId := rfl
  unfold ControlFlowGraph.validate
  rw [require_ok nonempty, identities, entryIs, exitIs, foundEntry, foundExit]
  dsimp only [bind, Except.bind]
  rw [require_ok rootEmpty, require_ok leafEmpty, checked, length, searched]
  exact require_ok (by simp [counted]) _

end

end Topc.CFGBuilder
