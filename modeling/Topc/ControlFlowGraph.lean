import Topc.Errors
import Topc.Foundation.BreadthFirst
import Topc.Foundation.GraphPaths

/-! # Control-flow graphs

Basic blocks with labelled edges, and the checks a completed graph has to pass. -/

namespace Topc

abbrev BlockId := Nat

inductive CFGEdgeKind
  | fallthrough | trueBranch | falseBranch | caseArm | returnToExit
deriving DecidableEq, Repr

/-- An edge. Until the exit block has its id, the edge of a `return` has no
target. -/
structure CFGEdge where
  target : Option BlockId
  kind : CFGEdgeKind
  label : String
deriving DecidableEq, Repr

inductive CFGTerminatorKind
  | fallthrough | ifTerminator | whileTerminator | caseTerminator | returnTerminator
deriving DecidableEq, Repr

/-- A statement of a function, its final `return` included. -/
inductive BodyStmt where
  | stmt (stmt : Stmt)
  | returnStmt (info : NodeInfo) (arg : Expr)

/-- What happens on a path: a simple statement, the `return`, or a branch with
the condition it tests and the edge it takes. -/
inductive FlowStep where
  | simple (stmt : Stmt)
  | returned (info : NodeInfo) (arg : Expr)
  | branch (terminator : Stmt) (condition : Expr) (kind : CFGEdgeKind) (label : String)

/-- A place in the source: a simple statement, the `return`, or the condition of
a branching statement. -/
inductive FlowPoint where
  | simple (stmt : Stmt)
  | returned (info : NodeInfo) (arg : Expr)
  | condition (terminator : Stmt) (condition : Expr)

structure BasicBlock where
  id : BlockId
  name : String
  statements : List Stmt
  terminatorKind : CFGTerminatorKind
  terminatorStatement : Option BodyStmt
  condition : Option Expr
  successors : List CFGEdge
  predecessors : List BlockId

/-- What leaving a block by an edge reads after its statements. -/
def terminatorSteps (terminatorStatement : Option BodyStmt) (condition : Option Expr)
    (edge : CFGEdge) : List FlowStep :=
  match terminatorStatement, condition with
  | some (.stmt terminator), some condition =>
      [.branch terminator condition edge.kind edge.label]
  | some (.returnStmt info arg), _ => [.returned info arg]
  | _, _ => []

def terminatorPoints (terminatorStatement : Option BodyStmt) (condition : Option Expr) :
    List FlowPoint :=
  match terminatorStatement, condition with
  | some (.stmt terminator), some condition => [.condition terminator condition]
  | some (.returnStmt info arg), _ => [.returned info arg]
  | _, _ => []

namespace BasicBlock

/-- The steps of a block that is left by an edge. -/
def steps (block : BasicBlock) (edge : CFGEdge) : List FlowStep :=
  block.statements.map .simple ++ terminatorSteps block.terminatorStatement block.condition edge

/-- The places of the source a block holds. -/
def points (block : BasicBlock) : List FlowPoint :=
  block.statements.map .simple ++ terminatorPoints block.terminatorStatement block.condition

end BasicBlock

structure ControlFlowGraph where
  function : Function
  blocks : List BasicBlock
  entryId : BlockId
  exitId : BlockId

namespace ControlFlowGraph

def findBlock (graph : ControlFlowGraph) (id : BlockId) : Option BasicBlock :=
  graph.blocks.find? fun block => block.id == id

/-- Following an edge of a block reads the steps of the block. -/
def Edge (graph : ControlFlowGraph) (id : BlockId) (word : List FlowStep) (next : BlockId) : Prop :=
  ∃ block ∈ graph.blocks, block.id = id ∧
    ∃ edge ∈ block.successors, edge.target = some next ∧ word = block.steps edge

/-- What the paths from the entry to the exit read. -/
def paths (graph : ControlFlowGraph) : Language FlowStep :=
  GraphPaths.pathsFrom graph.Edge graph.exitId graph.entryId

/-! ## Validation -/

def require (holds : Bool) (message : String) : Except CompileError Unit :=
  if holds then .ok () else .error (.internal message)

/-- Ids and names differ from block to block. -/
def checkIdentities (ids : List BlockId) (names : List String) :
    List BasicBlock → Except CompileError Unit
  | [] => .ok ()
  | block :: blocks => do
      require (block.id ∉ ids) "CFG contains duplicate block id"
      require (block.name ∉ names) "CFG contains duplicate block name"
      checkIdentities (block.id :: ids) (block.name :: names) blocks

section

variable (graph : ControlFlowGraph)

def checkEdges (block : BasicBlock) (uniqueEdges : List CFGEdge) :
    List CFGEdge → Except CompileError Unit
  | [] => .ok ()
  | edge :: edges =>
      match edge.target.bind graph.findBlock with
      | none => .error (.internal "CFG contains edge to unknown target block")
      | some target => do
          require (edge ∉ uniqueEdges) "CFG block contains duplicate successor edge"
          require (block.id ∈ target.predecessors)
            "CFG successor/predecessor relation is inconsistent"
          checkEdges block (edge :: uniqueEdges) edges

def checkPredecessor (block : BasicBlock) (pred : BlockId) : Except CompileError Unit :=
  match graph.findBlock pred with
  | none => .error (.internal "CFG block has unknown predecessor")
  | some predBlock =>
      require (predBlock.successors.any fun edge => edge.target == some block.id)
        "CFG predecessor/successor relation is inconsistent"

def checkTerminator (block : BasicBlock) : Except CompileError Unit :=
  match block.terminatorKind with
  | .ifTerminator | .whileTerminator =>
      require ((block.successors.countP fun edge => edge.kind == .trueBranch) == 1 &&
          (block.successors.countP fun edge => edge.kind == .falseBranch) == 1)
        "CFG conditional block must have exactly one true and one false successor"
  | .returnTerminator =>
      require (block.successors.map (fun edge => (edge.kind, edge.target)) ==
          [(.returnToExit, some graph.exitId)])
        "CFG return block must have exactly one ReturnToExit edge to exit"
  | .caseTerminator => do
      require (!block.successors.isEmpty) "CFG case block must have at least one arm successor"
      require (block.successors.all fun edge => edge.kind == .caseArm)
        "CFG case block successors must be CaseArm edges"
  | .fallthrough => .ok ()

def checkBlock (block : BasicBlock) : Except CompileError Unit := do
  graph.checkEdges block [] block.successors
  block.predecessors.forM (graph.checkPredecessor block)
  graph.checkTerminator block

def successorIds (id : BlockId) : List BlockId :=
  ((graph.findBlock id).map fun block => block.successors.filterMap CFGEdge.target).getD []

def validate : Except CompileError Unit := do
  require (!graph.blocks.isEmpty) "CFG must contain at least one block"
  checkIdentities [] [] graph.blocks
  match graph.findBlock graph.entryId, graph.findBlock graph.exitId with
  | none, _ => .error (.internal "CFG entry block id is missing")
  | some _, none => .error (.internal "CFG exit block id is missing")
  | some entry, some exit => do
      require entry.predecessors.isEmpty "CFG entry block must not have predecessors"
      require exit.successors.isEmpty "CFG exit block must not have successors"
      graph.blocks.forM graph.checkBlock
      let visited := BreadthFirst.search graph.successorIds graph.blocks.length
        ⟨[graph.entryId], [graph.entryId]⟩
      require (visited.any fun visited => visited.length == graph.blocks.length)
        "CFG contains unreachable blocks"

end

end ControlFlowGraph

end Topc
