import Topc.ControlFlowGraph

/-! # Building control-flow graphs

Blocks are made from the last statement of a sequence back to the first, each
with the block that runs after it as its continuation. -/

namespace Topc

mutual
def Pattern.print : Pattern → String
  | .var _ decl => decl.name
  | .wildcard _ => "_"
  | .ctor _ tag [] => tag
  | .ctor _ tag (pattern :: patterns) =>
      tag ++ "(" ++ ", ".intercalate (pattern.print :: Pattern.printAll patterns) ++ ")"

def Pattern.printAll : List Pattern → List String
  | [] => []
  | pattern :: patterns => pattern.print :: Pattern.printAll patterns
end

namespace CFGBuilder

/-- A block before its predecessors are known. -/
structure BlockDraft where
  id : BlockId
  name : String
  statements : List Stmt
  terminatorKind : CFGTerminatorKind
  terminatorStatement : Option BodyStmt
  condition : Option Expr
  successors : List CFGEdge

structure State where
  nextId : BlockId
  drafts : List BlockDraft

def blockName (id : BlockId) : String := "b" ++ toString (id - 1)

def allocateId (state : State) : State × BlockId :=
  ({ state with nextId := state.nextId + 1 }, state.nextId)

def addDraft (state : State) (draft : BlockDraft) : State :=
  { state with drafts := state.drafts ++ [draft] }

def createBlock (state : State) (statements : List Stmt) (terminatorKind : CFGTerminatorKind)
    (terminatorStatement : Option BodyStmt) (condition : Option Expr)
    (successors : List CFGEdge) : State × Option BlockId :=
  let (state, id) := allocateId state
  (addDraft state {
    id, name := blockName id, statements, terminatorKind, terminatorStatement, condition,
    successors }, some id)

def formatCaseArmLabel (arm : CaseArm) : String :=
  match arm.getPatterns with
  | [] => arm.getTag
  | patterns => arm.getTag ++ "(" ++ ", ".intercalate (Pattern.printAll patterns) ++ ")"

/-- The statements that end a run of simple ones. -/
def isStructured : Stmt → Bool
  | .ifStmt .. | .whileStmt .. | .caseStmt .. | .blockStmt .. => true
  | .assignStmt .. | .outputStmt .. | .errorStmt .. => false

/-- Simple statements that will share a block, and the `return` if it ends them. -/
structure Run where
  statements : List Stmt
  ret : Option (NodeInfo × Expr)

/-- Make the block of a run. A run of nothing needs none. -/
def closeRun (state : State) (run : Run) (current : Option BlockId) : State × Option BlockId :=
  match run.ret, run.statements with
  | some (info, arg), statements =>
      createBlock state statements .returnTerminator (some (.returnStmt info arg)) none
        [⟨none, .returnToExit, "return"⟩]
  | none, [] => (state, current)
  | none, statements =>
      createBlock state statements .fallthrough none none [⟨current, .fallthrough, ""⟩]

mutual
def buildStmt (state : State) (continuation : Option BlockId) :
    Stmt → Except CompileError (State × Option BlockId)
  | .ifStmt info condition thenStmt none => do
      let (state, thenEntry) ← buildStmt state continuation thenStmt
      return createBlock state [] .ifTerminator
        (some (.stmt (.ifStmt info condition thenStmt none))) (some condition)
        [⟨thenEntry, .trueBranch, ""⟩, ⟨continuation, .falseBranch, ""⟩]
  | .ifStmt info condition thenStmt (some elseStmt) => do
      let (state, thenEntry) ← buildStmt state continuation thenStmt
      let (state, elseEntry) ← buildStmt state continuation elseStmt
      return createBlock state [] .ifTerminator
        (some (.stmt (.ifStmt info condition thenStmt (some elseStmt)))) (some condition)
        [⟨thenEntry, .trueBranch, ""⟩, ⟨elseEntry, .falseBranch, ""⟩]
  | .whileStmt info condition body => do
      let (state, whileId) := allocateId state
      let (state, bodyEntry) ← buildStmt state (some whileId) body
      return (addDraft state {
        id := whileId, name := blockName whileId, statements := []
        terminatorKind := .whileTerminator
        terminatorStatement := some (.stmt (.whileStmt info condition body))
        condition := some condition
        successors := [⟨bodyEntry, .trueBranch, ""⟩, ⟨continuation, .falseBranch, ""⟩] },
        some whileId)
  | .caseStmt info caseExpr arms =>
      if arms.isEmpty then
        .error (.internal "CFGBuilder encountered case statement with no arms")
      else do
        let (state, armEdges) ← buildArms state continuation arms
        return createBlock state [] .caseTerminator
          (some (.stmt (.caseStmt info caseExpr arms))) (some caseExpr) armEdges
  | .blockStmt _ stmts => do
      let (state, run, current) ← buildSequence state ⟨[], none⟩ continuation stmts
      return closeRun state run current
  | .assignStmt info lhs rhs =>
      return createBlock state [.assignStmt info lhs rhs] .fallthrough none none
        [⟨continuation, .fallthrough, ""⟩]
  | .outputStmt info arg =>
      return createBlock state [.outputStmt info arg] .fallthrough none none
        [⟨continuation, .fallthrough, ""⟩]
  | .errorStmt info arg =>
      return createBlock state [.errorStmt info arg] .fallthrough none none
        [⟨continuation, .fallthrough, ""⟩]

def buildArms (state : State) (continuation : Option BlockId) :
    List CaseArm → Except CompileError (State × List CFGEdge)
  | [] => .ok (state, [])
  | .mk info tag patterns body :: arms => do
      let (state, armEntry) ← buildStmt state continuation body
      let (state, armEdges) ← buildArms state continuation arms
      return (state,
        ⟨armEntry, .caseArm, formatCaseArmLabel (.mk info tag patterns body)⟩ :: armEdges)

/-- Statements are taken from the last one back. What comes after them is a run
still open and the block that follows it; a structured statement closes the run. -/
def buildSequence (state : State) (run : Run) (current : Option BlockId) :
    List Stmt → Except CompileError (State × Run × Option BlockId)
  | [] => .ok (state, run, current)
  | stmt :: stmts => do
      let (state, run, current) ← buildSequence state run current stmts
      if isStructured stmt then do
        let (state, current) := closeRun state run current
        let (state, current) ← buildStmt state current stmt
        return (state, ⟨[], none⟩, current)
      else
        return (state, { run with statements := stmt :: run.statements }, current)
end

/-- The edges of a `return` get the exit block as their target. -/
def resolveExit (exitId : BlockId) (edge : CFGEdge) : CFGEdge :=
  if edge.kind == .returnToExit && edge.target == none then { edge with target := some exitId }
  else edge

def resolveDraft (exitId : BlockId) (draft : BlockDraft) : BlockDraft :=
  { draft with successors := draft.successors.map (resolveExit exitId) }

def exitDraft (exitId : BlockId) : BlockDraft where
  id := exitId
  name := "exit"
  statements := []
  terminatorKind := .fallthrough
  terminatorStatement := none
  condition := none
  successors := []

def entryDraft (entryTarget : Option BlockId) : BlockDraft where
  id := 0
  name := "entry"
  statements := []
  terminatorKind := .fallthrough
  terminatorStatement := none
  condition := none
  successors := [⟨entryTarget, .fallthrough, ""⟩]

/-- The source of every edge into a block. -/
def predecessorsOf (drafts : List BlockDraft) (id : BlockId) : List BlockId :=
  drafts.flatMap fun draft =>
    (draft.successors.filter fun edge => edge.target == some id).map fun _ => draft.id

def completeBlock (drafts : List BlockDraft) (draft : BlockDraft) : BasicBlock where
  id := draft.id
  name := draft.name
  statements := draft.statements
  terminatorKind := draft.terminatorKind
  terminatorStatement := draft.terminatorStatement
  condition := draft.condition
  successors := draft.successors
  predecessors := predecessorsOf drafts draft.id

/-- A function ends in its `return`, so its sequence of statements is never
empty. -/
def buildForFunction (function : Function) : Except CompileError ControlFlowGraph := do
  let (state, run, current) ← buildSequence ⟨1, []⟩
    ⟨[], some (function.returnInfo, function.returnArg)⟩ none function.stmts
  let (state, entryTarget) := closeRun state run current
  let (state, exitId) := allocateId state
  let state := addDraft state (exitDraft exitId)
  let ordered := entryDraft entryTarget :: state.drafts.map (resolveDraft exitId)
  return { function, blocks := ordered.map (completeBlock ordered), entryId := 0, exitId }

end CFGBuilder

end Topc
