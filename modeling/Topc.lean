import Topc.SymbolTable
import Topc.Types
import Topc.MoveAnalysis
import Topc.OwnershipPaths
import Topc.MoveAnalysis.EventSteps
import Topc.MoveAnalysis.Joins
import Topc.MoveAnalysis.PlanGrowth
import Topc.MoveAnalysis.Scoping
import Topc.MoveAnalysis.SettledEntries
import Topc.MoveAnalysis.VariableTracking
import Topc.MoveAnalysis.ArmTracking
import Topc.MoveAnalysis.StatementTracking
import Topc.MoveAnalysis.ProgramRun
import Topc.BorrowChecker
import Topc.BorrowChecker.Positions
import Topc.MoveAnalysis.FunctionTracking
import Topc.MoveAnalysis.UseAfterMove
import Topc.MoveAnalysis.DestructionExactness
import Topc.Foundation.ParentForest
import Topc.Foundation.RationalTree
import Topc.Solver.TermUnionFind
import Topc.Solver.TermUnifier
import Topc.Types.Terms
import Topc.Types.Closure
import Topc.Solver.CubicSolver
import Topc.Solver.CubicSolver.Growth
import Topc.CallGraph
import Topc.Solver.MostGeneralSolution
import Topc.SymbolTable.LexicalScope
import Topc.SymbolTable.NameResolution
import Topc.Foundation.BreadthFirst
import Topc.Foundation.GraphPaths
import Topc.Weeding
import Topc.ControlFlowGraph
import Topc.ControlFlowGraph.Builder
import Topc.ControlFlowGraph.Labels
import Topc.ControlFlowGraph.Fragments
import Topc.ControlFlowGraph.Construction
import Topc.ControlFlowGraph.Validation
import Topc.ControlFlowGraph.Correctness
import Topc.Foundation.CollapsingGraph
import Topc.Foundation.Fuel
import Topc.Solver.CubicSolver.Shape
import Topc.Solver.CubicSolver.Activation
import Topc.Solver.CubicSolver.LeastSolution
import Topc.Foundation.TreeFixpoint
import Topc.Solver.SortedTerms
import Topc.Types.ClosureExactness
import Topc.Types.Constraints
import Topc.Types.Inference
import Topc.Types.InferredTypes
import Topc.CodeGen.CaseStatement
import Topc.Foundation.ChaoticIteration
import Topc.Foundation.PatternCoverage
import Topc.Foundation.ValueTracing
import Topc.FunctionEffectSummaries
import Topc.FunctionEffectSummaries.RequirementFixpoint
import Topc.FunctionEffectSummaries.ReturnOrigins
import Topc.FunctionEffectSummaries.SettledBodies
import Topc.MoveAnalysis.HeldBorrows
import Topc.MoveAnalysis.MatchPlan
import Topc.MoveAnalysis.AcceptedTemporaries
import Topc.SymbolTable.Constructors
import Topc.Types.Instantiation
import Topc.FrontEnd.RoundTrip
import Topc.FrontEnd.NumberLiterals
import Topc.FunctionEffectSummaries.RecursiveFunctionTypes
import Topc.Types.TypeVisitors
import Topc.Solver.StoredTerms
import Topc.Solver.CubicSolver.LiveLoops
import Topc.Solver.CubicSolver.FindPath
import Topc.Solver.CubicSolver.EnoughSteps
import Topc.CodeGen.StoragePositions
import Topc.CodeGen.FirstMatch
import Topc.SemanticAnalysis.CallOwnership
import Topc.CodeGen.Preservation
import Topc.CodeGen.SelectedArms
