import Topc.Types.ClosureExactness
import Topc.Types.InferenceOrder

/-! # What type inference solves

Inference adds batches of constraints over the variables of the program. Every
function has its constraints in one of them. -/

namespace Topc

open TopType

/-- Both sides are types over the variables of the program. -/
def TypeConstraint.InProgram (constraint : TypeConstraint) : Prop :=
  constraint.1.inProgram = true ∧ constraint.2.inProgram = true

theorem TypeConstraint.InProgram.sameSort {constraint : TypeConstraint}
    (program : constraint.InProgram) : TermUnifier.SameSort sort constraint :=
  ⟨.type, sort_eq_type.mpr program.1, sort_eq_type.mpr program.2⟩

/-! ## Constraints of the syntax -/

namespace TypeConstraintVisitor

theorem typeVar_inProgram (decl : DeclNode) : decl.typeVar.inProgram = true := rfl

theorem sumType_inProgram (owner : SumTypeDecl) : owner.sumType.inProgram = true := by
  simp only [SumTypeDecl.sumType, inProgram, allInProgram_eq, List.all_eq_true, List.mem_flatMap]
  rintro type ⟨variant, _, member⟩
  rcases List.mem_map.mp member with ⟨param, _, rfl⟩
  exact typeVar_inProgram param

section

variable (symbols : SymbolTable) (scope : DeclNode)

theorem astToVar_inProgram (expr : Expr) : (astToVar symbols scope expr).inProgram = true := rfl

theorem function_inProgram {params : List TopType} {ret : TopType}
    (paramsProgram : ∀ param ∈ params, param.inProgram = true) (retProgram : ret.inProgram = true) :
    inProgram (.function params ret) = true := by
  simp only [inProgram, allInProgram_eq, Bool.and_eq_true, List.all_eq_true]
  exact ⟨paramsProgram, retProgram⟩

theorem actuals_inProgram (actuals : List Expr) (ret : NodeId) :
    inProgram (.function (actuals.map (astToVar symbols scope)) (.var (.plain ret))) = true := by
  apply function_inProgram
  · intro param member
    rcases List.mem_map.mp member with ⟨actual, _, rfl⟩
    exact astToVar_inProgram symbols scope actual
  · rfl

mutual
theorem constrainPattern_inProgram {slotType : TopType} (slot : slotType.inProgram = true) :
    ∀ (pattern : Pattern), ∀ constraint ∈ constrainPattern symbols slotType pattern,
      TypeConstraint.InProgram constraint
  | .var info decl => by
      intro constraint member
      rw [List.mem_singleton.mp member]
      exact ⟨rfl, slot⟩
  | .wildcard info => nofun
  | .ctor info tag subPatterns => by
      intro constraint member
      unfold constrainPattern at member
      split at member
      · rename_i owner variant _ _
        rcases List.mem_cons.mp member with rfl | later
        · exact ⟨slot, sumType_inProgram owner⟩
        · exact constrainPatterns_inProgram variant.params subPatterns constraint later
      · cases member

theorem constrainPatterns_inProgram : ∀ (params : List DeclNode) (patterns : List Pattern),
    ∀ constraint ∈ constrainPatterns symbols params patterns, TypeConstraint.InProgram constraint
  | [], _ => by
      intro constraint member
      simp [constrainPatterns] at member
  | _ :: _, [] => by
      intro constraint member
      simp [constrainPatterns] at member
  | param :: params, pattern :: patterns => by
      intro constraint member
      rw [constrainPatterns] at member
      rcases List.mem_append.mp member with first | later
      · exact constrainPattern_inProgram (typeVar_inProgram param) pattern constraint first
      · exact constrainPatterns_inProgram params patterns constraint later
end

theorem endVisitCase_inProgram (caseExpr : Expr) (arms : List CaseArm) :
    ∀ constraint ∈ endVisitCase symbols scope caseExpr arms, TypeConstraint.InProgram constraint := by
  intro constraint member
  unfold endVisitCase at member
  split at member
  · cases member
  · split at member
    · cases member
    · rename_i owner _
      rcases List.mem_cons.mp member with rfl | later
      · exact ⟨rfl, sumType_inProgram owner⟩
      · rcases List.mem_flatMap.mp later with ⟨arm, _, inArm⟩
        unfold constrainArm at inArm
        split at inArm
        · cases inArm
        · exact constrainPatterns_inProgram symbols _ _ constraint inArm

theorem endVisitSumCtor_inProgram (info : NodeInfo) (tag : String) (args : List Expr) :
    ∀ constraint ∈ endVisitSumCtor symbols scope info tag args,
      TypeConstraint.InProgram constraint := by
  intro constraint member
  unfold endVisitSumCtor at member
  split at member
  · rename_i variant owner _ _
    rcases List.mem_cons.mp member with rfl | later
    · exact ⟨rfl, sumType_inProgram owner⟩
    · rcases List.mem_map.mp later with ⟨_, _, rfl⟩
      exact ⟨rfl, rfl⟩
  · cases member

theorem endVisit_inProgram (node : AstNode) :
    ∀ constraint ∈ endVisit symbols scope node, TypeConstraint.InProgram constraint := by
  intro constraint member
  cases node with
  | expr expr =>
      cases expr with
      | numExpr | inputExpr | allocExpr | borrowExpr | deRefExpr =>
          rw [List.mem_singleton.mp member]
          exact ⟨rfl, rfl⟩
      | varExpr => cases member
      | binaryExpr info op left right =>
          cases op <;> simp only [endVisit, endVisitBinary, List.mem_cons, List.not_mem_nil,
            or_false] at member <;> rcases member with rfl | rfl | rfl <;> exact ⟨rfl, rfl⟩
      | funAppExpr info function actuals =>
          rw [List.mem_singleton.mp member]
          exact ⟨rfl, actuals_inProgram symbols scope actuals info.id⟩
      | sumCtorExpr info tag args =>
          exact endVisitSumCtor_inProgram symbols scope info tag args constraint member
  | stmt stmt =>
      cases stmt with
      | assignStmt info lhs rhs =>
          rw [List.mem_singleton.mp member]
          cases lhs <;> exact ⟨rfl, rfl⟩
      | whileStmt | ifStmt | outputStmt | errorStmt =>
          rw [List.mem_singleton.mp member]
          exact ⟨rfl, rfl⟩
      | blockStmt => cases member
      | caseStmt info caseExpr arms =>
          exact endVisitCase_inProgram symbols scope caseExpr arms constraint member

theorem endVisitFunction_inProgram (function : Function) :
    ∀ constraint ∈ endVisitFunction symbols function, TypeConstraint.InProgram constraint := by
  have formals : ∀ param ∈ function.formals.map DeclNode.typeVar, param.inProgram = true := by
    intro param member
    rcases List.mem_map.mp member with ⟨formal, _, rfl⟩
    exact typeVar_inProgram formal
  have signature : inProgram (.function (function.formals.map DeclNode.typeVar)
      (astToVar symbols function.decl function.returnArg)) = true :=
    function_inProgram formals rfl
  intro constraint member
  simp only [endVisitFunction] at member
  split at member
  · simp only [List.mem_append, List.mem_map, List.mem_cons, List.not_mem_nil, or_false] at member
    rcases member with ⟨formal, _, rfl⟩ | rfl | rfl
    · exact ⟨rfl, rfl⟩
    · exact ⟨rfl, rfl⟩
    · exact ⟨rfl, signature⟩
  · rw [List.mem_singleton.mp member]
    exact ⟨rfl, signature⟩

end

end TypeConstraintVisitor

/-! ## Copies of closed types -/

namespace TopTypeClosure

variable {uf : TermUnionFind TopType} (keeps : TermUnifier.KeepsSort sort uf.root)

/-- What a closed type is copied to, or used as the mode of a reference. -/
structure CopiesTo (type closed : TopType) : Prop where
  mode : type.isMode = true → closed.isMode = true
  copy : ∀ context, type.inProgram = true → (FreshAlphaCopier.copy closed context).inProgram = true

theorem copiesTo_alpha (v : TypeVar) : CopiesTo (.var v) (.var (alphaOf v)) where
  mode := nofun
  copy context _ := by cases v <;> rfl

theorem copiesTo_function {params closedParams : List TopType} {ret closedRet : TopType}
    (paramsCopied : List.Forall₂ CopiesTo params closedParams) (retCopied : CopiesTo ret closedRet) :
    CopiesTo (.function params ret) (.function closedParams closedRet) := by
  refine ⟨nofun, fun context program => ?_⟩
  simp only [inProgram, allInProgram_eq, Bool.and_eq_true, List.all_eq_true] at program
  simp only [FreshAlphaCopier.copy, mapVars, mapAllVars_eq, inProgram, allInProgram_eq,
    Bool.and_eq_true, List.all_eq_true, List.forall_mem_map]
  constructor
  · intro closedParam member
    rcases List.mem_iff_getElem.mp member with ⟨index, bound, rfl⟩
    have bound' : index < params.length := paramsCopied.length_eq ▸ bound
    exact (paramsCopied.get bound' bound).copy context (program.1 _ (List.getElem_mem bound'))
  · exact retCopied.copy context program.2

theorem copiesTo_sumType {typeName : String} {ctors : List (String × Nat)}
    {payloads closedPayloads : List TopType}
    (payloadsCopied : List.Forall₂ CopiesTo payloads closedPayloads) :
    CopiesTo (.sumType typeName ctors payloads) (.sumType typeName ctors closedPayloads) := by
  refine ⟨nofun, fun context program => ?_⟩
  simp only [inProgram, allInProgram_eq, List.all_eq_true] at program
  simp only [FreshAlphaCopier.copy, mapVars, mapAllVars_eq, inProgram, allInProgram_eq,
    List.all_eq_true, List.forall_mem_map]
  intro closedPayload member
  rcases List.mem_iff_getElem.mp member with ⟨index, bound, rfl⟩
  have bound' : index < payloads.length := payloadsCopied.length_eq ▸ bound
  exact (payloadsCopied.get bound' bound).copy context (program _ (List.getElem_mem bound'))

theorem copiesTo_reference {refMode closedMode referenced closedReferenced : TopType}
    (modeCopied : CopiesTo refMode closedMode) (referencedCopied : CopiesTo referenced closedReferenced) :
    CopiesTo (.reference refMode referenced) (.reference closedMode closedReferenced) := by
  refine ⟨nofun, fun context program => ?_⟩
  simp only [inProgram, Bool.and_eq_true] at program
  simp only [FreshAlphaCopier.copy, mapVars, inProgram, Bool.and_eq_true]
  constructor
  · have isMode := modeCopied.mode program.1
    cases closedMode with
    | mode | modeVar => rfl
    | _ => cases isMode
  · exact referencedCopied.copy context program.2

/-- Closing without making a `mu`, children first. -/
theorem closeAll_copiesTo {closeRep : List TypeVar → TopType → Except CompileError TopType}
    {visited : List TypeVar} {types closed : List TopType}
    (each : ∀ type ∈ types, ∀ result, closeType uf closeRep visited type = .ok result →
      containsTopMu result = false → CopiesTo type result)
    (result : List.Forall₂ (fun type closed => closeType uf closeRep visited type = .ok closed)
      types closed) (muFree : ∀ type ∈ closed, containsTopMu type = false) :
    List.Forall₂ CopiesTo types closed := by
  induction result with
  | nil => exact .nil
  | cons head _ induction =>
      constructor
      · exact each _ List.mem_cons_self _ head (muFree _ List.mem_cons_self)
      · exact induction (fun type member => each type (List.mem_cons_of_mem _ member))
          fun type member => muFree type (List.mem_cons_of_mem _ member)

include keeps

theorem closeWithin_copiesTo (depth : Nat) : ∀ (type : TopType) {path : List TypeVar}
    {closed : TopType}, closeWithin uf depth path type = .ok closed →
      containsTopMu closed = false → CopiesTo type closed := by
  induction depth with
  | zero => exact fun type path closed result => by cases result
  | succ depth below =>
      intro type
      induction type with
      | var v =>
          intro path closed result muFree
          rw [closeWithin, closeType, closeVar] at result
          by_cases followed : v ∉ path ∧ uf.root (.var v) ≠ .var v
          · rw [if_pos followed, bind_eq_ok] at result
            rcases result with ⟨closedV, closedRep, result⟩
            cases result
            simp only [bindCycle] at muFree ⊢
            split at muFree
            · cases muFree
            · rename_i unwrapped
              rw [if_neg unwrapped]
              have copied := below _ closedRep muFree
              exact ⟨fun impossible => (by cases impossible), fun context program =>
                copied.copy context (root_inProgram keeps program)⟩
          · rw [if_neg followed] at result
            cases result
            exact copiesTo_alpha v
      | modeVar id =>
          intro path closed result muFree
          rw [closeWithin, closeType, closeModeVar] at result
          split at result
          · cases result
            exact ⟨fun _ => rfl, fun _ impossible => by cases impossible⟩
          · split at result
            · cases result
            · exact ⟨fun _ => (below _ result muFree).mode (root_isMode keeps rfl),
                fun _ impossible => by cases impossible⟩
      | int =>
          intro path closed result _
          cases result
          exact ⟨fun impossible => (by cases impossible), fun _ _ => rfl⟩
      | mode value =>
          intro path closed result _
          cases result
          exact ⟨fun _ => rfl, fun _ impossible => by cases impossible⟩
      | mu v body _ =>
          intro path closed result muFree
          simp only [closeWithin, closeType, bind_eq_ok] at result
          rcases result with ⟨_, _, result⟩
          cases result
          cases muFree
      | function params ret paramsCopied retCopied =>
          intro path closed result muFree
          simp only [closeWithin, closeType, bind_eq_ok] at result
          rcases result with ⟨closedParams, paramsClosed, closedRet, retClosed, result⟩
          cases result
          simp only [containsTopMu, anyContainsTopMu_eq, Bool.or_eq_false_iff, List.any_eq_false,
            Bool.not_eq_true] at muFree
          exact copiesTo_function (closeAll_copiesTo
            (fun param member _ result => paramsCopied param member result)
            (closeAll_eq_ok.mp paramsClosed) muFree.1) (retCopied retClosed muFree.2)
      | reference refMode referenced modeCopied referencedCopied =>
          intro path closed result muFree
          simp only [closeWithin, closeType, bind_eq_ok] at result
          rcases result with ⟨closedMode, modeClosed, closedReferenced, referencedClosed, result⟩
          rw [withReferenceChildren_ok result] at muFree ⊢
          simp only [containsTopMu, Bool.or_eq_false_iff] at muFree
          exact copiesTo_reference (modeCopied modeClosed muFree.1)
            (referencedCopied referencedClosed muFree.2)
      | sumType typeName ctors payloads payloadsCopied =>
          intro path closed result muFree
          simp only [closeWithin, closeType, bind_eq_ok] at result
          rcases result with ⟨closedPayloads, payloadsClosed, result⟩
          cases result
          simp only [containsTopMu, anyContainsTopMu_eq, List.any_eq_false,
            Bool.not_eq_true] at muFree
          exact copiesTo_sumType (closeAll_copiesTo
            (fun payload member _ result => payloadsCopied payload member result)
            (closeAll_eq_ok.mp payloadsClosed) muFree)

end TopTypeClosure

/-! ## Constraints of calls -/

namespace PolyTypeConstraintVisitor

open TypeConstraintVisitor

section

variable (symbols : SymbolTable) (callGraph : CallGraph) {unifier : TermUnionFind TopType}
  (scope : DeclNode) (keeps : TermUnifier.KeepsSort sort unifier.root)

include keeps

theorem constrainCalled_inProgram {info : NodeInfo} {function : Expr} {actuals : List Expr}
    {called : DeclNode} {constraint : TypeConstraint}
    (result : constrainCalled symbols unifier scope info function actuals called = .ok constraint) :
    constraint.InProgram := by
  have mono : (endVisitFunApp symbols scope info function actuals).InProgram :=
    ⟨rfl, actuals_inProgram symbols scope actuals info.id⟩
  unfold constrainCalled at result
  split at result
  · split at result
    · cases result
    · rename_i decl _
      rw [bind_eq_ok] at result
      rcases result with ⟨genericType, closed, result⟩
      split at result
      · rename_i generic
        cases result
        have copied := TopTypeClosure.closeWithin_copiesTo keeps _ _ closed generic.2
        exact ⟨copied.copy info.id rfl, actuals_inProgram symbols scope actuals info.id⟩
      · cases result
        exact mono
  · cases result
    exact mono

theorem endVisit_inProgram {node : AstNode} {constraints : List TypeConstraint}
    (result : endVisit symbols callGraph unifier scope node = .ok constraints) :
    ∀ constraint ∈ constraints, TypeConstraint.InProgram constraint := by
  unfold endVisit at result
  split at result
  · rename_i info function actuals
    unfold endVisitPolyFunApp at result
    split at result
    · cases result
      intro constraint member
      rw [List.mem_singleton.mp member]
      exact ⟨rfl, actuals_inProgram symbols scope actuals info.id⟩
    · intro constraint member
      rcases mem_of_mapM result constraint member with ⟨called, _, calledResult⟩
      exact constrainCalled_inProgram symbols scope keeps calledResult
  · cases result
    exact TypeConstraintVisitor.endVisit_inProgram symbols scope node

end

end PolyTypeConstraintVisitor

/-! ## The batches of a run -/

/-- The constraints of a function that do not depend on what its calls reach. -/
def TypeConstraintVisitor.ownConstraints (symbols : SymbolTable) (function : Function) :
    List TypeConstraint :=
  (function.postOrder.filter fun node =>
      match node with
      | .expr (.funAppExpr ..) => false
      | _ => true).flatMap (endVisit symbols function.decl)
    ++ endVisitFunction symbols function

namespace TypeInference

open TypeConstraintVisitor (ownConstraints)

/-- The unifier is what solving the batches one after the other gives. -/
structure SolvedBy (batches : List (List TypeConstraint)) (unifier : TermUnionFind TopType) :
    Prop where
  solved : TermUnifier.solveBatches batches = .ok unifier
  program : ∀ batch ∈ batches, ∀ constraint ∈ batch, TypeConstraint.InProgram constraint

namespace SolvedBy

variable {batches : List (List TypeConstraint)} {unifier unifier' : TermUnionFind TopType}

theorem sorted (solved : SolvedBy batches unifier) :
    ∀ batch ∈ batches, ∀ constraint ∈ batch, TermUnifier.SameSort sort constraint :=
  fun batch batchMem constraint member => (solved.program batch batchMem constraint member).sameSort

theorem keeps (solved : SolvedBy batches unifier) : TermUnifier.KeepsSort sort unifier.root :=
  TermUnifier.solveBatches_keepsSort sortsDescend solved.sorted solved.solved

theorem empty : SolvedBy [] .empty :=
  ⟨rfl, nofun⟩

theorem solve {constraints : List TypeConstraint} (solved : SolvedBy batches unifier)
    (program : ∀ constraint ∈ constraints, TypeConstraint.InProgram constraint)
    (result : TypeInference.solve unifier constraints = .ok unifier') :
    SolvedBy (batches ++ [constraints]) unifier' := by
  have ran : TermUnifier.solve unifier constraints = .ok unifier' := by
    unfold TypeInference.solve at result
    cases outcome : TermUnifier.solve unifier constraints with
    | error failed =>
        rw [outcome] at result
        cases result
    | ok final =>
        rw [outcome] at result
        cases result
        rfl
  constructor
  · rw [TermUnifier.solveBatches, List.foldlM_append]
    change (TermUnifier.solveBatches batches >>= _) = _
    rw [solved.solved]
    change [constraints].foldlM TermUnifier.solve unifier = _
    rw [List.foldlM_cons, ran]
    rfl
  · intro batch member
    rcases List.mem_append.mp member with older | new
    · exact solved.program batch older
    · rw [List.mem_singleton.mp new]
      exact program

end SolvedBy

section

variable {symbols : SymbolTable} {cg : CallGraph}

/-- The constraints of one generalised function make the next batch. -/
theorem inferPoly_collects {batches : List (List TypeConstraint)}
    {unifier unifier' : TermUnionFind TopType} (solved : SolvedBy batches unifier) {f : Function}
    (result : inferPoly symbols cg unifier f = .ok unifier') :
    ∃ batch, PolyTypeConstraintVisitor.getCollectedConstraints symbols cg unifier f = .ok batch ∧
      SolvedBy (batches ++ [batch]) unifier' := by
  rw [inferPoly, bind_eq_ok] at result
  rcases result with ⟨batch, collected, result⟩
  have gathered : PolyTypeConstraintVisitor.getCollectedConstraints symbols cg unifier f =
      .ok batch := by
    cases outcome : PolyTypeConstraintVisitor.getCollectedConstraints symbols cg unifier f with
    | error error =>
        rw [outcome] at collected
        cases collected
    | ok constraints =>
        rw [outcome] at collected
        cases collected
        rfl
  refine ⟨batch, gathered, solved.solve ?_ result⟩
  rw [PolyTypeConstraintVisitor.getCollectedConstraints, bind_eq_ok] at gathered
  rcases gathered with ⟨nodes, visited, gathered⟩
  cases gathered
  intro constraint member
  rcases List.mem_append.mp member with ofNode | ofFunction
  · rcases List.mem_flatten.mp ofNode with ⟨constraints, constraintsMem, inside⟩
    rcases mem_of_mapM visited constraints constraintsMem with ⟨node, _, nodeResult⟩
    exact PolyTypeConstraintVisitor.endVisit_inProgram symbols cg f.decl solved.keeps nodeResult
      constraint inside
  · exact TypeConstraintVisitor.endVisitFunction_inProgram symbols f constraint ofFunction

theorem inferPoly_solves {batches : List (List TypeConstraint)}
    {unifier unifier' : TermUnionFind TopType} (solved : SolvedBy batches unifier) {f : Function}
    (result : inferPoly symbols cg unifier f = .ok unifier') :
    ∃ batch, SolvedBy (batches ++ [batch]) unifier' ∧ ownConstraints symbols f ⊆ batch := by
  rcases inferPoly_collects solved result with ⟨batch, gathered, solved'⟩
  refine ⟨batch, solved', ?_⟩
  rw [PolyTypeConstraintVisitor.getCollectedConstraints, bind_eq_ok] at gathered
  rcases gathered with ⟨nodes, visited, gathered⟩
  cases gathered
  intro constraint member
  rcases List.mem_append.mp member with ofNode | ofFunction
  · rcases List.mem_flatMap.mp ofNode with ⟨node, nodeMem, inside⟩
    rw [List.mem_filter] at nodeMem
    rcases exists_of_mapM visited node nodeMem.1 with ⟨constraints, constraintsMem, nodeResult⟩
    have same : constraints = TypeConstraintVisitor.endVisit symbols f.decl node := by
      unfold PolyTypeConstraintVisitor.endVisit at nodeResult
      split at nodeResult
      · cases nodeMem.2
      · cases nodeResult
        rfl
    rw [same] at constraintsMem
    exact List.mem_append_left _ (List.mem_flatten.mpr ⟨_, constraintsMem, inside⟩)
  · exact List.mem_append_right _ ofFunction

theorem foldlM_inferPoly_solves (functions : List Function) :
    ∀ {batches : List (List TypeConstraint)} {unifier unifier' : TermUnionFind TopType},
      SolvedBy batches unifier → functions.foldlM (inferPoly symbols cg) unifier = .ok unifier' →
        ∃ more, SolvedBy (batches ++ more) unifier' ∧
          ∀ f ∈ functions, ownConstraints symbols f ⊆ more.flatten := by
  induction functions with
  | nil =>
      intro batches unifier unifier' solved result
      cases result
      exact ⟨[], by rwa [List.append_nil], nofun⟩
  | cons f functions induction =>
      intro batches unifier unifier' solved result
      rw [List.foldlM_cons, bind_eq_ok] at result
      rcases result with ⟨mid, first, rest⟩
      rcases inferPoly_solves solved first with ⟨batch, midSolved, own⟩
      rcases induction midSolved rest with ⟨more, finalSolved, others⟩
      refine ⟨batch :: more, by rwa [List.append_assoc] at finalSolved, ?_⟩
      intro g member
      rw [List.flatten_cons]
      rcases List.mem_cons.mp member with rfl | later
      · exact fun constraint inside => List.mem_append_left _ (own inside)
      · exact fun constraint inside => List.mem_append_right _ (others g later inside)

/-! ### Every function is solved -/

/-- The symbol table of a run, with the generalised functions marked. -/
def markedSymbols (symbols : SymbolTable) (cg : CallGraph) : SymbolTable :=
  (topoSortNonRecursive cg).foldl (fun symbols f => symbols.setPoly f.getName) symbols

theorem residual_inProgram (marked : SymbolTable) (functions : List Function) :
    ∀ constraint ∈ functions.flatMap (TypeConstraintVisitor.getCollectedConstraints marked),
      TypeConstraint.InProgram constraint := by
  intro constraint member
  rcases List.mem_flatMap.mp member with ⟨function, _, inside⟩
  rcases List.mem_append.mp inside with ofNode | ofFunction
  · rcases List.mem_flatMap.mp ofNode with ⟨node, _, nodeMem⟩
    exact TypeConstraintVisitor.endVisit_inProgram marked function.decl node constraint nodeMem
  · exact TypeConstraintVisitor.endVisitFunction_inProgram marked function constraint ofFunction

theorem ownConstraints_subset (marked : SymbolTable) (function : Function) :
    ownConstraints marked function ⊆
      TypeConstraintVisitor.getCollectedConstraints marked function := by
  intro constraint member
  rcases List.mem_append.mp member with ofNode | ofFunction
  · rcases List.mem_flatMap.mp ofNode with ⟨node, nodeMem, inside⟩
    exact List.mem_append_left _ (List.mem_flatMap.mpr ⟨node, (List.mem_filter.mp nodeMem).1, inside⟩)
  · exact List.mem_append_right _ ofFunction

/-- A run that succeeds has solved batches of constraints over the variables of
the program, among them those of every function. -/
theorem runPoly_solves (distinct : (cg.vertices.map Function.decl).Nodup) {marked : SymbolTable}
    {unifier : TermUnionFind TopType} (result : runPoly symbols cg = .ok (marked, unifier)) :
    marked = markedSymbols symbols cg ∧ ∃ batches, SolvedBy batches unifier ∧
      ∀ f ∈ cg.vertices, ownConstraints marked f ⊆ batches.flatten := by
  rw [runPoly, bind_eq_ok] at result
  rcases result with ⟨polyUnifier, poly, result⟩
  rw [bind_eq_ok] at result
  rcases result with ⟨final, residualSolved, result⟩
  cases result
  refine ⟨rfl, ?_⟩
  rcases foldlM_inferPoly_solves _ .empty poly with ⟨batches, polySolved, own⟩
  rw [List.nil_append] at polySolved
  refine ⟨_, polySolved.solve (residual_inProgram _ _) residualSolved, ?_⟩
  intro f member constraint inside
  rw [List.flatten_append, List.mem_append]
  by_cases generalised : ∃ g ∈ topoSortNonRecursive cg, g.decl = f.decl
  · rcases generalised with ⟨g, gMem, same⟩
    have equal : g = f :=
      List.inj_on_of_nodup_map distinct (topoSortNonRecursive_mem gMem) member same
    subst equal
    exact .inl (own g gMem inside)
  · refine .inr (List.mem_flatten.mpr ⟨_, List.mem_singleton_self _, ?_⟩)
    refine List.mem_flatMap.mpr ⟨f, ?_, ownConstraints_subset _ f inside⟩
    rw [residual, List.mem_filter]
    refine ⟨member, ?_⟩
    simpa using generalised

end

end TypeInference

end Topc
