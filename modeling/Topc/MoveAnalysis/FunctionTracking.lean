import Topc.BorrowChecker.Positions
import Topc.MoveAnalysis.ProgramRun

/-! # Following one variable from the entry of a function to its exit -/

open Computability

namespace Topc.MoveAnalysis

open OwnershipPaths

section

variable {context : Context} {function : Function}

/-! ## The entry -/

theorem initialState_getElem? (formals : List DeclNode) (key : DeclNode) :
    (initialState context formals)[key]? =
      if key ∈ formals ∧ context.isOwn key = true then some .owned else none := by
  have inserted : ∀ (owners : List DeclNode) (state : StateMap),
      (owners.foldl (fun state formal => state.insert formal .owned) state)[key]? =
        if key ∈ owners then some .owned else state[key]? := by
    intro owners
    induction owners with
    | nil => intro state; simp
    | cons owner owners induction =>
        intro state
        rw [List.foldl_cons, induction, Std.ExtTreeMap.getElem?_insert]
        by_cases later : key ∈ owners
        · simp [later]
        · by_cases same : owner = key
          · simp [same]
          · simp [later, same, Ne.symm same]
  rw [initialState, inserted]
  simp [List.mem_filter]

theorem entryStatus_absent {decl : DeclNode}
    (absent : decl ∉ function.formals ++ function.declarations) :
    entryStatus function decl = none :=
  if_neg fun formal => absent (List.mem_append_left _ formal)

theorem functionScope_decls (function : Function) :
    (functionScope function).map Binding.decl = function.formals ++ function.declarations := by
  simp [functionScope, Function.comp_def]

/-! ## The whole function -/

/-- A function that meets the conditions of the analysis, and what the final plan
lists for its arms. -/
structure FunctionFits (context : Context) (function : Function) (owners : NodeId → List DeclNode)
    (before after : DestructionPlan) : Prop where
  regular : Regular context (functionEvents context function)
  variablesDistinct : function.variables.Nodup
  arms : (armIds function).Nodup
  fresh : ∀ arm ∈ armIds function, armEndOwners before arm = []
  planned : ∀ arm ∈ armIds function, owners arm = armEndOwners after arm

variable {decl : DeclNode} {tracking : Tracking decl}

theorem FunctionFits.stmts {before after : DestructionPlan}
    (fits : FunctionFits context function tracking.planned before after) :
    Fits context tracking (functionScope function)
      (stmtsEvents context (functionScope function) function.stmts) before after := by
  have mirrors : Mirrors (stmtsEvents context (functionScope function) function.stmts)
      function.allArms :=
    stmtsEvents_mirrors context (fun stmt _ => stmtEvents_mirrors context stmt) _
  refine ⟨(Regular.append_iff.mp fits.regular).1, ?_, ?_, ?_, ?_⟩
  · rw [functionScope_decls]
    exact (mirrors.declares.append_left _).nodup_iff.mpr fits.variablesDistinct
  · exact mirrors.ends.nodup_iff.mpr fits.arms
  · exact fun arm member => fits.fresh arm (mirrors.ends.mem_iff.mp member)
  · exact fun arm member => fits.planned arm (mirrors.ends.mem_iff.mp member)

/-- What is planned for an arm are owned binders of the arm, each once. -/
theorem FunctionFits.armEndOwners_sublist (enforced : context.Enforced) {plan : DestructionPlan}
    {body final : Walk} (walk : FunctionWalk context function plan body final)
    {owners : NodeId → List DeclNode}
    (fits : FunctionFits context function owners plan final.plan) {arm : NodeId}
    {binders : List Binding} (member : .leaveArm arm binders ∈ functionEvents context function) :
    (owners arm).Sublist ((binders.map Binding.decl).filter context.isOwn) := by
  have mirrors : Mirrors (stmtsEvents context (functionScope function) function.stmts)
      function.allArms :=
    stmtsEvents_mirrors context (fun stmt _ => stmtEvents_mirrors context stmt) _
  rcases List.mem_append.mp member with inBody | returned
  · have ended : arm ∈ armIds function :=
      mirrors.ends.mem_iff.mp (List.mem_filterMap.mpr ⟨_, inBody, rfl⟩)
    rw [fits.planned arm ended]
    exact (walk.grows enforced).armEndOwners_sublist (mirrors.ends.nodup_iff.mpr fits.arms)
      inBody (fits.fresh arm ended)
  · rcases takenEvents_resolved context _ _ _ returned with ⟨action, name, equal⟩
    cases equal

/-- An entry that no occurrence is kept under is the same at the exit as at the entry. -/
theorem FunctionWalk.settles (enforced : context.Enforced) {plan : DestructionPlan}
    {body final : Walk} (walk : FunctionWalk context function plan body final)
    (regular : Regular context (functionEvents context function)) {key : DeclNode}
    (settled : Settled context (functionScope function) key) :
    final.state[key]? = (initialState context function.formals)[key]? := by
  rcases walk.stmts with ⟨trace, stmts⟩
  rw [walk.returns.settled enforced.canonical settled (takenEvents_resolved context _ _)
    (Regular.append_iff.mp regular).2]
  exact analyzeStmts_settles (fun stmt _ => stmtSettles enforced stmt) _ key _ body settled
    (Regular.append_iff.mp regular).1 stmts

variable (tracking) in
/-- Along every path of the function the monitor permits each event, and the
entries of the analysis at the exit follow the statuses there. -/
theorem function_tracks (enforced : context.Enforced) (own : context.isOwn decl = true)
    {plan : DestructionPlan} {body final : Walk}
    (walk : FunctionWalk context function plan body final)
    (fits : FunctionFits context function tracking.planned plan final.plan)
    (loops : functionLoops context tracking.allowed function)
    {start : Option OwnershipState}
    (absent : decl ∉ function.formals ++ function.declarations → start = none)
    (started : (functionScope function).owner context decl.name = some decl →
      tracking.rel (functionPaths context function)
        (entryOf context (initialState context function.formals) decl) start)
    {path : List Event} (member : path ∈ functionPaths context function) :
    tracking.monitor.Safe start path ∧
      Tracks context tracking (functionScope function) 1 start final.state
        (statusAfter decl start path) := by
  rcases walk.stmts with ⟨trace, stmts⟩
  have samePlan : Grows context [] body.plan final.plan := .of_steps walk.returns
  have stmtsFits : Fits context tracking (functionScope function)
      (stmtsEvents context (functionScope function) function.stmts) plan body.plan := by
    have all := fits.stmts
    rw [← List.append_nil (stmtsEvents context (functionScope function) function.stmts)] at all
    exact all.left samePlan
  have entered : Tracks context tracking (functionScope function)
      (functionPaths context function) start (initialState context function.formals) start := by
    refine ⟨fun unbound => absent fun bound => ?_, fun _ _ => rfl, fun aliased => ?_, started⟩
    · exact unbound ⟨decl, false⟩ (List.mem_map.mpr ⟨decl, bound, rfl⟩) rfl
    · rcases List.mem_map.mp aliased with ⟨_, _, equal⟩
      cases equal
  have bodyHolds := analyzeStmts_tracks enforced (fun stmt _ => stmtTracks enforced own stmt)
    _ start _ body (.singleton _) stmtsFits loops stmts
  have returnHolds := eventsTriple tracking start enforced own stmtsFits.distinctScope .one
    (takenEvents_resolved context (functionScope function) function.returnArg)
    (Regular.append_iff.mp fits.regular).2 walk.returns
  rw [mul_one] at returnHolds
  exact bodyHolds.mul returnHolds _ entered path member

end

/-! ## Accepted programs -/

section

variable {program : Program} {symbols : SymbolTable} {types : TypeResults}
  {summary : DeclNode → Option ReturnSummary} {callEffect : NodeId → Option CallEffect}
  {requirements : List (DeclNode × BorrowChecker.Requirements)}
  {result : DestructionPlan × List MoveTraceEvent}

/-- The position walk has gone over every function. -/
theorem checkPositions_visit
    (checked : BorrowChecker.checkPositions .allEnabled symbols types summary program =
      .ok requirements) {function : Function} (member : function ∈ program.functions) :
    ∃ required, BorrowChecker.checkFunction ⟨.allEnabled, symbols, types, summary, function⟩ =
      .ok required := by
  rw [BorrowChecker.checkPositions] at checked
  generalize program.functions = functions at checked member
  induction functions generalizing requirements with
  | nil => cases member
  | cons head functions induction =>
      rw [List.mapM_cons, bind_eq_ok] at checked
      rcases checked with ⟨entry, first, checked⟩
      rw [bind_eq_ok] at first checked
      rcases checked with ⟨entries, rest, _⟩
      rcases List.mem_cons.mp member with rfl | later
      · exact ⟨first.choose, first.choose_spec.1⟩
      · exact induction rest later

/-- A function of an accepted program, and what the final plan lists for it. -/
theorem run_visit (built : SymbolTable.build program = .ok symbols)
    (checked : BorrowChecker.checkPositions .allEnabled symbols types summary program =
      .ok requirements)
    (accepted : run .allEnabled symbols types callEffect program = .ok result)
    (distinct : program.NodesDistinct) {function : Function}
    (member : function ∈ program.functions)
    (names : ∀ event ∈ functionEvents (contextOf .allEnabled symbols types callEffect function)
      function, event.NamesAgree (contextOf .allEnabled symbols types callEffect function)) :
    ∃ plan body final,
      FunctionWalk (contextOf .allEnabled symbols types callEffect function) function plan
        body final ∧
      FunctionFits (contextOf .allEnabled symbols types callEffect function) function
        (armEndOwners result.1) plan final.plan ∧
      exitOwners result.1 function.decl = ownersByName final.state := by
  have canonical := SymbolTable.build_canonical built
  have enforced := contextOf_enforced types callEffect canonical function
  rcases analyzeFunctions_visit canonical accepted distinct.functions distinct.arms
    (fun _ _ _ _ => rfl) (fun _ _ => rfl) function member with
    ⟨plan, trace, walk, analyzed, fresh, planned, exits⟩
  rcases analyzeFunction_eq_ok enforced analyzed with
    ⟨body, final, functionWalk, atArmEnd, _, sameState⟩
  rcases checkPositions_visit checked member with ⟨required, functionChecked⟩
  refine ⟨plan, body, final, functionWalk, ?_, sameState ▸ exits⟩
  refine ⟨⟨names, BorrowChecker.checkFunction_allowed rfl rfl functionChecked⟩,
    distinct.variablesDistinct function member, ?_, fresh, fun arm armMem => ?_⟩
  · exact (List.nodup_flatMap.mp distinct.arms).1 function member
  · rw [planned arm armMem, armEndOwners, armEndOwners, atArmEnd]

end

end Topc.MoveAnalysis
