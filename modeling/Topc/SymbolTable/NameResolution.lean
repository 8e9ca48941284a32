import Mathlib.Data.List.Pairwise
import Topc.SymbolTable.LexicalScope

/-! # Names mean their innermost binding

One declaration for each name of a function is enough exactly when the name
does not occur outside the last arm that binds it. -/

namespace Topc

namespace LocalNameCollector

theorem getElem?_insertIfNew_fresh {stored : Std.ExtTreeMap DeclNode LocalNames}
    {function : DeclNode} (fresh : stored[function]? = none) (names : LocalNames)
    (decl : DeclNode) :
    (stored.insertIfNew function names)[decl]? =
      if decl = function then some names else stored[decl]? := by
  rw [Std.ExtTreeMap.getElem?_insertIfNew]
  by_cases same : function = decl
  · subst same
    simp [← Std.ExtTreeMap.contains_iff_mem, Std.ExtTreeMap.contains_eq_isSome_getElem?, fresh]
  · simp [same, Ne.symm same]

/-- Functions with declarations of their own keep the names of their visits. -/
theorem endVisitFunctions_stored {functionNames : FunctionNames} {functions : List Function} :
    ∀ {start result : Std.ExtTreeMap DeclNode LocalNames},
      functions.foldlM (endVisitFunction functionNames) start = .ok result →
      (functions.map Function.decl).Nodup →
      (∀ function ∈ functions, start[function.decl]? = none) →
        (∀ (decl : DeclNode) (names : LocalNames),
          start[decl]? = some names → result[decl]? = some names) ∧
        ∀ function ∈ functions, ∃ names, visitFunction functionNames function = .ok names ∧
          result[function.decl]? = some names := by
  induction functions with
  | nil =>
      intro start result steps _ _
      cases steps
      exact ⟨fun _ _ stored => stored, nofun⟩
  | cons head functions induction =>
      intro start result steps apart fresh
      rw [List.foldlM_cons, bind_eq_ok] at steps
      rcases steps with ⟨mid, first, rest⟩
      rw [endVisitFunction, bind_eq_ok] at first
      rcases first with ⟨names, visited, first⟩
      cases first
      rw [List.map_cons, List.nodup_cons] at apart
      have lookup := getElem?_insertIfNew_fresh (fresh head List.mem_cons_self) names
      have laterFresh : ∀ other ∈ functions,
          (start.insertIfNew head.decl names)[other.decl]? = none := by
        intro other otherMem
        rw [lookup, if_neg]
        · exact fresh other (List.mem_cons_of_mem _ otherMem)
        · intro same
          exact apart.1 (same ▸ List.mem_map_of_mem otherMem)
      rcases induction rest apart.2 laterFresh with ⟨kept, each⟩
      constructor
      · intro decl stored found
        apply kept
        rw [lookup, if_neg]
        · exact found
        · rintro rfl
          rw [fresh head List.mem_cons_self] at found
          cases found
      · intro other otherMem
        rcases List.mem_cons.mp otherMem with rfl | later
        · refine ⟨names, visited, kept _ _ ?_⟩
          rw [lookup, if_pos rfl]
        · exact each other later

end LocalNameCollector

namespace SymbolTable

/-- The table gives a name the last declaration of it in the function, and an
accepted program declares every name it uses. -/
theorem build_getLocal {program : Program} (distinct : program.NodesDistinct)
    {symbols : SymbolTable} (built : SymbolTable.build program = .ok symbols)
    {function : Function} (member : function ∈ program.functions) :
    (∀ name, symbols.getLocal name function.decl = lastNamed name function.variables) ∧
      ∀ occurrence ∈ function.occurrences, symbols.getFunction occurrence.name = none →
        (lastNamed occurrence.name function.variables).isSome = true := by
  rw [SymbolTable.build, bind_eq_ok] at built
  rcases built with ⟨functionNames, functionsBuilt, built⟩
  rw [bind_eq_ok] at built
  rcases built with ⟨localNames, localsBuilt, built⟩
  cases built
  rcases (LocalNameCollector.endVisitFunctions_stored localsBuilt distinct.functions
    (by simp)).2 function member with ⟨names, visited, stored⟩
  rcases LocalNameCollector.visited_visitFunction visited with ⟨lookup, declared⟩
  constructor
  · intro name
    rw [getLocal, stored]
    exact lookup name
  · intro occurrence occurs notFunction
    rcases declared occurrence occurs with function' | known
    · rw [Std.ExtTreeMap.contains_eq_isSome_getElem?] at function'
      rw [getFunction, Option.map_eq_none_iff] at notFunction
      rw [notFunction] at function'
      cases function'
    · rw [← lookup]
      exact known

end SymbolTable

/-! ## Occurrences and the arms around them -/

/-- The arms around an occurrence are met on the way to it. -/
def EnclosedBy (occurrence : Occurrence) (enclosing arms : List CaseArm) : Prop :=
  ∃ inner, occurrence.enclosing = enclosing ++ inner ∧ inner.Sublist arms

theorem EnclosedBy.mono {occurrence : Occurrence} {enclosing arms wider : List CaseArm}
    (enclosed : EnclosedBy occurrence enclosing arms) (inside : arms.Sublist wider) :
    EnclosedBy occurrence enclosing wider := by
  rcases enclosed with ⟨inner, split, sublist⟩
  exact ⟨inner, split, sublist.trans inside⟩

theorem enclosedBy_expr {expr : Expr} {enclosing : List CaseArm} (arms : List CaseArm)
    {occurrence : Occurrence} (member : occurrence ∈ expr.occurrences enclosing) :
    EnclosedBy occurrence enclosing arms := by
  rcases List.mem_map.mp member with ⟨use, _, rfl⟩
  exact ⟨[], (List.append_nil _).symm, List.nil_sublist _⟩

def Stmt.Encloses (stmt : Stmt) : Prop :=
  ∀ (enclosing : List CaseArm), ∀ occurrence ∈ stmt.occurrences enclosing,
    EnclosedBy occurrence enclosing stmt.allArms

theorem enclosedBy_stmts {stmts : List Stmt} (each : ∀ stmt ∈ stmts, stmt.Encloses)
    (enclosing : List CaseArm) :
    ∀ occurrence ∈ Stmt.occurrencesOf enclosing stmts,
      EnclosedBy occurrence enclosing (Stmt.allArmsOf stmts) := by
  induction stmts with
  | nil =>
      rw [Stmt.occurrencesOf]
      exact List.forall_mem_nil _
  | cons stmt stmts induction =>
      intro occurrence member
      rw [Stmt.occurrencesOf, List.mem_append] at member
      rw [Stmt.allArmsOf]
      rcases member with first | rest
      · exact (each stmt List.mem_cons_self enclosing occurrence first).mono
          (List.sublist_append_left _ _)
      · exact (induction (fun other inside => each other (List.mem_cons_of_mem _ inside))
          occurrence rest).mono (List.sublist_append_right _ _)

theorem enclosedBy_arms {arms : List CaseArm} (each : ∀ arm ∈ arms, arm.getBody.Encloses)
    (enclosing : List CaseArm) :
    ∀ occurrence ∈ CaseArm.occurrencesOf enclosing arms,
      EnclosedBy occurrence enclosing (CaseArm.allArmsOf arms) := by
  induction arms with
  | nil =>
      rw [CaseArm.occurrencesOf]
      exact List.forall_mem_nil _
  | cons arm arms induction =>
      intro occurrence member
      rw [CaseArm.occurrencesOf, List.mem_append] at member
      rw [CaseArm.allArmsOf]
      rcases member with first | rest
      · have bodyEncloses := each arm List.mem_cons_self
        cases arm with
        | mk info tag patterns body =>
            rw [CaseArm.occurrences] at first
            rcases bodyEncloses _ occurrence first with ⟨inner, split, sublist⟩
            refine ⟨.mk info tag patterns body :: inner, ?_, ?_⟩
            · rw [split, List.append_assoc]
              rfl
            · rw [CaseArm.allArms, List.cons_append]
              exact (sublist.trans (List.sublist_append_left _ _)).cons_cons _
      · exact (induction (fun other inside => each other (List.mem_cons_of_mem _ inside))
          occurrence rest).mono (List.sublist_append_right _ _)

theorem Stmt.encloses (stmt : Stmt) : stmt.Encloses := by
  induction stmt with
  | assignStmt info lhs rhs =>
      intro enclosing occurrence member
      rw [Stmt.occurrences, List.mem_append] at member
      rcases member with member | member <;> exact enclosedBy_expr _ member
  | blockStmt info stmts each =>
      intro enclosing occurrence member
      rw [Stmt.occurrences] at member
      exact enclosedBy_stmts each enclosing occurrence member
  | whileStmt info condition body bodyEncloses =>
      intro enclosing occurrence member
      rw [Stmt.occurrences, List.mem_append] at member
      rcases member with member | member
      · exact enclosedBy_expr _ member
      · exact bodyEncloses enclosing occurrence member
  | ifStmt info condition thenStmt elseStmt thenEncloses elseEncloses =>
      intro enclosing occurrence member
      rw [Stmt.allArms]
      cases elseStmt with
      | none =>
          rw [Stmt.occurrences, List.mem_append] at member
          rcases member with member | member
          · exact enclosedBy_expr _ member
          · exact (thenEncloses enclosing occurrence member).mono
              (List.sublist_append_left _ _)
      | some elseStmt =>
          rw [Stmt.occurrences, List.mem_append, List.mem_append] at member
          rcases member with member | member | member
          · exact enclosedBy_expr _ member
          · exact (thenEncloses enclosing occurrence member).mono
              (List.sublist_append_left _ _)
          · exact (elseEncloses elseStmt rfl enclosing occurrence member).mono
              (List.sublist_append_right _ _)
  | outputStmt info arg | errorStmt info arg =>
      intro enclosing occurrence member
      rw [Stmt.occurrences] at member
      exact enclosedBy_expr _ member
  | caseStmt info caseExpr arms each =>
      intro enclosing occurrence member
      rw [Stmt.occurrences, List.mem_append] at member
      rcases member with member | member
      · exact enclosedBy_expr _ member
      · exact enclosedBy_arms each enclosing occurrence member

theorem Function.enclosing_sublist {function : Function} {occurrence : Occurrence}
    (member : occurrence ∈ function.occurrences) :
    occurrence.enclosing.Sublist function.allArms := by
  have enclosed : EnclosedBy occurrence [] function.allArms := by
    rcases List.mem_append.mp member with member | member
    · exact enclosedBy_stmts (fun stmt _ => stmt.encloses) [] occurrence member
    · exact enclosedBy_expr _ member
  rcases enclosed with ⟨inner, split, sublist⟩
  rw [split]
  exact sublist

/-! ## Code generation follows the scopes -/

namespace CodeGenVisitor

/-- The slot an occurrence should select. -/
def lexicalSelection (function : Function) (occurrence : Occurrence) : Selection :=
  ⟨occurrence.info, occurrence.name, function.innermost occurrence⟩

/-- Slots for the last of the declarations of each name. -/
def Holds (namedValues : NamedValues) (scope : List DeclNode) : Prop :=
  ∀ name : String, namedValues[name]? = lastNamed name scope

theorem getElem?_allocateAll {decls : List DeclNode} : ∀ (namedValues : NamedValues)
    (name : String), (decls.foldl allocate namedValues)[name]? =
      (lastNamed name decls).or namedValues[name]? := by
  induction decls with
  | nil => exact fun _ _ => rfl
  | cons decl decls induction =>
      intro namedValues name
      rw [List.foldl_cons, induction, ← List.singleton_append, lastNamed_append, Option.or_assoc]
      apply congrArg
      rw [allocate, Std.ExtTreeMap.getElem?_insert, lastNamed_singleton]
      by_cases same : decl.name = name <;> simp [same]

theorem Holds.allocateAll {namedValues : NamedValues} {scope : List DeclNode}
    (holds : Holds namedValues scope) (decls : List DeclNode) :
    Holds (decls.foldl allocate namedValues) (scope ++ decls) := by
  intro name
  rw [getElem?_allocateAll, lastNamed_append, holds]

mutual
theorem NamedValues.emitPatternBind_eq (namedValues : NamedValues) : ∀ pattern : Pattern,
    namedValues.emitPatternBind pattern = pattern.collectBindings.foldl allocate namedValues
  | .var _ _ => rfl
  | .wildcard _ => rfl
  | .ctor _ _ subPatterns => by
      rw [NamedValues.emitPatternBind, Pattern.collectBindings]
      exact namedValues.emitPatternBinds_eq subPatterns

theorem NamedValues.emitPatternBinds_eq (namedValues : NamedValues) : ∀ patterns : List Pattern,
    namedValues.emitPatternBinds patterns =
      (Pattern.collectAllBindings patterns).foldl allocate namedValues
  | [] => rfl
  | pattern :: patterns => by
      rw [NamedValues.emitPatternBinds, Pattern.collectAllBindings, List.foldl_append,
        namedValues.emitPatternBind_eq pattern, emitPatternBinds_eq _ patterns]
end

theorem getElem?_restore (shadowed : NamedValues) (bindings : List DeclNode) :
    ∀ (namedValues : NamedValues) (name : String),
      (restore shadowed bindings namedValues)[name]? =
        if bindings.any fun decl => decl.name == name then shadowed[name]?
        else namedValues[name]? := by
  induction bindings with
  | nil => exact fun _ _ => rfl
  | cons binding bindings induction =>
      intro namedValues name
      have first : (restoreBinding shadowed namedValues binding)[name]? =
          if binding.name = name then shadowed[name]? else namedValues[name]? := by
        rw [restoreBinding]
        by_cases same : binding.name = name
        · subst same
          cases shadowed[binding.name]? <;> simp
        · cases shadowed[binding.name]? <;>
            simp [Std.ExtTreeMap.getElem?_insert, Std.ExtTreeMap.getElem?_erase, same]
      rw [restore, List.foldl_cons, ← restore, induction, first, List.any_cons]
      by_cases same : binding.name = name <;> simp [same]

/-- An arm leaves the map as it found it. -/
theorem restore_allocateAll (namedValues : NamedValues) (bindings : List DeclNode) :
    restore namedValues bindings (bindings.foldl allocate namedValues) = namedValues := by
  apply Std.ExtTreeMap.ext_getElem?
  intro name
  rw [getElem?_restore]
  split
  · rfl
  · rename_i unbound
    have none : bindings.filter (fun decl => decl.name == name) = [] := by
      simpa [List.filter_eq_nil_iff] using unbound
    rw [getElem?_allocateAll, lastNamed, none]
    rfl

/-- Every selection made in a statement is the innermost binding in scope, and
the map is the same after the statement as before. -/
def StmtSelects (function : Function) (stmt : Stmt) : Prop :=
  ∀ (enclosing : List CaseArm) (namedValues : NamedValues),
    Holds namedValues (function.formals ++ function.declarations ++
      enclosing.flatMap CaseArm.getBindings) →
    selectStmt namedValues stmt = (namedValues,
      (stmt.occurrences enclosing).map (lexicalSelection function))

theorem selectExpr_eq {function : Function} {enclosing : List CaseArm}
    {namedValues : NamedValues}
    (holds : Holds namedValues (function.formals ++ function.declarations ++
      enclosing.flatMap CaseArm.getBindings)) (expr : Expr) :
    selectExpr namedValues expr =
      (expr.occurrences enclosing).map (lexicalSelection function) := by
  rw [selectExpr, Expr.occurrences, List.map_map]
  apply List.map_congr_left
  intro use _
  rw [holds]
  rfl

theorem selectStmts_eq {function : Function} {stmts : List Stmt}
    (each : ∀ stmt ∈ stmts, StmtSelects function stmt) {enclosing : List CaseArm}
    {namedValues : NamedValues}
    (holds : Holds namedValues (function.formals ++ function.declarations ++
      enclosing.flatMap CaseArm.getBindings)) :
    selectStmts namedValues stmts = (namedValues,
      (Stmt.occurrencesOf enclosing stmts).map (lexicalSelection function)) := by
  induction stmts with
  | nil =>
      rw [selectStmts, Stmt.occurrencesOf]
      rfl
  | cons stmt stmts induction =>
      have first := each stmt List.mem_cons_self enclosing namedValues holds
      have rest := induction fun other member => each other (List.mem_cons_of_mem _ member)
      rw [selectStmts, first]
      dsimp only
      rw [rest, Stmt.occurrencesOf, List.map_append]

/-- On the way into an arm its bindings come to those in scope. -/
theorem Holds.enterArm {function : Function} {enclosing : List CaseArm} {namedValues : NamedValues}
    (holds : Holds namedValues (function.formals ++ function.declarations ++
      enclosing.flatMap CaseArm.getBindings)) (info : NodeInfo) (tag : String)
    (patterns : List Pattern) (body : Stmt) :
    Holds (namedValues.emitPatternBinds patterns) (function.formals ++ function.declarations ++
      (enclosing ++ [CaseArm.mk info tag patterns body]).flatMap CaseArm.getBindings) := by
  have inside := holds.allocateAll (Pattern.collectAllBindings patterns)
  rw [NamedValues.emitPatternBinds_eq, List.flatMap_append, ← List.append_assoc, List.flatMap_cons,
    List.flatMap_nil, List.append_nil]
  exact inside

theorem selectArm_eq {function : Function} {arm : CaseArm}
    (bodySelects : StmtSelects function arm.getBody) {enclosing : List CaseArm}
    {namedValues : NamedValues}
    (holds : Holds namedValues (function.formals ++ function.declarations ++
      enclosing.flatMap CaseArm.getBindings)) :
    selectArm namedValues arm = (namedValues,
      (arm.occurrences enclosing).map (lexicalSelection function)) := by
  cases arm with
  | mk info tag patterns body =>
      have inBody := bodySelects _ _ (holds.enterArm info tag patterns body)
      dsimp only [CaseArm.getBody] at inBody
      rw [selectArm, inBody]
      dsimp only
      rw [NamedValues.emitPatternBinds_eq, restore_allocateAll, CaseArm.occurrences]

theorem selectArms_eq {function : Function} {arms : List CaseArm}
    (each : ∀ arm ∈ arms, StmtSelects function arm.getBody) {enclosing : List CaseArm}
    {namedValues : NamedValues}
    (holds : Holds namedValues (function.formals ++ function.declarations ++
      enclosing.flatMap CaseArm.getBindings)) :
    selectArms namedValues arms = (namedValues,
      (CaseArm.occurrencesOf enclosing arms).map (lexicalSelection function)) := by
  induction arms with
  | nil =>
      rw [selectArms, CaseArm.occurrencesOf]
      rfl
  | cons arm arms induction =>
      have first := selectArm_eq (each arm List.mem_cons_self) holds
      have rest := induction fun other member => each other (List.mem_cons_of_mem _ member)
      rw [selectArms, first]
      dsimp only
      rw [rest, CaseArm.occurrencesOf, List.map_append]

theorem stmtSelects (function : Function) (stmt : Stmt) : StmtSelects function stmt := by
  induction stmt with
  | assignStmt info lhs rhs =>
      intro enclosing namedValues holds
      rw [selectStmt, selectExpr_eq holds, selectExpr_eq holds, Stmt.occurrences, List.map_append]
  | blockStmt info stmts each =>
      intro enclosing namedValues holds
      rw [selectStmt, selectStmts_eq each holds, Stmt.occurrences]
  | whileStmt info condition body bodySelects =>
      intro enclosing namedValues holds
      rw [selectStmt, bodySelects enclosing namedValues holds, selectExpr_eq holds,
        Stmt.occurrences, List.map_append]
  | ifStmt info condition thenStmt elseStmt thenSelects elseSelects =>
      intro enclosing namedValues holds
      cases elseStmt with
      | none =>
          rw [selectStmt, thenSelects enclosing namedValues holds, selectExpr_eq holds,
            Stmt.occurrences, List.map_append]
      | some elseStmt =>
          rw [selectStmt, thenSelects enclosing namedValues holds]
          dsimp only
          rw [elseSelects elseStmt rfl enclosing namedValues holds, selectExpr_eq holds,
            Stmt.occurrences, List.map_append, List.map_append]
  | outputStmt info arg | errorStmt info arg =>
      intro enclosing namedValues holds
      rw [selectStmt, selectExpr_eq holds, Stmt.occurrences]
  | caseStmt info caseExpr arms each =>
      intro enclosing namedValues holds
      rw [selectStmt, selectArms_eq each holds, selectExpr_eq holds, Stmt.occurrences,
        List.map_append]

/-- Generated code uses the slot of the innermost binding. -/
theorem selectFunction_eq (function : Function) :
    selectFunction function = function.occurrences.map (lexicalSelection function) := by
  have entry : Holds ((function.formals ++ function.declarations).foldl allocate ∅)
      (function.formals ++ function.declarations ++
        ([] : List CaseArm).flatMap CaseArm.getBindings) := by
    rw [List.flatMap_nil, List.append_nil, ← List.nil_append (_ ++ _)]
    apply Holds.allocateAll
    exact fun _ => Std.ExtTreeMap.getElem?_empty
  rw [selectFunction, selectStmts_eq (fun stmt _ => stmtSelects function stmt) entry]
  dsimp only
  rw [selectExpr_eq entry, Function.occurrences, List.map_append]

end CodeGenVisitor

/-! ## The exact condition -/

/-- The symbol table and code generation take every variable for its innermost
binding. -/
structure LexicallyResolved (symbols : SymbolTable) (function : Function) : Prop where
  declared : ∀ occurrence ∈ function.occurrences, symbols.getFunction occurrence.name = none →
    ∃ decl, function.innermost occurrence = some decl ∧
      symbols.getLocal occurrence.name function.decl = some decl
  stored : ∀ selection ∈ CodeGenVisitor.selectFunction function,
    symbols.getFunction selection.name = none →
      ∃ decl, selection.storage = some decl ∧
        symbols.getLocal selection.name function.decl = some decl

theorem innermost_eq (function : Function) (occurrence : Occurrence) :
    function.innermost occurrence =
      ((occurrence.enclosing.filter fun arm => arm.binds occurrence.name).getLast?.bind fun arm =>
        lastNamed occurrence.name arm.getBindings).or
          (lastNamed occurrence.name (function.formals ++ function.declarations)) := by
  rw [Function.innermost, Function.scopeOf, lastNamed_append, lastNamed_flatMap_getBindings]

theorem lastNamed_variables (function : Function) (name : String) :
    lastNamed name function.variables =
      ((function.lastArmBinding name).bind fun arm => lastNamed name arm.getBindings).or
        (lastNamed name (function.formals ++ function.declarations)) := by
  rw [Function.variables, lastNamed_append, lastNamed_flatMap_getBindings]
  rfl

/-- In a list without repetitions a sublist that keeps the last element ends in it. -/
theorem getLast?_of_sublist {α : Type*} {inner outer : List α} (sublist : inner.Sublist outer)
    (distinct : outer.Nodup) {last : α} (ends : outer.getLast? = some last)
    (member : last ∈ inner) : inner.getLast? = some last := by
  rcases List.getLast?_eq_some_iff.mp ends with ⟨front, rfl⟩
  rcases List.sublist_append_iff.mp sublist with ⟨early, late, rfl, earlySublist, lateSublist⟩
  rcases List.sublist_singleton.mp lateSublist with rfl | rfl
  · rw [List.append_nil] at member
    have apart := List.disjoint_of_nodup_append distinct
    exact absurd List.mem_cons_self (apart (earlySublist.subset member))
  · exact List.getLast?_concat

theorem Program.NodesDistinct.arms_nodup {program : Program} (distinct : program.NodesDistinct)
    {function : Function} (member : function ∈ program.functions) : function.allArms.Nodup := by
  have ids := (List.nodup_flatMap.mp distinct.arms).1 function member
  exact List.Nodup.of_map _ ids

/-- A declaration belongs to one arm only. -/
theorem Program.NodesDistinct.arm_eq {program : Program} (distinct : program.NodesDistinct)
    {function : Function} (member : function ∈ program.functions) {arm other : CaseArm}
    (armMem : arm ∈ function.allArms) (otherMem : other ∈ function.allArms) {decl : DeclNode}
    (bound : decl ∈ arm.getBindings) (otherBound : decl ∈ other.getBindings) : arm = other := by
  have binders := (List.nodup_append.mp (distinct.variablesDistinct function member)).2.1
  have apart := (List.nodup_flatMap.mp binders).2
  have symmetric : Std.Symm (Function.onFun List.Disjoint CaseArm.getBindings) :=
    ⟨fun _ _ disjoint => List.Disjoint.symm disjoint⟩
  by_contra different
  exact apart.forall armMem otherMem different bound otherBound

/-- Inside the last arm that binds its name an occurrence means that arm. -/
theorem innermost_of_enclosing {program : Program} (distinct : program.NodesDistinct)
    {function : Function} (member : function ∈ program.functions) {occurrence : Occurrence}
    (occurs : occurrence ∈ function.occurrences)
    (inside : ∀ arm, function.lastArmBinding occurrence.name = some arm →
      arm ∈ occurrence.enclosing) :
    function.innermost occurrence = lastNamed occurrence.name function.variables := by
  rw [innermost_eq, lastNamed_variables]
  have sublist := (function.enclosing_sublist occurs).filter fun arm => arm.binds occurrence.name
  have same : (occurrence.enclosing.filter fun arm => arm.binds occurrence.name).getLast? =
      function.lastArmBinding occurrence.name := by
    cases last : function.lastArmBinding occurrence.name with
    | none =>
        rw [Function.lastArmBinding, List.getLast?_eq_none_iff] at last
        rw [last, List.sublist_nil] at sublist
        rw [sublist]
        rfl
    | some arm =>
        have binds := (List.mem_filter.mp (List.mem_of_getLast? last)).2
        apply getLast?_of_sublist sublist ((distinct.arms_nodup member).filter _) last
        exact List.mem_filter.mpr ⟨inside arm last, binds⟩
  rw [same]

/-- Outside of it the symbol table has the wrong declaration. -/
theorem innermost_ne_of_not_enclosing {program : Program} (distinct : program.NodesDistinct)
    {function : Function} (member : function ∈ program.functions) {occurrence : Occurrence}
    (occurs : occurrence ∈ function.occurrences) {arm : CaseArm}
    (last : function.lastArmBinding occurrence.name = some arm)
    (outside : arm ∉ occurrence.enclosing) {decl : DeclNode}
    (innermost : function.innermost occurrence = some decl) :
    lastNamed occurrence.name function.variables ≠ some decl := by
  intro stored
  have armMem := List.mem_filter.mp (List.mem_of_getLast? last)
  rcases isSome_lastNamed_of_binds armMem.2 with ⟨binder, bound⟩
  rw [lastNamed_variables, last, Option.bind_some, bound, Option.some_or] at stored
  cases stored
  have binderMem := lastNamed_mem bound
  rcases List.mem_append.mp (lastNamed_mem innermost) with early | enclosed
  · have apart := List.disjoint_of_nodup_append (distinct.variablesDistinct function member)
    exact apart early (List.mem_flatMap.mpr ⟨arm, armMem.1, binderMem⟩)
  · rcases List.mem_flatMap.mp enclosed with ⟨other, otherMem, otherBound⟩
    have otherArm := (function.enclosing_sublist occurs).subset otherMem
    have same := distinct.arm_eq member armMem.1 otherArm binderMem otherBound
    exact outside (same ▸ otherMem)

/-- An accepted function resolves its names lexically exactly when no variable
that some arm binds occurs outside the last arm that binds it. -/
theorem lexicallyResolved_iff {program : Program} (distinct : program.NodesDistinct)
    {symbols : SymbolTable} (built : SymbolTable.build program = .ok symbols) :
    (∀ function ∈ program.functions, LexicallyResolved symbols function) ↔
      ∀ function ∈ program.functions, ∀ occurrence ∈ function.occurrences,
        symbols.getFunction occurrence.name = none →
          ∀ arm, function.lastArmBinding occurrence.name = some arm →
            arm ∈ occurrence.enclosing := by
  constructor
  · intro resolved function member occurrence occurs notFunction arm last
    by_contra outside
    rcases (resolved function member).declared occurrence occurs notFunction with
      ⟨decl, innermost, stored⟩
    rw [(SymbolTable.build_getLocal distinct built member).1] at stored
    exact innermost_ne_of_not_enclosing distinct member occurs last outside innermost stored
  · intro inside function member
    rcases SymbolTable.build_getLocal distinct built member with ⟨lookup, known⟩
    have declared : ∀ occurrence ∈ function.occurrences,
        symbols.getFunction occurrence.name = none →
          ∃ decl, function.innermost occurrence = some decl ∧
            symbols.getLocal occurrence.name function.decl = some decl := by
      intro occurrence occurs notFunction
      rcases Option.isSome_iff_exists.mp (known occurrence occurs notFunction) with ⟨decl, found⟩
      refine ⟨decl, ?_, ?_⟩
      · rw [← found]
        exact innermost_of_enclosing distinct member occurs
          (inside function member occurrence occurs notFunction)
      · rw [lookup]
        exact found
    refine ⟨declared, ?_⟩
    rw [CodeGenVisitor.selectFunction_eq]
    intro selection selected notFunction
    rcases List.mem_map.mp selected with ⟨occurrence, occurs, rfl⟩
    exact declared occurrence occurs notFunction

/-! ## A binder used after its arm -/

namespace BinderAfterArm

def binderV : DeclNode := { id := 6, name := "v" }

/-- `main() { var o; o = N; case o of { S(v) -> output v; N -> output 0; } return v; }` -/
def main : Function where
  decl := { id := 0, name := "main" }
  formals := []
  declarations := [{ id := 1, name := "o" }]
  stmts := [
    .assignStmt { id := 2 } (.varExpr { id := 3 } "o") (.sumCtorExpr { id := 4 } "N" []),
    .caseStmt { id := 5 } (.varExpr { id := 7 } "o") [
      .mk { id := 8 } "S" [.var { id := 9 } binderV]
        (.outputStmt { id := 10 } (.varExpr { id := 11 } "v")),
      .mk { id := 12 } "N" [] (.outputStmt { id := 13 } (.numExpr { id := 14 } 0))]]
  returnInfo := { id := 15 }
  returnArg := .varExpr { id := 16 } "v"

/-- `type O = S(x) | N;` and `main`. -/
def program : Program where
  typedecls := [⟨"O", [⟨"S", [{ id := 17, name := "x" }], 0⟩, ⟨"N", [], 0⟩], 0⟩]
  functions := [main]

theorem program_distinct : program.NodesDistinct :=
  ⟨by decide, by decide, by decide⟩

theorem program_built : ∃ symbols, SymbolTable.build program = .ok symbols ∧
    symbols.getFunction "v" = none := by
  have holds : (match SymbolTable.build program with
      | .error _ => false
      | .ok symbols => (symbols.getFunction "v").isNone) = true := by
    decide +kernel
  split at holds
  · cases holds
  · rename_i symbols built
    exact ⟨symbols, built, Option.isNone_iff_eq_none.mp holds⟩

/-- `return v` is accepted, although no binding of `v` encloses it. -/
theorem accepted_outOfScope : ∃ symbols, SymbolTable.build program = .ok symbols ∧
    program.NodesDistinct ∧ ¬ ∀ function ∈ program.functions, LexicallyResolved symbols function := by
  rcases program_built with ⟨symbols, built, notFunction⟩
  refine ⟨symbols, built, program_distinct, ?_⟩
  intro resolved
  have occurs : (⟨{ id := 16 }, "v", []⟩ : Occurrence) ∈ main.occurrences := by
    rw [Function.occurrences]
    apply List.mem_append_right
    exact List.mem_singleton_self _
  rcases (resolved main List.mem_cons_self).declared _ occurs notFunction with
    ⟨decl, innermost, _⟩
  have unbound : main.innermost ⟨{ id := 16 }, "v", []⟩ = none := by decide
  rw [unbound] at innermost
  cases innermost

theorem binderAfterArm_iff : ∃ symbols, SymbolTable.build program = .ok symbols ∧
    ((∀ function ∈ program.functions, LexicallyResolved symbols function) ↔
      ∀ function ∈ program.functions, ∀ occurrence ∈ function.occurrences,
        symbols.getFunction occurrence.name = none →
          ∀ arm, function.lastArmBinding occurrence.name = some arm →
            arm ∈ occurrence.enclosing) := by
  rcases program_built with ⟨symbols, built, _⟩
  exact ⟨symbols, built, lexicallyResolved_iff program_distinct built⟩

end BinderAfterArm

end Topc
