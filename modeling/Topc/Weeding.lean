import Topc.Errors

/-! # Weeding

Checks of the tree that need no symbols or types. Each of them is a traversal
that looks at a node after its children. -/

namespace Topc

/-- A node the weeding passes look at. -/
inductive AstNode where
  | expr (expr : Expr)
  | stmt (stmt : Stmt)

mutual
/-- The expressions in an expression, children first. -/
def Expr.postOrder : Expr → List AstNode
  | .numExpr info value => [.expr (.numExpr info value)]
  | .varExpr info name => [.expr (.varExpr info name)]
  | .inputExpr info => [.expr (.inputExpr info)]
  | .binaryExpr info op left right =>
      left.postOrder ++ right.postOrder ++ [.expr (.binaryExpr info op left right)]
  | .funAppExpr info function actuals =>
      function.postOrder ++ Expr.postOrderOf actuals
        ++ [.expr (.funAppExpr info function actuals)]
  | .allocExpr info initializer => initializer.postOrder ++ [.expr (.allocExpr info initializer)]
  | .borrowExpr info var => var.postOrder ++ [.expr (.borrowExpr info var)]
  | .deRefExpr info ptr => ptr.postOrder ++ [.expr (.deRefExpr info ptr)]
  | .sumCtorExpr info tag args =>
      Expr.postOrderOf args ++ [.expr (.sumCtorExpr info tag args)]

def Expr.postOrderOf : List Expr → List AstNode
  | [] => []
  | expr :: exprs => expr.postOrder ++ Expr.postOrderOf exprs
end

mutual
/-- The nodes in a statement, children first. -/
def Stmt.postOrder : Stmt → List AstNode
  | .assignStmt info lhs rhs =>
      lhs.postOrder ++ rhs.postOrder ++ [.stmt (.assignStmt info lhs rhs)]
  | .blockStmt info stmts => Stmt.postOrderOf stmts ++ [.stmt (.blockStmt info stmts)]
  | .whileStmt info condition body =>
      condition.postOrder ++ body.postOrder ++ [.stmt (.whileStmt info condition body)]
  | .ifStmt info condition thenStmt elseStmt =>
      condition.postOrder ++ thenStmt.postOrder ++ Stmt.elsePostOrder elseStmt
        ++ [.stmt (.ifStmt info condition thenStmt elseStmt)]
  | .outputStmt info arg => arg.postOrder ++ [.stmt (.outputStmt info arg)]
  | .errorStmt info arg => arg.postOrder ++ [.stmt (.errorStmt info arg)]
  | .caseStmt info caseExpr arms =>
      caseExpr.postOrder ++ CaseArm.postOrderOf arms ++ [.stmt (.caseStmt info caseExpr arms)]

def Stmt.postOrderOf : List Stmt → List AstNode
  | [] => []
  | stmt :: stmts => stmt.postOrder ++ Stmt.postOrderOf stmts

def Stmt.elsePostOrder : Option Stmt → List AstNode
  | none => []
  | some stmt => stmt.postOrder

def CaseArm.postOrder : CaseArm → List AstNode
  | .mk _ _ _ body => body.postOrder

def CaseArm.postOrderOf : List CaseArm → List AstNode
  | [] => []
  | arm :: arms => arm.postOrder ++ CaseArm.postOrderOf arms
end

def Function.postOrder (function : Function) : List AstNode :=
  Stmt.postOrderOf function.stmts ++ function.returnArg.postOrder

def Program.postOrder (program : Program) : List AstNode :=
  program.functions.flatMap Function.postOrder

/-- The addresses of the expressions among the nodes. -/
def exprIds (nodes : List AstNode) : List NodeId :=
  nodes.filterMap fun node =>
    match node with
    | .expr expr => some expr.info.id
    | .stmt _ => none

/-! ### Nodes of nested expressions -/

/-- The nodes include those of each expression among them. -/
def ExprsClosed (nodes : List AstNode) : Prop :=
  ∀ inner, .expr inner ∈ nodes → inner.postOrder ⊆ nodes

theorem ExprsClosed.nil : ExprsClosed [] := nofun

theorem ExprsClosed.append {nodes others : List AstNode} (first : ExprsClosed nodes)
    (second : ExprsClosed others) : ExprsClosed (nodes ++ others) := by
  intro inner member
  rcases List.mem_append.mp member with left | right
  · exact fun node inside => List.mem_append_left _ (first inner left inside)
  · exact fun node inside => List.mem_append_right _ (second inner right inside)

theorem ExprsClosed.stmt {nodes : List AstNode} (closed : ExprsClosed nodes) (stmt : Stmt) :
    ExprsClosed (nodes ++ [.stmt stmt]) := by
  apply closed.append
  intro inner member
  cases List.mem_singleton.mp member

/-- An expression is the last of its nodes. -/
theorem Expr.closed_of_children {nodes : List AstNode} {expr : Expr} (closed : ExprsClosed nodes)
    (split : expr.postOrder = nodes ++ [.expr expr]) : ExprsClosed expr.postOrder := by
  intro inner member
  rw [split] at member
  rcases List.mem_append.mp member with inside | last
  · rw [split]
    exact fun node nodeMem => List.mem_append_left _ (closed inner inside nodeMem)
  · cases List.mem_singleton.mp last
    exact List.Subset.refl _

theorem Expr.postOrderOf_closed {exprs : List Expr}
    (each : ∀ expr ∈ exprs, ExprsClosed expr.postOrder) : ExprsClosed (Expr.postOrderOf exprs) := by
  induction exprs with
  | nil => exact .nil
  | cons expr exprs induction =>
      exact (each expr List.mem_cons_self).append
        (induction fun other member => each other (List.mem_cons_of_mem _ member))

theorem Expr.postOrder_closed (expr : Expr) : ExprsClosed expr.postOrder := by
  induction expr with
  | numExpr info value => exact Expr.closed_of_children .nil rfl
  | varExpr info name => exact Expr.closed_of_children .nil rfl
  | inputExpr info => exact Expr.closed_of_children .nil rfl
  | binaryExpr info op left right leftClosed rightClosed =>
      exact Expr.closed_of_children (leftClosed.append rightClosed) rfl
  | funAppExpr info function actuals functionClosed actualsClosed =>
      exact Expr.closed_of_children (functionClosed.append (Expr.postOrderOf_closed actualsClosed)) rfl
  | allocExpr info initializer closed => exact Expr.closed_of_children closed rfl
  | borrowExpr info var closed => exact Expr.closed_of_children closed rfl
  | deRefExpr info ptr closed => exact Expr.closed_of_children closed rfl
  | sumCtorExpr info tag args argsClosed =>
      exact Expr.closed_of_children (Expr.postOrderOf_closed argsClosed) rfl

theorem Stmt.postOrderOf_closed {stmts : List Stmt}
    (each : ∀ stmt ∈ stmts, ExprsClosed stmt.postOrder) : ExprsClosed (Stmt.postOrderOf stmts) := by
  induction stmts with
  | nil => exact .nil
  | cons stmt stmts induction =>
      exact (each stmt List.mem_cons_self).append
        (induction fun other member => each other (List.mem_cons_of_mem _ member))

theorem CaseArm.postOrderOf_closed {arms : List CaseArm}
    (each : ∀ arm ∈ arms, ExprsClosed arm.getBody.postOrder) :
    ExprsClosed (CaseArm.postOrderOf arms) := by
  induction arms with
  | nil => exact .nil
  | cons arm arms induction =>
      have first := each arm List.mem_cons_self
      cases arm
      exact first.append (induction fun other member => each other (List.mem_cons_of_mem _ member))

theorem Stmt.postOrder_closed (stmt : Stmt) : ExprsClosed stmt.postOrder := by
  induction stmt with
  | assignStmt info lhs rhs => exact (lhs.postOrder_closed.append rhs.postOrder_closed).stmt _
  | blockStmt info stmts each => exact (Stmt.postOrderOf_closed each).stmt _
  | whileStmt info condition body bodyClosed =>
      exact (condition.postOrder_closed.append bodyClosed).stmt _
  | ifStmt info condition thenStmt elseStmt thenClosed elseClosed =>
      have first := condition.postOrder_closed.append thenClosed
      cases elseStmt with
      | none => exact (first.append .nil).stmt _
      | some elseBody => exact (first.append (elseClosed elseBody rfl)).stmt _
  | outputStmt info arg => exact arg.postOrder_closed.stmt _
  | errorStmt info arg => exact arg.postOrder_closed.stmt _
  | caseStmt info caseExpr arms each =>
      exact (caseExpr.postOrder_closed.append (CaseArm.postOrderOf_closed each)).stmt _

theorem Function.postOrder_closed (function : Function) : ExprsClosed function.postOrder :=
  (Stmt.postOrderOf_closed fun stmt _ => stmt.postOrder_closed).append
    function.returnArg.postOrder_closed

theorem Expr.self_mem_postOrder (expr : Expr) : .expr expr ∈ expr.postOrder := by
  cases expr <;> simp [Expr.postOrder]

theorem Expr.postOrder_subset_of_mem {expr : Expr} {exprs : List Expr} (member : expr ∈ exprs) :
    expr.postOrder ⊆ Expr.postOrderOf exprs := by
  induction exprs with
  | nil => cases member
  | cons head exprs induction =>
      rw [Expr.postOrderOf]
      rcases List.mem_cons.mp member with rfl | later
      · exact List.subset_append_left _ _
      · exact List.Subset.trans (induction later) (List.subset_append_right _ _)

/-- The actuals of a call are among the nodes of its function. -/
theorem Function.actual_mem_postOrder {function : Function} {info : NodeInfo} {callee actual : Expr}
    {actuals : List Expr} (call : .expr (.funAppExpr info callee actuals) ∈ function.postOrder)
    (member : actual ∈ actuals) : .expr actual ∈ function.postOrder := by
  apply function.postOrder_closed _ call
  rw [Expr.postOrder]
  apply List.mem_append_left
  apply List.mem_append_right
  exact Expr.postOrder_subset_of_mem member actual.self_mem_postOrder

/-- Every constructor with the number of its payloads and its type, the last
declaration of a tag first. -/
def Program.constructors (program : Program) : List (String × Nat × String) :=
  (program.typedecls.flatMap fun decl =>
    decl.variants.map fun variant => (variant.tag, variant.params.length, decl.name)).reverse

/-! ## Targets of assignments and borrows -/

namespace CheckAssignable

def isAssignable : Expr → Bool
  | .varExpr .. => true
  | _ => false

def endVisit : AstNode → Except CompileError Unit
  | .stmt (.assignStmt info lhs _) =>
      if isAssignable lhs || lhs.isDeRef then .ok ()
      else .error (.semantic s!"Assignment error on line {info.line}: {lhs.print} not an l-value\n")
  | .expr (.borrowExpr info var) =>
      if isAssignable var then .ok ()
      else .error (.semantic s!"Address of error on line {info.line}: {var.print} not an l-value\n")
  | _ => .ok ()

def check (program : Program) : Except CompileError Unit :=
  program.postOrder.forM endVisit

/-- Of what an accepted program consists: each `&` is applied to a variable, and
each assignment goes to a variable or through a reference. -/
structure Assignable (nodes : List AstNode) : Prop where
  borrows : ∀ info var, .expr (.borrowExpr info var) ∈ nodes → isAssignable var = true
  assigns : ∀ info lhs rhs, .stmt (.assignStmt info lhs rhs) ∈ nodes →
    isAssignable lhs = true ∨ lhs.isDeRef = true

theorem Assignable.mono {nodes others : List AstNode} (assignable : Assignable nodes)
    (subset : others ⊆ nodes) : Assignable others where
  borrows info var member := assignable.borrows info var (subset member)
  assigns info lhs rhs member := assignable.assigns info lhs rhs (subset member)

theorem check_assignable {program : Program} (checked : check program = .ok ()) :
    Assignable program.postOrder := by
  have visited := forM_eq_ok.mp checked
  constructor
  · intro info var member
    have passed := visited _ member
    simp only [endVisit] at passed
    by_contra other
    rw [if_neg other] at passed
    cases passed
  · intro info lhs rhs member
    have passed := visited _ member
    simp only [endVisit] at passed
    by_contra neither
    rw [if_neg (by simpa using neither)] at passed
    cases passed

end CheckAssignable

/-! ## Completeness of case statements -/

namespace CheckCaseCompleteness

def isIrrefutablePattern : Pattern → Bool
  | .var .. | .wildcard _ => true
  | .ctor .. => false

def allIrrefutablePayload (arm : CaseArm) : Bool :=
  arm.getPatterns.all isIrrefutablePattern

mutual
def patternsIdentical : Pattern → Pattern → Bool
  | .wildcard _, .wildcard _ => true
  | .var _ decl, .var _ decl' => decl.name == decl'.name
  | .ctor _ tag subPatterns, .ctor _ tag' subPatterns' =>
      tag == tag' && subPatternsIdentical subPatterns subPatterns'
  | _, _ => false

def subPatternsIdentical : List Pattern → List Pattern → Bool
  | [], [] => true
  | pattern :: patterns, pattern' :: patterns' =>
      patternsIdentical pattern pattern' && subPatternsIdentical patterns patterns'
  | _, _ => false
end

def allPatternsIdentical (arm other : CaseArm) : Bool :=
  subPatternsIdentical arm.getPatterns other.getPatterns

/-- The arms before this one that have its constructor. -/
def sameTag (seen : List CaseArm) (arm : CaseArm) : List CaseArm :=
  seen.filter fun previous => previous.getTag == arm.getTag

section

variable (constructors : List (String × Nat × String))

def checkArm (seen : List CaseArm) (arm : CaseArm) : Except CompileError Unit :=
  match constructors.lookup arm.getTag with
  | none =>
      .error (.semantic s!"Case error on line {arm.getLine}: unknown constructor '{arm.getTag}' in case arm\n")
  | some (arity, _) =>
      if arm.getPatterns.length ≠ arity then
        .error (.semantic s!"Case error on line {arm.getLine}: constructor '{arm.getTag}' expects {arity} binding(s) but arm provides {arm.getPatterns.length}\n")
      else if (sameTag seen arm).any fun previous =>
          allIrrefutablePayload previous || allPatternsIdentical previous arm then
        .error (.semantic s!"Case error on line {arm.getLine}: unreachable case arm — constructor '{arm.getTag}' is already fully covered by an earlier arm\n")
      else .ok ()

def checkArms (seen : List CaseArm) : List CaseArm → Except CompileError Unit
  | [] => .ok ()
  | arm :: arms => do
      checkArm constructors seen arm
      checkArms (seen ++ [arm]) arms

/-- Every constructor of the type of the first arm has an arm, and every arm a
constructor of that type. The constructors are met in the order of their tags. -/
def checkCoverage (line : Nat) (arms : List CaseArm) (typeName : String) :
    Except CompileError Unit :=
  let covers (tag : String) := arms.any fun arm => arm.getTag == tag
  let ofType := (Std.ExtTreeMap.ofList constructors.reverse).toList.filter fun entry =>
    entry.2.2 == typeName
  match ofType.find? fun entry => !covers entry.1 with
  | some (tag, _) =>
      .error (.semantic s!"Case error on line {line}: case is not exhaustive — constructor '{tag}' of type '{typeName}' is not covered\n")
  | none =>
      let used := (Std.ExtTreeSet.ofList (arms.map CaseArm.getTag)).toList
      match used.find? fun tag => ((constructors.lookup tag).any fun entry => entry.2 != typeName) with
      | some tag =>
          let owner := ((constructors.lookup tag).map Prod.snd).getD ""
          .error (.semantic s!"Case error: arm constructor '{tag}' belongs to type '{owner}' but other arms use type '{typeName}'\n")
      | none => .ok ()

def endVisitCase (info : NodeInfo) (arms : List CaseArm) : Except CompileError Unit := do
  checkArms constructors [] arms
  match arms with
  | [] => .error (.semantic s!"Case error on line {info.line}: case statement has no arms\n")
  | first :: _ =>
      match constructors.lookup first.getTag with
      | none => .error (.internal "map::at")
      | some (_, typeName) => checkCoverage constructors info.line arms typeName

def endVisitSumCtor (info : NodeInfo) (tag : String) (args : List Expr) :
    Except CompileError Unit :=
  match constructors.lookup tag with
  | none =>
      .error (.semantic s!"Constructor error on line {info.line}: unknown constructor '{tag}' in constructor expression\n")
  | some (arity, _) =>
      if args.length ≠ arity then
        .error (.semantic s!"Constructor error on line {info.line}: constructor '{tag}' expects {arity} argument(s) but expression provides {args.length}\n")
      else .ok ()

def endVisit : AstNode → Except CompileError Unit
  | .expr (.sumCtorExpr info tag args) => endVisitSumCtor constructors info tag args
  | .stmt (.caseStmt info _ arms) => endVisitCase constructors info arms
  | _ => .ok ()

end

def check (program : Program) : Except CompileError Unit :=
  program.postOrder.forM (endVisit program.constructors)

/-! ### What an accepted case statement looks like -/

theorem checkArms_pairwise {constructors : List (String × Nat × String)} {arms : List CaseArm} :
    ∀ {seen : List CaseArm}, checkArms constructors seen arms = .ok () →
      (∀ previous ∈ seen, ∀ arm ∈ arms, previous.getTag = arm.getTag →
        allPatternsIdentical previous arm = false) ∧
      arms.Pairwise fun previous arm => previous.getTag = arm.getTag →
        allPatternsIdentical previous arm = false := by
  induction arms with
  | nil => exact fun _ => ⟨nofun, List.Pairwise.nil⟩
  | cons arm arms induction =>
      intro seen checked
      rw [checkArms, bind_eq_ok] at checked
      rcases checked with ⟨_, first, rest⟩
      rcases induction rest with ⟨before, pairwise⟩
      have fresh : ∀ previous ∈ seen, previous.getTag = arm.getTag →
          allPatternsIdentical previous arm = false := by
        intro previous member same
        unfold checkArm at first
        split at first
        · cases first
        · split at first
          · cases first
          · split at first
            · cases first
            · rename_i allowed
              have passed := allowed
              simp only [List.any_eq_true, not_exists, not_and, Bool.or_eq_true, not_or] at passed
              have differs := passed previous (List.mem_filter.mpr ⟨member, by simp [same]⟩)
              exact Bool.eq_false_iff.mpr differs.2
      constructor
      · intro previous member other otherMem
        rcases List.mem_cons.mp otherMem with rfl | later
        · exact fresh previous member
        · exact before previous (List.mem_append_left _ member) other later
      · rw [List.pairwise_cons]
        constructor
        · intro other otherMem
          exact before arm (List.mem_append_right _ List.mem_cons_self) other otherMem
        · exact pairwise

/-- The arms of an accepted case statement differ in constructor or patterns. -/
theorem check_caseStmt {program : Program} (checked : check program = .ok ())
    {info : NodeInfo} {caseExpr : Expr} {arms : List CaseArm}
    (member : AstNode.stmt (.caseStmt info caseExpr arms) ∈ program.postOrder) :
    arms ≠ [] ∧ arms.Pairwise fun previous arm => previous.getTag = arm.getTag →
      allPatternsIdentical previous arm = false := by
  have visited := forM_eq_ok.mp checked _ member
  unfold endVisit endVisitCase at visited
  rw [bind_eq_ok] at visited
  rcases visited with ⟨_, armsChecked, covered⟩
  refine ⟨?_, (checkArms_pairwise armsChecked).2⟩
  rintro rfl
  cases covered

end CheckCaseCompleteness

/-! ## Names of sum types and constructors -/

namespace CheckSumTypeNames

/-- The type names met so far, and the type of each constructor. -/
structure State where
  typeNames : List String
  ctorToType : List (String × String)

def checkVariant (typeName : String) (ctorToType : List (String × String)) (variant : SumVariant) :
    Except CompileError (List (String × String)) :=
  match ctorToType.lookup variant.tag with
  | some owner =>
      .error (.semantic s!"Constructor name error on line {variant.line}: constructor '{variant.tag}' is already declared in type '{owner}'\n")
  | none => .ok ((variant.tag, typeName) :: ctorToType)

def checkDecl (state : State) (decl : SumTypeDecl) : Except CompileError State :=
  if decl.name ∈ state.typeNames then
    .error (.semantic s!"Type name error on line {decl.line}: duplicate sum type name '{decl.name}'\n")
  else do
    let ctorToType ← decl.variants.foldlM (checkVariant decl.name) state.ctorToType
    return ⟨decl.name :: state.typeNames, ctorToType⟩

def check (program : Program) : Except CompileError Unit := do
  let _ ← program.typedecls.foldlM checkDecl ⟨[], []⟩

/-! ### What is unique in an accepted program -/

theorem checkVariants_nodup {typeName : String} {variants : List SumVariant} :
    ∀ {before after : List (String × String)},
      variants.foldlM (checkVariant typeName) before = .ok after →
      (before.map Prod.fst).Nodup →
        after.map Prod.fst = (variants.map SumVariant.tag).reverse ++ before.map Prod.fst ∧
          (after.map Prod.fst).Nodup := by
  induction variants with
  | nil =>
      intro before after checked distinct
      cases checked
      exact ⟨rfl, distinct⟩
  | cons variant variants induction =>
      intro before after checked distinct
      rw [List.foldlM_cons, bind_eq_ok] at checked
      rcases checked with ⟨mid, first, rest⟩
      unfold checkVariant at first
      split at first
      · cases first
      · rename_i absent
        cases first
        have fresh : variant.tag ∉ before.map Prod.fst := by
          intro member
          rcases List.mem_map.mp member with ⟨entry, entryMem, same⟩
          rw [List.lookup_eq_none_iff] at absent
          exact absurd (absent entry entryMem) (by simp [same])
        rcases induction rest (List.nodup_cons.mpr ⟨fresh, distinct⟩) with ⟨tags, nodup⟩
        exact ⟨by simp [tags], nodup⟩

theorem checkDecls_nodup {decls : List SumTypeDecl} :
    ∀ {before after : State}, decls.foldlM checkDecl before = .ok after →
      before.typeNames.Nodup → (before.ctorToType.map Prod.fst).Nodup →
        (before.typeNames.reverse ++ decls.map SumTypeDecl.name).Nodup ∧
          ((before.ctorToType.map Prod.fst).reverse ++ decls.flatMap fun decl =>
            decl.variants.map SumVariant.tag).Nodup := by
  induction decls with
  | nil =>
      intro before after checked names tags
      simpa using ⟨names, tags⟩
  | cons decl decls induction =>
      intro before after checked names tags
      rw [List.foldlM_cons, bind_eq_ok] at checked
      rcases checked with ⟨mid, first, rest⟩
      unfold checkDecl at first
      split at first
      · cases first
      · rename_i fresh
        rw [bind_eq_ok] at first
        rcases first with ⟨ctorToType, variants, first⟩
        cases first
        rcases checkVariants_nodup variants tags with ⟨collected, distinct⟩
        rcases induction rest (List.nodup_cons.mpr ⟨fresh, names⟩) distinct with
          ⟨allNames, allTags⟩
        constructor
        · simpa using allNames
        · simpa [collected] using allTags

/-- Type names are unique, and so are the constructors of all types together. -/
theorem check_nodup {program : Program} (checked : check program = .ok ()) :
    (program.typedecls.map SumTypeDecl.name).Nodup ∧
      (program.typedecls.flatMap fun decl => decl.variants.map SumVariant.tag).Nodup := by
  rw [check, bind_eq_ok] at checked
  rcases checked with ⟨state, walked, _⟩
  have distinct := checkDecls_nodup walked List.nodup_nil List.nodup_nil
  simpa using distinct

end CheckSumTypeNames

/-! ## Nested patterns -/

namespace CheckPatternTypes

section

variable (constructors : List (String × Nat × String)) (line : Nat)

mutual
def checkPattern : Pattern → Except CompileError Unit
  | .var .. | .wildcard _ => .ok ()
  | .ctor _ tag subPatterns =>
      match constructors.lookup tag with
      | none =>
          .error (.semantic s!"Pattern error on line {line}: unknown constructor '{tag}' in nested pattern\n")
      | some (declArity, _) =>
          if subPatterns.length ≠ declArity then
            .error (.semantic s!"Pattern error on line {line}: constructor '{tag}' expects {declArity} pattern(s) but {subPatterns.length} provided in nested pattern\n")
          else checkPatterns subPatterns

def checkPatterns : List Pattern → Except CompileError Unit
  | [] => .ok ()
  | pattern :: patterns => do
      checkPattern pattern
      checkPatterns patterns
end

end

def endVisit (constructors : List (String × Nat × String)) : AstNode → Except CompileError Unit
  | .stmt (.caseStmt _ _ arms) =>
      arms.forM fun arm => checkPatterns constructors arm.getLine arm.getPatterns
  | _ => .ok ()

def check (program : Program) : Except CompileError Unit :=
  program.postOrder.forM (endVisit program.constructors)

end CheckPatternTypes

end Topc
