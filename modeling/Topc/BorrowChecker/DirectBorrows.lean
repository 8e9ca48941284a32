import Topc.BorrowChecker
import Topc.Weeding

/-! # Borrows as actuals

Before there are types one pass looks only at where `&` stands. It remembers the
borrows that are actuals of the calls it has come to. The later pass over the
positions has a rule of its own for the same, and the two agree. -/

namespace Topc

/-! ## Expressions in the order of the traversal -/

/-- An expression that is part of a statement. Some statements refuse a borrow as
such before the expression is visited. -/
structure VisitedOperand where
  line : Nat
  refused : Option String
  expr : Expr

mutual
def Stmt.operands : Stmt → List VisitedOperand
  | .assignStmt info lhs rhs => [⟨info.line, none, lhs⟩, ⟨info.line, none, rhs⟩]
  | .blockStmt _ stmts => Stmt.operandsOf stmts
  | .whileStmt info condition body => ⟨info.line, none, condition⟩ :: body.operands
  | .ifStmt info condition thenStmt elseStmt =>
      ⟨info.line, none, condition⟩ :: (thenStmt.operands ++ Stmt.elseOperands elseStmt)
  | .outputStmt info arg => [⟨info.line, some "cannot be the argument of 'output'", arg⟩]
  | .errorStmt info arg => [⟨info.line, some "cannot be the argument of 'error'", arg⟩]
  | .caseStmt info caseExpr arms => ⟨info.line, none, caseExpr⟩ :: CaseArm.operandsOf arms

def Stmt.operandsOf : List Stmt → List VisitedOperand
  | [] => []
  | stmt :: stmts => stmt.operands ++ Stmt.operandsOf stmts

def Stmt.elseOperands : Option Stmt → List VisitedOperand
  | none => []
  | some stmt => stmt.operands

def CaseArm.operands : CaseArm → List VisitedOperand
  | .mk _ _ _ body => body.operands

def CaseArm.operandsOf : List CaseArm → List VisitedOperand
  | [] => []
  | arm :: arms => arm.operands ++ CaseArm.operandsOf arms
end

def Function.operands (function : Function) : List VisitedOperand :=
  Stmt.operandsOf function.stmts
    ++ [⟨function.returnInfo.line, some "cannot appear in a 'return' statement",
      function.returnArg⟩]

def Program.operands (program : Program) : List VisitedOperand :=
  program.functions.flatMap Function.operands

namespace BorrowChecker

/-! ## The pass without types -/

section

variable (rules : RuleToggles)

def rejectPosition (line : Nat) (position : String) : Except CompileError Unit :=
  rules.reject "borrow-position" s!"Borrow error on line {line}: borrow expression {position}\n"

/-- A call approves its borrows before they are visited. -/
def approve (actuals : List Expr) (approvedBorrows : List NodeId) : List NodeId :=
  (actuals.filter Expr.isBorrow).map (fun actual => actual.info.id) ++ approvedBorrows

def visitBinary (info : NodeInfo) (left right : Expr) : Except CompileError Unit :=
  if left.isBorrow || right.isBorrow then
    rejectPosition rules info.line "cannot be used in arithmetic or relational expression"
  else .ok ()

def endVisitBorrow (info : NodeInfo) (approvedBorrows : List NodeId) : Except CompileError Unit :=
  if info.id ∈ approvedBorrows then .ok () else rejectNotArgument rules info

mutual
def visitExpr : Expr → List NodeId → Except CompileError (List NodeId)
  | .numExpr .., approvedBorrows | .varExpr .., approvedBorrows
  | .inputExpr .., approvedBorrows => .ok approvedBorrows
  | .binaryExpr info _ left right, approvedBorrows => do
      visitBinary rules info left right
      visitExpr right (← visitExpr left approvedBorrows)
  | .funAppExpr _ function actuals, approvedBorrows => do
      visitExprs actuals (← visitExpr function (approve actuals approvedBorrows))
  | .allocExpr _ initializer, approvedBorrows => visitExpr initializer approvedBorrows
  | .borrowExpr info var, approvedBorrows => do
      let approvedBorrows ← visitExpr var approvedBorrows
      endVisitBorrow rules info approvedBorrows
      return approvedBorrows
  | .deRefExpr _ ptr, approvedBorrows => visitExpr ptr approvedBorrows
  | .sumCtorExpr _ _ args, approvedBorrows => visitExprs args approvedBorrows

def visitExprs : List Expr → List NodeId → Except CompileError (List NodeId)
  | [], approvedBorrows => .ok approvedBorrows
  | expr :: exprs, approvedBorrows => do visitExprs exprs (← visitExpr expr approvedBorrows)
end

def visitOperand (approvedBorrows : List NodeId) (operand : VisitedOperand) :
    Except CompileError (List NodeId) := do
  match operand.refused with
  | some position => if operand.expr.isBorrow then rejectPosition rules operand.line position
  | none => .ok ()
  visitExpr rules operand.expr approvedBorrows

/-- `&x` only as a call argument. -/
def check (program : Program) : Except CompileError Unit := do
  let _ ← program.operands.foldlM (visitOperand rules) []

end

/-! ## Borrows that are passed -/

mutual
/-- Every `&` in the expression is an actual of a call. -/
def BorrowsPassed (isActual : Bool) : Expr → Prop
  | .numExpr .. | .varExpr .. | .inputExpr .. => True
  | .binaryExpr _ _ left right => BorrowsPassed false left ∧ BorrowsPassed false right
  | .funAppExpr _ function actuals => BorrowsPassed false function ∧ AllBorrowsPassed true actuals
  | .allocExpr _ initializer => BorrowsPassed false initializer
  | .borrowExpr _ var => isActual = true ∧ BorrowsPassed false var
  | .deRefExpr _ ptr => BorrowsPassed false ptr
  | .sumCtorExpr _ _ args => AllBorrowsPassed false args

def AllBorrowsPassed (isActual : Bool) : List Expr → Prop
  | [] => True
  | expr :: exprs => BorrowsPassed isActual expr ∧ AllBorrowsPassed isActual exprs
end

/-! ## What the pass remembers -/

section

variable {rules : RuleToggles} {approvedBorrows after : List NodeId}

theorem mem_approve {actuals : List Expr} {id : NodeId} :
    id ∈ approve actuals approvedBorrows ↔
      (∃ actual ∈ actuals, actual.isBorrow = true ∧ id = actual.info.id) ∨
        id ∈ approvedBorrows := by
  simp only [approve, List.mem_append, List.mem_map, List.mem_filter]
  apply or_congr_left
  constructor
  · rintro ⟨actual, ⟨member, isBorrow⟩, rfl⟩
    exact ⟨actual, member, isBorrow, rfl⟩
  · rintro ⟨actual, member, isBorrow, rfl⟩
    exact ⟨actual, ⟨member, isBorrow⟩, rfl⟩

theorem exprIds_append (nodes others : List AstNode) :
    exprIds (nodes ++ others) = exprIds nodes ++ exprIds others :=
  List.filterMap_append

theorem exprIds_last (nodes : List AstNode) (expr : Expr) :
    exprIds (nodes ++ [.expr expr]) = exprIds nodes ++ [expr.info.id] :=
  exprIds_append nodes [.expr expr]

theorem info_mem_exprIds (expr : Expr) : expr.info.id ∈ exprIds expr.postOrder := by
  rw [exprIds, List.mem_filterMap]
  exact ⟨.expr expr, expr.self_mem_postOrder, rfl⟩

/-- Visiting an expression approves nothing outside it. -/
def Frames (rules : RuleToggles) (expr : Expr) : Prop :=
  ∀ approvedBorrows after, visitExpr rules expr approvedBorrows = .ok after →
    ∀ id, id ∉ exprIds expr.postOrder → (id ∈ after ↔ id ∈ approvedBorrows)

theorem visitExprs_frames {exprs : List Expr} (each : ∀ expr ∈ exprs, Frames rules expr) :
    ∀ approvedBorrows after, visitExprs rules exprs approvedBorrows = .ok after →
      ∀ id, id ∉ exprIds (Expr.postOrderOf exprs) → (id ∈ after ↔ id ∈ approvedBorrows) := by
  induction exprs with
  | nil =>
      intro approvedBorrows after result id _
      cases result
      rfl
  | cons expr exprs induction =>
      intro approvedBorrows after result id outside
      rw [visitExprs, bind_eq_ok] at result
      rcases result with ⟨mid, first, rest⟩
      rw [Expr.postOrderOf, exprIds_append, List.mem_append, not_or] at outside
      have later := induction (fun other member => each other (List.mem_cons_of_mem _ member))
        mid after rest id outside.2
      exact later.trans (each expr List.mem_cons_self approvedBorrows mid first id outside.1)

theorem visitExpr_frames (expr : Expr) : Frames rules expr := by
  induction expr with
  | numExpr | varExpr | inputExpr =>
      intro approvedBorrows after result id _
      cases result
      rfl
  | binaryExpr info op left right leftFrames rightFrames =>
      intro approvedBorrows after result id outside
      rw [visitExpr, bind_eq_ok] at result
      rcases result with ⟨_, _, result⟩
      rw [bind_eq_ok] at result
      rcases result with ⟨mid, first, second⟩
      rw [Expr.postOrder, exprIds_last, exprIds_append, List.mem_append, List.mem_append, not_or,
        not_or] at outside
      exact (rightFrames mid after second id outside.1.2).trans
        (leftFrames approvedBorrows mid first id outside.1.1)
  | funAppExpr info function actuals functionFrames actualsFrame =>
      intro approvedBorrows after result id outside
      rw [visitExpr, bind_eq_ok] at result
      rcases result with ⟨mid, first, second⟩
      rw [Expr.postOrder, exprIds_last, exprIds_append, List.mem_append, List.mem_append, not_or,
        not_or] at outside
      rw [visitExprs_frames actualsFrame mid after second id outside.1.2,
        functionFrames _ mid first id outside.1.1, mem_approve]
      apply or_iff_right
      rintro ⟨actual, member, _, rfl⟩
      apply outside.1.2
      rw [exprIds, List.mem_filterMap]
      exact ⟨.expr actual, Expr.postOrder_subset_of_mem member actual.self_mem_postOrder, rfl⟩
  | allocExpr info initializer frames | deRefExpr info initializer frames =>
      intro approvedBorrows after result id outside
      rw [Expr.postOrder, exprIds_last, List.mem_append, not_or] at outside
      exact frames approvedBorrows after result id outside.1
  | borrowExpr info var frames =>
      intro approvedBorrows after result id outside
      rw [visitExpr, bind_eq_ok] at result
      rcases result with ⟨mid, first, result⟩
      rw [bind_eq_ok] at result
      rcases result with ⟨_, _, finished⟩
      cases finished
      rw [Expr.postOrder, exprIds_last, List.mem_append, not_or] at outside
      exact frames approvedBorrows after first id outside.1
  | sumCtorExpr info tag args argsFrame =>
      intro approvedBorrows after result id outside
      rw [Expr.postOrder, exprIds_last, List.mem_append, not_or] at outside
      exact visitExprs_frames argsFrame approvedBorrows after result id outside.1

end

/-! ## What the pass accepts -/

section

variable {isActual : Bool} {approvedBorrows : List NodeId}

/-- Of the nodes of the expression only a borrow that is an actual has been approved. -/
def Approves (isActual : Bool) (expr : Expr) (approvedBorrows : List NodeId) : Prop :=
  ∀ id ∈ exprIds expr.postOrder,
    (id ∈ approvedBorrows ↔ isActual = true ∧ expr.isBorrow = true ∧ id = expr.info.id)

theorem Approves.of_apart {expr : Expr}
    (apart : ∀ id ∈ exprIds expr.postOrder, id ∉ approvedBorrows) :
    Approves false expr approvedBorrows :=
  fun id inside => iff_of_false (apart id inside) fun impossible => by cases impossible.1

/-- The pass accepts an expression when its borrows are passed. -/
def Decides (expr : Expr) : Prop :=
  ∀ isActual approvedBorrows, (exprIds expr.postOrder).Nodup →
    Approves isActual expr approvedBorrows →
      ((∃ after, visitExpr .allEnabled expr approvedBorrows = .ok after) ↔
        BorrowsPassed isActual expr)

/-- The nodes below an expression have not been approved. -/
theorem Approves.below {expr : Expr} {nodes : List AstNode}
    (approves : Approves isActual expr approvedBorrows)
    (split : expr.postOrder = nodes ++ [.expr expr]) (distinct : (exprIds expr.postOrder).Nodup) :
    (exprIds nodes).Nodup ∧ ∀ id ∈ exprIds nodes, id ∉ approvedBorrows := by
  rw [split, exprIds_last, List.nodup_append] at distinct
  refine ⟨distinct.1, fun id inside approved => ?_⟩
  have own := (approves id (by
    rw [split, exprIds_last]
    exact List.mem_append_left _ inside)).mp approved
  exact distinct.2.2 id inside _ (List.mem_singleton_self _) own.2.2

/-- What has been approved of the later expressions, once the first is visited. -/
theorem approves_tail {expr : Expr} {exprs : List Expr} {mid : List NodeId}
    (approves : ∀ id ∈ exprIds (Expr.postOrderOf exprs), (id ∈ approvedBorrows ↔
      isActual = true ∧ ∃ other ∈ expr :: exprs, other.isBorrow = true ∧ id = other.info.id))
    (apart : ∀ id ∈ exprIds expr.postOrder, ∀ other ∈ exprIds (Expr.postOrderOf exprs), id ≠ other)
    (first : visitExpr .allEnabled expr approvedBorrows = .ok mid) :
    ∀ id ∈ exprIds (Expr.postOrderOf exprs), (id ∈ mid ↔ isActual = true ∧
      ∃ other ∈ exprs, other.isBorrow = true ∧ id = other.info.id) := by
  intro id inside
  have outside : id ∉ exprIds expr.postOrder := fun both => apart id both id inside rfl
  rw [visitExpr_frames expr approvedBorrows mid first id outside, approves id inside]
  apply and_congr_right'
  constructor
  · rintro ⟨other, member, isBorrow, rfl⟩
    rcases List.mem_cons.mp member with rfl | later
    · exact absurd (info_mem_exprIds other) outside
    · exact ⟨other, later, isBorrow, rfl⟩
  · rintro ⟨other, member, own⟩
    exact ⟨other, List.mem_cons_of_mem _ member, own⟩

theorem visitExprs_iff {exprs : List Expr} (each : ∀ expr ∈ exprs, Decides expr) :
    ∀ isActual approvedBorrows, (exprIds (Expr.postOrderOf exprs)).Nodup →
      (∀ id ∈ exprIds (Expr.postOrderOf exprs), (id ∈ approvedBorrows ↔ isActual = true ∧
        ∃ expr ∈ exprs, expr.isBorrow = true ∧ id = expr.info.id)) →
      ((∃ after, visitExprs .allEnabled exprs approvedBorrows = .ok after) ↔
        AllBorrowsPassed isActual exprs) := by
  induction exprs with
  | nil => exact fun _ approvedBorrows _ _ => iff_of_true ⟨approvedBorrows, rfl⟩ trivial
  | cons expr exprs induction =>
      intro isActual approvedBorrows distinct approves
      rw [Expr.postOrderOf, exprIds_append, List.nodup_append] at distinct
      rw [Expr.postOrderOf, exprIds_append, List.forall_mem_append] at approves
      rcases distinct with ⟨headDistinct, tailDistinct, apart⟩
      have tailIds : ∀ other ∈ exprs, other.info.id ∈ exprIds (Expr.postOrderOf exprs) := by
        intro other member
        rw [exprIds, List.mem_filterMap]
        exact ⟨.expr other, Expr.postOrder_subset_of_mem member other.self_mem_postOrder, rfl⟩
      have headApproves : Approves isActual expr approvedBorrows := by
        intro id inside
        rw [approves.1 id inside]
        apply and_congr_right'
        constructor
        · rintro ⟨other, member, isBorrow, rfl⟩
          rcases List.mem_cons.mp member with rfl | later
          · exact ⟨isBorrow, rfl⟩
          · exact absurd rfl (apart _ inside _ (tailIds other later))
        · exact fun own => ⟨expr, List.mem_cons_self, own⟩
      have head := each expr List.mem_cons_self isActual approvedBorrows headDistinct headApproves
      rw [AllBorrowsPassed, ← head]
      constructor
      · rintro ⟨after, result⟩
        rw [visitExprs, bind_eq_ok] at result
        rcases result with ⟨mid, first, rest⟩
        refine ⟨⟨mid, first⟩, ?_⟩
        rw [← induction (fun other member => each other (List.mem_cons_of_mem _ member)) isActual
          mid tailDistinct (approves_tail approves.2 apart first)]
        exact ⟨after, rest⟩
      · rintro ⟨⟨mid, first⟩, later⟩
        rw [← induction (fun other member => each other (List.mem_cons_of_mem _ member)) isActual
          mid tailDistinct (approves_tail approves.2 apart first)] at later
        rcases later with ⟨after, rest⟩
        exact ⟨after, by rw [visitExprs, first]; exact rest⟩

theorem visitBinary_eq_ok {info : NodeInfo} {left right : Expr} :
    visitBinary .allEnabled info left right = .ok () ↔
      left.isBorrow = false ∧ right.isBorrow = false := by
  rw [visitBinary, rejectPosition]
  cases left.isBorrow <;> cases right.isBorrow <;> simp

theorem endVisitBorrow_eq_ok {info : NodeInfo} :
    endVisitBorrow .allEnabled info approvedBorrows = .ok () ↔ info.id ∈ approvedBorrows := by
  rw [endVisitBorrow, rejectNotArgument]
  split <;> simp_all

theorem BorrowsPassed.not_borrow {expr : Expr} (passed : BorrowsPassed false expr) :
    expr.isBorrow = false := by
  cases expr with
  | borrowExpr info var => cases passed.1
  | _ => rfl

/-- An expression with one operand that is no actual. -/
theorem decides_operand {expr operand : Expr} (decides : Decides operand)
    (split : expr.postOrder = operand.postOrder ++ [.expr expr])
    (approves : Approves isActual expr approvedBorrows)
    (distinct : (exprIds expr.postOrder).Nodup) :
    (∃ after, visitExpr .allEnabled operand approvedBorrows = .ok after) ↔
      BorrowsPassed false operand := by
  have below := approves.below split distinct
  exact decides false approvedBorrows below.1 (.of_apart below.2)

/-- The actuals of a call, whose borrows the call has approved. -/
theorem approve_exact {function : Expr} {actuals : List Expr} {mid : List NodeId}
    (apart : ∀ id ∈ exprIds (Expr.postOrderOf actuals), id ∉ approvedBorrows)
    (outside : ∀ id ∈ exprIds (Expr.postOrderOf actuals), id ∉ exprIds function.postOrder)
    (first : visitExpr .allEnabled function (approve actuals approvedBorrows) = .ok mid) :
    ∀ id ∈ exprIds (Expr.postOrderOf actuals), (id ∈ mid ↔ true = true ∧
      ∃ actual ∈ actuals, actual.isBorrow = true ∧ id = actual.info.id) := by
  intro id inside
  rw [visitExpr_frames function _ mid first id (outside id inside), mem_approve,
    or_iff_left (apart id inside)]
  exact (and_iff_right rfl).symm

theorem decides (expr : Expr) : Decides expr := by
  induction expr with
  | numExpr | varExpr | inputExpr =>
      exact fun _ approvedBorrows _ _ => iff_of_true ⟨approvedBorrows, rfl⟩ trivial
  | binaryExpr info op left right leftDecides rightDecides =>
      intro isActual approvedBorrows distinct approves
      have below := approves.below rfl distinct
      rw [exprIds_append, List.nodup_append, List.forall_mem_append] at below
      rcases below with ⟨⟨leftDistinct, rightDistinct, apart⟩, leftApart, rightApart⟩
      have leftIff := leftDecides false approvedBorrows leftDistinct (.of_apart leftApart)
      have rightIff : ∀ mid, visitExpr .allEnabled left approvedBorrows = .ok mid →
          ((∃ after, visitExpr .allEnabled right mid = .ok after) ↔ BorrowsPassed false right) := by
        intro mid first
        apply rightDecides false mid rightDistinct
        apply Approves.of_apart
        intro id inside
        rw [visitExpr_frames left approvedBorrows mid first id fun both =>
          apart id both id inside rfl]
        exact rightApart id inside
      rw [BorrowsPassed]
      constructor
      · rintro ⟨after, result⟩
        rw [visitExpr, bind_eq_ok] at result
        rcases result with ⟨_, _, result⟩
        rw [bind_eq_ok] at result
        rcases result with ⟨mid, first, second⟩
        exact ⟨leftIff.mp ⟨mid, first⟩, (rightIff mid first).mp ⟨after, second⟩⟩
      · rintro ⟨leftPassed, rightPassed⟩
        rcases leftIff.mpr leftPassed with ⟨mid, first⟩
        rcases (rightIff mid first).mpr rightPassed with ⟨after, second⟩
        refine ⟨after, ?_⟩
        rw [visitExpr, visitBinary_eq_ok.mpr ⟨leftPassed.not_borrow, rightPassed.not_borrow⟩]
        exact bind_eq_ok.mpr ⟨(), rfl, bind_eq_ok.mpr ⟨mid, first, second⟩⟩
  | funAppExpr info function actuals functionDecides actualsDecide =>
      intro isActual approvedBorrows distinct approves
      have below := approves.below rfl distinct
      rw [exprIds_append, List.nodup_append, List.forall_mem_append] at below
      rcases below with ⟨⟨functionDistinct, actualsDistinct, apart⟩, functionApart, actualsApart⟩
      have functionIff := functionDecides false (approve actuals approvedBorrows) functionDistinct
        (Approves.of_apart (by
          intro id inside approved
          rcases mem_approve.mp approved with ⟨actual, member, _, rfl⟩ | before
          · refine apart _ inside _ ?_ rfl
            rw [exprIds, List.mem_filterMap]
            exact ⟨.expr actual, Expr.postOrder_subset_of_mem member actual.self_mem_postOrder, rfl⟩
          · exact functionApart id inside before))
      have actualsIff : ∀ mid,
          visitExpr .allEnabled function (approve actuals approvedBorrows) = .ok mid →
            ((∃ after, visitExprs .allEnabled actuals mid = .ok after) ↔
              AllBorrowsPassed true actuals) := fun mid first =>
        visitExprs_iff actualsDecide true mid actualsDistinct (approve_exact actualsApart
          (fun id inside both => apart id both id inside rfl) first)
      rw [BorrowsPassed]
      constructor
      · rintro ⟨after, result⟩
        rw [visitExpr, bind_eq_ok] at result
        rcases result with ⟨mid, first, second⟩
        exact ⟨functionIff.mp ⟨mid, first⟩, (actualsIff mid first).mp ⟨after, second⟩⟩
      · rintro ⟨functionPassed, actualsPassed⟩
        rcases functionIff.mpr functionPassed with ⟨mid, first⟩
        rcases (actualsIff mid first).mpr actualsPassed with ⟨after, second⟩
        exact ⟨after, bind_eq_ok.mpr ⟨mid, first, second⟩⟩
  | allocExpr info initializer initializerDecides | deRefExpr info initializer initializerDecides =>
      intro isActual approvedBorrows distinct approves
      have operandIff := decides_operand initializerDecides rfl approves distinct
      exact operandIff
  | borrowExpr info var varDecides =>
      intro isActual approvedBorrows distinct approves
      have varIff := decides_operand varDecides rfl approves distinct
      have own : info.id ∈ approvedBorrows ↔ isActual = true := by
        rw [approves info.id (info_mem_exprIds (.borrowExpr info var))]
        exact and_iff_left ⟨rfl, rfl⟩
      rw [Expr.postOrder, exprIds_last, List.nodup_append] at distinct
      have outside : info.id ∉ exprIds var.postOrder := fun inside =>
        distinct.2.2 _ inside _ (List.mem_singleton_self _) rfl
      rw [BorrowsPassed, ← own, ← varIff]
      constructor
      · rintro ⟨after, result⟩
        rw [visitExpr, bind_eq_ok] at result
        rcases result with ⟨mid, first, result⟩
        rw [bind_eq_ok] at result
        rcases result with ⟨_, passed, _⟩
        rw [endVisitBorrow_eq_ok,
          visitExpr_frames var approvedBorrows mid first _ outside] at passed
        exact ⟨passed, mid, first⟩
      · rintro ⟨approved, mid, first⟩
        refine ⟨mid, bind_eq_ok.mpr ⟨mid, first, bind_eq_ok.mpr ⟨(), ?_, rfl⟩⟩⟩
        rwa [endVisitBorrow_eq_ok, visitExpr_frames var approvedBorrows mid first _ outside]
  | sumCtorExpr info tag args argsDecide =>
      intro isActual approvedBorrows distinct approves
      have below := approves.below rfl distinct
      apply visitExprs_iff argsDecide false approvedBorrows below.1
      exact fun id inside => iff_of_false (below.2 id inside) fun impossible => by
        cases impossible.1

/-! ## Programs -/

/-- Every `&` of the operands is an actual of a call. -/
def OperandsPassed (operands : List VisitedOperand) : Prop :=
  ∀ operand ∈ operands, BorrowsPassed false operand.expr

namespace OperandsPassed

variable {operands others : List VisitedOperand}

theorem nil : OperandsPassed [] := nofun

theorem cons {operand : VisitedOperand} (first : BorrowsPassed false operand.expr)
    (rest : OperandsPassed operands) : OperandsPassed (operand :: operands) :=
  List.forall_mem_cons.mpr ⟨first, rest⟩

theorem append (first : OperandsPassed operands) (second : OperandsPassed others) :
    OperandsPassed (operands ++ others) :=
  List.forall_mem_append.mpr ⟨first, second⟩

end OperandsPassed

theorem visitOperand_eq_ok {operand : VisitedOperand} {after : List NodeId} :
    visitOperand .allEnabled approvedBorrows operand = .ok after ↔
      (operand.refused = none ∨ operand.expr.isBorrow = false) ∧
        visitExpr .allEnabled operand.expr approvedBorrows = .ok after := by
  rcases operand with ⟨line, refused, expr⟩
  rw [visitOperand]
  cases refused <;> cases expr.isBorrow <;> simp [rejectPosition, bind, Except.bind]

/-- The traversal of operands whose nodes are objects of their own, none of them approved. -/
theorem foldlM_visitOperand_iff {operands : List VisitedOperand} :
    ∀ {approvedBorrows : List NodeId},
    (exprIds (operands.flatMap fun operand => operand.expr.postOrder)).Nodup →
    (∀ id ∈ exprIds (operands.flatMap fun operand => operand.expr.postOrder),
      id ∉ approvedBorrows) →
    ((∃ after, operands.foldlM (visitOperand .allEnabled) approvedBorrows = .ok after) ↔
      OperandsPassed operands) := by
  induction operands with
  | nil => exact fun _ _ => iff_of_true ⟨_, rfl⟩ nofun
  | cons operand operands induction =>
      intro approvedBorrows distinct apart
      rw [List.flatMap_cons, exprIds_append, List.nodup_append] at distinct
      rw [List.flatMap_cons, exprIds_append, List.forall_mem_append] at apart
      rcases distinct with ⟨headDistinct, tailDistinct, disjoint⟩
      have headIff := decides operand.expr false approvedBorrows headDistinct (.of_apart apart.1)
      have tailIff : ∀ mid, visitExpr .allEnabled operand.expr approvedBorrows = .ok mid →
          ((∃ after, operands.foldlM (visitOperand .allEnabled) mid = .ok after) ↔
            OperandsPassed operands) := by
        intro mid first
        apply induction tailDistinct
        intro id inside
        rw [visitExpr_frames operand.expr approvedBorrows mid first id fun both =>
          disjoint id both id inside rfl]
        exact apart.2 id inside
      rw [OperandsPassed, List.forall_mem_cons]
      constructor
      · rintro ⟨after, result⟩
        rw [List.foldlM_cons, bind_eq_ok] at result
        rcases result with ⟨mid, first, rest⟩
        have visited := (visitOperand_eq_ok.mp first).2
        exact ⟨headIff.mp ⟨mid, visited⟩, (tailIff mid visited).mp ⟨after, rest⟩⟩
      · rintro ⟨headPassed, tailPassed⟩
        rcases headIff.mpr headPassed with ⟨mid, visited⟩
        rcases (tailIff mid visited).mpr tailPassed with ⟨after, rest⟩
        refine ⟨after, ?_⟩
        rw [List.foldlM_cons]
        have first := visitOperand_eq_ok.mpr ⟨.inr headPassed.not_borrow, visited⟩
        exact bind_eq_ok.mpr ⟨mid, first, rest⟩

end

end BorrowChecker

/-! ## The operands are the expressions of a program -/

theorem exprIds_stmt (nodes : List AstNode) (stmt : Stmt) :
    exprIds (nodes ++ [.stmt stmt]) = exprIds nodes := by
  rw [exprIds, List.filterMap_append]
  exact List.append_nil _

/-- The nodes of the operands have the addresses of the nodes of the statement. -/
def OperandsCover (nodes : List AstNode) (operands : List VisitedOperand) : Prop :=
  exprIds (operands.flatMap fun operand => operand.expr.postOrder) = exprIds nodes

theorem OperandsCover.append {nodes others : List AstNode} {operands later : List VisitedOperand}
    (first : OperandsCover nodes operands) (second : OperandsCover others later) :
    OperandsCover (nodes ++ others) (operands ++ later) := by
  rw [OperandsCover, List.flatMap_append, BorrowChecker.exprIds_append,
    BorrowChecker.exprIds_append, first, second]

theorem OperandsCover.single (line : Nat) (refused : Option String) (expr : Expr) :
    OperandsCover expr.postOrder [⟨line, refused, expr⟩] := by
  rw [OperandsCover, List.flatMap_singleton]

theorem OperandsCover.stmt {nodes : List AstNode} {operands : List VisitedOperand}
    (cover : OperandsCover nodes operands) (stmt : Stmt) :
    OperandsCover (nodes ++ [.stmt stmt]) operands := by
  rw [OperandsCover, exprIds_stmt, cover]

theorem Stmt.operandsOf_cover {stmts : List Stmt}
    (each : ∀ stmt ∈ stmts, OperandsCover stmt.postOrder stmt.operands) :
    OperandsCover (Stmt.postOrderOf stmts) (Stmt.operandsOf stmts) := by
  induction stmts with
  | nil => rfl
  | cons stmt stmts induction =>
      exact (each stmt List.mem_cons_self).append
        (induction fun other member => each other (List.mem_cons_of_mem _ member))

theorem CaseArm.operandsOf_cover {arms : List CaseArm}
    (each : ∀ arm ∈ arms, OperandsCover arm.getBody.postOrder arm.getBody.operands) :
    OperandsCover (CaseArm.postOrderOf arms) (CaseArm.operandsOf arms) := by
  induction arms with
  | nil => rfl
  | cons arm arms induction =>
      cases arm with
      | mk info tag patterns body =>
          exact (each _ List.mem_cons_self).append
            (induction fun other member => each other (List.mem_cons_of_mem _ member))

theorem Stmt.operands_cover (stmt : Stmt) : OperandsCover stmt.postOrder stmt.operands := by
  induction stmt with
  | assignStmt info lhs rhs =>
      exact ((OperandsCover.single info.line none lhs).append (.single info.line none rhs)).stmt _
  | blockStmt info stmts each => exact (Stmt.operandsOf_cover each).stmt _
  | whileStmt info condition body bodyCover =>
      exact ((OperandsCover.single info.line none condition).append bodyCover).stmt _
  | ifStmt info condition thenStmt elseStmt thenCover elseCover =>
      have branches : OperandsCover (Stmt.elsePostOrder elseStmt) (Stmt.elseOperands elseStmt) := by
        cases elseStmt with
        | none => rfl
        | some stmt => exact elseCover stmt rfl
      have whole := (OperandsCover.single info.line none condition).append
        (thenCover.append branches)
      rw [← List.append_assoc] at whole
      exact whole.stmt _
  | outputStmt info arg | errorStmt info arg => exact (OperandsCover.single _ _ arg).stmt _
  | caseStmt info caseExpr arms each =>
      exact ((OperandsCover.single info.line none caseExpr).append
        (CaseArm.operandsOf_cover each)).stmt _

theorem Function.operands_cover (function : Function) :
    OperandsCover function.postOrder function.operands :=
  (Stmt.operandsOf_cover fun stmt _ => stmt.operands_cover).append (.single _ _ _)

theorem Program.operands_cover (program : Program) :
    OperandsCover program.postOrder program.operands := by
  rw [Program.postOrder, Program.operands]
  induction program.functions with
  | nil => rfl
  | cons function functions induction =>
      rw [List.flatMap_cons, List.flatMap_cons]
      exact function.operands_cover.append induction

namespace BorrowChecker

/-! ## The pass over the positions -/

section

variable {context : Context} (rules : context.rules = .allEnabled)

variable (context) in
/-- In an expression that the pass accepts the borrows are passed. -/
def ExprPasses (expr : Expr) : Prop :=
  ∀ aliasNames ctx before after, checkExpr context aliasNames ctx expr before = .ok after →
    BorrowsPassed (decide (ctx = .argument)) expr

theorem checkActuals_passed {actuals : List Expr}
    (each : ∀ actual ∈ actuals, ExprPasses context actual) : ∀ {aliasNames before after},
      checkActuals context aliasNames actuals before = .ok after →
        AllBorrowsPassed true actuals := by
  induction actuals with
  | nil => exact fun _ => trivial
  | cons actual actuals induction =>
      intro aliasNames before after result
      rw [checkActuals, bind_eq_ok] at result
      rcases result with ⟨mid, first, rest⟩
      exact ⟨each actual List.mem_cons_self _ _ _ _ first,
        induction (fun other member => each other (List.mem_cons_of_mem _ member)) rest⟩

theorem checkPayloads_passed {payloads : List Expr}
    (each : ∀ payload ∈ payloads, ExprPasses context payload) : ∀ {aliasNames before after},
      checkPayloads context aliasNames payloads before = .ok after →
        AllBorrowsPassed false payloads := by
  induction payloads with
  | nil => exact fun _ => trivial
  | cons payload payloads induction =>
      intro aliasNames before after result
      rw [checkPayloads, bind_eq_ok] at result
      rcases result with ⟨mid, first, result⟩
      rw [bind_eq_ok] at result
      rcases result with ⟨_, _, rest⟩
      exact ⟨each payload List.mem_cons_self _ _ _ _ first,
        induction (fun other member => each other (List.mem_cons_of_mem _ member)) rest⟩

include rules

theorem exprPasses (expr : Expr) : ExprPasses context expr := by
  induction expr with
  | numExpr | varExpr | inputExpr => exact fun _ _ _ _ _ => trivial
  | binaryExpr info op left right leftPasses rightPasses =>
      intro aliasNames ctx before after result
      rw [checkExpr, bind_eq_ok] at result
      rcases result with ⟨mid, first, second⟩
      exact ⟨leftPasses _ _ _ _ first, rightPasses _ _ _ _ second⟩
  | funAppExpr info function actuals functionPasses actualsPass =>
      intro aliasNames ctx before after result
      rw [checkExpr, bind_eq_ok] at result
      rcases result with ⟨mid, first, second⟩
      exact ⟨functionPasses _ _ _ _ first, checkActuals_passed actualsPass second⟩
  | allocExpr info initializer passes =>
      intro aliasNames ctx before after result
      exact passes _ _ _ _ result
  | borrowExpr info var passes =>
      intro aliasNames ctx before after result
      rw [checkExpr, bind_eq_ok] at result
      rcases result with ⟨mid, first, result⟩
      refine ⟨?_, passes _ _ _ _ first⟩
      by_contra other
      rw [decide_eq_true_eq] at other
      simp [other, rejectNotArgument, rules, bind, Except.bind] at result
  | deRefExpr info ptr passes =>
      intro aliasNames ctx before after result
      rw [checkExpr, bind_eq_ok] at result
      rcases result with ⟨mid, _, second⟩
      exact passes _ _ _ _ second
  | sumCtorExpr info tag args argsPass =>
      intro aliasNames ctx before after result
      exact checkPayloads_passed argsPass result

theorem checkTarget_passed {aliasNames : List String} {lhs : Expr} {before after : Requirements}
    (result : checkTarget context aliasNames lhs before = .ok after) : BorrowsPassed false lhs := by
  cases lhs with
  | deRefExpr info ptr =>
      rw [checkTarget, bind_eq_ok] at result
      rcases result with ⟨mid, _, inside⟩
      exact exprPasses rules ptr _ _ _ _ inside
  | _ => exact exprPasses rules _ aliasNames .taken before after result

theorem checkKept_passed {aliasNames : List String} {sink : String} {expr : Expr}
    {before after : Requirements}
    (result : checkKept context aliasNames sink expr before = .ok after) :
    BorrowsPassed false expr := by
  rw [checkKept, bind_eq_ok] at result
  rcases result with ⟨mid, checked, _⟩
  exact exprPasses rules expr _ _ _ _ checked

variable (context) in
def StmtPasses (stmt : Stmt) : Prop :=
  ∀ aliasNames before after, checkStmt context aliasNames stmt before = .ok after →
    OperandsPassed stmt.operands

omit rules in
theorem checkStmts_passed {stmts : List Stmt} (each : ∀ stmt ∈ stmts, StmtPasses context stmt) :
    ∀ {aliasNames before after}, checkStmts context aliasNames stmts before = .ok after →
      OperandsPassed (Stmt.operandsOf stmts) := by
  induction stmts with
  | nil => exact fun _ => .nil
  | cons stmt stmts induction =>
      intro aliasNames before after result
      rw [checkStmts, bind_eq_ok] at result
      rcases result with ⟨mid, first, rest⟩
      exact (each stmt List.mem_cons_self _ _ _ first).append
        (induction (fun other member => each other (List.mem_cons_of_mem _ member)) rest)

omit rules in
theorem checkArms_passed {arms : List CaseArm}
    (each : ∀ arm ∈ arms, StmtPasses context arm.getBody) : ∀ {aliasNames borrowed before after},
      checkArms context aliasNames borrowed arms before = .ok after →
        OperandsPassed (CaseArm.operandsOf arms) := by
  induction arms with
  | nil => exact fun _ => nofun
  | cons arm arms induction =>
      intro aliasNames borrowed before after result
      rw [checkArms, bind_eq_ok] at result
      rcases result with ⟨mid, first, rest⟩
      cases arm with
      | mk info tag patterns body =>
          exact (each _ List.mem_cons_self _ _ _ first).append
            (induction (fun other member => each other (List.mem_cons_of_mem _ member)) rest)

theorem stmtPasses (stmt : Stmt) : StmtPasses context stmt := by
  induction stmt with
  | assignStmt info lhs rhs =>
      intro aliasNames before after result
      rw [checkStmt, bind_eq_ok] at result
      rcases result with ⟨mid, target, kept⟩
      exact .cons (checkTarget_passed rules target) (.cons (checkKept_passed rules kept) .nil)
  | blockStmt info stmts each =>
      intro aliasNames before after result
      exact checkStmts_passed each result
  | whileStmt info condition body bodyPasses =>
      intro aliasNames before after result
      rw [checkStmt, bind_eq_ok] at result
      rcases result with ⟨mid, first, second⟩
      exact .cons (exprPasses rules condition _ _ _ _ first) (bodyPasses _ _ _ second)
  | ifStmt info condition thenStmt elseStmt thenPasses elsePasses =>
      intro aliasNames before after result
      rw [checkStmt, bind_eq_ok] at result
      rcases result with ⟨mid, first, result⟩
      rw [bind_eq_ok] at result
      rcases result with ⟨thenMid, second, third⟩
      refine .cons (exprPasses rules condition _ _ _ _ first) ?_
      apply (thenPasses _ _ _ second).append
      cases elseStmt with
      | none => exact .nil
      | some stmt => exact elsePasses stmt rfl _ _ _ third
  | outputStmt info arg | errorStmt info arg =>
      intro aliasNames before after result
      exact .cons (exprPasses rules arg _ _ _ _ result) .nil
  | caseStmt info caseExpr arms each =>
      intro aliasNames before after result
      rw [checkStmt, bind_eq_ok] at result
      rcases result with ⟨mid, first, second⟩
      refine .cons ?_ (checkArms_passed each second)
      have passed := exprPasses rules caseExpr _ _ _ _ first
      rwa [decide_eq_false (by split <;> simp)] at passed

theorem checkFunction_passed {requirements : Requirements}
    (result : checkFunction context = .ok requirements) :
    OperandsPassed context.current.operands := by
  rw [checkFunction, bind_eq_ok] at result
  rcases result with ⟨mid, body, kept⟩
  exact (checkStmts_passed (fun stmt _ => stmtPasses rules stmt) body).append
    (.cons (checkKept_passed rules kept) .nil)

end

/-! ## Agreement -/

section

variable {program : Program} (distinct : (exprIds program.postOrder).Nodup)

include distinct

/-- The first pass accepts the programs in which every `&` is an actual of a call. -/
theorem check_iff : check .allEnabled program = .ok () ↔ OperandsPassed program.operands := by
  rw [← program.operands_cover] at distinct
  rw [← foldlM_visitOperand_iff distinct fun _ _ => List.not_mem_nil]
  constructor
  · intro passed
    rw [check, bind_eq_ok] at passed
    rcases passed with ⟨after, visited, _⟩
    exact ⟨after, visited⟩
  · rintro ⟨after, visited⟩
    exact bind_eq_ok.mpr ⟨after, visited, rfl⟩

/-- The first pass rejects nothing that the pass over the positions accepts. -/
theorem check_of_checkPositions {symbols : SymbolTable} {types : TypeResults}
    {summary : DeclNode → Option ReturnSummary} {requirements : List (DeclNode × Requirements)}
    (checked : checkPositions .allEnabled symbols types summary program = .ok requirements) :
    check .allEnabled program = .ok () := by
  rw [check_iff distinct]
  intro operand member
  rcases List.mem_flatMap.mp member with ⟨function, functionMem, inFunction⟩
  rcases exists_of_mapM checked function functionMem with ⟨_, _, result⟩
  rw [bind_eq_ok] at result
  rcases result with ⟨found, result, _⟩
  exact checkFunction_passed rfl result operand inFunction

/-- The two passes agree on where a borrow may stand. -/
theorem check_agrees :
    (check .allEnabled program = .ok () ↔ OperandsPassed program.operands) ∧
      ∀ symbols types summary requirements,
        checkPositions .allEnabled symbols types summary program = .ok requirements →
          check .allEnabled program = .ok () :=
  ⟨check_iff distinct, fun _ _ _ _ => check_of_checkPositions distinct⟩

end

namespace NestedBorrow

/-- `peek(p) { return *p; }` -/
def peek : Function where
  decl := { id := 0, name := "peek" }
  formals := [{ id := 1, name := "p" }]
  declarations := []
  stmts := []
  returnInfo := { id := 2 }
  returnArg := .deRefExpr { id := 3 } (.varExpr { id := 4 } "p")

/-- `main() { var x; x = peek(&x) + peek(&x); return peek(alloc peek(&x)); }` -/
def main : Function where
  decl := { id := 5, name := "main" }
  formals := []
  declarations := [{ id := 6, name := "x" }]
  stmts := [.assignStmt { id := 7 } (.varExpr { id := 8 } "x")
    (.binaryExpr { id := 9 } .add (peekX 10) (peekX 14))]
  returnInfo := { id := 18 }
  returnArg := .funAppExpr { id := 19 } (.varExpr { id := 20 } "peek")
    [.allocExpr { id := 21 } (peekX 22)]
where
  peekX (id : NodeId) : Expr :=
    .funAppExpr { id := id } (.varExpr { id := id + 1 } "peek")
      [.borrowExpr { id := id + 2 } (.varExpr { id := id + 3 } "x")]

def program : Program where
  typedecls := []
  functions := [peek, main]

theorem program_agrees :
    (check .allEnabled program = .ok () ↔ OperandsPassed program.operands) ∧
      (∀ symbols types summary requirements,
        checkPositions .allEnabled symbols types summary program = .ok requirements →
          check .allEnabled program = .ok ()) ∧
      check .allEnabled program = .ok () := by
  have agrees := @check_agrees program (by decide +kernel)
  exact ⟨agrees.1, agrees.2, by decide +kernel⟩

end NestedBorrow

end BorrowChecker

end Topc
