import Topc.BorrowChecker
import Topc.Weeding.NestedStatements

/-! # Values taken through references

The walk judges every dereference whose value is taken, and every slot that is
overwritten. At its solved type none of them is an owner. -/

namespace Topc.BorrowChecker

/-! ## Dereferences that are judged -/

mutual
/-- The dereferences inside an expression whose values are taken. -/
def takenDerefs (ctx : Ctx) : Expr → List Expr
  | .numExpr .. | .varExpr .. | .inputExpr .. => []
  | .binaryExpr _ _ left right => takenDerefs .taken left ++ takenDerefs .taken right
  | .funAppExpr _ function actuals =>
      takenDerefs .taken function ++ takenDerefsOf .argument actuals
  | .allocExpr _ initializer => takenDerefs .taken initializer
  | .borrowExpr _ var => takenDerefs .reborrow var
  | .deRefExpr info ptr =>
      (if ctx.takes then [.deRefExpr info ptr] else []) ++ takenDerefs .deref ptr
  | .sumCtorExpr _ _ args => takenDerefsOf .taken args

def takenDerefsOf (ctx : Ctx) : List Expr → List Expr
  | [] => []
  | expr :: exprs => takenDerefs ctx expr ++ takenDerefsOf ctx exprs
end

/-- The slot that `*e = v` overwrites is judged like a taken one. -/
def targetDerefs : Expr → List Expr
  | .deRefExpr info ptr => .deRefExpr info ptr :: takenDerefs .deref ptr
  | lhs => takenDerefs .taken lhs

mutual
def stmtDerefs : Stmt → List Expr
  | .assignStmt _ lhs rhs => targetDerefs lhs ++ takenDerefs .taken rhs
  | .blockStmt _ stmts => stmtsDerefs stmts
  | .whileStmt _ condition body => takenDerefs .taken condition ++ stmtDerefs body
  | .ifStmt _ condition thenStmt elseStmt =>
      takenDerefs .taken condition ++ stmtDerefs thenStmt ++ elseDerefs elseStmt
  | .outputStmt _ arg | .errorStmt _ arg => takenDerefs .taken arg
  | .caseStmt _ caseExpr arms =>
      takenDerefs (if caseExpr.isDeRef then .scrutinee else .taken) caseExpr ++ armsDerefs arms

def stmtsDerefs : List Stmt → List Expr
  | [] => []
  | stmt :: stmts => stmtDerefs stmt ++ stmtsDerefs stmts

def elseDerefs : Option Stmt → List Expr
  | none => []
  | some stmt => stmtDerefs stmt

def armDerefs : CaseArm → List Expr
  | .mk _ _ _ body => stmtDerefs body

def armsDerefs : List CaseArm → List Expr
  | [] => []
  | arm :: arms => armDerefs arm ++ armsDerefs arms
end

def functionDerefs (function : Function) : List Expr :=
  stmtsDerefs function.stmts ++ takenDerefs .taken function.returnArg

/-! ## Stores -/

/-- The target of a store among the nodes is among the dereferences. -/
def StoresJudged (nodes : List AstNode) (derefs : List Expr) : Prop :=
  ∀ info derefInfo ptr rhs, .stmt (.assignStmt info (.deRefExpr derefInfo ptr) rhs) ∈ nodes →
    .deRefExpr derefInfo ptr ∈ derefs

namespace StoresJudged

variable {first second : List AstNode} {derefs others : List Expr}

theorem append (firstJudged : StoresJudged first derefs)
    (secondJudged : StoresJudged second others) :
    StoresJudged (first ++ second) (derefs ++ others) := by
  intro info derefInfo ptr rhs member
  rw [List.mem_append] at member ⊢
  exact member.imp (firstJudged info derefInfo ptr rhs) (secondJudged info derefInfo ptr rhs)

theorem concat (judged : StoresJudged first derefs) {stmt : Stmt}
    (other : ∀ info lhs rhs, stmt ≠ .assignStmt info lhs rhs) :
    StoresJudged (first ++ [.stmt stmt]) derefs := by
  intro info derefInfo ptr rhs member
  rcases List.mem_append.mp member with inside | last
  · exact judged info derefInfo ptr rhs inside
  · rw [List.mem_singleton, AstNode.stmt.injEq] at last
    exact absurd last.symm (other _ _ _)

end StoresJudged

theorem expr_storesJudged (expr : Expr) (derefs : List Expr) :
    StoresJudged expr.postOrder derefs :=
  fun _ _ _ _ member => absurd member (expr.stmt_notMem_postOrder _)

theorem stmts_storesJudged {stmts : List Stmt}
    (each : ∀ stmt ∈ stmts, StoresJudged stmt.postOrder (stmtDerefs stmt)) :
    StoresJudged (Stmt.postOrderOf stmts) (stmtsDerefs stmts) := by
  induction stmts with
  | nil => exact nofun
  | cons stmt stmts induction =>
      exact (each stmt List.mem_cons_self).append
        (induction fun other member => each other (List.mem_cons_of_mem _ member))

theorem arms_storesJudged {arms : List CaseArm}
    (each : ∀ arm ∈ arms, StoresJudged arm.getBody.postOrder (stmtDerefs arm.getBody)) :
    StoresJudged (CaseArm.postOrderOf arms) (armsDerefs arms) := by
  induction arms with
  | nil => exact nofun
  | cons arm arms induction =>
      cases arm with
      | mk info tag patterns body =>
          exact (each _ List.mem_cons_self).append
            (induction fun other member => each other (List.mem_cons_of_mem _ member))

theorem stmt_storesJudged (stmt : Stmt) : StoresJudged stmt.postOrder (stmtDerefs stmt) := by
  induction stmt with
  | assignStmt info lhs rhs =>
      intro storeInfo derefInfo ptr value member
      rw [Stmt.postOrder, List.mem_append, List.mem_append] at member
      rcases member with (inLhs | inRhs) | last
      · exact absurd inLhs (lhs.stmt_notMem_postOrder _)
      · exact absurd inRhs (rhs.stmt_notMem_postOrder _)
      · cases List.mem_singleton.mp last
        exact List.mem_append_left _ List.mem_cons_self
  | blockStmt info stmts each => exact (stmts_storesJudged each).concat nofun
  | whileStmt info condition body bodyJudged =>
      exact ((expr_storesJudged condition _).append bodyJudged).concat nofun
  | ifStmt info condition thenStmt elseStmt thenJudged elseJudged =>
      apply (((expr_storesJudged condition _).append thenJudged).append _).concat (by simp)
      cases elseStmt with
      | none => exact nofun
      | some stmt => exact elseJudged stmt rfl
  | outputStmt info arg | errorStmt info arg => exact (expr_storesJudged arg _).concat nofun
  | caseStmt info caseExpr arms each =>
      exact ((expr_storesJudged caseExpr _).append (arms_storesJudged each)).concat nofun

theorem function_storesJudged (function : Function) :
    StoresJudged function.postOrder (functionDerefs function) :=
  (stmts_storesJudged fun stmt _ => stmt_storesJudged stmt).append
    (expr_storesJudged function.returnArg _)

/-! ## What acceptance says -/

section

variable {context : Context} (rules : context.rules = .allEnabled)

variable (context) in
/-- At their solved types the dereferences are no owners. -/
def Copied (derefs : List Expr) : Prop :=
  ∀ deref ∈ derefs, OwnershipClassifier.classifyValue context.types deref = .copy

theorem Copied.append {first second : List Expr} (firstCopied : Copied context first)
    (secondCopied : Copied context second) : Copied context (first ++ second) :=
  List.forall_mem_append.mpr ⟨firstCopied, secondCopied⟩

include rules

theorem checkDerefTaken_copied {info : NodeInfo} {ptr : Expr} {reason : RequirementReason}
    {before after : Requirements}
    (result : checkDerefTaken context info ptr reason before = .ok after) :
    OwnershipClassifier.classifyValue context.types (.deRefExpr info ptr) = .copy := by
  rw [OwnershipClassifier.classifyValue]
  rw [checkDerefTaken] at result
  cases type : context.types.ofExpr (.deRefExpr info ptr) with
  | var v => rfl
  | _ =>
      rw [type] at result
      cases class' : OwnershipClassifier.classifyType _ with
      | copy => rfl
      | own =>
          simp only [class', if_true, rules, RuleToggles.reject_allEnabled] at result
          split at result <;> cases result

variable (context) in
/-- In an accepted expression no dereference takes an owner. -/
def ExprCopied (expr : Expr) : Prop :=
  ∀ aliasNames ctx before after, checkExpr context aliasNames ctx expr before = .ok after →
    Copied context (takenDerefs ctx expr)

omit rules in
theorem checkActuals_copied {actuals : List Expr}
    (each : ∀ actual ∈ actuals, ExprCopied context actual) : ∀ {aliasNames before after},
      checkActuals context aliasNames actuals before = .ok after →
        Copied context (takenDerefsOf .argument actuals) := by
  induction actuals with
  | nil => exact fun _ => nofun
  | cons actual actuals induction =>
      intro aliasNames before after result
      rw [checkActuals, bind_eq_ok] at result
      rcases result with ⟨mid, first, rest⟩
      exact (each actual List.mem_cons_self _ _ _ _ first).append
        (induction (fun other member => each other (List.mem_cons_of_mem _ member)) rest)

omit rules in
theorem checkPayloads_copied {payloads : List Expr}
    (each : ∀ payload ∈ payloads, ExprCopied context payload) : ∀ {aliasNames before after},
      checkPayloads context aliasNames payloads before = .ok after →
        Copied context (takenDerefsOf .taken payloads) := by
  induction payloads with
  | nil => exact fun _ => nofun
  | cons payload payloads induction =>
      intro aliasNames before after result
      rw [checkPayloads, bind_eq_ok] at result
      rcases result with ⟨mid, first, result⟩
      rw [bind_eq_ok] at result
      rcases result with ⟨_, _, rest⟩
      exact (each payload List.mem_cons_self _ _ _ _ first).append
        (induction (fun other member => each other (List.mem_cons_of_mem _ member)) rest)

theorem exprCopied (expr : Expr) : ExprCopied context expr := by
  induction expr with
  | numExpr | varExpr | inputExpr => exact fun _ _ _ _ _ => nofun
  | binaryExpr info op left right leftCopied rightCopied =>
      intro aliasNames ctx before after result
      rw [checkExpr, bind_eq_ok] at result
      rcases result with ⟨mid, first, second⟩
      exact (leftCopied _ _ _ _ first).append (rightCopied _ _ _ _ second)
  | funAppExpr info function actuals functionCopied actualsCopied =>
      intro aliasNames ctx before after result
      rw [checkExpr, bind_eq_ok] at result
      rcases result with ⟨mid, first, second⟩
      exact (functionCopied _ _ _ _ first).append (checkActuals_copied actualsCopied second)
  | allocExpr info initializer copied =>
      intro aliasNames ctx before after result
      exact copied _ _ _ _ result
  | borrowExpr info var copied =>
      intro aliasNames ctx before after result
      rw [checkExpr, bind_eq_ok] at result
      rcases result with ⟨mid, first, _⟩
      exact copied _ _ _ _ first
  | deRefExpr info ptr copied =>
      intro aliasNames ctx before after result
      rw [checkExpr, bind_eq_ok] at result
      rcases result with ⟨mid, judged, second⟩
      apply Copied.append _ (copied _ _ _ _ second)
      split
      · rename_i takes
        rw [if_pos takes] at judged
        exact List.forall_mem_singleton.mpr (checkDerefTaken_copied rules judged)
      · exact nofun
  | sumCtorExpr info tag args argsCopied =>
      intro aliasNames ctx before after result
      exact checkPayloads_copied argsCopied result

theorem checkTarget_copied {aliasNames : List String} {lhs : Expr} {before after : Requirements}
    (result : checkTarget context aliasNames lhs before = .ok after) :
    Copied context (targetDerefs lhs) := by
  cases lhs with
  | deRefExpr info ptr =>
      rw [checkTarget, bind_eq_ok] at result
      rcases result with ⟨mid, judged, inside⟩
      exact List.forall_mem_cons.mpr ⟨checkDerefTaken_copied rules judged,
        exprCopied rules ptr _ _ _ _ inside⟩
  | _ => exact exprCopied rules _ aliasNames .taken before after result

theorem checkKept_copied {aliasNames : List String} {sink : String} {expr : Expr}
    {before after : Requirements}
    (result : checkKept context aliasNames sink expr before = .ok after) :
    Copied context (takenDerefs .taken expr) := by
  rw [checkKept, bind_eq_ok] at result
  rcases result with ⟨mid, checked, _⟩
  exact exprCopied rules expr _ _ _ _ checked

/-! ### Statements -/

variable (context) in
def StmtCopied (stmt : Stmt) : Prop :=
  ∀ aliasNames before after, checkStmt context aliasNames stmt before = .ok after →
    Copied context (stmtDerefs stmt)

omit rules in
theorem checkStmts_copied {stmts : List Stmt} (each : ∀ stmt ∈ stmts, StmtCopied context stmt) :
    ∀ {aliasNames before after}, checkStmts context aliasNames stmts before = .ok after →
      Copied context (stmtsDerefs stmts) := by
  induction stmts with
  | nil => exact fun _ => nofun
  | cons stmt stmts induction =>
      intro aliasNames before after result
      rw [checkStmts, bind_eq_ok] at result
      rcases result with ⟨mid, first, rest⟩
      exact (each stmt List.mem_cons_self _ _ _ first).append
        (induction (fun other member => each other (List.mem_cons_of_mem _ member)) rest)

omit rules in
theorem checkArms_copied {arms : List CaseArm}
    (each : ∀ arm ∈ arms, StmtCopied context arm.getBody) : ∀ {aliasNames borrowed before after},
      checkArms context aliasNames borrowed arms before = .ok after →
        Copied context (armsDerefs arms) := by
  induction arms with
  | nil => exact fun _ => nofun
  | cons arm arms induction =>
      intro aliasNames borrowed before after result
      rw [checkArms, bind_eq_ok] at result
      rcases result with ⟨mid, first, rest⟩
      cases arm with
      | mk info tag patterns body =>
          exact (each _ List.mem_cons_self _ _ _ first).append
            (induction (fun other member => each other (List.mem_cons_of_mem _ member)) rest)

theorem stmtCopied (stmt : Stmt) : StmtCopied context stmt := by
  induction stmt with
  | assignStmt info lhs rhs =>
      intro aliasNames before after result
      rw [checkStmt, bind_eq_ok] at result
      rcases result with ⟨mid, target, kept⟩
      exact (checkTarget_copied rules target).append (checkKept_copied rules kept)
  | blockStmt info stmts each =>
      intro aliasNames before after result
      exact checkStmts_copied each result
  | whileStmt info condition body bodyCopied =>
      intro aliasNames before after result
      rw [checkStmt, bind_eq_ok] at result
      rcases result with ⟨mid, first, second⟩
      exact (exprCopied rules condition _ _ _ _ first).append (bodyCopied _ _ _ second)
  | ifStmt info condition thenStmt elseStmt thenCopied elseCopied =>
      intro aliasNames before after result
      rw [checkStmt, bind_eq_ok] at result
      rcases result with ⟨mid, first, result⟩
      rw [bind_eq_ok] at result
      rcases result with ⟨thenMid, second, third⟩
      apply ((exprCopied rules condition _ _ _ _ first).append (thenCopied _ _ _ second)).append
      cases elseStmt with
      | none => exact nofun
      | some stmt => exact elseCopied stmt rfl _ _ _ third
  | outputStmt info arg | errorStmt info arg =>
      intro aliasNames before after result
      exact exprCopied rules arg _ _ _ _ result
  | caseStmt info caseExpr arms each =>
      intro aliasNames before after result
      rw [checkStmt, bind_eq_ok] at result
      rcases result with ⟨mid, first, second⟩
      exact (exprCopied rules caseExpr _ _ _ _ first).append (checkArms_copied each second)

/-- In an accepted function no value that is taken or overwritten through a reference
is an owner at its solved type. -/
theorem checkFunction_copied {requirements : Requirements}
    (result : checkFunction context = .ok requirements) :
    Copied context (functionDerefs context.current) := by
  rw [checkFunction, bind_eq_ok] at result
  rcases result with ⟨mid, body, kept⟩
  exact (checkStmts_copied (fun stmt _ => stmtCopied rules stmt) body).append
    (checkKept_copied rules kept)

end

end Topc.BorrowChecker
