import Topc.FrontEnd.ParserRules

/-! # What the builder makes

The trees that come out of the parser: names are as the lexer has them, numbers
fit 64 bits, and no `else` stands behind an `if` that a nearer one would take it
from. -/

namespace Topc

open Topc.Reader Topc.Lexer Topc.Parser

/-! ## Trees -/

/-- The expressions that can be built from a text. -/
inductive Expr.Built : Expr → Prop
  | numExpr {value : Int} (low : -(int64Max + 1) ≤ value) (high : value ≤ int64Max) :
      Built (.numExpr unlocated value)
  | varExpr {name : String} (identifier : isIdentifier name = true) :
      Built (.varExpr unlocated name)
  | binaryExpr {op : BinaryOp} {left right : Expr} (leftBuilt : Built left)
      (rightBuilt : Built right) : Built (.binaryExpr unlocated op left right)
  | inputExpr : Built (.inputExpr unlocated)
  | funAppExpr {function : Expr} {actuals : List Expr} (functionBuilt : Built function)
      (actualsBuilt : ∀ actual ∈ actuals, Built actual) :
      Built (.funAppExpr unlocated function actuals)
  | allocExpr {initializer : Expr} (initializerBuilt : Built initializer) :
      Built (.allocExpr unlocated initializer)
  | borrowExpr {var : Expr} (varBuilt : Built var) : Built (.borrowExpr unlocated var)
  | deRefExpr {ptr : Expr} (ptrBuilt : Built ptr) : Built (.deRefExpr unlocated ptr)
  | sumCtorExpr {tag : String} {args : List Expr} (conId : isConId tag = true)
      (argsBuilt : ∀ arg ∈ args, Built arg) : Built (.sumCtorExpr unlocated tag args)

inductive Pattern.Built : Pattern → Prop
  | var {name : String} (identifier : isIdentifier name = true) :
      Built (.var unlocated (declared name))
  | wildcard : Built (.wildcard unlocated)
  | ctor {tag : String} {subPatterns : List Pattern} (conId : isConId tag = true)
      (subPatternsBuilt : ∀ pattern ∈ subPatterns, Built pattern) :
      Built (.ctor unlocated tag subPatterns)

/-- Whether an `else` behind the statement would become a part of it. -/
def Stmt.takesElse : Stmt → Bool
  | .ifStmt _ _ _ none => true
  | .ifStmt _ _ _ (some elseStmt) => elseStmt.takesElse
  | .whileStmt _ _ body => body.takesElse
  | _ => false

/-- The parts of a case arm in front of its body. -/
structure CaseArm.HeadBuilt (arm : CaseArm) : Prop where
  info : arm.info = unlocated
  conId : isConId arm.getTag = true
  patterns : ∀ pattern ∈ arm.getPatterns, pattern.Built

inductive Stmt.Built : Stmt → Prop
  | assignStmt {lhs rhs : Expr} (lhsBuilt : lhs.Built) (rhsBuilt : rhs.Built) :
      Built (.assignStmt unlocated lhs rhs)
  | blockStmt {stmts : List Stmt} (stmtsBuilt : ∀ stmt ∈ stmts, Built stmt) :
      Built (.blockStmt unlocated stmts)
  | whileStmt {condition : Expr} {body : Stmt} (conditionBuilt : condition.Built)
      (bodyBuilt : Built body) : Built (.whileStmt unlocated condition body)
  | ifThen {condition : Expr} {thenStmt : Stmt} (conditionBuilt : condition.Built)
      (thenBuilt : Built thenStmt) : Built (.ifStmt unlocated condition thenStmt none)
  | ifElse {condition : Expr} {thenStmt elseStmt : Stmt} (conditionBuilt : condition.Built)
      (thenBuilt : Built thenStmt) (elseBuilt : Built elseStmt)
      (nearest : thenStmt.takesElse = false) :
      Built (.ifStmt unlocated condition thenStmt (some elseStmt))
  | outputStmt {arg : Expr} (argBuilt : arg.Built) : Built (.outputStmt unlocated arg)
  | errorStmt {arg : Expr} (argBuilt : arg.Built) : Built (.errorStmt unlocated arg)
  | caseStmt {caseExpr : Expr} {arms : List CaseArm} (caseExprBuilt : caseExpr.Built)
      (nonempty : arms ≠ []) (heads : ∀ arm ∈ arms, arm.HeadBuilt)
      (bodies : ∀ arm ∈ arms, Built arm.getBody) : Built (.caseStmt unlocated caseExpr arms)

/-- A declaration of an identifier. -/
def DeclNode.Built (decl : DeclNode) : Prop :=
  decl = declared decl.name ∧ isIdentifier decl.name = true

structure SumVariant.Built (variant : SumVariant) : Prop where
  conId : isConId variant.tag = true
  params : ∀ param ∈ variant.params, param.Built
  line : variant.line = 0

structure SumTypeDecl.Built (typedecl : SumTypeDecl) : Prop where
  conId : isConId typedecl.name = true
  nonempty : typedecl.variants ≠ []
  variants : ∀ variant ∈ typedecl.variants, variant.Built
  line : typedecl.line = 0

structure DeclStmt.Built (decl : DeclStmt) : Prop where
  nonempty : decl.vars ≠ []
  vars : ∀ var ∈ decl.vars, var.Built

structure ParsedFunction.Built (function : ParsedFunction) : Prop where
  decl : function.decl.Built
  formals : ∀ formal ∈ function.formals, formal.Built
  declarations : ∀ declaration ∈ function.declarations, declaration.Built
  stmts : ∀ stmt ∈ function.stmts, stmt.Built
  returnArg : function.returnArg.Built
  isPoly : function.isPoly = false

structure ParsedProgram.Built (program : ParsedProgram) : Prop where
  typedecls : ∀ typedecl ∈ program.typedecls, typedecl.Built
  functions : ∀ function ∈ program.functions, function.Built
  nonempty : program.typedecls ≠ [] ∨ program.functions ≠ []

namespace Parser

/-! ## Literals -/

theorem appendDigit_le {limit magnitude next : Nat} {symbol : Char} (large : 0x110000 ≤ limit)
    (appended : appendDigit limit magnitude symbol = some next) : next ≤ limit := by
  have symbolBound : symbol.toNat < 0x110000 := by
    rcases symbol.valid with low | high
    · exact Nat.lt_trans low (by omega)
    · exact high.2
  simp only [appendDigit] at appended
  split at appended
  · cases appended
  · cases appended
    omega

theorem magnitude_le {limit : Nat} (large : 0x110000 ≤ limit) (symbols : List Char) :
    ∀ start magnitude, start ≤ limit → symbols.foldlM (appendDigit limit) start = some magnitude →
      magnitude ≤ limit := by
  induction symbols with
  | nil =>
      rintro start magnitude le ⟨⟩
      exact le
  | cons symbol symbols induction =>
      intro start magnitude _ folded
      rw [List.foldlM_cons] at folded
      rcases Option.bind_eq_some_iff.mp folded with ⟨next, appended, folded⟩
      exact induction next magnitude (appendDigit_le large appended) folded

theorem numberLiteralValue_range {digits : String} {negative : Bool} {value : Int}
    (accepted : numberLiteralValue digits negative = some value) :
    -(int64Max + 1) ≤ value ∧ value ≤ int64Max := by
  simp only [numberLiteralValue, Option.map_eq_some_iff] at accepted
  rcases accepted with ⟨magnitude, folded, rfl⟩
  cases negative with
  | true =>
      have le := magnitude_le (by decide) _ _ _ (Nat.zero_le _) folded
      simp only [if_true] at le ⊢
      omega
  | false =>
      have le := magnitude_le (by decide) _ _ _ (Nat.zero_le _) folded
      simp only [Bool.false_eq_true, if_false] at le ⊢
      omega

/-! ## Expressions -/

/-- Every token is one the lexer makes. -/
def Lexed (tokens : List Token) : Prop := ∀ token ∈ tokens, WellFormed token

theorem Lexed.of_suffix (tokens rest : List Token) (suffix : rest <:+ tokens)
    (lexed : Lexed tokens) : Lexed rest :=
  fun token member => lexed token (suffix.subset member)

theorem Lexed.tail {first : Token} {tokens : List Token} (lexed : Lexed (first :: tokens)) :
    Lexed tokens :=
  fun token member => lexed token (List.mem_cons_of_mem first member)

theorem payload_forall {Item : Type} {item : Reader Token Item} (consumes : Consumes item)
    {Holds : Item → Prop}
    (items : ∀ tokens value rest, Lexed tokens → item tokens = some (value, rest) → Holds value)
    {tokens rest : List Token} {values : List Item} (lexed : Lexed tokens)
    (accepted : payload item tokens = some (values, rest)) : ∀ value ∈ values, Holds value := by
  unfold payload at accepted
  split at accepted
  · simp only [Option.bind_eq_some_iff, Option.some.injEq, Prod.mk.injEq,
      Prod.exists] at accepted
    rcases accepted with ⟨values, middle, read, last, -, rfl, rfl⟩
    exact separated_forall consumes Lexed.of_suffix items
      (lexed.of_suffix _ _ (List.tail_suffix tokens)) read
  · cases accepted
    exact List.forall_mem_nil _

theorem parenthesized_forall {Item : Type} {item : Reader Token Item} (consumes : Consumes item)
    {Holds : Item → Prop}
    (items : ∀ tokens value rest, Lexed tokens → item tokens = some (value, rest) → Holds value)
    {tokens rest : List Token} {values : List Item} (lexed : Lexed tokens)
    (accepted : parenthesized item tokens = some (values, rest)) :
    ∀ value ∈ values, Holds value := by
  unfold parenthesized at accepted
  split at accepted
  · cases accepted
    exact List.forall_mem_nil _
  · simp only [Option.bind_eq_some_iff, Option.some.injEq, Prod.mk.injEq,
      Prod.exists] at accepted
    rcases accepted with ⟨values, middle, read, last, -, rfl, rfl⟩
    exact separated_forall consumes Lexed.of_suffix items lexed read

def Suffix.Built : Suffix → Prop
  | .call actuals => ∀ actual ∈ actuals, actual.Built
  | .operation _ right => right.Built

theorem Suffix.attach_built {head : Expr} {suffix : Suffix} (headBuilt : head.Built)
    (suffixBuilt : suffix.Built) : (suffix.attach head).Built := by
  cases suffix with
  | call actuals => exact .funAppExpr headBuilt suffixBuilt
  | operation op right => exact .binaryExpr headBuilt suffixBuilt

theorem Suffix.foldl_built (suffixes : List Suffix) :
    ∀ head : Expr, head.Built → (∀ suffix ∈ suffixes, suffix.Built) →
      (suffixes.foldl Suffix.attach head).Built := by
  induction suffixes with
  | nil => exact fun _ headBuilt _ => headBuilt
  | cons suffix suffixes induction =>
      intro head headBuilt built
      rw [List.forall_mem_cons] at built
      exact induction _ (Suffix.attach_built headBuilt built.1) built.2

section Expressions

variable {expr : Nat → Reader Token Expr} (consumes : ∀ level, Consumes (expr level))
  (builds : ∀ level tokens value rest, expr level tokens = some (value, rest) →
    Lexed tokens → value.Built)
include consumes builds

theorem primary_built {tokens rest : List Token} {value : Expr} (lexed : Lexed tokens)
    (accepted : primary expr tokens = some (value, rest)) : value.Built := by
  cases tokens with
  | nil => cases accepted
  | cons first tokens =>
      have lexedTail := lexed.tail
      have lexedFirst := lexed first List.mem_cons_self
      unfold primary at accepted
      dsimp only at accepted
      split at accepted
      case h_2 =>
        split at accepted
        · simp only [Option.bind_eq_some_iff, Option.some.injEq, Prod.mk.injEq] at accepted
          rcases accepted with ⟨value, literal, rfl, -⟩
          have range := numberLiteralValue_range literal
          exact .numExpr range.1 range.2
        · cases accepted
      case h_4 tag =>
        unfold sumCtorExpr at accepted
        split at accepted
        · cases accepted
          exact .sumCtorExpr lexedFirst (List.forall_mem_nil _)
        · simp only [Option.bind_eq_some_iff, Option.some.injEq, Prod.mk.injEq,
            Prod.exists] at accepted
          rcases accepted with ⟨args, last, read, rfl, -⟩
          exact .sumCtorExpr lexedFirst (payload_forall (consumes 0)
            (fun tokens value rest lexed read => builds 0 tokens value rest read lexed)
            lexedTail read)
      case h_5 =>
        cases accepted
        exact .varExpr lexedFirst
      case h_6 =>
        simp only [Option.bind_eq_some_iff, Option.some.injEq, Prod.mk.injEq] at accepted
        rcases accepted with ⟨value, literal, rfl, -⟩
        have range := numberLiteralValue_range literal
        exact .numExpr range.1 range.2
      case h_7 =>
        cases accepted
        exact .inputExpr
      case h_10 => cases accepted
      all_goals
        simp only [Option.bind_eq_some_iff, Option.some.injEq, Prod.mk.injEq,
          Prod.exists] at accepted
      case h_1 =>
        rcases accepted with ⟨ptr, last, read, rfl, -⟩
        exact .deRefExpr (builds _ _ _ _ read lexedTail)
      case h_3 =>
        rcases accepted with ⟨var, last, read, rfl, -⟩
        exact .borrowExpr (builds _ _ _ _ read lexedTail)
      case h_8 =>
        rcases accepted with ⟨initializer, last, read, rfl, -⟩
        exact .allocExpr (builds _ _ _ _ read lexedTail)
      case h_9 =>
        rcases accepted with ⟨inner, last, read, closed, -, rfl, -⟩
        exact builds _ _ _ _ read lexedTail

theorem suffix_built (tokens : List Token) (value : Suffix) (rest : List Token)
    (lexed : Lexed tokens) (accepted : suffix expr tokens = some (value, rest)) :
    value.Built := by
  cases tokens with
  | nil => cases accepted
  | cons first tokens =>
      unfold suffix at accepted
      dsimp only at accepted
      split at accepted
      · simp only [Option.bind_eq_some_iff, Option.some.injEq, Prod.mk.injEq,
          Prod.exists] at accepted
        rcases accepted with ⟨right, last, read, rfl, -⟩
        exact builds _ _ _ _ read lexed.tail
      · split at accepted
        · simp only [Option.bind_eq_some_iff, Option.some.injEq, Prod.mk.injEq,
            Prod.exists] at accepted
          rcases accepted with ⟨actuals, last, read, rfl, -⟩
          exact parenthesized_forall (consumes 0)
            (fun tokens value rest lexed read => builds 0 tokens value rest read lexed)
            lexed.tail read
        · cases accepted

theorem exprStep_built {level : Nat} {tokens rest : List Token} {value : Expr}
    (accepted : exprStep expr level tokens = some (value, rest)) (lexed : Lexed tokens) :
    value.Built := by
  simp only [exprStep, suffixes, Option.bind_eq_some_iff, Option.some.injEq, Prod.mk.injEq,
    Prod.exists] at accepted
  rcases accepted with ⟨head, middle, readHead, suffixes, last, read, rfl, -⟩
  have headBuilt := primary_built consumes builds lexed readHead
  have suffix := (primary_consumes consumes _ _ _ readHead).1
  have built := (repeated_forall (suffix_consumes consumes) Lexed.of_suffix
    (suffix_built consumes builds) (lexed.of_suffix _ _ suffix) read).1
  exact Suffix.foldl_built suffixes head headBuilt built

end Expressions

theorem expr_built {level : Nat} {tokens rest : List Token} {value : Expr} (lexed : Lexed tokens)
    (accepted : expr level tokens = some (value, rest)) : value.Built :=
  Guarded.recursive_induction
    (fun _ consumes builds _ _ _ _ accepted => exprStep_built consumes builds accepted)
    exprStep_guarded accepted lexed

/-! ## Patterns -/

theorem patternStep_built {pattern : Unit → Reader Token Pattern}
    (consumes : ∀ index, Consumes (pattern index))
    (builds : ∀ index tokens value rest, pattern index tokens = some (value, rest) →
      Lexed tokens → value.Built)
    (index : Unit) (tokens : List Token) (value : Pattern) (rest : List Token)
    (accepted : patternStep pattern index tokens = some (value, rest)) (lexed : Lexed tokens) :
    value.Built := by
  unfold patternStep at accepted
  split at accepted
  · cases accepted
    exact .wildcard
  · simp only [Option.bind_eq_some_iff, Option.some.injEq, Prod.mk.injEq,
      Prod.exists] at accepted
    rcases accepted with ⟨subPatterns, last, read, rfl, -⟩
    exact .ctor (lexed _ List.mem_cons_self) (payload_forall (consumes ())
      (fun tokens value rest lexed read => builds () tokens value rest read lexed)
      lexed.tail read)
  · cases accepted
    exact .var (lexed _ List.mem_cons_self)
  · cases accepted

theorem pattern_built {tokens rest : List Token} {value : Pattern} (lexed : Lexed tokens)
    (accepted : pattern tokens = some (value, rest)) : value.Built :=
  Guarded.recursive_induction (fun _ => patternStep_built) patternStep_guarded accepted lexed

/-! ## Statements -/

theorem exprLine_built {tokens rest : List Token} {value : Expr} (lexed : Lexed tokens)
    (accepted : exprLine tokens = some (value, rest)) : value.Built := by
  simp only [exprLine, Option.bind_eq_some_iff, Option.some.injEq, Prod.mk.injEq,
    Prod.exists] at accepted
  rcases accepted with ⟨arg, middle, read, last, -, rfl, -⟩
  exact expr_built lexed read

theorem condition_built {tokens rest : List Token} {value : Expr} (lexed : Lexed tokens)
    (accepted : condition tokens = some (value, rest)) : value.Built := by
  simp only [condition, Option.bind_eq_some_iff, expect_eq_some, Option.some.injEq,
    Prod.mk.injEq, Prod.exists] at accepted
  rcases accepted with ⟨middle, rfl, condition, last, read, closed, -, rfl, -⟩
  exact expr_built lexed.tail read

theorem assignStmt_built {tokens rest : List Token} {value : Stmt} (lexed : Lexed tokens)
    (accepted : assignStmt tokens = some (value, rest)) :
    value.Built ∧ value.takesElse = false := by
  simp only [assignStmt, Option.bind_eq_some_iff, expect_eq_some, Option.some.injEq,
    Prod.mk.injEq, Prod.exists] at accepted
  rcases accepted with ⟨lhs, middle, read, last, rfl, rhs, rest, readRight, rfl, -⟩
  have lexedRest := lexed.of_suffix _ _ (expr_consumes 0 _ _ _ read).1
  exact ⟨.assignStmt (expr_built lexed read) (exprLine_built lexedRest.tail readRight), rfl⟩

/-- What a statement is built as: an `else` behind it is not its own. -/
def StmtRead (value : Stmt) (rest : List Token) : Prop :=
  value.Built ∧ (value.takesElse = true → rest.head? ≠ some .kElse)

section Statements

variable {stmt : Reader Token Stmt}
  (builds : ∀ tokens value rest, stmt tokens = some (value, rest) → Lexed tokens →
    StmtRead value rest)
include builds

theorem caseArm_built (tokens : List Token) (value : CaseArm) (rest : List Token)
    (lexed : Lexed tokens) (accepted : caseArm stmt tokens = some (value, rest)) :
    value.HeadBuilt ∧ value.getBody.Built := by
  unfold caseArm at accepted
  split at accepted
  · simp only [Option.bind_eq_some_iff, expect_eq_some, Option.some.injEq, Prod.mk.injEq,
      Prod.exists] at accepted
    rcases accepted with ⟨patterns, middle, readPatterns, last, rfl, body, rest, read, rfl, -⟩
    have patternsBuilt := payload_forall pattern_consumes
      (fun _ _ _ lexed read => pattern_built lexed read) lexed.tail readPatterns
    have lexedRest := lexed.tail.of_suffix _ _ (payload_suffix pattern_consumes readPatterns)
    exact ⟨⟨rfl, lexed _ List.mem_cons_self, patternsBuilt⟩,
      (builds _ _ _ read lexedRest.tail).1⟩
  · cases accepted

theorem caseArms_built (consumes : Consumes stmt) {tokens rest : List Token} {value : List CaseArm} (lexed : Lexed tokens)
    (accepted : caseArms stmt tokens = some (value, rest)) :
    value ≠ [] ∧ ∀ arm ∈ value, arm.HeadBuilt ∧ arm.getBody.Built := by
  simp only [caseArms, Option.bind_eq_some_iff, Prod.exists] at accepted
  rcases accepted with ⟨arms, middle, read, accepted⟩
  split at accepted
  · cases accepted
  · rename_i nonempty
    cases accepted
    exact ⟨fun empty => nonempty (List.isEmpty_iff.mpr empty),
      (repeated_forall (caseArm_consumes consumes) Lexed.of_suffix
        (caseArm_built builds) lexed read).1⟩

/-- An `if` takes the `else` that stands behind its first branch. -/
theorem ifStmt_built (consumes : Consumes stmt) {cond : Expr} (conditionBuilt : cond.Built)
    {tokens middle rest : List Token} {thenStmt : Stmt} {elseStmt? : Option Stmt}
    (lexed : Lexed tokens) (readThen : stmt tokens = some (thenStmt, middle))
    (readElse : elseStmt stmt middle = some (elseStmt?, rest)) :
    StmtRead (.ifStmt unlocated cond thenStmt elseStmt?) rest := by
  have thenRead := builds _ _ _ readThen lexed
  have lexedMiddle := lexed.of_suffix _ _ (consumes _ _ _ readThen).1
  unfold elseStmt at readElse
  split at readElse
  · rename_i isElse
    simp only [Option.bind_eq_some_iff, Option.some.injEq, Prod.mk.injEq,
      Prod.exists] at readElse
    rcases readElse with ⟨elseStmt, rest, read, rfl, rfl⟩
    have elseRead := builds _ _ _ read (lexedMiddle.of_suffix _ _ (List.tail_suffix middle))
    have nearest : thenStmt.takesElse = false := by
      cases takes : thenStmt.takesElse with
      | false => rfl
      | true => exact absurd isElse (thenRead.2 takes)
    exact ⟨.ifElse conditionBuilt thenRead.1 elseRead.1 nearest, elseRead.2⟩
  · rename_i notElse
    cases readElse
    exact ⟨.ifThen conditionBuilt thenRead.1, fun _ => notElse⟩

end Statements

theorem stmtStep_built {stmt : Unit → Reader Token Stmt}
    (consumes : ∀ index, Consumes (stmt index))
    (builds : ∀ index tokens value rest, stmt index tokens = some (value, rest) →
      Lexed tokens → StmtRead value rest)
    (index : Unit) (tokens : List Token) (value : Stmt) (rest : List Token)
    (accepted : stmtStep stmt index tokens = some (value, rest)) (lexed : Lexed tokens) :
    StmtRead value rest := by
  cases tokens with
  | nil => cases accepted
  | cons first tokens =>
      have lexedTail := lexed.tail
      unfold stmtStep at accepted
      dsimp only at accepted
      split at accepted
      case h_7 =>
        have built := assignStmt_built lexed accepted
        exact ⟨built.1, fun takes => by rw [built.2] at takes; cases takes⟩
      all_goals
        simp only [Option.bind_eq_some_iff, expect_eq_some, Option.some.injEq, Prod.mk.injEq,
          Prod.exists] at accepted
      case h_1 =>
        rcases accepted with ⟨stmts, middle, read, last, -, rfl, -⟩
        have stmtsBuilt := (repeated_forall (consumes ()) Lexed.of_suffix
          (fun tokens value rest lexed read => (builds () tokens value rest read lexed).1)
          lexedTail read).1
        exact ⟨.blockStmt stmtsBuilt, fun takes => by cases takes⟩
      case h_2 =>
        rcases accepted with ⟨cond, middle, readCondition, body, last, read, rfl, rfl⟩
        have lexedRest := lexedTail.of_suffix _ _ (condition_consumes _ _ _ readCondition).1
        have bodyRead := builds () _ _ _ read lexedRest
        exact ⟨.whileStmt (condition_built lexedTail readCondition) bodyRead.1, bodyRead.2⟩
      case h_3 =>
        rcases accepted with
          ⟨cond, middle, readCondition, thenStmt, last, readThen, elseStmt, rest, readElse, rfl,
            rfl⟩
        have lexedRest := lexedTail.of_suffix _ _ (condition_consumes _ _ _ readCondition).1
        exact ifStmt_built (builds ()) (consumes ()) (condition_built lexedTail readCondition)
          lexedRest readThen readElse
      case h_4 =>
        rcases accepted with ⟨arg, last, read, rfl, -⟩
        exact ⟨.outputStmt (exprLine_built lexedTail read), fun takes => by cases takes⟩
      case h_5 =>
        rcases accepted with ⟨arg, last, read, rfl, -⟩
        exact ⟨.errorStmt (exprLine_built lexedTail read), fun takes => by cases takes⟩
      case h_6 =>
        rcases accepted with
          ⟨caseExpr, middle, readExpr, second, rfl, third, rfl, arms, fourth, readArms, last,
            rfl, rfl, -⟩
        have lexedRest := lexedTail.of_suffix _ _ (expr_consumes 0 _ _ _ readExpr).1
        have armsBuilt := caseArms_built (builds ()) (consumes ()) lexedRest.tail.tail readArms
        exact ⟨.caseStmt (expr_built lexedTail readExpr) armsBuilt.1
          (fun arm member => (armsBuilt.2 arm member).1)
          (fun arm member => (armsBuilt.2 arm member).2), fun takes => by cases takes⟩

theorem stmt_built {tokens rest : List Token} {value : Stmt} (lexed : Lexed tokens)
    (accepted : stmt tokens = some (value, rest)) : value.Built :=
  (Guarded.recursive_induction (fun _ => stmtStep_built) stmtStep_guarded accepted lexed).1

/-! ## Programs -/

theorem nameDeclaration_built (tokens : List Token) (value : DeclNode) (rest : List Token)
    (lexed : Lexed tokens) (accepted : nameDeclaration tokens = some (value, rest)) :
    value.Built := by
  unfold nameDeclaration at accepted
  split at accepted
  · cases accepted
    exact ⟨rfl, lexed _ List.mem_cons_self⟩
  · cases accepted

theorem sumVariant_built (tokens : List Token) (value : SumVariant) (rest : List Token)
    (lexed : Lexed tokens) (accepted : sumVariant tokens = some (value, rest)) :
    value.Built := by
  unfold sumVariant at accepted
  split at accepted
  · simp only [Option.bind_eq_some_iff, Option.some.injEq, Prod.mk.injEq,
      Prod.exists] at accepted
    rcases accepted with ⟨params, last, read, rfl, -⟩
    exact ⟨lexed _ List.mem_cons_self,
      payload_forall nameDeclaration_consumes nameDeclaration_built lexed.tail read, rfl⟩
  · cases accepted

theorem typeDecl_built {tokens rest : List Token} {value : SumTypeDecl} (lexed : Lexed tokens)
    (accepted : typeDecl tokens = some (value, rest)) : value.Built := by
  unfold typeDecl at accepted
  split at accepted
  · simp only [Option.bind_eq_some_iff, Option.some.injEq, Prod.mk.injEq,
      Prod.exists] at accepted
    rcases accepted with ⟨variants, middle, read, last, -, rfl, -⟩
    have built := separated_forall sumVariant_consumes Lexed.of_suffix sumVariant_built
      lexed.tail.tail.tail read
    exact ⟨lexed.tail _ List.mem_cons_self, separated_ne_nil read, built, rfl⟩
  · cases accepted

theorem declaration_built (tokens : List Token) (value : DeclStmt) (rest : List Token)
    (lexed : Lexed tokens) (accepted : declaration tokens = some (value, rest)) :
    value.Built := by
  unfold declaration at accepted
  split at accepted
  · simp only [Option.bind_eq_some_iff, Option.some.injEq, Prod.mk.injEq,
      Prod.exists] at accepted
    rcases accepted with ⟨vars, middle, read, last, -, rfl, -⟩
    have built := separated_forall nameDeclaration_consumes Lexed.of_suffix
      nameDeclaration_built lexed.tail read
    exact ⟨separated_ne_nil read, built⟩
  · cases accepted

theorem function_built {tokens rest : List Token} {value : ParsedFunction}
    (lexed : Lexed tokens) (accepted : function tokens = some (value, rest)) :
    value.Built := by
  simp only [function, Option.bind_eq_some_iff, expect_eq_some, Option.some.injEq,
    Prod.mk.injEq, Prod.exists] at accepted
  rcases accepted with
    ⟨decl, first, readDecl, second, rfl, formals, third, readFormals, fourth, rfl,
      declarations, fifth, readDeclarations, stmts, sixth, readStmts, seventh, rfl,
      returnArg, eighth, readReturn, last, -, rfl, -⟩
  have lexedFormals : Lexed second :=
    (lexed.of_suffix _ _ (nameDeclaration_consumes _ _ _ readDecl).1).tail
  have lexedDeclarations : Lexed fourth :=
    (lexedFormals.of_suffix _ _ (parenthesized_suffix nameDeclaration_consumes readFormals)).tail
  have declarationsBuilt := repeated_forall declaration_consumes Lexed.of_suffix
    declaration_built lexedDeclarations readDeclarations
  have lexedStmts : Lexed fifth := lexedDeclarations.of_suffix _ _ declarationsBuilt.2
  have stmtsBuilt := repeated_forall stmt_consumes Lexed.of_suffix
    (fun _ _ _ lexed read => stmt_built lexed read) lexedStmts readStmts
  exact
    { decl := nameDeclaration_built _ _ _ lexed readDecl
      formals := parenthesized_forall nameDeclaration_consumes nameDeclaration_built
        lexedFormals readFormals
      declarations := declarationsBuilt.1
      stmts := stmtsBuilt.1
      returnArg := exprLine_built (lexedStmts.of_suffix _ _ stmtsBuilt.2).tail readReturn
      isPoly := rfl }

/-- A type declaration or a function. -/
def ItemBuilt : SumTypeDecl ⊕ ParsedFunction → Prop
  | .inl typedecl => typedecl.Built
  | .inr function => function.Built

theorem item_built (tokens : List Token) (value : SumTypeDecl ⊕ ParsedFunction)
    (rest : List Token) (lexed : Lexed tokens) (accepted : item tokens = some (value, rest)) :
    ItemBuilt value := by
  unfold item at accepted
  split at accepted
  · simp only [Option.bind_eq_some_iff, Option.some.injEq, Prod.mk.injEq,
      Prod.exists] at accepted
    rcases accepted with ⟨typedecl, last, read, rfl, -⟩
    exact typeDecl_built lexed read
  · simp only [Option.bind_eq_some_iff, Option.some.injEq, Prod.mk.injEq,
      Prod.exists] at accepted
    rcases accepted with ⟨function, last, read, rfl, -⟩
    exact function_built lexed read

theorem program_built {tokens : List Token} {value : ParsedProgram} (lexed : Lexed tokens)
    (accepted : program tokens = some value) : value.Built := by
  simp only [program, Option.bind_eq_some_iff, Prod.exists] at accepted
  rcases accepted with ⟨items, last, read, accepted⟩
  have itemsBuilt := (repeated_forall item_consumes Lexed.of_suffix item_built lexed read).1
  split at accepted
  · cases accepted
  · rename_i nonempty
    cases accepted
    refine { typedecls := ?_, functions := ?_, nonempty := ?_ }
    · intro typedecl member
      obtain ⟨item, itemMember, left⟩ := List.mem_filterMap.mp member
      rw [Sum.getLeft?_eq_some_iff] at left
      subst left
      exact itemsBuilt _ itemMember
    · intro function member
      obtain ⟨item, itemMember, right⟩ := List.mem_filterMap.mp member
      rw [Sum.getRight?_eq_some_iff] at right
      subst right
      exact itemsBuilt _ itemMember
    · cases items with
      | nil => exact absurd rfl nonempty
      | cons item items =>
          cases item with
          | inl typedecl => exact Or.inl (List.cons_ne_nil _ _)
          | inr function => exact Or.inr (List.cons_ne_nil _ _)

/-- Whatever is parsed is a tree the builder makes. -/
theorem parse_built {text : String} {value : ParsedProgram} (accepted : parse text = some value) :
    value.Built := by
  rcases Option.bind_eq_some_iff.mp accepted with ⟨tokens, scanned, read⟩
  exact program_built (tokenize_wellFormed scanned) read

end Parser

end Topc
