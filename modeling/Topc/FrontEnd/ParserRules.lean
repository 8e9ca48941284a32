import Topc.FrontEnd.Parser

/-! # The parser's rules as equations

Every rule consumes tokens and comes back to itself only behind a token of its
own, so the recursive readers satisfy the equations of the grammar. -/

namespace Topc

open Topc.Reader

namespace Parser

variable {Item : Type}

@[simp] theorem expect_eq_some {token : Token} {tokens rest : List Token} :
    expect token tokens = some rest ↔ tokens = token :: rest := by
  cases tokens with
  | nil => simp [expect]
  | cons first tokens => by_cases equal : first = token <;> simp [expect, equal]

@[simp] theorem expect_cons (token : Token) (rest : List Token) :
    expect token (token :: rest) = some rest := if_pos rfl

theorem expect_congr {Value : Type} {token : Token} {tokens : List Token}
    {left right : List Token → Option Value}
    (agree : ∀ rest, tokens = token :: rest → left rest = right rest) :
    (expect token tokens).bind left = (expect token tokens).bind right := by
  cases read : expect token tokens with
  | none => rfl
  | some rest => exact agree rest (expect_eq_some.mp read)

/-! ## Lists in parentheses -/

/-- What is read up to a closing parenthesis. -/
theorem closed_suffix {read : Reader Token Item} (consumes : Consumes read)
    {tokens rest : List Token} {value : Item}
    (accepted : ((read tokens).bind fun (value, rest) =>
      (expect .rightParen rest).bind fun rest => some (value, rest)) = some (value, rest)) :
    rest <:+ tokens := by
  simp only [Option.bind_eq_some_iff, expect_eq_some, Option.some.injEq, Prod.mk.injEq,
    Prod.exists] at accepted
  rcases accepted with ⟨value, middle, read, last, rfl, rfl, rfl⟩
  exact (List.suffix_cons _ _).trans (consumes _ _ _ read).1

theorem payload_suffix {item : Reader Token Item} (consumes : Consumes item)
    {tokens rest : List Token} {items : List Item}
    (accepted : payload item tokens = some (items, rest)) : rest <:+ tokens := by
  unfold payload at accepted
  split at accepted
  · exact (closed_suffix (separated_consumes consumes) accepted).trans (List.tail_suffix tokens)
  · cases accepted
    exact List.suffix_refl _

theorem parenthesized_suffix {item : Reader Token Item} (consumes : Consumes item)
    {tokens rest : List Token} {items : List Item}
    (accepted : parenthesized item tokens = some (items, rest)) : rest <:+ tokens := by
  unfold parenthesized at accepted
  split at accepted
  · cases accepted
    exact List.tail_suffix tokens
  · exact closed_suffix (separated_consumes consumes) accepted

theorem payload_congr {left right : Reader Token Item} (consumes : Consumes left)
    {length : Nat} (agree : AgreeBelow length left right) :
    AgreeBelow length (payload left) (payload right) := by
  intro tokens short
  have shortTail : tokens.tail.length < length := by
    rw [List.length_tail]
    omega
  rw [payload, payload, separated_congr consumes agree _ shortTail]

theorem parenthesized_congr {left right : Reader Token Item} (consumes : Consumes left)
    {length : Nat} (agree : AgreeBelow length left right) :
    AgreeBelow length (parenthesized left) (parenthesized right) := by
  intro tokens short
  rw [parenthesized, parenthesized, separated_congr consumes agree _ short]

/-! ## Expressions -/

section Expressions

variable {expr left right : Nat → Reader Token Expr} {length : Nat}

theorem sumCtorExpr_suffix (consumes : ∀ level, Consumes (expr level)) {tag : String}
    {tokens rest : List Token} {value : Expr}
    (accepted : sumCtorExpr expr tag tokens = some (value, rest)) : rest <:+ tokens := by
  unfold sumCtorExpr at accepted
  split at accepted
  · cases accepted
    exact List.suffix_refl _
  · simp only [Option.bind_eq_some_iff, Option.some.injEq, Prod.mk.injEq,
      Prod.exists] at accepted
    rcases accepted with ⟨args, rest, read, -, rfl⟩
    exact payload_suffix (consumes 0) read

theorem primary_consumes (consumes : ∀ level, Consumes (expr level)) :
    Consumes (primary expr) := by
  intro tokens value rest accepted
  cases tokens with
  | nil => cases accepted
  | cons first tokens =>
      apply behind_cons
      unfold primary at accepted
      dsimp only at accepted
      split at accepted
      case h_4 => exact sumCtorExpr_suffix consumes accepted
      case h_9 => exact closed_suffix (consumes 0) accepted
      case h_2 =>
        split at accepted
        · simp only [Option.bind_eq_some_iff, Option.some.injEq, Prod.mk.injEq] at accepted
          rcases accepted with ⟨value, -, -, rfl⟩
          exact List.suffix_cons _ _
        · cases accepted
      case h_5 | h_7 =>
        cases accepted
        exact List.suffix_refl _
      case h_6 =>
        simp only [Option.bind_eq_some_iff, Option.some.injEq, Prod.mk.injEq] at accepted
        rcases accepted with ⟨value, -, -, rfl⟩
        exact List.suffix_refl _
      case h_10 => cases accepted
      all_goals
        simp only [Option.bind_eq_some_iff, Option.some.injEq, Prod.mk.injEq,
          Prod.exists] at accepted
        rcases accepted with ⟨value, rest, read, -, rfl⟩
        exact (consumes _ _ _ _ read).1

theorem suffix_consumes (consumes : ∀ level, Consumes (expr level)) :
    Consumes (suffix expr) := by
  intro tokens value rest accepted
  cases tokens with
  | nil => cases accepted
  | cons first tokens =>
      apply behind_cons
      unfold suffix at accepted
      dsimp only at accepted
      split at accepted
      · simp only [Option.bind_eq_some_iff, Option.some.injEq, Prod.mk.injEq,
          Prod.exists] at accepted
        rcases accepted with ⟨right, rest, read, -, rfl⟩
        exact (consumes _ _ _ _ read).1
      · split at accepted
        · simp only [Option.bind_eq_some_iff, Option.some.injEq, Prod.mk.injEq,
            Prod.exists] at accepted
          rcases accepted with ⟨actuals, rest, read, -, rfl⟩
          exact parenthesized_suffix (consumes 0) read
        · cases accepted

theorem suffixes_suffix (consumes : ∀ level, Consumes (expr level)) {level : Nat}
    {head value : Expr} {tokens rest : List Token}
    (accepted : suffixes expr level head tokens = some (value, rest)) : rest <:+ tokens := by
  simp only [suffixes, Option.bind_eq_some_iff, Option.some.injEq, Prod.mk.injEq,
    Prod.exists] at accepted
  rcases accepted with ⟨suffixes, rest, read, -, rfl⟩
  exact repeated_suffix (suffix_consumes consumes) read

theorem primary_congr (consumes : ∀ level, Consumes (left level))
    (agree : ∀ level, AgreeBelow length (left level) (right level)) :
    AgreeBelow (length + 1) (primary left) (primary right) := by
  intro tokens short
  cases tokens with
  | nil => rfl
  | cons first tokens =>
      have shorter : tokens.length < length := by
        rw [List.length_cons] at short
        omega
      have operands := fun level => agree level tokens shorter
      have args := payload_congr (consumes 0) (agree 0) tokens shorter
      simp only [primary, sumCtorExpr, operands, args]

theorem suffix_congr (consumes : ∀ level, Consumes (left level))
    (agree : ∀ level, AgreeBelow length (left level) (right level)) :
    AgreeBelow (length + 1) (suffix left) (suffix right) := by
  intro tokens short
  cases tokens with
  | nil => rfl
  | cons first tokens =>
      have shorter : tokens.length < length := by
        rw [List.length_cons] at short
        omega
      have operands := fun level => agree level tokens shorter
      have actuals := parenthesized_congr (consumes 0) (agree 0) tokens shorter
      simp only [suffix, operands, actuals]

theorem exprStep_guarded : Guarded exprStep where
  consumes expr consumes level tokens value rest accepted := by
    simp only [exprStep, Option.bind_eq_some_iff, Prod.exists] at accepted
    rcases accepted with ⟨head, middle, read, accepted⟩
    exact (primary_consumes consumes _ _ _ read).of_suffix (suffixes_suffix consumes accepted)
  congr left right consumes length agree level tokens short := by
    rw [exprStep, exprStep, ← primary_congr consumes agree tokens short]
    apply Reader.bind_congr
    intro head rest accepted
    have behind := primary_consumes consumes _ _ _ accepted
    simp only [suffixes, repeated_congr (suffix_consumes consumes) (suffix_congr consumes agree)
      rest (Nat.lt_trans behind.2 short)]

theorem expr_consumes (level : Nat) : Consumes (Parser.expr level) :=
  exprStep_guarded.recursive_consumes level

/-- The rule `expr`. -/
theorem expr_eq (level : Nat) (tokens : List Token) :
    Parser.expr level tokens =
      (primary Parser.expr tokens).bind fun (head, rest) =>
        suffixes Parser.expr level head rest :=
  exprStep_guarded.recursive_eq level tokens

end Expressions

/-! ## Patterns -/

theorem patternStep_guarded : Guarded patternStep where
  consumes pattern consumes _ tokens value rest accepted := by
    unfold patternStep at accepted
    split at accepted
    · cases accepted
      exact behind_cons _ (List.suffix_refl _)
    · simp only [Option.bind_eq_some_iff, Option.some.injEq, Prod.mk.injEq,
        Prod.exists] at accepted
      rcases accepted with ⟨subPatterns, rest, read, -, rfl⟩
      exact behind_cons _ (payload_suffix (consumes ()) read)
    · cases accepted
      exact behind_cons _ (List.suffix_refl _)
    · cases accepted
  congr left right consumes length agree _ tokens short := by
    unfold patternStep
    split
    · rfl
    · rename_i tokens
      have shorter : tokens.length < length := by
        rw [List.length_cons] at short
        omega
      rw [payload_congr (consumes ()) (agree ()) tokens shorter]
    · rfl
    · rfl

theorem pattern_consumes : Consumes pattern :=
  patternStep_guarded.recursive_consumes ()

/-- The rule `pattern`. -/
theorem pattern_eq (tokens : List Token) :
    pattern tokens = patternStep (fun _ => pattern) () tokens :=
  patternStep_guarded.recursive_eq () tokens

/-! ## Statements -/

theorem exprLine_consumes : Consumes exprLine := by
  intro tokens value rest accepted
  simp only [exprLine, Option.bind_eq_some_iff, expect_eq_some, Option.some.injEq,
    Prod.mk.injEq, Prod.exists] at accepted
  rcases accepted with ⟨arg, middle, read, last, rfl, -, rfl⟩
  exact (expr_consumes 0 _ _ _ read).of_suffix (List.suffix_cons _ _)

theorem condition_consumes : Consumes condition := by
  intro tokens value rest accepted
  simp only [condition, Option.bind_eq_some_iff, expect_eq_some, Option.some.injEq,
    Prod.mk.injEq, Prod.exists] at accepted
  rcases accepted with ⟨first, rfl, condition, middle, read, last, rfl, -, rfl⟩
  exact behind_cons _ ((List.suffix_cons _ _).trans (expr_consumes 0 _ _ _ read).1)

theorem assignStmt_consumes : Consumes assignStmt := by
  intro tokens value rest accepted
  simp only [assignStmt, Option.bind_eq_some_iff, expect_eq_some, Option.some.injEq,
    Prod.mk.injEq, Prod.exists] at accepted
  rcases accepted with ⟨lhs, middle, read, last, rfl, rhs, rest, readRight, -, rfl⟩
  exact (expr_consumes 0 _ _ _ read).of_suffix
    ((exprLine_consumes _ _ _ readRight).1.trans (List.suffix_cons _ _))

section Statements

variable {stmt left right : Reader Token Stmt} {length : Nat}

theorem elseStmt_suffix (consumes : Consumes stmt) {tokens rest : List Token}
    {value : Option Stmt} (accepted : elseStmt stmt tokens = some (value, rest)) :
    rest <:+ tokens := by
  unfold elseStmt at accepted
  split at accepted
  · simp only [Option.bind_eq_some_iff, Option.some.injEq, Prod.mk.injEq,
      Prod.exists] at accepted
    rcases accepted with ⟨elseStmt, rest, read, -, rfl⟩
    exact (consumes _ _ _ read).1.trans (List.tail_suffix tokens)
  · cases accepted
    exact List.suffix_refl _

theorem caseArm_consumes (consumes : Consumes stmt) : Consumes (caseArm stmt) := by
  intro tokens value rest accepted
  unfold caseArm at accepted
  split at accepted
  · simp only [Option.bind_eq_some_iff, expect_eq_some, Option.some.injEq, Prod.mk.injEq,
      Prod.exists] at accepted
    rcases accepted with ⟨patterns, middle, readPatterns, last, rfl, body, rest, read, -, rfl⟩
    exact behind_cons _ ((consumes _ _ _ read).1.trans
      ((List.suffix_cons _ _).trans (payload_suffix pattern_consumes readPatterns)))
  · cases accepted

theorem caseArms_suffix (consumes : Consumes stmt) {tokens rest : List Token}
    {value : List CaseArm} (accepted : caseArms stmt tokens = some (value, rest)) :
    rest <:+ tokens := by
  simp only [caseArms, Option.bind_eq_some_iff, Prod.exists] at accepted
  rcases accepted with ⟨arms, middle, read, accepted⟩
  split at accepted
  · cases accepted
  · cases accepted
    exact repeated_suffix (caseArm_consumes consumes) read

theorem elseStmt_congr (agree : AgreeBelow length left right) :
    AgreeBelow length (elseStmt left) (elseStmt right) := by
  intro tokens short
  have shortTail : tokens.tail.length < length := by
    rw [List.length_tail]
    omega
  rw [elseStmt, elseStmt, agree _ shortTail]

theorem caseArm_congr (agree : AgreeBelow length left right) :
    AgreeBelow length (caseArm left) (caseArm right) := by
  intro tokens short
  unfold caseArm
  split
  · apply Reader.bind_congr
    intro patterns middle readPatterns
    have suffix := payload_suffix pattern_consumes readPatterns
    apply expect_congr
    rintro middle rfl
    have shorter : middle.length < length := by
      have le := suffix.length_le
      rw [List.length_cons] at le short
      omega
    rw [agree middle shorter]
  · rfl

theorem caseArms_congr (consumes : Consumes left) (agree : AgreeBelow length left right) :
    AgreeBelow length (caseArms left) (caseArms right) := by
  intro tokens short
  rw [caseArms, caseArms,
    repeated_congr (caseArm_consumes consumes) (caseArm_congr agree) tokens short]

end Statements

theorem stmtStep_guarded : Guarded stmtStep where
  consumes stmt consumes _ tokens value rest accepted := by
    cases tokens with
    | nil => cases accepted
    | cons first tokens =>
        unfold stmtStep at accepted
        dsimp only at accepted
        split at accepted
        case h_7 => exact assignStmt_consumes _ _ _ accepted
        all_goals
          apply behind_cons
          simp only [Option.bind_eq_some_iff, expect_eq_some, Option.some.injEq, Prod.mk.injEq,
            Prod.exists] at accepted
        · rcases accepted with ⟨stmts, middle, read, last, rfl, -, rfl⟩
          exact (List.suffix_cons _ _).trans (repeated_suffix (consumes ()) read)
        · rcases accepted with ⟨condition, middle, readCondition, body, rest, read, -, rfl⟩
          exact (consumes () _ _ _ read).1.trans (condition_consumes _ _ _ readCondition).1
        · rcases accepted with
            ⟨condition, middle, readCondition, thenStmt, last, readThen, elseStmt, rest, readElse,
              -, rfl⟩
          exact (elseStmt_suffix (consumes ()) readElse).trans
            ((consumes () _ _ _ readThen).1.trans (condition_consumes _ _ _ readCondition).1)
        · rcases accepted with ⟨arg, rest, read, -, rfl⟩
          exact (exprLine_consumes _ _ _ read).1
        · rcases accepted with ⟨arg, rest, read, -, rfl⟩
          exact (exprLine_consumes _ _ _ read).1
        · rcases accepted with
            ⟨caseExpr, middle, readExpr, second, rfl, third, rfl, arms, fourth, readArms, last,
              rfl, -, rfl⟩
          exact (List.suffix_cons _ _).trans ((caseArms_suffix (consumes ()) readArms).trans
            ((List.suffix_cons _ _).trans ((List.suffix_cons _ _).trans
              (expr_consumes 0 _ _ _ readExpr).1)))
  congr left right consumes length agree _ tokens short := by
    cases tokens with
    | nil => rfl
    | cons first tokens =>
        have shorter : tokens.length < length := by
          rw [List.length_cons] at short
          omega
        unfold stmtStep
        dsimp only
        split
        case h_4 | h_5 | h_7 => rfl
        case h_1 => rw [repeated_congr (consumes ()) (agree ()) tokens shorter]
        case h_2 =>
          apply Reader.bind_congr
          intro condition rest read
          have less := (condition_consumes _ _ _ read).2
          simp only [agree () rest (by omega)]
        case h_3 =>
          apply Reader.bind_congr
          intro condition rest read
          have less := (condition_consumes _ _ _ read).2
          simp only [← agree () rest (by omega)]
          apply Reader.bind_congr
          intro thenStmt last readThen
          have lesser := (consumes () _ _ _ readThen).2
          simp only [elseStmt_congr (agree ()) last (by omega)]
        case h_6 =>
          apply Reader.bind_congr
          intro caseExpr rest read
          have less := (expr_consumes 0 _ _ _ read).2
          apply expect_congr
          rintro rest rfl
          apply expect_congr
          rintro rest rfl
          rw [List.length_cons, List.length_cons] at less
          simp only [caseArms_congr (consumes ()) (agree ()) rest (by omega)]

theorem stmt_consumes : Consumes stmt :=
  stmtStep_guarded.recursive_consumes ()

/-- The rule `statement`. -/
theorem stmt_eq (tokens : List Token) :
    stmt tokens = stmtStep (fun _ => stmt) () tokens :=
  stmtStep_guarded.recursive_eq () tokens

/-! ## Programs -/

theorem nameDeclaration_consumes : Consumes nameDeclaration := by
  intro tokens value rest accepted
  unfold nameDeclaration at accepted
  split at accepted
  · cases accepted
    exact behind_cons _ (List.suffix_refl _)
  · cases accepted

theorem sumVariant_consumes : Consumes sumVariant := by
  intro tokens value rest accepted
  unfold sumVariant at accepted
  split at accepted
  · simp only [Option.bind_eq_some_iff, Option.some.injEq, Prod.mk.injEq,
      Prod.exists] at accepted
    rcases accepted with ⟨params, rest, read, -, rfl⟩
    exact behind_cons _ (payload_suffix nameDeclaration_consumes read)
  · cases accepted

theorem typeDecl_consumes : Consumes typeDecl := by
  intro tokens value rest accepted
  unfold typeDecl at accepted
  split at accepted
  · simp only [Option.bind_eq_some_iff, expect_eq_some, Option.some.injEq, Prod.mk.injEq,
      Prod.exists] at accepted
    rcases accepted with ⟨variants, middle, read, last, rfl, -, rfl⟩
    have suffix := (separated_consumes sumVariant_consumes _ _ _ read).1
    exact behind_cons _ ((List.suffix_cons _ _).trans (suffix.trans
      ((List.suffix_cons _ _).trans (List.suffix_cons _ _))))
  · cases accepted

theorem declaration_consumes : Consumes declaration := by
  intro tokens value rest accepted
  unfold declaration at accepted
  split at accepted
  · simp only [Option.bind_eq_some_iff, expect_eq_some, Option.some.injEq, Prod.mk.injEq,
      Prod.exists] at accepted
    rcases accepted with ⟨vars, middle, read, last, rfl, -, rfl⟩
    exact behind_cons _ ((List.suffix_cons _ _).trans
      (separated_consumes nameDeclaration_consumes _ _ _ read).1)
  · cases accepted

theorem function_consumes : Consumes function := by
  intro tokens value rest accepted
  simp only [function, Option.bind_eq_some_iff, expect_eq_some, Option.some.injEq,
    Prod.mk.injEq, Prod.exists] at accepted
  rcases accepted with
    ⟨decl, first, readDecl, second, rfl, formals, third, readFormals, fourth, rfl,
      declarations, fifth, readDeclarations, stmts, sixth, readStmts, seventh, rfl,
      returnArg, eighth, readReturn, last, rfl, -, rfl⟩
  apply (nameDeclaration_consumes _ _ _ readDecl).of_suffix
  have opened : fourth <:+ second := (List.suffix_cons _ _).trans
    (parenthesized_suffix nameDeclaration_consumes readFormals)
  have body : fifth <:+ fourth := repeated_suffix declaration_consumes readDeclarations
  have returned : seventh <:+ fifth :=
    (List.suffix_cons _ _).trans (repeated_suffix stmt_consumes readStmts)
  have ended : last <:+ seventh :=
    (List.suffix_cons _ _).trans (exprLine_consumes _ _ _ readReturn).1
  exact (ended.trans (returned.trans (body.trans opened))).trans (List.suffix_cons _ _)

theorem item_consumes : Consumes item := by
  intro tokens value rest accepted
  unfold item at accepted
  split at accepted
  · simp only [Option.bind_eq_some_iff, Option.some.injEq, Prod.mk.injEq,
      Prod.exists] at accepted
    rcases accepted with ⟨typedecl, rest, read, -, rfl⟩
    exact typeDecl_consumes _ _ _ read
  · simp only [Option.bind_eq_some_iff, Option.some.injEq, Prod.mk.injEq,
      Prod.exists] at accepted
    rcases accepted with ⟨function, rest, read, -, rfl⟩
    exact function_consumes _ _ _ read

end Parser

end Topc
