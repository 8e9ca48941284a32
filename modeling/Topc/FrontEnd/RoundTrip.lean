import Topc.FrontEnd.Reparsing

/-! # Parsing a printed program

Statements, patterns and declarations are parsed as they were printed, so a
program comes back with the expressions that come back. -/

namespace Topc

open Topc.Reader Topc.PrettyPrinter Topc.Parser

/-! ## Statements with reparsed expressions -/

mutual
def Stmt.reparse : Stmt → Stmt
  | .assignStmt info lhs rhs => .assignStmt info lhs.reparse rhs.reparse
  | .blockStmt info stmts => .blockStmt info (Stmt.reparseAll stmts)
  | .whileStmt info condition body => .whileStmt info condition.reparse body.reparse
  | .ifStmt info condition thenStmt elseStmt =>
      .ifStmt info condition.reparse thenStmt.reparse (Stmt.reparseElse elseStmt)
  | .outputStmt info arg => .outputStmt info arg.reparse
  | .errorStmt info arg => .errorStmt info arg.reparse
  | .caseStmt info caseExpr arms => .caseStmt info caseExpr.reparse (CaseArm.reparseAll arms)

def Stmt.reparseAll : List Stmt → List Stmt
  | [] => []
  | stmt :: stmts => stmt.reparse :: Stmt.reparseAll stmts

def Stmt.reparseElse : Option Stmt → Option Stmt
  | none => none
  | some stmt => some stmt.reparse

def CaseArm.reparse : CaseArm → CaseArm
  | .mk info tag patterns body => .mk info tag patterns body.reparse

def CaseArm.reparseAll : List CaseArm → List CaseArm
  | [] => []
  | arm :: arms => arm.reparse :: CaseArm.reparseAll arms
end

mutual
/-- Every expression of the statement keeps its nesting. -/
def Stmt.keepsNesting : Stmt → Bool
  | .assignStmt _ lhs rhs => lhs.keepsNesting && rhs.keepsNesting
  | .blockStmt _ stmts => Stmt.allKeepNesting stmts
  | .whileStmt _ condition body => condition.keepsNesting && body.keepsNesting
  | .ifStmt _ condition thenStmt elseStmt =>
      condition.keepsNesting && thenStmt.keepsNesting && Stmt.elseKeepsNesting elseStmt
  | .outputStmt _ arg => arg.keepsNesting
  | .errorStmt _ arg => arg.keepsNesting
  | .caseStmt _ caseExpr arms => caseExpr.keepsNesting && CaseArm.allKeepNesting arms

def Stmt.allKeepNesting : List Stmt → Bool
  | [] => true
  | stmt :: stmts => stmt.keepsNesting && Stmt.allKeepNesting stmts

def Stmt.elseKeepsNesting : Option Stmt → Bool
  | none => true
  | some stmt => stmt.keepsNesting

def CaseArm.keepsNesting : CaseArm → Bool
  | .mk _ _ _ body => body.keepsNesting

def CaseArm.allKeepNesting : List CaseArm → Bool
  | [] => true
  | arm :: arms => arm.keepsNesting && CaseArm.allKeepNesting arms
end

theorem Stmt.reparseAll_eq_map (stmts : List Stmt) :
    Stmt.reparseAll stmts = stmts.map Stmt.reparse := by
  induction stmts with
  | nil => rfl
  | cons stmt stmts induction => rw [Stmt.reparseAll, induction, List.map_cons]

theorem CaseArm.reparseAll_eq_map (arms : List CaseArm) :
    CaseArm.reparseAll arms = arms.map CaseArm.reparse := by
  induction arms with
  | nil => rfl
  | cons arm arms induction => rw [CaseArm.reparseAll, induction, List.map_cons]

theorem Stmt.allKeepNesting_eq_all (stmts : List Stmt) :
    Stmt.allKeepNesting stmts = stmts.all Stmt.keepsNesting := by
  induction stmts with
  | nil => rfl
  | cons stmt stmts induction => rw [Stmt.allKeepNesting, induction, List.all_cons]

theorem CaseArm.allKeepNesting_eq_all (arms : List CaseArm) :
    CaseArm.allKeepNesting arms = arms.all CaseArm.keepsNesting := by
  induction arms with
  | nil => rfl
  | cons arm arms induction => rw [CaseArm.allKeepNesting, induction, List.all_cons]

theorem CaseArm.reparse_eq_self_iff (arm : CaseArm) :
    arm.reparse = arm ↔ arm.getBody.reparse = arm.getBody := by
  cases arm with
  | mk info tag patterns body =>
      rw [CaseArm.reparse, CaseArm.mk.injEq]
      simp only [true_and]
      exact Iff.rfl

theorem CaseArm.keepsNesting_eq (arm : CaseArm) :
    arm.keepsNesting = arm.getBody.keepsNesting := by
  cases arm with
  | mk info tag patterns body => rw [CaseArm.keepsNesting, CaseArm.getBody]

open Topc.Expr (map_eq_self_iff) in
theorem Stmt.reparse_eq_self_iff {stmt : Stmt} (built : stmt.Built) :
    stmt.reparse = stmt ↔ stmt.keepsNesting = true := by
  induction built with
  | assignStmt lhsBuilt rhsBuilt =>
      simp only [Stmt.reparse, Stmt.keepsNesting, Stmt.assignStmt.injEq, true_and,
        Expr.reparse_eq_self_iff lhsBuilt, Expr.reparse_eq_self_iff rhsBuilt, Bool.and_eq_true]
  | @blockStmt stmts stmtsBuilt stmtsIff =>
      simp only [Stmt.reparse, Stmt.keepsNesting, Stmt.blockStmt.injEq, true_and,
        Stmt.reparseAll_eq_map, map_eq_self_iff, Stmt.allKeepNesting_eq_all, List.all_eq_true]
      exact forall₂_congr stmtsIff
  | whileStmt conditionBuilt bodyBuilt bodyIff =>
      simp only [Stmt.reparse, Stmt.keepsNesting, Stmt.whileStmt.injEq, true_and,
        Expr.reparse_eq_self_iff conditionBuilt, bodyIff, Bool.and_eq_true]
  | ifThen conditionBuilt thenBuilt thenIff =>
      simp only [Stmt.reparse, Stmt.reparseElse, Stmt.keepsNesting, Stmt.elseKeepsNesting,
        Stmt.ifStmt.injEq, true_and, and_true, Expr.reparse_eq_self_iff conditionBuilt, thenIff,
        Bool.and_eq_true]
  | ifElse conditionBuilt thenBuilt elseBuilt nearest thenIff elseIff =>
      simp only [Stmt.reparse, Stmt.reparseElse, Stmt.keepsNesting, Stmt.elseKeepsNesting,
        Stmt.ifStmt.injEq, true_and, Expr.reparse_eq_self_iff conditionBuilt, thenIff, elseIff,
        Option.some.injEq, Bool.and_eq_true, and_assoc]
  | outputStmt argBuilt =>
      simp only [Stmt.reparse, Stmt.keepsNesting, Stmt.outputStmt.injEq, true_and,
        Expr.reparse_eq_self_iff argBuilt]
  | errorStmt argBuilt =>
      simp only [Stmt.reparse, Stmt.keepsNesting, Stmt.errorStmt.injEq, true_and,
        Expr.reparse_eq_self_iff argBuilt]
  | @caseStmt caseExpr arms caseExprBuilt nonempty heads bodies bodiesIff =>
      simp only [Stmt.reparse, Stmt.keepsNesting, Stmt.caseStmt.injEq, true_and,
        Expr.reparse_eq_self_iff caseExprBuilt, CaseArm.reparseAll_eq_map, map_eq_self_iff,
        CaseArm.allKeepNesting_eq_all, List.all_eq_true, Bool.and_eq_true,
        CaseArm.reparse_eq_self_iff, CaseArm.keepsNesting_eq]
      apply and_congr_right
      intro _
      exact forall₂_congr bodiesIff

def ParsedFunction.reparse (function : ParsedFunction) : ParsedFunction :=
  { function with
    stmts := function.stmts.map Stmt.reparse
    returnArg := function.returnArg.reparse }

def ParsedProgram.reparse (program : ParsedProgram) : ParsedProgram :=
  { program with functions := program.functions.map ParsedFunction.reparse }

def ParsedFunction.keepsNesting (function : ParsedFunction) : Bool :=
  function.stmts.all Stmt.keepsNesting && function.returnArg.keepsNesting

/-- Every expression of the program keeps its nesting when it is printed. -/
def ParsedProgram.keepsNesting (program : ParsedProgram) : Bool :=
  program.functions.all ParsedFunction.keepsNesting

open Topc.Expr (map_eq_self_iff) in
theorem ParsedFunction.reparse_eq_self_iff {function : ParsedFunction} (built : function.Built) :
    function.reparse = function ↔ function.keepsNesting = true := by
  have stmtsIff : function.stmts.map Stmt.reparse = function.stmts ↔
      function.stmts.all Stmt.keepsNesting = true := by
    rw [map_eq_self_iff, List.all_eq_true]
    exact forall₂_congr fun stmt member => Stmt.reparse_eq_self_iff (built.stmts stmt member)
  rw [ParsedFunction.keepsNesting, Bool.and_eq_true, ← stmtsIff,
    ← Expr.reparse_eq_self_iff built.returnArg]
  cases function with
  | mk decl formals declarations stmts returnArg isPoly =>
      simp only [ParsedFunction.reparse, ParsedFunction.mk.injEq, true_and, and_true]

open Topc.Expr (map_eq_self_iff) in
theorem ParsedProgram.reparse_eq_self_iff {program : ParsedProgram} (built : program.Built) :
    program.reparse = program ↔ program.keepsNesting = true := by
  have functionsIff : program.functions.map ParsedFunction.reparse = program.functions ↔
      program.functions.all ParsedFunction.keepsNesting = true := by
    rw [map_eq_self_iff, List.all_eq_true]
    exact forall₂_congr fun function member =>
      ParsedFunction.reparse_eq_self_iff (built.functions function member)
  rw [ParsedProgram.keepsNesting, ← functionsIff]
  cases program with
  | mk typedecls functions =>
      simp only [ParsedProgram.reparse, ParsedProgram.mk.injEq, true_and]

namespace Parser

/-! ## Payloads and patterns -/

theorem payload_spelled {Item Source : Type} {item : Reader Token Item}
    (consumes : Consumes item) {spell : Source → List Token} {value : Source → Item}
    {Follows : List Token → Prop} {sources : List Source} {rest : List Token}
    (reading : ∀ source ∈ sources, ∀ tokens, Follows tokens →
      item (spell source ++ tokens) = some (value source, tokens))
    (comma : ∀ tokens, Follows (.comma :: tokens))
    (closed : ∀ tokens, Follows (.rightParen :: tokens))
    (ends : rest.head? ≠ some .leftParen) :
    payload item (payloadTokens (sources.map spell) ++ rest) = some (sources.map value, rest) := by
  cases sources with
  | nil =>
      change payload item rest = some ([], rest)
      rw [payload, if_neg ends]
  | cons first others =>
      have read : separated .comma item
          (separate .comma ((first :: others).map spell) ++ .rightParen :: rest) =
            some ((first :: others).map value, .rightParen :: rest) :=
        separated_spelled consumes (List.cons_ne_nil _ _) reading comma (closed _) rfl
      have spelled : payloadTokens ((first :: others).map spell) ++ rest =
          .leftParen :: (separate .comma ((first :: others).map spell) ++ .rightParen :: rest) := by
        simp [payloadTokens]
      rw [spelled, payload, if_pos List.head?_cons, List.tail_cons, read]
      simp only [Option.bind_some, expect_cons]

/-- Behind a pattern, no payload may follow. -/
def EndsPattern (tokens : List Token) : Prop := tokens.head? ≠ some .leftParen

theorem pattern_spelled {tree : Pattern} (built : tree.Built) {rest : List Token}
    (ends : EndsPattern rest) : pattern (patternTokens tree ++ rest) = some (tree, rest) := by
  induction built generalizing rest with
  | var identifier =>
      rw [pattern_eq]
      rfl
  | wildcard =>
      rw [pattern_eq]
      rfl
  | @ctor tag subPatterns conId subPatternsBuilt subPatternsRead =>
      have read : payload pattern (payloadTokens (subPatterns.map patternTokens) ++ rest) =
          some (subPatterns.map id, rest) :=
        payload_spelled pattern_consumes
          (fun tree member tokens ends => subPatternsRead tree member ends)
          (fun _ => by simp [EndsPattern]) (fun _ => by simp [EndsPattern]) ends
      rw [pattern_eq, patternTokens, List.cons_append, patternStep, patternsTokens_eq_map, read,
        List.map_id]
      rfl

/-! ## Statements -/

theorem exprLine_spelled {tree : Expr} (built : tree.Built) (rest : List Token) :
    exprLine (exprTokens tree ++ .semicolon :: rest) = some (tree.reparse, rest) := by
  rw [exprLine, expr_reparse built (stops_of_not_continuing (by decide) rfl)]
  simp only [Option.bind_some, expect_cons]

theorem condition_spelled {tree : Expr} (built : tree.Built) (rest : List Token) :
    condition (.leftParen :: (exprTokens tree ++ .rightParen :: rest)) =
      some (tree.reparse, rest) := by
  rw [condition, expect_cons, Option.bind_some,
    expr_reparse built (stops_of_not_continuing (by decide) rfl)]
  simp only [Option.bind_some, expect_cons]

theorem assignStmt_spelled {lhs rhs : Expr} (lhsBuilt : lhs.Built) (rhsBuilt : rhs.Built)
    (rest : List Token) :
    assignStmt (exprTokens lhs ++ .assign :: (exprTokens rhs ++ .semicolon :: rest)) =
      some (.assignStmt unlocated lhs.reparse rhs.reparse, rest) := by
  rw [assignStmt, expr_reparse lhsBuilt (stops_of_not_continuing (by decide) rfl)]
  simp only [Option.bind_some, expect_cons, exprLine_spelled rhsBuilt]

/-- A statement that begins with an expression is an assignment. -/
theorem stmtStep_assign {first : Token} (starts : startsExpr first = true) (rest : List Token) :
    stmtStep (fun _ => stmt) () (first :: rest) = assignStmt (first :: rest) := by
  cases first <;> first | rfl | cases starts

/-- An `else` is not behind the tokens' front. -/
def EndsStmt (tokens : List Token) : Prop := tokens.head? ≠ some .kElse

theorem startsStmt_of_startsExpr {token : Token} (starts : startsExpr token = true) :
    startsStmt token = true := by
  cases token <;> first | rfl | cases starts

theorem stmtTokens_start (tree : Stmt) :
    ∃ first others, stmtTokens tree = first :: others ∧ startsStmt first = true := by
  cases tree with
  | assignStmt info lhs rhs =>
      obtain ⟨first, others, spelled, starts⟩ := exprTokens_start lhs
      exact ⟨first, _, by rw [stmtTokens, spelled]; rfl, startsStmt_of_startsExpr starts⟩
  | _ => exact ⟨_, _, rfl, rfl⟩

theorem stmtTokens_starts (tree : Stmt) (tokens : List Token) :
    (stmtTokens tree ++ tokens).head?.any startsStmt = true := by
  obtain ⟨first, others, spelled, starts⟩ := stmtTokens_start tree
  rw [spelled]
  exact starts

theorem stmtTokens_endsStmt (tree : Stmt) (tokens : List Token) :
    EndsStmt (stmtTokens tree ++ tokens) := by
  obtain ⟨first, others, spelled, starts⟩ := stmtTokens_start tree
  rw [spelled]
  intro isElse
  have first_eq : first = .kElse := Option.some.inj isElse
  rw [first_eq] at starts
  cases starts

theorem stmts_spelled {stmts : List Stmt} {rest : List Token}
    (reads : ∀ tree ∈ stmts, ∀ {rest : List Token}, (tree.takesElse = true → EndsStmt rest) →
      stmt (stmtTokens tree ++ rest) = some (tree.reparse, rest))
    (ends : EndsStmt rest) (stops : rest.head?.any startsStmt = false) :
    repeated startsStmt stmt (stmts.flatMap stmtTokens ++ rest) =
      some (stmts.map Stmt.reparse, rest) :=
  repeated_spelled stmt_consumes stmts (fun tree _ => stmtTokens_starts tree)
    (fun tree _ => stmtTokens_endsStmt tree)
    (fun tree member _ ends => reads tree member fun _ => ends) ends stops

theorem caseArm_spelled {arm : CaseArm} (built : arm.HeadBuilt) {rest : List Token}
    (body : stmt (stmtTokens arm.getBody ++ rest) = some (arm.getBody.reparse, rest)) :
    caseArm stmt (armTokens arm ++ rest) = some (arm.reparse, rest) := by
  obtain ⟨info, tag, patterns, armBody⟩ := arm
  have infoEq : info = unlocated := built.info
  have bodyRead : stmt (stmtTokens armBody ++ rest) = some (armBody.reparse, rest) := body
  have read : payload pattern
      (payloadTokens (patterns.map patternTokens) ++ .arrow :: (stmtTokens armBody ++ rest)) =
        some (patterns.map id, .arrow :: (stmtTokens armBody ++ rest)) :=
    payload_spelled pattern_consumes
      (fun tree member tokens ends => pattern_spelled (built.patterns tree member) ends)
      (fun _ => by simp [EndsPattern]) (fun _ => by simp [EndsPattern]) (by simp)
  have spelled : armTokens (.mk info tag patterns armBody) ++ rest = .conId tag ::
      (payloadTokens (patterns.map patternTokens) ++ .arrow :: (stmtTokens armBody ++ rest)) := by
    simp [armTokens, patternsTokens_eq_map]
  rw [spelled, caseArm, read]
  simp only [Option.bind_some, expect_cons, bodyRead, List.map_id, CaseArm.reparse, infoEq]

theorem armTokens_starts (arm : CaseArm) (tokens : List Token) :
    (armTokens arm ++ tokens).head?.any startsArm = true := by
  cases arm
  rfl

theorem armTokens_endsStmt (arm : CaseArm) (tokens : List Token) :
    EndsStmt (armTokens arm ++ tokens) := by
  cases arm
  simp [EndsStmt, armTokens]

theorem caseArms_spelled {arms : List CaseArm} (nonempty : arms ≠ [])
    (heads : ∀ arm ∈ arms, arm.HeadBuilt)
    (bodies : ∀ arm ∈ arms, ∀ {rest : List Token},
      (arm.getBody.takesElse = true → EndsStmt rest) →
      stmt (stmtTokens arm.getBody ++ rest) = some (arm.getBody.reparse, rest))
    (rest : List Token) :
    caseArms stmt (arms.flatMap armTokens ++ .rightBrace :: rest) =
      some (arms.map CaseArm.reparse, .rightBrace :: rest) := by
  have read : repeated startsArm (caseArm stmt) (arms.flatMap armTokens ++ .rightBrace :: rest) =
      some (arms.map CaseArm.reparse, .rightBrace :: rest) :=
    repeated_spelled (caseArm_consumes stmt_consumes) arms (fun arm _ => armTokens_starts arm)
      (fun arm _ => armTokens_endsStmt arm)
      (fun arm member _ ends => caseArm_spelled (heads arm member)
        (bodies arm member fun _ => ends))
      (by simp [EndsStmt]) rfl
  rw [caseArms, read, Option.bind_some]
  simp [nonempty]

/-- A printed statement is parsed with its expressions reparsed, unless an
`else` follows that it would take. -/
theorem stmt_spelled {tree : Stmt} (built : tree.Built) {rest : List Token}
    (ends : tree.takesElse = true → EndsStmt rest) :
    stmt (stmtTokens tree ++ rest) = some (tree.reparse, rest) := by
  induction built generalizing rest with
  | @assignStmt lhs rhs lhsBuilt rhsBuilt =>
      obtain ⟨first, others, spelledLhs, starts⟩ := exprTokens_start lhs
      have read := assignStmt_spelled lhsBuilt rhsBuilt rest
      have spelled : stmtTokens (.assignStmt unlocated lhs rhs) ++ rest =
          exprTokens lhs ++ .assign :: (exprTokens rhs ++ .semicolon :: rest) := by
        simp [stmtTokens]
      rw [stmt_eq, spelled]
      rw [spelledLhs, List.cons_append] at read ⊢
      rw [stmtStep_assign starts, read]
      rfl
  | @blockStmt stmts stmtsBuilt stmtsRead =>
      have read : repeated startsStmt stmt (stmts.flatMap stmtTokens ++ .rightBrace :: rest) =
          some (stmts.map Stmt.reparse, .rightBrace :: rest) :=
        stmts_spelled stmtsRead (by simp [EndsStmt]) rfl
      have spelled : stmtTokens (.blockStmt unlocated stmts) ++ rest =
          .leftBrace :: (stmts.flatMap stmtTokens ++ .rightBrace :: rest) := by
        simp [stmtTokens, stmtsTokens_eq_flatMap]
      rw [stmt_eq, spelled, stmtStep, read]
      simp only [Option.bind_some, expect_cons, Stmt.reparse, Stmt.reparseAll_eq_map]
  | @whileStmt condition body conditionBuilt bodyBuilt bodyReads =>
      have read := condition_spelled conditionBuilt (stmtTokens body ++ rest)
      have spelled : stmtTokens (.whileStmt unlocated condition body) ++ rest =
          .kWhile :: .leftParen ::
            (exprTokens condition ++ .rightParen :: (stmtTokens body ++ rest)) := by
        simp [stmtTokens]
      rw [stmt_eq, spelled, stmtStep, read]
      simp only [Option.bind_some, bodyReads ends, Stmt.reparse]
  | @ifThen condition thenStmt conditionBuilt thenBuilt thenReads =>
      have endsHere : EndsStmt rest := ends rfl
      have read := condition_spelled conditionBuilt (stmtTokens thenStmt ++ rest)
      have spelled : stmtTokens (.ifStmt unlocated condition thenStmt none) ++ rest =
          .kIf :: .leftParen ::
            (exprTokens condition ++ .rightParen :: (stmtTokens thenStmt ++ rest)) := by
        simp [stmtTokens, elseTokens]
      rw [stmt_eq, spelled, stmtStep, read]
      simp only [Option.bind_some, thenReads fun _ => endsHere, elseStmt, if_neg endsHere,
        Stmt.reparse, Stmt.reparseElse]
  | @ifElse condition thenStmt elseStmt conditionBuilt thenBuilt elseBuilt nearest thenReads
      elseReads =>
      have thenEnds : thenStmt.takesElse = true →
          EndsStmt (.kElse :: (stmtTokens elseStmt ++ rest)) := by
        intro takes
        rw [nearest] at takes
        cases takes
      have read := condition_spelled conditionBuilt
        (stmtTokens thenStmt ++ .kElse :: (stmtTokens elseStmt ++ rest))
      have spelled : stmtTokens (.ifStmt unlocated condition thenStmt (some elseStmt)) ++ rest =
          .kIf :: .leftParen :: (exprTokens condition ++ .rightParen ::
            (stmtTokens thenStmt ++ .kElse :: (stmtTokens elseStmt ++ rest))) := by
        simp [stmtTokens, elseTokens]
      rw [stmt_eq, spelled, stmtStep, read]
      simp only [Option.bind_some, thenReads thenEnds, Parser.elseStmt, if_pos List.head?_cons,
        List.tail_cons, elseReads ends, Stmt.reparse, Stmt.reparseElse]
  | @outputStmt arg argBuilt =>
      have spelled : stmtTokens (.outputStmt unlocated arg) ++ rest =
          .kOutput :: (exprTokens arg ++ .semicolon :: rest) := by
        simp [stmtTokens]
      rw [stmt_eq, spelled, stmtStep, exprLine_spelled argBuilt]
      rfl
  | @errorStmt arg argBuilt =>
      have spelled : stmtTokens (.errorStmt unlocated arg) ++ rest =
          .kError :: (exprTokens arg ++ .semicolon :: rest) := by
        simp [stmtTokens]
      rw [stmt_eq, spelled, stmtStep, exprLine_spelled argBuilt]
      rfl
  | @caseStmt caseExpr arms caseExprBuilt nonempty heads bodies bodiesRead =>
      have spelled : stmtTokens (.caseStmt unlocated caseExpr arms) ++ rest =
          .kCase :: (exprTokens caseExpr ++ .kOf :: .leftBrace ::
            (arms.flatMap armTokens ++ .rightBrace :: rest)) := by
        simp [stmtTokens, armsTokens_eq_flatMap]
      rw [stmt_eq, spelled, stmtStep,
        expr_reparse caseExprBuilt (stops_of_not_continuing (by decide) rfl)]
      simp only [Option.bind_some, expect_cons, caseArms_spelled nonempty heads bodiesRead,
        Stmt.reparse, CaseArm.reparseAll_eq_map]

/-! ## Declarations -/

theorem nameDeclaration_spelled {decl : DeclNode} (built : decl.Built) (rest : List Token) :
    nameDeclaration (declTokens decl ++ rest) = some (decl, rest) := by
  have read : nameDeclaration (declTokens decl ++ rest) = some (declared decl.name, rest) := rfl
  rw [read, ← built.1]

theorem declarations_spelled {decls : List DeclNode} (nonempty : decls ≠ [])
    (built : ∀ decl ∈ decls, decl.Built) {rest : List Token}
    (stopping : rest.head?.any (· == .comma) = false) :
    separated .comma nameDeclaration (separate .comma (decls.map declTokens) ++ rest) =
      some (decls, rest) := by
  have reading : ∀ decl ∈ decls, ∀ tokens, True →
      nameDeclaration (declTokens decl ++ tokens) = some (id decl, tokens) :=
    fun decl member tokens _ => nameDeclaration_spelled (built decl member) tokens
  rw [separated_spelled nameDeclaration_consumes nonempty reading (fun _ => trivial) trivial
    stopping, List.map_id]

theorem formals_spelled {formals : List DeclNode} (built : ∀ formal ∈ formals, formal.Built)
    (rest : List Token) :
    parenthesized nameDeclaration
        (separate .comma (formals.map declTokens) ++ .rightParen :: rest) =
      some (formals, rest) := by
  cases formals with
  | nil => rfl
  | cons first others =>
      have notClosed : (separate .comma ((first :: others).map declTokens) ++
          .rightParen :: rest).head? ≠ some .rightParen := by
        simp [separate, declTokens]
      rw [parenthesized, if_neg notClosed,
        declarations_spelled (List.cons_ne_nil _ _) built rfl]
      simp only [Option.bind_some, expect_cons]

theorem declaration_spelled {decl : DeclStmt} (built : decl.Built) (rest : List Token) :
    declaration (declStmtTokens decl ++ rest) = some (decl, rest) := by
  have spelled : declStmtTokens decl ++ rest =
      .kVar :: (separate .comma (decl.vars.map declTokens) ++ .semicolon :: rest) := by
    simp [declStmtTokens]
  rw [spelled, declaration, declarations_spelled built.nonempty built.vars rfl]
  simp only [Option.bind_some, expect_cons]

theorem sumVariant_spelled {variant : SumVariant} (built : variant.Built) {rest : List Token}
    (ends : EndsPattern rest) :
    sumVariant (sumVariantTokens variant ++ rest) = some (variant, rest) := by
  have reading : ∀ param ∈ variant.params, ∀ tokens, True →
      nameDeclaration (declTokens param ++ tokens) = some (id param, tokens) :=
    fun param member tokens _ => nameDeclaration_spelled (built.params param member) tokens
  rw [sumVariantTokens, List.cons_append, sumVariant,
    payload_spelled nameDeclaration_consumes reading (fun _ => trivial) (fun _ => trivial) ends,
    List.map_id]
  cases variant with
  | mk tag params line =>
      have lineEq : line = 0 := built.line
      rw [lineEq]
      rfl

theorem typeDecl_spelled {typedecl : SumTypeDecl} (built : typedecl.Built) (rest : List Token) :
    typeDecl (sumTypeDeclTokens typedecl ++ rest) = some (typedecl, rest) := by
  have reading : ∀ variant ∈ typedecl.variants, ∀ tokens, EndsPattern tokens →
      sumVariant (sumVariantTokens variant ++ tokens) = some (id variant, tokens) :=
    fun variant member _ ends => sumVariant_spelled (built.variants variant member) ends
  have read : separated .bar sumVariant
      (separate .bar (typedecl.variants.map sumVariantTokens) ++ .semicolon :: rest) =
        some (typedecl.variants.map id, .semicolon :: rest) :=
    separated_spelled sumVariant_consumes built.nonempty reading
      (fun _ => by simp [EndsPattern]) (by simp [EndsPattern]) rfl
  have spelled : sumTypeDeclTokens typedecl ++ rest = .kType :: .conId typedecl.name :: .assign ::
      (separate .bar (typedecl.variants.map sumVariantTokens) ++ .semicolon :: rest) := by
    simp [sumTypeDeclTokens]
  rw [spelled, typeDecl, read, List.map_id]
  simp only [Option.bind_some, expect_cons]
  cases typedecl with
  | mk name variants line =>
      have lineEq : line = 0 := built.line
      rw [lineEq]

theorem stmtsTokens_notVar (stmts : List Stmt) (rest : List Token) :
    (stmts.flatMap stmtTokens ++ .kReturn :: rest).head?.any (· == .kVar) = false := by
  cases stmts with
  | nil => rfl
  | cons tree stmts =>
      obtain ⟨first, others, spelled, starts⟩ := stmtTokens_start tree
      rw [List.flatMap_cons, spelled]
      cases first <;> first | rfl | cases starts

theorem function_spelled {function : ParsedFunction} (built : function.Built)
    (rest : List Token) :
    Parser.function (functionTokens function ++ rest) = some (function.reparse, rest) := by
  -- what is left of the tokens in front of each part of the function
  let returned := exprTokens function.returnArg ++ .semicolon :: .rightBrace :: rest
  let body := function.stmts.flatMap stmtTokens ++ .kReturn :: returned
  let declared := function.declarations.flatMap declStmtTokens ++ body
  have spelled : functionTokens function ++ rest = declTokens function.decl ++ .leftParen ::
      (separate .comma (function.formals.map declTokens) ++ .rightParen :: .leftBrace ::
        declared) := by
    simp [functionTokens, declTokens, declared, body, returned]
  have declarations : repeated (· == .kVar) declaration declared =
      some (function.declarations.map id, body) := by
    have reading : ∀ decl ∈ function.declarations, ∀ tokens, True →
        declaration (declStmtTokens decl ++ tokens) = some (id decl, tokens) :=
      fun decl member tokens _ => declaration_spelled (built.declarations decl member) tokens
    exact repeated_spelled declaration_consumes _ (fun _ _ _ => rfl) (fun _ _ _ => trivial)
      reading trivial (stmtsTokens_notVar function.stmts returned)
  have stmts : repeated startsStmt stmt body =
      some (function.stmts.map Stmt.reparse, .kReturn :: returned) :=
    stmts_spelled (fun tree member _ ends => stmt_spelled (built.stmts tree member) ends)
      (by simp [EndsStmt]) rfl
  have returnArg : exprLine returned = some (function.returnArg.reparse, .rightBrace :: rest) :=
    exprLine_spelled built.returnArg _
  rw [spelled, Parser.function, nameDeclaration_spelled built.decl]
  simp only [Option.bind_some, expect_cons, formals_spelled built.formals, declarations, stmts,
    returnArg, List.map_id]
  cases function with
  | mk decl formals declarations stmts returnArg isPoly =>
      have polyEq : isPoly = false := built.isPoly
      rw [polyEq]
      rfl

/-! ## Programs -/

def itemTokens : SumTypeDecl ⊕ ParsedFunction → List Token
  | .inl typedecl => sumTypeDeclTokens typedecl
  | .inr function => functionTokens function

def reparseItem : SumTypeDecl ⊕ ParsedFunction → SumTypeDecl ⊕ ParsedFunction :=
  Sum.map id ParsedFunction.reparse

theorem item_spelled {value : SumTypeDecl ⊕ ParsedFunction} (built : ItemBuilt value)
    (rest : List Token) : item (itemTokens value ++ rest) = some (reparseItem value, rest) := by
  cases value with
  | inl typedecl =>
      have isType : (itemTokens (.inl typedecl) ++ rest).head? = some .kType := rfl
      rw [item, if_pos isType, itemTokens, typeDecl_spelled built]
      rfl
  | inr function =>
      have notType : (itemTokens (.inr function) ++ rest).head? ≠ some .kType := by
        simp [itemTokens, functionTokens]
      rw [item, if_neg notType, itemTokens, function_spelled built]
      rfl

/-- A printed program's tokens are parsed with its expressions reparsed. -/
theorem program_spelled {tree : ParsedProgram} (built : tree.Built) :
    program (programTokens tree) = some tree.reparse := by
  let items : List (SumTypeDecl ⊕ ParsedFunction) :=
    tree.typedecls.map Sum.inl ++ tree.functions.map Sum.inr
  have itemsBuilt : ∀ value ∈ items, ItemBuilt value := by
    intro value member
    rcases List.mem_append.mp member with isTypedecl | isFunction
    · obtain ⟨typedecl, typedeclMember, rfl⟩ := List.mem_map.mp isTypedecl
      exact built.typedecls typedecl typedeclMember
    · obtain ⟨function, functionMember, rfl⟩ := List.mem_map.mp isFunction
      exact built.functions function functionMember
  have reading : ∀ value ∈ items, ∀ tokens, True →
      item (itemTokens value ++ tokens) = some (reparseItem value, tokens) :=
    fun value member tokens _ => item_spelled (itemsBuilt value member) tokens
  have starting : ∀ value ∈ items, ∀ tokens,
      (itemTokens value ++ tokens).head?.any startsItem = true := by
    intro value _ tokens
    cases value <;> rfl
  have read : repeated startsItem item (items.flatMap itemTokens ++ []) =
      some (items.map reparseItem, []) :=
    repeated_spelled item_consumes items starting (fun _ _ _ => trivial) reading trivial rfl
  have spelled : items.flatMap itemTokens ++ [] = programTokens tree := by
    simp [items, programTokens, List.flatMap_map, itemTokens]
  have nonempty : (items.map reparseItem).isEmpty = false := by
    rcases built.nonempty with typedecls | functions
    · simp [items, typedecls]
    · simp [items, functions]
  rw [← spelled, program, read]
  simp only [Option.bind_some, nonempty, Bool.false_eq_true, if_false]
  simp [items, reparseItem, ParsedProgram.reparse, List.filterMap_append, List.filterMap_map,
    Function.comp_def]

/-- Printing and parsing gives the program back with its expressions reparsed. -/
theorem parse_print (printer : PrettyPrinter) {program : ParsedProgram} (built : program.Built) :
    parse (printer.print program) = some program.reparse := by
  rw [parse, tokenize_print printer built, Option.bind_some, program_spelled built]

/-- Printing and parsing gives a parsed program back exactly if every expression
keeps its nesting. -/
theorem parse_print_eq_iff (printer : PrettyPrinter) (text : String) (program : ParsedProgram)
    (parsed : parse text = some program) :
    parse (printer.print program) = some program ↔ program.keepsNesting = true := by
  have built := parse_built parsed
  rw [parse_print printer built, Option.some.injEq]
  exact ParsedProgram.reparse_eq_self_iff built

theorem parse_print_eq_iff_call :
    ∃ program, parse "main() \x7b return f(alloc 1, (*g + 2)); \x7d" = some program ∧
      (parse (PrettyPrinter.frontEnd.print program) = some program ↔
        program.keepsNesting = true) := by
  have accepted : (parse "main() \x7b return f(alloc 1, (*g + 2)); \x7d").isSome = true := by
    decide +kernel
  obtain ⟨program, parsed⟩ := Option.isSome_iff_exists.mp accepted
  exact ⟨program, parsed, parse_print_eq_iff PrettyPrinter.frontEnd _ program parsed⟩

/-- The parentheses around a callee are not printed: the call through a pointer
comes back as a dereference of a call. -/
theorem pointerCall_not_kept :
    ∃ program, parse "main() \x7b var f; return (*f)(1); \x7d" = some program ∧
      PrettyPrinter.frontEnd.print program =
        "main()\n\x7b\n  var f;\n  return *f(1);\n\x7d\n" ∧
      parse (PrettyPrinter.frontEnd.print program) ≠ some program := by
  have printed : (parse "main() \x7b var f; return (*f)(1); \x7d").map PrettyPrinter.frontEnd.print =
      some "main()\n\x7b\n  var f;\n  return *f(1);\n\x7d\n" := by
    decide +kernel
  have nesting : (parse "main() \x7b var f; return (*f)(1); \x7d").map
      ParsedProgram.keepsNesting = some false := by
    decide +kernel
  obtain ⟨program, parsed, text⟩ := Option.map_eq_some_iff.mp printed
  rw [parsed, Option.map_some, Option.some.injEq] at nesting
  refine ⟨program, parsed, text, ?_⟩
  have built := parse_built parsed
  rw [parse_print PrettyPrinter.frontEnd built, ne_eq, Option.some.injEq,
    ParsedProgram.reparse_eq_self_iff built, nesting]
  exact Bool.false_ne_true

end Parser

end Topc
