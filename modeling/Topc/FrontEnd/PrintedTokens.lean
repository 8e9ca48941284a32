import Topc.FrontEnd.BuiltTrees
import Topc.FrontEnd.PrettyPrinter

/-! # The tokens of a printed program

What the lexer makes of the printer's text. White space is gone, and with it the
level a statement is printed at. -/

namespace Topc

open Topc.Reader Topc.Lexer

/-! ## Tokens of printed text -/

def BinaryOp.token : BinaryOp → Token
  | .add => .add
  | .sub => .sub
  | .mul => .mul
  | .div => .div
  | .gt => .gt
  | .eq => .eq
  | .neq => .ne

namespace PrettyPrinter

/-- The tokens of a payload, which are none if it is empty. -/
def payloadTokens (items : List (List Token)) : List Token :=
  if items.isEmpty then [] else .leftParen :: separate .comma items ++ [.rightParen]

def numberTokens (value : Int) : List Token :=
  if value < 0 then [.sub, .number (toString value.natAbs)]
  else [.number (toString value.natAbs)]

mutual
def exprTokens : Expr → List Token
  | .numExpr _ value => numberTokens value
  | .varExpr _ name => [.identifier name]
  | .binaryExpr _ op left right =>
      .leftParen :: exprTokens left ++ op.token :: exprTokens right ++ [.rightParen]
  | .inputExpr _ => [.kInput]
  | .funAppExpr _ function actuals =>
      exprTokens function ++ .leftParen :: separate .comma (exprsTokens actuals) ++ [.rightParen]
  | .allocExpr _ initializer => .kAlloc :: exprTokens initializer
  | .borrowExpr _ var => .ampersand :: exprTokens var
  | .deRefExpr _ ptr => .mul :: exprTokens ptr
  | .sumCtorExpr _ tag args => .conId tag :: payloadTokens (exprsTokens args)

def exprsTokens : List Expr → List (List Token)
  | [] => []
  | expr :: exprs => exprTokens expr :: exprsTokens exprs
end

mutual
def patternTokens : Pattern → List Token
  | .wildcard _ => [.kWildcard]
  | .var _ decl => [.identifier decl.name]
  | .ctor _ tag subPatterns => .conId tag :: payloadTokens (patternsTokens subPatterns)

def patternsTokens : List Pattern → List (List Token)
  | [] => []
  | pattern :: patterns => patternTokens pattern :: patternsTokens patterns
end

mutual
def stmtTokens : Stmt → List Token
  | .assignStmt _ lhs rhs => exprTokens lhs ++ .assign :: exprTokens rhs ++ [.semicolon]
  | .blockStmt _ stmts => .leftBrace :: stmtsTokens stmts ++ [.rightBrace]
  | .whileStmt _ condition body =>
      .kWhile :: .leftParen :: exprTokens condition ++ .rightParen :: stmtTokens body
  | .ifStmt _ condition thenStmt elseStmt =>
      .kIf :: .leftParen :: exprTokens condition ++ .rightParen :: stmtTokens thenStmt ++
        elseTokens elseStmt
  | .outputStmt _ arg => .kOutput :: exprTokens arg ++ [.semicolon]
  | .errorStmt _ arg => .kError :: exprTokens arg ++ [.semicolon]
  | .caseStmt _ caseExpr arms =>
      .kCase :: exprTokens caseExpr ++ .kOf :: .leftBrace :: armsTokens arms ++ [.rightBrace]

def stmtsTokens : List Stmt → List Token
  | [] => []
  | stmt :: stmts => stmtTokens stmt ++ stmtsTokens stmts

def elseTokens : Option Stmt → List Token
  | none => []
  | some elseStmt => .kElse :: stmtTokens elseStmt

def armTokens : CaseArm → List Token
  | .mk _ tag patterns body =>
      .conId tag :: payloadTokens (patternsTokens patterns) ++ .arrow :: stmtTokens body

def armsTokens : List CaseArm → List Token
  | [] => []
  | arm :: arms => armTokens arm ++ armsTokens arms
end

def declTokens (decl : DeclNode) : List Token := [.identifier decl.name]

def declStmtTokens (decl : DeclStmt) : List Token :=
  .kVar :: separate .comma (decl.vars.map declTokens) ++ [.semicolon]

def functionTokens (function : ParsedFunction) : List Token :=
  .identifier function.decl.name :: .leftParen ::
    separate .comma (function.formals.map declTokens) ++ .rightParen :: .leftBrace ::
    function.declarations.flatMap declStmtTokens ++ function.stmts.flatMap stmtTokens ++
    .kReturn :: exprTokens function.returnArg ++ [.semicolon, .rightBrace]

def sumVariantTokens (variant : SumVariant) : List Token :=
  .conId variant.tag :: payloadTokens (variant.params.map declTokens)

def sumTypeDeclTokens (typedecl : SumTypeDecl) : List Token :=
  .kType :: .conId typedecl.name :: .assign ::
    separate .bar (typedecl.variants.map sumVariantTokens) ++ [.semicolon]

def programTokens (program : ParsedProgram) : List Token :=
  program.typedecls.flatMap sumTypeDeclTokens ++ program.functions.flatMap functionTokens

theorem exprsTokens_eq_map (exprs : List Expr) : exprsTokens exprs = exprs.map exprTokens := by
  induction exprs with
  | nil => rfl
  | cons expr exprs induction => rw [exprsTokens, induction, List.map_cons]

theorem patternsTokens_eq_map (patterns : List Pattern) :
    patternsTokens patterns = patterns.map patternTokens := by
  induction patterns with
  | nil => rfl
  | cons pattern patterns induction => rw [patternsTokens, induction, List.map_cons]

theorem stmtsTokens_eq_flatMap (stmts : List Stmt) :
    stmtsTokens stmts = stmts.flatMap stmtTokens := by
  induction stmts with
  | nil => rfl
  | cons stmt stmts induction => rw [stmtsTokens, induction, List.flatMap_cons]

theorem armsTokens_eq_flatMap (arms : List CaseArm) :
    armsTokens arms = arms.flatMap armTokens := by
  induction arms with
  | nil => rfl
  | cons arm arms induction => rw [armsTokens, induction, List.flatMap_cons]

/-! ## Symbols between names -/

theorem scans_space : Scans " " [] := scans_spaces rfl

theorem scans_leftParen : Scans "(" [.leftParen] := scans_symbol rfl fun _ => rfl

theorem scans_rightParen : Scans ")" [.rightParen] := scans_symbol rfl fun _ => rfl

theorem scans_semicolon : Scans ";" [.semicolon] := scans_symbol rfl fun _ => rfl

theorem scans_newline : Scans "\n" [] := scans_spaces rfl

theorem scans_leftBrace : Scans "\x7b" [.leftBrace] := scans_symbol rfl fun _ => rfl

theorem scans_rightBrace : Scans "\x7d" [.rightBrace] := scans_symbol rfl fun _ => rfl

theorem scans_comma : Scans ", " [.comma] := by
  have comma : Scans "," [.comma] := scans_symbol rfl fun _ => rfl
  simpa using comma.append_of_scans scans_space

theorem scans_assign : Scans " = " [.assign] := by
  have symbol : ScansBefore Spaced "=" [.assign] := scans_spaced rfl fun _ => rfl
  simpa using (scans_space.append_of_scans symbol).append_scans scans_space fun _ => rfl

theorem scans_arrow : Scans " -> " [.arrow] := by
  have symbol : ScansBefore Spaced "->" [.arrow] := scans_spaced rfl fun _ => rfl
  simpa using (scans_space.append_of_scans symbol).append_scans scans_space fun _ => rfl

theorem scans_bar : Scans " | " [.bar] := by
  have symbol : Scans "|" [.bar] := scans_symbol rfl fun _ => rfl
  simpa using (scans_space.append_of_scans symbol).append_of_scans scans_space

/-! ## Joined texts -/

theorem joinWithDelim_one_cons (first second : String) (others : List String) (delim : String) :
    joinWithDelim (first :: second :: others) delim 1 =
      first ++ delim ++ joinWithDelim (second :: others) delim 1 := by
  simp only [joinWithDelim, List.length_cons, Nat.add_sub_cancel, List.take_succ_cons,
    List.map_cons, List.drop_succ_cons, List.cons_append, List.foldr_cons]

theorem joinWithDelim_one_singleton (text delim : String) :
    joinWithDelim [text] delim 1 = text := by
  simp [joinWithDelim]

theorem joinWithDelim_zero_cons (first : String) (others : List String) (delim : String) :
    joinWithDelim (first :: others) delim 0 = first ++ delim ++ joinWithDelim others delim 0 := by
  simp only [joinWithDelim, List.length_cons, Nat.sub_zero, List.take_succ_cons, List.map_cons,
    List.drop_succ_cons, List.cons_append, List.foldr_cons]

section Joined

variable {Source : Type} {print : Source → String} {spell : Source → List Token}
  {delim : String} {delimTokens : List Token} {Follows : List Char → Prop}

/-- Pieces with a delimiter between them are scanned one after the other. -/
theorem scans_joined (delimScans : Scans delim delimTokens)
    (delimFollows : ∀ rest, Follows (delim.toList ++ rest)) (first : Source)
    (others : List Source)
    (pieces : ∀ source ∈ first :: others, ScansBefore Follows (print source) (spell source)) :
    ScansBefore Follows (joinWithDelim ((first :: others).map print) delim 1)
      (spell first ++ others.flatMap fun source => delimTokens ++ spell source) := by
  induction others generalizing first with
  | nil =>
      rw [List.flatMap_nil, List.append_nil, List.map_singleton, joinWithDelim_one_singleton]
      exact pieces first List.mem_cons_self
  | cons second others induction =>
      rw [List.forall_mem_cons] at pieces
      have scans := ((pieces.1.append_scans delimScans delimFollows).append_of_scans
        (induction second pieces.2))
      rw [List.map_cons, List.map_cons, joinWithDelim_one_cons]
      simpa only [List.map_cons, List.flatMap_cons, List.append_assoc] using scans

/-- Lines are scanned one after the other. -/
theorem scans_lines (sources : List Source)
    (lines : ∀ source ∈ sources, Scans (print source) (spell source)) :
    Scans (joinWithDelim (sources.map print) "\n" 0) (sources.flatMap spell) := by
  induction sources with
  | nil => exact Scanner.ScansBefore.nil
  | cons first others induction =>
      rw [List.forall_mem_cons] at lines
      have scans := (lines.1.append_scans scans_newline fun _ => trivial).append_of_scans
        (induction lines.2)
      rw [List.map_cons, joinWithDelim_zero_cons, List.flatMap_cons]
      simpa only [List.append_nil] using scans

/-- Items with commas between them. -/
theorem scans_items (sources : List Source)
    (pieces : ∀ source ∈ sources, ScansBefore Breaks (print source) (spell source)) :
    ScansBefore Breaks (joinWithDelim (sources.map print) ", " 1)
      (separate .comma (sources.map spell)) := by
  cases sources with
  | nil => exact Scanner.ScansBefore.nil
  | cons first others =>
      have scans := scans_joined scans_comma (fun _ => rfl) first others pieces
      simpa only [List.map_cons, separate, List.flatMap_map, List.cons_append,
        List.nil_append] using scans

/-- A name and the payload in parentheses behind it, if there is one. -/
theorem scans_payload {text : String} {tokens : List Token}
    (name : ScansBefore Breaks text tokens) (sources : List Source)
    (pieces : ∀ source ∈ sources, ScansBefore Breaks (print source) (spell source)) :
    ScansBefore Breaks
      (if (sources.map print).isEmpty then text
        else text ++ "(" ++ joinWithDelim (sources.map print) ", " 1 ++ ")")
      (tokens ++ payloadTokens (sources.map spell)) := by
  cases sources with
  | nil =>
      simpa [payloadTokens] using name
  | cons first others =>
      have opened := name.append_scans scans_leftParen fun _ => rfl
      have items := opened.append_of_scans (scans_items (first :: others) pieces)
      have closed := items.append_scans scans_rightParen fun _ => rfl
      apply ScansBefore.of_scans
      simpa [payloadTokens] using closed

end Joined

/-! ## Expressions -/

theorem digits_of_nat (value : Nat) :
    (toString value).toList.head?.any Char.isDigit = true ∧
      (toString value).toList.all Char.isDigit = true := by
  have digits : (toString value).toList = Nat.toDigits 10 value := by
    rw [Nat.toString_eq_ofList_toDigits, String.toList_ofList]
  have all : (Nat.toDigits 10 value).all Char.isDigit = true := by
    rw [List.all_eq_true]
    exact fun symbol member => Nat.isDigit_of_mem_toDigits (by omega) (by omega) member
  rw [digits]
  cases spelled : Nat.toDigits 10 value with
  | nil => exact absurd spelled Nat.toDigits_ne_nil
  | cons first others =>
      rw [spelled] at all
      rw [List.all_cons, Bool.and_eq_true] at all
      exact ⟨all.1, by rw [List.all_cons, all.1, all.2, Bool.and_self]⟩

theorem scans_nat (value : Nat) :
    ScansBefore Breaks (toString value) [.number (toString value)] :=
  scans_number (digits_of_nat value).1 (digits_of_nat value).2

theorem scans_negative (value : Nat) :
    ScansBefore Breaks ("-" ++ toString value) [.sub, .number (toString value)] := by
  apply scans_sub.append (scans_nat value)
  intro rest _
  cases spelled : (toString value).toList with
  | nil =>
      have nonempty := (digits_of_nat value).1
      rw [spelled] at nonempty
      cases nonempty
  | cons first others =>
      have digit := (digits_of_nat value).1
      rw [spelled] at digit
      rintro ⟨⟩
      cases digit

theorem scans_numExpr (value : Int) :
    ScansBefore Breaks (toString value) (numberTokens value) := by
  rw [Int.toString_eq_repr, Int.repr_eq_if, numberTokens]
  by_cases negative : value < 0
  · have magnitude : (-value).toNat = value.natAbs := by omega
    rw [if_neg (by omega), if_pos negative, magnitude]
    exact scans_negative value.natAbs
  · have magnitude : value.toNat = value.natAbs := by omega
    rw [if_pos (by omega), if_neg negative, magnitude]
    exact scans_nat value.natAbs

theorem scans_op (op : BinaryOp) : ScansBefore Spaced op.getOp [op.token] := by
  cases op with
  | add => exact scans_spaced rfl fun _ => rfl
  | sub => exact scans_spaced rfl fun _ => rfl
  | mul => exact scans_spaced rfl fun _ => rfl
  | div => exact scans_spaced rfl fun _ => rfl
  | gt => exact scans_spaced rfl fun _ => rfl
  | eq => exact scans_spaced rfl fun _ => rfl
  | neq => exact scans_spaced rfl fun _ => rfl

theorem printExprs_eq_map (exprs : List Expr) : printExprs exprs = exprs.map printExpr := by
  induction exprs with
  | nil => rfl
  | cons expr exprs induction => rw [printExprs, induction, List.map_cons]

/-- A keyword in front of a space. -/
theorem scans_keyword {text : String} {token : Token} (lower : text.toList.head?.any Char.isLower = true)
    (words : text.toList.all isWord = true) (isKeyword : keyword text = some token) :
    ScansBefore Breaks text [token] := by
  have scans := scans_word lower words
  rw [wordToken, isKeyword] at scans
  exact scans

theorem scans_keyword_space (text : String) {token : Token}
    (lower : text.toList.head?.any Char.isLower = true) (words : text.toList.all isWord = true)
    (isKeyword : keyword text = some token) : Scans (text ++ " ") [token] :=
  (scans_keyword lower words isKeyword).append_scans scans_space fun _ => rfl

theorem scans_expr {expr : Expr} (built : expr.Built) :
    ScansBefore Breaks (printExpr expr) (exprTokens expr) := by
  induction built with
  | numExpr low high => exact scans_numExpr _
  | varExpr identifier => exact scans_identifier identifier
  | inputExpr => exact scans_keyword rfl rfl rfl
  | @binaryExpr op left right leftBuilt rightBuilt leftScans rightScans =>
      have leftPart := (scans_leftParen.append_of_scans leftScans).append_scans scans_space
        fun _ => rfl
      have opPart := (leftPart.append_of_scans (scans_op op)).append_scans scans_space
        fun _ => rfl
      have whole := (opPart.append_of_scans rightScans).append_scans scans_rightParen
        fun _ => rfl
      apply ScansBefore.of_scans
      simpa [printExpr, exprTokens] using whole
  | @funAppExpr function actuals functionBuilt actualsBuilt functionScans actualsScan =>
      have opened := functionScans.append_scans scans_leftParen fun _ => rfl
      have items := opened.append_of_scans (scans_items actuals actualsScan)
      have whole := items.append_scans scans_rightParen fun _ => rfl
      apply ScansBefore.of_scans
      simpa [printExpr, exprTokens, printExprs_eq_map, exprsTokens_eq_map] using whole
  | allocExpr initializerBuilt initializerScans =>
      have alloc : Scans "alloc " [.kAlloc] := by
        simpa using scans_keyword_space "alloc" rfl rfl rfl
      exact alloc.append_of_scans initializerScans
  | borrowExpr varBuilt varScans =>
      have ampersand : Scans "&" [.ampersand] := scans_symbol rfl fun _ => rfl
      exact ampersand.append_of_scans varScans
  | deRefExpr ptrBuilt ptrScans =>
      have mul : Scans "*" [.mul] := scans_symbol rfl fun _ => rfl
      exact mul.append_of_scans ptrScans
  | @sumCtorExpr tag args conId argsBuilt argsScan =>
      have whole := scans_payload (scans_conId conId) args argsScan
      simpa [printExpr, exprTokens, printExprs_eq_map, exprsTokens_eq_map] using whole

/-! ## Patterns -/

theorem patternsToStrings_eq_map (patterns : List Pattern) :
    patternsToStrings patterns = patterns.map patternToString := by
  induction patterns with
  | nil => rfl
  | cons pattern patterns induction => rw [patternsToStrings, induction, List.map_cons]

theorem scans_pattern {pattern : Pattern} (built : pattern.Built) :
    ScansBefore Breaks (patternToString pattern) (patternTokens pattern) := by
  induction built with
  | var identifier => exact scans_identifier identifier
  | wildcard =>
      have wildcard : Scans "_" [.kWildcard] := scans_symbol rfl fun _ => rfl
      exact wildcard.of_scans
  | @ctor tag subPatterns conId subPatternsBuilt subPatternsScan =>
      have whole := scans_payload (scans_conId conId) subPatterns subPatternsScan
      simpa [patternToString, patternTokens, patternsToStrings_eq_map, patternsTokens_eq_map]
        using whole

/-! ## Statements -/

theorem scans_indent (printer : PrettyPrinter) (level : Nat) : Scans (printer.indent level) [] := by
  apply scans_spaces
  rw [indent, String.toList_ofList, List.all_eq_true]
  intro symbol member
  rw [List.eq_of_mem_replicate member]
  exact printer.whitespace

/-- A line is scanned as it is without its indentation. -/
theorem scans_stripIndent {text : String} {tokens : List Token} (scans : Scans text tokens) :
    Scans (stripIndent text) tokens := by
  have dropped : ∀ symbols rest : List Char,
      Scanner.scan nextToken
        (symbols.dropWhile (fun symbol => symbol == ' ' || symbol == '\t') ++ rest) =
      Scanner.scan nextToken (symbols ++ rest) := by
    intro symbols rest
    induction symbols with
    | nil => rfl
    | cons first others induction =>
        by_cases blank : (first == ' ' || first == '\t') = true
        · have space : isSpace first = true := by
            rw [isSpace, blank, Bool.true_or, Bool.true_or]
          rw [List.dropWhile_cons, if_pos blank, induction, List.cons_append,
            Lexer.scan_space space]
        · rw [List.dropWhile_cons, if_neg blank]
  intro rest _
  rw [stripIndent, String.toList_ofList, dropped]
  exact scans rest trivial

variable (printer : PrettyPrinter)

theorem printStmts_eq_map (level : Nat) (stmts : List Stmt) :
    printer.printStmts level stmts = stmts.map (printer.printStmt level) := by
  induction stmts with
  | nil => rfl
  | cons stmt stmts induction => rw [printStmts, induction, List.map_cons]

theorem printArms_eq_map (level : Nat) (arms : List CaseArm) :
    printer.printArms level arms = arms.map (printer.printArm level) := by
  induction arms with
  | nil => rfl
  | cons arm arms induction => rw [printArms, induction, List.map_cons]

/-- An indented keyword, an expression and a semicolon. -/
theorem scans_line {text : String} {token : Token} {expr : Expr} (level : Nat)
    (keyword : Scans text [token]) (built : expr.Built) :
    Scans (printer.indent level ++ text ++ printExpr expr ++ ";")
      (token :: exprTokens expr ++ [.semicolon]) := by
  have begun := (scans_indent printer level).append_of_scans keyword
  have whole := (begun.append_of_scans (scans_expr built)).append_scans scans_semicolon
    fun _ => rfl
  simpa using whole

/-- An indented keyword and a condition in parentheses, up to the line's end. -/
theorem scans_condition {text : String} {token : Token} {condition : Expr} (level : Nat)
    (keyword : Scans text [token, .leftParen]) (built : condition.Built) :
    Scans (printer.indent level ++ text ++ printExpr condition ++ ")\n")
      (token :: .leftParen :: exprTokens condition ++ [.rightParen]) := by
  have closed : Scans ")\n" [.rightParen] := by
    simpa using scans_rightParen.append_of_scans scans_newline
  have begun := (scans_indent printer level).append_of_scans keyword
  have whole := (begun.append_of_scans (scans_expr built)).append_scans closed fun _ => rfl
  simpa using whole

theorem scans_arm {level : Nat} {arm : CaseArm} (built : arm.HeadBuilt)
    (body : Scans (printer.printStmt level arm.getBody) (stmtTokens arm.getBody)) :
    Scans (printer.printArm level arm) (armTokens arm) := by
  obtain ⟨info, tag, patterns, armBody⟩ := arm
  have bodyScans : Scans (printer.printStmt level armBody) (stmtTokens armBody) := body
  have head : ScansBefore Breaks
      (if patterns.isEmpty then tag
        else tag ++ "(" ++ joinWithDelim (patternsToStrings patterns) ", " 1 ++ ")")
      (.conId tag :: payloadTokens (patternsTokens patterns)) := by
    have conId : isConId tag = true := built.conId
    have payload := scans_payload (scans_conId conId) patterns
      fun pattern member => scans_pattern (built.patterns pattern member)
    simpa [patternsToStrings_eq_map, patternsTokens_eq_map] using payload
  have begun := ((scans_indent printer level).append_of_scans head).append_scans scans_arrow
    fun _ => rfl
  have whole := begun.append_of_scans (scans_stripIndent bodyScans)
  by_cases empty : patterns = []
  · simpa [printArm, armTokens, empty] using whole
  · simpa [printArm, armTokens, empty, String.append_assoc] using whole

theorem scans_stmt {stmt : Stmt} (built : stmt.Built) (level : Nat) :
    Scans (printer.printStmt level stmt) (stmtTokens stmt) := by
  have indented := scans_indent printer level
  induction built generalizing level with
  | @assignStmt lhs rhs lhsBuilt rhsBuilt =>
      have target := (indented.append_of_scans (scans_expr lhsBuilt)).append_scans scans_assign
        fun _ => rfl
      have whole := (target.append_of_scans (scans_expr rhsBuilt)).append_scans scans_semicolon
        fun _ => rfl
      simpa [printStmt, stmtTokens] using whole
  | @blockStmt stmts stmtsBuilt stmtsScan =>
      have opened : Scans "\x7b\n" [.leftBrace] := by
        simpa using scans_leftBrace.append_of_scans scans_newline
      have lines := scans_lines stmts fun stmt member =>
        stmtsScan stmt member (level + 1) (scans_indent printer (level + 1))
      have whole := (((indented.append_of_scans opened).append_of_scans lines).append_of_scans
        indented).append_of_scans scans_rightBrace
      simpa [printStmt, stmtTokens, printStmts_eq_map, stmtsTokens_eq_flatMap] using whole
  | @whileStmt condition body conditionBuilt bodyBuilt bodyScans =>
      have keyword : Scans "while (" [.kWhile, .leftParen] := by
        have word : Scans "while " [.kWhile] := by
          simpa using scans_keyword_space "while" rfl rfl rfl
        simpa using word.append_of_scans scans_leftParen
      have whole := (scans_condition printer level keyword conditionBuilt).append_of_scans
        (bodyScans (level + 1) (scans_indent printer (level + 1)))
      simpa [printStmt, stmtTokens] using whole
  | @ifThen condition thenStmt conditionBuilt thenBuilt thenScans =>
      have keyword : Scans "if (" [.kIf, .leftParen] := by
        have word : Scans "if " [.kIf] := by
          simpa using scans_keyword_space "if" rfl rfl rfl
        simpa using word.append_of_scans scans_leftParen
      have whole := (scans_condition printer level keyword conditionBuilt).append_of_scans
        (thenScans (level + 1) (scans_indent printer (level + 1)))
      simpa [printStmt, stmtTokens, printElse, elseTokens] using whole
  | @ifElse condition thenStmt elseStmt conditionBuilt thenBuilt elseBuilt nearest thenScans
      elseScans =>
      have keyword : Scans "if (" [.kIf, .leftParen] := by
        have word : Scans "if " [.kIf] := by
          simpa using scans_keyword_space "if" rfl rfl rfl
        simpa using word.append_of_scans scans_leftParen
      have otherwise : Scans "else\n" [.kElse] := by
        have word : ScansBefore Breaks "else" [.kElse] := scans_keyword rfl rfl rfl
        simpa using word.append_scans scans_newline fun _ => rfl
      have thenPart := (scans_condition printer level keyword conditionBuilt).append_of_scans
        (thenScans (level + 1) (scans_indent printer (level + 1)))
      have elsePart := ((scans_newline.append_of_scans indented).append_of_scans
        otherwise).append_of_scans (elseScans (level + 1) (scans_indent printer (level + 1)))
      have whole := thenPart.append_of_scans elsePart
      simpa [printStmt, stmtTokens, printElse, elseTokens] using whole
  | outputStmt argBuilt =>
      have keyword : Scans "output " [.kOutput] := by
        simpa using scans_keyword_space "output" rfl rfl rfl
      exact scans_line printer level keyword argBuilt
  | errorStmt argBuilt =>
      have keyword : Scans "error " [.kError] := by
        simpa using scans_keyword_space "error" rfl rfl rfl
      exact scans_line printer level keyword argBuilt
  | @caseStmt caseExpr arms caseExprBuilt nonempty heads bodies bodiesScan =>
      have keyword : Scans "case " [.kCase] := by
        simpa using scans_keyword_space "case" rfl rfl rfl
      have opened : Scans " of \x7b\n" [.kOf, .leftBrace] := by
        have word : Scans "of " [.kOf] := by
          simpa using scans_keyword_space "of" rfl rfl rfl
        simpa using ((scans_space.append_of_scans word).append_of_scans
          scans_leftBrace).append_of_scans scans_newline
      have arm := fun arm member => scans_arm printer (heads arm member)
        (bodiesScan arm member (level + 1) (scans_indent printer (level + 1)))
      have begun := ((indented.append_of_scans keyword).append_of_scans
        (scans_expr caseExprBuilt)).append_scans opened fun _ => rfl
      obtain ⟨first, others, rfl⟩ := List.exists_cons_of_ne_nil nonempty
      have lines : Scans _ _ := scans_joined scans_newline (fun _ => trivial) first others arm
      have whole := (((begun.append_of_scans lines).append_of_scans scans_newline).append_of_scans
        indented).append_of_scans scans_rightBrace
      simpa [printStmt, stmtTokens, printArms_eq_map, armsTokens_eq_flatMap] using whole

/-! ## Programs -/

theorem scans_decl {decl : DeclNode} (built : decl.Built) :
    ScansBefore Breaks decl.name (declTokens decl) :=
  scans_identifier built.2

theorem scans_declStmt {decl : DeclStmt} (built : decl.Built) (level : Nat) :
    Scans (printer.printDeclStmt level decl) (declStmtTokens decl) := by
  have keyword : Scans "var " [.kVar] := by
    simpa using scans_keyword_space "var" rfl rfl rfl
  have items := scans_items decl.vars fun var member => scans_decl (built.vars var member)
  have begun := (scans_indent printer level).append_of_scans keyword
  have whole := (begun.append_of_scans items).append_scans scans_semicolon fun _ => rfl
  simpa [printDeclStmt, declStmtTokens] using whole

theorem scans_body {function : ParsedFunction} (built : function.Built) :
    Scans (joinWithDelim (printer.printStmts 1 function.stmts ++
        [printer.printReturn 1 function.returnArg]) "\n" 0)
      (function.stmts.flatMap stmtTokens ++
        .kReturn :: exprTokens function.returnArg ++ [.semicolon]) := by
  have keyword : Scans "return " [.kReturn] := by
    simpa using scans_keyword_space "return" rfl rfl rfl
  have returned := scans_line printer 1 keyword built.returnArg
  -- the statements and the return line are one list of lines
  let lines := function.stmts.map (fun stmt => (printer.printStmt 1 stmt, stmtTokens stmt)) ++
    [(printer.printReturn 1 function.returnArg,
      .kReturn :: exprTokens function.returnArg ++ [.semicolon])]
  have linesScan : ∀ line ∈ lines, Scans line.1 line.2 := by
    intro line member
    rcases List.mem_append.mp member with isStmt | isReturn
    · obtain ⟨stmt, stmtMember, rfl⟩ := List.mem_map.mp isStmt
      exact scans_stmt printer (built.stmts stmt stmtMember) 1
    · rw [List.mem_singleton] at isReturn
      subst isReturn
      exact returned
  have whole : Scans (joinWithDelim (lines.map Prod.fst) "\n" 0) (lines.flatMap Prod.snd) :=
    scans_lines lines linesScan
  simpa [lines, printStmts_eq_map, List.flatMap_map, Function.comp_def] using whole

theorem scans_function {function : ParsedFunction} (built : function.Built) :
    Scans (printer.printFunction function) (functionTokens function) := by
  have opened : Scans "\n\x7b\n" [.leftBrace] := by
    simpa using (scans_newline.append_of_scans scans_leftBrace).append_of_scans scans_newline
  have closed : Scans "\x7d\n" [.rightBrace] := by
    simpa using scans_rightBrace.append_of_scans scans_newline
  have formals := scans_items function.formals
    fun formal member => scans_decl (built.formals formal member)
  have declarations := scans_lines function.declarations
    fun declaration member => scans_declStmt printer (built.declarations declaration member) 1
  have header := (((scans_identifier built.decl.2).append_scans scans_leftParen
    fun _ => rfl).append_of_scans formals).append_scans scans_rightParen fun _ => rfl
  have whole := (((header.append_of_scans opened).append_of_scans declarations).append_of_scans
    (scans_body printer built)).append_of_scans closed
  simpa [printFunction, functionTokens, built.isPoly] using whole

theorem scans_sumVariant {variant : SumVariant} (built : variant.Built) :
    ScansBefore Breaks (printSumVariant variant) (sumVariantTokens variant) := by
  have whole := scans_payload (scans_conId built.conId) variant.params
    fun param member => scans_decl (built.params param member)
  simpa [printSumVariant, sumVariantTokens] using whole

theorem scans_sumTypeDecl {typedecl : SumTypeDecl} (built : typedecl.Built) :
    Scans (printSumTypeDecl typedecl) (sumTypeDeclTokens typedecl) := by
  have keyword : Scans "type " [.kType] := by
    simpa using scans_keyword_space "type" rfl rfl rfl
  obtain ⟨first, others, variants⟩ := List.exists_cons_of_ne_nil built.nonempty
  have pieces := built.variants
  rw [variants] at pieces
  have joined := scans_joined scans_bar (fun _ => rfl) first others
    fun variant member => scans_sumVariant (pieces variant member)
  have header := (keyword.append_of_scans (scans_conId built.conId)).append_scans scans_assign
    fun _ => rfl
  have whole := (header.append_of_scans joined).append_scans scans_semicolon fun _ => rfl
  simpa [printSumTypeDecl, sumTypeDeclTokens, variants, separate, List.flatMap_map] using whole

/-- What the lexer makes of a printed program. -/
theorem tokenize_print {program : ParsedProgram} (built : program.Built) :
    tokenize (printer.print program) = some (programTokens program) := by
  let items := program.typedecls.map (fun typedecl =>
      (printSumTypeDecl typedecl, sumTypeDeclTokens typedecl)) ++
    program.functions.map fun function =>
      (printer.printFunction function, functionTokens function)
  have itemsScan : ∀ item ∈ items, Scans item.1 item.2 := by
    intro item member
    rcases List.mem_append.mp member with isTypedecl | isFunction
    · obtain ⟨typedecl, typedeclMember, rfl⟩ := List.mem_map.mp isTypedecl
      exact scans_sumTypeDecl (built.typedecls typedecl typedeclMember)
    · obtain ⟨function, functionMember, rfl⟩ := List.mem_map.mp isFunction
      exact scans_function printer (built.functions function functionMember)
  have nonempty : items ≠ [] := by
    rcases built.nonempty with typedecls | functions
    · simp [items, typedecls]
    · simp [items, functions]
  obtain ⟨first, others, spelled⟩ := List.exists_cons_of_ne_nil nonempty
  rw [spelled] at itemsScan
  have joined : Scans (joinWithDelim (items.map Prod.fst) "\n" 1) (items.flatMap Prod.snd) := by
    rw [spelled]
    exact scans_joined scans_newline (fun _ => trivial) first others itemsScan
  have whole := joined.tokenize_eq
  simpa [items, print, programTokens, List.flatMap_map, Function.comp_def] using whole

end PrettyPrinter

end Topc
