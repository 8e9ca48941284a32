import Topc.Foundation.TokenReading
import Topc.FrontEnd.Lexer
import Topc.Syntax

/-! # Parser

The grammar's rules as readers of tokens, with the nodes the tree builder makes
of what they match. Trees are compared up to source locations, so the builder's
nodes carry none. -/

namespace Topc

open Topc.Reader

/-! ## Trees -/

/-- The location of every node that is built. -/
def unlocated : NodeInfo := { id := 0 }

def declared (name : String) : DeclNode := { id := 0, name := name }

/-- One `var` line. -/
structure DeclStmt where
  vars : List DeclNode

/-- A function as it is parsed: its `var` lines are kept apart. -/
structure ParsedFunction where
  decl : DeclNode
  formals : List DeclNode
  declarations : List DeclStmt
  stmts : List Stmt
  returnArg : Expr
  isPoly : Bool

structure ParsedProgram where
  typedecls : List SumTypeDecl
  functions : List ParsedFunction

namespace Parser

/-- Reads one given token. -/
def expect (token : Token) : List Token → Option (List Token)
  | [] => none
  | first :: rest => if first = token then some rest else none

/-! ## Expressions -/

/-- The greatest 64-bit integer. -/
def int64Max : Nat := 9223372036854775807

/-- One more digit behind a magnitude, which stays within a limit. -/
def appendDigit (limit magnitude : Nat) (symbol : Char) : Option Nat :=
  let digit := symbol.toNat - '0'.toNat
  if magnitude > (limit - digit) / 10 then none else some (magnitude * 10 + digit)

/-- The value of a literal's digits, which must fit 64 bits. -/
def numberLiteralValue (digits : String) (negative : Bool) : Option Int :=
  let limit := int64Max + if negative then 1 else 0
  (digits.toList.foldlM (appendDigit limit) 0).map fun (magnitude : Nat) =>
    if negative then -(magnitude : Int) else (magnitude : Int)

/-- How tightly one of the fifteen alternatives of `expr` binds: the earlier,
the tighter. -/
def precedence (alternative : Nat) : Nat := 15 - alternative + 1

/-- The alternative of `expr` for an operator. -/
def alternative : BinaryOp → Nat
  | .mul | .div => 5
  | .add | .sub => 6
  | .gt => 7
  | .eq | .neq => 8

def binaryOp? : Token → Option BinaryOp
  | .mul => some .mul
  | .div => some .div
  | .add => some .add
  | .sub => some .sub
  | .gt => some .gt
  | .eq => some .eq
  | .ne => some .neq
  | _ => none

/-- What can stand behind an expression and make a larger one of it. -/
inductive Suffix where
  | call (actuals : List Expr)
  | operation (op : BinaryOp) (right : Expr)

def Suffix.attach (head : Expr) : Suffix → Expr
  | .call actuals => .funAppExpr unlocated head actuals
  | .operation op right => .binaryExpr unlocated op head right

/-- Whether a token goes on with an expression that is read at a level. -/
def continues (level : Nat) (token : Token) : Bool :=
  match binaryOp? token with
  | some op => decide (level ≤ precedence (alternative op))
  | none => token == .leftParen && decide (level ≤ precedence 1)

/-- `'(' item (',' item)* ')'`, or nothing. -/
def payload {Item : Type} (item : Reader Token Item) (tokens : List Token) :
    Option (List Item × List Token) :=
  if tokens.head? = some .leftParen then
    (separated .comma item tokens.tail).bind fun (items, rest) =>
      (expect .rightParen rest).bind fun rest => some (items, rest)
  else some ([], tokens)

/-- The items between parentheses, of which there may be none. -/
def parenthesized {Item : Type} (item : Reader Token Item) (tokens : List Token) :
    Option (List Item × List Token) :=
  if tokens.head? = some .rightParen then some ([], tokens.tail)
  else
    (separated .comma item tokens).bind fun (items, rest) =>
      (expect .rightParen rest).bind fun rest => some (items, rest)

/-- A constructor takes the parentheses behind it as its payload unless there is
nothing between them. -/
def sumCtorExpr (expr : Nat → Reader Token Expr) (tag : String) (tokens : List Token) :
    Option (Expr × List Token) :=
  if tokens.take 2 = [.leftParen, .rightParen] then some (.sumCtorExpr unlocated tag [], tokens)
  else
    (payload (expr 0) tokens).bind fun (args, rest) =>
      some (.sumCtorExpr unlocated tag args, rest)

/-- The alternatives that do not begin with an expression. -/
def primary (expr : Nat → Reader Token Expr) : Reader Token Expr
  | [] => none
  | first :: rest =>
      match first with
      | .mul => (expr (precedence 2) rest).bind fun (ptr, rest) =>
          some (.deRefExpr unlocated ptr, rest)
      | .sub =>
          match rest with
          | .number digits :: rest =>
              (numberLiteralValue digits true).bind fun value =>
                some (.numExpr unlocated value, rest)
          | _ => none
      | .ampersand => (expr (precedence 4) rest).bind fun (var, rest) =>
          some (.borrowExpr unlocated var, rest)
      | .conId tag => sumCtorExpr expr tag rest
      | .identifier name => some (.varExpr unlocated name, rest)
      | .number digits =>
          (numberLiteralValue digits false).bind fun value =>
            some (.numExpr unlocated value, rest)
      | .kInput => some (.inputExpr unlocated, rest)
      | .kAlloc => (expr (precedence 14) rest).bind fun (initializer, rest) =>
          some (.allocExpr unlocated initializer, rest)
      | .leftParen => (expr 0 rest).bind fun (inner, rest) =>
          (expect .rightParen rest).bind fun rest => some (inner, rest)
      | _ => none

/-- The alternatives that begin with an expression, behind that expression. The
right operand is read one level tighter, so operators associate to the left. -/
def suffix (expr : Nat → Reader Token Expr) : Reader Token Suffix
  | [] => none
  | first :: rest =>
      match binaryOp? first with
      | some op => (expr (precedence (alternative op) + 1) rest).bind fun (right, rest) =>
          some (.operation op right, rest)
      | none =>
          if first = .leftParen then
            (parenthesized (expr 0) rest).bind fun (actuals, rest) =>
              some (.call actuals, rest)
          else none

def suffixes (expr : Nat → Reader Token Expr) (level : Nat) (head : Expr)
    (tokens : List Token) : Option (Expr × List Token) :=
  (repeated (continues level) (suffix expr) tokens).bind fun (suffixes, rest) =>
    some (suffixes.foldl Suffix.attach head, rest)

def exprStep (expr : Nat → Reader Token Expr) (level : Nat) : Reader Token Expr := fun tokens =>
  (primary expr tokens).bind fun (head, rest) => suffixes expr level head rest

/-- The rule `expr`, for the alternatives that bind at least as tightly as a
level. -/
def expr : Nat → Reader Token Expr := recursive exprStep

/-! ## Patterns -/

def patternStep (pattern : Unit → Reader Token Pattern) (_ : Unit) : Reader Token Pattern
  | .kWildcard :: rest => some (.wildcard unlocated, rest)
  | .conId tag :: rest =>
      (payload (pattern ()) rest).bind fun (subPatterns, rest) =>
        some (.ctor unlocated tag subPatterns, rest)
  | .identifier name :: rest => some (.var unlocated (declared name), rest)
  | _ => none

def pattern : Reader Token Pattern := recursive patternStep ()

/-! ## Statements -/

def startsExpr : Token → Bool
  | .mul | .sub | .ampersand | .conId _ | .identifier _ | .number _ | .kInput | .kAlloc
  | .leftParen => true
  | _ => false

def startsStmt : Token → Bool
  | .leftBrace | .kWhile | .kIf | .kOutput | .kError | .kCase => true
  | token => startsExpr token

def startsArm : Token → Bool
  | .conId _ => true
  | _ => false

/-- An expression and the semicolon behind it. -/
def exprLine : Reader Token Expr := fun tokens =>
  (expr 0 tokens).bind fun (arg, rest) =>
    (expect .semicolon rest).bind fun rest => some (arg, rest)

/-- The condition of a `while` or an `if`. -/
def condition (tokens : List Token) : Option (Expr × List Token) :=
  (expect .leftParen tokens).bind fun rest =>
    (expr 0 rest).bind fun (condition, rest) =>
      (expect .rightParen rest).bind fun rest => some (condition, rest)

def assignStmt : Reader Token Stmt := fun tokens =>
  (expr 0 tokens).bind fun (lhs, rest) =>
    (expect .assign rest).bind fun rest =>
      (exprLine rest).bind fun (rhs, rest) => some (.assignStmt unlocated lhs rhs, rest)

/-- An `else` belongs to the nearest `if`. -/
def elseStmt (stmt : Reader Token Stmt) (tokens : List Token) :
    Option (Option Stmt × List Token) :=
  if tokens.head? = some .kElse then
    (stmt tokens.tail).bind fun (elseStmt, rest) => some (some elseStmt, rest)
  else some (none, tokens)

def caseArm (stmt : Reader Token Stmt) : Reader Token CaseArm
  | .conId tag :: rest =>
      (payload pattern rest).bind fun (patterns, rest) =>
        (expect .arrow rest).bind fun rest =>
          (stmt rest).bind fun (body, rest) => some (.mk unlocated tag patterns body, rest)
  | _ => none

def caseArms (stmt : Reader Token Stmt) (tokens : List Token) :
    Option (List CaseArm × List Token) :=
  (repeated startsArm (caseArm stmt) tokens).bind fun (arms, rest) =>
    if arms.isEmpty then none else some (arms, rest)

def stmtStep (stmt : Unit → Reader Token Stmt) (_ : Unit) : Reader Token Stmt
  | [] => none
  | first :: rest =>
      match first with
      | .leftBrace =>
          (repeated startsStmt (stmt ()) rest).bind fun (stmts, rest) =>
            (expect .rightBrace rest).bind fun rest =>
              some (.blockStmt unlocated stmts, rest)
      | .kWhile =>
          (condition rest).bind fun (condition, rest) =>
            (stmt () rest).bind fun (body, rest) =>
              some (.whileStmt unlocated condition body, rest)
      | .kIf =>
          (condition rest).bind fun (condition, rest) =>
            (stmt () rest).bind fun (thenStmt, rest) =>
              (elseStmt (stmt ()) rest).bind fun (elseStmt, rest) =>
                some (.ifStmt unlocated condition thenStmt elseStmt, rest)
      | .kOutput =>
          (exprLine rest).bind fun (arg, rest) => some (.outputStmt unlocated arg, rest)
      | .kError =>
          (exprLine rest).bind fun (arg, rest) => some (.errorStmt unlocated arg, rest)
      | .kCase =>
          (expr 0 rest).bind fun (caseExpr, rest) =>
            (expect .kOf rest).bind fun rest =>
              (expect .leftBrace rest).bind fun rest =>
                (caseArms (stmt ()) rest).bind fun (arms, rest) =>
                  (expect .rightBrace rest).bind fun rest =>
                    some (.caseStmt unlocated caseExpr arms, rest)
      | first => assignStmt (first :: rest)

def stmt : Reader Token Stmt := recursive stmtStep ()

/-! ## Programs -/

def nameDeclaration : Reader Token DeclNode
  | .identifier name :: rest => some (declared name, rest)
  | _ => none

def sumVariant : Reader Token SumVariant
  | .conId tag :: rest =>
      (payload nameDeclaration rest).bind fun (params, rest) =>
        some ({ tag := tag, params := params }, rest)
  | _ => none

def typeDecl : Reader Token SumTypeDecl
  | .kType :: .conId name :: .assign :: rest =>
      (separated .bar sumVariant rest).bind fun (variants, rest) =>
        (expect .semicolon rest).bind fun rest =>
          some ({ name := name, variants := variants }, rest)
  | _ => none

def declaration : Reader Token DeclStmt
  | .kVar :: rest =>
      (separated .comma nameDeclaration rest).bind fun (vars, rest) =>
        (expect .semicolon rest).bind fun rest => some ({ vars := vars }, rest)
  | _ => none

/-- The `return` line is not a statement: it is the last line of a function and
nothing else is. -/
def function : Reader Token ParsedFunction := fun tokens =>
  (nameDeclaration tokens).bind fun (decl, rest) =>
    (expect .leftParen rest).bind fun rest =>
      (parenthesized nameDeclaration rest).bind fun (formals, rest) =>
        (expect .leftBrace rest).bind fun rest =>
          (repeated (· == .kVar) declaration rest).bind fun (declarations, rest) =>
            (repeated startsStmt stmt rest).bind fun (stmts, rest) =>
              (expect .kReturn rest).bind fun rest =>
                (exprLine rest).bind fun (returnArg, rest) =>
                  (expect .rightBrace rest).bind fun rest =>
                    some ({ decl := decl, formals := formals, declarations := declarations,
                            stmts := stmts, returnArg := returnArg, isPoly := false }, rest)

def startsItem : Token → Bool
  | .kType | .identifier _ => true
  | _ => false

def item : Reader Token (SumTypeDecl ⊕ ParsedFunction) := fun tokens =>
  if tokens.head? = some .kType then
    (typeDecl tokens).bind fun (typedecl, rest) => some (.inl typedecl, rest)
  else (function tokens).bind fun (function, rest) => some (.inr function, rest)

/-- The rule `program`. It does not ask for the end of the input. -/
def program (tokens : List Token) : Option ParsedProgram :=
  (repeated startsItem item tokens).bind fun (items, _) =>
    if items.isEmpty then none
    else some { typedecls := items.filterMap Sum.getLeft?,
                functions := items.filterMap Sum.getRight? }

/-- Parses a text, or fails with a parse error. -/
def parse (text : String) : Option ParsedProgram :=
  (Lexer.tokenize text).bind program

end Parser

end Topc
