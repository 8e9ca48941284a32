import Topc.FrontEnd.Parser

/-! # Pretty printer

The visitor's strings, node by node. The indentation level it counts up and down
is the `level` the statements are printed at. -/

namespace Topc

/-- Prints with a white space character, so many of them for a level. -/
structure PrettyPrinter where
  indentChar : Char
  indentSize : Nat
  whitespace : Lexer.isSpace indentChar = true

namespace PrettyPrinter

/-- The printer behind `FrontEnd::prettyprint`. -/
def frontEnd : PrettyPrinter where
  indentChar := ' '
  indentSize := 2
  whitespace := rfl

/-- Joins strings; the delimiter is left out before the last `skip` of them. -/
def joinWithDelim (results : List String) (delim : String) (skip : Nat) : String :=
  let delimited := results.length - skip
  ((results.take delimited).map (· ++ delim) ++ results.drop delimited).foldr (· ++ ·) ""

mutual
def printExpr : Expr → String
  | .numExpr _ value => toString value
  | .varExpr _ name => name
  | .binaryExpr _ op left right =>
      "(" ++ printExpr left ++ " " ++ op.getOp ++ " " ++ printExpr right ++ ")"
  | .inputExpr _ => "input"
  | .funAppExpr _ function actuals =>
      printExpr function ++ "(" ++ joinWithDelim (printExprs actuals) ", " 1 ++ ")"
  | .allocExpr _ initializer => "alloc " ++ printExpr initializer
  | .borrowExpr _ var => "&" ++ printExpr var
  | .deRefExpr _ ptr => "*" ++ printExpr ptr
  | .sumCtorExpr _ tag args =>
      if args.isEmpty then tag
      else tag ++ "(" ++ joinWithDelim (printExprs args) ", " 1 ++ ")"

def printExprs : List Expr → List String
  | [] => []
  | expr :: exprs => printExpr expr :: printExprs exprs
end

mutual
def patternToString : Pattern → String
  | .wildcard _ => "_"
  | .var _ decl => decl.name
  | .ctor _ tag subPatterns =>
      if subPatterns.isEmpty then tag
      else tag ++ "(" ++ joinWithDelim (patternsToStrings subPatterns) ", " 1 ++ ")"

def patternsToStrings : List Pattern → List String
  | [] => []
  | pattern :: patterns => patternToString pattern :: patternsToStrings patterns
end

variable (printer : PrettyPrinter)

def indent (level : Nat) : String :=
  String.ofList (List.replicate (level * printer.indentSize) printer.indentChar)

/-- A case arm's body stands on the line of its arrow. -/
def stripIndent (text : String) : String :=
  String.ofList (text.toList.dropWhile fun symbol => symbol == ' ' || symbol == '\t')

mutual
def printStmt (level : Nat) : Stmt → String
  | .assignStmt _ lhs rhs =>
      printer.indent level ++ printExpr lhs ++ " = " ++ printExpr rhs ++ ";"
  | .blockStmt _ stmts =>
      printer.indent level ++ "\x7b\n" ++ joinWithDelim (printStmts (level + 1) stmts) "\n" 0 ++
        printer.indent level ++ "\x7d"
  | .whileStmt _ condition body =>
      printer.indent level ++ "while (" ++ printExpr condition ++ ")\n" ++
        printStmt (level + 1) body
  | .ifStmt _ condition thenStmt elseStmt =>
      printer.indent level ++ "if (" ++ printExpr condition ++ ")\n" ++
        printStmt (level + 1) thenStmt ++ printElse level elseStmt
  | .outputStmt _ arg => printer.indent level ++ "output " ++ printExpr arg ++ ";"
  | .errorStmt _ arg => printer.indent level ++ "error " ++ printExpr arg ++ ";"
  | .caseStmt _ caseExpr arms =>
      printer.indent level ++ "case " ++ printExpr caseExpr ++ " of \x7b\n" ++
        joinWithDelim (printArms (level + 1) arms) "\n" 1 ++ "\n" ++
        printer.indent level ++ "\x7d"

def printStmts (level : Nat) : List Stmt → List String
  | [] => []
  | stmt :: stmts => printStmt level stmt :: printStmts level stmts

def printElse (level : Nat) : Option Stmt → String
  | none => ""
  | some elseStmt =>
      "\n" ++ printer.indent level ++ "else\n" ++ printStmt (level + 1) elseStmt

def printArm (level : Nat) : CaseArm → String
  | .mk _ tag patterns body =>
      printer.indent level ++ tag ++
        (if patterns.isEmpty then ""
         else "(" ++ joinWithDelim (patternsToStrings patterns) ", " 1 ++ ")") ++
        " -> " ++ stripIndent (printStmt level body)

def printArms (level : Nat) : List CaseArm → List String
  | [] => []
  | arm :: arms => printArm level arm :: printArms level arms
end

/-- The last line of a function. -/
def printReturn (level : Nat) (returnArg : Expr) : String :=
  printer.indent level ++ "return " ++ printExpr returnArg ++ ";"

def printDeclStmt (level : Nat) (decl : DeclStmt) : String :=
  printer.indent level ++ "var " ++ joinWithDelim (decl.vars.map DeclNode.name) ", " 1 ++ ";"

def printFunction (function : ParsedFunction) : String :=
  let bodyString :=
    joinWithDelim (printer.printStmts 1 function.stmts ++
      [printer.printReturn 1 function.returnArg]) "\n" 0
  let declString := joinWithDelim (function.declarations.map (printer.printDeclStmt 1)) "\n" 0
  let formalsString := joinWithDelim (function.formals.map DeclNode.name) ", " 1
  let polyString := if function.isPoly then " poly" else ""
  function.decl.name ++ "(" ++ formalsString ++ ")" ++ polyString ++ "\n\x7b\n" ++ declString ++
    bodyString ++ "\x7d\n"

def printSumVariant (variant : SumVariant) : String :=
  if variant.params.isEmpty then variant.tag
  else variant.tag ++ "(" ++ joinWithDelim (variant.params.map DeclNode.name) ", " 1 ++ ")"

def printSumTypeDecl (typedecl : SumTypeDecl) : String :=
  "type " ++ typedecl.name ++ " = " ++
    joinWithDelim (typedecl.variants.map printSumVariant) " | " 1 ++ ";"

/-- Type declarations come first, in their order, and the functions after them. -/
def print (program : ParsedProgram) : String :=
  joinWithDelim (program.typedecls.map printSumTypeDecl ++
    program.functions.map printer.printFunction) "\n" 1

end PrettyPrinter

end Topc
