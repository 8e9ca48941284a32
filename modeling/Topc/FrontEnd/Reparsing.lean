import Topc.FrontEnd.PrintedTokens

/-! # Parsing a printed expression

The printer puts binary expressions in parentheses and nothing else. A printed
expression is therefore a run of prefix operators, a head that cannot be taken
apart, and the calls behind it, and whatever follows goes to the innermost
prefix operator that binds loosely enough. -/

namespace Topc

open Topc.Reader Topc.PrettyPrinter Topc.Parser

/-! ## The nesting that printing keeps -/

namespace Expr

def isPrefix : Expr → Bool
  | .allocExpr .. | .borrowExpr .. | .deRefExpr .. => true
  | _ => false

/-- A constructor without a payload. -/
def isBareCtor : Expr → Bool
  | .sumCtorExpr _ _ args => args.isEmpty
  | _ => false

/-- Whether the last operand of the expression is that of an `alloc`. -/
def endsInAlloc : Expr → Bool
  | .allocExpr _ _ => true
  | .borrowExpr _ var => var.endsInAlloc
  | .deRefExpr _ ptr => ptr.endsInAlloc
  | _ => false

mutual
/-- No callee is a prefix expression, or a bare constructor in front of actuals,
and no left operand ends in the operand of an `alloc`. -/
def keepsNesting : Expr → Bool
  | .numExpr _ _ | .varExpr _ _ | .inputExpr _ => true
  | .binaryExpr _ _ left right => left.keepsNesting && right.keepsNesting && !left.endsInAlloc
  | .funAppExpr _ function actuals =>
      function.keepsNesting && allKeepNesting actuals && !function.isPrefix &&
        !(function.isBareCtor && !actuals.isEmpty)
  | .allocExpr _ initializer => initializer.keepsNesting
  | .borrowExpr _ var => var.keepsNesting
  | .deRefExpr _ ptr => ptr.keepsNesting
  | .sumCtorExpr _ _ args => allKeepNesting args

def allKeepNesting : List Expr → Bool
  | [] => true
  | expr :: exprs => expr.keepsNesting && allKeepNesting exprs
end

theorem allKeepNesting_eq_all (exprs : List Expr) :
    allKeepNesting exprs = exprs.all keepsNesting := by
  induction exprs with
  | nil => rfl
  | cons expr exprs induction => rw [allKeepNesting, induction, List.all_cons]

end Expr

/-! ## Prefix operators and heads -/

inductive PrefixOp
  | alloc | borrow | deRef
deriving DecidableEq, Repr

namespace PrefixOp

/-- The level its operand is read at. -/
def level : PrefixOp → Nat
  | .alloc => precedence 14
  | .borrow => precedence 4
  | .deRef => precedence 2

def wrap : PrefixOp → Expr → Expr
  | .alloc, operand => .allocExpr unlocated operand
  | .borrow, operand => .borrowExpr unlocated operand
  | .deRef, operand => .deRefExpr unlocated operand

def token : PrefixOp → Token
  | .alloc => .kAlloc
  | .borrow => .ampersand
  | .deRef => .mul

def wrapAll (operators : List PrefixOp) (head : Expr) : Expr :=
  operators.foldr wrap head

end PrefixOp

namespace Expr

open Topc.PrefixOp

/-- The prefix operators an expression is printed with, up to its head. -/
def prefixes : Expr → List PrefixOp
  | .allocExpr _ initializer => .alloc :: initializer.prefixes
  | .borrowExpr _ var => .borrow :: var.prefixes
  | .deRefExpr _ ptr => .deRef :: ptr.prefixes
  | .funAppExpr _ function _ => function.prefixes
  | _ => []

/-- A call of a head; a bare constructor takes the actuals for its payload. -/
def called : Expr → List Expr → Expr
  | .sumCtorExpr info tag args, actuals =>
      if args.isEmpty && !actuals.isEmpty then .sumCtorExpr info tag actuals
      else .funAppExpr unlocated (.sumCtorExpr info tag args) actuals
  | head, actuals => .funAppExpr unlocated head actuals

/-- The operation whose left operand is printed with some prefix operators: it
ends up inside the last `alloc` of them. -/
def operated (op : BinaryOp) (head right : Expr) : List PrefixOp → Expr
  | [] => .binaryExpr unlocated op head right
  | operator :: operators =>
      if .alloc ∈ operator :: operators then operator.wrap (operated op head right operators)
      else .binaryExpr unlocated op (wrapAll (operator :: operators) head) right

mutual
/-- What the parser makes of a printed expression behind its prefix operators. -/
def head : Expr → Expr
  | .numExpr _ value => .numExpr unlocated value
  | .varExpr _ name => .varExpr unlocated name
  | .inputExpr _ => .inputExpr unlocated
  | .binaryExpr _ op left right =>
      operated op left.head (wrapAll right.prefixes right.head) left.prefixes
  | .funAppExpr _ function actuals => function.head.called (reparseAll actuals)
  | .allocExpr _ initializer => initializer.head
  | .borrowExpr _ var => var.head
  | .deRefExpr _ ptr => ptr.head
  | .sumCtorExpr _ tag args => .sumCtorExpr unlocated tag (reparseAll args)

def reparseAll : List Expr → List Expr
  | [] => []
  | expr :: exprs => wrapAll expr.prefixes expr.head :: reparseAll exprs
end

/-- What the parser makes of a printed expression. -/
def reparse (expr : Expr) : Expr := wrapAll expr.prefixes expr.head

theorem reparseAll_eq_map (exprs : List Expr) : reparseAll exprs = exprs.map reparse := by
  induction exprs with
  | nil => rfl
  | cons expr exprs induction =>
      rw [reparseAll, induction, List.map_cons]
      rfl

end Expr

/-! ## Reading on behind an expression -/

namespace Parser

open Topc.Expr Topc.PrefixOp

/-- Nothing that goes on with an expression comes next. -/
def Stops (tokens : List Token) : Prop :=
  ∀ level, tokens.head?.any (continues level) = false

theorem suffixes_stop {level : Nat} {tokens : List Token}
    (stop : tokens.head?.any (continues level) = false) (head : Expr) :
    suffixes expr level head tokens = some (head, tokens) := by
  rw [suffixes, repeated_stop stop]
  rfl

theorem suffixes_next {level : Nat} {tokens rest : List Token} {next : Suffix}
    (continuing : tokens.head?.any (continues level) = true)
    (read : suffix expr tokens = some (next, rest)) (head : Expr) :
    suffixes expr level head tokens = suffixes expr level (next.attach head) rest := by
  rw [suffixes, suffixes, repeated_next (suffix_consumes expr_consumes) continuing, read]
  simp only [Option.bind_some]
  cases repeated (continues level) (suffix expr) rest with
  | none => rfl
  | some result => rfl

theorem suffixes_call {level : Nat} (loose : level ≤ precedence 1) {tokens rest : List Token}
    {actuals : List Expr} (read : parenthesized (expr 0) tokens = some (actuals, rest))
    (head : Expr) :
    suffixes expr level head (.leftParen :: tokens) =
      suffixes expr level (.funAppExpr unlocated head actuals) rest := by
  have continuing : (Token.leftParen :: tokens).head?.any (continues level) = true := by
    simpa [continues, binaryOp?] using loose
  have next : suffix expr (.leftParen :: tokens) = some (.call actuals, rest) := by
    simp [suffix, binaryOp?, read]
  exact suffixes_next continuing next head

theorem binaryOp?_token (op : BinaryOp) : binaryOp? op.token = some op := by
  cases op <;> rfl

theorem continues_token (level : Nat) (op : BinaryOp) :
    continues level op.token = decide (level ≤ precedence (alternative op)) := by
  rw [continues, binaryOp?_token]

theorem suffixes_operation {level : Nat} {op : BinaryOp}
    (loose : level ≤ precedence (alternative op)) {tokens rest : List Token} {right : Expr}
    (read : expr (precedence (alternative op) + 1) tokens = some (right, rest)) (head : Expr) :
    suffixes expr level head (op.token :: tokens) =
      suffixes expr level (.binaryExpr unlocated op head right) rest := by
  have continuing : (op.token :: tokens).head?.any (continues level) = true := by
    rw [List.head?_cons, Option.any_some, continues_token, decide_eq_true loose]
  have next : suffix expr (op.token :: tokens) = some (.operation op right, rest) := by
    simp [suffix, binaryOp?_token, read]
  exact suffixes_next continuing next head

/-- Whether a bare constructor in front of the tokens takes them for a payload. -/
def takesPayload (tokens : List Token) : Bool :=
  tokens.head? == some .leftParen && tokens.tail.head? != some .rightParen

/-- What is read behind a head at a level. -/
def behindHead (head : Expr) (level : Nat) (tokens : List Token) :
    Option (Expr × List Token) :=
  if head.isBareCtor && takesPayload tokens then
    (payload (expr 0) tokens).bind fun (args, rest) =>
      suffixes expr level (head.called args) rest
  else suffixes expr level head tokens

/-- What is read behind prefix operators and a head at a level. -/
def behind (head : Expr) : List PrefixOp → Nat → List Token → Option (Expr × List Token)
  | [], level, tokens => behindHead head level tokens
  | operator :: operators, level, tokens =>
      (behind head operators operator.level tokens).bind fun (operand, rest) =>
        suffixes expr level (operator.wrap operand) rest

theorem behind_stop {tokens : List Token} (stops : Stops tokens) (head : Expr)
    (operators : List PrefixOp) (level : Nat) :
    behind head operators level tokens = some (wrapAll operators head, tokens) := by
  induction operators generalizing level with
  | nil =>
      have noPayload : takesPayload tokens = false := by
        cases tokens with
        | nil => rfl
        | cons first tokens =>
            have stop : continues 0 first = false := stops 0
            have different : first ≠ .leftParen := by
              rintro rfl
              cases stop
            simp [takesPayload, different]
      rw [behind, behindHead, noPayload, Bool.and_false, if_neg Bool.false_ne_true]
      exact suffixes_stop (stops level) head
  | cons operator operators induction =>
      rw [behind, induction]
      exact suffixes_stop (stops level) _

/-! ### Calls -/

theorem called_of_not_bareCtor {head : Expr} (notBare : head.isBareCtor = false)
    (actuals : List Expr) : head.called actuals = .funAppExpr unlocated head actuals := by
  cases head with
  | sumCtorExpr info tag args =>
      have nonempty : args.isEmpty = false := notBare
      rw [called, nonempty, Bool.false_and, if_neg Bool.false_ne_true]
  | _ => rfl

theorem behindHead_of_not_bareCtor {head : Expr} (notBare : head.isBareCtor = false)
    (level : Nat) (tokens : List Token) :
    behindHead head level tokens = suffixes expr level head tokens := by
  rw [behindHead, notBare, Bool.false_and, if_neg Bool.false_ne_true]

theorem behindHead_call {tokens rest : List Token} {actuals : List Expr}
    (read : parenthesized (expr 0) tokens = some (actuals, rest)) (head : Expr) {level : Nat}
    (loose : level ≤ precedence 1) :
    behindHead head level (.leftParen :: tokens) = behindHead (head.called actuals) level rest := by
  cases bare : head.isBareCtor with
  | false =>
      rw [behindHead_of_not_bareCtor bare, called_of_not_bareCtor bare,
        behindHead_of_not_bareCtor rfl]
      exact suffixes_call loose read head
  | true =>
      obtain ⟨info, tag, rfl⟩ : ∃ info tag, head = .sumCtorExpr info tag [] := by
        cases head with
        | sumCtorExpr info tag args =>
            exact ⟨info, tag, by rw [List.isEmpty_iff.mp bare]⟩
        | _ => cases bare
      by_cases closed : tokens.head? = some .rightParen
      · have noPayload : takesPayload (.leftParen :: tokens) = false := by
          simp [takesPayload, closed]
        have read' := read
        rw [parenthesized, if_pos closed, Option.some.injEq, Prod.mk.injEq] at read'
        rw [behindHead, noPayload, Bool.and_false, if_neg Bool.false_ne_true,
          suffixes_call loose read, ← read'.1]
        exact (behindHead_of_not_bareCtor rfl level rest).symm
      · have isPayload : takesPayload (.leftParen :: tokens) = true := by
          simp [takesPayload, closed]
        have payloadRead : payload (expr 0) (.leftParen :: tokens) = some (actuals, rest) := by
          rw [← read, payload, parenthesized, if_pos List.head?_cons, if_neg closed]
          rfl
        have nonempty : actuals.isEmpty = false := by
          rw [parenthesized, if_neg closed] at read
          simp only [Option.bind_eq_some_iff, Option.some.injEq, Prod.mk.injEq,
            Prod.exists] at read
          rcases read with ⟨items, middle, items_read, last, -, rfl, -⟩
          simpa using separated_ne_nil items_read
        have notBare : ((Expr.sumCtorExpr info tag []).called actuals).isBareCtor = false := by
          simp [called, nonempty, isBareCtor]
        rw [behindHead_of_not_bareCtor notBare, behindHead, isPayload, bare, Bool.and_self,
          if_pos rfl, payloadRead]
        rfl

/-- A call goes to the head, whatever stands in front of it. -/
theorem behind_call {tokens rest : List Token} {actuals : List Expr}
    (read : parenthesized (expr 0) tokens = some (actuals, rest)) (head : Expr)
    (operators : List PrefixOp) {level : Nat} (loose : level ≤ precedence 1) :
    behind head operators level (.leftParen :: tokens) =
      behind (head.called actuals) operators level rest := by
  induction operators generalizing level with
  | nil => exact behindHead_call read head loose
  | cons operator operators induction =>
      have operandLoose : operator.level ≤ precedence 1 := by cases operator <;> decide
      rw [behind, behind, induction operandLoose]

/-! ### Operations -/

section Operations

variable {op : BinaryOp} {tokens rest : List Token} {right : Expr}
  (read : expr (precedence (alternative op) + 1) tokens = some (right, rest))
  (stops : Stops rest)
include read stops

/-- One operation is read behind a head at a level that is loose enough for it. -/
theorem suffixes_one_operation (head : Expr) (level : Nat) :
    suffixes expr level head (op.token :: tokens) =
      if level ≤ precedence (alternative op) then
        some (.binaryExpr unlocated op head right, rest)
      else some (head, op.token :: tokens) := by
  by_cases loose : level ≤ precedence (alternative op)
  · rw [if_pos loose, suffixes_operation loose read, suffixes_stop (stops level)]
  · rw [if_neg loose]
    apply suffixes_stop
    rw [List.head?_cons, Option.any_some, continues_token, decide_eq_false loose]

/-- An operation goes into the last `alloc` in front of the head, and to the
whole expression where there is none. -/
theorem behind_operation (head : Expr) (operators : List PrefixOp) (level : Nat) :
    behind head operators level (op.token :: tokens) =
      if .alloc ∈ operators ∨ level ≤ precedence (alternative op) then
        some (operated op head right operators, rest)
      else some (wrapAll operators head, op.token :: tokens) := by
  induction operators generalizing level with
  | nil =>
      have noPayload : takesPayload (op.token :: tokens) = false := by cases op <;> rfl
      rw [behind, behindHead, noPayload, Bool.and_false, if_neg Bool.false_ne_true,
        suffixes_one_operation read stops]
      simp [operated, wrapAll]
  | cons operator operators induction =>
      have allocLevel : operator.level ≤ precedence (alternative op) ↔ operator = .alloc := by
        cases operator <;> cases op <;> decide
      have inside : (.alloc ∈ operators ∨ operator.level ≤ precedence (alternative op)) ↔
          .alloc ∈ operator :: operators := by
        rw [allocLevel, List.mem_cons, Or.comm, eq_comm]
      rw [behind, induction]
      by_cases hasAlloc : .alloc ∈ operator :: operators
      · rw [if_pos (inside.mpr hasAlloc), if_pos (Or.inl hasAlloc), operated, if_pos hasAlloc]
        exact suffixes_stop (stops level) _
      · rw [if_neg (inside.not.mpr hasAlloc), operated, if_neg hasAlloc]
        simp only [hasAlloc, false_or]
        exact suffixes_one_operation read stops _ level

end Operations

/-! ## Printed expressions -/

/-- A prefix operator reads its operand at its own level. -/
theorem expr_prefix (operator : PrefixOp) (level : Nat) (tokens : List Token) :
    expr level (operator.token :: tokens) =
      (expr operator.level tokens).bind fun (operand, rest) =>
        suffixes expr level (operator.wrap operand) rest := by
  rw [expr_eq]
  cases operator with
  | alloc =>
      simp only [PrefixOp.token, primary, Option.bind_assoc, Option.bind_some]
      rfl
  | borrow =>
      simp only [PrefixOp.token, primary, Option.bind_assoc, Option.bind_some]
      rfl
  | deRef =>
      simp only [PrefixOp.token, primary, Option.bind_assoc, Option.bind_some]
      rfl

theorem primary_leftParen {tokens rest : List Token} {inner : Expr}
    (read : expr 0 tokens = some (inner, .rightParen :: rest)) :
    primary expr (.leftParen :: tokens) = some (inner, rest) := by
  simp [primary, read]

theorem stops_of_not_continuing {first : Token} {rest : List Token}
    (notParen : first ≠ .leftParen) (notOp : binaryOp? first = none) : Stops (first :: rest) := by
  intro level
  rw [List.head?_cons, Option.any_some, continues, notOp]
  simp [notParen]

theorem operated_not_bareCtor (op : BinaryOp) (head right : Expr)
    (operators : List PrefixOp) : (operated op head right operators).isBareCtor = false := by
  cases operators with
  | nil => rfl
  | cons operator operators =>
      rw [operated]
      split
      · cases operator <;> rfl
      · rfl

theorem exprTokens_start (tree : Expr) :
    ∃ first others, exprTokens tree = first :: others ∧ startsExpr first = true := by
  induction tree with
  | numExpr info value =>
      by_cases negative : value < 0
      · exact ⟨_, _, by rw [exprTokens, numberTokens, if_pos negative], rfl⟩
      · exact ⟨_, _, by rw [exprTokens, numberTokens, if_neg negative], rfl⟩
  | funAppExpr info function actuals functionStart =>
      obtain ⟨first, others, spelled, starts⟩ := functionStart
      exact ⟨first, _, by rw [exprTokens, spelled]; rfl, starts⟩
  | _ => exact ⟨_, _, rfl, rfl⟩

theorem le_ofDigitChars (symbols : List Char) (start : Nat) :
    start ≤ Nat.ofDigitChars 10 symbols start := by
  rw [Nat.ofDigitChars_eq_ofDigitChars_zero]
  have scaled : start ≤ 10 ^ symbols.length * start :=
    Nat.le_mul_of_pos_left start (Nat.pow_pos (by decide))
  omega

/-- Digits are read as their value if that is within the limit. -/
theorem foldlM_appendDigit {limit : Nat} (symbols : List Char) :
    ∀ start, Nat.ofDigitChars 10 symbols start ≤ limit →
      symbols.foldlM (appendDigit limit) start = some (Nat.ofDigitChars 10 symbols start) := by
  induction symbols with
  | nil => exact fun _ _ => rfl
  | cons symbol symbols induction =>
      intro start le
      rw [Nat.ofDigitChars_cons] at le ⊢
      have grows := le_ofDigitChars symbols (10 * start + (symbol.toNat - '0'.toNat))
      have appended : appendDigit limit start symbol =
          some (10 * start + (symbol.toNat - '0'.toNat)) := by
        rw [appendDigit, if_neg (by omega), Nat.mul_comm]
      rw [List.foldlM_cons, appended]
      exact induction _ le

theorem foldlM_appendDigit_toString {limit value : Nat} (le : value ≤ limit) :
    (toString value).toList.foldlM (appendDigit limit) 0 = some value := by
  have digits : Nat.ofDigitChars 10 (toString value).toList 0 = value := by
    rw [Nat.toString_eq_ofList_toDigits, String.toList_ofList, Nat.ofDigitChars_ten_toDigits]
  rw [foldlM_appendDigit _ 0 (by rw [digits]; exact le), digits]

theorem primary_number {value : Int} (low : -(int64Max + 1) ≤ value) (high : value ≤ int64Max)
    (rest : List Token) :
    primary expr (numberTokens value ++ rest) = some (.numExpr unlocated value, rest) := by
  by_cases negative : value < 0
  · have literal : numberLiteralValue (toString value.natAbs) true = some value := by
      rw [numberLiteralValue, foldlM_appendDigit_toString (by simp only [if_true]; omega)]
      simp only [Option.map_some, if_true, Option.some.injEq]
      omega
    rw [numberTokens, if_pos negative]
    simp only [List.cons_append, List.nil_append, primary, literal, Option.bind_some]
  · have literal : numberLiteralValue (toString value.natAbs) false = some value := by
      rw [numberLiteralValue, foldlM_appendDigit_toString (by omega)]
      simp only [Option.map_some, Bool.false_eq_true, if_false, Option.some.injEq]
      omega
    rw [numberTokens, if_neg negative]
    simp only [List.cons_append, List.nil_append, primary, literal, Option.bind_some]

/-- The items of a list in parentheses are read as they are one by one. -/
theorem separated_exprs {exprs : List Expr} (nonempty : exprs ≠ [])
    (reads : ∀ tree ∈ exprs, ∀ {level : Nat}, level ≤ precedence 1 → ∀ rest,
      expr level (exprTokens tree ++ rest) = behind tree.head tree.prefixes level rest)
    (rest : List Token) :
    separated .comma (expr 0) (separate .comma (exprs.map exprTokens) ++ .rightParen :: rest) =
      some (exprs.map Expr.reparse, .rightParen :: rest) := by
  apply separated_spelled (expr_consumes 0) nonempty
  · intro tree member tokens stops
    rw [reads tree member (Nat.zero_le _)]
    exact behind_stop stops _ _ _
  · exact fun _ => stops_of_not_continuing (by decide) rfl
  · exact stops_of_not_continuing (by decide) rfl
  · rfl

theorem closed_exprs {exprs : List Expr} (nonempty : exprs ≠ [])
    (reads : ∀ tree ∈ exprs, ∀ {level : Nat}, level ≤ precedence 1 → ∀ rest,
      expr level (exprTokens tree ++ rest) = behind tree.head tree.prefixes level rest)
    (rest : List Token) :
    ((separated .comma (expr 0)
        (separate .comma (exprs.map exprTokens) ++ .rightParen :: rest)).bind
      fun (items, rest) => (expect .rightParen rest).bind fun rest => some (items, rest)) =
        some (exprs.map Expr.reparse, rest) := by
  rw [separated_exprs nonempty reads rest]
  simp only [Option.bind_some, expect_cons]

theorem separate_head_ne {exprs : List Expr} (nonempty : exprs ≠ []) (rest : List Token) :
    (separate .comma (exprs.map exprTokens) ++ rest).head? ≠ some .rightParen := by
  obtain ⟨tree, exprs, rfl⟩ := List.exists_cons_of_ne_nil nonempty
  obtain ⟨first, others, spelled, starts⟩ := exprTokens_start tree
  rw [List.map_cons, separate, spelled]
  intro closed
  have isClose : first = .rightParen := Option.some.inj closed
  rw [isClose] at starts
  cases starts

theorem payload_ne_nil {rest last : List Token} {args : List Expr}
    (isPayload : rest.head? = some .leftParen) (read : payload (expr 0) rest = some (args, last)) :
    args.isEmpty = false := by
  rw [payload, if_pos isPayload] at read
  simp only [Option.bind_eq_some_iff, Option.some.injEq, Prod.mk.injEq, Prod.exists] at read
  rcases read with ⟨items, middle, items_read, last, -, rfl, -⟩
  simpa using separated_ne_nil items_read

theorem take_two_eq {first second : Token} (tokens : List Token) :
    tokens.take 2 = [first, second] ↔
      tokens.head? = some first ∧ tokens.tail.head? = some second := by
  cases tokens with
  | nil => simp
  | cons head tokens => cases tokens <;> simp

/-- A bare constructor in front of any tokens. -/
theorem sumCtorExpr_bare (tag : String) (level : Nat) (rest : List Token) :
    ((primary expr (.conId tag :: rest)).bind fun (head, rest) => suffixes expr level head rest) =
      behindHead (.sumCtorExpr unlocated tag []) level rest := by
  have bare : (Expr.sumCtorExpr unlocated tag []).isBareCtor = true := rfl
  have ctor : primary expr (.conId tag :: rest) = sumCtorExpr expr tag rest := rfl
  rw [ctor, behindHead, bare, Bool.true_and, sumCtorExpr, takesPayload]
  by_cases opened : rest.head? = some .leftParen
  · by_cases closed : rest.tail.head? = some .rightParen
    · rw [if_pos ((take_two_eq rest).mpr ⟨opened, closed⟩), if_neg (by simp [closed])]
      rfl
    · rw [if_neg (fun both => closed ((take_two_eq rest).mp both).2),
        if_pos (by simpa [opened] using closed),
        Option.bind_assoc]
      apply Reader.bind_congr
      intro args last read
      have nonempty := payload_ne_nil opened read
      simp only [Option.bind_some, called, nonempty, List.isEmpty_nil, Bool.not_false,
        Bool.and_self, if_true]
  · rw [if_neg (fun both => opened ((take_two_eq rest).mp both).1), if_neg (by simp [opened]),
      payload, if_neg opened]
    rfl

theorem expr_spelled {tree : Expr} (built : tree.Built) {level : Nat}
    (loose : level ≤ precedence 1) (rest : List Token) :
    expr level (exprTokens tree ++ rest) = behind tree.head tree.prefixes level rest := by
  induction built generalizing level rest with
  | numExpr low high =>
      rw [expr_eq]
      simp only [exprTokens, primary_number low high]
      rfl
  | varExpr identifier =>
      rw [expr_eq]
      rfl
  | inputExpr =>
      rw [expr_eq]
      rfl
  | @binaryExpr op left right leftBuilt rightBuilt leftReads rightReads =>
      have stops : Stops (.rightParen :: rest) := stops_of_not_continuing (by decide) rfl
      have rightLoose : precedence (alternative op) + 1 ≤ precedence 1 := by cases op <;> decide
      have rightRead : expr (precedence (alternative op) + 1)
          (exprTokens right ++ .rightParen :: rest) = some (right.reparse, .rightParen :: rest) := by
        rw [rightReads rightLoose]
        exact behind_stop stops _ _ _
      have inner : expr 0 (exprTokens left ++ op.token :: (exprTokens right ++ .rightParen :: rest)) =
          some (operated op left.head right.reparse left.prefixes, .rightParen :: rest) := by
        rw [leftReads (Nat.zero_le _), behind_operation rightRead stops,
          if_pos (Or.inr (Nat.zero_le _))]
      have spelled : exprTokens (.binaryExpr unlocated op left right) ++ rest =
          .leftParen ::
            (exprTokens left ++ op.token :: (exprTokens right ++ .rightParen :: rest)) := by
        simp [exprTokens]
      rw [spelled, expr_eq, primary_leftParen inner]
      exact (behindHead_of_not_bareCtor (operated_not_bareCtor _ _ _ _) level rest).symm
  | @funAppExpr function actuals functionBuilt actualsBuilt functionReads actualsRead =>
      have read : parenthesized (expr 0)
          (separate .comma (actuals.map exprTokens) ++ .rightParen :: rest) =
            some (actuals.map Expr.reparse, rest) := by
        cases actuals with
        | nil => rfl
        | cons actual actuals =>
            have nonempty := List.cons_ne_nil actual actuals
            rw [parenthesized, if_neg (separate_head_ne nonempty _)]
            exact closed_exprs nonempty actualsRead rest
      have spelled : exprTokens (.funAppExpr unlocated function actuals) ++ rest =
          exprTokens function ++ .leftParen ::
            (separate .comma (actuals.map exprTokens) ++ .rightParen :: rest) := by
        simp [exprTokens, exprsTokens_eq_map]
      rw [spelled, functionReads loose, behind_call read _ _ loose, ← reparseAll_eq_map]
      rfl
  | @allocExpr initializer initializerBuilt reads =>
      have read := expr_prefix .alloc level (exprTokens initializer ++ rest)
      rw [reads (by decide)] at read
      exact read
  | @borrowExpr var varBuilt reads =>
      have read := expr_prefix .borrow level (exprTokens var ++ rest)
      rw [reads (by decide)] at read
      exact read
  | @deRefExpr ptr ptrBuilt reads =>
      have read := expr_prefix .deRef level (exprTokens ptr ++ rest)
      rw [reads (by decide)] at read
      exact read
  | @sumCtorExpr tag args conId argsBuilt argsRead =>
      rw [expr_eq]
      cases args with
      | nil => exact sumCtorExpr_bare tag level rest
      | cons arg args =>
          have nonempty := List.cons_ne_nil arg args
          have spelled : exprTokens (.sumCtorExpr unlocated tag (arg :: args)) ++ rest =
              .conId tag :: .leftParen ::
                (separate .comma ((arg :: args).map exprTokens) ++ .rightParen :: rest) := by
            simp [exprTokens, exprsTokens_eq_map, payloadTokens]
          have read : primary expr (.conId tag :: .leftParen ::
              (separate .comma ((arg :: args).map exprTokens) ++ .rightParen :: rest)) =
                some (.sumCtorExpr unlocated tag ((arg :: args).map Expr.reparse), rest) := by
            have open' : ¬ ((Token.leftParen :: (separate .comma ((arg :: args).map exprTokens) ++
                .rightParen :: rest)).take 2 = [.leftParen, .rightParen]) := by
              rw [take_two_eq]
              exact fun both => separate_head_ne nonempty _ both.2
            simp only [primary, sumCtorExpr, if_neg open', payload, if_pos List.head?_cons]
            rw [List.tail_cons, closed_exprs nonempty argsRead rest]
            rfl
          rw [spelled, read, ← reparseAll_eq_map]
          exact (behindHead_of_not_bareCtor rfl level rest).symm

/-- A printed expression is parsed as `reparse` says where nothing goes on
with it. -/
theorem expr_reparse {tree : Expr} (built : tree.Built) {rest : List Token}
    (stops : Stops rest) : expr 0 (exprTokens tree ++ rest) = some (tree.reparse, rest) := by
  rw [expr_spelled built (Nat.zero_le _)]
  exact behind_stop stops _ _ _

end Parser

/-! ## The nesting is kept where the trees are equal -/

namespace Expr

open Topc.PrefixOp

theorem wrap_isPrefix (operator : PrefixOp) (operand : Expr) :
    (operator.wrap operand).isPrefix = true := by
  cases operator <;> rfl

theorem prefixes_ne_nil_of_isPrefix {tree : Expr} (isPrefix : tree.isPrefix = true) :
    tree.prefixes ≠ [] := by
  cases tree <;> first | exact List.cons_ne_nil _ _ | cases isPrefix

theorem wrapAll_isPrefix {operators : List PrefixOp} (nonempty : operators ≠ []) (head : Expr) :
    (wrapAll operators head).isPrefix = true := by
  obtain ⟨operator, operators, rfl⟩ := List.exists_cons_of_ne_nil nonempty
  exact wrap_isPrefix operator _

/-- Behind a kept nesting, only a prefix expression has prefix operators. -/
theorem prefixes_eq_nil {tree : Expr} (keeps : tree.keepsNesting = true)
    (notPrefix : tree.isPrefix = false) : tree.prefixes = [] := by
  induction tree with
  | funAppExpr info function actuals functionNil =>
      simp only [keepsNesting, Bool.and_eq_true, Bool.not_eq_true'] at keeps
      exact functionNil keeps.1.1.1 keeps.1.2
  | _ => first | rfl | cases notPrefix

theorem alloc_mem_prefixes {tree : Expr} (ends : tree.endsInAlloc = true) :
    .alloc ∈ tree.prefixes := by
  induction tree with
  | allocExpr info initializer _ => exact List.mem_cons_self
  | borrowExpr info var mem => exact List.mem_cons_of_mem _ (mem ends)
  | deRefExpr info ptr mem => exact List.mem_cons_of_mem _ (mem ends)
  | _ => cases ends

theorem endsInAlloc_of_mem {tree : Expr} (keeps : tree.keepsNesting = true)
    (member : .alloc ∈ tree.prefixes) : tree.endsInAlloc = true := by
  induction tree with
  | allocExpr info initializer _ => rfl
  | borrowExpr info var ends =>
      rcases List.mem_cons.mp member with impossible | member
      · cases impossible
      · exact ends keeps member
  | deRefExpr info ptr ends =>
      rcases List.mem_cons.mp member with impossible | member
      · cases impossible
      · exact ends keeps member
  | funAppExpr info function actuals _ =>
      rw [prefixes_eq_nil keeps rfl] at member
      cases member
  | _ => cases member

theorem operated_of_no_alloc {op : BinaryOp} {head right : Expr} {operators : List PrefixOp}
    (none : .alloc ∉ operators) :
    operated op head right operators = .binaryExpr unlocated op (wrapAll operators head) right := by
  cases operators with
  | nil => rfl
  | cons operator operators => rw [operated, if_neg none]

theorem operated_of_alloc {op : BinaryOp} {head right : Expr} {operators : List PrefixOp}
    (some : .alloc ∈ operators) : (operated op head right operators).isPrefix = true := by
  cases operators with
  | nil => cases some
  | cons operator operators =>
      rw [operated, if_pos some]
      exact wrap_isPrefix operator _

theorem map_eq_self_iff {Item : Type} {change : Item → Item} (items : List Item) :
    items.map change = items ↔ ∀ item ∈ items, change item = item := by
  calc items.map change = items ↔ items.map change = items.map id := by rw [List.map_id]
    _ ↔ ∀ item ∈ items, change item = item := List.map_inj_left

theorem reparseAll_eq_self {exprs : List Expr}
    (each : ∀ tree ∈ exprs, tree.reparse = tree ↔ tree.keepsNesting = true) :
    reparseAll exprs = exprs ↔ allKeepNesting exprs = true := by
  rw [reparseAll_eq_map, allKeepNesting_eq_all, List.all_eq_true, map_eq_self_iff]
  exact forall₂_congr each

/-- A binary expression is kept with both operands, unless its left operand ends
in an `alloc`. -/
theorem reparse_binaryExpr (op : BinaryOp) (left right : Expr) :
    reparse (.binaryExpr unlocated op left right) = .binaryExpr unlocated op left right ↔
      left.reparse = left ∧ right.reparse = right ∧ .alloc ∉ left.prefixes := by
  change operated op left.head right.reparse left.prefixes = _ ↔ _
  by_cases hasAlloc : .alloc ∈ left.prefixes
  · apply iff_of_false
    · intro equal
      have isPrefix : (operated op left.head right.reparse left.prefixes).isPrefix = true :=
        operated_of_alloc hasAlloc
      rw [equal] at isPrefix
      cases isPrefix
    · exact fun both => both.2.2 hasAlloc
  · rw [operated_of_no_alloc hasAlloc]
    simp only [binaryExpr.injEq, true_and, hasAlloc, not_false_eq_true, and_true]
    exact Iff.rfl

theorem called_eq_funAppExpr (head function : Expr) (actuals given : List Expr) :
    head.called actuals = .funAppExpr unlocated function given ↔
      head = function ∧ actuals = given ∧ (head.isBareCtor && !actuals.isEmpty) = false := by
  cases head with
  | sumCtorExpr info tag args =>
      rw [called, isBareCtor]
      by_cases payload : (args.isEmpty && !actuals.isEmpty) = true
      · simp [payload]
      · simp [payload]
  | _ => simp [called, isBareCtor]

/-- A call is kept with its callee and its actuals, unless the callee is a
prefix expression or takes the actuals for its payload. -/
theorem reparse_funAppExpr (function : Expr) (actuals : List Expr) :
    reparse (.funAppExpr unlocated function actuals) = .funAppExpr unlocated function actuals ↔
      function.reparse = function ∧ reparseAll actuals = actuals ∧ function.prefixes = [] ∧
        (function.isBareCtor && !actuals.isEmpty) = false := by
  change wrapAll function.prefixes (function.head.called (reparseAll actuals)) = _ ↔
    wrapAll function.prefixes function.head = function ∧ _
  by_cases noPrefixes : function.prefixes = []
  · rw [noPrefixes]
    change function.head.called (reparseAll actuals) = _ ↔ function.head = function ∧ _
    rw [called_eq_funAppExpr]
    constructor
    · rintro ⟨headEq, actualsEq, notPayload⟩
      rw [headEq, actualsEq] at notPayload
      exact ⟨headEq, actualsEq, rfl, notPayload⟩
    · rintro ⟨headEq, actualsEq, -, notPayload⟩
      refine ⟨headEq, actualsEq, ?_⟩
      rw [headEq, actualsEq]
      exact notPayload
  · apply iff_of_false
    · intro equal
      have isPrefix := wrapAll_isPrefix noPrefixes (function.head.called (reparseAll actuals))
      rw [equal] at isPrefix
      cases isPrefix
    · exact fun both => noPrefixes both.2.2.1

/-- A printed expression is parsed as itself exactly if its nesting is kept. -/
theorem reparse_eq_self_iff {tree : Expr} (built : tree.Built) :
    tree.reparse = tree ↔ tree.keepsNesting = true := by
  induction built with
  | numExpr low high => exact iff_of_true rfl rfl
  | varExpr identifier => exact iff_of_true rfl rfl
  | inputExpr => exact iff_of_true rfl rfl
  | @binaryExpr op left right leftBuilt rightBuilt leftIff rightIff =>
      rw [reparse_binaryExpr, leftIff, rightIff]
      simp only [keepsNesting, Bool.and_eq_true, Bool.not_eq_true', and_assoc]
      apply and_congr_right
      intro leftKeeps
      apply and_congr_right
      intro _
      constructor
      · intro noAlloc
        cases ends : left.endsInAlloc with
        | false => rfl
        | true => exact absurd (alloc_mem_prefixes ends) noAlloc
      · intro notEnds member
        rw [endsInAlloc_of_mem leftKeeps member] at notEnds
        cases notEnds
  | @funAppExpr function actuals functionBuilt actualsBuilt functionIff actualsIff =>
      rw [reparse_funAppExpr, functionIff, reparseAll_eq_self actualsIff]
      simp only [keepsNesting, Bool.and_eq_true, Bool.not_eq_true', and_assoc]
      apply and_congr_right
      intro functionKeeps
      apply and_congr_right
      intro _
      apply and_congr_left
      intro _
      constructor
      · intro noPrefixes
        cases isPrefix : function.isPrefix with
        | false => rfl
        | true => exact absurd noPrefixes (prefixes_ne_nil_of_isPrefix isPrefix)
      · exact prefixes_eq_nil functionKeeps
  | @allocExpr initializer initializerBuilt initializerIff =>
      rw [keepsNesting, ← initializerIff]
      change Expr.allocExpr unlocated initializer.reparse = _ ↔ _
      rw [allocExpr.injEq]
      exact and_iff_right rfl
  | @borrowExpr var varBuilt varIff =>
      rw [keepsNesting, ← varIff]
      change Expr.borrowExpr unlocated var.reparse = _ ↔ _
      rw [borrowExpr.injEq]
      exact and_iff_right rfl
  | @deRefExpr ptr ptrBuilt ptrIff =>
      rw [keepsNesting, ← ptrIff]
      change Expr.deRefExpr unlocated ptr.reparse = _ ↔ _
      rw [deRefExpr.injEq]
      exact and_iff_right rfl
  | @sumCtorExpr tag args conId argsBuilt argsIff =>
      rw [keepsNesting, ← reparseAll_eq_self argsIff]
      change Expr.sumCtorExpr unlocated tag (reparseAll args) = _ ↔ _
      rw [sumCtorExpr.injEq]
      simp only [true_and]

end Expr

end Topc
