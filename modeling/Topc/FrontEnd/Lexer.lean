import Topc.Foundation.Scanning

/-! # Lexer

The lexical rules of the grammar. The longest lexeme wins, and of two rules that
match the same lexeme the first one, so that a keyword is not an identifier. -/

namespace Topc

inductive Token
  | leftParen | rightParen | leftBrace | rightBrace | comma | semicolon
  | assign | bar | ampersand
  | mul | div | add | sub | gt | eq | ne
  | number (digits : String)
  | kAlloc | kInput | kWhile | kIf | kElse | kVar | kReturn | kOutput | kError
  | kType | kCase | kOf | kNull
  | arrow
  | conId (text : String)
  | kWildcard
  | identifier (text : String)
deriving DecidableEq, Repr

namespace Lexer

/-! ## Rules -/

/-- `WS : [ \t\n\r]+` -/
def isSpace (symbol : Char) : Bool :=
  symbol == ' ' || symbol == '\t' || symbol == '\n' || symbol == '\r'

/-- `[a-zA-Z0-9_]` -/
def isWord (symbol : Char) : Bool :=
  symbol.isAlphanum || symbol == '_'

def keyword : String → Option Token
  | "alloc" => some .kAlloc
  | "input" => some .kInput
  | "while" => some .kWhile
  | "if" => some .kIf
  | "else" => some .kElse
  | "var" => some .kVar
  | "return" => some .kReturn
  | "output" => some .kOutput
  | "error" => some .kError
  | "type" => some .kType
  | "case" => some .kCase
  | "of" => some .kOf
  | "null" => some .kNull
  | _ => none

/-- The token of a lexeme that begins with a lower case letter. -/
def wordToken (text : String) : Token :=
  (keyword text).getD (.identifier text)

/-- The length of a block comment's text with the `*/` that ends it. -/
def commentEnd : List Char → Option Nat
  | [] => none
  | first :: rest =>
      if first == '*' && rest.head? == some '/' then some 2
      else (commentEnd rest).map (· + 1)

def symbolToken (first : Char) (rest : List Char) : Option (Option Token × Nat) :=
  match first with
  | '(' => some (some .leftParen, 0)
  | ')' => some (some .rightParen, 0)
  | '{' => some (some .leftBrace, 0)
  | '}' => some (some .rightBrace, 0)
  | ',' => some (some .comma, 0)
  | ';' => some (some .semicolon, 0)
  | '|' => some (some .bar, 0)
  | '&' => some (some .ampersand, 0)
  | '*' => some (some .mul, 0)
  | '+' => some (some .add, 0)
  | '>' => some (some .gt, 0)
  | '_' => some (some .kWildcard, 0)
  | '=' => if rest.head? == some '=' then some (some .eq, 1) else some (some .assign, 0)
  | '!' => if rest.head? == some '=' then some (some .ne, 1) else none
  | '-' => if rest.head? == some '>' then some (some .arrow, 1) else some (some .sub, 0)
  | '/' =>
      if rest.head? == some '/' then
        some (none, (rest.takeWhile fun symbol => symbol != '\n' && symbol != '\r').length)
      else if rest.head? == some '*' then
        -- a comment that nothing ends is a division and a product
        match commentEnd rest.tail with
        | some length => some (none, length + 1)
        | none => some (some .div, 0)
      else some (some .div, 0)
  | _ => none

def nextToken : Scanner.Rule Char Token := fun first rest =>
  if isSpace first then
    some (none, (rest.takeWhile isSpace).length)
  else if first.isDigit then
    let digits := rest.takeWhile Char.isDigit
    some (some (.number (String.ofList (first :: digits))), digits.length)
  else if first.isLower then
    let others := rest.takeWhile isWord
    some (some (wordToken (String.ofList (first :: others))), others.length)
  else if first.isUpper then
    let others := rest.takeWhile isWord
    some (some (.conId (String.ofList (first :: others))), others.length)
  else symbolToken first rest

/-- The tokens of a text, if every part of it is a lexeme. -/
def tokenize (text : String) : Option (List Token) :=
  Scanner.scan nextToken text.toList

example : tokenize "x==alloc9/*?*/->_y // z" =
    some [.identifier "x", .eq, .identifier "alloc9", .arrow, .kWildcard, .identifier "y"] := by
  decide +kernel

/-! ## Lexemes -/

/-- `IDENTIFIER : [a-z][a-zA-Z0-9_]*`, unless it is a keyword. -/
def isIdentifier (text : String) : Bool :=
  text.toList.head?.any Char.isLower && text.toList.all isWord && (keyword text).isNone

/-- `CONID : [A-Z][a-zA-Z0-9_]*` -/
def isConId (text : String) : Bool :=
  text.toList.head?.any Char.isUpper && text.toList.all isWord

/-- What the lexer makes of a lexeme is a name as the grammar has them. -/
def WellFormed : Token → Prop
  | .identifier text => isIdentifier text = true
  | .conId text => isConId text = true
  | _ => True

/-! ### Kinds of symbols -/

theorem isWord_of_isLower {symbol : Char} (lower : symbol.isLower = true) :
    isWord symbol = true := by
  change ((symbol.isUpper || symbol.isLower || symbol.isDigit) || symbol == '_') = true
  rw [lower, Bool.or_true, Bool.true_or, Bool.true_or]

theorem isWord_of_isUpper {symbol : Char} (upper : symbol.isUpper = true) :
    isWord symbol = true := by
  change ((symbol.isUpper || symbol.isLower || symbol.isDigit) || symbol == '_') = true
  rw [upper, Bool.true_or, Bool.true_or, Bool.true_or]

theorem isWord_of_isDigit {symbol : Char} (digit : symbol.isDigit = true) :
    isWord symbol = true := by
  change ((symbol.isUpper || symbol.isLower || symbol.isDigit) || symbol == '_') = true
  rw [digit, Bool.or_true, Bool.true_or]

theorem not_isWord_of_isSpace {symbol : Char} (space : isSpace symbol = true) :
    isWord symbol = false := by
  simp only [isSpace, Bool.or_eq_true, beq_iff_eq] at space
  rcases space with ((rfl | rfl) | rfl) | rfl <;> rfl

theorem not_isSpace_of_isWord {symbol : Char} (word : isWord symbol = true) :
    isSpace symbol = false := by
  cases space : isSpace symbol with
  | false => rfl
  | true => rw [not_isWord_of_isSpace space] at word; cases word

theorem isLower_bounds {symbol : Char} :
    symbol.isLower = true ↔ 97 ≤ symbol.toNat ∧ symbol.toNat ≤ 122 := by
  change (decide (symbol.val ≥ 'a'.val) && decide (symbol.val ≤ 'z'.val)) = true ↔ _
  rw [Bool.and_eq_true, decide_eq_true_iff, decide_eq_true_iff]
  exact Iff.rfl

theorem isUpper_bounds {symbol : Char} :
    symbol.isUpper = true ↔ 65 ≤ symbol.toNat ∧ symbol.toNat ≤ 90 := by
  change decide (symbol.val ≥ 'A'.val ∧ symbol.val ≤ 'Z'.val) = true ↔ _
  rw [decide_eq_true_iff]
  exact Iff.rfl

theorem isDigit_bounds {symbol : Char} :
    symbol.isDigit = true ↔ 48 ≤ symbol.toNat ∧ symbol.toNat ≤ 57 := by
  change (decide (symbol.val ≥ '0'.val) && decide (symbol.val ≤ '9'.val)) = true ↔ _
  rw [Bool.and_eq_true, decide_eq_true_iff, decide_eq_true_iff]
  exact Iff.rfl

theorem not_isDigit_of_isLower {symbol : Char} (lower : symbol.isLower = true) :
    ¬ symbol.isDigit = true := by
  rw [isLower_bounds] at lower
  rw [isDigit_bounds]
  omega

theorem not_isDigit_of_isUpper {symbol : Char} (upper : symbol.isUpper = true) :
    ¬ symbol.isDigit = true := by
  rw [isUpper_bounds] at upper
  rw [isDigit_bounds]
  omega

theorem not_isLower_of_isUpper {symbol : Char} (upper : symbol.isUpper = true) :
    ¬ symbol.isLower = true := by
  rw [isUpper_bounds] at upper
  rw [isLower_bounds]
  omega

/-! ### The lexer's names -/

theorem wordToken_wellFormed {first : Char} {others : List Char} (lower : first.isLower = true)
    (words : others.all isWord = true) : WellFormed (wordToken (String.ofList (first :: others))) := by
  have firstWord := isWord_of_isLower lower
  cases isKeyword : keyword (String.ofList (first :: others)) with
  | none =>
      have identifier : isIdentifier (String.ofList (first :: others)) = true := by
        simp only [isIdentifier, String.toList_ofList, List.head?_cons, Option.any_some,
          lower, List.all_cons, firstWord, words, isKeyword, Option.isNone_none, Bool.and_self]
      rw [wordToken, isKeyword]
      exact identifier
  | some token =>
      rw [wordToken, isKeyword]
      unfold keyword at isKeyword
      split at isKeyword <;> cases isKeyword <;> trivial

theorem nextToken_wellFormed (first : Char) (rest : List Char) (token : Token) (further : Nat)
    (starts : nextToken first rest = some (some token, further)) : WellFormed token := by
  have words : (rest.takeWhile isWord).all isWord = true := List.all_takeWhile
  unfold nextToken at starts
  split at starts
  · cases starts
  split at starts
  · cases starts
    trivial
  split at starts
  · rename_i lower
    cases starts
    exact wordToken_wellFormed lower words
  split at starts
  · rename_i upper
    cases starts
    have firstWord := isWord_of_isUpper upper
    change isConId _ = true
    simp only [isConId, String.toList_ofList, List.head?_cons, Option.any_some, upper,
      List.all_cons, firstWord, words, Bool.and_self]
  · unfold symbolToken at starts
    repeat' split at starts
    all_goals
      cases starts
      try trivial

/-- The lexer hands out proper names only. -/
theorem tokenize_wellFormed {text : String} {tokens : List Token}
    (scanned : tokenize text = some tokens) : ∀ token ∈ tokens, WellFormed token :=
  Scanner.scan_forall nextToken_wellFormed scanned

/-! ## Scanning the pieces of a text -/

/-- The text does not go on with a letter, a digit or an underscore. -/
def Breaks (rest : List Char) : Prop :=
  rest.head?.any isWord = false

/-- In front of a kind of text, a piece is scanned as its tokens. -/
def ScansBefore (Follows : List Char → Prop) (text : String) (tokens : List Token) : Prop :=
  Scanner.ScansBefore nextToken Follows text.toList tokens

/-- In front of any text, a piece is scanned as its tokens. -/
abbrev Scans : String → List Token → Prop :=
  ScansBefore fun _ => True

theorem drop_length_takeWhile (holds : Char → Bool) (text : List Char) :
    text.drop (text.takeWhile holds).length = text.dropWhile holds := by
  have split := List.takeWhile_append_dropWhile (p := holds) (l := text)
  calc text.drop (text.takeWhile holds).length
      = (text.takeWhile holds ++ text.dropWhile holds).drop (text.takeWhile holds).length := by
        rw [split]
    _ = text.dropWhile holds := List.drop_left

theorem scan_run_of_spaces {first : Char} (space : isSpace first = true) (rest : List Char) :
    Scanner.scan nextToken (first :: rest) =
      Scanner.scan nextToken (rest.dropWhile isSpace) := by
  have starts : nextToken first rest = some (none, (rest.takeWhile isSpace).length) := by
    rw [nextToken, if_pos space]
  rw [Scanner.scan_cons starts, drop_length_takeWhile, Option.toList_none]
  exact Option.map_id_apply

/-- Space in front of a text changes nothing. -/
theorem scan_space {first : Char} (space : isSpace first = true) (rest : List Char) :
    Scanner.scan nextToken (first :: rest) = Scanner.scan nextToken rest := by
  rw [scan_run_of_spaces space]
  cases rest with
  | nil => rfl
  | cons second rest =>
      by_cases next : isSpace second = true
      · rw [List.dropWhile_cons_of_pos next, scan_run_of_spaces next]
      · rw [List.dropWhile_cons_of_neg next]

theorem scans_spaces {text : String} (spaces : text.toList.all isSpace = true) :
    Scans text [] := by
  have skipped : ∀ symbols : List Char, symbols.all isSpace = true →
      Scanner.ScansBefore nextToken (fun _ => True) symbols [] := by
    intro symbols spaces rest _
    induction symbols with
    | nil => exact Option.map_id_apply.symm
    | cons first others induction =>
        rw [List.all_cons, Bool.and_eq_true] at spaces
        rw [List.cons_append, scan_space spaces.1]
        exact induction spaces.2
  exact skipped text.toList spaces

theorem takeWhile_append_breaks {holds : Char → Bool} {others rest : List Char}
    (all : others.all holds = true) (breaks : rest.head?.any holds = false) :
    (others ++ rest).takeWhile holds = others := by
  rw [List.takeWhile_append_of_pos (List.all_eq_true.mp all)]
  cases rest with
  | nil => rw [List.takeWhile_nil, List.append_nil]
  | cons first rest =>
      have different : ¬ holds first = true := by simpa using breaks
      rw [List.takeWhile_cons_of_neg different, List.append_nil]

/-- A text that is not empty, symbol by symbol. -/
theorem exists_cons_of_head {text : String} {holds : Char → Bool}
    (first : text.toList.head?.any holds = true) :
    ∃ first others, text.toList = first :: others ∧ holds first = true := by
  cases spelled : text.toList with
  | nil => rw [spelled] at first; cases first
  | cons head others =>
      rw [spelled] at first
      exact ⟨head, others, rfl, first⟩

/-- A lexeme that goes on through all the symbols of a kind ends in front of any
other symbol. -/
theorem scans_run (token : String → Token) {text : String} {first : Char} {others : List Char}
    {holds : Char → Bool} (spelled : text.toList = first :: others)
    (all : others.all holds = true)
    (starts : ∀ rest, nextToken first rest =
      some (some (token (String.ofList (first :: rest.takeWhile holds))),
        (rest.takeWhile holds).length)) :
    ScansBefore (fun rest => rest.head?.any holds = false) text [token text] := by
  intro rest breaks
  have taken : nextToken first (others ++ rest) = some (some (token text), others.length) := by
    rw [starts, takeWhile_append_breaks all breaks, ← spelled, String.ofList_toList]
  rw [spelled, List.cons_append, Scanner.scan_cons taken, List.drop_left]
  rfl

/-- A name or a keyword is one lexeme where no letter, digit or underscore
follows. -/
theorem scans_word {text : String} (lower : text.toList.head?.any Char.isLower = true)
    (words : text.toList.all isWord = true) : ScansBefore Breaks text [wordToken text] := by
  rcases exists_cons_of_head lower with ⟨first, others, spelled, isLower⟩
  rw [spelled, List.all_cons, Bool.and_eq_true] at words
  apply scans_run wordToken spelled words.2
  intro rest
  rw [nextToken, not_isSpace_of_isWord words.1, if_neg Bool.false_ne_true,
    if_neg (not_isDigit_of_isLower isLower), if_pos isLower]

theorem scans_identifier {text : String} (identifier : isIdentifier text = true) :
    ScansBefore Breaks text [.identifier text] := by
  simp only [isIdentifier, Bool.and_eq_true] at identifier
  have scans := scans_word identifier.1.1 identifier.1.2
  rw [wordToken, Option.isNone_iff_eq_none.mp identifier.2] at scans
  exact scans

theorem scans_conId {text : String} (conId : isConId text = true) :
    ScansBefore Breaks text [.conId text] := by
  simp only [isConId, Bool.and_eq_true] at conId
  rcases exists_cons_of_head conId.1 with ⟨first, others, spelled, isUpper⟩
  have words := conId.2
  rw [spelled, List.all_cons, Bool.and_eq_true] at words
  apply scans_run .conId spelled words.2
  intro rest
  rw [nextToken, not_isSpace_of_isWord words.1, if_neg Bool.false_ne_true,
    if_neg (not_isDigit_of_isUpper isUpper), if_neg (not_isLower_of_isUpper isUpper),
    if_pos isUpper]

theorem scans_number {digits : String} (nonempty : digits.toList.head?.any Char.isDigit = true)
    (all : digits.toList.all Char.isDigit = true) :
    ScansBefore Breaks digits [.number digits] := by
  rcases exists_cons_of_head nonempty with ⟨first, others, spelled, isDigit⟩
  rw [spelled, List.all_cons, Bool.and_eq_true] at all
  have scans := scans_run .number spelled all.2 (fun rest => by
    rw [nextToken, not_isSpace_of_isWord (isWord_of_isDigit isDigit),
      if_neg Bool.false_ne_true, if_pos isDigit])
  apply scans.mono
  intro rest breaks
  cases rest with
  | nil => rfl
  | cons next rest =>
      have notWord : isWord next = false := breaks
      change next.isDigit = false
      cases digit : next.isDigit with
      | false => rfl
      | true => rw [isWord_of_isDigit digit] at notWord; cases notWord

/-- A symbol that is a lexeme whatever follows it. -/
theorem scans_symbol {text : String} {symbol : Char} {token : Token}
    (spelled : text.toList = [symbol])
    (starts : ∀ rest, nextToken symbol rest = some (some token, 0)) : Scans text [token] := by
  intro rest _
  rw [spelled, List.singleton_append, Scanner.scan_cons (starts rest)]
  rfl

/-- The text goes on with a space. -/
def Spaced (rest : List Char) : Prop :=
  rest.head? = some ' '

/-- A symbol that is a lexeme in front of a space. -/
theorem scans_spaced {text : String} {first : Char} {others : List Char} {token : Token}
    (spelled : text.toList = first :: others)
    (starts : ∀ rest, nextToken first (others ++ ' ' :: rest) =
      some (some token, others.length)) : ScansBefore Spaced text [token] := by
  intro rest spaced
  cases rest with
  | nil => cases spaced
  | cons head rest =>
      have isSpace : head = ' ' := Option.some.inj spaced
      rw [spelled, List.cons_append, isSpace, Scanner.scan_cons (starts rest), List.drop_left]
      rfl

/-- A minus sign is one unless it begins an arrow. -/
theorem scans_sub : ScansBefore (fun rest => rest.head? ≠ some '>') "-" [.sub] := by
  intro rest noArrow
  have starts : nextToken '-' rest = some (some .sub, 0) := by
    change (if rest.head? == some '>' then some (some Token.arrow, 1)
      else some (some Token.sub, 0)) = _
    rw [if_neg (by simpa using noArrow)]
  exact Scanner.scan_cons starts

namespace ScansBefore

variable {Follows Later : List Char → Prop} {text next : String}
  {tokens nextTokens : List Token}

theorem append (scans : ScansBefore Follows text tokens)
    (scansNext : ScansBefore Later next nextTokens)
    (continues : ∀ rest, Later rest → Follows (next.toList ++ rest)) :
    ScansBefore Later (text ++ next) (tokens ++ nextTokens) := by
  rw [ScansBefore, String.toList_append]
  exact Scanner.ScansBefore.append scans scansNext continues

/-- A piece that any text may follow, and the next one. -/
theorem append_of_scans (scans : Scans text tokens)
    (scansNext : ScansBefore Later next nextTokens) :
    ScansBefore Later (text ++ next) (tokens ++ nextTokens) :=
  scans.append scansNext fun _ _ => trivial

/-- A piece and the symbols behind it that end it. -/
theorem append_scans (scans : ScansBefore Follows text tokens)
    (scansNext : Scans next nextTokens) (continues : ∀ rest, Follows (next.toList ++ rest)) :
    Scans (text ++ next) (tokens ++ nextTokens) :=
  scans.append scansNext fun rest _ => continues rest

theorem of_scans (scans : Scans text tokens) : ScansBefore Follows text tokens :=
  Scanner.ScansBefore.mono scans fun _ _ => trivial

theorem tokenize_eq (scans : Scans text tokens) : tokenize text = some tokens :=
  Scanner.ScansBefore.scan_eq scans trivial

end ScansBefore

end Lexer

end Topc
