import Topc.ControlFlowGraph.Builder
import Topc.Weeding

/-! # Arm labels

The label of an arm is its pattern as source text. Texts of different patterns
differ, so the arms of an accepted case statement have labels of their own. -/

namespace Topc

/-! ## Lexemes -/

def isNameChar (char : Char) : Bool := char.isAlphanum || char == '_'

/-- A lower-case letter, then letters, digits and underscores. -/
def IsIdentifier (name : String) : Prop :=
  ∃ head tail, name.toList = head :: tail ∧ head.isLower = true ∧
    ∀ char ∈ tail, isNameChar char = true

/-- As an identifier, but with an upper-case letter first. -/
def IsConid (name : String) : Prop :=
  ∃ head tail, name.toList = head :: tail ∧ head.isUpper = true ∧
    ∀ char ∈ tail, isNameChar char = true

mutual
/-- The names of a pattern are lexemes of their kinds. -/
def Pattern.Lexed : Pattern → Prop
  | .var _ decl => IsIdentifier decl.name
  | .wildcard _ => True
  | .ctor _ tag subPatterns => IsConid tag ∧ Pattern.LexedAll subPatterns

def Pattern.LexedAll : List Pattern → Prop
  | [] => True
  | pattern :: patterns => pattern.Lexed ∧ Pattern.LexedAll patterns
end

def CaseArm.Lexed (arm : CaseArm) : Prop :=
  IsConid arm.getTag ∧ Pattern.LexedAll arm.getPatterns

/-- What the lexer tells apart in the patterns of a program. -/
def Program.Lexed (program : Program) : Prop :=
  ∀ info caseExpr arms, AstNode.stmt (.caseStmt info caseExpr arms) ∈ program.postOrder →
    ∀ arm ∈ arms, arm.Lexed

namespace PatternText

/-- A name does not go on here. -/
def Ended (rest : List Char) : Prop :=
  ∀ char ∈ rest.head?, isNameChar char = false

/-- A pattern does not go on here. -/
def Delimited (rest : List Char) : Prop :=
  ∀ char ∈ rest.head?, char = ',' ∨ char = ')'

theorem Delimited.ended {rest : List Char} (delimited : Delimited rest) : Ended rest := by
  intro char first
  rcases delimited char first with rfl | rfl <;> decide

/-- Where a name ends is determined by what follows it. -/
theorem name_unique {left right : List Char} :
    ∀ {rest rest' : List Char}, (∀ char ∈ left, isNameChar char = true) →
      (∀ char ∈ right, isNameChar char = true) → Ended rest → Ended rest' →
        left ++ rest = right ++ rest' → left = right ∧ rest = rest' := by
  induction left generalizing right with
  | nil =>
      intro rest rest' _ rightName ended _ same
      cases right with
      | nil => exact ⟨rfl, same⟩
      | cons char right =>
          rw [List.nil_append] at same
          have goesOn := rightName char List.mem_cons_self
          rw [ended char (by simp [same])] at goesOn
          cases goesOn
  | cons char left induction =>
      intro rest rest' leftName rightName ended ended' same
      cases right with
      | nil =>
          rw [List.nil_append] at same
          have goesOn := leftName char List.mem_cons_self
          rw [ended' char (by simp [← same])] at goesOn
          cases goesOn
      | cons char' right =>
          rw [List.cons_append, List.cons_append, List.cons.injEq] at same
          rcases same with ⟨rfl, same⟩
          rcases induction (fun other member => leftName other (List.mem_cons_of_mem _ member))
            (fun other member => rightName other (List.mem_cons_of_mem _ member))
            ended ended' same with ⟨rfl, restSame⟩
          exact ⟨rfl, restSame⟩

theorem isNameChar_of_isLower {char : Char} (lower : char.isLower = true) :
    isNameChar char = true := by
  change ((char.isUpper || char.isLower) || char.isDigit || char == '_') = true
  rw [lower, Bool.or_true, Bool.true_or, Bool.true_or]

theorem isNameChar_of_isUpper {char : Char} (upper : char.isUpper = true) :
    isNameChar char = true := by
  change ((char.isUpper || char.isLower) || char.isDigit || char == '_') = true
  rw [upper, Bool.true_or, Bool.true_or, Bool.true_or]

theorem not_isLower_of_isUpper {char : Char} (upper : char.isUpper = true) :
    char.isLower = false := by
  revert upper
  change decide (char.val ≥ 'A'.val ∧ char.val ≤ 'Z'.val) = true →
    (decide (char.val ≥ 'a'.val) && decide (char.val ≤ 'z'.val)) = false
  grind

theorem IsIdentifier.nameChars {name : String} (lexeme : IsIdentifier name) :
    ∀ char ∈ name.toList, isNameChar char = true := by
  rcases lexeme with ⟨head, tail, split, lower, tailName⟩
  rw [split]
  exact List.forall_mem_cons.mpr ⟨isNameChar_of_isLower lower, tailName⟩

theorem IsConid.nameChars {name : String} (lexeme : IsConid name) :
    ∀ char ∈ name.toList, isNameChar char = true := by
  rcases lexeme with ⟨head, tail, split, upper, tailName⟩
  rw [split]
  exact List.forall_mem_cons.mpr ⟨isNameChar_of_isUpper upper, tailName⟩

/-! ## The text of a pattern -/

theorem print_wildcard (info : NodeInfo) : (Pattern.wildcard info).print.toList = ['_'] := by
  simp [Pattern.print]

/-- The text of the patterns after the first one. -/
def laterText : List Pattern → List Char
  | [] => []
  | pattern :: patterns => ',' :: ' ' :: (pattern.print.toList ++ laterText patterns)

theorem toList_intercalate_printAll (pattern : Pattern) (patterns : List Pattern) :
    (", ".intercalate (pattern.print :: Pattern.printAll patterns)).toList =
      pattern.print.toList ++ laterText patterns := by
  induction patterns generalizing pattern with
  | nil => simp [Pattern.printAll, laterText]
  | cons next patterns induction =>
      rw [Pattern.printAll, String.intercalate_cons_cons, String.toList_append,
        String.toList_append, induction next, laterText, List.append_assoc]
      rfl

/-- The payload of a constructor pattern, with its parentheses. -/
def payloadText : List Pattern → List Char
  | [] => []
  | pattern :: patterns => '(' :: (pattern.print.toList ++ laterText patterns ++ [')'])

theorem print_ctor (info : NodeInfo) (tag : String) (patterns : List Pattern) :
    (Pattern.ctor info tag patterns).print.toList = tag.toList ++ payloadText patterns := by
  cases patterns with
  | nil => simp [Pattern.print, payloadText]
  | cons pattern patterns =>
      rw [Pattern.print, String.toList_append, String.toList_append, String.toList_append,
        toList_intercalate_printAll, payloadText]
      simp

theorem ended_payloadText {patterns : List Pattern} {rest : List Char}
    (delimited : Delimited rest) : Ended (payloadText patterns ++ rest) := by
  cases patterns with
  | nil => exact delimited.ended
  | cons pattern patterns =>
      intro char first
      cases first
      decide

theorem delimited_laterText (patterns : List Pattern) (rest : List Char) :
    Delimited (laterText patterns ++ ')' :: rest) := by
  intro char first
  cases patterns with
  | nil =>
      cases first
      exact Or.inr rfl
  | cons pattern patterns =>
      cases first
      exact Or.inl rfl

theorem formatCaseArmLabel_eq (arm : CaseArm) :
    CFGBuilder.formatCaseArmLabel arm =
      (Pattern.ctor arm.info arm.getTag arm.getPatterns).print := by
  rw [CFGBuilder.formatCaseArmLabel]
  cases arm.getPatterns with
  | nil => rfl
  | cons pattern patterns => rfl

open CheckCaseCompleteness (patternsIdentical subPatternsIdentical allPatternsIdentical)

/-- The first characters of patterns of different kinds differ. -/
theorem first_ne {char char' : Char} {rest rest' : List Char} (different : char ≠ char') :
    char :: rest ≠ char' :: rest' :=
  fun same => different (List.cons.inj same).1

theorem identifier_ne_conid {name tag : String} (identifier : IsIdentifier name)
    (conid : IsConid tag) (rest rest' : List Char) : name.toList ++ rest ≠ tag.toList ++ rest' := by
  rcases identifier with ⟨head, tail, split, lower, _⟩
  rcases conid with ⟨head', tail', split', upper, _⟩
  rw [split, split']
  apply first_ne
  rintro rfl
  rw [not_isLower_of_isUpper upper] at lower
  cases lower

theorem identifier_ne_underscore {name : String} (identifier : IsIdentifier name)
    (rest rest' : List Char) : name.toList ++ rest ≠ '_' :: rest' := by
  rcases identifier with ⟨head, tail, split, lower, _⟩
  rw [split]
  apply first_ne
  rintro rfl
  cases lower

theorem conid_ne_underscore {tag : String} (conid : IsConid tag)
    (rest rest' : List Char) : tag.toList ++ rest ≠ '_' :: rest' := by
  rcases conid with ⟨head, tail, split, upper, _⟩
  rw [split]
  apply first_ne
  rintro rfl
  cases upper

mutual
/-- A text is that of one pattern only, and determines where the pattern ends. -/
theorem print_unique : ∀ (pattern pattern' : Pattern) {rest rest' : List Char},
    pattern.Lexed → pattern'.Lexed → Delimited rest → Delimited rest' →
      pattern.print.toList ++ rest = pattern'.print.toList ++ rest' →
        patternsIdentical pattern pattern' = true ∧ rest = rest'
  | .wildcard _, .wildcard _, rest, rest', _, _, _, _, same => by
      rw [print_wildcard, print_wildcard] at same
      exact ⟨rfl, (List.cons.inj same).2⟩
  | .wildcard _, .var _ decl, rest, rest', _, lexed', _, _, same => by
      rw [print_wildcard] at same
      exact absurd same.symm (identifier_ne_underscore lexed' _ _)
  | .wildcard _, .ctor info tag subPatterns, rest, rest', _, lexed', _, _, same => by
      rw [print_wildcard, print_ctor, List.append_assoc] at same
      exact absurd same.symm (conid_ne_underscore lexed'.1 _ _)
  | .var _ decl, .wildcard _, rest, rest', lexed, _, _, _, same => by
      rw [print_wildcard] at same
      exact absurd same (identifier_ne_underscore lexed _ _)
  | .var _ decl, .var _ decl', rest, rest', lexed, lexed', delimited, delimited', same => by
      rcases name_unique (IsIdentifier.nameChars lexed) (IsIdentifier.nameChars lexed')
        delimited.ended delimited'.ended same with ⟨nameSame, restSame⟩
      refine ⟨?_, restSame⟩
      rw [patternsIdentical, beq_iff_eq]
      exact String.toList_inj.mp nameSame
  | .var _ decl, .ctor info tag subPatterns, rest, rest', lexed, lexed', _, _, same => by
      rw [print_ctor, List.append_assoc] at same
      exact absurd same (identifier_ne_conid lexed lexed'.1 _ _)
  | .ctor info tag subPatterns, .wildcard _, rest, rest', lexed, _, _, _, same => by
      rw [print_wildcard, print_ctor, List.append_assoc] at same
      exact absurd same (conid_ne_underscore lexed.1 _ _)
  | .ctor info tag subPatterns, .var _ decl, rest, rest', lexed, lexed', _, _, same => by
      rw [print_ctor, List.append_assoc] at same
      exact absurd same.symm (identifier_ne_conid lexed' lexed.1 _ _)
  | .ctor info tag subPatterns, .ctor info' tag' subPatterns', rest, rest', lexed, lexed',
      delimited, delimited', same => by
      rw [print_ctor, print_ctor, List.append_assoc, List.append_assoc] at same
      rcases name_unique (IsConid.nameChars lexed.1) (IsConid.nameChars lexed'.1)
        (ended_payloadText delimited) (ended_payloadText delimited') same with
        ⟨tagSame, payloadSame⟩
      rw [String.toList_inj] at tagSame
      subst tagSame
      rcases payloadText_unique subPatterns subPatterns' lexed.2 lexed'.2 delimited delimited'
        payloadSame with ⟨identical, restSame⟩
      refine ⟨?_, restSame⟩
      rw [patternsIdentical, identical]
      simp

theorem payloadText_unique : ∀ (patterns patterns' : List Pattern) {rest rest' : List Char},
    Pattern.LexedAll patterns → Pattern.LexedAll patterns' → Delimited rest → Delimited rest' →
      payloadText patterns ++ rest = payloadText patterns' ++ rest' →
        subPatternsIdentical patterns patterns' = true ∧ rest = rest'
  | [], [], rest, rest', _, _, _, _, same => ⟨rfl, same⟩
  | [], pattern' :: patterns', rest, rest', _, _, delimited, _, same => by
      rw [payloadText, List.nil_append] at same
      have opens := delimited '(' (by simp [same, payloadText])
      simp at opens
  | pattern :: patterns, [], rest, rest', _, _, _, delimited', same => by
      rw [payloadText, payloadText, List.nil_append] at same
      have opens := delimited' '(' (by simp [← same])
      simp at opens
  | pattern :: patterns, pattern' :: patterns', rest, rest', lexed, lexed', _, _, same => by
      rw [payloadText, payloadText, List.cons_append, List.cons_append, List.cons.injEq] at same
      have inner := same.2
      simp only [List.append_assoc, List.singleton_append] at inner
      rcases print_unique pattern pattern' lexed.1 lexed'.1 (delimited_laterText patterns _)
        (delimited_laterText patterns' _) inner with ⟨headIdentical, laterSame⟩
      rcases laterText_unique patterns patterns' lexed.2 lexed'.2 laterSame with
        ⟨laterIdentical, restSame⟩
      refine ⟨?_, restSame⟩
      rw [subPatternsIdentical, headIdentical, laterIdentical]
      rfl

theorem laterText_unique : ∀ (patterns patterns' : List Pattern) {rest rest' : List Char},
    Pattern.LexedAll patterns → Pattern.LexedAll patterns' →
      laterText patterns ++ ')' :: rest = laterText patterns' ++ ')' :: rest' →
        subPatternsIdentical patterns patterns' = true ∧ rest = rest'
  | [], [], rest, rest', _, _, same => ⟨rfl, (List.cons.inj same).2⟩
  | [], pattern' :: patterns', rest, rest', _, _, same => by
      rw [laterText, laterText, List.nil_append, List.cons_append] at same
      exact absurd same (first_ne (by decide))
  | pattern :: patterns, [], rest, rest', _, _, same => by
      rw [laterText, laterText, List.nil_append, List.cons_append] at same
      exact absurd same (first_ne (by decide))
  | pattern :: patterns, pattern' :: patterns', rest, rest', lexed, lexed', same => by
      rw [laterText, laterText] at same
      simp only [List.cons_append, List.append_assoc, List.cons.injEq, true_and] at same
      rcases print_unique pattern pattern' lexed.1 lexed'.1 (delimited_laterText patterns _)
        (delimited_laterText patterns' _) same with ⟨headIdentical, laterSame⟩
      rcases laterText_unique patterns patterns' lexed.2 lexed'.2 laterSame with
        ⟨laterIdentical, restSame⟩
      refine ⟨?_, restSame⟩
      rw [subPatternsIdentical, headIdentical, laterIdentical]
      rfl
end

/-- Arms with the same label have the same constructor and patterns. -/
theorem allPatternsIdentical_of_label {arm arm' : CaseArm} (lexed : arm.Lexed)
    (lexed' : arm'.Lexed)
    (same : CFGBuilder.formatCaseArmLabel arm = CFGBuilder.formatCaseArmLabel arm') :
    arm.getTag = arm'.getTag ∧ allPatternsIdentical arm arm' = true := by
  rw [formatCaseArmLabel_eq, formatCaseArmLabel_eq, ← String.toList_inj] at same
  have ended : Delimited [] := by simp [Delimited]
  rcases print_unique (.ctor arm.info arm.getTag arm.getPatterns)
    (.ctor arm'.info arm'.getTag arm'.getPatterns) lexed lexed' ended ended
    (congrArg (· ++ []) same) with ⟨identical, _⟩
  rw [patternsIdentical, Bool.and_eq_true, beq_iff_eq] at identical
  exact identical

end PatternText

/-- Labels of an accepted case statement differ. -/
theorem labels_nodup {arms : List CaseArm} (lexed : ∀ arm ∈ arms, arm.Lexed)
    (distinct : arms.Pairwise fun previous arm => previous.getTag = arm.getTag →
      CheckCaseCompleteness.allPatternsIdentical previous arm = false) :
    (arms.map CFGBuilder.formatCaseArmLabel).Nodup := by
  rw [List.Nodup, List.pairwise_map]
  apply distinct.imp_of_mem
  intro previous arm previousMem armMem differ same
  rcases PatternText.allPatternsIdentical_of_label (lexed previous previousMem)
    (lexed arm armMem) same with ⟨tagSame, identical⟩
  rw [differ tagSame] at identical
  cases identical

end Topc
