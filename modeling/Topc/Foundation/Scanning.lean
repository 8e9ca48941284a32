import Mathlib.Data.List.Basic

/-! # Scanning by longest match

A scanner takes one lexeme after another off a text. A rule looks at the text
from one position on and says which token starts there, if the lexeme is kept
at all, and how many further symbols belong to it. -/

namespace Topc

namespace Scanner

variable {Symbol Token : Type}

/-- What starts at a symbol that the given ones follow: the token of the lexeme
(none for a lexeme that is skipped) and how many further symbols it takes. -/
abbrev Rule (Symbol Token : Type) := Symbol → List Symbol → Option (Option Token × Nat)

/-- The tokens of a text of which the first symbols still belong to the lexeme
before it. -/
def scanFrom (rule : Rule Symbol Token) : Nat → List Symbol → Option (List Token)
  | _, [] => some []
  | pending + 1, _ :: rest => scanFrom rule pending rest
  | 0, first :: rest =>
      (rule first rest).bind fun (token, further) =>
        (scanFrom rule further rest).map (token.toList ++ ·)

def scan (rule : Rule Symbol Token) (text : List Symbol) : Option (List Token) :=
  scanFrom rule 0 text

variable {rule : Rule Symbol Token}

theorem scanFrom_eq_scan_drop (pending : Nat) (text : List Symbol) :
    scanFrom rule pending text = scan rule (text.drop pending) := by
  induction text generalizing pending with
  | nil =>
      rw [List.drop_nil]
      cases pending with
      | zero => rfl
      | succ pending => rfl
  | cons first rest induction =>
      cases pending with
      | zero => rfl
      | succ pending =>
          rw [List.drop_succ_cons]
          exact induction pending

@[simp] theorem scan_nil : scan rule [] = some [] := rfl

theorem scan_cons {first : Symbol} {rest : List Symbol} {token : Option Token} {further : Nat}
    (starts : rule first rest = some (token, further)) :
    scan rule (first :: rest) = (scan rule (rest.drop further)).map (token.toList ++ ·) := by
  rw [scan, scanFrom, starts, Option.bind_some]
  dsimp only
  rw [scanFrom_eq_scan_drop]

/-- Every token of a scan comes from a rule. -/
theorem scan_forall {Holds : Token → Prop}
    (rules : ∀ first rest token further, rule first rest = some (some token, further) →
      Holds token)
    {text : List Symbol} {tokens : List Token} (scanned : scan rule text = some tokens) :
    ∀ token ∈ tokens, Holds token := by
  have holds : ∀ (text : List Symbol) pending tokens,
      scanFrom rule pending text = some tokens → ∀ token ∈ tokens, Holds token := by
    intro text
    induction text with
    | nil =>
        intro pending tokens scanned
        rw [scanFrom, Option.some.injEq] at scanned
        subst scanned
        exact List.forall_mem_nil _
    | cons first rest induction =>
        intro pending tokens scanned
        cases pending with
        | succ pending => exact induction pending tokens scanned
        | zero =>
            simp only [scanFrom, Option.bind_eq_some_iff, Option.map_eq_some_iff,
              Prod.exists] at scanned
            rcases scanned with ⟨token, further, starts, others, remaining, rfl⟩
            intro member isMember
            rcases List.mem_append.mp isMember with isToken | isOther
            · rw [Option.mem_toList] at isToken
              subst isToken
              exact rules _ _ _ _ starts
            · exact induction further others remaining member isOther
  exact holds text 0 tokens scanned

/-! ## Scanning piece by piece -/

/-- In front of any continuation of a kind, the text is scanned as the tokens. -/
def ScansBefore (rule : Rule Symbol Token) (Follows : List Symbol → Prop)
    (text : List Symbol) (tokens : List Token) : Prop :=
  ∀ rest, Follows rest → scan rule (text ++ rest) = (scan rule rest).map (tokens ++ ·)

namespace ScansBefore

variable {Follows Later : List Symbol → Prop} {text next : List Symbol}
  {tokens nextTokens : List Token}

theorem nil : ScansBefore rule Follows [] [] := by
  intro rest _
  rw [List.nil_append]
  cases scan rule rest with
  | none => rfl
  | some tokens => rfl

theorem mono (scans : ScansBefore rule Follows text tokens)
    (narrower : ∀ rest, Later rest → Follows rest) : ScansBefore rule Later text tokens :=
  fun rest later => scans rest (narrower rest later)

/-- A piece is scanned in front of the next one if that continues it properly. -/
theorem append (scans : ScansBefore rule Follows text tokens)
    (scansNext : ScansBefore rule Later next nextTokens)
    (continues : ∀ rest, Later rest → Follows (next ++ rest)) :
    ScansBefore rule Later (text ++ next) (tokens ++ nextTokens) := by
  intro rest later
  rw [List.append_assoc, scans _ (continues rest later), scansNext rest later,
    Option.map_map]
  congr 1
  funext others
  exact (List.append_assoc tokens nextTokens others).symm

/-- At its end, the whole text has been scanned as its tokens. -/
theorem scan_eq (scans : ScansBefore rule Follows text tokens) (ending : Follows []) :
    scan rule text = some tokens := by
  have scanned := scans [] ending
  simpa using scanned

end ScansBefore

end Scanner

end Topc
