import Mathlib.Data.List.Induction
import Mathlib.Data.Nat.Digits.Defs
import Topc.FrontEnd.Reparsing

/-! # Number literals in machine arithmetic

The magnitude of a literal is accumulated in an unsigned 64-bit word, digit by
digit, against a limit. Each operation is checked for wrapping. -/

namespace Topc

namespace ASTBuilder

/-- How a literal fails: the code throws, or an operation leaves the range of its type. -/
inductive LiteralError
  | parseError (message : String)
  | wraps
deriving DecidableEq, Repr

/-! ## Checked operations -/

def checkedAdd (left right : UInt64) : Except LiteralError UInt64 :=
  if left.toNat + right.toNat < UInt64.size then .ok (left + right) else .error .wraps

def checkedSub (left right : UInt64) : Except LiteralError UInt64 :=
  if right ≤ left then .ok (left - right) else .error .wraps

def checkedMul (left right : UInt64) : Except LiteralError UInt64 :=
  if left.toNat * right.toNat < UInt64.size then .ok (left * right) else .error .wraps

def checkedNeg (value : Int64) : Except LiteralError Int64 :=
  if value = Int64.minValue then .error .wraps else .ok (-value)

theorem checkedAdd_ok (left right : UInt64) (fits : left.toNat + right.toNat < UInt64.size) :
    ∃ sum, checkedAdd left right = .ok sum ∧ sum.toNat = left.toNat + right.toNat :=
  ⟨left + right, if_pos fits, (UInt64.toNat_add left right).trans (Nat.mod_eq_of_lt fits)⟩

theorem checkedSub_ok (left right : UInt64) (fits : right.toNat ≤ left.toNat) :
    ∃ difference, checkedSub left right = .ok difference ∧
      difference.toNat = left.toNat - right.toNat :=
  ⟨left - right, if_pos fits, UInt64.toNat_sub_of_le left right fits⟩

theorem checkedMul_ok (left right : UInt64) (fits : left.toNat * right.toNat < UInt64.size) :
    ∃ product, checkedMul left right = .ok product ∧ product.toNat = left.toNat * right.toNat :=
  ⟨left * right, if_pos fits, (UInt64.toNat_mul left right).trans (Nat.mod_eq_of_lt fits)⟩

/-! ## The value of a literal -/

def outOfRange (digits : String) (negative : Bool) (line : Nat) : LiteralError :=
  .parseError ("number literal " ++ (if negative then "-" else "") ++ digits ++ " on line "
    ++ toString line ++ " is out of range for a 64-bit int")

/-- One more digit behind a magnitude. -/
def appendDigit (error : LiteralError) (limit magnitude : UInt64) (symbol : Char) :
    Except LiteralError UInt64 := do
  let digit := UInt64.ofNat (symbol.toNat - '0'.toNat)
  if magnitude > (← checkedSub limit digit) / 10 then
    .error error
  else
    checkedAdd (← checkedMul magnitude 10) digit

def numberLiteralValue (digits : String) (negative : Bool) (line : Nat) :
    Except LiteralError Int64 := do
  let limit ← checkedAdd Int64.maxValue.toUInt64 (if negative then 1 else 0)
  let magnitude ← digits.toList.foldlM (appendDigit (outOfRange digits negative line) limit) 0
  if !negative then
    return magnitude.toInt64
  else if magnitude = limit then
    return Int64.minValue
  else
    checkedNeg magnitude.toInt64

/-! ## What it should be -/

def digitValue (symbol : Char) : Nat :=
  symbol.toNat - '0'.toNat

/-- The number that the digits denote. -/
def magnitudeOf (digits : String) : Nat :=
  Nat.ofDigits 10 (digits.toList.map digitValue).reverse

def literalValue (digits : String) (negative : Bool) : Int :=
  if negative then -(magnitudeOf digits : Int) else (magnitudeOf digits : Int)

theorem ofDigitChars_zero (symbols : List Char) :
    Nat.ofDigitChars 10 symbols 0 = Nat.ofDigits 10 (symbols.map digitValue).reverse := by
  induction symbols using List.reverseRecOn with
  | nil => rfl
  | append_singleton symbols symbol induction =>
      rw [Nat.ofDigitChars_append, Nat.ofDigitChars_cons, Nat.ofDigitChars_nil, induction,
        List.map_append, List.map_singleton, List.reverse_concat, Nat.ofDigits_cons]
      change _ + digitValue symbol = digitValue symbol + _
      omega

theorem digitValue_le {symbol : Char} (isDigit : symbol.isDigit = true) :
    digitValue symbol ≤ 9 := by
  have bounds : '0'.toNat ≤ symbol.toNat ∧ symbol.toNat ≤ '9'.toNat := by
    simpa [Char.isDigit, UInt32.le_iff_toNat_le] using isDigit
  have nine : '9'.toNat = 57 := rfl
  have zero : '0'.toNat = 48 := rfl
  rw [digitValue]
  omega

/-! ## One digit -/

section

variable (error : LiteralError) (limit : UInt64)

/-- No operation wraps, and a digit is rejected exactly when it leads past the limit. -/
theorem appendDigit_spec (large : 9 ≤ limit.toNat) (fits : limit.toNat * 2 ≤ UInt64.size)
    (magnitude : UInt64) {symbol : Char} (isDigit : symbol.isDigit = true) :
    (limit.toNat < magnitude.toNat * 10 + digitValue symbol ∧
      appendDigit error limit magnitude symbol = .error error) ∨
    ∃ next, appendDigit error limit magnitude symbol = .ok next ∧
      next.toNat = magnitude.toNat * 10 + digitValue symbol ∧ next.toNat ≤ limit.toNat := by
  have digitBound := digitValue_le isDigit
  have size : UInt64.size = 18446744073709551616 := rfl
  have ten : UInt64.toNat 10 = 10 := rfl
  have digitNat : (UInt64.ofNat (digitValue symbol)).toNat = digitValue symbol :=
    UInt64.toNat_ofNat_of_lt' (by omega)
  rw [size] at fits
  rcases checkedSub_ok limit (UInt64.ofNat (digitValue symbol)) (by omega) with
    ⟨room, subtracted, roomNat⟩
  have comparison : magnitude > room / 10 ↔
      limit.toNat < magnitude.toNat * 10 + digitValue symbol := by
    rw [gt_iff_lt, UInt64.lt_iff_toNat_lt, UInt64.toNat_div, roomNat, digitNat, ten]
    omega
  have unfolded : appendDigit error limit magnitude symbol =
      if magnitude > room / 10 then .error error
      else checkedMul magnitude 10 >>= fun product =>
        checkedAdd product (UInt64.ofNat (digitValue symbol)) := by
    change (checkedSub limit (UInt64.ofNat (digitValue symbol)) >>= fun difference =>
      if magnitude > difference / 10 then .error error
      else checkedMul magnitude 10 >>= fun product =>
        checkedAdd product (UInt64.ofNat (digitValue symbol))) = _
    rw [subtracted]
    rfl
  rw [unfolded]
  by_cases past : limit.toNat < magnitude.toNat * 10 + digitValue symbol
  · exact .inl ⟨past, if_pos (comparison.mpr past)⟩
  · rcases checkedMul_ok magnitude 10 (by rw [ten, size]; omega) with
      ⟨product, multiplied, productNat⟩
    rw [ten] at productNat
    rcases checkedAdd_ok product (UInt64.ofNat (digitValue symbol))
      (by rw [productNat, digitNat, size]; omega) with ⟨next, added, nextNat⟩
    have value : next.toNat = magnitude.toNat * 10 + digitValue symbol := by
      rw [nextNat, productNat, digitNat]
    refine .inr ⟨next, ?_, value, by omega⟩
    rw [if_neg (mt comparison.mp past), multiplied]
    exact added

/-- The loop reads the whole magnitude, or fails at the first digit past the limit. -/
theorem foldlM_appendDigit (large : 9 ≤ limit.toNat) (fits : limit.toNat * 2 ≤ UInt64.size)
    {symbols : List Char} (areDigits : ∀ symbol ∈ symbols, symbol.isDigit = true) :
    ∀ magnitude : UInt64, magnitude.toNat ≤ limit.toNat →
      (limit.toNat < Nat.ofDigitChars 10 symbols magnitude.toNat ∧
        symbols.foldlM (appendDigit error limit) magnitude = .error error) ∨
      ∃ total, symbols.foldlM (appendDigit error limit) magnitude = .ok total ∧
        total.toNat = Nat.ofDigitChars 10 symbols magnitude.toNat ∧
          total.toNat ≤ limit.toNat := by
  induction symbols with
  | nil => exact fun magnitude within => .inr ⟨magnitude, rfl, rfl, within⟩
  | cons symbol symbols induction =>
      intro magnitude _
      rw [List.foldlM_cons]
      rcases appendDigit_spec error limit large fits magnitude
        (areDigits symbol List.mem_cons_self) with
        ⟨past, failed⟩ | ⟨next, appended, nextNat, within⟩
      · rw [failed]
        refine .inl ⟨?_, rfl⟩
        rw [Nat.ofDigitChars_cons]
        have grows := Parser.le_ofDigitChars symbols (10 * magnitude.toNat + digitValue symbol)
        change _ < Nat.ofDigitChars 10 symbols (10 * magnitude.toNat + digitValue symbol)
        omega
      · rw [appended]
        have rest := induction (fun other member => areDigits other (List.mem_cons_of_mem _ member))
          next within
        rw [nextNat, Nat.mul_comm] at rest
        exact rest

end


/-! ## Exactness -/

def FitsInt64 (value : Int) : Prop :=
  Int64.minValue.toInt ≤ value ∧ value ≤ Int64.maxValue.toInt

instance (value : Int) : Decidable (FitsInt64 value) := instDecidableAnd

/-- The sign of an accepted magnitude: no negation overflows, since the one
magnitude without a positive counterpart is taken out before. -/
def signed (limit magnitude : UInt64) (negative : Bool) : Except LiteralError Int64 :=
  if !negative then .ok magnitude.toInt64
  else if magnitude = limit then .ok Int64.minValue
  else checkedNeg magnitude.toInt64

def signedNat (magnitude : Nat) (negative : Bool) : Int :=
  if negative then -(magnitude : Int) else (magnitude : Int)

/-- The largest magnitude of either sign. -/
def literalLimit (negative : Bool) : UInt64 :=
  Int64.maxValue.toUInt64 + (if negative then 1 else 0)

theorem literalLimit_toNat (negative : Bool) :
    (literalLimit negative).toNat = 9223372036854775807 + (if negative then 1 else 0) := by
  cases negative <;> rfl

theorem numberLiteralValue_eq (digits : String) (negative : Bool) (line : Nat) :
    numberLiteralValue digits negative line =
      digits.toList.foldlM
        (appendDigit (outOfRange digits negative line) (literalLimit negative)) 0 >>=
        fun magnitude => signed (literalLimit negative) magnitude negative := by
  cases negative <;> rfl

theorem toInt64_eq_ofNat (magnitude : UInt64) :
    magnitude.toInt64 = Int64.ofNat magnitude.toNat := by
  rw [← UInt64.toInt64_ofNat', UInt64.ofNat_toNat]

theorem toInt_toInt64 {magnitude : UInt64} (small : magnitude.toNat ≤ 9223372036854775807) :
    magnitude.toInt64.toInt = magnitude.toNat := by
  rw [toInt64_eq_ofNat]
  exact Int64.toInt_ofNat_of_lt (by omega)

theorem signed_spec {magnitude : UInt64} {negative : Bool}
    (within : magnitude.toNat ≤ (literalLimit negative).toNat) :
    ∃ value, signed (literalLimit negative) magnitude negative = .ok value ∧
      value.toInt = signedNat magnitude.toNat negative := by
  have limit := literalLimit_toNat negative
  cases negative with
  | false => exact ⟨magnitude.toInt64, rfl, toInt_toInt64 (by simpa [limit] using within)⟩
  | true =>
      by_cases atLimit : magnitude = literalLimit true
      · exact ⟨Int64.minValue, if_pos atLimit, by rw [atLimit]; rfl⟩
      · have below : magnitude.toNat ≤ 9223372036854775807 := by
          have differs : magnitude.toNat ≠ (literalLimit true).toNat :=
            fun same => atLimit (UInt64.toNat_inj.mp same)
          rw [limit] at within differs
          simp only [if_true] at within differs
          omega
        have value := toInt_toInt64 below
        have notMinimum : magnitude.toInt64 ≠ Int64.minValue := by
          intro same
          rw [same] at value
          have minimum : Int64.minValue.toInt = -9223372036854775808 := rfl
          omega
        refine ⟨-magnitude.toInt64, (if_neg atLimit).trans (if_neg notMinimum), ?_⟩
        rw [toInt64_eq_ofNat, Int64.toInt_neg_ofNat_of_le (by omega)]
        rfl

theorem fitsInt64_iff (magnitude : Nat) (negative : Bool) :
    FitsInt64 (signedNat magnitude negative) ↔ magnitude ≤ (literalLimit negative).toNat := by
  have minimum : Int64.minValue.toInt = -9223372036854775808 := rfl
  have maximum : Int64.maxValue.toInt = 9223372036854775807 := rfl
  rw [FitsInt64, literalLimit_toNat, minimum, maximum]
  cases negative <;> simp [signedNat]

/-- Either the value fits and is read, or it does not and the code throws. -/
theorem numberLiteralValue_spec {digits : String} {negative : Bool} {line : Nat}
    (areDigits : ∀ symbol ∈ digits.toList, symbol.isDigit = true) :
    (FitsInt64 (literalValue digits negative) ∧
      ∃ value, numberLiteralValue digits negative line = .ok value ∧
        value.toInt = literalValue digits negative) ∨
    (¬ FitsInt64 (literalValue digits negative) ∧
      numberLiteralValue digits negative line = .error (outOfRange digits negative line)) := by
  have limit := literalLimit_toNat negative
  have size : UInt64.size = 18446744073709551616 := rfl
  have magnitude : Nat.ofDigitChars 10 digits.toList 0 = magnitudeOf digits :=
    ofDigitChars_zero digits.toList
  have read := foldlM_appendDigit (outOfRange digits negative line) (literalLimit negative)
    (by omega) (by rw [limit, size]; split <;> omega) areDigits 0 (Nat.zero_le _)
  change (_ < Nat.ofDigitChars 10 digits.toList 0 ∧ _) ∨
    (∃ total, _ ∧ _ = Nat.ofDigitChars 10 digits.toList 0 ∧ _) at read
  rw [magnitude] at read
  have fits : FitsInt64 (literalValue digits negative) ↔ _ :=
    fitsInt64_iff (magnitudeOf digits) negative
  rw [numberLiteralValue_eq]
  rcases read with ⟨past, failed⟩ | ⟨total, succeeded, totalNat, within⟩
  · rw [failed]
    exact .inr ⟨by rw [fits]; omega, rfl⟩
  · rcases signed_spec within with ⟨value, accepted, valueInt⟩
    rw [totalNat] at within valueInt
    rw [succeeded]
    exact .inl ⟨fits.mpr within, value, accepted, valueInt⟩

/-- A literal of any length is read exactly when its value fits 64 bits, and no
operation on the way wraps. -/
theorem numberLiteralValue_exact (digits : String) (negative : Bool) (line : Nat)
    (areDigits : ∀ symbol ∈ digits.toList, symbol.isDigit = true) :
    (∀ value, numberLiteralValue digits negative line = .ok value ↔
        FitsInt64 (literalValue digits negative) ∧
          value.toInt = literalValue digits negative) ∧
      (¬ FitsInt64 (literalValue digits negative) →
        numberLiteralValue digits negative line = .error (outOfRange digits negative line)) ∧
      numberLiteralValue digits negative line ≠ .error .wraps := by
  rcases numberLiteralValue_spec areDigits with
    ⟨fits, result, read, resultInt⟩ | ⟨misfits, failed⟩
  · rw [read]
    refine ⟨fun value => ?_, fun misfits => absurd fits misfits, fun wraps => (nomatch wraps)⟩
    constructor
    · intro same
      cases same
      exact ⟨fits, resultInt⟩
    · intro ⟨_, valueInt⟩
      rw [Int64.toInt_inj.mp (resultInt.trans valueInt.symm)]
  · rw [failed]
    refine ⟨fun value => ?_, fun _ => rfl, fun wraps => (nomatch wraps)⟩
    exact ⟨fun read => (nomatch read), fun read => absurd read.1 misfits⟩

/-- The one value whose magnitude has no positive counterpart, behind leading zeros. -/
theorem numberLiteralValue_minimum :
    FitsInt64 (literalValue "009223372036854775808" true) ∧
      numberLiteralValue "009223372036854775808" true 1 = .ok Int64.minValue :=
  ⟨by decide +kernel,
    ((numberLiteralValue_exact "009223372036854775808" true 1
      (List.all_eq_true.mp (by decide))).1 Int64.minValue).mpr
        ⟨by decide +kernel, by decide +kernel⟩⟩

/-! ## The literals of the parser -/

theorem foldlM_appendDigit_eq {limit : Nat} (symbols : List Char) :
    ∀ start magnitude, symbols.foldlM (Parser.appendDigit limit) start = some magnitude →
      magnitude = Nat.ofDigitChars 10 symbols start := by
  induction symbols with
  | nil =>
      rintro start magnitude ⟨⟩
      rfl
  | cons symbol symbols induction =>
      intro start magnitude folded
      rw [List.foldlM_cons] at folded
      rcases Option.bind_eq_some_iff.mp folded with ⟨next, appended, folded⟩
      simp only [Parser.appendDigit, Option.ite_none_left_eq_some] at appended
      rw [induction next magnitude folded, Nat.ofDigitChars_cons, ← Option.some.inj appended.2,
        Nat.mul_comm]

/-- What the parser reads for a literal is what the machine computes. -/
theorem parser_numberLiteralValue {digits : String} {negative : Bool} {line : Nat}
    (areDigits : ∀ symbol ∈ digits.toList, symbol.isDigit = true) :
    Parser.numberLiteralValue digits negative =
      (numberLiteralValue digits negative line).toOption.map Int64.toInt := by
  have magnitude : Nat.ofDigitChars 10 digits.toList 0 = magnitudeOf digits :=
    ofDigitChars_zero digits.toList
  have fits : FitsInt64 (literalValue digits negative) ↔ _ :=
    fitsInt64_iff (magnitudeOf digits) negative
  have limit : (literalLimit negative).toNat = Parser.int64Max + if negative then 1 else 0 :=
    literalLimit_toNat negative
  rcases numberLiteralValue_spec areDigits with
    ⟨fit, value, read, valueInt⟩ | ⟨misfits, failed⟩
  · rw [read]
    have within := fits.mp fit
    rw [limit] at within
    rw [Parser.numberLiteralValue, Parser.foldlM_appendDigit _ 0 (by rw [magnitude]; exact within),
      magnitude]
    exact congrArg some valueInt.symm
  · rw [failed]
    cases read : Parser.numberLiteralValue digits negative with
    | none => rfl
    | some value =>
        have range := Parser.numberLiteralValue_range read
        simp only [Parser.numberLiteralValue, Option.map_eq_some_iff] at read
        rcases read with ⟨total, folded, same⟩
        rw [foldlM_appendDigit_eq _ _ _ folded, magnitude] at same
        have maximum : Int64.maxValue.toInt = Parser.int64Max := rfl
        have minimum : Int64.minValue.toInt = -(Parser.int64Max + 1) := rfl
        refine absurd ?_ misfits
        rw [FitsInt64, maximum, minimum, show literalValue digits negative = value from same]
        exact range

end ASTBuilder

end Topc
