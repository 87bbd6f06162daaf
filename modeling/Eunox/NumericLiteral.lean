import Eunox.RpcMessage

/-! The parts of a JSON number, its exact value, and when it is small enough to be parsed. -/
namespace Eunox
open ByteString JsonText

/-- How a number is spelled, and that its readers find these parts. -/
structure Parts (literal sign integer fraction exponent : Bytes) : Prop where
  spelled : literal = sign ++ (integer ++ (fraction ++ exponent))
  signRead : readSign [45] literal = (sign, integer ++ (fraction ++ exponent))
  integerRead : readInteger (integer ++ (fraction ++ exponent)) = some (integer, fraction ++ exponent)
  fractionRead : readFraction (fraction ++ exponent) = some (fraction, exponent)
  exponentRead : readExponent exponent = some (exponent, [])
  signs : sign = [] ∨ sign = [45]
  digits : Digits integer
  fractions : fraction = [] ∨ ∃ digits, Digits digits ∧ fraction = 46 :: digits
  exponents : exponent = [] ∨ ∃ mark expSign digits, (mark = 101 ∨ mark = 69) ∧
    SignOf [43, 45] expSign ∧ Digits digits ∧ exponent = mark :: (expSign ++ digits)

theorem number_parts (legal : JsonText.Number literal) :
    ∃ sign integer fraction exponent, Parts literal sign integer fraction exponent := by
  unfold JsonText.Number at legal
  simp only [readNumber, Option.pure_def, Option.bind_eq_bind, Option.bind_eq_some_iff,
    Prod.exists, Option.some.injEq, Prod.mk.injEq] at legal
  obtain ⟨integer, s₁, integerRead, fraction, s₂, fractionRead, exponent, s₃, exponentRead, -, rfl⟩ := legal
  obtain ⟨signed, signs⟩ := readSign_sound [45] literal
  obtain ⟨rest, digits, -⟩ := readInteger_sound integerRead
  obtain ⟨rfl, fractions, -⟩ := readFraction_sound fractionRead
  obtain ⟨whole, exponents, -⟩ := readExponent_sound exponentRead
  rw [List.append_nil] at whole
  subst whole
  rw [rest] at integerRead signed
  refine ⟨(readSign [45] literal).1, integer, fraction, s₂, signed, ?_, integerRead, fractionRead,
    exponentRead, by simpa [SignOf] using signs, digits, fractions, exponents⟩
  rw [← rest]

/-! The value. -/

namespace Parts
variable {literal sign integer fraction exponent : Bytes} (parts : Parts literal sign integer fraction exponent)
include parts

/-- The parts of the literal as the exact reader finds them. -/
theorem ratOf_eq : ratOf literal = some ((signedValue sign (integer ++ fraction.tail) : ℚ) *
    10 ^ (signedValue (readSign [43, 45] exponent.tail).1 (readSign [43, 45] exponent.tail).2 - fraction.tail.length)) := by
  have signs : SignOf [43, 45] sign := parts.signs.imp_right fun minus => ⟨45, by simp, minus⟩
  have scale : exponent = [] ∨ ∃ mark rest, exponent = mark :: rest ∧ (mark = 101 ∨ mark = 69) ∧
      Digits (readSign [43, 45] rest).2 := by
    refine parts.exponents.imp_right ?_
    rintro ⟨mark, expSign, digits, marked, signs, found, rfl⟩
    refine ⟨mark, _, rfl, marked, ?_⟩
    rwa [readSign_append signs (by simpa using found.unsigned [])]
  have ahead : ∀ byte ∈ exponent.head?, isDigit byte = false ∧ byte ≠ 46 := by
    rcases scale with rfl | ⟨mark, rest, rfl, rfl | rfl, -⟩
    · simp
    · rintro _ ⟨⟩
      decide
    · rintro _ ⟨⟩
      decide
  have power (mantissa : ℤ) (places : ℕ) : scaled mantissa places exponent = some ((mantissa : ℚ) *
      10 ^ (signedValue (readSign [43, 45] exponent.tail).1 (readSign [43, 45] exponent.tail).2 - places)) := by
    rcases scale with rfl | ⟨mark, rest, rfl, marked, found⟩
    · simp [scaled, readSign, signedValue, Rfc3339.number]
    · have all := List.all_eq_true.mpr found.2
      rcases marked with rfl | rfl <;> simp [scaled, found.1, all]
  have nonempty := parts.digits.1
  rw [parts.spelled, ratOf, readSign_append signs (parts.digits.unsigned _)]
  rcases parts.fractions with rfl | ⟨digits, found, rfl⟩
  · obtain ⟨taken, dropped⟩ := @span_eq isDigit integer exponent parts.digits.2 fun byte first => (ahead byte first).1
    have point : exponent.head? ≠ some 46 := fun first => (ahead 46 first).2 rfl
    simp [taken, dropped, point, nonempty, power]
  · obtain ⟨taken, dropped⟩ := @span_eq isDigit integer (46 :: (digits ++ exponent)) parts.digits.2
      (by simp; decide)
    obtain ⟨taken', dropped'⟩ := @span_eq isDigit digits exponent found.2 fun byte first => (ahead byte first).1
    simp [taken, dropped, taken', dropped', nonempty, power]

theorem head_digit : ∃ first more, integer = first :: more ∧ isDigit first = true := by
  obtain ⟨first, more, rfl⟩ := List.exists_cons_of_ne_nil parts.digits.1
  exact ⟨first, more, rfl, parts.digits.2 first (.head _)⟩

/-- A number of digits only, after its sign, is an integer. -/
theorem plain (all : ∀ byte ∈ integer ++ (fraction ++ exponent), isDigit byte = true) :
    fraction = [] ∧ exponent = [] := by
  have inside : ∀ byte ∈ fraction ++ exponent, isDigit byte = true :=
    fun byte mem => all byte (List.mem_append_right _ mem)
  constructor
  · rcases parts.fractions with none | ⟨digits, -, rfl⟩
    · exact none
    · exact absurd (inside 46 (by simp)) (by decide)
  · rcases parts.exponents with none | ⟨mark, expSign, digits, marked, -, -, rfl⟩
    · exact none
    have digit := inside mark (by simp)
    rcases marked with rfl | rfl <;> exact absurd digit (by decide)

end Parts

theorem digits_last (digits : Digits s) : ∃ front last, s = front ++ [last] ∧ isDigit last = true := by
  rcases List.eq_nil_or_concat s with none | ⟨front, last, rfl⟩
  · exact absurd none digits.1
  · exact ⟨front, last, by simp, digits.2 last (by simp)⟩

/-- A number ends in a digit. -/
theorem number_last (legal : JsonText.Number literal) :
    ∃ front last, literal = front ++ [last] ∧ isDigit last = true := by
  obtain ⟨sign, integer, fraction, exponent, parts⟩ := number_parts legal
  have spelled := parts.spelled
  rcases parts.exponents with rfl | ⟨mark, expSign, digits, -, -, found, rfl⟩
  · rcases parts.fractions with rfl | ⟨digits, found, rfl⟩
    · obtain ⟨front, last, rfl, digit⟩ := digits_last parts.digits
      exact ⟨sign ++ front, last, by simpa using spelled, digit⟩
    · obtain ⟨front, last, rfl, digit⟩ := digits_last found
      exact ⟨sign ++ (integer ++ 46 :: front), last, by simpa using spelled, digit⟩
  · obtain ⟨front, last, rfl, digit⟩ := digits_last found
    exact ⟨sign ++ (integer ++ (fraction ++ mark :: (expSign ++ front))), last, by simpa using spelled, digit⟩

theorem ratOf_number (legal : JsonText.Number literal) : ∃ q, ratOf literal = some q := by
  obtain ⟨_, _, _, _, parts⟩ := number_parts legal
  exact ⟨_, parts.ratOf_eq⟩

/-- The fast path gives the exact value. -/
theorem ratOf_canonical (legal : JsonText.Number literal) (parsed : parseCanonicalJSONInt literal = some i) :
    ratOf literal = some (i : ℚ) := by
  obtain ⟨sign, integer, fraction, exponent, parts⟩ := number_parts legal
  obtain ⟨first, more, shape, digit⟩ := parts.head_digit
  have unsigned : first ≠ 45 := by
    rintro rfl
    exact absurd digit (by decide)
  have negative : (literal.head? = some 45) ↔ sign = [45] := by
    rcases parts.signs with rfl | rfl
    · simp [parts.spelled, shape, unsigned]
    · simp [parts.spelled]
  have body : (if literal.head? = some 45 then literal.tail else literal) = integer ++ (fraction ++ exponent) := by
    rcases parts.signs with rfl | rfl
    · rw [if_neg (by simp [negative]), parts.spelled]
      rfl
    · rw [parts.spelled]
      rfl
  simp only [parseCanonicalJSONInt, decide_eq_true_eq, body] at parsed
  generalize whole : integer ++ (fraction ++ exponent) = digits at parsed
  have value : (∀ byte ∈ digits, isDigit byte = true) ∧
      i = if sign = [45] then -(Rfc3339.number digits : ℤ) else Rfc3339.number digits := by
    split at parsed
    · cases parsed
    split at parsed
    · rename_i zero
      split at parsed
      · cases parsed
      rename_i single
      obtain ⟨only, rfl⟩ : ∃ only, digits = [only] := by
        cases digits with
        | nil => simp at zero
        | cons only tail =>
          cases tail with
          | nil => exact ⟨only, rfl⟩
          | cons _ _ => simp at single
      obtain rfl : only = 48 := by simpa using zero
      have plus : ¬ sign = [45] := by simpa [negative] using single
      refine ⟨by decide +kernel, ?_⟩
      rw [if_neg plus, ← Option.some.inj parsed]
      rfl
    · split at parsed
      · rename_i all
        refine ⟨List.all_eq_true.mp all, ?_⟩
        rw [← Option.some.inj parsed]
        simp [negative]
      · cases parsed
  obtain ⟨all, rfl⟩ := value
  rw [← whole] at all ⊢
  obtain ⟨rfl, rfl⟩ := parts.plain all
  rw [parts.ratOf_eq]
  rcases parts.signs with rfl | rfl <;> simp [signedValue, readSign, Rfc3339.number]

/-! Printing the value. -/

theorem slash_not_mem (n : ℤ) : (47 : UInt8) ∉ decimalInt n := by
  intro mem
  cases n with
  | ofNat n => exact absurd (decimal_digits mem).1 (by decide)
  | negSucc n =>
    rcases List.mem_cons.mp mem with minus | mem
    · exact absurd minus (by decide)
    · exact absurd (decimal_digits mem).1 (by decide)

theorem ratString_injective : Function.Injective ratString := by
  intro p q same
  unfold ratString at same
  split at same
  · rename_i whole
    split at same
    · rename_i whole'
      exact Rat.ext (decimalInt_injective same) (whole.trans whole'.symm)
    · exact absurd (same ▸ by simp) (slash_not_mem p.num)
  · split at same
    · exact absurd (same ▸ by simp) (slash_not_mem q.num)
    · obtain ⟨num, den⟩ := append_separator_inj_head (slash_not_mem p.num) (slash_not_mem q.num) same
      exact Rat.ext (decimalInt_injective num) (decimal_injective den)

theorem ratString_int (i : ℤ) : ratString (i : ℚ) = decimalInt i := by simp [ratString]

/-! The grammar of a bounded literal. -/

/-- Stopping past the bound gives the sum's verdict. -/
theorem exponentSum_le_iff (digits : Bytes) :
    exponentSum digits ≤ maxNumericLiteralExp ↔ Rfc3339.number digits ≤ maxNumericLiteralExp := by
  have run : ∀ digits : Bytes, ∀ exp n, exp = n ∨ maxNumericLiteralExp < exp ∧ maxNumericLiteralExp < n →
      (digits.foldl (fun exp byte => if exp ≤ maxNumericLiteralExp then exp * 10 + Rfc3339.digitValue byte else exp) exp ≤
        maxNumericLiteralExp ↔
      digits.foldl (fun n byte => n * 10 + Rfc3339.digitValue byte) n ≤ maxNumericLiteralExp) := by
    intro digits
    induction digits with
    | nil => grind
    | cons byte digits ih =>
      intro exp n same
      exact ih _ _ (by grind)
  exact run digits 0 0 (.inl rfl)

/-- `digits [ "." [digits] ] | "." digits`. -/
def Mantissa (s : Bytes) : Prop :=
  Digits s ∨ ∃ integer fraction, s = integer ++ 46 :: fraction ∧
    (Digits integer ∧ (fraction = [] ∨ Digits fraction) ∨ integer = [] ∧ Digits fraction)

/-- `( [eE] [+-]? digits )?`, of a value within the bound. -/
def Exponent (s : Bytes) : Prop :=
  s = [] ∨ ∃ mark sign digits, s = mark :: (sign ++ digits) ∧ (mark = 101 ∨ mark = 69) ∧ SignOf [43, 45] sign ∧
    Digits digits ∧ Rfc3339.number digits ≤ maxNumericLiteralExp

theorem exponentBounded_iff (s : Bytes) : exponentBounded s = true ↔ Exponent s := by
  cases s with
  | nil => simp [exponentBounded, Exponent]
  | cons mark s =>
    constructor
    · intro bounded
      simp only [exponentBounded, Bool.if_false_left, Bool.and_eq_true, decide_eq_true_eq, exponentSum_le_iff] at bounded
      obtain ⟨marked, ⟨digits, all⟩, small⟩ := bounded
      have parts := readSign_sound [43, 45] s
      refine .inr ⟨mark, _, _, congrArg (mark :: ·) parts.1, ?_, parts.2, ⟨by simpa using digits, by simpa using all⟩, small⟩
      grind
    · rintro (none | ⟨mark, sign, digits, spelled, marked, signs, digit, small⟩)
      · cases none
      · cases spelled
        have read := readSign_append signs (by simpa using digit.unsigned [])
        simp only [exponentBounded, read, exponentSum_le_iff]
        have all := digit.2
        have first := digit.1
        rcases marked with rfl | rfl <;> simpa [first, small] using all

theorem Exponent.ahead (exponent : Exponent s) (byte : UInt8) (first : byte ∈ s.head?) :
    isDigit byte = false ∧ byte ≠ 46 := by
  rcases exponent with rfl | ⟨mark, sign, digits, rfl, marked, -⟩
  · cases first
  · cases first
    rcases marked with rfl | rfl <;> decide

theorem readMantissa_iff (s : Bytes) : (readMantissa s).1 ≠ [] ∧ Exponent (readMantissa s).2 ↔
    ∃ mantissa exponent, s = mantissa ++ exponent ∧ Mantissa mantissa ∧ Exponent exponent := by
  have digit (l : Bytes) : ∀ byte ∈ l.takeWhile isDigit, isDigit byte = true :=
    fun _ mem => List.mem_takeWhile_imp mem
  constructor
  · rintro ⟨found, scaled⟩
    have parts := (List.takeWhile_append_dropWhile (p := isDigit) (l := s)).symm
    unfold readMantissa at found scaled
    by_cases point : (s.dropWhile isDigit).head? = some 46
    · obtain ⟨tail, rest⟩ := List.head?_eq_some_iff.mp point
      simp only [rest, List.head?_cons, if_true, List.tail_cons] at found scaled parts
      refine ⟨s.takeWhile isDigit ++ 46 :: tail.takeWhile isDigit, _, ?_, .inr ⟨_, _, rfl, ?_⟩, scaled⟩
      · simpa using parts
      · have := digit s
        have := digit tail
        grind [Digits]
    · simp only [if_neg point] at found scaled
      exact ⟨_, _, parts, .inl ⟨found, digit s⟩, scaled⟩
  · rintro ⟨mantissa, exponent, rfl, digits | ⟨integer, fraction, rfl, shape⟩, scaled⟩
    · have ends := scaled.ahead
      obtain ⟨taken, dropped⟩ := span_eq digits.2 (fun byte first => (ends byte first).1)
      have point : exponent.head? ≠ some 46 := fun first => (ends 46 first).2 rfl
      simp only [readMantissa, taken, dropped, if_neg point]
      exact ⟨digits.1, scaled⟩
    · obtain ⟨taken, dropped⟩ := @span_eq isDigit integer (46 :: (fraction ++ exponent))
        (by grind [Digits]) (by simp; decide)
      obtain ⟨taken', dropped'⟩ := @span_eq isDigit fraction _ (by grind [Digits])
        (fun byte first => (scaled.ahead byte first).1)
      rw [List.append_assoc, List.cons_append]
      simp only [readMantissa, taken, dropped, List.head?_cons, if_true, List.tail_cons, taken', dropped']
      exact ⟨by grind [Digits, List.append_eq_nil_iff], scaled⟩

/-- A literal is bounded where it is `[+-]? mantissa ( [eE] [+-]? digits )?`, no longer than the bound, with an exponent
within its own. -/
theorem numericLiteralBounded_iff (s : Bytes) :
    numericLiteralBounded s = true ↔ s.length ≤ maxNumericLiteralLen ∧ ∃ sign mantissa exponent,
      s = sign ++ (mantissa ++ exponent) ∧ SignOf [43, 45] sign ∧ Mantissa mantissa ∧ Exponent exponent := by
  have scanned : numericLiteralBounded s = true ↔ (s ≠ [] ∧ s.length ≤ maxNumericLiteralLen) ∧
      (readMantissa (readSign [43, 45] s).2).1 ≠ [] ∧ Exponent (readMantissa (readSign [43, 45] s).2).2 := by
    simp [numericLiteralBounded, exponentBounded_iff]
  rw [scanned, readMantissa_iff]
  obtain ⟨signed, signs⟩ := readSign_sound [43, 45] s
  constructor
  · rintro ⟨⟨-, short⟩, mantissa, exponent, rest, legal⟩
    exact ⟨short, _, mantissa, exponent, signed.trans (congrArg (_ ++ ·) rest), signs, legal⟩
  · rintro ⟨short, sign, mantissa, exponent, rfl, signs, legal, scaled⟩
    have first : mantissa ≠ [] ∧ ∀ byte ∈ (mantissa ++ exponent).head?, byte ∉ ([43, 45] : List UInt8) := by
      rcases legal with digits | ⟨integer, fraction, rfl, ⟨digits, -⟩ | ⟨rfl, -⟩⟩
      · exact ⟨digits.1, digits.unsigned exponent⟩
      · refine ⟨by simp, ?_⟩
        rw [List.append_assoc]
        exact digits.unsigned _
      · simp
    rw [readSign_append signs first.2]
    exact ⟨⟨by simp [first.1], short⟩, mantissa, exponent, rfl, legal, scaled⟩

end Eunox
