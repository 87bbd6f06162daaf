import Eunox.Binary64
import Eunox.RpcMessage

/-! Numeric comparison of arguments with the values and bounds of a policy
(`numericEqual`, `compareToBound`). Both try int64 first, then exact rationals,
then doubles. A literal that is not written as a plain integer reaches the int64
step through a double, so there a large integer is compared as its neighbour. -/
namespace Eunox
open ByteString JsonText

/-! The operands. -/

/-- An argument or a policy value, by what the comparison distinguishes. -/
inductive Operand where
  /-- `json.Number`, the text of a decimal literal -/
  | number (literal : Bytes)
  /-- a signed kind, `uint8`, `uint16` or `uint32` -/
  | int (n : Int64)
  /-- `uint` or `uint64` -/
  | uint (n : UInt64)
  /-- `float32` or `float64` -/
  | float (f : Binary64)
  | other

/-- `strconv.ParseInt` in base ten. -/
def parseInt64 (s : Bytes) : Option ℤ :=
  let signed := readSign [43, 45] s
  if signed.2.isEmpty || !signed.2.all isDigit then none
  else
    let n := signedValue signed.1 signed.2
    if -2 ^ 63 ≤ n && n < 2 ^ 63 then some n else none

/-- `json.Number.Float64`: an error past the largest double. -/
def parseFloat (s : Bytes) : Option Binary64 :=
  match ratOf s with
  | none => none
  | some q => if (Binary64.ofRat q).isInf then none else some (Binary64.ofRat q)

def minInt64Float : Binary64 := .ofInt (-2 ^ 63)
def twoTo63Float : Binary64 := .ofInt (2 ^ 63)

/-- `capability.FloatToInt64`. -/
def floatToInt64 (f : Binary64) : Option ℤ :=
  if f.lt minInt64Float || twoTo63Float.le f then none
  else if !(Binary64.ofInt f.toInt).eq f then none
  else some f.toInt

def asInt64 : Operand → Option ℤ
  | .number literal =>
    match parseInt64 literal with
    | some i => some i
    | none => (parseFloat literal).bind floatToInt64
  | .int n => some n.toInt
  | .uint n => if n.toNat < 2 ^ 63 then some n.toNat else none
  | .float f => floatToInt64 f
  | .other => none

def ratFromFloat : Binary64 → Option ℚ
  | .finite value _ => some value
  | _ => none

/-- There is no arm for the kinds that always fit int64. -/
def exactRat : Operand → Option ℚ
  | .number literal => if numericLiteralBounded literal then ratOf literal else none
  | .uint n => some n.toNat
  | .float f => ratFromFloat f
  | _ => none

def exactIntegerRat (v : Operand) : Option ℚ := (exactRat v).filter fun r => r.den = 1

def toFloat64 : Operand → Option Binary64
  | .number literal => parseFloat literal
  | .int n => some (.ofInt n.toInt)
  | .uint n => some (.ofNat n.toNat)
  | .float f => some f
  | .other => none

def numericEqual (a b : Operand) : Bool :=
  match asInt64 a, asInt64 b with
  | some ia, some ib => ia = ib
  | some _, none | none, some _ => false
  | none, none =>
    match exactIntegerRat a, exactIntegerRat b with
    | some ra, some rb => ra = rb
    | _, _ =>
      match toFloat64 a, toFloat64 b with
      | some fa, some fb => fa.eq fb
      | _, _ => false

/-! Bounds of an `argumentSchema`. -/

inductive BoundError where
  | notRepresentable (literal : Bytes)
  | notNumber (literal : Bytes)
  | inexact (literal : Bytes) (nearest : Binary64)
  deriving DecidableEq

/-- `exactFloatBound`: nothing for an absent bound. -/
def exactFloatBound (literal : Bytes) : Except BoundError (Option Binary64) :=
  if literal.isEmpty then .ok none
  else
    match parseFloat literal with
    | none => .error (.notRepresentable literal)
    | some f =>
      match ratOf literal with
      | none => .error (.notNumber literal)
      | some orig =>
        if (orig.den = 1 || (floatToInt64 f).isSome) && ratFromFloat f ≠ some orig then
          .error (.inexact literal f)
        else .ok (some f)

def order (less greater : Bool) : ℤ := if less then -1 else if greater then 1 else 0

/-- `f` is the double `raw` was coerced to. -/
def compareToBound (raw : Operand) (f bound : Binary64) : ℤ :=
  match asInt64 raw, floatToInt64 bound with
  | some ri, some bi => order (ri < bi) (bi < ri)
  | _, _ =>
    match exactIntegerRat raw, exactIntegerRat (.float bound) with
    | some rr, some br => order (rr < br) (br < rr)
    | _, _ => order (f.lt bound) (bound.lt f)

/-! What is read. -/

/-- An operand stands for an integer: a Go integer, or a literal within the bounds whose exact value
is one. -/
def Operand.Denotes : Operand → ℤ → Prop
  | .number literal, x => numericLiteralBounded literal = true ∧ ratOf literal = some (x : ℚ)
  | .int n, x => n.toInt = x
  | .uint n, x => (n.toNat : ℤ) = x
  | _, _ => False

def InInt64 (x : ℤ) : Prop := -2 ^ 63 ≤ x ∧ x < 2 ^ 63

instance (x : ℤ) : Decidable (InInt64 x) := inferInstanceAs (Decidable (_ ∧ _))

/-- Digits only, after a sign. -/
def PlainInteger (literal : Bytes) : Prop :=
  (readSign [43, 45] literal).2 ≠ [] ∧ ∀ byte ∈ (readSign [43, 45] literal).2, isDigit byte = true

instance (literal : Bytes) : Decidable (PlainInteger literal) := inferInstanceAs (Decidable (_ ∧ _))

/-- The integer the nearest double holds. -/
def nearest (x : ℤ) : ℤ := ⌊Binary64.round x⌋

/-- What a comparison tells from its neighbours: a Go integer, and of the literals one that is written as a plain int64,
that a double holds, or that int64 holds neither as it is nor as its nearest double. -/
def Operand.Exact : Operand → ℤ → Prop
  | .number literal, x => PlainInteger literal ∧ InInt64 x ∨ nearest x = x ∨ ¬ InInt64 x ∧ ¬ InInt64 (nearest x)
  | _, _ => True

/-- The int64 an operand of value `x` is read as. -/
def reading : Operand → ℤ → Option ℤ
  | .number literal, x =>
    if PlainInteger literal ∧ InInt64 x then some x
    else if InInt64 (nearest x) then some (nearest x)
    else none
  | _, x => if InInt64 x then some x else none

/-- What a bound past int64 is compared with: only the kinds with an exact value keep it. -/
def widened : Operand → ℤ → ℤ
  | .int _, x => nearest x
  | _, x => x

/-- What a bound `y` is compared with. -/
def compared (a : Operand) (x y : ℤ) : ℤ :=
  if InInt64 y then (reading a x).getD x else widened a x

theorem nearest_cast (x : ℤ) : (nearest x : ℚ) = Binary64.round x := by
  obtain ⟨m, whole⟩ := Binary64.round_whole x
  rw [nearest, whole, Int.floor_intCast]

/-! The two ends of int64 are doubles. -/

theorem representable_end {n : ℤ} (far : |n| = 2 ^ 63) : Binary64.Representable n := by
  have magnitude : |(n : ℚ)| = 2 ^ 63 := by exact_mod_cast far
  have nonzero : (n : ℚ) ≠ 0 := by
    rw [← abs_pos]
    positivity
  have scaled : (n : ℚ) = n.sign * 2 ^ (63 : ℤ) := by
    have split := Int.sign_mul_abs n
    rw [far] at split
    exact_mod_cast split.symm
  constructor
  · apply Binary64.round_of_scaled scaled
    apply Binary64.ulpExponent_le_of_abs_lt nonzero (by norm_num)
    rw [magnitude]
    norm_num
  · rw [magnitude]
    exact pow_lt_pow_right₀ (by norm_num) (by norm_num)

theorem abs_nearest_le {x : ℤ} (inside : InInt64 x) : |nearest x| ≤ 2 ^ 63 := by
  have bound : |(nearest x : ℚ)| ≤ 2 ^ (63 : ℤ) := by
    rw [nearest_cast]
    rcases inside.1.eq_or_lt with low | inner
    · rw [(representable_end (n := x) (by rw [← low]; rfl)).1, ← low]
      norm_num
    · refine Binary64.abs_round_le (by norm_num) ?_
      have small : |x| < 2 ^ 63 := abs_lt.mpr ⟨inner, inside.2⟩
      exact_mod_cast small
  exact_mod_cast bound

theorem floatToInt64_whole {m : ℤ} (representable : Binary64.Representable m) :
    floatToInt64 (.finite m representable) = if InInt64 m then some m else none := by
  have low : minInt64Float = .finite ((-2 ^ 63 : ℤ) : ℚ) (representable_end (by norm_num)) :=
    Binary64.ofRat_of_representable _
  have high : twoTo63Float = .finite ((2 ^ 63 : ℤ) : ℚ) (representable_end (by norm_num)) :=
    Binary64.ofRat_of_representable _
  have whole : (Binary64.finite m representable).toInt = m := by simp [Binary64.toInt]
  have back : Binary64.ofInt m = .finite m representable := Binary64.ofRat_of_representable representable
  have below : (Binary64.finite m representable).lt minInt64Float = decide (m < -2 ^ 63) := by
    rw [low, Binary64.lt]
    norm_cast
  have above : twoTo63Float.le (.finite m representable) = decide (2 ^ 63 ≤ m) := by
    rw [high, Binary64.le, Binary64.lt, Binary64.eq, ← Bool.decide_or]
    exact decide_eq_decide.mpr (by rw [← le_iff_lt_or_eq]; norm_cast)
  have same : (Binary64.finite m representable).eq (.finite m representable) = true := by simp [Binary64.eq]
  rw [floatToInt64, whole, back, below, above, same]
  by_cases inside : InInt64 m
  · have outside : (decide (m < -2 ^ 63) || decide (2 ^ 63 ≤ m)) = false := by
      rw [decide_eq_false (not_lt.mpr inside.1), decide_eq_false (not_le.mpr inside.2), Bool.or_self]
    rw [if_pos inside, outside]
    rfl
  · rw [if_neg inside, if_pos]
    simp only [Bool.or_eq_true, decide_eq_true_eq]
    unfold InInt64 at inside
    omega

theorem ofRat_whole {x : ℤ} (small : |Binary64.round x| < 2 ^ 1024) :
    ∃ representable : Binary64.Representable (nearest x), Binary64.ofRat x = .finite (nearest x) representable := by
  have representable : Binary64.Representable (nearest x) := by
    rw [nearest_cast]
    exact ⟨Binary64.round_round x, small⟩
  exact ⟨representable, by simp [Binary64.ofRat, small, nearest_cast]⟩

/-! Literals. -/

theorem ratOf_plain (plain : PlainInteger s) :
    ratOf s = some (signedValue (readSign [43, 45] s).1 (readSign [43, 45] s).2 : ℚ) := by
  obtain ⟨nonempty, digits⟩ := plain
  have taken := List.takeWhile_eq_self_iff.mpr digits
  have dropped := List.dropWhile_eq_nil_iff.mpr digits
  simp [ratOf, scaled, taken, dropped, nonempty]

theorem parseInt64_eq {x : ℤ} (valued : ratOf s = some (x : ℚ)) :
    parseInt64 s = if PlainInteger s ∧ InInt64 x then some x else none := by
  unfold parseInt64
  by_cases plain : PlainInteger s
  · have value : signedValue (readSign [43, 45] s).1 (readSign [43, 45] s).2 = x := by
      rw [ratOf_plain plain] at valued
      exact_mod_cast Option.some.inj valued
    have digits : ((readSign [43, 45] s).2.isEmpty || !(readSign [43, 45] s).2.all isDigit) = false := by
      simpa [PlainInteger] using plain
    simp [digits, value, plain, InInt64]
  · have other : ((readSign [43, 45] s).2.isEmpty || !(readSign [43, 45] s).2.all isDigit) = true := by
      by_contra digitless
      exact plain (by simpa [PlainInteger] using digitless)
    simp [other, plain]

theorem float_reading {s : Bytes} {x : ℤ} (valued : ratOf s = some (x : ℚ)) :
    (parseFloat s).bind floatToInt64 = if InInt64 (nearest x) then some (nearest x) else none := by
  simp only [parseFloat, valued]
  by_cases small : |Binary64.round x| < 2 ^ 1024
  · obtain ⟨held, double⟩ := ofRat_whole small
    simp [double, Binary64.isInf, floatToInt64_whole]
  · have overflow : ¬ InInt64 (nearest x) := by
      rintro ⟨low, high⟩
      apply small
      rw [← nearest_cast, ← Int.cast_abs]
      have bound : |nearest x| ≤ 2 ^ 63 := abs_le.mpr ⟨by omega, by omega⟩
      calc ((|nearest x| : ℤ) : ℚ) ≤ 2 ^ 63 := by exact_mod_cast bound
        _ < 2 ^ 1024 := pow_lt_pow_right₀ (by norm_num) (by norm_num)
    rw [if_neg overflow]
    simp [Binary64.ofRat, small, Binary64.isInf]

/-! Operands that stand for integers. -/

section Denoting
variable {a b : Operand} {x y : ℤ}

theorem asInt64_reading (denotes : a.Denotes x) : asInt64 a = reading a x := by
  cases a with
  | number literal =>
    rw [asInt64, reading, parseInt64_eq denotes.2, float_reading denotes.2]
    split_ifs <;> rfl
  | int n =>
    obtain rfl : n.toInt = x := denotes
    exact (if_pos ⟨n.le_toInt, n.toInt_lt⟩).symm
  | uint n =>
    obtain rfl : (n.toNat : ℤ) = x := denotes
    have same : n.toNat < 2 ^ 63 ↔ InInt64 n.toNat := by
      unfold InInt64
      omega
    simp only [asInt64, reading, same]
  | float f | other => exact denotes.elim

/-- Past int64 every operand has an exact value. -/
theorem exactIntegerRat_denotes (denotes : a.Denotes x) (wide : ∀ n, a ≠ .int n) :
    exactIntegerRat a = some (x : ℚ) := by
  cases a with
  | number literal => simp [exactIntegerRat, exactRat, denotes.1, denotes.2]
  | int n => exact absurd rfl (wide n)
  | uint n =>
    obtain rfl : (n.toNat : ℤ) = x := denotes
    simp [exactIntegerRat, exactRat]
  | float f | other => exact denotes.elim

theorem reading_int (denotes : (Operand.int n).Denotes x) : reading (.int n) x = some x := by
  obtain rfl : n.toInt = x := denotes
  exact if_pos ⟨n.le_toInt, n.toInt_lt⟩

theorem not_int_of_reading (denotes : a.Denotes x) (unread : reading a x = none) (n : Int64) : a ≠ .int n := by
  rintro rfl
  rw [reading_int denotes] at unread
  cases unread

theorem numericEqual_iff (left : a.Denotes x) (right : b.Denotes y) : numericEqual a b = true ↔
      if reading a x = none ∧ reading b y = none then x = y else reading a x = reading b y := by
  unfold numericEqual
  rw [asInt64_reading left, asInt64_reading right]
  cases first : reading a x with
  | some i =>
    cases second : reading b y with
    | some j | none => simp
  | none =>
    cases second : reading b y with
    | some j => simp
    | none =>
      rw [exactIntegerRat_denotes left (not_int_of_reading left first),
        exactIntegerRat_denotes right (not_int_of_reading right second)]
      simp

theorem order_eq_sign (p q : ℤ) : order (decide (p < q)) (decide (q < p)) = (p - q).sign := by
  unfold order
  rcases lt_trichotomy p q with less | rfl | greater
  · simp [less, Int.sign_eq_neg_one_of_neg (sub_neg.mpr less)]
  · simp
  · simp [not_lt.mpr greater.le, greater, Int.sign_eq_one_of_pos (sub_pos.mpr greater)]

theorem order_cast (p q : ℤ) : order (decide ((p : ℚ) < q)) (decide ((q : ℚ) < p)) = (p - q).sign := by
  rw [← order_eq_sign]
  norm_cast

/-- A bound that was accepted is exact. -/
theorem exactFloatBound_exact (valued : ratOf literal = some (y : ℚ))
    (accepted : exactFloatBound literal = .ok (some bound)) : ∃ held, bound = .finite (y : ℚ) held := by
  unfold exactFloatBound at accepted
  simp only [valued] at accepted
  split at accepted
  · cases accepted
  split at accepted
  · cases accepted
  split at accepted
  · cases accepted
  rename_i f _ faithful
  obtain rfl : f = bound := by simpa using accepted
  have value : ratFromFloat f = some (y : ℚ) := by simpa using faithful
  cases f with
  | nan | infinite negative => cases value
  | finite v held =>
    obtain rfl : v = y := Option.some.inj value
    exact ⟨held, rfl⟩

theorem compareToBound_eq (denotes : a.Denotes x) (coerced : toFloat64 a = some f)
    (held : Binary64.Representable y) : compareToBound a f (.finite y held) = (compared a x y - y).sign := by
  have bound : exactIntegerRat (.float (.finite y held)) = some (y : ℚ) := by
    simp [exactIntegerRat, exactRat, ratFromFloat]
  unfold compareToBound compared
  rw [asInt64_reading denotes, floatToInt64_whole held]
  by_cases inside : InInt64 y
  · simp only [inside]
    cases read : reading a x with
    | some i => exact order_eq_sign i y
    | none =>
      rw [exactIntegerRat_denotes denotes (not_int_of_reading denotes read)]
      exact order_cast x y
  · simp only [inside]
    by_cases wide : ∀ n, a ≠ .int n
    · rw [exactIntegerRat_denotes denotes wide]
      have precise : widened a x = x := by
        cases a with
        | int n => exact absurd rfl (wide n)
        | _ => rfl
      rw [precise]
      cases reading a x <;> exact order_cast x y
    · push Not at wide
      obtain ⟨n, rfl⟩ := wide
      rw [reading_int denotes]
      obtain rfl : n.toInt = x := denotes
      obtain rfl : Binary64.ofInt n.toInt = f := Option.some.inj coerced
      have small : |Binary64.round n.toInt| < 2 ^ 1024 := by
        rw [← nearest_cast]
        have bound := abs_nearest_le ⟨n.le_toInt, n.toInt_lt⟩
        calc |(nearest n.toInt : ℚ)| ≤ 2 ^ 63 := by exact_mod_cast bound
          _ < 2 ^ 1024 := pow_lt_pow_right₀ (by norm_num) (by norm_num)
      obtain ⟨representable, double⟩ := ofRat_whole small
      rw [Binary64.ofInt, double]
      exact order_cast (nearest n.toInt) y

theorem Operand.Exact.reading (precise : a.Exact x) : reading a x = if InInt64 x then some x else none := by
  cases a with
  | number literal =>
    simp only [Eunox.reading]
    rcases precise with plain | same | ⟨out, far⟩
    · rw [if_pos plain, if_pos plain.2]
    · rw [same]
      split_ifs <;> first | rfl | tauto
    · rw [if_neg fun both => out both.2, if_neg far, if_neg out]
  | _ => rfl

/-- An operand that is not exact is told from some int64 wrongly. -/
theorem confused (denotes : a.Denotes x) (inexact : ¬ a.Exact x) :
    ∃ n : Int64, ¬ (numericEqual a (.int n) = true ↔ x = n.toInt) := by
  cases a with
  | number literal =>
    obtain ⟨written, rounded, escapes⟩ := by simpa only [Operand.Exact, not_or] using inexact
    have other {y : ℤ} (inside : InInt64 y) : (Operand.int (Int64.ofInt y)).Denotes y :=
      Int64.toInt_ofInt_of_le inside.1 inside.2
    have read {y : ℤ} (inside : InInt64 y) : reading (.int (Int64.ofInt y)) y = some y := if_pos inside
    by_cases near : InInt64 (nearest x)
    · refine ⟨Int64.ofInt (nearest x), ?_⟩
      rw [numericEqual_iff denotes (other near), read near, show (Int64.ofInt (nearest x)).toInt = nearest x from other near]
      simp [reading, written, near, Ne.symm rounded]
    · have inside : InInt64 x := by
        by_contra out
        exact escapes ⟨out, near⟩
      refine ⟨Int64.ofInt x, ?_⟩
      rw [numericEqual_iff denotes (other inside), read inside, show (Int64.ofInt x).toInt = x from other inside]
      simp [reading, written, near]
  | _ => exact absurd trivial inexact

/-- Past int64 only the bound an int64 rounds to is taken for it. -/
theorem sign_nearest (inside : InInt64 x) (out : ¬ InInt64 y) :
    (nearest x - y).sign = (x - y).sign ↔ nearest x ≠ y := by
  have bound := abs_le.mp (abs_nearest_le inside)
  unfold InInt64 at inside out
  by_cases above : 2 ^ 63 ≤ y
  · rw [Int.sign_eq_neg_one_of_neg (a := x - y) (by omega), Int.sign_eq_neg_one_iff_neg]
    omega
  · rw [Int.sign_eq_one_of_pos (a := x - y) (by omega), Int.sign_eq_one_iff_pos]
    omega

/-- Exactly the operands that are exact are told from every integer, which is to be exact as well; and an exact
operand is compared rightly with an accepted bound, but for a kind that always fits int64 and the bound past int64
that it rounds to. -/
theorem numeric_comparison_exact_iff (denotes : a.Denotes x) :
    (a.Exact x ↔ ∀ b y, b.Denotes y → b.Exact y → (numericEqual a b = true ↔ x = y)) ∧
    (a.Exact x → ∀ literal y f bound, (Operand.number literal).Denotes y → toFloat64 a = some f →
      exactFloatBound literal = .ok (some bound) →
      (compareToBound a f bound = (x - y).sign ↔ ∀ n, a = .int n → InInt64 y ∨ nearest x ≠ y)) := by
  refine ⟨⟨fun precise b y right precise' => ?_, fun told => ?_⟩, fun precise literal y f bound right coerced accepted => ?_⟩
  · rw [numericEqual_iff denotes right, precise.reading, precise'.reading]
    by_cases first : InInt64 x <;> by_cases second : InInt64 y <;> simp [first, second]
    · rintro rfl
      exact second first
    · rintro rfl
      exact first second
  · by_contra inexact
    obtain ⟨n, wrong⟩ := confused denotes inexact
    exact wrong (told (.int n) n.toInt rfl trivial)
  · obtain ⟨held, rfl⟩ := exactFloatBound_exact right.2 accepted
    rw [compareToBound_eq denotes coerced held, compared, precise.reading]
    by_cases inside : InInt64 y
    · have same : (if InInt64 x then some x else none).getD x = x := by split <;> rfl
      simp [inside, same]
    · rw [if_neg inside]
      cases a with
      | int n =>
        obtain rfl : n.toInt = x := denotes
        simpa [widened, inside] using sign_nearest ⟨n.le_toInt, n.toInt_lt⟩ inside
      | _ => simp [widened]

/-- One thousand in two spellings, the second as a bound. -/
theorem numeric_comparison_exact_thousand :
    numericEqual (.number (lit "1e3")) (.number (lit "1000")) = true ∧
    compareToBound (.number (lit "1e3")) (.ofInt 1000) (.ofInt 1000) = 0 := by
  have left : (Operand.number (lit "1e3")).Denotes 1000 := ⟨by decide, by decide +kernel⟩
  have right : (Operand.number (lit "1000")).Denotes 1000 := ⟨by decide, by decide +kernel⟩
  have whole : nearest 1000 = 1000 := by decide +kernel
  have both := numeric_comparison_exact_iff left
  refine ⟨(both.1.mp (.inr (.inl whole)) _ _ right (.inr (.inl whole))).mpr rfl, ?_⟩
  exact (both.2 (.inr (.inl whole)) _ _ _ _ right (by decide +kernel) (by decide +kernel)).mpr nofun

/-- An integer written with a point is taken for its neighbour, and the largest int64 for a bound
just above it. -/
theorem numeric_comparison_conflates : (Operand.number (lit "9007199254740993.0")).Denotes 9007199254740993 ∧
      numericEqual (.number (lit "9007199254740993.0")) (.int 9007199254740992) = true ∧
      exactFloatBound (lit "9223372036854775808") = .ok (some twoTo63Float) ∧
      compareToBound (.int 9223372036854775807) (.ofInt 9223372036854775807) twoTo63Float = 0 := by
  refine ⟨⟨?_, ?_⟩, ?_, ?_, ?_⟩ <;> decide +kernel

end Denoting
end Eunox
