import Mathlib.Data.Int.Log
import Mathlib.Data.Rat.Floor
import Mathlib.Tactic

/-! IEEE 754 double precision over exact rationals. A finite value is a
rational that rounding to 53 significant bits leaves alone, so a number the
format cannot hold cannot be built. Every operation computes exactly and rounds
once, to nearest with ties to even. The two zeros are one value: no comparison
distinguishes them. -/
namespace Binary64

/-- Nearest integer, a tie going to the even neighbour. -/
def roundEven (q : ℚ) : ℤ :=
  if q - ⌊q⌋ < 1 / 2 then ⌊q⌋
  else if 1 / 2 < q - ⌊q⌋ then ⌊q⌋ + 1
  else if ⌊q⌋ % 2 = 0 then ⌊q⌋ else ⌊q⌋ + 1

/-- Exponent of the last significant bit: 53 bits below the leading one, and
never below the subnormal spacing. -/
def ulpExponent (q : ℚ) : ℤ := max (Int.log 2 |q| - 52) (-1074)

/-- Rounding to the format's spacing at the magnitude of the argument. -/
def round (q : ℚ) : ℚ := roundEven (q / 2 ^ ulpExponent q) * 2 ^ ulpExponent q

@[simp] theorem roundEven_intCast (n : ℤ) : roundEven (n : ℚ) = n := by
  simp [roundEven]

theorem floor_le_roundEven (q : ℚ) : ⌊q⌋ ≤ roundEven q := by
  unfold roundEven
  split_ifs <;> omega

theorem roundEven_le_ceil (q : ℚ) : roundEven q ≤ ⌈q⌉ := by
  by_cases whole : q = ⌊q⌋
  · rw [whole]
    simp
  · have above : ⌊q⌋ + 1 ≤ ⌈q⌉ := by
      have strict : (⌊q⌋ : ℚ) < q := lt_of_le_of_ne (Int.floor_le q) (Ne.symm whole)
      exact Int.lt_ceil.mpr strict
    unfold roundEven
    split_ifs <;> omega

theorem abs_roundEven_le {q : ℚ} {n : ℕ} (bound : |q| ≤ n) : |roundEven q| ≤ n := by
  obtain ⟨lower, upper⟩ := abs_le.mp bound
  refine abs_le.mpr ⟨le_trans ?_ (floor_le_roundEven q), le_trans (roundEven_le_ceil q) ?_⟩
  · exact Int.le_floor.mpr (by exact_mod_cast lower)
  · exact Int.ceil_le.mpr (by exact_mod_cast upper)

theorem ulpExponent_ge (q : ℚ) : -1074 ≤ ulpExponent q := le_max_right _ _

theorem log_le_ulpExponent (q : ℚ) : Int.log 2 |q| ≤ ulpExponent q + 52 := by
  unfold ulpExponent
  omega

/-- The mantissa before rounding stays below `2 ^ 53`. -/
theorem abs_scaled_lt (q : ℚ) : |q / 2 ^ ulpExponent q| ≤ (2 ^ 53 : ℕ) := by
  have positive : (0 : ℚ) < 2 ^ ulpExponent q := by positivity
  rw [abs_div, abs_of_pos positive, div_le_iff₀ positive]
  have below : |q| < (2 : ℚ) ^ (Int.log 2 |q| + 1) := by
    exact_mod_cast Int.lt_zpow_succ_log_self (R := ℚ) (by norm_num : 1 < 2) |q|
  calc |q| ≤ (2 : ℚ) ^ (Int.log 2 |q| + 1) := below.le
    _ ≤ 2 ^ (53 + ulpExponent q) := zpow_le_zpow_right₀ (by norm_num) (by have := log_le_ulpExponent q; omega)
    _ = ((2 ^ 53 : ℕ) : ℚ) * 2 ^ ulpExponent q := by
        rw [zpow_add₀ (by norm_num)]
        norm_num

/-- A multiple of a power of two at or above the spacing needs no rounding. -/
theorem round_of_scaled {q : ℚ} {m k : ℤ} (scaled : q = m * 2 ^ k) (fits : ulpExponent q ≤ k) : round q = q := by
  have back : (2 : ℚ) ^ k = 2 ^ (k - ulpExponent q).toNat * 2 ^ ulpExponent q := by
    rw [← zpow_natCast, ← zpow_add₀ (by norm_num)]
    congr 1
    omega
  have shift : q / 2 ^ ulpExponent q = ((m * 2 ^ (k - ulpExponent q).toNat : ℤ) : ℚ) := by
    rw [div_eq_iff (by positivity)]
    push_cast
    rw [mul_assoc, ← back, ← scaled]
  rw [round, shift, roundEven_intCast, ← shift]
  exact div_mul_cancel₀ q (by positivity)

theorem ulpExponent_le_of_abs_lt {q : ℚ} {k : ℤ} (nonzero : q ≠ 0) (normal : -1074 ≤ k)
    (bound : |q| < 2 ^ (k + 53)) : ulpExponent q ≤ k := by
  have positive : 0 < |q| := abs_pos.mpr nonzero
  have log : Int.log 2 |q| < k + 53 := by
    refine (Int.lt_zpow_iff_log_lt (by norm_num) positive).mp ?_
    exact_mod_cast bound
  exact max_le (by omega) normal

/-- At most 53 bits at a spacing of the format need no rounding. -/
theorem round_mantissa {m e : ℤ} (small : |m| ≤ 2 ^ 53) (normal : -1074 ≤ e) : round (m * 2 ^ e) = m * 2 ^ e := by
  by_cases zero : m = 0
  · simp [zero, round, roundEven]
  have nonzero : (m : ℚ) * 2 ^ e ≠ 0 := mul_ne_zero (by exact_mod_cast zero) (by positivity)
  have magnitude : |(m : ℚ) * 2 ^ e| = (|m| : ℤ) * 2 ^ e := by
    rw [abs_mul, abs_of_pos (by positivity : (0 : ℚ) < 2 ^ e), Int.cast_abs]
  rcases small.lt_or_eq with below | top
  · refine round_of_scaled rfl (ulpExponent_le_of_abs_lt nonzero normal ?_)
    rw [magnitude, add_comm, zpow_add₀ (by norm_num)]
    have cast : ((|m| : ℤ) : ℚ) < 2 ^ (53 : ℤ) := by exact_mod_cast below
    exact mul_lt_mul_of_pos_right cast (by positivity)
  · -- the carry out of the mantissa moves the value into the next binade
    have even : (m : ℚ) * 2 ^ e = (m / 2 : ℤ) * 2 ^ (e + 1) := by
      have halved : m = m / 2 * 2 := by
        rcases abs_choice m with same | flipped <;> omega
      rw [zpow_add₀ (by norm_num)]
      conv_lhs => rw [halved]
      push_cast
      ring
    rw [even]
    refine round_of_scaled rfl (ulpExponent_le_of_abs_lt (even ▸ nonzero) (by omega) ?_)
    rw [← even, magnitude, top]
    have step : (2 : ℚ) ^ (e + 1 + 53) = 2 ^ 54 * 2 ^ e := by
      rw [show e + 1 + 53 = 54 + e by ring, zpow_add₀ (by norm_num)]
      norm_num
    rw [step]
    exact mul_lt_mul_of_pos_right (by norm_num) (by positivity)

/-- Integers up to `2 ^ 53` are held exactly. -/
theorem round_intCast {n : ℤ} (small : |n| ≤ 2 ^ 53) : round (n : ℚ) = n := by
  simpa using round_mantissa small (show -1074 ≤ (0 : ℤ) by norm_num)

theorem round_natCast {n : ℕ} (small : n ≤ 2 ^ 53) : round (n : ℚ) = n := by
  have held := round_intCast (n := n) (by rw [Nat.abs_cast]; exact_mod_cast small)
  simpa using held

/-- Rounding lands on a representable value: a second rounding changes nothing. -/
theorem round_round (q : ℚ) : round (round q) = round q :=
  round_mantissa (abs_roundEven_le (abs_scaled_lt q)) (ulpExponent_ge q)

/-- An integer rounds to an integer: either it is held exactly or the spacing is at least one. -/
theorem round_whole (n : ℤ) : ∃ m : ℤ, round n = m := by
  rcases le_or_gt 0 (ulpExponent n) with coarse | fine
  · refine ⟨roundEven (n / 2 ^ ulpExponent n) * 2 ^ (ulpExponent n).toNat, ?_⟩
    rw [round, Int.cast_mul, Int.cast_pow, Int.cast_ofNat, ← zpow_natCast, Int.toNat_of_nonneg coarse]
  · exact ⟨n, round_of_scaled (m := n) (k := 0) (by simp) fine.le⟩

/-- Rounding stays within a power of two. -/
theorem abs_round_le {k : ℤ} (normal : -1021 ≤ k) (bound : |q| < 2 ^ k) : |round q| ≤ 2 ^ k := by
  rcases eq_or_ne q 0 with rfl | nonzero
  · simp [round, roundEven, zpow_nonneg]
  have spacing : ulpExponent q ≤ k - 53 := ulpExponent_le_of_abs_lt nonzero (by omega) (by rwa [sub_add_cancel])
  have mantissa : |((roundEven (q / 2 ^ ulpExponent q) : ℤ) : ℚ)| ≤ 2 ^ (53 : ℤ) := by
    exact_mod_cast abs_roundEven_le (abs_scaled_lt q)
  have unit : (2 : ℚ) ^ ulpExponent q ≤ 2 ^ (k - 53) := zpow_le_zpow_right₀ (by norm_num) spacing
  rw [round, abs_mul, abs_of_pos (by positivity : (0 : ℚ) < 2 ^ ulpExponent q)]
  calc |((roundEven (q / 2 ^ ulpExponent q) : ℤ) : ℚ)| * 2 ^ ulpExponent q
      ≤ 2 ^ (53 : ℤ) * 2 ^ (k - 53) := mul_le_mul mantissa unit (by positivity) (by positivity)
    _ = 2 ^ k := by rw [← zpow_add₀ (by norm_num), add_sub_cancel]

theorem zpow_log_le {q : ℚ} (positive : 0 < q) : 2 ^ Int.log 2 |q| ≤ q := by
  rw [abs_of_pos positive]
  exact_mod_cast Int.zpow_log_le_self (R := ℚ) (b := 2) (by norm_num) positive

/-- Rounding never drops a value below the power of two it starts from. -/
theorem zpow_le_round {k : ℤ} (normal : -1022 ≤ k) (above : 2 ^ k ≤ q) : 2 ^ k ≤ round q := by
  have positive : 0 < q := lt_of_lt_of_le (by positivity) above
  have magnitude : |q| = q := abs_of_pos positive
  have log : k ≤ Int.log 2 |q| := by
    rw [magnitude]
    exact (Int.zpow_le_iff_le_log (by norm_num) positive).mp (by exact_mod_cast above)
  have spacing : ulpExponent q = Int.log 2 |q| - 52 := max_eq_left (by omega)
  have mantissa : (2 ^ 52 : ℤ) ≤ roundEven (q / 2 ^ ulpExponent q) := by
    refine le_trans (Int.le_floor.mpr ?_) (floor_le_roundEven _)
    rw [le_div_iff₀ (by positivity), spacing]
    calc (((2 ^ 52 : ℤ) : ℚ)) * 2 ^ (Int.log 2 |q| - 52) = 2 ^ Int.log 2 |q| := by
          rw [show (((2 ^ 52 : ℤ) : ℚ)) = 2 ^ (52 : ℤ) by norm_num, ← zpow_add₀ (by norm_num)]
          congr 1
          ring
      _ ≤ q := zpow_log_le positive
  calc (2 : ℚ) ^ k ≤ 2 ^ (52 + ulpExponent q) :=
        zpow_le_zpow_right₀ (by norm_num) (by omega)
    _ = ((2 ^ 52 : ℤ) : ℚ) * 2 ^ ulpExponent q := by
        rw [zpow_add₀ (by norm_num)]
        norm_num
    _ ≤ round q := mul_le_mul_of_nonneg_right (by exact_mod_cast mantissa) (by positivity)

/-- A rational the format holds exactly, below the overflow threshold. -/
def Representable (q : ℚ) : Prop := round q = q ∧ |q| < 2 ^ 1024

instance (q : ℚ) : Decidable (Representable q) := inferInstanceAs (Decidable (_ ∧ _))

end Binary64

/-- A double: not a number, a signed infinity, or a representable rational. -/
inductive Binary64 where
  | nan
  | infinite (negative : Bool)
  | finite (value : ℚ) (representable : Binary64.Representable value)
  deriving DecidableEq

namespace Binary64

/-- The nearest double, overflowing to the infinity of the same sign. -/
def ofRat (q : ℚ) : Binary64 :=
  if small : |round q| < 2 ^ 1024 then .finite (round q) ⟨round_round q, small⟩
  else .infinite (decide (q < 0))

def ofNat (n : ℕ) : Binary64 := ofRat n

def ofInt (n : ℤ) : Binary64 := ofRat n

def add : Binary64 → Binary64 → Binary64
  | .finite a _, .finite b _ => ofRat (a + b)
  | .infinite s, .infinite t => if s = t then .infinite s else .nan
  | .infinite s, .finite _ _ => .infinite s
  | .finite _ _, .infinite t => .infinite t
  | _, _ => .nan

def neg : Binary64 → Binary64
  | .nan => .nan
  | .infinite s => .infinite !s
  | .finite a _ => ofRat (-a)

def sub (x y : Binary64) : Binary64 := x.add y.neg

/-- Ordered comparison; false as soon as one side is not a number. -/
def lt : Binary64 → Binary64 → Bool
  | .finite a _, .finite b _ => decide (a < b)
  | .infinite s, .infinite t => s && !t
  | .infinite s, .finite _ _ => s
  | .finite _ _, .infinite t => !t
  | _, _ => false

/-- Numeric equality: a NaN is not equal to itself. -/
def eq : Binary64 → Binary64 → Bool
  | .finite a _, .finite b _ => decide (a = b)
  | .infinite s, .infinite t => s == t
  | _, _ => false

def le (x y : Binary64) : Bool := x.lt y || x.eq y

def isNaN : Binary64 → Bool
  | .nan => true
  | _ => false

def isInf : Binary64 → Bool
  | .infinite _ => true
  | _ => false

/-- The integer part, toward zero. -/
def toInt : Binary64 → ℤ
  | .finite a _ => if 0 ≤ a then ⌊a⌋ else ⌈a⌉
  | _ => 0

def trunc : Binary64 → Binary64
  | .finite a h => ofRat (Binary64.toInt (.finite a h))
  | x => x

/-- The value is a number no smaller than the bound. -/
def AtLeast (bound : ℚ) : Binary64 → Prop
  | .nan => False
  | .infinite negative => negative = false
  | .finite value _ => bound ≤ value

/-! ## Integers up to `2 ^ 53` compute exactly -/

theorem representable_natCast {n : ℕ} (small : n ≤ 2 ^ 53) : Representable (n : ℚ) := by
  refine ⟨round_natCast small, ?_⟩
  rw [abs_of_nonneg (Nat.cast_nonneg n)]
  calc (n : ℚ) ≤ 2 ^ 53 := by exact_mod_cast small
    _ < 2 ^ 1024 := pow_lt_pow_right₀ (by norm_num) (by norm_num)

theorem ofRat_of_representable {q : ℚ} (representable : Representable q) : ofRat q = .finite q representable := by
  simp [ofRat, representable.1, representable.2]

theorem ofNat_eq_finite {n : ℕ} (small : n ≤ 2 ^ 53) : ofNat n = .finite n (representable_natCast small) :=
  ofRat_of_representable _

theorem add_ofNat {m n : ℕ} (small : m + n ≤ 2 ^ 53) : (ofNat m).add (ofNat n) = ofNat (m + n) := by
  rw [ofNat_eq_finite (n := m) (by omega), ofNat_eq_finite (n := n) (by omega)]
  simp [add, ofNat]

theorem lt_ofNat {m n : ℕ} (left : m ≤ 2 ^ 53) (right : n ≤ 2 ^ 53) : (ofNat m).lt (ofNat n) = decide (m < n) := by
  rw [ofNat_eq_finite left, ofNat_eq_finite right]
  simp [lt]

theorem eq_ofNat {m n : ℕ} (left : m ≤ 2 ^ 53) (right : n ≤ 2 ^ 53) : (ofNat m).eq (ofNat n) = decide (m = n) := by
  rw [ofNat_eq_finite left, ofNat_eq_finite right]
  simp [eq]

theorem toInt_ofNat {n : ℕ} (small : n ≤ 2 ^ 53) : (ofNat n).toInt = n := by
  rw [ofNat_eq_finite small]
  simp [toInt]

theorem representable_intCast {n : ℤ} (small : |n| ≤ 2 ^ 53) : Representable (n : ℚ) := by
  refine ⟨round_intCast small, ?_⟩
  have bound : |(n : ℚ)| ≤ 2 ^ 53 := by exact_mod_cast small
  exact lt_of_le_of_lt bound (pow_lt_pow_right₀ (by norm_num) (by norm_num))

theorem ofInt_eq_finite {n : ℤ} (small : |n| ≤ 2 ^ 53) : ofInt n = .finite n (representable_intCast small) :=
  ofRat_of_representable _

section
variable {m n : ℤ} (left : |m| ≤ 2 ^ 53) (right : |n| ≤ 2 ^ 53)
include left right

theorem lt_ofInt : (ofInt m).lt (ofInt n) = decide (m < n) := by
  rw [ofInt_eq_finite left, ofInt_eq_finite right]
  simp [lt]

theorem eq_ofInt : (ofInt m).eq (ofInt n) = decide (m = n) := by
  rw [ofInt_eq_finite left, ofInt_eq_finite right]
  simp [eq]

theorem add_ofInt : (ofInt m).add (ofInt n) = ofInt (m + n) := by
  rw [ofInt_eq_finite left, ofInt_eq_finite right]
  simp [add, ofInt]

theorem sub_ofInt : (ofInt m).sub (ofInt n) = ofInt (m - n) := by
  have negated : (ofInt n).neg = ofInt (-n) := by
    rw [ofInt_eq_finite right]
    simp [neg, ofInt]
  rw [sub, negated, add_ofInt left (by rwa [abs_neg]), sub_eq_add_neg]

end

theorem toInt_ofInt {n : ℤ} (small : |n| ≤ 2 ^ 53) : (ofInt n).toInt = n := by
  rw [ofInt_eq_finite small]
  simp [toInt]

/-- A sum past the exact range keeps at least the bound of the range. -/
theorem ofRat_atLeast (above : 2 ^ 53 ≤ q) : AtLeast (2 ^ 53) (ofRat q) := by
  unfold ofRat
  split_ifs with small
  · exact zpow_le_round (k := 53) (by norm_num) (by exact_mod_cast above)
  · have positive : ¬ q < 0 := not_lt.mpr (le_trans (by positivity) above)
    simp [AtLeast, positive]

theorem add_ofNat_atLeast {m n : ℕ} (left : m ≤ 2 ^ 53) (right : n ≤ 2 ^ 53)
    (above : 2 ^ 53 ≤ m + n) : AtLeast (2 ^ 53) ((ofNat m).add (ofNat n)) := by
  rw [ofNat_eq_finite left, ofNat_eq_finite right]
  exact ofRat_atLeast (by exact_mod_cast above)

theorem AtLeast.add_ofNat {x : Binary64} (above : AtLeast (2 ^ 53) x) (small : n ≤ 2 ^ 53) :
    AtLeast (2 ^ 53) (x.add (ofNat n)) := by
  rw [ofNat_eq_finite small]
  cases x with
  | nan | infinite negative => exact above
  | finite value representable =>
    have bound : (2 : ℚ) ^ 53 ≤ value := above
    exact ofRat_atLeast (by linarith)

theorem AtLeast.lt_of_value_lt (above : AtLeast bound x) (below : limit < bound) :
    (Binary64.finite limit representable).lt x = true := by
  cases x with
  | nan => exact above.elim
  | infinite negative =>
    have positive : negative = false := above
    simp [lt, positive]
  | finite value held => simpa [lt] using lt_of_lt_of_le below above

/-! ## Sums of integers, past the exact range as well -/

/-- A double that computed the integer `n`: exactly while the integer is in
range, and without ever falling back below the range afterwards. -/
def Tracks (n : ℕ) (x : Binary64) : Prop := (n ≤ 2 ^ 53 → x = ofNat n) ∧ (2 ^ 53 < n → AtLeast (2 ^ 53) x)

theorem tracks_ofNat (n : ℕ) : Tracks n (ofNat n) :=
  ⟨fun _ => rfl, fun above => ofRat_atLeast (by exact_mod_cast above.le)⟩

theorem Tracks.add {m n : ℕ} {x : Binary64} (tracks : Tracks m x) (small : n ≤ 2 ^ 53) :
    Tracks (m + n) (x.add (ofNat n)) := by
  rcases le_or_gt m (2 ^ 53) with inside | outside
  · rw [tracks.1 inside]
    exact ⟨fun total => add_ofNat total, fun total => add_ofNat_atLeast inside small total.le⟩
  · exact ⟨fun total => absurd total (by omega), fun _ => (tracks.2 outside).add_ofNat small⟩

theorem Tracks.sum {numbers : List ℕ} (tracks : Tracks n x) (small : ∀ m ∈ numbers, m ≤ 2 ^ 53) :
    Tracks (n + numbers.sum) ((numbers.map ofNat).foldl Binary64.add x) := by
  induction numbers generalizing n x with
  | nil => simpa using tracks
  | cons m rest ih =>
    have step := tracks.add (small m (by simp))
    have later := ih step (fun k mem => small k (by simp [mem]))
    simpa [Nat.add_assoc] using later

/-- Adding nothing to a tracked integer leaves the double as it is. -/
theorem Tracks.add_zero {n : ℕ} (tracks : Tracks n x) : (x.add (ofNat 0)).eq x = true := by
  rcases le_or_gt n (2 ^ 53) with inside | outside
  · rw [tracks.1 inside, add_ofNat (by omega), Nat.add_zero, eq_ofNat inside inside]
    simp
  · have bound := tracks.2 outside
    rw [ofNat_eq_finite (by norm_num)]
    cases x with
    | nan => exact bound.elim
    | infinite negative => simp [Binary64.add, eq]
    | finite value representable => simp [Binary64.add, ofRat_of_representable representable, eq]

/-- Comparing a tracked integer with a limit decides the exact comparison, as
long as the limit is below the end of the exact range or the integer is in it. -/
theorem Tracks.lt_iff {n : ℕ} (tracks : Tracks n x) (decides : limit < 2 ^ 53 ∨ n ≤ 2 ^ 53) :
    (Binary64.finite limit representable).lt x = true ↔ limit < n := by
  rcases le_or_gt n (2 ^ 53) with inside | outside
  · rw [tracks.1 inside, ofNat_eq_finite inside]
    simp [lt]
  · have small : limit < 2 ^ 53 := decides.resolve_right (by omega)
    have past : (2 : ℚ) ^ 53 < n := by exact_mod_cast outside
    exact ⟨fun _ => small.trans past, fun _ => (tracks.2 outside).lt_of_value_lt small⟩

/-! ## Differences of ordered doubles -/

/-- A representable value is a whole number of its last bits. -/
theorem Representable.scaled (representable : Representable q) :
    q = roundEven (q / 2 ^ ulpExponent q) * 2 ^ ulpExponent q := representable.1.symm

theorem Representable.neg {q : ℚ} (representable : Representable q) : Representable (-q) := by
  refine ⟨?_, by rw [abs_neg]; exact representable.2⟩
  have flipped : -q = ((-roundEven (q / 2 ^ ulpExponent q) : ℤ) : ℚ) * 2 ^ ulpExponent q := by
    rw [Int.cast_neg, neg_mul, ← representable.scaled]
  refine round_of_scaled flipped ?_
  unfold ulpExponent
  rw [abs_neg]

/-- Every representable value is a multiple of the subnormal spacing. -/
theorem Representable.subnormal (representable : Representable q) : ∃ m : ℤ, q = m * 2 ^ (-1074 : ℤ) := by
  have spacing := ulpExponent_ge q
  refine ⟨roundEven (q / 2 ^ ulpExponent q) * 2 ^ (ulpExponent q + 1074).toNat, ?_⟩
  rw [Int.cast_mul, mul_assoc, Int.cast_pow, Int.cast_ofNat, ← zpow_natCast,
    ← zpow_add₀ (by norm_num), Int.toNat_of_nonneg (by omega),
    show ulpExponent q + 1074 + -1074 = ulpExponent q by ring]
  exact representable.scaled

/-- Rounding keeps a positive multiple of the subnormal spacing positive. -/
theorem round_pos {q : ℚ} {m : ℤ} (scaled : q = m * 2 ^ (-1074 : ℤ)) (positive : 0 < q) : 0 < round q := by
  rcases lt_or_ge (Int.log 2 |q|) (-1022) with subnormal | normal
  · have spacing : ulpExponent q = -1074 := max_eq_right (by omega)
    rwa [round_of_scaled scaled (le_of_eq spacing)]
  · exact lt_of_lt_of_le (by positivity) (zpow_le_round normal (zpow_log_le positive))

/-- Gradual underflow: a strictly larger double differs by a positive one. -/
theorem sub_le_zero_of_lt {x y : Binary64} (less : y.lt x = true) : (x.sub y).le (ofNat 0) = false := by
  have zero : ofNat 0 = .finite 0 (by simpa using representable_natCast (n := 0) (by norm_num)) := by
    simpa using ofNat_eq_finite (n := 0) (by norm_num)
  rw [zero]
  cases y with
  | nan => cases x <;> simp [lt] at less
  | infinite s =>
    cases x with
    | nan => simp [lt] at less
    | infinite t =>
      obtain ⟨rfl, rfl⟩ : s = true ∧ t = false := by simpa [lt] using less
      rfl
    | finite a representable =>
      obtain rfl : s = true := by simpa [lt] using less
      rfl
  | finite b held =>
    have negated : (Binary64.finite b held).neg = .finite (-b) held.neg := ofRat_of_representable held.neg
    rw [sub, negated]
    cases x with
    | nan => simp [lt] at less
    | infinite t =>
      obtain rfl : t = false := by simpa [lt] using less
      rfl
    | finite a representable =>
      have above : b < a := by simpa [lt] using less
      have positive : 0 < a + -b := by linarith
      obtain ⟨m, left⟩ := representable.subnormal
      obtain ⟨n, right⟩ := held.neg.subnormal
      have difference : 0 < round (a + -b) :=
        round_pos (m := m + n) (by rw [Int.cast_add, add_mul, ← left, ← right]) positive
      simp only [add, ofRat]
      split_ifs with small
      · simp [le, lt, eq, not_lt.mpr difference.le, difference.ne']
      · simp [le, lt, eq, not_lt.mpr positive.le]

end Binary64
