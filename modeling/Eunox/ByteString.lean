import Mathlib.Data.Nat.Digits.Lemmas
import Mathlib.Data.List.Basic

/-! Byte strings as programs handle them: literal text, decimal rendering of
integers, cutting at a separator, trimming white space, and when a joined
string determines the parts it was joined from. -/
namespace ByteString

abbrev Bytes := List UInt8

instance : LawfulBEq Bytes := inferInstance

/-- The bytes of a literal. -/
def lit (text : String) : Bytes := text.toUTF8.data.toList

def isDigit (byte : UInt8) : Bool := 48 ≤ byte && byte ≤ 57

def isHex (byte : UInt8) : Bool := isDigit byte || (65 ≤ byte && byte ≤ 70) || (97 ≤ byte && byte ≤ 102)

/-- The ASCII digit of a value below ten. -/
def digit (d : ℕ) : UInt8 := 48 + UInt8.ofNat d

/-- Decimal rendering, most significant digit first, no leading zero. -/
def decimal (n : ℕ) : Bytes :=
  if n = 0 then [48] else ((Nat.digits 10 n).map digit).reverse

def decimalInt : ℤ → Bytes
  | .ofNat n => decimal n
  | .negSucc n => 45 :: decimal (n + 1)

private theorem digit_toNat (small : d < 10) : (digit d).toNat = 48 + d := by
  simp only [digit, UInt8.toNat_add, UInt8.toNat_ofNat, UInt8.toNat_ofNat']
  omega

/-- Every byte of a rendered number is a digit. -/
theorem decimal_digits (mem : byte ∈ decimal n) : 48 ≤ byte.toNat ∧ byte.toNat ≤ 57 := by
  unfold decimal at mem
  split at mem
  · simp_all
  simp only [List.mem_reverse, List.mem_map] at mem
  obtain ⟨d, held, rfl⟩ := mem
  have small := Nat.digits_lt_base (by norm_num : 1 < 10) held
  rw [digit_toNat small]
  omega

/-- The number that digits spell. -/
private def spelledNat (s : Bytes) : ℕ := Nat.ofDigits 10 (s.reverse.map fun byte => byte.toNat - 48)

private theorem spelledNat_decimal (n : ℕ) : spelledNat (decimal n) = n := by
  unfold spelledNat decimal
  split
  · simp_all
  rw [List.reverse_reverse, List.map_map]
  have same : ∀ d ∈ Nat.digits 10 n, ((fun byte => byte.toNat - 48) ∘ digit) d = d := fun d held => by
    simp [digit_toNat (Nat.digits_lt_base (by norm_num) held)]
  rw [List.map_congr_left same, List.map_id', Nat.ofDigits_digits]

theorem decimal_injective : Function.Injective decimal := Function.LeftInverse.injective spelledNat_decimal

theorem decimalInt_injective : Function.Injective decimalInt := by
  have apart (m n : ℕ) : decimal m ≠ 45 :: decimal (n + 1) := fun same =>
    absurd (decimal_digits (same ▸ List.mem_cons_self)).1 (by decide)
  intro m n same
  cases m with
  | ofNat m =>
    cases n with
    | ofNat n => exact congrArg Int.ofNat (decimal_injective same)
    | negSucc n => exact absurd same (apart m n)
  | negSucc m =>
    cases n with
    | ofNat n => exact absurd same.symm (apart n m)
    | negSucc n => exact congrArg Int.negSucc (Nat.succ.inj (decimal_injective (List.cons.inj same).2))

/-- A rendered number never contains a byte that is neither digit nor sign. -/
theorem not_mem_decimalInt (outside : 57 < byte.toNat) : byte ∉ decimalInt n := by
  intro mem
  cases n with
  | ofNat n => exact absurd (decimal_digits mem).2 (by omega)
  | negSucc n =>
    rcases List.mem_cons.mp mem with rfl | mem
    · simp at outside
    · exact absurd (decimal_digits mem).2 (by omega)

/-- Decimal rendering filled up with zeros to a width, the sign counted. -/
def padded (width : ℕ) : ℤ → Bytes
  | .ofNat n => List.replicate (width - (decimal n).length) 48 ++ decimal n
  | .negSucc n => 45 :: (List.replicate (width - 1 - (decimal (n + 1)).length) 48 ++ decimal (n + 1))

private theorem padded_eq_digits {width n : ℕ} (nonempty : width ≠ 0) :
    padded width n = ((Nat.digitsAppend 10 width n).map digit).reverse := by
  rw [show padded width (n : ℤ) = List.replicate (width - (decimal n).length) 48 ++ decimal n from rfl]
  unfold Nat.digitsAppend decimal
  by_cases zero : n = 0
  · obtain ⟨width, rfl⟩ := Nat.exists_eq_succ_of_ne_zero nonempty
    simpa [zero, digit] using (List.replicate_succ' (n := width) (a := (48 : UInt8))).symm
  · simp [zero, digit]

theorem padded_length {width n : ℕ} (nonempty : width ≠ 0) (small : n < 10 ^ width) :
    (padded width n).length = width := by
  rw [padded_eq_digits nonempty]
  simp [Nat.length_digitsAppend (by norm_num) width small]

/-- Digits of one length compare as the numbers they write. -/
private theorem digits_lt {left right : List ℕ} (same : left.length = right.length)
    (leftSmall : ∀ d ∈ left, d < 10) (rightSmall : ∀ d ∈ right, d < 10)
    (less : Nat.ofDigits 10 left.reverse < Nat.ofDigits 10 right.reverse) :
    left.map digit < right.map digit := by
  induction left generalizing right with
  | nil =>
    obtain rfl := List.length_eq_zero_iff.mp same.symm
    simp at less
  | cons a rest ih =>
    cases right with
    | nil => simp at same
    | cons b tail =>
      have lengths : rest.length = tail.length := by simpa using same
      rw [List.map_cons, List.map_cons, List.cons_lt_cons_iff]
      simp only [List.reverse_cons, Nat.ofDigits_append, List.length_reverse, Nat.ofDigits_singleton, lengths] at less
      rcases lt_trichotomy a b with below | rfl | above
      · refine .inl (UInt8.lt_iff_toNat_lt.mpr ?_)
        rw [digit_toNat (leftSmall a (by simp)), digit_toNat (rightSmall b (by simp))]
        omega
      · exact .inr ⟨rfl, ih lengths (fun d held => leftSmall d (by simp [held]))
          (fun d held => rightSmall d (by simp [held])) (by omega)⟩
      · have bound : Nat.ofDigits 10 tail.reverse < 10 ^ tail.length := by
          have := Nat.ofDigits_lt_base_pow_length (b := 10) (l := tail.reverse) (by norm_num)
            (fun d held => rightSmall d (by simp [List.mem_reverse.mp held]))
          simpa using this
        have gap : 10 ^ tail.length * b + 10 ^ tail.length ≤ 10 ^ tail.length * a := by
          exact Nat.mul_le_mul_left _ above
        omega

/-- Numbers filled up to one width compare as the numbers do. -/
theorem padded_lt {width m n : ℕ} (less : m < n) (small : n < 10 ^ width) : padded width m < padded width n := by
  have nonempty : width ≠ 0 := by
    rintro rfl
    omega
  have below := less.trans small
  rw [padded_eq_digits nonempty, padded_eq_digits nonempty, ← List.map_reverse, ← List.map_reverse]
  have digits {k : ℕ} (fits : k < 10 ^ width) : ∀ d ∈ (Nat.digitsAppend 10 width k).reverse, d < 10 := fun d held =>
    Nat.lt_of_mem_digitsAppend (by norm_num) width d (List.mem_reverse.mp held)
  apply digits_lt
  · simp [Nat.length_digitsAppend (by norm_num) width small, Nat.length_digitsAppend (by norm_num) width below]
  · exact digits below
  · exact digits small
  · simpa [Nat.digitsAppend, Nat.ofDigits_replicate_zero, Nat.ofDigits_digits] using less

/-- Strings of one length that differ decide a comparison whatever follows. -/
theorem append_lt_of_lt (less : left < right) (same : left.length = right.length) (leftTail rightTail : Bytes) :
    left ++ leftTail < right ++ rightTail := by
  induction left generalizing right with
  | nil =>
    obtain rfl := List.length_eq_zero_iff.mp same.symm
    exact absurd less (by simp)
  | cons a rest ih =>
    cases right with
    | nil => simp at same
    | cons b tail =>
      rcases List.cons_lt_cons_iff.mp less with below | ⟨rfl, later⟩
      · exact List.cons_lt_cons_iff.mpr (.inl below)
      · exact List.cons_lt_cons_iff.mpr (.inr ⟨rfl, ih later (by simpa using same)⟩)

/-- What follows a given start, if the string has it. -/
def cutPrefix (front : Bytes) (s : Bytes) : Option Bytes :=
  if front <+: s then some (s.drop front.length) else none

@[simp] theorem cutPrefix_append (front rest : Bytes) : cutPrefix front (front ++ rest) = some rest := by
  simp [cutPrefix]

theorem cutPrefix_eq_some : cutPrefix front s = some rest ↔ s = front ++ rest := by
  constructor
  · intro found
    unfold cutPrefix at found
    split at found
    · rename_i start
      obtain ⟨tail, rfl⟩ := start
      simp only [List.drop_left, Option.some.injEq] at found
      rw [found]
    · cases found
  · rintro rfl
    exact cutPrefix_append front rest

/-- The parts before and after the first `separator`, as `strings.Cut` with a
one-byte separator. -/
def cut (separator : UInt8) : Bytes → Option (Bytes × Bytes)
  | [] => none
  | byte :: rest =>
    if byte = separator then some ([], rest)
    else (cut separator rest).map fun parts => (byte :: parts.1, parts.2)

theorem cut_eq_some : cut separator s = some (before, after) ↔
      s = before ++ separator :: after ∧ separator ∉ before := by
  induction s generalizing before with
  | nil => simp [cut]
  | cons byte rest ih =>
    by_cases same : byte = separator
    · subst byte
      cases before <;> simp +contextual [cut, eq_comm]
    · rw [cut, if_neg same, Option.map_eq_some_iff]
      cases before <;> grind

/-- Joining on a byte absent from the heads is injective in both parts. -/
theorem append_separator_inj_head {separator : UInt8} (left : separator ∉ x) (right : separator ∉ y)
    (same : x ++ separator :: a = y ++ separator :: b) : x = y ∧ a = b :=
  Prod.mk.inj (Option.some.inj ((cut_eq_some.mpr ⟨rfl, left⟩).symm.trans (cut_eq_some.mpr ⟨same, right⟩)))

/-- Joining on a byte absent from the tails is injective in both parts. -/
theorem append_separator_inj {separator : UInt8} (left : separator ∉ a) (right : separator ∉ b)
    (same : x ++ separator :: a = y ++ separator :: b) : x = y ∧ a = b := by
  have mirrored : a.reverse ++ separator :: x.reverse = b.reverse ++ separator :: y.reverse := by
    simpa using congrArg List.reverse same
  obtain ⟨tails, heads⟩ := append_separator_inj_head (by simpa using left) (by simpa using right) mirrored
  exact ⟨List.reverse_injective heads, List.reverse_injective tails⟩

theorem cut_eq_none : cut separator s = none ↔ separator ∉ s := by
  induction s with
  | nil => simp [cut]
  | cons byte rest ih =>
    by_cases same : byte = separator
    · simp [cut, same]
    · simp [cut, same, ih, Ne.symm same]

/-- The UTF-8 encodings of the characters `unicode.IsSpace` accepts. -/
def spaces : List Bytes :=
  [[0x09], [0x0a], [0x0b], [0x0c], [0x0d], [0x20], [0xc2, 0x85], [0xc2, 0xa0],
    [0xe1, 0x9a, 0x80], [0xe2, 0x80, 0x80], [0xe2, 0x80, 0x81], [0xe2, 0x80, 0x82],
    [0xe2, 0x80, 0x83], [0xe2, 0x80, 0x84], [0xe2, 0x80, 0x85], [0xe2, 0x80, 0x86],
    [0xe2, 0x80, 0x87], [0xe2, 0x80, 0x88], [0xe2, 0x80, 0x89], [0xe2, 0x80, 0x8a],
    [0xe2, 0x80, 0xa8], [0xe2, 0x80, 0xa9], [0xe2, 0x80, 0xaf], [0xe2, 0x81, 0x9f],
    [0xe3, 0x80, 0x80]]

/-- Removes leading tokens, at most `fuel` of them. -/
def stripTokens (tokens : List Bytes) : ℕ → Bytes → Bytes
  | 0, s => s
  | fuel + 1, s =>
    match tokens.find? fun token => token.isPrefixOf s with
    | some token => stripTokens tokens fuel (s.drop token.length)
    | none => s

def trimLeft (s : Bytes) : Bytes := stripTokens spaces s.length s

/-- A character ends the string exactly when its reversed encoding starts the
reversed string. -/
def trimRight (s : Bytes) : Bytes := (stripTokens (spaces.map List.reverse) s.length s.reverse).reverse

/-- `strings.TrimSpace`. -/
def trimSpace (s : Bytes) : Bytes := trimRight (trimLeft s)

/-- No token starts the string. -/
def Bare (tokens : List Bytes) (s : Bytes) : Prop := ∀ token ∈ tokens, ¬ token <+: s

private theorem find_token_none : (tokens.find? fun token => token.isPrefixOf s) = none ↔ Bare tokens s := by
  simp [Bare]

theorem stripTokens_bare_self (fuel : ℕ) (bare : Bare tokens s) : stripTokens tokens fuel s = s := by
  cases fuel with
  | zero => rfl
  | succ fuel => simp [stripTokens, find_token_none.mpr bare]

theorem stripTokens_suffix (tokens : List Bytes) (fuel : ℕ) (s : Bytes) : stripTokens tokens fuel s <:+ s := by
  induction fuel generalizing s with
  | zero => exact List.suffix_refl s
  | succ fuel ih =>
    simp only [stripTokens]
    split
    · exact (ih _).trans (List.drop_suffix _ _)
    · exact List.suffix_refl s

theorem stripTokens_bare (nonempty : [] ∉ tokens) (enough : s.length ≤ fuel) :
    Bare tokens (stripTokens tokens fuel s) := by
  induction fuel generalizing s with
  | zero =>
    obtain rfl : s = [] := List.eq_nil_of_length_eq_zero (by omega)
    intro token mem starts
    obtain rfl : token = [] := List.prefix_nil.mp starts
    exact nonempty mem
  | succ fuel ih =>
    simp only [stripTokens]
    split
    · rename_i token found
      have positive : 0 < token.length := by
        rcases token with _ | ⟨byte, rest⟩
        · exact absurd (List.mem_of_find?_eq_some found) nonempty
        · simp
      exact ih (by simp only [List.length_drop]; omega)
    · rename_i absent
      exact find_token_none.mp absent

abbrev NoLeadingSpace (s : Bytes) : Prop := Bare spaces s

abbrev NoTrailingSpace (s : Bytes) : Prop := Bare (spaces.map List.reverse) s.reverse

theorem trimRight_noTrailing (s : Bytes) : NoTrailingSpace (trimRight s) := by
  unfold NoTrailingSpace trimRight
  rw [List.reverse_reverse]
  exact stripTokens_bare (by decide) (by simp)

/-- What is cut from the end leaves the start alone. -/
theorem trimRight_noLeading (bare : NoLeadingSpace s) : NoLeadingSpace (trimRight s) := by
  intro token mem starts
  refine bare token mem (starts.trans ?_)
  unfold trimRight
  rw [← List.reverse_suffix, List.reverse_reverse]
  exact stripTokens_suffix _ _ _

theorem trimSpace_noLeading (s : Bytes) : NoLeadingSpace (trimSpace s) :=
  trimRight_noLeading (stripTokens_bare (by decide) le_rfl)

theorem trimSpace_noTrailing (s : Bytes) : NoTrailingSpace (trimSpace s) := trimRight_noTrailing _

theorem trimSpace_of_bare (leading : NoLeadingSpace s) (trailing : NoTrailingSpace s) : trimSpace s = s := by
  unfold trimSpace trimLeft trimRight
  rw [stripTokens_bare_self _ leading, stripTokens_bare_self _ trailing, List.reverse_reverse]

theorem bare_of_head (solid : [] ∉ tokens) (absent : ∀ token ∈ tokens, byte ∉ token) : Bare tokens (byte :: rest) := by
  intro token mem starts
  cases token with
  | nil => exact solid mem
  | cons head more =>
    have same := (List.cons_prefix_cons.mp starts).1
    exact absent _ mem (same ▸ (.head _))

theorem noTrailing_of_last (trailing : ∀ token ∈ spaces, last ∉ token) (s : Bytes) :
    NoTrailingSpace (s ++ [last]) := by
  have reversed : ∀ token ∈ spaces.map List.reverse, last ∉ token := by
    intro token held
    obtain ⟨plain, listed, rfl⟩ := List.mem_map.mp held
    simpa using trailing plain listed
  unfold NoTrailingSpace
  rw [List.reverse_append]
  exact bare_of_head (by decide) reversed

/-- A character of one byte that no other token starts with is stripped. -/
theorem stripTokens_gap
    (found : ∀ byte ∈ gap, ∀ rest : Bytes, (tokens.find? fun token => token.isPrefixOf (byte :: rest)) = some [byte])
    (bare : Bare tokens core) (room : gap.length ≤ fuel) : stripTokens tokens fuel (gap ++ core) = core := by
  induction gap generalizing fuel with
  | nil => exact stripTokens_bare_self fuel bare
  | cons byte gap ih =>
    obtain ⟨fuel, rfl⟩ := Nat.exists_eq_succ_of_ne_zero (show fuel ≠ 0 by simp at room; omega)
    rw [List.cons_append, stripTokens, found byte (.head _)]
    exact ih (fun other mem => found other (.tail _ mem)) (by simpa using room)

/-- A byte of no token is not stripped. -/
theorem mem_stripTokens (solid : ∀ token ∈ tokens, byte ∉ token) (fuel : ℕ) (mem : byte ∈ s) :
    byte ∈ stripTokens tokens fuel s := by
  induction fuel generalizing s with
  | zero => exact mem
  | succ fuel ih =>
    rw [stripTokens]
    split
    · rename_i token found
      have leads : token.isPrefixOf s = true := by simpa using List.find?_some found
      obtain ⟨rest, rfl⟩ := List.isPrefixOf_iff_prefix.mp leads
      refine ih ?_
      rw [List.drop_left]
      exact (List.mem_append.mp mem).resolve_left (solid token (List.mem_of_find?_eq_some found))
    · exact mem

theorem mem_trimSpace (solid : ∀ token ∈ spaces, byte ∉ token) (mem : byte ∈ s) : byte ∈ trimSpace s := by
  rw [trimSpace, trimRight, List.mem_reverse]
  refine mem_stripTokens (List.forall_mem_map.mpr fun token space => ?_) _ ?_
  · rw [List.mem_reverse]
    exact solid token space
  rw [List.mem_reverse]
  exact mem_stripTokens solid _ mem

theorem trimSpace_idempotent (s : Bytes) : trimSpace (trimSpace s) = trimSpace s :=
  trimSpace_of_bare (trimSpace_noLeading s) (trimSpace_noTrailing s)

/-! Bytes and loops over them. -/

theorem forall_bytes {p : UInt8 → Prop} (all : ∀ n < 256, p (UInt8.ofNat n)) (byte : UInt8) : p byte := by
  have here := all byte.toNat byte.toNat_lt_size
  rwa [UInt8.ofNat_toNat] at here

/-- A loop over what is left of a string does not depend on a bound that covers it. -/
theorem loop_bound {β : Type} {f : ℕ → Bytes → β} (nil : ∀ bound bound', f bound [] = f bound' [])
    (step : ∀ bound bound' byte rest, (∀ t : Bytes, t.length ≤ rest.length → f bound t = f bound' t) →
      f (bound + 1) (byte :: rest) = f (bound' + 1) (byte :: rest))
    (room : s.length ≤ bound) (room' : s.length ≤ bound') : f bound s = f bound' s := by
  induction bound generalizing bound' s with
  | zero =>
    obtain rfl := List.length_eq_zero_iff.mp (Nat.le_zero.mp room)
    exact nil ..
  | succ bound ih =>
    cases s with
    | nil => exact nil ..
    | cons byte rest =>
      obtain ⟨bound', rfl⟩ := Nat.exists_eq_add_one.mpr (Nat.lt_of_lt_of_le (Nat.succ_pos _) room')
      rw [List.length_cons, Nat.add_le_add_iff_right] at room room'
      exact step bound bound' byte rest fun t less => ih (less.trans room) (less.trans room')

end ByteString
