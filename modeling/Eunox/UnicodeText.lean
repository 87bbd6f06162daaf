import Eunox.JsonQuote

/-! Unicode text: code points that are no surrogates, and the bytes they are written in. -/
namespace Eunox
open ByteString JsonText PathPattern Utf8

/-- A code point that is no surrogate. -/
def Scalar (rune : ℕ) : Prop := rune < 0xD800 ∨ 0xE000 ≤ rune ∧ rune ≤ 0x10FFFF

theorem encodes_scalar (scalar : Scalar rune) : Encodes (encodeRune rune) rune := by
  have byte {n : ℕ} : (UInt8.ofNat n).toNat = n % 256 := UInt8.toNat_ofNat'
  have follows {n : ℕ} : continuation (UInt8.ofNat (0x80 + n % 64)) = true := by
    rw [continuation_iff, byte]
    omega
  unfold Scalar at scalar
  unfold encodeRune
  by_cases ascii : rune < 0x80
  · have one := encodes_ascii (show UInt8.ofNat rune < 0x80 by
      rw [UInt8.lt_iff_toNat_lt, byte]
      exact (Nat.mod_le _ _).trans_lt ascii)
    rw [byte, Nat.mod_eq_of_lt (by omega)] at one
    rwa [if_pos ascii]
  by_cases short : rune < 0x800
  · rw [if_neg ascii, if_pos short]
    convert encodes_two _ _ follows using 1 <;> simp only [tailBits, byte] <;> omega
  have code : ¬ (((0xD800 ≤ rune && rune ≤ 0xDFFF) || 0x10FFFF < rune) = true) := by
    simp only [Bool.or_eq_true, Bool.and_eq_true, decide_eq_true_eq]
    omega
  by_cases plane : rune < 0x10000
  · rw [if_neg ascii, if_neg short, if_neg code, if_pos plane]
    convert encodes_three _ _ follows _ _ follows using 1 <;> simp only [tailBits, byte] <;> omega
  · rw [if_neg ascii, if_neg short, if_neg code, if_neg plane]
    convert encodes_four _ _ follows _ _ follows follows using 1 <;> simp only [tailBits, byte] <;> omega

/-- The decoder finds nothing but scalars. -/
theorem scalar_of_encodes (encodes : Encodes word rune) : Scalar rune := by
  by_contra outside
  unfold Scalar at outside
  have error : encodeRune rune = [0xEF, 0xBF, 0xBD] := by
    unfold encodeRune
    rw [if_neg (by omega), if_neg (by omega), if_pos (by simp; omega)]
  have decoded := encodes.decodes []
  rw [← encodes.encodes, error] at decoded
  have same : runeError = rune := congrArg Prod.fst decoded
  rw [← same] at outside
  revert outside
  decide

/-- The bytes of a text. -/
def utf8 (text : List ℕ) : Bytes := (text.map encodeRune).flatten

@[simp] theorem utf8_cons (rune : ℕ) (text : List ℕ) : utf8 (rune :: text) = encodeRune rune ++ utf8 text := rfl

/-- The runes a loop over a string sees. -/
def runesWithin : ℕ → Bytes → List ℕ
  | 0, _ => []
  | _ + 1, [] => []
  | bound + 1, byte :: rest =>
    (decodeRune (byte :: rest)).1 :: runesWithin bound ((byte :: rest).drop (decodeRune (byte :: rest)).2)

def runes (s : Bytes) : List ℕ := runesWithin s.length s

theorem runesWithin_bound (room : s.length ≤ bound) (room' : s.length ≤ bound') :
    runesWithin bound s = runesWithin bound' s := by
  refine loop_bound (fun bound bound' => ?_) (fun bound bound' byte rest shorter => ?_) room room'
  · cases bound <;> cases bound' <;> rfl
  · have size := decodeRune_size byte rest
    rw [runesWithin, runesWithin, shorter _ (by simp; omega)]

theorem runes_cons (byte : UInt8) (rest : Bytes) : runes (byte :: rest) =
      (decodeRune (byte :: rest)).1 :: runes ((byte :: rest).drop (decodeRune (byte :: rest)).2) := by
  have size := decodeRune_size byte rest
  rw [runes, List.length_cons, runesWithin]
  congr 1
  exact runesWithin_bound (by simp; omega) le_rfl

theorem runes_append (encodes : Encodes word rune) (rest : Bytes) : runes (word ++ rest) = rune :: runes rest := by
  obtain ⟨lead, tail, rfl⟩ := List.exists_cons_of_ne_nil encodes.nonempty
  rw [List.cons_append, runes_cons, ← List.cons_append, encodes.decodes rest, List.drop_left]

/-- A text is decoded again rune by rune. -/
theorem runes_utf8 (scalars : ∀ rune ∈ text, Scalar rune) : runes (utf8 text) = text := by
  induction text with
  | nil => rfl
  | cons rune text ih =>
    rw [utf8_cons, runes_append (encodes_scalar (scalars rune (.head _))),
      ih fun rune mem => scalars rune (.tail _ mem)]

theorem utf8_inj (first : ∀ rune ∈ left, Scalar rune) (second : ∀ rune ∈ right, Scalar rune)
    (same : utf8 left = utf8 right) : left = right := by
  rw [← runes_utf8 first, same, runes_utf8 second]

theorem encodeRune_ascii (ascii : byte.toNat < 0x80) : encodeRune byte.toNat = [byte] := by
  simp [encodeRune, ascii]

/-- A word past ASCII has no byte in it. -/
theorem high_of_encodes (encodes : Encodes word rune) (high : 0x80 ≤ rune) : ∀ byte ∈ word, 0x80 ≤ byte := by
  obtain ⟨lead, tail, rfl⟩ := List.exists_cons_of_ne_nil encodes.nonempty
  have notASCII : ¬ lead < 0x80 := by
    intro ascii
    have decoded := encodes.decodes []
    simp only [List.append_nil, decodeRune_ascii _ ascii, Prod.mk.injEq] at decoded
    have small := UInt8.lt_iff_toNat_lt.mp ascii
    have : (0x80 : UInt8).toNat = 0x80 := rfl
    omega
  exact List.forall_mem_cons.mpr ⟨UInt8.not_lt.mp notASCII, fun byte => encodes.tail_high⟩

/-- An ASCII character, or a word of high bytes. -/
theorem encodeRune_cases (scalar : Scalar rune) :
    (∃ byte : UInt8, byte < 0x80 ∧ byte.toNat = rune ∧ encodeRune rune = [byte]) ∨
      0x80 ≤ rune ∧ ∀ byte ∈ encodeRune rune, 0x80 ≤ byte := by
  by_cases ascii : rune < 0x80
  · have value : (UInt8.ofNat rune).toNat = rune := by simp; omega
    refine .inl ⟨UInt8.ofNat rune, ?_, value, by simp [encodeRune, ascii]⟩
    rw [UInt8.lt_iff_toNat_lt, value]
    exact ascii
  · exact .inr ⟨Nat.le_of_not_lt ascii, high_of_encodes (encodes_scalar scalar) (Nat.le_of_not_lt ascii)⟩

/-! Valid strings, rune by rune. -/

/-- The first rune of a valid string. -/
theorem valid_cons (valid : Valid (byte :: rest)) :
    ∃ word more rune, byte :: rest = word ++ more ∧ Encodes word rune ∧ Valid more := by
  generalize whole : byte :: rest = s at valid
  cases valid with
  | nil => simp at whole
  | rune encodes later => exact ⟨_, _, _, rfl, encodes, later⟩

theorem valid_tail (valid : Valid (byte :: rest)) (ascii : byte < 0x80) : Valid rest := by
  obtain ⟨word, more, rune, whole, encodes, later⟩ := valid_cons valid
  have decoded := encodes.decodes more
  rw [← whole] at decoded
  simp only [decodeRune_ascii _ ascii, Prod.mk.injEq] at decoded
  obtain ⟨only, rfl⟩ := List.length_eq_one_iff.mp decoded.2.symm
  obtain ⟨-, rfl⟩ := List.cons.inj whole
  exact later

end Eunox
