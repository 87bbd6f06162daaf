import Eunox.JsonSpelling

/-! Quoting a string and reading it back. On valid UTF-8 the two are inverse. -/
namespace JsonText
open ByteString PathPattern Utf8

/-! The bounds of the loops. -/

/-- A byte that is no backslash. -/
theorem unquoteFrom_byte (bound : ℕ) (rest : Bytes) (plain : byte ≠ 92) :
    unquoteFrom (bound + 1) (byte :: rest) = if byte < 0x80 then byte :: unquoteFrom bound rest
      else encodeRune (decodeRune (byte :: rest)).1 ++
        unquoteFrom bound ((byte :: rest).drop (decodeRune (byte :: rest)).2) :=
  unquoteFrom.eq_5 _ _ _ (fun _ escape => absurd escape plain) fun _ _ escape => absurd escape plain

theorem unquote_eq (bound : ℕ) (s : Bytes) (room : s.length ≤ bound) : unquoteFrom bound s = unquote s := by
  refine loop_bound (fun bound bound' => ?_) (fun bound bound' byte rest shorter => ?_) room le_rfl
  · cases bound <;> cases bound' <;> rfl
  · by_cases escape : byte = 92
    · subst escape
      cases rest with
      | nil => simp [unquoteFrom, shorter]
      | cons escaped rest =>
        by_cases unicode : escaped = 117
        · subst unicode
          simp only [unquoteFrom]
          rw [shorter (rest.drop 4) (by simp; omega), shorter ((rest.drop 4).drop 6) (by simp; omega)]
        · rw [unquoteFrom.eq_4 _ _ _ unicode, unquoteFrom.eq_4 _ _ _ unicode, shorter rest (by simp)]
    · have size := decodeRune_size byte rest
      rw [unquoteFrom_byte _ _ escape, unquoteFrom_byte _ _ escape, shorter rest le_rfl, shorter _ (by simp; omega)]

theorem quote_eq (bound : ℕ) (s : Bytes) (room : s.length ≤ bound) : quoteFrom bound s = quote s := by
  refine loop_bound (fun bound bound' => ?_) (fun bound bound' byte rest shorter => ?_) room le_rfl
  · cases bound <;> cases bound' <;> rfl
  · have size := decodeRune_size byte rest
    simp only [quoteFrom]
    rw [shorter rest le_rfl, shorter _ (by simp; omega)]

/-! Reading piece by piece. -/

variable (rest : Bytes)

theorem unquote_escape (simple : escaped ≠ 117) :
    unquote (92 :: escaped :: rest) = unescape escaped :: unquote rest := by
  change unquoteFrom (rest.length + 1 + 1) (92 :: escaped :: rest) = _
  rw [unquoteFrom.eq_4 _ _ _ simple, unquote_eq _ _ (by omega)]

/-- A `\u` escape that is no surrogate. -/
theorem unquote_unicode (lone : (0xD800 ≤ hexRune [a, b, c, d] && hexRune [a, b, c, d] ≤ 0xDFFF) = false) :
    unquote (92 :: 117 :: a :: b :: c :: d :: rest) = encodeRune (hexRune [a, b, c, d]) ++ unquote rest := by
  change unquoteFrom (rest.length + 1 + 1 + 1 + 1 + 1 + 1) _ = _
  refine (if_neg fun pair => Bool.false_ne_true (lone.symm.trans pair)).trans ?_
  change encodeRune (hexRune [a, b, c, d]) ++ unquoteFrom (rest.length + 5) rest = _
  rw [unquote_eq _ _ (by omega)]

theorem unquote_ascii (ascii : byte < 0x80) (plain : byte ≠ 92) :
    unquote (byte :: rest) = byte :: unquote rest := by
  change unquoteFrom (rest.length + 1) (byte :: rest) = _
  rw [unquoteFrom_byte _ _ plain, if_pos ascii]
  rfl

/-- A rune past ASCII is read as it is. -/
theorem unquote_rune (encodes : Encodes word rune) (high : ∀ byte ∈ word.head?, ¬ byte < 0x80) :
    unquote (word ++ rest) = word ++ unquote rest := by
  obtain ⟨lead, tail, rfl⟩ := List.exists_cons_of_ne_nil encodes.nonempty
  have notASCII : ¬ lead < 0x80 := high lead rfl
  have plain : lead ≠ 92 := by
    rintro rfl
    exact notASCII (by decide)
  have decodes := encodes.decodes rest
  rw [List.cons_append] at decodes ⊢
  change unquoteFrom ((tail ++ rest).length + 1) (lead :: (tail ++ rest)) = _
  rw [unquoteFrom_byte _ _ plain, if_neg notASCII, decodes, encodes.encodes, unquote_eq _ _ (by simp)]
  simp

/-! The round trip. -/

theorem unquote_quoteByte (ascii : byte < 0x80) :
    unquote (quoteByte byte ++ rest) = byte :: unquote rest := by
  unfold quoteByte
  split_ifs with safe quoted letter letter letter letter letter
  · refine unquote_ascii rest ascii ?_
    rintro rfl
    exact absurd safe (by decide)
  · simp only [Bool.or_eq_true, decide_eq_true_eq] at quoted
    rcases quoted with rfl | rfl <;> exact unquote_escape rest (by decide)
  iterate 5
    subst letter
    exact unquote_escape rest (by decide)
  · have digits : ∀ n < 128, hexRune [48, 48, hexDigit (n / 16), hexDigit (n % 16)] = n := by decide
    have small : byte.toNat < 128 := UInt8.lt_iff_toNat_lt.mp ascii
    have spelled := digits _ small
    have read := unquote_unicode (a := 48) (b := 48) (c := hexDigit (byte.toNat / 16))
      (d := hexDigit (byte.toNat % 16)) rest (by simp [spelled]; omega)
    rw [spelled] at read
    refine Eq.trans read ?_
    simp [encodeRune, small]

theorem quote_ascii (ascii : byte < 0x80) : quote (byte :: rest) = quoteByte byte ++ quote rest := by
  change quoteFrom (rest.length + 1) (byte :: rest) = _
  rw [quoteFrom, if_pos ascii]
  rfl

/-- How a rune past ASCII is quoted. -/
def quoteRune (word : Bytes) (rune : ℕ) : Bytes :=
  if rune = 0x2028 then lit "\\u2028" else if rune = 0x2029 then lit "\\u2029" else word

theorem quote_rune (encodes : Encodes word rune) (high : ∀ byte ∈ word.head?, ¬ byte < 0x80) :
    quote (word ++ rest) = quoteRune word rune ++ quote rest := by
  obtain ⟨lead, tail, rfl⟩ := List.exists_cons_of_ne_nil encodes.nonempty
  have notASCII : ¬ lead < 0x80 := high lead rfl
  have decodes := encodes.decodes rest
  have proper := encodes.proper
  rw [List.cons_append] at decodes ⊢
  change quoteFrom ((tail ++ rest).length + 1) (lead :: (tail ++ rest)) = _
  simp only [quoteFrom, if_neg notASCII, decodes]
  rw [if_neg (by simpa using proper), quote_eq _ _ (by simp)]
  simp [quoteRune]

theorem unquote_quoteRune (encodes : Encodes word rune) (high : ∀ byte ∈ word.head?, ¬ byte < 0x80) :
    unquote (quoteRune word rune ++ rest) = word ++ unquote rest := by
  have separator {digit : UInt8} (spelled : hexRune [50, 48, 50, digit] = rune) (lone : rune < 0xD800) :
      unquote (92 :: 117 :: 50 :: 48 :: 50 :: digit :: rest) = word ++ unquote rest := by
    rw [unquote_unicode rest (by rw [spelled]; simp; omega), spelled, encodes.encodes]
  unfold quoteRune
  split_ifs with line paragraph
  · exact separator (by rw [line]; decide) (by omega)
  · exact separator (by rw [paragraph]; decide) (by omega)
  · exact unquote_rune rest encodes high

/-- A word is one ASCII byte or starts past ASCII. -/
theorem encodes_cases (encodes : Encodes word rune) :
    (∃ byte : UInt8, byte < 0x80 ∧ word = [byte]) ∨ ∀ byte ∈ word.head?, ¬ byte < 0x80 := by
  obtain ⟨lead, tail, rfl⟩ := List.exists_cons_of_ne_nil encodes.nonempty
  by_cases ascii : lead < 0x80
  · refine .inl ⟨lead, ascii, ?_⟩
    have decodes := congrArg Prod.snd (encodes.decodes [])
    simp only [List.append_nil, decodeRune_ascii _ ascii, List.length_cons] at decodes
    rw [List.length_eq_zero_iff.mp (by omega : tail.length = 0)]
  · exact .inr (by simpa using ascii)

theorem unquote_quote (valid : Valid s) : unquote (quote s) = s := by
  induction valid with
  | nil => rfl
  | @rune word rest rune encodes _ ih =>
    rcases encodes_cases encodes with ⟨byte, ascii, rfl⟩ | high
    · rw [List.singleton_append, quote_ascii rest ascii, unquote_quoteByte _ ascii, ih]
    · rw [quote_rune rest encodes high, unquote_quoteRune _ encodes high, ih]

end JsonText
