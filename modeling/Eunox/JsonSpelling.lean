import Eunox.Utf8
import Eunox.JsonRoundTrip

/-! What `json.Marshal` spells is well formed: quoted strings, decimal numbers and
compacted raw values. -/
namespace JsonText
open ByteString PathPattern Utf8

/-! String bodies. -/

theorem Spelled.append (first : Spelled left) (second : Spelled right) : Spelled (left ++ right) := by
  induction first with
  | nil => exact second
  | byte printable notQuote notEscape _ ih => exact .byte printable notQuote notEscape ih
  | escape known _ ih => exact .escape known ih
  | unicode hex _ ih => exact .unicode hex ih

theorem stringBody_iff : StringBody body ↔ Spelled body :=
  ⟨fun legal => (readString_spelled legal).2, fun spelled => spelled.read []⟩

/-- Bytes past ASCII stand for themselves. -/
theorem spelled_high (high : ∀ byte ∈ s, 0x80 ≤ byte) : Spelled s := by
  induction s with
  | nil => exact .nil
  | cons byte s ih =>
    obtain ⟨printable, notQuote, notEscape⟩ :=
      forall_bytes (p := fun byte => 0x80 ≤ byte → ¬ byte < 32 ∧ byte ≠ 34 ∧ byte ≠ 92) (by decide +kernel) byte
        (high byte (.head _))
    exact .byte printable notQuote notEscape (ih fun other mem => high other (.tail _ mem))

/-! Quoting. -/

theorem isHex_hexDigit (small : n < 16) : isHex (hexDigit n) = true := by
  revert n
  decide

theorem quoteByte_spelled (byte : UInt8) : Spelled (quoteByte byte) := by
  unfold quoteByte
  split_ifs with safe quoted
  · simp only [htmlSafe, Bool.and_eq_true, decide_eq_true_eq] at safe
    refine .byte ?_ safe.1.1.1.1.2 safe.1.1.1.2 .nil
    rw [UInt8.not_lt]
    exact safe.1.1.1.1.1
  · refine .escape ?_ .nil
    simp only [Bool.or_eq_true, decide_eq_true_eq] at quoted
    rcases quoted with rfl | rfl <;> decide
  iterate 5 exact .escape (by decide) .nil
  · have high := isHex_hexDigit (show byte.toNat / 16 < 16 by have := byte.toNat_lt; omega)
    have low := isHex_hexDigit (Nat.mod_lt byte.toNat (by decide : 16 > 0))
    have zero : isHex 48 = true := by decide
    refine .unicode ?_ .nil
    simp [high, low, zero]

/-- Past ASCII, what is no rune is one byte, and a rune is bytes past ASCII. -/
theorem decodeRune_high (rest : Bytes) (high : 0x80 ≤ byte) : decodeRune (byte :: rest) = (runeError, 1) ∨
      ∀ other ∈ (byte :: rest).take (decodeRune (byte :: rest)).2, 0x80 ≤ other := by
  rcases decodeRune_cases byte rest with ⟨error, -⟩ | encodes
  · exact .inl error
  · obtain ⟨tail, front⟩ := decodeRune_front byte rest
    rw [front] at encodes ⊢
    exact .inr (List.forall_mem_cons.mpr ⟨high, fun other => encodes.tail_high⟩)

theorem quoteFrom_spelled (bound : ℕ) (s : Bytes) : Spelled (quoteFrom bound s) := by
  induction bound generalizing s with
  | zero => exact .nil
  | succ bound ih =>
    cases s with
    | nil => exact .nil
    | cons byte rest =>
      simp only [quoteFrom]
      split
      · exact (quoteByte_spelled byte).append (ih rest)
      rename_i notASCII
      refine Spelled.append ?_ (ih _)
      split_ifs with error separator separator'
      · exact .unicode (by decide) .nil
      · exact .unicode (by decide) .nil
      · exact .unicode (by decide) .nil
      · rcases decodeRune_high rest (UInt8.not_lt.mp notASCII) with invalid | high
        · exact absurd (by simp [invalid]) error
        · exact spelled_high high

theorem quote_stringBody (s : Bytes) : StringBody (quote s) := stringBody_iff.mpr (quoteFrom_spelled _ s)

/-- Plain text is quoted as it is. -/
theorem quote_plain (plain : ∀ byte ∈ s, byte < 0x80 ∧ htmlSafe byte = true) : quote s = s := by
  unfold quote
  induction s with
  | nil => rfl
  | cons byte rest ih =>
    obtain ⟨ascii, safe⟩ := plain byte (.head _)
    have tail := ih fun other mem => plain other (.tail _ mem)
    simp [quoteFrom, ascii, quoteByte, safe, tail]

/-! Compacting. -/

theorem Spelled.tail {byte : UInt8} (high : 0x80 ≤ byte) (spelled : Spelled (byte :: rest)) : Spelled rest := by
  cases spelled with
  | byte _ _ _ more => exact more
  | escape | unicode => exact absurd high (by decide)

/-- A byte outside the escaped ones is kept. -/
theorem escapeHTML_keep (rest : Bytes) (kept : byte ≠ 0xE2 ∧ byte ≠ 60 ∧ byte ≠ 62 ∧ byte ≠ 38) :
    escapeHTML (byte :: rest) = byte :: escapeHTML rest := by
  obtain ⟨notLead, notLess, notGreater, notAmp⟩ := kept
  rw [escapeHTML.eq_3 _ _ fun _ _ lead => absurd lead notLead]
  simp [notLess, notGreater, notAmp]

theorem isHex_keep (hex : isHex byte = true) : byte ≠ 0xE2 ∧ byte ≠ 60 ∧ byte ≠ 62 ∧ byte ≠ 38 := by
  refine ⟨?_, ?_, ?_, ?_⟩ <;> rintro rfl <;> exact absurd hex (by decide)

-- The induction is on the pieces of the body, not on the recursion of the
-- escape: what follows a backslash is no body of its own.
theorem escapeHTML_spelled {body : Bytes} (spelled : Spelled body) : Spelled (escapeHTML body) := by
  generalize size : body.length = n
  induction n using Nat.strong_induction_on generalizing body with
  | _ n ih =>
    subst size
    cases spelled with
    | nil => exact .nil
    | @escape escaped rest known more =>
      have kept : ∀ byte ∈ escapes, byte ≠ 0xE2 ∧ byte ≠ 60 ∧ byte ≠ 62 ∧ byte ≠ 38 := by decide +kernel
      rw [escapeHTML_keep _ (by decide), escapeHTML_keep _ (kept escaped known)]
      exact .escape known (ih _ (by simp) more rfl)
    | @unicode a b c d rest hex more =>
      have digits := hex
      simp only [List.all_cons, List.all_nil, Bool.and_true, Bool.and_eq_true] at digits
      rw [escapeHTML_keep _ (by decide), escapeHTML_keep _ (by decide),
        escapeHTML_keep _ (isHex_keep digits.1), escapeHTML_keep _ (isHex_keep digits.2.1),
        escapeHTML_keep _ (isHex_keep digits.2.2.1), escapeHTML_keep _ (isHex_keep digits.2.2.2)]
      exact .unicode hex (ih _ (by simp; omega) more rfl)
    | @byte byte rest printable notQuote notEscape more =>
      by_cases html : byte = 60 ∨ byte = 62 ∨ byte = 38
      · have tail := ih _ (by simp) more rfl
        have notLead : byte ≠ 0xE2 := by rcases html with rfl | rfl | rfl <;> decide
        rw [escapeHTML.eq_3 _ _ fun _ _ lead => absurd lead notLead]
        rcases html with rfl | rfl | rfl <;> exact .unicode (by decide) tail
      · push Not at html
        by_cases lead : byte = 0xE2
        · subst lead
          by_cases separator : ∃ last tail, rest = 0x80 :: last :: tail
          · obtain ⟨last, rest, rfl⟩ := separator
            have high : ¬ (0x80 : UInt8) < 32 ∧ (0x80 : UInt8) ≠ 34 ∧ (0x80 : UInt8) ≠ 92 := by decide
            have after : Spelled (last :: rest) := more.tail (by decide)
            rw [escapeHTML]
            split_ifs with first second
            · subst first
              exact .unicode (by decide) (ih _ (by simp; omega) (after.tail (by decide)) rfl)
            · subst second
              exact .unicode (by decide) (ih _ (by simp; omega) (after.tail (by decide)) rfl)
            · exact .byte printable notQuote notEscape (.byte high.1 high.2.1 high.2.2 (ih _ (by simp) after rfl))
          · rw [escapeHTML.eq_3 _ _ fun last tail _ spelled => separator ⟨last, tail, spelled⟩]
            exact .byte printable notQuote notEscape (ih _ (by simp) more rfl)
        · rw [escapeHTML_keep _ ⟨lead, html⟩]
          exact .byte printable notQuote notEscape (ih _ (by simp) more rfl)

mutual
theorem Text.compact_wellFormed : ∀ text : Text, text.WellFormed → text.compact.WellFormed
  | .null, _ => trivial
  | .bool _, _ => trivial
  | .number _, legal => legal
  | .string _, legal => stringBody_iff.mpr (escapeHTML_spelled (stringBody_iff.mp legal))
  | .container bracket _ entries, legal => by
    simp only [Text.compact]
    exact ⟨by simp [AllSpace], fun _ => rfl, compactEntries_wellFormed bracket entries legal.2.2⟩

theorem compactEntry_wellFormed (bracket : Bracket) :
    ∀ entry : Entry Text, WellFormedEntry bracket entry → WellFormedEntry bracket (compactEntry entry)
  | ⟨before, label, value, after⟩, legal => by
    obtain ⟨-, labelled, valueLegal, -⟩ := legal
    have blank : AllSpace [] := by simp [AllSpace]
    refine ⟨blank, ?_, Text.compact_wellFormed value valueLegal, blank⟩
    cases bracket <;> cases label
    · trivial
    · exact labelled.elim
    · exact labelled.elim
    · exact ⟨stringBody_iff.mpr (escapeHTML_spelled (stringBody_iff.mp labelled.1)), blank, blank⟩

theorem compactEntries_wellFormed (bracket : Bracket) :
    ∀ entries : List (Entry Text), WellFormedEntries bracket entries →
      WellFormedEntries bracket (compactEntries entries)
  | [], _ => trivial
  | entry :: entries, legal =>
    ⟨compactEntry_wellFormed bracket entry legal.1, compactEntries_wellFormed bracket entries legal.2⟩
end

/-! Numbers. -/

theorem isDigit_of_decimal (mem : byte ∈ decimal n) : isDigit byte = true := by
  have bounds := decimal_digits mem
  simp only [isDigit, Bool.and_eq_true, decide_eq_true_eq]
  exact bounds

/-- A rendered number has no leading zero. -/
theorem decimal_head (nonzero : n ≠ 0) : ∃ first more, decimal n = first :: more ∧ first ≠ 48 := by
  have digits : Nat.digits 10 n ≠ [] := Nat.digits_ne_nil_iff_ne_zero.mpr nonzero
  have small : (Nat.digits 10 n).getLast digits < 10 := Nat.digits_lt_base (by decide) (List.getLast_mem digits)
  have lead : ∀ d < 10, d ≠ 0 → digit d ≠ 48 := by decide
  refine ⟨digit ((Nat.digits 10 n).getLast digits), ((Nat.digits 10 n).dropLast.map digit).reverse,
    ?_, lead _ small (Nat.getLast_digit_ne_zero 10 nonzero)⟩
  rw [decimal, if_neg nonzero]
  conv_lhs => rw [← List.dropLast_append_getLast digits]
  simp

theorem readInteger_decimal (n : ℕ) : readInteger (decimal n) = some (decimal n, []) := by
  by_cases zero : n = 0
  · subst zero
    rfl
  · obtain ⟨first, more, spelled, lead⟩ := decimal_head zero
    have all : ∀ byte ∈ decimal n, isDigit byte = true := fun _ mem => isDigit_of_decimal mem
    have ends : ∀ byte ∈ ([] : Bytes).head?, isDigit byte = false := by simp
    have run := span_eq all ends
    rw [List.append_nil] at run
    have read : readDigits (decimal n) = some (decimal n, []) := by
      unfold readDigits
      rw [run.1, run.2, if_neg (by simp [spelled])]
    rw [spelled] at read ⊢
    rw [readInteger, if_neg lead, read]

theorem decimal_number (n : ℕ) : Number (decimal n) := by
  have digits := (readInteger_sound (readInteger_decimal n)).2.1
  have minus := readSign_append (s := decimal n) (.inl rfl) fun byte head listed =>
    digits.unsigned [] byte (by rwa [List.append_nil]) (.tail 43 listed)
  rw [List.nil_append] at minus
  simp [Number, readNumber, minus, readInteger_decimal, readFraction, readExponent]

theorem decimalInt_number (n : ℤ) : Number (decimalInt n) := by
  cases n with
  | ofNat n => exact decimal_number n
  | negSucc n => simp [Number, readNumber, decimalInt, readSign, readInteger_decimal, readFraction, readExponent]

end JsonText
