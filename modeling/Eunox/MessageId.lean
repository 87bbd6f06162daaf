import Eunox.NumericLiteral
import Eunox.UnicodeText

/-! Message ids are keyed by value. What an id denotes is told apart from its spelling: a string is
the Unicode text its characters and escapes spell, a number its exact value. -/
namespace Eunox
open ByteString JsonText PathPattern Utf8

/-! Spelling. -/

/-- What stands between the quotes of a JSON string spells this text: characters as they are,
one-letter escapes, `\u` escapes, and two of those for a code point past the first plane. -/
inductive Spells : Bytes → List ℕ → Prop where
  | nil : Spells [] []
  | rune {rune : ℕ} {rest : Bytes} {text : List ℕ} (scalar : Scalar rune)
      (plain : 32 ≤ rune ∧ rune ≠ 34 ∧ rune ≠ 92) (more : Spells rest text) :
      Spells (encodeRune rune ++ rest) (rune :: text)
  | escape {escaped : UInt8} {rest : Bytes} {text : List ℕ} (known : escaped ∈ escapes) (more : Spells rest text) :
      Spells (92 :: escaped :: rest) ((unescape escaped).toNat :: text)
  | unicode {a b c d : UInt8} {rest : Bytes} {text : List ℕ} (hex : [a, b, c, d].all isHex = true)
      (lone : ¬ (0xD800 ≤ hexRune [a, b, c, d] ∧ hexRune [a, b, c, d] ≤ 0xDFFF)) (more : Spells rest text) :
      Spells (92 :: 117 :: a :: b :: c :: d :: rest) (hexRune [a, b, c, d] :: text)
  | pair {a b c d a' b' c' d' : UInt8} {rest : Bytes} {text : List ℕ} (hex : [a, b, c, d].all isHex = true)
      (hex' : [a', b', c', d'].all isHex = true)
      (high : 0xD800 ≤ hexRune [a, b, c, d] ∧ hexRune [a, b, c, d] ≤ 0xDBFF)
      (low : 0xDC00 ≤ hexRune [a', b', c', d'] ∧ hexRune [a', b', c', d'] ≤ 0xDFFF) (more : Spells rest text) :
      Spells (92 :: 117 :: a :: b :: c :: d :: 92 :: 117 :: a' :: b' :: c' :: d' :: rest)
        ((0x10000 + (hexRune [a, b, c, d] - 0xD800) * 1024 + (hexRune [a', b', c', d'] - 0xDC00)) :: text)

/-- The letters of the one-letter escapes. -/
theorem escapes_spec : ∀ escaped ∈ escapes, escaped ≠ 117 ∧ escaped < 0x80 ∧ (unescape escaped).toNat < 0x80 := by
  decide +kernel

theorem isHex_spec : ∀ byte, isHex byte = true → byte < 0x80 ∧ hexValue byte < 16 := forall_bytes (by decide +kernel)

theorem hexRune_lt (hex : [a, b, c, d].all isHex = true) : hexRune [a, b, c, d] < 0x10000 := by
  have small (byte : UInt8) (hex : isHex byte = true) := (isHex_spec byte hex).2
  simp only [List.all_cons, List.all_nil, Bool.and_true, Bool.and_eq_true] at hex
  have := small a hex.1
  have := small b hex.2.1
  have := small c hex.2.2.1
  have := small d hex.2.2.2
  simp only [hexRune, List.foldl_cons, List.foldl_nil]
  omega

theorem Spells.scalar {body : Bytes} (spells : Spells body text) : ∀ rune ∈ text, Scalar rune := by
  induction spells with
  | nil => simp
  | rune scalar _ _ ih => simpa [scalar] using ih
  | @escape escaped _ _ known _ ih =>
    have ascii := (escapes_spec escaped known).2.2
    exact List.forall_mem_cons.mpr ⟨.inl (by omega), ih⟩
  | @unicode a b c d _ _ hex lone _ ih =>
    have bound := hexRune_lt hex
    refine List.forall_mem_cons.mpr ⟨?_, ih⟩
    unfold Scalar
    omega
  | pair _ _ high low _ ih =>
    refine List.forall_mem_cons.mpr ⟨.inr ?_, ih⟩
    omega

/-- A surrogate pair. -/
theorem unquote_pair (rest : Bytes) (hex' : [a', b', c', d'].all isHex = true)
    (high : 0xD800 ≤ hexRune [a, b, c, d] ∧ hexRune [a, b, c, d] ≤ 0xDBFF)
    (low : 0xDC00 ≤ hexRune [a', b', c', d'] ∧ hexRune [a', b', c', d'] ≤ 0xDFFF) :
    unquote (92 :: 117 :: a :: b :: c :: d :: 92 :: 117 :: a' :: b' :: c' :: d' :: rest) =
      encodeRune (0x10000 + (hexRune [a, b, c, d] - 0xD800) * 1024 + (hexRune [a', b', c', d'] - 0xDC00)) ++
        unquote rest := by
  have second : secondSurrogate (hexRune [a, b, c, d]) (92 :: 117 :: a' :: b' :: c' :: d' :: rest) =
      some (0x10000 + (hexRune [a, b, c, d] - 0xD800) * 1024 + (hexRune [a', b', c', d'] - 0xDC00)) := by
    rw [secondSurrogate]
    simp only [hex', Bool.true_and, Bool.and_eq_true, decide_eq_true_eq]
    rw [if_pos ⟨⟨by omega, low.1⟩, low.2⟩]
  have surrogate : (decide (0xD800 ≤ hexRune [a, b, c, d]) && decide (hexRune [a, b, c, d] ≤ 0xDFFF)) = true := by
    simp only [Bool.and_eq_true, decide_eq_true_eq]
    omega
  change unquoteFrom (rest.length + 11 + 1) _ = _
  rw [unquoteFrom.eq_3]
  refine (if_pos surrogate).trans ?_
  simp only [List.take_succ_cons, List.take_zero, List.drop_succ_cons, List.drop_zero, second]
  rw [unquote_eq _ _ (by omega)]

/-- A spelling is read back as the text's bytes. -/
theorem Spells.unquote (spells : Spells body text) : JsonText.unquote body = utf8 text := by
  induction spells with
  | nil => rfl
  | @rune rune rest text scalar plain _ ih =>
    rcases encodeRune_cases scalar with ⟨byte, ascii, value, one⟩ | ⟨above, high⟩
    · rw [utf8_cons, one, List.singleton_append, unquote_ascii rest ascii, ih]
      · rfl
      · rintro rfl
        exact plain.2.2 value.symm
    · rw [utf8_cons, unquote_rune rest (encodes_scalar scalar), ih]
      intro byte head
      exact UInt8.not_lt.mpr (high byte (List.mem_of_mem_head? head))
  | @escape escaped _ _ known _ ih =>
    obtain ⟨simple, -, ascii⟩ := escapes_spec escaped known
    rw [unquote_escape _ simple, ih, utf8_cons, encodeRune_ascii ascii]
    rfl
  | unicode hex lone _ ih => rw [unquote_unicode _ (by simpa using lone), ih, utf8_cons]
  | pair _ hex' high low _ ih => rw [unquote_pair _ hex' high low, ih, utf8_cons]

/-! The scanner. -/

theorem validUtf8_iff (room : s.length ≤ bound) : validUtf8 bound s = true ↔ Valid s := by
  induction bound generalizing s with
  | zero =>
    obtain rfl := List.length_eq_zero_iff.mp (Nat.le_zero.mp room)
    simpa [validUtf8] using Valid.nil
  | succ bound ih =>
    cases s with
    | nil => simpa [validUtf8] using Valid.nil
    | cons byte rest =>
      have size := decodeRune_size byte rest
      have later := ih (s := (byte :: rest).drop (decodeRune (byte :: rest)).2) (by simp at room ⊢; omega)
      simp only [validUtf8, List.isEmpty_cons, Bool.false_or, Bool.and_eq_true, bne_iff_ne, ne_eq, later]
      constructor
      · rintro ⟨proper, more⟩
        have found := (decodeRune_cases byte rest).resolve_left fun broken => proper broken.1
        have whole := Valid.rune found more
        rwa [List.take_append_drop] at whole
      · intro valid
        obtain ⟨word, more, rune, whole, encodes, later⟩ := valid_cons valid
        rw [whole, encodes.decodes, List.drop_left]
        exact ⟨encodes.proper, later⟩

/-- A `\u` escape is ASCII. -/
theorem unicode_ascii {a b c d : UInt8} (hex : [a, b, c, d].all isHex = true) :
    ∀ byte ∈ [92, 117, a, b, c, d], byte < 0x80 := by
  refine List.forall_mem_cons.mpr ⟨by decide, List.forall_mem_cons.mpr ⟨by decide, fun byte mem => ?_⟩⟩
  exact (isHex_spec byte (List.all_eq_true.mp hex byte mem)).1

theorem valid_past {word rest : Bytes} (ascii : ∀ byte ∈ word, byte < 0x80) (valid : Valid (word ++ rest)) :
    Valid rest := by
  induction word with
  | nil => exact valid
  | cons byte word ih => exact ih (fun other mem => ascii other (.tail _ mem)) (valid_tail valid (ascii byte (.head _)))

theorem valid_of_spells (spells : Spells body text) : Valid body := by
  induction spells with
  | nil => exact .nil
  | rune scalar _ _ ih => exact .rune (encodes_scalar scalar) ih
  | @escape escaped rest _ known _ ih =>
    exact (valid_ascii (s := [92, escaped]) (by simpa using (escapes_spec escaped known).2.1)).append ih
  | unicode hex _ _ ih => exact (valid_ascii (unicode_ascii hex)).append ih
  | pair hex hex' _ _ _ ih =>
    exact (valid_ascii (unicode_ascii hex)).append ((valid_ascii (unicode_ascii hex')).append ih)

/-- An escape of a scalar is passed over. -/
theorem pairedEscapes_unicode {a b c d : UInt8} (bound : ℕ) (rest : Bytes) (hex : [a, b, c, d].all isHex = true)
    (lone : ¬ (0xD800 ≤ hexRune [a, b, c, d] ∧ hexRune [a, b, c, d] ≤ 0xDFFF)) :
    pairedEscapes (bound + 1) (92 :: 117 :: a :: b :: c :: d :: rest) = pairedEscapes bound rest := by
  have notHigh : (decide (0xD800 ≤ hexRune [a, b, c, d]) && decide (hexRune [a, b, c, d] ≤ 0xDBFF)) = false := by
    simp only [Bool.and_eq_false_iff, decide_eq_false_iff_not]
    omega
  have notLow : (decide (0xDC00 ≤ hexRune [a, b, c, d]) && decide (hexRune [a, b, c, d] ≤ 0xDFFF)) = false := by
    simp only [Bool.and_eq_false_iff, decide_eq_false_iff_not]
    omega
  have four : (a :: b :: c :: d :: rest).take 4 = [a, b, c, d] := rfl
  rw [pairedEscapes.eq_4]
  simp only [four, hex, notHigh, notLow]
  simp

/-- What spells a text passes the scan. -/
theorem pairedEscapes_of_spells (spells : Spells body text) (bound : ℕ) :
    pairedEscapes bound (body ++ [34]) = true := by
  induction spells generalizing bound with
  | nil =>
    obtain _ | _ | bound := bound
    all_goals rfl
  | @rune rune rest text scalar plain _ ih =>
    obtain _ | bound := bound
    · rfl
    rw [List.append_assoc, pairedEscapes_rune bound _ (encodes_scalar scalar), ih]
    intro byte head
    rcases encodeRune_cases scalar with ⟨only, -, value, one⟩ | ⟨-, high⟩
    · obtain rfl : only = byte := by simpa [one] using head
      rintro rfl
      exact plain.2.2 value.symm
    · rintro rfl
      exact absurd (high 92 (List.mem_of_mem_head? head)) (by decide)
  | @escape escaped _ _ known _ ih =>
    obtain _ | bound := bound
    · rfl
    simp [pairedEscapes, (escapes_spec escaped known).1, ih]
  | @unicode a b c d rest _ hex lone _ ih =>
    obtain _ | bound := bound
    · rfl
    exact (pairedEscapes_unicode _ _ hex lone).trans (ih bound)
  | @pair a b c d a' b' c' d' rest _ hex hex' high low _ ih =>
    obtain _ | bound := bound
    · rfl
    simp only [List.all_cons, List.all_nil, Bool.and_true, Bool.and_eq_true] at hex hex'
    simp [pairedEscapes, hex, hex', high, low, ih]

/-- A word without a quote ends in front of the closing one. -/
theorem append_quote {word more body : Bytes} (quoteless : 34 ∉ word) (same : body ++ [34] = word ++ more) :
    ∃ rest, body = word ++ rest ∧ more = rest ++ [34] := by
  rcases List.append_eq_append_iff.mp same with ⟨extra, rfl, tail⟩ | ⟨rest, rfl, tail⟩
  · cases extra with
    | nil => exact ⟨[], by simp, by simpa using tail.symm⟩
    | cons byte extra =>
      obtain rfl : 34 = byte := by simpa using congrArg List.head? tail
      simp at quoteless
  · exact ⟨rest, rfl, tail⟩

/-- An escape that passes the scan is of a scalar, or the first half of a pair. -/
theorem pairedEscapes_surrogate {a b c d : UInt8} (hex : [a, b, c, d].all isHex = true)
    (surrogate : 0xD800 ≤ hexRune [a, b, c, d] ∧ hexRune [a, b, c, d] ≤ 0xDFFF)
    (paired : pairedEscapes (bound + 1) (92 :: 117 :: a :: b :: c :: d :: rest) = true) :
    hexRune [a, b, c, d] ≤ 0xDBFF ∧ ∃ more, rest = 92 :: 117 :: more ∧ 0xDC00 ≤ hexRune (more.take 4) ∧
      hexRune (more.take 4) ≤ 0xDFFF ∧ pairedEscapes bound (more.drop 4) = true := by
  have four : (a :: b :: c :: d :: rest).take 4 = [a, b, c, d] := rfl
  have after : (a :: b :: c :: d :: rest).drop 4 = rest := rfl
  rw [pairedEscapes.eq_4] at paired
  simp only [four, after, hex, Bool.not_true, Bool.or_false, decide_eq_true_eq] at paired
  rw [if_neg (by simp)] at paired
  by_cases high : hexRune [a, b, c, d] ≤ 0xDBFF
  · refine ⟨high, ?_⟩
    rw [if_pos (by simp [surrogate.1, high])] at paired
    split at paired
    · rename_i more
      split at paired
      · rename_i low
        simp only [Bool.and_eq_true, decide_eq_true_eq] at low
        exact ⟨more, rfl, low.1.2, low.2, paired⟩
      · cases paired
    · cases paired
  · have low : 0xDC00 ≤ hexRune [a, b, c, d] := by omega
    rw [if_neg (by simp [high]), if_pos (by simp [low, surrogate.2])] at paired
    cases paired

theorem spelled_past {word rest : Bytes} (high : ∀ byte ∈ word, 0x80 ≤ byte) (spelled : Spelled (word ++ rest)) :
    Spelled rest := by
  induction word with
  | nil => exact spelled
  | cons byte word ih =>
    exact ih (fun other mem => high other (.tail _ mem))
      (spelled.tail (high byte (.head _)))

/-- What passes the scan spells a text. -/
theorem spells_of_scan {body : Bytes} (spelled : Spelled body) (valid : Valid (body ++ [34])) (bound : ℕ)
    (room : body.length < bound) (paired : pairedEscapes bound (body ++ [34]) = true) : ∃ text, Spells body text := by
  -- on the length: a rune and a surrogate pair take several pieces of the spelling at once
  generalize size : body.length = n
  induction n using Nat.strong_induction_on generalizing body bound with
  | _ n ih =>
    subst size
    obtain ⟨bound, rfl⟩ := Nat.exists_eq_succ_of_ne_zero (show bound ≠ 0 by omega)
    cases spelled with
    | nil => exact ⟨[], .nil⟩
    | @escape escaped rest known more =>
      have later := valid_tail (valid_tail valid (by decide)) (escapes_spec escaped known).2.1
      have scanned : pairedEscapes bound (rest ++ [34]) = true := by
        simpa [pairedEscapes, (escapes_spec escaped known).1] using paired
      obtain ⟨text, spells⟩ := ih _ (by simp) more later bound (by simp at room; omega) scanned rfl
      exact ⟨_, .escape known spells⟩
    | @unicode a b c d rest hex more =>
      have later : Valid (rest ++ [34]) := valid_past (unicode_ascii hex) valid
      by_cases lone : 0xD800 ≤ hexRune [a, b, c, d] ∧ hexRune [a, b, c, d] ≤ 0xDFFF
      · obtain ⟨high, pairRest, whole, above, below, scanned⟩ := pairedEscapes_surrogate hex lone paired
        cases more with
        | nil => simp at whole
        | byte _ _ notEscape _ => exact absurd (List.cons.inj whole).1 notEscape
        | @escape escaped _ known _ =>
          obtain ⟨rfl, -⟩ := List.cons.inj (List.cons.inj whole).2
          exact absurd rfl (escapes_spec 117 known).1
        | @unicode a' b' c' d' rest hex' more =>
          obtain rfl := (List.cons.inj (List.cons.inj whole).2).2
          obtain ⟨text, spells⟩ := ih _ (by simp; omega) more (valid_past (unicode_ascii hex') later) bound
            (by simp at room; omega) scanned rfl
          exact ⟨_, .pair hex hex' ⟨lone.1, high⟩ ⟨above, below⟩ spells⟩
      · have scanned : pairedEscapes (bound + 1) (92 :: 117 :: a :: b :: c :: d :: (rest ++ [34])) = true := paired
        rw [pairedEscapes_unicode _ _ hex lone] at scanned
        obtain ⟨text, spells⟩ := ih _ (by simp; omega) more later bound (by simp at room; omega) scanned rfl
        exact ⟨_, .unicode hex lone spells⟩
    | @byte byte rest printable notQuote notEscape more =>
      obtain ⟨word, tail, rune, whole, encodes, later⟩ := valid_cons valid
      have scalar := scalar_of_encodes encodes
      have here := encodeRune_cases scalar
      rw [encodes.encodes] at here
      have head : word.head? = some byte := by
        obtain ⟨lead, others, rfl⟩ := List.exists_cons_of_ne_nil encodes.nonempty
        simpa using congrArg List.head? whole.symm
      have quoteless : 34 ∉ word := by
        intro mem
        rcases here with ⟨only, -, -, rfl⟩ | ⟨-, high⟩
        · obtain rfl : only = byte := by simpa using head
          exact notQuote (List.mem_singleton.mp mem).symm
        · exact absurd (high 34 mem) (by decide)
      have closed : (byte :: rest) ++ [34] = word ++ tail := whole
      obtain ⟨rest', split, rfl⟩ := append_quote quoteless closed
      have spelled' : Spelled rest' := by
        rcases here with ⟨only, -, -, rfl⟩ | ⟨-, high⟩
        · obtain ⟨-, rfl⟩ := List.cons.inj split
          exact more
        · exact spelled_past high (split ▸ .byte printable notQuote notEscape more)
      have shorter : rest'.length < (byte :: rest).length := by
        have := List.length_pos_of_ne_nil encodes.nonempty
        rw [split]
        simp
        omega
      rw [split, List.append_assoc, pairedEscapes_rune bound _ encodes (fun other mem => by
        obtain rfl := Option.mem_unique head mem
        exact notEscape)] at paired
      obtain ⟨text, spells⟩ := ih _ shorter spelled' later bound (by omega) paired rfl
      rw [split, ← encodes.encodes]
      refine ⟨_, .rune scalar ?_ spells⟩
      rcases here with ⟨only, -, rfl, rfl⟩ | ⟨above, -⟩
      · obtain rfl : only = byte := by simpa using head
        refine ⟨?_, ?_, ?_⟩
        · exact Nat.le_of_not_lt fun small => printable (UInt8.lt_iff_toNat_lt.mpr small)
        · exact fun same => notQuote (UInt8.toNat_inj.mp same)
        · exact fun same => notEscape (UInt8.toNat_inj.mp same)
      · omega

/-- The scan passes a string id exactly when it spells a text. -/
theorem stringIDIsWellFormed_iff (spelled : Spelled body) :
    stringIDIsWellFormed (34 :: (body ++ [34])) = true ↔ ∃ text, Spells body text := by
  have quoted {valid : Bytes} (proper : Valid valid) : Valid (34 :: (valid ++ [34])) :=
    (valid_ascii (s := [34]) (by simp)).append (proper.append (valid_ascii (by simp)))
  have quotes := encodes_ascii (by decide : (34 : UInt8) < 0x80)
  have opened (bound : ℕ) : pairedEscapes (bound + 1) (34 :: (body ++ [34])) = pairedEscapes bound (body ++ [34]) :=
    pairedEscapes_rune bound _ quotes (by simp)
  rw [stringIDIsWellFormed, Bool.and_eq_true, validUtf8_iff le_rfl, List.length_cons, opened]
  constructor
  · rintro ⟨valid, paired⟩
    exact spells_of_scan spelled (valid_tail valid (by decide)) _ (by simp) paired
  · rintro ⟨text, spells⟩
    exact ⟨quoted (valid_of_spells spells), pairedEscapes_of_spells spells _⟩

/-! White space. -/

/-- The last byte of a value is of no white space. -/
theorem wellFormed_last {text : Text} (legal : text.WellFormed) :
    ∃ front last, text.print = front ++ [last] ∧ ∀ token ∈ spaces, last ∉ token := by
  have solid : ∀ byte ∈ lit "le\"]\x7d0123456789", ∀ token ∈ spaces, byte ∉ token := by decide +kernel
  cases text with
  | null => exact ⟨lit "nul", 108, by decide, solid 108 (by decide)⟩
  | bool b =>
    cases b
    · exact ⟨lit "fals", 101, by decide, solid 101 (by decide)⟩
    · exact ⟨lit "tru", 101, by decide, solid 101 (by decide)⟩
  | number literal =>
    unfold Text.WellFormed at legal
    obtain ⟨front, last, spelled, digit⟩ := number_last legal
    refine ⟨front, last, by rw [Text.print, spelled], solid last ?_⟩
    exact forall_bytes (p := fun byte => isDigit byte = true → byte ∈ lit "le\"]\x7d0123456789")
      (by decide +kernel) last digit
  | string body => exact ⟨34 :: body, 34, by simp [Text.print], solid 34 (by decide)⟩
  | container bracket gap entries =>
    refine ⟨bracket.opening :: (gap ++ printEntries entries), bracket.closing, by simp [Text.print], ?_⟩
    cases bracket
    · exact solid 93 (by decide)
    · exact solid 125 (by decide)

theorem find_space (space : isSpace byte = true) (rest : Bytes) :
    (spaces.find? fun token => token.isPrefixOf (byte :: rest)) = some [byte] ∧
      ((spaces.map List.reverse).find? fun token => token.isPrefixOf (byte :: rest)) = some [byte] := by
  simp only [isSpace, Bool.or_eq_true, decide_eq_true_eq] at space
  rcases space with ((rfl | rfl) | rfl) | rfl <;> constructor <;> simp [spaces]

/-- Of a JSON value only the white space around it is trimmed. -/
theorem trimSpace_parsed {id : Bytes} (parsed : parseText id = some text) :
    trimSpace id = text.print ∧ text.WellFormed ∧ text.depth ≤ maxNestingDepth := by
  simp only [parseText, Option.bind_eq_bind, Option.bind_eq_some_iff, Prod.exists] at parsed
  obtain ⟨value, rest, read, parsed⟩ := parsed
  split at parsed
  · rename_i empty
    obtain rfl := Option.some.inj parsed
    obtain ⟨spelled, legal, shallow⟩ := readText_sound read
    have leading := readSpace_allSpace id
    have trailing : AllSpace rest := by
      have spaced := readSpace_append rest
      rw [List.isEmpty_iff.mp empty, List.append_nil] at spaced
      rw [← spaced]
      exact readSpace_allSpace rest
    refine ⟨?_, legal, shallow⟩
    generalize (readSpace id).1 = gap at spelled leading
    subst spelled
    have head : ∃ first more, value.print = first :: more ∧ ∀ token ∈ spaces, first ∉ token :=
      legal.first (by decide +kernel) fun _ bracket => by cases bracket <;> decide
    obtain ⟨first, more, start, firstSolid⟩ := head
    obtain ⟨front, last, finish, lastSolid⟩ := wellFormed_last legal
    have left : trimLeft (gap ++ (value.print ++ rest)) = value.print ++ rest := by
      refine stripTokens_gap (fun byte mem more => (find_space (leading byte mem) more).1) ?_ (by simp)
      rw [start]
      exact bare_of_head (by decide) firstSolid
    have right : NoTrailingSpace value.print := by
      rw [finish]
      exact noTrailing_of_last lastSolid front
    rw [trimSpace, left, trimRight, List.reverse_append]
    rw [stripTokens_gap (fun byte mem more =>
      (find_space (trailing byte (List.mem_reverse.mp mem)) more).2) right (by simp), List.reverse_reverse]
  · cases parsed

/-! Keys. -/

/-- What an id is keyed by. -/
inductive Keyed (value : Text) (key : Bytes) : Prop where
  | string (body : Bytes) (text : List ℕ) (is : value = .string body) (spells : Spells body text)
      (by_text : key = lit "s:" ++ utf8 text)
  | number (literal : Bytes) (q : ℚ) (is : value = .number literal) (valued : ratOf literal = some q)
      (by_value : key = lit "n:" ++ ratString q)
  | null (is : value = .null) (fixed : key = lit "z:" ++ lit "null")
  | raw (by_bytes : key = lit "r:" ++ value.print) (notNull : value ≠ .null)
      (notText : ∀ body, value = .string body → ¬ ∃ text, Spells body text)
      (large : ∀ literal, value = .number literal → numericLiteralBounded literal = false)

theorem parseText_print (legal : text.WellFormed) (shallow : text.depth ≤ maxNestingDepth) :
    parseText text.print = some text := by
  have read : readText (text.print ++ []) = some (text, []) :=
    readText_print legal shallow fun _ _ => by simp [Delimited]
  rw [List.append_nil] at read
  simp [parseText, read, readSpace]

/-- Neither path of numbers takes what starts with no digit, sign or point. -/
theorem not_numeric (other : first ≠ 43 ∧ first ≠ 45 ∧ first ≠ 46 ∧ isDigit first = false) :
    parseCanonicalJSONInt (first :: rest) = none ∧ numericLiteralBounded (first :: rest) = false := by
  obtain ⟨plus, minus, point, digit⟩ := other
  have zero : first ≠ 48 := by
    rintro rfl
    exact absurd digit (by decide)
  constructor
  · simp [parseCanonicalJSONInt, minus, zero, digit]
  · simp [numericLiteralBounded, readMantissa, readSign, plus, minus, point, digit]

theorem keyed {id : Bytes} (parsed : parseText id = some value) : Keyed value (msgKey (some id)) := by
  obtain ⟨trimmed, legal, shallow⟩ := trimSpace_parsed parsed
  have again := parseText_print legal shallow
  cases value with
  | null =>
    refine .null rfl ?_
    rw [show Text.null.print = 110 :: lit "ull" by decide] at trimmed
    simp only [msgKey, trimmed]
    decide
  | bool b =>
    refine .raw ?_ (by simp) (by simp) (by simp)
    cases b with
    | true =>
      rw [show (Text.bool true).print = 116 :: lit "rue" by decide] at trimmed ⊢
      simp only [msgKey, trimmed]
      decide
    | false =>
      rw [show (Text.bool false).print = 102 :: lit "alse" by decide] at trimmed ⊢
      simp only [msgKey, trimmed]
      decide
  | string body =>
    have spelled : (Text.string body).print = 34 :: (body ++ [34]) := by simp [Text.print]
    rw [spelled] at trimmed again
    have scan := stringIDIsWellFormed_iff (stringBody_iff.mp legal)
    cases proper : stringIDIsWellFormed (34 :: (body ++ [34])) with
    | true =>
      obtain ⟨text, spells⟩ := scan.mp proper
      refine .string body text rfl spells ?_
      simp [msgKey, trimmed, again, proper, spells.unquote]
    | false =>
      refine .raw ?_ (by simp) (fun other same => ?_) (by simp)
      · simp [msgKey, trimmed, again, proper, spelled]
      · obtain rfl := Text.string.inj same
        rw [← scan, proper]
        exact Bool.false_ne_true
  | number literal =>
    have number := legal
    obtain ⟨q, valued⟩ := ratOf_number number
    obtain ⟨-, ⟨first, more, shape, start⟩, -⟩ := readNumber_sound number
    have apart : first ≠ 34 ∧ first ≠ 110 := by
      rcases start with digit | rfl
      · constructor <;> rintro rfl <;> exact absurd digit (by decide)
      · decide
    have printed : (Text.number literal).print = literal := rfl
    rw [printed] at trimmed
    have key : msgKey (some id) = (parseCanonicalJSONInt literal).elim
        (if literal.length ≤ maxNumericLiteralLen && numericLiteralBounded literal &&
          readNumber literal = some (literal, []) then lit "n:" ++ ratString q else lit "r:" ++ literal)
        fun i => lit "n:" ++ decimalInt i := by
      rw [msgKey]
      simp only [trimmed, valued]
      subst shape
      split
      · simp at *
      · exact absurd (List.cons.inj ‹_›).1 apart.1
      · exact absurd (List.cons.inj ‹_›).1 apart.2
      · cases parseCanonicalJSONInt (first :: more) <;> rfl
    cases canonical : parseCanonicalJSONInt literal with
    | some i =>
      have value := ratOf_canonical number canonical
      obtain rfl := Option.mem_unique valued value
      refine .number literal _ rfl value ?_
      rw [key, canonical, Option.elim_some, ratString_int]
    | none =>
      rw [canonical, Option.elim_none] at key
      cases bounded : numericLiteralBounded literal with
      | true =>
        have short : literal.length ≤ maxNumericLiteralLen := by
          by_contra long
          simp [numericLiteralBounded, not_le.mp long] at bounded
        refine .number literal q rfl valued ?_
        have read : readNumber literal = some (literal, []) := number
        rw [key, if_pos (by simp [short, bounded, read])]
      | false =>
        refine .raw ?_ (by simp) (by simp) (fun other same => ?_)
        · rw [key, if_neg (by simp [bounded]), printed]
        · rw [← Text.number.inj same, bounded]
  | container bracket gap entries =>
    refine .raw ?_ (by simp) (by simp) (by simp)
    have spelled : (Text.container bracket gap entries).print =
      bracket.opening :: (gap ++ (printEntries entries ++ [bracket.closing])) := by rw [Text.print]
    rw [spelled] at trimmed ⊢
    have other : bracket.opening ≠ 43 ∧ bracket.opening ≠ 45 ∧ bracket.opening ≠ 46 ∧
        isDigit bracket.opening = false := by cases bracket <;> decide
    obtain ⟨canonical, bounded⟩ := @not_numeric _ (gap ++ (printEntries entries ++ [bracket.closing])) other
    cases bracket
    all_goals
      rw [Bracket.opening] at trimmed canonical bounded ⊢
      simp only [msgKey, trimmed, canonical, bounded]
      simp

/-- Two ids are one value: the same Unicode string, the same number, both null, or the same bytes. -/
inductive SameValue : Text → Text → Prop where
  | string {body body' : Bytes} {text : List ℕ} (spells : Spells body text) (spells' : Spells body' text) :
      SameValue (.string body) (.string body')
  | number {literal literal' : Bytes} {q : ℚ} (valued : ratOf literal = some q)
      (valued' : ratOf literal' = some q) : SameValue (.number literal) (.number literal')
  | null : SameValue .null .null
  | bytes {value value' : Text} (same : value.print = value'.print) : SameValue value value'

theorem Keyed.same {value value' : Text} (first : Keyed value key) (second : Keyed value' key) :
    SameValue value value' := by
  -- the letter in front of the colon tells the four kinds apart
  have head {front front' tail tail' : Bytes} (same : front ++ tail = front' ++ tail')
      (long : front ≠ [] ∧ front' ≠ []) : front.head? = front'.head? := by
    have heads := congrArg List.head? same
    rwa [List.head?_append_of_ne_nil _ long.1, List.head?_append_of_ne_nil _ long.2] at heads
  cases first with
  | string body text is spells by_text =>
    subst is by_text
    cases second with
    | string body' text' is' spells' by_text' =>
      subst is'
      obtain rfl := utf8_inj spells.scalar spells'.scalar (List.append_cancel_left by_text')
      exact .string spells spells'
    | number _ _ _ _ other | null _ other | raw other => exact absurd (head other (by decide)) (by decide)
  | number literal q is valued by_value =>
    subst is by_value
    cases second with
    | number literal' q' is' valued' by_value' =>
      subst is'
      obtain rfl := ratString_injective (List.append_cancel_left by_value')
      exact .number valued valued'
    | string _ _ _ _ other | null _ other | raw other => exact absurd (head other (by decide)) (by decide)
  | null is fixed =>
    subst is fixed
    cases second with
    | null is' => exact is' ▸ .null
    | string _ _ _ _ other | number _ _ _ _ other | raw other => exact absurd (head other (by decide)) (by decide)
  | raw by_bytes =>
    subst by_bytes
    cases second with
    | string _ _ _ _ other | number _ _ _ _ other | null _ other => exact absurd (head other (by decide)) (by decide)
    | raw by_bytes' => exact .bytes (List.append_cancel_left by_bytes')

theorem Keyed.of_spells {body key : Bytes} (by_key : Keyed (.string body) key) (spells : Spells body text) :
    key = lit "s:" ++ utf8 text := by
  cases by_key with
  | string body' text' is spells' by_text =>
    obtain rfl := Text.string.inj is
    rw [by_text, ← spells'.unquote, spells.unquote]
  | number _ _ is | null is => cases is
  | raw _ _ notText => exact absurd ⟨text, spells⟩ (notText body rfl)

theorem Keyed.of_bounded {literal key : Bytes} (by_key : Keyed (.number literal) key)
    (bounded : numericLiteralBounded literal = true) (valued : ratOf literal = some q) :
    key = lit "n:" ++ ratString q := by
  cases by_key with
  | string _ _ is => cases is
  | number literal' q' is valued' by_value =>
    obtain rfl := Text.number.inj is
    obtain rfl := Option.mem_unique valued valued'
    exact by_value
  | null is => cases is
  | raw _ _ _ large => exact absurd bounded (by simp [large literal rfl])

/-- The key of a JSON value is never the one an absent id has. -/
theorem msgKey_json {id : Bytes} (json : (parseText id).isSome) : msgKey (some id) ≠ [] := by
  obtain ⟨value, parsed⟩ := Option.isSome_iff_exists.mp json
  cases keyed parsed with
  | string _ _ _ _ is | number _ _ _ _ is | null _ is | raw is =>
    rw [is]
    exact List.append_ne_nil_of_left_ne_nil (by decide) _

theorem spells_plain (plain : ∀ byte ∈ s, byte < 0x80 ∧ htmlSafe byte = true) : ∃ text, Spells s text := by
  induction s with
  | nil => exact ⟨[], .nil⟩
  | cons byte s ih =>
    obtain ⟨text, more⟩ := ih (List.forall_mem_of_forall_mem_cons plain)
    have visible := forall_bytes (p := fun byte => byte < 0x80 ∧ htmlSafe byte = true → byte.toNat < 0x80 ∧
      32 ≤ byte.toNat ∧ byte.toNat ≠ 34 ∧ byte.toNat ≠ 92) (by decide +kernel) byte (plain byte (.head _))
    have spells := Spells.rune (.inl (by omega)) visible.2 more
    rw [encodeRune_ascii visible.1] at spells
    exact ⟨_, spells⟩

/-- A string id of plain text is keyed by its text. -/
theorem msgKey_plain (plain : ∀ byte ∈ s, byte < 0x80 ∧ htmlSafe byte = true) :
    msgKey (some (Text.string (quote s)).print) = lit "s:" ++ s := by
  obtain ⟨text, spells⟩ := spells_plain plain
  rw [← quote_plain plain] at spells
  have legal : (Text.string (quote s)).WellFormed := quote_stringBody s
  rw [(keyed (parseText_print legal (Nat.zero_le _))).of_spells spells, ← spells.unquote,
    unquote_quote (valid_ascii fun byte mem => (plain byte mem).1)]

/-- Two ids share a key only if they are one value, and they do if they are one string without
unpaired surrogates or invalid UTF-8, or one number that is short enough, however they are
spelled. -/
theorem msg_key_by_value {id id' : Bytes} {value value' : Text} (parsed : parseText id = some value)
    (parsed' : parseText id' = some value') :
    (msgKey (some id) = msgKey (some id') → SameValue value value') ∧
    (∀ body body' text, value = .string body → value' = .string body' → Spells body text → Spells body' text →
      msgKey (some id) = msgKey (some id')) ∧
    ∀ literal literal' q, value = .number literal → value' = .number literal' →
      literal.length ≤ 1024 → literal'.length ≤ 1024 → numericLiteralBounded literal = true →
      numericLiteralBounded literal' = true → ratOf literal = some q → ratOf literal' = some q →
      msgKey (some id) = msgKey (some id') := by
  have first := keyed parsed
  have second := keyed parsed'
  refine ⟨fun same => ?_, ?_, ?_⟩
  · rw [same] at first
    exact first.same second
  · rintro body body' text rfl rfl spells spells'
    rw [first.of_spells spells, second.of_spells spells']
  · rintro literal literal' q rfl rfl - - bounded bounded' valued valued'
    rw [first.of_bounded bounded valued, second.of_bounded bounded' valued']

theorem msg_key_by_value_five : msgKey (some (lit "5.0")) = msgKey (some (lit "50e-1")) ∧
    SameValue (.number (lit "5.0")) (.number (lit "50e-1")) := by
  have legal : (Text.number (lit "5.0")).WellFormed := by
    unfold Text.WellFormed JsonText.Number
    decide
  have legal' : (Text.number (lit "50e-1")).WellFormed := by
    unfold Text.WellFormed JsonText.Number
    decide
  have parsed := parseText_print legal (by simp [Text.depth])
  have parsed' := parseText_print legal' (by simp [Text.depth])
  have key := (msg_key_by_value parsed parsed').2.2 _ _ 5 rfl rfl (by decide) (by decide) (by decide)
    (by decide) (by decide +kernel) (by decide +kernel)
  exact ⟨key, (msg_key_by_value parsed parsed').1 key⟩

end Eunox
