import Eunox.JsonText
import Mathlib.Data.List.TakeWhile

/-! Reading undoes printing. Each reader gives back what it consumed in front of
what is left, and reads the same again whatever follows, so two well-formed texts
with one spelling are one text. -/
namespace JsonText
open ByteString

/-! White space. -/

/-- Nothing but JSON white space. -/
def AllSpace (s : Bytes) : Prop := ∀ byte ∈ s, isSpace byte = true

/-- The next byte, if any, is no white space. -/
def NoSpaceAhead (s : Bytes) : Prop := ∀ byte ∈ s.head?, isSpace byte = false

theorem readSpace_append (s : Bytes) : (readSpace s).1 ++ (readSpace s).2 = s := List.takeWhile_append_dropWhile

theorem readSpace_allSpace (s : Bytes) : AllSpace (readSpace s).1 := fun _ mem => List.mem_takeWhile_imp mem

/-- A run is read to its end. -/
theorem span_eq {run rest : Bytes} (all : ∀ byte ∈ run, p byte = true) (ahead : ∀ byte ∈ rest.head?, p byte = false) :
    (run ++ rest).takeWhile p = run ∧ (run ++ rest).dropWhile p = rest := by
  induction run with
  | nil =>
    cases rest with
    | nil => exact ⟨rfl, rfl⟩
    | cons byte rest =>
      have stop := ahead byte rfl
      simp [stop]
  | cons byte run ih =>
    have held := all byte (.head _)
    have tail := ih fun other mem => all other (.tail _ mem)
    simp [held, tail]

theorem readSpace_eq (space : AllSpace gap) (ahead : NoSpaceAhead rest) : readSpace (gap ++ rest) = (gap, rest) :=
  Prod.ext (span_eq space ahead).1 (span_eq space ahead).2

/-! Strings. -/

/-- What may stand between two quotes. -/
def StringBody (body : Bytes) : Prop := readString (body ++ [34]) = some (body, [])

/-- An ordinary byte in front of a string. -/
theorem readString_byte (notQuote : ¬ byte = 34) (plain : ¬ (decide (byte < 32) || decide (byte = 92)) = true)
    (read : readString s = some (body, rest)) :
    readString (byte :: s) = some (byte :: body, rest) := by
  have notEscape : byte ≠ 92 := fun escape => plain (by simp [escape])
  rw [readString.eq_4 _ _ (fun _ _ _ _ _ escape => absurd escape notEscape)
    (fun _ _ escape => absurd escape notEscape), if_neg notQuote, if_neg plain, read]
  rfl

/-- A string body, piece by piece. -/
inductive Spelled : Bytes → Prop where
  | nil : Spelled []
  | byte {byte : UInt8} {rest : Bytes} (printable : ¬ byte < 32) (notQuote : byte ≠ 34)
      (notEscape : byte ≠ 92) (more : Spelled rest) : Spelled (byte :: rest)
  | escape {escaped : UInt8} {rest : Bytes} (known : escaped ∈ escapes) (more : Spelled rest) :
      Spelled (92 :: escaped :: rest)
  | unicode {a b c d : UInt8} {rest : Bytes} (hex : [a, b, c, d].all isHex = true)
      (more : Spelled rest) : Spelled (92 :: 117 :: a :: b :: c :: d :: rest)

/-- A string is read up to its quote, whatever follows the quote. -/
theorem Spelled.read (spelled : Spelled body) (rest : Bytes) :
    readString (body ++ 34 :: rest) = some (body, rest) := by
  induction spelled with
  | nil => simp [readString]
  | byte printable notQuote notEscape _ ih => exact readString_byte notQuote (by simp [printable, notEscape]) ih
  | @escape escaped _ known _ ih =>
    have notUnicode : escaped ≠ 117 := by
      rintro rfl
      revert known
      decide
    simp [readString, notUnicode, known, ih]
  | unicode hex _ ih => simp [readString, hex, ih]

/-- What was read under a constructor. -/
theorem of_map_read {α β : Type} {read : Option (α × Bytes)} {b : β} {rest : Bytes} (f : α → β)
    (mapped : read.map (fun p => (f p.1, p.2)) = some (b, rest)) : ∃ a, read = some (a, rest) ∧ f a = b := by
  simpa [Option.map_eq_some_iff] using mapped

theorem readString_spelled (read : readString s = some (body, rest)) : s = body ++ 34 :: rest ∧ Spelled body := by
  fun_induction readString s generalizing body rest with
  | case1 => cases read
  | case2 a b c d s hex ih =>
    obtain ⟨front, inner, rfl⟩ := of_map_read (92 :: 117 :: a :: b :: c :: d :: ·) read
    obtain ⟨rfl, more⟩ := ih inner
    exact ⟨rfl, .unicode hex more⟩
  | case3 => cases read
  | case4 escaped s _ known ih =>
    obtain ⟨front, inner, rfl⟩ := of_map_read (92 :: escaped :: ·) read
    obtain ⟨rfl, more⟩ := ih inner
    exact ⟨rfl, .escape known more⟩
  | case5 => cases read
  | case6 s =>
    simp only [Option.some.injEq, Prod.mk.injEq] at read
    obtain ⟨rfl, rfl⟩ := read
    exact ⟨rfl, .nil⟩
  | case7 => cases read
  | case8 byte s _ _ notQuote plain ih =>
    obtain ⟨front, inner, rfl⟩ := of_map_read (byte :: ·) read
    obtain ⟨rfl, more⟩ := ih inner
    simp only [Bool.or_eq_true, decide_eq_true_eq, not_or] at plain
    exact ⟨rfl, .byte plain.1 notQuote plain.2 more⟩

theorem StringBody.read (legal : StringBody body) (rest : Bytes) :
    readString (body ++ 34 :: rest) = some (body, rest) :=
  (readString_spelled legal).2.read rest

theorem readString_body (read : readString s = some (body, rest)) : s = body ++ 34 :: rest ∧ StringBody body :=
  ⟨(readString_spelled read).1, (readString_spelled read).2.read []⟩

/-! Numbers. -/

def NoDigitAhead (s : Bytes) : Prop := ∀ byte ∈ s.head?, isDigit byte = false

/-- The next byte, if any, does not go on with a number. -/
def Delimited (s : Bytes) : Prop := ∀ byte ∈ s.head?, isDigit byte = false ∧ byte ≠ 46 ∧ byte ≠ 101 ∧ byte ≠ 69

/-- At least one digit. -/
def Digits (s : Bytes) : Prop := s ≠ [] ∧ ∀ byte ∈ s, isDigit byte = true

theorem Digits.unsigned (digits : Digits s) (rest : Bytes) :
    ∀ byte ∈ (s ++ rest).head?, byte ∉ ([43, 45] : List UInt8) := by
  obtain ⟨first, more, rfl⟩ := List.exists_cons_of_ne_nil digits.1
  have digit := digits.2 first (.head _)
  rintro byte ⟨⟩ listed
  simp only [List.mem_cons, List.not_mem_nil, or_false] at listed
  rcases listed with rfl | rfl <;> exact absurd digit (by decide)

theorem readDigits_sound (read : readDigits s = some (digits, rest)) :
    s = digits ++ rest ∧ Digits digits ∧
      ∀ other, NoDigitAhead other → readDigits (digits ++ other) = some (digits, other) := by
  unfold readDigits at read
  split at read
  · cases read
  rename_i nonempty
  simp only [Option.some.injEq, Prod.mk.injEq] at read
  obtain ⟨rfl, rfl⟩ := read
  have all : ∀ byte ∈ s.takeWhile isDigit, isDigit byte = true := fun _ mem => List.mem_takeWhile_imp mem
  refine ⟨List.takeWhile_append_dropWhile.symm, ⟨by simpa using nonempty, all⟩, fun other ahead => ?_⟩
  obtain ⟨taken, dropped⟩ := span_eq all ahead
  unfold readDigits
  rw [taken, dropped, if_neg nonempty]

/-- One of these signs, or none. -/
def SignOf (allowed : List UInt8) (sign : Bytes) : Prop := sign = [] ∨ ∃ byte ∈ allowed, sign = [byte]

theorem readSign_sound (allowed : List UInt8) (s : Bytes) :
    s = (readSign allowed s).1 ++ (readSign allowed s).2 ∧ SignOf allowed (readSign allowed s).1 := by
  cases s with
  | nil => exact ⟨rfl, .inl rfl⟩
  | cons byte s =>
    rw [readSign]
    split_ifs with sign
    · exact ⟨rfl, .inr ⟨byte, sign, rfl⟩⟩
    · exact ⟨rfl, .inl rfl⟩

theorem readSign_append (signs : SignOf allowed sign) (ahead : ∀ byte ∈ s.head?, byte ∉ allowed) :
    readSign allowed (sign ++ s) = (sign, s) := by
  rcases signs with rfl | ⟨byte, listed, rfl⟩
  · cases s <;> simp_all [readSign]
  · simp [readSign, listed]

theorem readInteger_sound (read : readInteger s = some (integer, rest)) :
    s = integer ++ rest ∧ Digits integer ∧
      ∀ other, NoDigitAhead other → readInteger (integer ++ other) = some (integer, other) := by
  cases s with
  | nil => cases read
  | cons byte s =>
    by_cases zero : byte = 48
    · simp only [readInteger, if_pos zero, Option.some.injEq, Prod.mk.injEq] at read
      obtain ⟨rfl, rfl⟩ := read
      subst zero
      exact ⟨rfl, by simp [Digits, isDigit], fun other _ => by simp [readInteger]⟩
    · simp only [readInteger, if_neg zero] at read
      obtain ⟨whole, digits, again⟩ := readDigits_sound read
      refine ⟨whole, digits, fun other ahead => ?_⟩
      obtain ⟨first, more, rfl⟩ := List.exists_cons_of_ne_nil digits.1
      have same : byte = first := by simpa using congrArg List.head? whole
      have read := again other ahead
      simp only [List.cons_append] at read ⊢
      rw [readInteger, if_neg (same ▸ zero), read]

theorem readFraction_sound (read : readFraction s = some (fraction, rest)) : s = fraction ++ rest ∧
      (fraction = [] ∨ ∃ digits, Digits digits ∧ fraction = 46 :: digits) ∧
      ∀ other, NoDigitAhead other → (∀ byte ∈ other.head?, byte ≠ 46) →
        readFraction (fraction ++ other) = some (fraction, other) := by
  have absent (other : Bytes) (ahead : ∀ byte ∈ other.head?, byte ≠ 46) : readFraction other = some ([], other) := by
    cases other <;> simp_all [readFraction]
  by_cases plain : ∀ byte ∈ s.head?, byte ≠ 46
  · obtain ⟨rfl, rfl⟩ := Prod.mk.inj (Option.some.inj ((absent s plain).symm.trans read))
    exact ⟨rfl, .inl rfl, fun other _ ahead => absent other ahead⟩
  · obtain ⟨s, rfl⟩ : ∃ tail, s = 46 :: tail := by
      cases s <;> simp_all
    obtain ⟨digits, digitsRead, rfl⟩ := of_map_read (46 :: ·) read
    obtain ⟨rfl, legal, again⟩ := readDigits_sound digitsRead
    exact ⟨rfl, .inr ⟨digits, legal, rfl⟩, fun other ahead _ => by simp [readFraction, again other ahead]⟩

theorem readExponent_sound (read : readExponent s = some (exponent, rest)) : s = exponent ++ rest ∧
      (exponent = [] ∨ ∃ mark sign digits, (mark = 101 ∨ mark = 69) ∧ SignOf [43, 45] sign ∧ Digits digits ∧
        exponent = mark :: (sign ++ digits)) ∧
      ∀ other, NoDigitAhead other → (∀ byte ∈ other.head?, byte ≠ 101 ∧ byte ≠ 69) →
        readExponent (exponent ++ other) = some (exponent, other) := by
  have absent (other : Bytes) (ahead : ∀ byte ∈ other.head?, byte ≠ 101 ∧ byte ≠ 69) :
      readExponent other = some ([], other) := by
    cases other <;> simp_all [readExponent]
  by_cases plain : ∀ byte ∈ s.head?, byte ≠ 101 ∧ byte ≠ 69
  · obtain ⟨rfl, rfl⟩ := Prod.mk.inj (Option.some.inj ((absent s plain).symm.trans read))
    exact ⟨rfl, .inl rfl, fun other _ ahead => absent other ahead⟩
  · obtain ⟨byte, s, rfl, mark⟩ : ∃ byte tail, s = byte :: tail ∧ (byte = 101 || byte = 69) = true := by
      cases s <;> simp_all [or_iff_not_imp_left]
    simp only [readExponent, if_pos mark] at read
    obtain ⟨digits, digitsRead, rfl⟩ := of_map_read (fun digits => byte :: ((readSign [43, 45] s).1 ++ digits)) read
    obtain ⟨signed, signs⟩ := readSign_sound [43, 45] s
    obtain ⟨whole, legal, again⟩ := readDigits_sound digitsRead
    refine ⟨?_, .inr ⟨byte, _, digits, by simpa using mark, signs, legal, rfl⟩, fun other ahead _ => ?_⟩
    · have spelled := signed.trans (congrArg ((readSign [43, 45] s).1 ++ ·) whole)
      simpa using spelled
    · rw [List.cons_append, List.append_assoc, readExponent, if_pos mark, readSign_append signs (legal.unsigned _)]
      simp only [again other ahead, Option.map_some]

/-- A JSON number. -/
def Number (literal : Bytes) : Prop := readNumber literal = some (literal, [])

/-- A number starts with a digit or a minus sign, and is read again in front of
anything that does not go on with it. -/
theorem readNumber_sound (read : readNumber s = some (literal, rest)) : s = literal ++ rest ∧
      (∃ first more, literal = first :: more ∧ (isDigit first = true ∨ first = 45)) ∧
      ∀ other, Delimited other → readNumber (literal ++ other) = some (literal, other) := by
  simp only [readNumber, Option.pure_def, Option.bind_eq_bind, Option.bind_eq_some_iff,
    Prod.exists, Option.some.injEq, Prod.mk.injEq] at read
  obtain ⟨integer, s₁, integerRead, fraction, s₂, fractionRead, exponent, s₃, exponentRead, rfl, rfl⟩ := read
  obtain ⟨signed, minus⟩ := readSign_sound [45] s
  obtain ⟨rest₁, legal, integerAgain⟩ := readInteger_sound integerRead
  obtain ⟨first, more, rfl⟩ := List.exists_cons_of_ne_nil legal.1
  have digit := legal.2 first (.head _)
  obtain ⟨rfl, fractions, fractionAgain⟩ := readFraction_sound fractionRead
  obtain ⟨rfl, exponents, exponentAgain⟩ := readExponent_sound exponentRead
  generalize readSign [45] s = split at signed minus rest₁
  obtain ⟨sign, tail⟩ := split
  dsimp only at signed minus rest₁ ⊢
  subst rest₁
  refine ⟨by simp [signed], ?_, fun other delimited => ?_⟩
  · rcases minus with rfl | ⟨mark, listed, rfl⟩
    · exact ⟨first, _, rfl, .inl digit⟩
    · exact ⟨mark, _, rfl, .inr (by simpa using listed)⟩
  · have exponentAhead : ∀ byte ∈ (exponent ++ other).head?, isDigit byte = false ∧ byte ≠ 46 := by
      intro byte head
      rcases exponents with rfl | ⟨mark, _, _, marked, -, -, rfl⟩
      · exact ⟨(delimited byte head).1, (delimited byte head).2.1⟩
      · obtain rfl : mark = byte := by simpa using head
        rcases marked with rfl | rfl <;> decide
    have fractionAhead : NoDigitAhead (fraction ++ (exponent ++ other)) := by
      intro byte head
      rcases fractions with rfl | ⟨_, -, rfl⟩
      · exact (exponentAhead byte head).1
      · obtain rfl : 46 = byte := by simpa using head
        decide
    have signRead := readSign_append minus fun byte head listed =>
      legal.unsigned (fraction ++ (exponent ++ other)) byte head (.tail _ listed)
    have integerRead := integerAgain _ fractionAhead
    have fractionRead := fractionAgain (exponent ++ other)
      (fun byte head => (exponentAhead byte head).1) (fun byte head => (exponentAhead byte head).2)
    have exponentRead := exponentAgain other (fun byte head => (delimited byte head).1)
      (fun byte head => (delimited byte head).2.2)
    simp only [List.append_assoc] at signRead integerRead ⊢
    simp only [readNumber, signRead, integerRead, fractionRead, exponentRead, Option.pure_def,
      Option.bind_eq_bind, Option.bind_some]

theorem Number.read (legal : Number literal) (delimited : Delimited rest) :
    readNumber (literal ++ rest) = some (literal, rest) :=
  (readNumber_sound legal).2.2 rest delimited

/-! Texts. -/

/-- Members have labels and elements have none. -/
def LabelFor : Bracket → Option Label → Prop
  | .square, none => True
  | .curly, some label => StringBody label.key ∧ AllSpace label.gap ∧ AllSpace label.lead
  | _, _ => False

mutual
def Text.WellFormed : Text → Prop
  | .null => True
  | .bool _ => True
  | .number literal => Number literal
  | .string body => StringBody body
  | .container bracket gap entries => AllSpace gap ∧ (entries ≠ [] → gap = []) ∧ WellFormedEntries bracket entries

def WellFormedEntry (bracket : Bracket) : Entry Text → Prop
  | ⟨before, label, value, after⟩ => AllSpace before ∧ LabelFor bracket label ∧ value.WellFormed ∧ AllSpace after

def WellFormedEntries (bracket : Bracket) : List (Entry Text) → Prop
  | [] => True
  | entry :: entries => WellFormedEntry bracket entry ∧ WellFormedEntries bracket entries
end

mutual
/-- How many containers are nested in a text, itself included. -/
def Text.depth : Text → ℕ
  | .container _ _ entries => entriesDepth entries + 1
  | _ => 0

def entryDepth : Entry Text → ℕ
  | ⟨_, _, value, _⟩ => value.depth

def entriesDepth : List (Entry Text) → ℕ
  | [] => 0
  | entry :: entries => max (entryDepth entry) (entriesDepth entries)
end

theorem readLabel_sound (read : readLabel bracket s = some (label, rest)) :
    s = printLabel label ++ rest ∧ LabelFor bracket label := by
  cases bracket with
  | square =>
    simp only [readLabel, Option.some.injEq, Prod.mk.injEq] at read
    obtain ⟨rfl, rfl⟩ := read
    exact ⟨rfl, trivial⟩
  | curly =>
    simp only [readLabel, Option.pure_def, Option.bind_eq_bind, Option.bind_eq_some_iff,
      Prod.exists, Option.some.injEq, Prod.mk.injEq] at read
    obtain ⟨s₁, opened, key, s₂, keyRead, s₃, colon, rfl, rfl⟩ := read
    obtain ⟨rfl, legal⟩ := readString_body keyRead
    rw [cutPrefix_eq_some] at opened colon
    have gap := readSpace_append s₂
    have lead := readSpace_append s₃
    rw [colon] at gap
    refine ⟨?_, legal, readSpace_allSpace _, readSpace_allSpace _⟩
    rw [opened]
    simp only [printLabel, Label.print, List.append_assoc, List.cons_append, List.nil_append, lead]
    simpa using gap.symm

theorem readLabel_eq (legal : LabelFor bracket label) (ahead : NoSpaceAhead rest) :
    readLabel bracket (printLabel label ++ rest) = some (label, rest) := by
  cases bracket with
  | square =>
    cases label with
    | none => rfl
    | some label => exact legal.elim
  | curly =>
    cases label with
    | none => exact legal.elim
    | some label =>
      obtain ⟨key, gap, lead⟩ := legal
      have colon : NoSpaceAhead (58 :: (label.lead ++ rest)) := by
        intro byte head
        obtain rfl : 58 = byte := by simpa using head
        decide
      have keyRead := key.read (label.gap ++ 58 :: (label.lead ++ rest))
      have opened : cutPrefix [34] (34 :: (label.key ++ 34 :: (label.gap ++ 58 ::
          (label.lead ++ rest)))) = some (label.key ++ 34 :: (label.gap ++ 58 ::
          (label.lead ++ rest))) := cutPrefix_eq_some.mpr rfl
      have separated : cutPrefix [58] (58 :: (label.lead ++ rest)) = some (label.lead ++ rest) :=
        cutPrefix_eq_some.mpr rfl
      simp only [readLabel, printLabel, Label.print, List.cons_append, List.append_assoc, opened,
        keyRead, readSpace_eq gap colon, separated, readSpace_eq lead ahead, Option.pure_def,
        Option.bind_eq_bind, Option.bind_some]

/-- What a value starts with. -/
theorem Text.WellFormed.first {p : UInt8 → Prop} {text : Text} (legal : text.WellFormed)
    (scalars : ∀ byte ∈ lit "ntf\"-0123456789", p byte)
    (containers : 0 < text.depth → ∀ bracket : Bracket, p bracket.opening) :
    ∃ byte more, text.print = byte :: more ∧ p byte := by
  cases text with
  | null => exact ⟨110, lit "ull", by decide, scalars 110 (by decide)⟩
  | bool b =>
    cases b
    · exact ⟨102, lit "alse", by decide, scalars 102 (by decide)⟩
    · exact ⟨116, lit "rue", by decide, scalars 116 (by decide)⟩
  | number literal =>
    unfold Text.WellFormed Number at legal
    obtain ⟨-, ⟨first, more, rfl, start⟩, -⟩ := readNumber_sound legal
    refine ⟨first, more, rfl, scalars first ?_⟩
    rcases start with digit | rfl
    · exact forall_bytes (p := fun byte => isDigit byte = true → byte ∈ lit "ntf\"-0123456789") (by decide +kernel) first digit
    · decide
  | string body => exact ⟨34, body ++ [34], by simp [Text.print], scalars 34 (by decide)⟩
  | container bracket => exact ⟨_, _, by rw [Text.print], containers (by simp [Text.depth]) bracket⟩

/-- A value starts with a byte that is neither white space nor a closing bracket. -/
theorem Text.WellFormed.head {text : Text} (legal : text.WellFormed) :
    ∃ byte more, text.print = byte :: more ∧ isSpace byte = false ∧ byte ≠ 93 ∧ byte ≠ 125 :=
  legal.first (by decide +kernel) fun _ bracket => by cases bracket <;> decide

/-! What a read leaves behind. -/

def ValuesSound (bound depth : ℕ) : Prop := ∀ s text rest, readValue bound depth s = some (text, rest) →
  s = text.print ++ rest ∧ text.WellFormed ∧ text.depth ≤ depth

def ContainersSound (bracket : Bracket) (bound depth : ℕ) : Prop :=
  ∀ s text rest, readContainer bracket bound depth s = some (text, rest) →
    bracket.opening :: s = text.print ++ rest ∧ text.WellFormed ∧ text.depth ≤ depth

def EntriesSound (bracket : Bracket) (bound depth : ℕ) : Prop :=
  ∀ before s entries rest, AllSpace before → readEntries bracket bound depth before s = some (entries, rest) →
    before ++ s = printEntries entries ++ bracket.closing :: rest ∧ entries ≠ [] ∧
      WellFormedEntries bracket entries ∧ entriesDepth entries ≤ depth

theorem readEntries_sound (values : ValuesSound bound depth) (more : EntriesSound bracket bound depth) :
    EntriesSound bracket (bound + 1) depth := by
  intro before s entries rest space read
  simp only [readEntries, Option.pure_def, Option.bind_eq_bind, Option.bind_eq_some_iff, Prod.exists] at read
  obtain ⟨label, s₁, labelRead, value, s₂, valueRead, read⟩ := read
  obtain ⟨rfl, labelled⟩ := readLabel_sound labelRead
  obtain ⟨rfl, legal, shallow⟩ := values _ _ _ valueRead
  have spaced := readSpace_append s₂
  have entry : WellFormedEntry bracket ⟨before, label, value, (readSpace s₂).1⟩ :=
    ⟨space, labelled, legal, readSpace_allSpace s₂⟩
  split at read
  · rename_i closed
    simp only [Option.some.injEq, Prod.mk.injEq] at read
    obtain ⟨rfl, rfl⟩ := read
    refine ⟨?_, by simp, ⟨entry, trivial⟩, by simpa [entriesDepth, entryDepth] using shallow⟩
    have tail := List.cons_head?_tail closed
    simp [printEntries, printEntry, tail, spaced]
  · simp only [Option.bind_eq_some_iff, Prod.exists, Option.some.injEq, Prod.mk.injEq] at read
    obtain ⟨s₃, comma, entries, s₄, entriesRead, rfl, rfl⟩ := read
    rw [cutPrefix_eq_some] at comma
    obtain ⟨spelled, nonempty, legalMore, shallowMore⟩ := more _ _ _ _ (readSpace_allSpace s₃) entriesRead
    refine ⟨?_, by simp, ⟨entry, legalMore⟩, ?_⟩
    · rw [readSpace_append] at spelled
      rw [comma, spelled] at spaced
      have listed : entries.isEmpty = false := by simpa using nonempty
      simp only [printEntries, printEntry, listed, Bool.false_eq_true, if_false,
        List.append_assoc, List.cons_append, List.append_cancel_left_eq]
      exact spaced.symm
    · simpa [entriesDepth, entryDepth] using ⟨shallow, shallowMore⟩

theorem readContainer_sound (entriesRead : ∀ depth, EntriesSound bracket bound depth) :
    ContainersSound bracket (bound + 1) depth := by
  intro s text rest read
  cases depth with
  | zero => simp [readContainer] at read
  | succ depth =>
    simp only [readContainer] at read
    have spaced := readSpace_append s
    split at read
    · rename_i closed
      simp only [Option.some.injEq, Prod.mk.injEq] at read
      obtain ⟨rfl, rfl⟩ := read
      have tail := List.cons_head?_tail closed
      refine ⟨?_, ⟨readSpace_allSpace s, fun absent => absurd rfl absent, trivial⟩,
        by simp [Text.depth, entriesDepth]⟩
      simp [Text.print, printEntries, tail, spaced]
    · obtain ⟨entries, inner, rfl⟩ := of_map_read (Text.container bracket []) read
      obtain ⟨spelled, -, legal, shallow⟩ := entriesRead _ _ _ _ _ (readSpace_allSpace s) inner
      refine ⟨?_, ⟨by simp [AllSpace], fun _ => rfl, legal⟩, by simpa [Text.depth] using shallow⟩
      rw [spaced] at spelled
      simp [Text.print, spelled]

theorem readValue_sound (containers : ∀ bracket, ContainersSound bracket bound depth) :
    ValuesSound (bound + 1) depth := by
  intro s text rest read
  cases s with
  | nil => simp [readValue] at read
  | cons byte s =>
    simp only [readValue] at read
    split_ifs at read with word word word isString isSquare isCurly
    -- the words: null, true and false
    iterate 3
      simp only [Option.map_eq_some_iff, Prod.mk.injEq] at read
      obtain ⟨after, spelled, rfl, rfl⟩ := read
      rw [cutPrefix_eq_some] at spelled
      exact ⟨by rw [word, spelled]; rfl, trivial, Nat.zero_le _⟩
    · obtain ⟨body, inner, rfl⟩ := of_map_read Text.string read
      obtain ⟨rfl, legal⟩ := readString_body inner
      exact ⟨by simp [isString, Text.print], legal, Nat.zero_le _⟩
    · rw [isSquare]
      exact containers .square _ _ _ read
    · rw [isCurly]
      exact containers .curly _ _ _ read
    · obtain ⟨literal, inner, rfl⟩ := of_map_read Text.number read
      obtain ⟨spelled, -, again⟩ := readNumber_sound inner
      refine ⟨spelled, ?_, Nat.zero_le _⟩
      have alone := again [] (by simp [Delimited])
      rw [List.append_nil] at alone
      exact alone

theorem read_sound (bound : ℕ) : (∀ depth, ValuesSound bound depth) ∧
    (∀ bracket depth, ContainersSound bracket bound depth) ∧ ∀ bracket depth, EntriesSound bracket bound depth := by
  induction bound with
  | zero => simp [ValuesSound, ContainersSound, EntriesSound, readValue, readContainer, readEntries]
  | succ bound ih =>
    obtain ⟨values, containers, entriesRead⟩ := ih
    refine ⟨fun depth => ?_, fun bracket depth => ?_, fun bracket depth => ?_⟩
    · exact readValue_sound fun bracket => containers bracket depth
    · exact readContainer_sound (entriesRead bracket)
    · exact readEntries_sound (values depth) (entriesRead bracket depth)

/-! Reading what was printed. -/

/-- What separates an entry from the closing bracket. -/
def printMore (entries : List (Entry Text)) : Bytes :=
  if entries.isEmpty then [] else 44 :: printEntries entries

theorem Delimited.space (space : AllSpace after) (delimited : Delimited tail) : Delimited (after ++ tail) := by
  cases after with
  | nil => exact delimited
  | cons first after =>
    intro byte head
    obtain rfl : first = byte := by simpa using head
    have blank := space first (.head _)
    simp only [isSpace, Bool.or_eq_true, decide_eq_true_eq] at blank
    rcases blank with ((rfl | rfl) | rfl) | rfl <;> decide

/-- A comma or a closing bracket follows every entry. -/
theorem printMore_ahead (bracket : Bracket) (entries : List (Entry Text)) (rest : Bytes) :
    Delimited (printMore entries ++ bracket.closing :: rest) ∧
      NoSpaceAhead (printMore entries ++ bracket.closing :: rest) := by
  cases entries with
  | nil =>
    constructor <;> intro byte head <;> obtain rfl : bracket.closing = byte := by
      simpa [printMore] using head
    all_goals cases bracket <;> decide
  | cons entry entries =>
    constructor <;> intro byte head <;> obtain rfl : 44 = byte := by
      simpa [printMore] using head
    all_goals decide

/-- An entry starts, after its white space, with a byte that is neither white
space nor a closing bracket. -/
theorem entry_head (bracket : Bracket) (label : Option Label) {value : Text}
    (legal : value.WellFormed) (rest : Bytes) : ∀ byte ∈ (printLabel label ++ (value.print ++ rest)).head?,
      isSpace byte = false ∧ byte ≠ bracket.closing := by
  intro byte head
  cases label with
  | none =>
    obtain ⟨first, more, spelled, solid, notSquare, notCurly⟩ := legal.head
    obtain rfl : first = byte := by simpa [printLabel, spelled] using head
    cases bracket
    · exact ⟨solid, notSquare⟩
    · exact ⟨solid, notCurly⟩
  | some label =>
    obtain rfl : 34 = byte := by simpa [printLabel, Label.print] using head
    cases bracket <;> decide

/-- The white space of the first entry is read to its end, where no bracket closes. -/
theorem readSpace_entries {entry : Entry Text} (legal : WellFormedEntries bracket (entry :: entries)) (rest : Bytes) :
    let more := printLabel entry.label ++ (entry.value.print ++ (entry.after ++ (printMore entries ++ bracket.closing :: rest)))
    readSpace (printEntries (entry :: entries) ++ bracket.closing :: rest) = (entry.before, more) ∧
      ¬ more.head? = some bracket.closing := by
  intro more
  obtain ⟨before, label, value, after⟩ := entry
  obtain ⟨⟨space, -, valueLegal, -⟩, -⟩ := legal
  have heads := entry_head bracket label valueLegal (after ++ (printMore entries ++ bracket.closing :: rest))
  refine ⟨?_, fun closed => (heads _ closed).2 rfl⟩
  rw [← readSpace_eq space fun byte head => (heads byte head).1]
  simp [printEntries, printEntry, printMore]

def ValuesRead (bound depth : ℕ) : Prop := ∀ (text : Text) (rest : Bytes), text.WellFormed → text.depth ≤ depth →
  2 * text.print.length ≤ bound → (∀ literal, text = .number literal → Delimited rest) →
    readValue bound depth (text.print ++ rest) = some (text, rest)

def ContainersRead (bracket : Bracket) (bound depth : ℕ) : Prop := ∀ gap entries rest,
  (Text.container bracket gap entries).WellFormed → (Text.container bracket gap entries).depth ≤ depth →
  2 * (gap.length + (printEntries entries).length) + 2 ≤ bound →
    readContainer bracket bound depth (gap ++ (printEntries entries ++ bracket.closing :: rest)) =
      some (.container bracket gap entries, rest)

def EntriesRead (bracket : Bracket) (bound depth : ℕ) : Prop := ∀ entry entries rest,
  WellFormedEntries bracket (entry :: entries) → entriesDepth (entry :: entries) ≤ depth →
  2 * (printEntries (entry :: entries)).length + 1 ≤ bound →
    readEntries bracket bound depth entry.before (printLabel entry.label ++
      (entry.value.print ++ (entry.after ++ (printMore entries ++ bracket.closing :: rest)))) = some (entry :: entries, rest)

theorem readEntries_eq {bracket : Bracket} (values : ValuesRead bound depth) (more : EntriesRead bracket bound depth) :
    EntriesRead bracket (bound + 1) depth := by
  rintro ⟨before, label, value, after⟩ entries rest legal shallow room
  obtain ⟨⟨-, labelled, valueLegal, spaceAfter⟩, moreLegal⟩ := legal
  simp only [entriesDepth, entryDepth, sup_le_iff] at shallow
  simp only [printEntries, printEntry, List.length_append] at room
  obtain ⟨delimited, ahead⟩ := printMore_ahead bracket entries rest
  have valueAhead : NoSpaceAhead (value.print ++ (after ++ (printMore entries ++ bracket.closing :: rest))) :=
    fun byte head => (entry_head bracket none valueLegal _ byte head).1
  have labelRead := readLabel_eq labelled valueAhead
  have valueRead := values value _ valueLegal shallow.1 (by omega) fun _ _ => delimited.space spaceAfter
  simp only [readEntries, labelRead, valueRead, readSpace_eq spaceAfter ahead, Option.pure_def,
    Option.bind_eq_bind, Option.bind_some]
  cases entries with
  | nil => simp [printMore]
  | cons next entries =>
    have notClosed : ¬ (printMore (next :: entries) ++ bracket.closing :: rest).head? = some bracket.closing := by
      cases bracket <;> simp [printMore, Bracket.closing]
    have comma : cutPrefix [44] (printMore (next :: entries) ++ bracket.closing :: rest) =
        some (printEntries (next :: entries) ++ bracket.closing :: rest) :=
      cutPrefix_eq_some.mpr (by simp [printMore])
    have spaceRead := (readSpace_entries moreLegal rest).1
    have moreRead := more next entries rest moreLegal shallow.2 (by simp at room; omega)
    rw [if_neg notClosed, comma]
    simp only [Option.bind_some, spaceRead, moreRead]

theorem readContainer_eq {bracket : Bracket} (entriesRead : ∀ depth, EntriesRead bracket bound depth) :
    ContainersRead bracket (bound + 1) depth := by
  rintro gap entries rest ⟨space, bare, entriesLegal⟩ shallow room
  simp only [Text.depth] at shallow
  obtain ⟨depth, rfl⟩ : ∃ inner, depth = inner + 1 := ⟨depth - 1, by omega⟩
  simp only [readContainer]
  cases entries with
  | nil =>
    have ahead := (printMore_ahead bracket [] rest).2
    simp only [printMore, printEntries, List.isEmpty_nil, if_true, List.nil_append] at ahead ⊢
    simp [readSpace_eq space ahead]
  | cons entry entries =>
    obtain rfl := bare (by simp)
    have inner := entriesRead depth entry entries rest entriesLegal (by omega) (by simp at room; omega)
    obtain ⟨spaceRead, notClosed⟩ := readSpace_entries entriesLegal rest
    simp only [List.nil_append, spaceRead, if_neg notClosed, inner, Option.map_some]

theorem readValue_eq {bound depth : ℕ} (containers : ∀ bracket, ContainersRead bracket bound depth) :
    ValuesRead (bound + 1) depth := by
  intro text rest legal shallow room ends
  have literal (front : Bytes) : cutPrefix front (front ++ rest) = some rest := cutPrefix_eq_some.mpr rfl
  cases text with
  | null =>
    have spelled : Text.null.print ++ rest = 110 :: (lit "ull" ++ rest) := rfl
    simp [spelled, readValue, literal]
  | bool b =>
    cases b
    · have spelled : (Text.bool false).print ++ rest = 102 :: (lit "alse" ++ rest) := rfl
      simp [spelled, readValue, literal]
    · have spelled : (Text.bool true).print ++ rest = 116 :: (lit "rue" ++ rest) := rfl
      simp [spelled, readValue, literal]
  | number digits =>
    obtain ⟨-, ⟨first, more, rfl, start⟩, -⟩ := readNumber_sound legal
    have read := Number.read legal (ends _ rfl)
    have other : first ≠ 110 ∧ first ≠ 116 ∧ first ≠ 102 ∧ first ≠ 34 ∧ first ≠ 91 ∧ first ≠ 123 := by
      rcases start with digit | rfl
      · refine ⟨?_, ?_, ?_, ?_, ?_, ?_⟩ <;> rintro rfl <;> exact absurd digit (by decide)
      · decide
    simp only [List.cons_append] at read
    simp [Text.print, readValue, other, read]
  | string body =>
    have read := StringBody.read legal rest
    simp [Text.print, readValue, read]
  | container bracket gap entries =>
    simp only [Text.print, List.length_cons, List.length_append, List.length_nil] at room
    have read := containers bracket gap entries rest legal shallow (by omega)
    cases bracket <;> simpa [Text.print, readValue, Bracket.opening] using read

theorem read_complete (bound : ℕ) : (∀ depth, ValuesRead bound depth) ∧
    (∀ bracket depth, ContainersRead bracket bound depth) ∧ ∀ bracket depth, EntriesRead bracket bound depth := by
  induction bound with
  | zero =>
    refine ⟨fun depth text rest legal _ room _ => ?_, fun _ _ _ _ _ _ _ room => by omega,
      fun _ _ _ _ _ _ _ room => by omega⟩
    obtain ⟨byte, more, spelled, -⟩ := legal.head
    simp [spelled] at room
  | succ bound ih =>
    obtain ⟨values, containers, entriesRead⟩ := ih
    refine ⟨fun depth => ?_, fun bracket depth => ?_, fun bracket depth => ?_⟩
    · exact readValue_eq fun bracket => containers bracket depth
    · exact readContainer_eq (entriesRead bracket)
    · exact readEntries_eq (values depth) (entriesRead bracket depth)

/-- A text is read back from the front of a byte string. -/
theorem readText_print {text : Text} (legal : text.WellFormed) (shallow : text.depth ≤ maxNestingDepth)
    (ends : ∀ literal, text = .number literal → Delimited rest) :
    readText (text.print ++ rest) = some (text, rest) := by
  obtain ⟨first, more, spelled, solid, -⟩ := legal.head
  have ahead : readSpace (text.print ++ rest) = ([], text.print ++ rest) := by
    have blank : AllSpace [] := by simp [AllSpace]
    refine readSpace_eq blank fun byte head => ?_
    obtain rfl : first = byte := by simpa [spelled] using head
    exact solid
  unfold readText
  rw [ahead]
  exact (read_complete _).1 _ _ _ legal shallow (by simp) ends

theorem readText_sound (read : readText s = some (text, rest)) :
    s = (readSpace s).1 ++ (text.print ++ rest) ∧ text.WellFormed ∧ text.depth ≤ maxNestingDepth := by
  obtain ⟨spelled, legal, shallow⟩ := (read_sound _).1 _ _ _ _ read
  refine ⟨?_, legal, shallow⟩
  rw [← spelled, readSpace_append]

/-- A spelling starts with one well-formed text only. -/
theorem Text.WellFormed.append_inj {left right : Text} (legal : left.WellFormed) (legal' : right.WellFormed)
    (ends : ∀ literal, left = .number literal → Delimited rest)
    (ends' : ∀ literal, right = .number literal → Delimited rest')
    (same : left.print ++ rest = right.print ++ rest') : left = right ∧ rest = rest' := by
  have read := (read_complete (2 * (left.print ++ rest).length)).1 (max left.depth right.depth) left rest
    legal (le_max_left ..) (by simp) ends
  have read' := (read_complete (2 * (right.print ++ rest').length)).1 (max left.depth right.depth) right rest'
    legal' (le_max_right ..) (by simp) ends'
  rw [same, read'] at read
  exact (Prod.mk.inj (Option.some.inj read)).imp Eq.symm Eq.symm

/-- Two well-formed texts with one spelling are one text. -/
theorem Text.WellFormed.print_inj {left right : Text} (legal : left.WellFormed)
    (legal' : right.WellFormed) (same : left.print = right.print) : left = right :=
  (legal.append_inj legal' (fun _ _ => by simp [Delimited]) (fun _ _ => by simp [Delimited])
    (congrArg (· ++ []) same)).1

end JsonText
