import Eunox.JsonString

/-! Valid UTF-8 as a concatenation of encoded runes, and Go's functions that
make a string valid or cut it between runes. -/
namespace Utf8
open ByteString PathPattern JsonText

/-- `utf8.RuneStart`. -/
def runeStart (byte : UInt8) : Bool := !continuation byte

/-- The bytes of one rune: they are decoded to it whatever follows, and only the
first of them can start a rune. -/
structure Encodes (word : Bytes) (rune : ℕ) : Prop where
  decodes : ∀ rest : Bytes, decodeRune (word ++ rest) = (rune, word.length)
  encodes : encodeRune rune = word
  proper : (rune, word.length) ≠ (runeError, 1)
  starts : ∀ byte ∈ word.head?, runeStart byte = true
  continues : ∀ byte ∈ word.tail, runeStart byte = false
  nonempty : word ≠ []

/-- What `utf8.ValidString` accepts. -/
inductive Valid : Bytes → Prop where
  | nil : Valid []
  | rune {word rest : Bytes} {rune : ℕ} (encodes : Encodes word rune) (more : Valid rest) :
      Valid (word ++ rest)

theorem Valid.append (first : Valid left) (second : Valid right) : Valid (left ++ right) := by
  induction first with
  | nil => exact second
  | rune encodes _ ih =>
    rw [List.append_assoc]
    exact .rune encodes ih

theorem encodes_ascii (ascii : byte < 0x80) : Encodes [byte] byte.toNat := by
  have small : byte.toNat < 0x80 := UInt8.lt_iff_toNat_lt.mp ascii
  refine ⟨fun rest => decodeRune_ascii rest ascii, by simp [encodeRune, small], ?_, ?_, by simp, by simp⟩
  · intro same
    have := congrArg Prod.fst same
    simp only [runeError] at this
    omega
  · intro head held
    obtain rfl : byte = head := by simpa using held
    have low : ¬ (0x80 : UInt8) ≤ byte := UInt8.not_le.mpr ascii
    simp [runeStart, continuation, low]

theorem valid_ascii (ascii : ∀ byte ∈ s, byte < 0x80) : Valid s := by
  induction s with
  | nil => exact .nil
  | cons byte rest ih =>
    exact .rune (encodes_ascii (ascii byte (.head _)))
      (ih fun other mem => ascii other (.tail _ mem))

/-! What the decoder finds. -/

theorem continuation_iff : continuation byte = true ↔ 0x80 ≤ byte.toNat ∧ byte.toNat ≤ 0xBF := by
  simp [continuation, UInt8.le_iff_toNat_le]

theorem Encodes.tail_high (encodes : Encodes word rune) (mem : byte ∈ word.tail) : 0x80 ≤ byte := by
  have follows : continuation byte = true := by simpa [runeStart] using encodes.continues byte mem
  exact (continuation_iff.mp follows).1

/-- A byte from what it is worth. -/
theorem ofNat_eq (byte : UInt8) (same : n = byte.toNat) : UInt8.ofNat n = byte := by
  rw [same, UInt8.ofNat_toNat]

theorem between {low high byte : UInt8} (above : low.toNat ≤ byte.toNat) (below : byte.toNat ≤ high.toNat) :
    (low ≤ byte && byte ≤ high) = true := by
  simp only [Bool.and_eq_true, decide_eq_true_eq]
  exact ⟨above, below⟩

theorem beyond {low high byte : UInt8} (past : high.toNat < byte.toNat) : (low ≤ byte && byte ≤ high) = false := by
  simp only [Bool.and_eq_false_iff, decide_eq_false_iff_not]
  exact .inr (not_le.mpr past)

theorem notASCII_of {byte : UInt8} (high : 0x80 ≤ byte.toNat) : ¬ byte < 0x80 := by
  exact not_lt.mpr high

/-- A word whose first byte is past the continuation bytes and whose other bytes
are continuation bytes. -/
theorem encodes_of (decodes : ∀ rest : Bytes, decodeRune (lead :: tail ++ rest) = (rune, tail.length + 1))
    (encodes : encodeRune rune = lead :: tail) (long : tail ≠ []) (high : 0xBF < lead.toNat)
    (continues : ∀ byte ∈ tail, continuation byte = true) : Encodes (lead :: tail) rune := by
  refine ⟨fun rest => by simpa using decodes rest, encodes, ?_, ?_, ?_, by simp⟩
  · intro same
    have single := congrArg Prod.snd same
    simp [long] at single
  · intro head held
    obtain rfl : lead = head := by simpa using held
    have past : ¬ continuation lead = true := by
      rw [continuation_iff]
      omega
    simpa [runeStart] using past
  · intro byte mem
    simp [runeStart, continues byte mem]

theorem encodes_two (low : 0xC2 ≤ lead.toNat) (high : lead.toNat ≤ 0xDF) (held : continuation second = true) :
    Encodes [lead, second] (lead.toNat % 32 * 64 + tailBits second) := by
  have bounds := continuation_iff.mp held
  have notASCII := notASCII_of (show 0x80 ≤ lead.toNat by omega)
  have inRange : (0xC2 ≤ lead && lead ≤ 0xDF) = true := between low high
  refine encodes_of (fun rest => ?_) ?_ (by simp) (by omega) (by simpa using held)
  · simp [decodeRune, notASCII, inRange, held]
  · unfold encodeRune tailBits
    rw [if_neg (by omega), if_pos (by omega), ofNat_eq lead (by omega), ofNat_eq second (by omega)]

/-- The range of the second byte that leaves out overlong forms and surrogates, or
code points past the last one. -/
theorem second_range {lead second tight loose : UInt8} (least_le : 0x80 ≤ least.toNat) (most_le : most.toNat ≤ 0xBF) :
    ((if lead = tight then least else 0x80) ≤ second && second ≤ if lead = loose then most else 0xBF) = true ↔
      continuation second = true ∧ (lead.toNat = tight.toNat → least.toNat ≤ second.toNat) ∧
        (lead.toNat = loose.toNat → second.toNat ≤ most.toNat) := by
  have floor : (0x80 : UInt8).toNat = 0x80 := rfl
  have ceiling : (0xBF : UInt8).toNat = 0xBF := rfl
  simp only [Bool.and_eq_true, decide_eq_true_eq, UInt8.le_iff_toNat_le, continuation_iff, UInt8.toNat_inj]
  constructor
  · rintro ⟨above, below⟩
    refine ⟨⟨?_, ?_⟩, fun same => by rwa [if_pos same] at above, fun same => by rwa [if_pos same] at below⟩
    · split at above <;> omega
    · split at below <;> omega
  · rintro ⟨⟨low, high⟩, above, below⟩
    constructor <;> split
    · exact above ‹_›
    · exact low
    · exact below ‹_›
    · exact high

theorem encodes_three {lead second third : UInt8} (low : 0xE0 ≤ lead.toNat)
    (high : lead.toNat ≤ 0xEF) (second_held : continuation second = true) (least : lead.toNat = 0xE0 → 0xA0 ≤ second.toNat)
    (most : lead.toNat = 0xED → second.toNat ≤ 0x9F) (held : continuation third = true) :
    Encodes [lead, second, third] (lead.toNat % 16 * 4096 + tailBits second * 64 + tailBits third) := by
  have range : ((if lead = 0xE0 then 0xA0 else 0x80) ≤ second && second ≤ if lead = 0xED then 0x9F else 0xBF) = true :=
    (second_range (by decide) (by decide)).mpr ⟨second_held, least, most⟩
  have bounds := continuation_iff.mp held
  have bounds' := continuation_iff.mp second_held
  have notASCII := notASCII_of (show 0x80 ≤ lead.toNat by omega)
  have notTwo : (0xC2 ≤ lead && lead ≤ 0xDF) = false := beyond (show 0xDF < lead.toNat by omega)
  have inRange : (0xE0 ≤ lead && lead ≤ 0xEF) = true := between low high
  refine encodes_of (fun rest => ?_) ?_ (by simp) (by omega) (by simp [second_held, held])
  · simp [decodeRune, notASCII, notTwo, inRange, range, held]
  · unfold encodeRune tailBits
    rw [if_neg (by omega), if_neg (by omega), if_neg (by
      simp only [Bool.or_eq_true, Bool.and_eq_true, decide_eq_true_eq]; omega), if_pos (by omega),
      ofNat_eq lead (by omega), ofNat_eq second (by omega), ofNat_eq third (by omega)]

theorem encodes_four {lead second third fourth : UInt8} (low : 0xF0 ≤ lead.toNat)
    (high : lead.toNat ≤ 0xF4) (second_held : continuation second = true) (least : lead.toNat = 0xF0 → 0x90 ≤ second.toNat)
    (most : lead.toNat = 0xF4 → second.toNat ≤ 0x8F) (held : continuation third = true) (held' : continuation fourth = true) :
    Encodes [lead, second, third, fourth]
      (lead.toNat % 8 * 262144 + tailBits second * 4096 + tailBits third * 64 + tailBits fourth) := by
  have range : ((if lead = 0xF0 then 0x90 else 0x80) ≤ second && second ≤ if lead = 0xF4 then 0x8F else 0xBF) = true :=
    (second_range (by decide) (by decide)).mpr ⟨second_held, least, most⟩
  have bounds := continuation_iff.mp held
  have bounds' := continuation_iff.mp held'
  have bounds'' := continuation_iff.mp second_held
  have notASCII := notASCII_of (show 0x80 ≤ lead.toNat by omega)
  have notTwo : (0xC2 ≤ lead && lead ≤ 0xDF) = false := beyond (show 0xDF < lead.toNat by omega)
  have notThree : (0xE0 ≤ lead && lead ≤ 0xEF) = false := beyond (show 0xEF < lead.toNat by omega)
  have inRange : (0xF0 ≤ lead && lead ≤ 0xF4) = true := between low high
  refine encodes_of (fun rest => ?_) ?_ (by simp) (by omega) (by simp [second_held, held, held'])
  · simp [decodeRune, notASCII, notTwo, notThree, inRange, range, held, held']
  · unfold encodeRune tailBits
    rw [if_neg (by omega), if_neg (by omega), if_neg (by
      simp only [Bool.or_eq_true, Bool.and_eq_true, decide_eq_true_eq]; omega), if_neg (by omega),
      ofNat_eq lead (by omega), ofNat_eq second (by omega), ofNat_eq third (by omega),
      ofNat_eq fourth (by omega)]

/-- What the decoder takes is a rune, or one byte that starts none. -/
theorem decodeRune_cases (byte : UInt8) (rest : Bytes) : decodeRune (byte :: rest) = (runeError, 1) ∧ ¬ byte < 0x80 ∨
      Encodes ((byte :: rest).take (decodeRune (byte :: rest)).2) (decodeRune (byte :: rest)).1 := by
  by_cases ascii : byte < 0x80
  · exact .inr (by simpa [decodeRune_ascii _ ascii] using encodes_ascii ascii)
  simp only [decodeRune, if_neg ascii]
  split
  · rename_i lead
    simp only [Bool.and_eq_true, decide_eq_true_eq] at lead
    split
    · split
      · exact .inr (by simpa using encodes_two lead.1 lead.2 ‹_›)
      · exact .inl ⟨rfl, ascii⟩
    · exact .inl ⟨rfl, ascii⟩
  split
  · rename_i lead
    simp only [Bool.and_eq_true, decide_eq_true_eq] at lead
    split
    · rename_i second third rest
      by_cases held : ((if byte = 0xE0 then 0xA0 else 0x80) ≤ second &&
          second ≤ (if byte = 0xED then 0x9F else 0xBF) && continuation third) = true
      · rw [if_pos held]
        rw [Bool.and_eq_true, second_range (by decide) (by decide)] at held
        exact .inr (by simpa using encodes_three lead.1 lead.2 held.1.1 held.1.2.1 held.1.2.2 held.2)
      · rw [if_neg held]
        exact .inl ⟨rfl, ascii⟩
    · exact .inl ⟨rfl, ascii⟩
  split
  · rename_i lead
    simp only [Bool.and_eq_true, decide_eq_true_eq] at lead
    split
    · rename_i second third fourth rest
      by_cases held : ((if byte = 0xF0 then 0x90 else 0x80) ≤ second &&
          second ≤ (if byte = 0xF4 then 0x8F else 0xBF) && continuation third && continuation fourth) = true
      · rw [if_pos held]
        rw [Bool.and_eq_true, Bool.and_eq_true, second_range (by decide) (by decide)] at held
        obtain ⟨⟨⟨second_held, least, most⟩, third_held⟩, fourth_held⟩ := held
        exact .inr (by simpa using encodes_four lead.1 lead.2 second_held least most third_held fourth_held)
      · rw [if_neg held]
        exact .inl ⟨rfl, ascii⟩
    · exact .inl ⟨rfl, ascii⟩
  · exact .inl ⟨rfl, ascii⟩

theorem decodeRune_size (byte : UInt8) (rest : Bytes) : 0 < (decodeRune (byte :: rest)).2 := by
  rcases decodeRune_cases byte rest with ⟨broken, -⟩ | encodes
  · simp [broken]
  · by_contra empty
    exact encodes.nonempty (by simp [Nat.eq_zero_of_not_pos empty])

/-- The rune at the front starts with the first byte. -/
theorem decodeRune_front (byte : UInt8) (rest : Bytes) :
    ∃ tail, (byte :: rest).take (decodeRune (byte :: rest)).2 = byte :: tail := by
  have size := decodeRune_size byte rest
  obtain ⟨n, same⟩ := Nat.exists_eq_succ_of_ne_zero (show (decodeRune (byte :: rest)).2 ≠ 0 by omega)
  exact ⟨rest.take n, by rw [same, List.take_succ_cons]⟩

/-! Making a string valid. -/

/-- `strings.ToValidUTF8`: a run of bytes that start no rune is replaced as a
whole. The flag says whether the byte before was one of them. -/
def toValidFrom (replacement : Bytes) : ℕ → Bool → Bytes → Bytes
  | 0, _, _ => []
  | _ + 1, _, [] => []
  | bound + 1, invalid, byte :: rest =>
    if byte < 0x80 then byte :: toValidFrom replacement bound false rest
    else
      let size := (decodeRune (byte :: rest)).2
      if size = 1 then
        (if invalid then [] else replacement) ++ toValidFrom replacement bound true rest
      else
        (byte :: rest).take size ++ toValidFrom replacement bound false ((byte :: rest).drop size)

def toValid (replacement s : Bytes) : Bytes := toValidFrom replacement s.length false s

/-- The last place up to `keep` where a rune starts. -/
def runeBoundaryCut (s : Bytes) : ℕ → ℕ
  | 0 => 0
  | keep + 1 => if (s[keep + 1]?.all runeStart) then keep + 1 else runeBoundaryCut s keep

end Utf8
