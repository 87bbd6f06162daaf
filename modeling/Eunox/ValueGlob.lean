import Eunox.Message
import Eunox.PathMeaning
import Eunox.PercentEncoding

/-! Matching an argument's value against a glob. A value is judged as an upstream
would resolve it, percent-decoded and with backslashes as slashes, while the
matcher reads the spelling it was given; what is accepted is confined in both. -/
namespace Eunox
open ByteString PathPattern PercentEncoding

/-! The resolved spelling. -/

/-- `strings.ReplaceAll` of the backslash by the slash. -/
def foldSlashes (s : Bytes) : Bytes := s.map fun byte => if byte = 92 then 47 else byte

/-- `strings.ToLower` where only ASCII text is then looked for: no other rune
lowers to a byte of the tokens below. -/
def lowerASCII (s : Bytes) : Bytes := s.map fun byte => if 65 ≤ byte && byte ≤ 90 then byte + 32 else byte

/-- `strings.Contains`. -/
def contains (s token : Bytes) : Bool := token <:+: s

def containsEncodedSeparator (s : Bytes) : Bool :=
  contains (lowerASCII s) (lit "%2f") || contains (lowerASCII s) (lit "%5c")

def containsEncodedNUL (s : Bytes) : Bool := contains (lowerASCII s) (lit "%00")

inductive PathFault where
  | malformedEscape
  | nul
  deriving DecidableEq

def decodePathForConfinement (value : Bytes) : Except PathFault Bytes :=
  let folded := foldSlashes value
  if folded.contains 0 then .error .nul
  else
    match pathUnescape folded with
    | none => .error (if containsEncodedNUL folded then .nul else .malformedEscape)
    | some decoded =>
      let decoded := foldSlashes decoded
      if decoded.contains 0 then .error .nul else .ok decoded

/-! Patterns. -/

def globClassPlaceholder : UInt8 := 0

/-- The bytes a pattern compares literally, each class as one placeholder. The
flag says whether a class is open. -/
def scanPatternLiterals : Bool → Bytes → Bytes
  | _, [] => []
  | inClass, 92 :: escaped :: rest =>
    if inClass then scanPatternLiterals inClass rest
    else escaped :: scanPatternLiterals inClass rest
  | inClass, byte :: rest =>
    if byte = 91 then
      if inClass then scanPatternLiterals true rest
      else globClassPlaceholder :: scanPatternLiterals true rest
    else if byte = 93 then
      if inClass then scanPatternLiterals false rest
      else byte :: scanPatternLiterals inClass rest
    else if inClass then scanPatternLiterals inClass rest
    else byte :: scanPatternLiterals inClass rest

def patternLiteralsOutsideClasses (pattern : Bytes) : Bytes := scanPatternLiterals false pattern

def countPatternPathSeparators (pattern : Bytes) : ℕ := (scanPatternLiterals false pattern).count 47

def maxGlobSegments : ℕ := 1000

def anyDepth : Bytes := lit "**"

def badPattern : Message := [.text "syntax error in pattern"]

def validateValueGlob (pattern : Bytes) : Except Message Unit :=
  if pattern = lit "*" || pattern = anyDepth then .ok ()
  else if containsEncodedSeparator (patternLiteralsOutsideClasses pattern) then
    .error (badPattern ++ [.text (": pattern contains an encoded path separator (%2f/%5c); the runtime confinement " ++
      "denies any value that decodes to a separator, so the grant would match nothing")])
  else if contains pattern anyDepth && maxGlobSegments ≤ pattern.count 47 then
    .error (badPattern ++ [.text ": pattern has more than ", .int maxGlobSegments,
      .text " path segments, exceeding the runtime match cap; the grant would match nothing"])
  else
    match (segments pattern).find? fun seg => seg = lit "." || seg = lit ".." with
    | some seg => .error (badPattern ++ [.text ": pattern contains an unmatchable ", .quoted seg, .text " segment"])
    | none =>
      if !contains pattern anyDepth then
        if (pathMatch pattern []).isSome then .ok () else .error badPattern
      else if (segments pattern).all fun seg => seg = anyDepth || (pathMatch seg []).isSome then .ok ()
      else .error badPattern

/-! Confinement. -/

/-- The folded value and, for a pattern with `**`, which of its segments decode to
more than one; nothing to deny. -/
def confinePathStylePattern (pattern value : Bytes) : Option (Bytes × List Bool) :=
  match decodePathForConfinement value with
  | .error _ => none
  | .ok scan =>
    if (segments scan).any fun seg => seg = lit ".." || seg = lit "." then none
    else
      let folded := foldSlashes value
      if !contains pattern anyDepth then
        if scan.count 47 ≠ folded.count 47 then none
        else if countPatternPathSeparators pattern ≠ folded.count 47 then none
        else some (folded, [])
      else if maxGlobSegments < (segments folded).length then none
      else
        some (folded, (segments folded).map fun seg =>
          match decodePathForConfinement seg with
          | .error _ => true
          | .ok decoded => decoded.contains 47)

def confineSlashlessPattern (value : Bytes) : Bool :=
  match decodePathForConfinement value with
  | .error .nul => false
  | .error .malformedEscape =>
    if containsEncodedSeparator value then false
    else
      let scan := foldSlashes value
      scan.count 47 = 0 && scan ≠ lit "." && scan ≠ lit ".."
  | .ok scan => scan.count 47 = 0 && scan ≠ lit "." && scan ≠ lit ".."

/-! The segment matcher: its table, row by row from the last pattern segment. A
row says from which value segment on the rest of the pattern matches. -/

def anyDepthRow : List Bool → List Bool
  | [] => []
  | [last] => [last]
  | here :: next =>
    let row := anyDepthRow next
    (here || row.headD false) :: row

/-- A value segment with the flag that it decodes to more than one. -/
def segmentRow (seg : Bytes) : List (Bytes × Bool) → List Bool → List Bool
  | (part, spans) :: parts, _ :: next =>
    (!spans && (pathMatch seg part).getD false && next.headD false) :: segmentRow seg parts next
  | _, _ => [false]

def globTable (cells : List (Bytes × Bool)) : List Bytes → List Bool
  | [] => List.replicate cells.length false ++ [true]
  | seg :: pat =>
    if seg = anyDepth then anyDepthRow (globTable cells pat)
    else segmentRow seg cells (globTable cells pat)

def matchGlobSegments (pat val : List Bytes) (valSpansSep : List Bool) : Bool :=
  if maxGlobSegments < val.length || maxGlobSegments < pat.length then false
  else (globTable (val.mapIdx fun j part => (part, valSpansSep.getD j false)) pat).headD false

def matchValueGlob (pattern value : Bytes) : Bool :=
  if pattern = lit "*" || pattern = anyDepth then true
  else
    match
      if pattern.contains 47 then confinePathStylePattern pattern value
      else if confineSlashlessPattern value then some (value, []) else none with
    | none => false
    | some (value, valSpansSep) =>
      if !contains pattern anyDepth then (pathMatch pattern value).getD false
      else if (pattern.head? == some 47) != (value.head? == some 47) then false
      else matchGlobSegments (segments pattern) (segments value) valSpansSep

example : matchValueGlob (lit "/reports/**/[^z]*.pdf") (lit "/reports/a/b/q3.pdf") = true := by
  decide
example : matchValueGlob (lit "/reports/**") (lit "/reports/..%2fetc") = false := rfl
example : matchValueGlob (lit "/a[^z]b") (lit "/a/b") = false := rfl

/-! What a value resolves to. -/

/-- The value percent-decoded, with backslashes as slashes on both sides of the
decoding. -/
def resolved (value : Bytes) : Bytes := foldSlashes (percentDecode (foldSlashes value))

theorem mem_foldSlashes (mem : byte ∈ foldSlashes s) : byte ∈ s ∨ byte = 47 ∧ 92 ∈ s := by
  obtain ⟨other, held, same⟩ := List.mem_map.mp mem
  split at same
  · rename_i slash
    exact .inr ⟨same.symm, slash ▸ held⟩
  · exact .inl (same ▸ held)

theorem backslash_folded (s : Bytes) : 92 ∉ foldSlashes s := by
  intro mem
  obtain ⟨other, -, same⟩ := List.mem_map.mp mem
  split at same
  · cases same
  · contradiction

theorem foldSlashes_self (folded : 92 ∉ s) : foldSlashes s = s := by
  refine (List.map_congr_left fun byte mem => ?_).trans (List.map_id _)
  have other : byte ≠ 92 := fun same => folded (same ▸ mem)
  simp [other]

/-- Text without a slash that stands in the folded value stands in the value. -/
theorem infix_of_folded (clear : 47 ∉ token) (within : token <:+: foldSlashes s) : token <:+: s := by
  obtain ⟨front, back, whole⟩ := within
  obtain ⟨first, rest, rfl, front_, more⟩ := List.map_eq_append_iff.mp (show s.map _ = _ from whole.symm)
  obtain ⟨first', middle, rfl, rfl, middle_⟩ := List.map_eq_append_iff.mp front_
  have plain : 92 ∉ middle := fun mem => clear (middle_ ▸ List.mem_map.mpr ⟨92, mem, rfl⟩)
  rw [← middle_, show middle.map _ = middle from foldSlashes_self plain]
  exact ⟨first', rest, by simp⟩

theorem decoded_ok (decoded : decodePathForConfinement value = .ok scan) : resolved value = scan ∧ 0 ∉ scan := by
  unfold decodePathForConfinement at decoded
  dsimp only at decoded
  split at decoded
  · cases decoded
  split at decoded
  · cases decoded
  rename_i text read
  split at decoded
  · cases decoded
  · rename_i clear
    cases decoded
    exact ⟨by rw [resolved, percentDecode_of_unescape read], by simpa using clear⟩

theorem decoded_malformed (decoded : decodePathForConfinement value = .error .malformedEscape) :
    pathUnescape (foldSlashes value) = none ∧ 0 ∉ foldSlashes value ∧
      containsEncodedNUL (foldSlashes value) = false := by
  unfold decodePathForConfinement at decoded
  dsimp only at decoded
  split at decoded
  · cases decoded
  rename_i clear
  split at decoded
  · rename_i refused
    split at decoded
    · cases decoded
    · rename_i level
      exact ⟨refused, by simpa using clear, by simpa using level⟩
  · split at decoded <;> cases decoded

theorem isHex_mem (hex : isHex byte = true) : byte ∈ lit "0123456789abcdefABCDEF" :=
  forall_bytes (p := fun byte => isHex byte = true → byte ∈ lit "0123456789abcdefABCDEF") (by decide +kernel) byte hex

/-- An escape for one of the bytes the guards look for is a spelling they know. -/
theorem hexByte_spelling : ∀ high ∈ lit "0123456789abcdefABCDEF", ∀ low ∈ lit "0123456789abcdefABCDEF",
    (hexByte high low = 0 → lowerASCII [37, high, low] = lit "%00") ∧
    (hexByte high low = 47 → lowerASCII [37, high, low] = lit "%2f") ∧
    (hexByte high low = 92 → lowerASCII [37, high, low] = lit "%5c") := by decide +kernel

theorem contains_lower (within : word <:+: s) (spelled : lowerASCII word = token) :
    contains (lowerASCII s) token = true := by
  obtain ⟨front, back, rfl⟩ := within
  simp only [contains, decide_eq_true_eq]
  exact ⟨lowerASCII front, lowerASCII back, by simp [← spelled, lowerASCII]⟩

/-- Without an encoded NUL none appears. -/
theorem resolved_clear (literal : 0 ∉ foldSlashes value)
    (encoded : containsEncodedNUL (foldSlashes value) = false) : 0 ∉ resolved value := by
  intro mem
  rcases mem_foldSlashes mem with inner | ⟨zero, -⟩
  · rcases mem_percentDecode inner with plain | ⟨high, low, hexHigh, hexLow, same, within⟩
    · exact literal plain
    · have spelled := (hexByte_spelling high (isHex_mem hexHigh) low (isHex_mem hexLow)).1 same
      rw [containsEncodedNUL, contains_lower within spelled] at encoded
      cases encoded
  · cases zero

/-- Without an encoded separator the only slashes are those that are there. -/
theorem resolved_slashless (literal : 47 ∉ foldSlashes value)
    (encoded : containsEncodedSeparator value = false) : 47 ∉ resolved value := by
  have none (byte : UInt8) (decoded : byte ∈ percentDecode (foldSlashes value))
      (separates : byte = 47 ∨ byte = 92) : False := by
    rcases mem_percentDecode decoded with plain | ⟨high, low, hexHigh, hexLow, same, within⟩
    · rcases separates with rfl | rfl
      · exact literal plain
      · exact backslash_folded value plain
    · have clear : (47 : UInt8) ∉ [37, high, low] := by
        have plain (digit : UInt8) (hex : isHex digit = true) : 47 ≠ digit := by
          rintro rfl
          cases hex
        simp [plain high hexHigh, plain low hexLow]
      have within := infix_of_folded clear within
      have spelled := hexByte_spelling high (isHex_mem hexHigh) low (isHex_mem hexLow)
      have known : containsEncodedSeparator value = true := by
        rw [containsEncodedSeparator, Bool.or_eq_true]
        rcases separates with rfl | rfl
        · exact .inl (contains_lower within (spelled.2.1 same))
        · exact .inr (contains_lower within (spelled.2.2 same))
      rw [known] at encoded
      cases encoded
  intro mem
  rcases mem_foldSlashes mem with inner | ⟨-, inner⟩
  · exact none 47 inner (.inl rfl)
  · exact none 92 inner (.inr rfl)

/-- A pattern without a slash takes values of one segment. -/
theorem confined_slashless (confined : confineSlashlessPattern value = true) :
    0 ∉ resolved value ∧ 47 ∉ resolved value ∧ resolved value ≠ lit "." ∧ resolved value ≠ lit ".." := by
  unfold confineSlashlessPattern at confined
  split at confined
  · cases confined
  · rename_i decoded
    obtain ⟨refused, literal, encoded⟩ := decoded_malformed decoded
    split at confined
    · cases confined
    rename_i separator
    simp only [Bool.and_eq_true, decide_eq_true_eq, List.count_eq_zero] at confined
    have percent : 37 ∈ resolved value := List.mem_map.mpr ⟨37, percent_mem_of_refused refused, rfl⟩
    refine ⟨resolved_clear literal encoded, resolved_slashless confined.1.1 (by simpa using separator), ?_, ?_⟩ <;>
    · intro same
      rw [same] at percent
      exact absurd percent (by decide)
  · rename_i scan decoded
    obtain ⟨rfl, clear⟩ := decoded_ok decoded
    simp only [Bool.and_eq_true, decide_eq_true_eq, List.count_eq_zero] at confined
    exact ⟨clear, confined.1.1, confined.1.2, confined.2⟩

/-! Consumption. -/

/-- Pattern segments consuming value segments from front to back: `**` any number
of them, any other exactly one, which it reads and which resolves to one segment. -/
inductive Consumes : List Bytes → List Bytes → Prop where
  | done : Consumes [] []
  | skip {pat val : List Bytes} (rest : Consumes pat val) : Consumes (anyDepth :: pat) val
  | absorb {pat val : List Bytes} (part : Bytes) (rest : Consumes (anyDepth :: pat) val) :
      Consumes (anyDepth :: pat) (part :: val)
  | one {pat val : List Bytes} {seg part : Bytes} (reads : Reads seg part)
      (single : 47 ∉ resolved part) (rest : Consumes pat val) : Consumes (seg :: pat) (part :: val)

theorem Consumes.absorbAll (rest : Consumes pat val) : Consumes (anyDepth :: pat) (front ++ val) := by
  induction front with
  | nil => exact .skip rest
  | cons part front ih => exact .absorb part ih

theorem Consumes.of_reads (reads : List.Forall₂ Reads pat val) (single : ∀ part ∈ val, 47 ∉ resolved part) :
    Consumes pat val := by
  induction reads with
  | nil => exact .done
  | cons here _ ih =>
    exact .one here (single _ (.head _)) (ih fun part mem => single part (.tail _ mem))

/-! The table. -/

/-- What one pattern segment takes of the value: `**` any run of segments, any other one segment that
is not flagged, which it matches. -/
def Takes (seg : Bytes) (run : List (Bytes × Bool)) : Prop :=
  seg = anyDepth ∨ ∃ part, run = [(part, false)] ∧ pathMatch seg part = some true

/-- The value splits into runs, one for each pattern segment. -/
def Splits (pat : List Bytes) (cells : List (Bytes × Bool)) : Prop :=
  ∃ runs : List (List (Bytes × Bool)), cells = runs.flatten ∧ List.Forall₂ Takes pat runs

theorem anyDepthRow_iff (row : List Bool) (j : ℕ) :
    ((anyDepthRow row).drop j).headD false = true ↔ ∃ k ≥ j, (row.drop k).headD false = true := by
  induction row generalizing j with
  | nil => simp [anyDepthRow]
  | cons here next ih =>
    have first : (∃ k ≥ j, ((here :: next).drop k).headD false = true) ↔
        (j = 0 ∧ here = true) ∨ ∃ k ≥ j - 1, (next.drop k).headD false = true := by
      constructor
      · rintro ⟨_ | k, above, found⟩
        · exact .inl ⟨Nat.le_zero.mp above, found⟩
        · exact .inr ⟨k, by omega, found⟩
      · rintro (⟨rfl, found⟩ | ⟨k, above, found⟩)
        · exact ⟨0, Nat.le_refl 0, found⟩
        · exact ⟨k + 1, by omega, found⟩
    rw [first, ← ih]
    cases next with
    | nil | cons second rest => cases j <;> simp [anyDepthRow]

theorem segmentRow_iff (seg : Bytes) (cells : List (Bytes × Bool)) (row : List Bool) (j : ℕ) :
    ((segmentRow seg cells row).drop j).headD false = true ↔
      ∃ part rest, cells.drop j = (part, false) :: rest ∧ pathMatch seg part = some true ∧
        (row.drop (j + 1)).headD false = true := by
  induction cells generalizing row j with
  | nil => cases j <;> simp [segmentRow]
  | cons cell cells ih =>
    obtain ⟨part, spans⟩ := cell
    cases row with
    | nil => cases j <;> simp [segmentRow]
    | cons here next =>
      cases j with
      | zero =>
        cases spans <;> simp [segmentRow, getD_pathMatch]
      | succ j => simpa [segmentRow] using ih next j

/-- An entry of the table holds where the values from there on split. -/
theorem globTable_iff (cells : List (Bytes × Bool)) (pat : List Bytes) (j : ℕ) :
    ((globTable cells pat).drop j).headD false = true ↔ j ≤ cells.length ∧ Splits pat (cells.drop j) := by
  induction pat generalizing j with
  | nil =>
    have ended : Splits [] (cells.drop j) ↔ cells.length ≤ j := by
      constructor
      · rintro ⟨runs, whole, takes⟩
        cases takes
        simpa using whole
      · exact fun beyond => ⟨[], by simpa using beyond, .nil⟩
    rw [ended, ← le_antisymm_iff, globTable]
    rcases lt_trichotomy j cells.length with before | rfl | beyond
    · rw [List.drop_append_of_le_length (by simpa using before.le), List.drop_replicate]
      obtain ⟨n, more⟩ : ∃ n, cells.length - j = n + 1 := ⟨cells.length - j - 1, by omega⟩
      simp [more, List.replicate_succ, before.ne]
    · simp
    · simp [List.drop_eq_nil_of_le (show (List.replicate cells.length false ++ [true]).length ≤ j by simpa using beyond),
        beyond.ne']
  | cons seg pat ih =>
    rw [globTable]
    split
    · rename_i depth
      rw [anyDepthRow_iff]
      constructor
      · rintro ⟨k, above, found⟩
        obtain ⟨inside, runs, whole, takes⟩ := (ih k).mp found
        refine ⟨above.trans inside, (cells.drop j).take (k - j) :: runs, ?_, .cons (.inl depth) takes⟩
        rw [List.flatten_cons, ← whole]
        conv_lhs => rw [← List.take_append_drop (k - j) (cells.drop j)]
        rw [List.drop_drop, Nat.add_sub_cancel' above]
      · rintro ⟨inside, runs, whole, takes⟩
        cases takes with
        | @cons _ run _ runs _ takes =>
          have sizes := congrArg List.length whole
          simp only [List.length_drop, List.flatten_cons, List.length_append] at sizes
          refine ⟨j + run.length, Nat.le_add_right _ _, (ih _).mpr ⟨by omega, runs, ?_, takes⟩⟩
          rw [← List.drop_drop, whole, List.flatten_cons, List.drop_left]
    · rename_i single
      rw [segmentRow_iff]
      constructor
      · rintro ⟨part, rest, here, matched, later⟩
        obtain ⟨inside, runs, whole, takes⟩ := (ih (j + 1)).mp later
        rw [← List.drop_drop, here] at whole
        refine ⟨by omega, [(part, false)] :: runs, ?_, .cons (.inr ⟨part, rfl, matched⟩) takes⟩
        rw [here, List.flatten_cons, ← whole]
        rfl
      · rintro ⟨inside, runs, whole, takes⟩
        cases takes with
        | @cons _ run _ runs taken takes =>
          obtain ⟨part, rfl, matched⟩ := taken.resolve_left single
          have sizes := congrArg List.length whole
          simp only [List.length_drop, List.flatten_cons, List.length_append, List.length_singleton] at sizes
          refine ⟨part, runs.flatten, whole, matched, (ih _).mpr ⟨by omega, runs, ?_, takes⟩⟩
          rw [← List.drop_drop, whole]
          rfl

/-- What the table finds is a way to consume the value. -/
theorem Consumes.of_splits (single : ∀ cell ∈ cells, cell.2 = false → 47 ∉ resolved cell.1)
    (splits : Splits pat cells) : Consumes pat (cells.map Prod.fst) := by
  obtain ⟨runs, rfl, takes⟩ := splits
  induction takes with
  | nil => exact .done
  | cons taken _ ih =>
    have later := ih fun cell mem => single cell (List.mem_append_right _ mem)
    rw [List.flatten_cons, List.map_append]
    rcases taken with rfl | ⟨part, rfl, matched⟩
    · exact later.absorbAll
    · exact .one (pathMatch_reads matched) (single (part, false) (.head _) rfl) later

/-! How often the matcher is called: the same functions, counting the pairs of segments they compare. -/

def segmentRowCounted (seg : Bytes) : List (Bytes × Bool) → List Bool → List Bool × ℕ
  | (part, spans) :: parts, _ :: next =>
    let (row, compared) := segmentRowCounted seg parts next
    if spans then (false :: row, compared)
    else (((pathMatch seg part).getD false && next.headD false) :: row, compared + 1)
  | _, _ => ([false], 0)

def globTableCounted (cells : List (Bytes × Bool)) : List Bytes → List Bool × ℕ
  | [] => (List.replicate cells.length false ++ [true], 0)
  | seg :: pat =>
    let (row, compared) := globTableCounted cells pat
    if seg = anyDepth then (anyDepthRow row, compared)
    else
      let (row, more) := segmentRowCounted seg cells row
      (row, compared + more)

def matchGlobSegmentsCounted (pat val : List Bytes) (valSpansSep : List Bool) : Bool × ℕ :=
  if maxGlobSegments < val.length || maxGlobSegments < pat.length then (false, 0)
  else
    let (row, compared) := globTableCounted (val.mapIdx fun j part => (part, valSpansSep.getD j false)) pat
    (row.headD false, compared)

theorem segmentRowCounted_spec (seg : Bytes) (cells : List (Bytes × Bool)) (row : List Bool) :
    (segmentRowCounted seg cells row).1 = segmentRow seg cells row ∧
      (segmentRowCounted seg cells row).2 ≤ cells.length := by
  induction cells generalizing row with
  | nil => exact ⟨rfl, Nat.le_refl 0⟩
  | cons cell cells ih =>
    obtain ⟨part, spans⟩ := cell
    cases row with
    | nil => exact ⟨rfl, Nat.zero_le _⟩
    | cons here next =>
      obtain ⟨same, few⟩ := ih next
      cases spans <;> simp [segmentRowCounted, segmentRow, same] <;> omega

theorem globTableCounted_spec (cells : List (Bytes × Bool)) (pat : List Bytes) :
    (globTableCounted cells pat).1 = globTable cells pat ∧
      (globTableCounted cells pat).2 ≤ pat.length * cells.length := by
  induction pat with
  | nil => exact ⟨rfl, Nat.zero_le _⟩
  | cons seg pat ih =>
    obtain ⟨same, few⟩ := ih
    rw [globTableCounted, globTable, List.length_cons, Nat.succ_mul]
    dsimp only
    split
    · exact ⟨congrArg anyDepthRow same, few.trans (Nat.le_add_right _ _)⟩
    · obtain ⟨row, more⟩ := segmentRowCounted_spec seg cells (globTableCounted cells pat).1
      exact ⟨by rw [row, same], Nat.add_le_add few more⟩

/-- The segment matcher is exact: within the cap it accepts what splits into runs of the pattern's
segments, and it compares no more pairs of segments than there are. -/
theorem match_glob_segments_exact (pat val : List Bytes) (valSpansSep : List Bool) :
    (matchGlobSegments pat val valSpansSep = true ↔ val.length ≤ maxGlobSegments ∧ pat.length ≤ maxGlobSegments ∧
        Splits pat (val.mapIdx fun j part => (part, valSpansSep.getD j false))) ∧
    (matchGlobSegmentsCounted pat val valSpansSep).1 = matchGlobSegments pat val valSpansSep ∧
    (matchGlobSegmentsCounted pat val valSpansSep).2 ≤ pat.length * val.length := by
  have table := globTable_iff (val.mapIdx fun j part => (part, valSpansSep.getD j false)) pat 0
  obtain ⟨same, few⟩ := globTableCounted_spec (val.mapIdx fun j part => (part, valSpansSep.getD j false)) pat
  rw [List.drop_zero, List.drop_zero] at table
  rw [List.length_mapIdx] at few
  unfold matchGlobSegments matchGlobSegmentsCounted
  split
  · rename_i long
    simp only [Bool.or_eq_true, decide_eq_true_eq] at long
    refine ⟨⟨nofun, fun ⟨short, short', _⟩ => ?_⟩, rfl, Nat.zero_le _⟩
    omega
  · rename_i short
    simp only [Bool.or_eq_true, decide_eq_true_eq, not_or, not_lt] at short
    refine ⟨?_, by rw [← same], few⟩
    rw [table]
    simp [short]

/-! Path-style patterns. -/

theorem resolved_cut (front : 92 ∉ first) (back : 92 ∉ rest) :
    resolved (first ++ 47 :: rest) = resolved first ++ 47 :: resolved rest := by
  have whole : 92 ∉ first ++ 47 :: rest := by simp [front, back]
  rw [resolved, resolved, resolved, foldSlashes_self whole, foldSlashes_self front,
    foldSlashes_self back, percentDecode_separator (by decide) (by decide)]
  simp [foldSlashes]

/-- Decoding adds slashes or leaves their number; where it adds none, no segment
decodes to more than one. -/
theorem resolved_segments (folded : 92 ∉ s) : s.count 47 ≤ (resolved s).count 47 ∧
      ((resolved s).count 47 = s.count 47 → ∀ part ∈ segments s, 47 ∉ resolved part) := by
  induction s using segments_induction with
  | single s inside =>
    rw [List.count_eq_zero.mpr inside, segments_single inside]
    refine ⟨Nat.zero_le _, fun absent part mem => ?_⟩
    rw [List.mem_singleton.mp mem]
    exact List.count_eq_zero.mp absent
  | more first rest inside ih =>
    simp only [List.mem_append, List.mem_cons, not_or] at folded
    obtain ⟨fewer, single⟩ := ih folded.2.2
    have absent := List.count_eq_zero.mpr inside
    rw [resolved_cut folded.1 folded.2.2, segments_cut inside]
    simp only [List.count_append, List.count_cons_self, absent, Nat.zero_add]
    refine ⟨by omega, fun same part mem => ?_⟩
    rcases List.mem_cons.mp mem with rfl | later
    · exact List.count_eq_zero.mp (by omega)
    · exact single (by omega) part later

theorem patternSegments_length (inClass : Bool) (pattern : Bytes) :
    (patternSegments inClass pattern).length = (scanPatternLiterals inClass pattern).count 47 + 1 := by
  fun_induction scanPatternLiterals inClass pattern with
  | case1 => rfl
  | case2 escaped rest ih => simp [patternSegments, ih]
  | case3 inClass escaped rest opened ih =>
    obtain rfl : inClass = false := by simpa using opened
    by_cases slash : escaped = 47 <;> simp [patternSegments, ih, slash]
  | case4 rest shape ih | case6 rest shape _ ih => simp [patternSegments.eq_3 _ _ _ shape, ih]
  | case5 inClass rest opened shape ih => simp [patternSegments.eq_3 _ _ _ shape, ih, globClassPlaceholder]
  | case7 inClass rest opened shape _ ih =>
    obtain rfl : inClass = false := by simpa using opened
    simp [patternSegments.eq_3 _ _ _ shape, ih]
  | case8 byte rest shape opening closing ih => simp [patternSegments.eq_3 _ _ _ shape, ih, opening, closing]
  | case9 inClass byte rest shape opening closing opened ih =>
    obtain rfl : inClass = false := by simpa using opened
    rw [patternSegments.eq_3 _ _ _ shape]
    by_cases slash : byte = 47 <;> simp [ih, opening, closing, slash]

/-- The segments of a pattern as the matcher takes them: with `**` every slash
separates, without it those outside the classes. -/
def patternParts (pattern : Bytes) : List Bytes :=
  if contains pattern anyDepth then segments pattern else patternSegments false pattern

theorem confined_path (confined : confinePathStylePattern pattern value = some (folded, spans)) :
    folded = foldSlashes value ∧ 0 ∉ resolved value ∧
      (∀ seg ∈ segments (resolved value), seg ≠ lit "." ∧ seg ≠ lit "..") ∧
      (if contains pattern anyDepth then
        ∀ j part, (segments folded)[j]? = some part → spans.getD j false = false → 47 ∉ resolved part
      else countPatternPathSeparators pattern = folded.count 47 ∧ ∀ part ∈ segments folded, 47 ∉ resolved part) := by
  unfold confinePathStylePattern at confined
  split at confined
  · cases confined
  rename_i scan decoded
  obtain ⟨rfl, clear⟩ := decoded_ok decoded
  split at confined
  · cases confined
  rename_i dots
  have dotless : ∀ seg ∈ segments (resolved value), seg ≠ lit "." ∧ seg ≠ lit ".." := by
    intro seg mem
    have := (List.any_eq_false.mp (Bool.not_eq_true _ ▸ dots)) seg mem
    simp only [Bool.or_eq_true, decide_eq_true_eq, not_or] at this
    exact this.symm
  dsimp only at confined
  split at confined
  · rename_i shallow
    have shallow : contains pattern anyDepth = false := by simpa using shallow
    split at confined
    · cases confined
    rename_i same
    split at confined
    · cases confined
    rename_i agree
    obtain ⟨rfl, rfl⟩ := confined
    rw [shallow, if_neg Bool.false_ne_true]
    have twice : resolved (foldSlashes value) = resolved value := by
      rw [resolved, foldSlashes_self (backslash_folded value), ← resolved]
    refine ⟨rfl, clear, dotless, by simpa using agree, ?_⟩
    refine (resolved_segments (backslash_folded value)).2 ?_
    rw [twice]
    simpa using same
  · rename_i deep
    have deep : contains pattern anyDepth = true := by simpa using deep
    split at confined
    · cases confined
    obtain ⟨rfl, rfl⟩ := confined
    rw [deep, if_pos rfl]
    refine ⟨rfl, clear, dotless, fun j part here flag => ?_⟩
    simp only [List.getD_eq_getElem?_getD, List.getElem?_map, here, Option.map_some, Option.getD_some] at flag
    split at flag
    · cases flag
    · rename_i text read
      obtain ⟨rfl, -⟩ := decoded_ok read
      simpa using flag

/-- The matcher's spelling of the value: folded for a path-style pattern. -/
theorem consumed (confined : confinePathStylePattern pattern value = some (foldSlashes value, spans))
    (matched : (if !contains pattern anyDepth then (pathMatch pattern (foldSlashes value)).getD false
      else if (pattern.head? == some 47) != ((foldSlashes value).head? == some 47) then false
      else matchGlobSegments (segments pattern) (segments (foldSlashes value)) spans) = true) :
    Consumes (patternParts pattern) (segments (foldSlashes value)) := by
  obtain ⟨-, -, -, single⟩ := confined_path confined
  by_cases deep : contains pattern anyDepth = true
  · rw [if_pos deep] at single
    rw [patternParts, if_pos deep]
    simp only [deep, Bool.not_true, Bool.false_eq_true, ↓reduceIte] at matched
    split at matched
    · cases matched
    unfold matchGlobSegments at matched
    split at matched
    · cases matched
    have cells : ((segments (foldSlashes value)).mapIdx fun j part => (part, spans.getD j false)).map
        Prod.fst = segments (foldSlashes value) :=
      List.ext_getElem (by simp) (by simp)
    have splits := ((globTable_iff _ _ 0).mp matched).2
    rw [← cells]
    refine .of_splits (fun cell mem flag => ?_) splits
    obtain ⟨j, inside, rfl⟩ := List.mem_mapIdx.mp mem
    exact single j _ (List.getElem?_eq_getElem inside) flag
  · rw [if_neg deep] at single
    rw [patternParts, if_neg deep]
    have accepted : pathMatch pattern (foldSlashes value) = some true := getD_pathMatch.mp (by simpa [deep] using matched)
    refine .of_reads ((pathMatch_reads accepted).aligned.2 ?_) single.2
    rw [patternSegments_length, segments_length, ← single.1, countPatternPathSeparators]

/-- A value a glob accepts is confined as an upstream will resolve it. It holds no
NUL. Under a path-style pattern it has no dot segment, and every segment of the
pattern but `**` took one segment of the value that resolves to one segment; under
a pattern without a slash it is one segment and no dot segment. -/
theorem value_glob_confined {pattern value : Bytes} (narrow : pattern ≠ lit "*" ∧ pattern ≠ lit "**")
    (_accepted : validateValueGlob pattern = .ok ()) (matched : matchValueGlob pattern value = true) :
    0 ∉ resolved value ∧
    (47 ∈ pattern → (∀ seg ∈ segments (resolved value), seg ≠ lit "." ∧ seg ≠ lit "..") ∧
      Consumes (patternParts pattern) (segments (foldSlashes value))) ∧
    (47 ∉ pattern → 47 ∉ resolved value ∧ resolved value ≠ lit "." ∧ resolved value ≠ lit "..") := by
  unfold matchValueGlob at matched
  have deep : pattern ≠ anyDepth := narrow.2
  rw [if_neg (by simp [narrow.1, deep])] at matched
  by_cases slash : 47 ∈ pattern
  · simp only [List.contains_eq_mem, slash, decide_true, ↓reduceIte] at matched
    cases confined : confinePathStylePattern pattern value with
    | none => simp [confined] at matched
    | some outcome =>
      obtain ⟨folded, spans⟩ := outcome
      simp only [confined] at matched
      obtain ⟨rfl, clear, dotless, -⟩ := confined_path confined
      exact ⟨clear, fun _ => ⟨dotless, consumed confined matched⟩, fun plain => absurd slash plain⟩
  · simp only [List.contains_eq_mem, slash, decide_false, Bool.false_eq_true, ↓reduceIte] at matched
    split at matched
    · cases matched
    rename_i inside
    split at inside
    · rename_i confined
      obtain ⟨clear, single⟩ := confined_slashless confined
      exact ⟨clear, fun slashed => absurd slashed slash, fun _ => single⟩
    · cases inside

theorem value_glob_confined_class :
    Consumes (patternParts (lit "/a[^z]b/*.csv")) (segments (foldSlashes (lit "/axb\\q.csv"))) :=
  ((value_glob_confined (by decide) (by decide) (by decide)).2.1 (by decide)).2

end Eunox
