import Eunox.ByteString

/-! Percent escapes. `url.PathUnescape` refuses a text with a malformed escape as
a whole; `percentDecode` is the reader that leaves such an escape as it stands,
and agrees with the other on every text that one takes. -/
namespace PercentEncoding
open ByteString

def unhex (byte : UInt8) : UInt8 :=
  if 48 ≤ byte && byte ≤ 57 then byte - 48
  else if 97 ≤ byte && byte ≤ 102 then byte - 97 + 10
  else byte - 65 + 10

/-- The byte two digits stand for. -/
def hexByte (high low : UInt8) : UInt8 := unhex high * 16 + unhex low

/-- `url.PathUnescape`; nothing for a malformed escape. -/
def pathUnescape : Bytes → Option Bytes
  | [] => some []
  | 37 :: high :: low :: rest =>
    if isHex high && isHex low then (pathUnescape rest).map (hexByte high low :: ·) else none
  | byte :: rest => if byte = 37 then none else (pathUnescape rest).map (byte :: ·)

def percentDecode : Bytes → Bytes
  | [] => []
  | 37 :: high :: low :: rest =>
    if isHex high && isHex low then hexByte high low :: percentDecode rest
    else 37 :: percentDecode (high :: low :: rest)
  | byte :: rest => byte :: percentDecode rest

theorem percentDecode_of_unescape (read : pathUnescape s = some decoded) : percentDecode s = decoded := by
  fun_induction pathUnescape s generalizing decoded with
  | case1 => simpa [percentDecode] using read
  | case2 high low rest hex ih =>
    obtain ⟨tail, rest, rfl⟩ := Option.map_eq_some_iff.mp read
    simp [percentDecode, hex, ih rest]
  | case3 | case4 => cases read
  | case5 byte rest shape other ih =>
    obtain ⟨tail, rest, rfl⟩ := Option.map_eq_some_iff.mp read
    rw [percentDecode, ih rest]
    exact shape

/-- What makes the strict reader refuse is still there after decoding. -/
theorem percent_mem_of_refused (refused : pathUnescape s = none) : 37 ∈ percentDecode s := by
  fun_induction pathUnescape s with
  | case1 => cases refused
  | case2 high low rest hex ih =>
    simp only [percentDecode, hex, ↓reduceIte, List.mem_cons]
    exact .inr (ih (by simpa using refused))
  | case3 high low rest other => simp [percentDecode, other]
  | case4 rest shape =>
    rw [percentDecode]
    · simp
    · exact shape
  | case5 byte rest shape other ih =>
    rw [percentDecode]
    · exact .tail _ (ih (by simpa using refused))
    · exact shape

/-- A decoded byte stood in the text or was written as an escape there. -/
theorem mem_percentDecode (mem : byte ∈ percentDecode s) :
    byte ∈ s ∨ ∃ high low, isHex high = true ∧ isHex low = true ∧ hexByte high low = byte ∧
      [37, high, low] <:+: s := by
  fun_induction percentDecode s with
  | case1 => simp at mem
  | case2 high low rest hex ih =>
    simp only [Bool.and_eq_true] at hex
    rcases List.mem_cons.mp mem with rfl | later
    · exact .inr ⟨high, low, hex.1, hex.2, rfl, ⟨[], rest, rfl⟩⟩
    · rcases ih later with plain | ⟨h, l, hh, hl, same, within⟩
      · exact .inl (by simp [plain])
      · exact .inr ⟨h, l, hh, hl, same, within.trans ⟨[37, high, low], [], by simp⟩⟩
  | case3 _ _ _ _ ih | case4 _ _ _ ih =>
    rcases List.mem_cons.mp mem with rfl | later
    · exact .inl (by simp)
    · rcases ih later with plain | ⟨h, l, hh, hl, same, within⟩
      · exact .inl (.tail _ plain)
      · exact .inr ⟨h, l, hh, hl, same, within.trans (List.infix_cons (List.infix_rfl))⟩

/-- No escape reaches over a byte that is no digit. -/
theorem percentDecode_separator (solid : isHex separator = false) (plain : separator ≠ 37) (front rest : Bytes) :
    percentDecode (front ++ separator :: rest) = percentDecode front ++ separator :: percentDecode rest := by
  have after : percentDecode (separator :: rest) = separator :: percentDecode rest := by
    rw [percentDecode]
    intro high low tail same
    exact absurd same plain
  fun_induction percentDecode front with
  | case1 => exact after
  | case2 high low tail hex ih => simp [percentDecode, hex, ih]
  | case3 high low tail other ih =>
    simp only [List.cons_append, percentDecode, other] at ih ⊢
    simp [ih]
  | case4 first tail shape ih =>
    have split : percentDecode (first :: (tail ++ separator :: rest)) =
        first :: percentDecode (tail ++ separator :: rest) := by
      by_cases escape : first = 37
      · -- an escape cut short takes in the separator, which is no digit
        subst escape
        have refused (high low : UInt8) (more : Bytes) (bad : (isHex high && isHex low) = false) :
            percentDecode (37 :: high :: low :: more) = 37 :: percentDecode (high :: low :: more) := by
          rw [percentDecode, bad, if_neg Bool.false_ne_true]
        match tail, shape with
        | [], _ =>
          cases rest with
          | nil => rfl
          | cons low more => exact refused _ _ _ (by simp [solid])
        | [high], _ => exact refused _ _ _ (by simp [solid])
        | high :: low :: more, shape => exact absurd rfl (shape high low more rfl)
      · rw [percentDecode]
        intro high low more same
        exact absurd same escape
    rw [List.cons_append, split, ih, List.cons_append]

end PercentEncoding
