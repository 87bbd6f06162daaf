import Eunox.JsonText
import Eunox.PathPattern

/-! How Go's `encoding/json` reads and spells strings, and how it compacts a raw
value. A string body is unquoted to valid UTF-8, with the error rune for what is
none; quoting escapes the HTML characters and the two line separators. -/
namespace JsonText
open ByteString PathPattern

/-- `utf8.AppendRune`: what is no code point is written as the error rune. -/
def encodeRune (rune : ℕ) : Bytes :=
  if rune < 0x80 then [UInt8.ofNat rune]
  else if rune < 0x800 then [UInt8.ofNat (0xC0 + rune / 64), UInt8.ofNat (0x80 + rune % 64)]
  else if (0xD800 ≤ rune && rune ≤ 0xDFFF) || 0x10FFFF < rune then [0xEF, 0xBF, 0xBD]
  else if rune < 0x10000 then
    [UInt8.ofNat (0xE0 + rune / 4096), UInt8.ofNat (0x80 + rune / 64 % 64),
      UInt8.ofNat (0x80 + rune % 64)]
  else
    [UInt8.ofNat (0xF0 + rune / 262144), UInt8.ofNat (0x80 + rune / 4096 % 64),
      UInt8.ofNat (0x80 + rune / 64 % 64), UInt8.ofNat (0x80 + rune % 64)]

def hexValue (byte : UInt8) : ℕ :=
  if byte ≤ 57 then byte.toNat - 48 else if byte ≤ 70 then byte.toNat - 55 else byte.toNat - 87

def hexDigit (n : ℕ) : UInt8 := UInt8.ofNat (if n < 10 then 48 + n else 87 + n)

/-- The four digits after a `\u`. -/
def hexRune (digits : Bytes) : ℕ := digits.foldl (fun rune byte => rune * 16 + hexValue byte) 0

/-- The code point of a surrogate pair whose second half is spelled here. -/
def secondSurrogate (first : ℕ) : Bytes → Option ℕ
  | 92 :: 117 :: a :: b :: c :: d :: _ =>
    let second := hexRune [a, b, c, d]
    if [a, b, c, d].all isHex && first < 0xDC00 && 0xDC00 ≤ second && second ≤ 0xDFFF then
      some (0x10000 + (first - 0xD800) * 1024 + (second - 0xDC00))
    else none
  | _ => none

/-- The byte a one-letter escape stands for. -/
def unescape (escaped : UInt8) : UInt8 :=
  if escaped = 98 then 8
  else if escaped = 102 then 12
  else if escaped = 110 then 10
  else if escaped = 114 then 13
  else if escaped = 116 then 9
  else escaped

def unquoteFrom : ℕ → Bytes → Bytes
  | 0, _ => []
  | _ + 1, [] => []
  | bound + 1, 92 :: 117 :: rest =>
    let rune := hexRune (rest.take 4)
    let rest := rest.drop 4
    if 0xD800 ≤ rune && rune ≤ 0xDFFF then
      match secondSurrogate rune rest with
      | some pair => encodeRune pair ++ unquoteFrom bound (rest.drop 6)
      | none => encodeRune runeError ++ unquoteFrom bound rest
    else encodeRune rune ++ unquoteFrom bound rest
  | bound + 1, 92 :: escaped :: rest => unescape escaped :: unquoteFrom bound rest
  | bound + 1, byte :: rest =>
    if byte < 0x80 then byte :: unquoteFrom bound rest
    else
      let (rune, size) := decodeRune (byte :: rest)
      encodeRune rune ++ unquoteFrom bound ((byte :: rest).drop size)

/-- The string a body between quotes denotes. -/
def unquote (body : Bytes) : Bytes := unquoteFrom body.length body

/-- The ASCII characters a string is spelled with as they are. -/
def htmlSafe (byte : UInt8) : Bool := 32 ≤ byte && byte ≠ 34 && byte ≠ 92 && byte ≠ 60 && byte ≠ 62 && byte ≠ 38

/-- An ASCII character inside a quoted string. -/
def quoteByte (byte : UInt8) : Bytes :=
  if htmlSafe byte then [byte]
  else if byte = 34 || byte = 92 then [92, byte]
  else if byte = 8 then lit "\\b"
  else if byte = 12 then lit "\\f"
  else if byte = 10 then lit "\\n"
  else if byte = 13 then lit "\\r"
  else if byte = 9 then lit "\\t"
  else lit "\\u00" ++ [hexDigit (byte.toNat / 16), hexDigit (byte.toNat % 16)]

def quoteFrom : ℕ → Bytes → Bytes
  | 0, _ => []
  | _ + 1, [] => []
  | bound + 1, byte :: rest =>
    if byte < 0x80 then quoteByte byte ++ quoteFrom bound rest
    else
      let (rune, size) := decodeRune (byte :: rest)
      let spelled :=
        if rune = runeError && size = 1 then lit "\\ufffd"
        else if rune = 0x2028 then lit "\\u2028"
        else if rune = 0x2029 then lit "\\u2029"
        else (byte :: rest).take size
      spelled ++ quoteFrom bound ((byte :: rest).drop size)

/-- The body `json.Marshal` spells a string with. -/
def quote (s : Bytes) : Bytes := quoteFrom s.length s

/-- The HTML escape of a raw value's strings. -/
def escapeHTML : Bytes → Bytes
  | [] => []
  | 0xE2 :: 0x80 :: byte :: rest =>
    if byte = 0xA8 then lit "\\u2028" ++ escapeHTML rest
    else if byte = 0xA9 then lit "\\u2029" ++ escapeHTML rest
    else 0xE2 :: 0x80 :: escapeHTML (byte :: rest)
  | byte :: rest =>
    if byte = 60 || byte = 62 || byte = 38 then
      lit "\\u00" ++ [hexDigit (byte.toNat / 16), hexDigit (byte.toNat % 16)] ++ escapeHTML rest
    else byte :: escapeHTML rest

mutual
/-- `json.Compact` with HTML escapes, as `json.Marshal` writes a raw value. -/
def Text.compact : Text → Text
  | .null => .null
  | .bool b => .bool b
  | .number literal => .number literal
  | .string body => .string (escapeHTML body)
  | .container bracket _ entries => .container bracket [] (compactEntries entries)

def compactEntry : Entry Text → Entry Text
  | ⟨_, label, value, _⟩ => ⟨[], label.map fun label => ⟨escapeHTML label.key, [], []⟩, value.compact, []⟩

def compactEntries : List (Entry Text) → List (Entry Text)
  | [] => []
  | entry :: entries => compactEntry entry :: compactEntries entries
end

example : unquote (lit "\\u00e9\\ud83d\\ude00\\n\\ud800x") = lit "é😀\n�x" := by
  decide

example : quote (lit "a<\"é" ++ [0xE2, 0x80, 0xA8, 0x80, 7]) =
    lit "a\\u003c\\\"é\\u2028\\ufffd\\u0007" := by
  decide

end JsonText
