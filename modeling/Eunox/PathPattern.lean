import Eunox.ByteString

/-! Go's `utf8.DecodeRuneInString` and `path.Match`. A pattern is matched chunk
by chunk, a chunk being what stands between two stars; a malformed pattern is an
error even where the name has already failed to match. The loops take the length
of what they consume as their bound. -/
namespace PathPattern
open ByteString

/-! Runes. -/

def runeError : ℕ := 0xFFFD

def continuation (byte : UInt8) : Bool := 0x80 ≤ byte && byte ≤ 0xBF

/-- The low bits a continuation byte carries. -/
def tailBits (byte : UInt8) : ℕ := byte.toNat % 64

/-- The first rune and the bytes it takes; a byte that starts no valid encoding
is the error rune of one byte. -/
def decodeRune : Bytes → ℕ × ℕ
  | [] => (runeError, 0)
  | lead :: rest =>
    if lead < 0x80 then (lead.toNat, 1)
    else if 0xC2 ≤ lead && lead ≤ 0xDF then
      match rest with
      | second :: _ => if continuation second then (lead.toNat % 32 * 64 + tailBits second, 2) else (runeError, 1)
      | _ => (runeError, 1)
    else if 0xE0 ≤ lead && lead ≤ 0xEF then
      match rest with
      | second :: third :: _ =>
        -- no overlong form and no surrogate
        if (if lead = 0xE0 then 0xA0 else 0x80) ≤ second &&
            second ≤ (if lead = 0xED then 0x9F else 0xBF) && continuation third then
          (lead.toNat % 16 * 4096 + tailBits second * 64 + tailBits third, 3)
        else (runeError, 1)
      | _ => (runeError, 1)
    else if 0xF0 ≤ lead && lead ≤ 0xF4 then
      match rest with
      | second :: third :: fourth :: _ =>
        -- nothing overlong and nothing past the last code point
        if (if lead = 0xF0 then 0x90 else 0x80) ≤ second &&
            second ≤ (if lead = 0xF4 then 0x8F else 0xBF) &&
            continuation third && continuation fourth then
          (lead.toNat % 8 * 262144 + tailBits second * 4096 + tailBits third * 64 +
            tailBits fourth, 4)
        else (runeError, 1)
      | _ => (runeError, 1)
    else (runeError, 1)

theorem decodeRune_ascii (rest : Bytes) (ascii : byte < 0x80) : decodeRune (byte :: rest) = (byte.toNat, 1) := by
  simp [decodeRune, ascii]

/-! Chunks. -/

/-- Where a chunk ends: at a star outside a class. -/
def chunkEnd (inRange : Bool) : Bytes → Bytes × Bytes
  | [] => ([], [])
  | 92 :: escaped :: rest =>
    let (chunk, rest) := chunkEnd inRange rest
    (92 :: escaped :: chunk, rest)
  | byte :: rest =>
    if byte = 42 && !inRange then ([], byte :: rest)
    else
      let (chunk, rest) := chunkEnd (if byte = 91 then true else if byte = 93 then false else inRange)
        rest
      (byte :: chunk, rest)

/-- Whether stars lead the pattern, its first chunk, and what follows. -/
def scanChunk (pattern : Bytes) : Bool × Bytes × Bytes :=
  let body := pattern.dropWhile (· == 42)
  (body.length < pattern.length, chunkEnd false body)

/-- A possibly escaped rune of a class; nothing for a malformed one. -/
def getEsc (chunk : Bytes) : Option (ℕ × Bytes) :=
  match chunk with
  | [] => none
  | byte :: rest =>
    if byte = 45 || byte = 93 then none
    else
      let chunk := if byte = 92 then rest else byte :: rest
      if chunk.isEmpty then none
      else
        let (rune, size) := decodeRune chunk
        if rune = runeError && size = 1 then none
        else if (chunk.drop size).isEmpty then none
        else some (rune, chunk.drop size)

/-- The ranges of a class up to its bracket: whether one holds the rune, and the
rest of the chunk. -/
def classRanges (rune : ℕ) : ℕ → Bytes → Bool → Bool → Option (Bool × Bytes)
  | 0, _, _, _ => none
  | bound + 1, chunk, begun, held =>
    if chunk.head? = some 93 && begun then some (held, chunk.tail)
    else
      match getEsc chunk with
      | none => none
      | some (low, chunk) =>
        if chunk.head? = some 45 then
          match getEsc chunk.tail with
          | none => none
          | some (high, chunk) => classRanges rune bound chunk true (held || (low ≤ rune && rune ≤ high))
        else classRanges rune bound chunk true (held || rune == low)

/-- What is left of a text after this byte. -/
def dropByte (byte : UInt8) (text : Option Bytes) : Option Bytes :=
  text.bind fun s => if s.head? = some byte then some s.tail else none

/-- A chunk against the start of a text: an error, no match, or what is left of
the text. Once the match has failed the text is no longer read; a text that has
run out fails whatever is left of the chunk. -/
def matchChunk : ℕ → Bytes → Option Bytes → Option (Option Bytes)
  | 0, _, text => some text
  | _ + 1, [], text => some text
  | bound + 1, 91 :: chunk, text =>
    let text := text.filter (!·.isEmpty)
    let rune := (text.map fun s => (decodeRune s).1).getD 0
    let negated : Bool := chunk.head? = some 94
    match classRanges rune (chunk.length + 1) (if negated then chunk.tail else chunk) false
        false with
    | none => none
    | some (held, chunk) =>
      matchChunk bound chunk
        (if held = negated then none else text.map fun s => s.drop (decodeRune s).2)
  | bound + 1, 63 :: chunk, text =>
    matchChunk bound chunk (text.bind fun s =>
      if s.isEmpty || s.head? = some 47 then none else some (s.drop (decodeRune s).2))
  | _ + 1, [92], _ => none
  | bound + 1, 92 :: byte :: chunk, text => matchChunk bound chunk (dropByte byte text)
  | bound + 1, byte :: chunk, text => matchChunk bound chunk (dropByte byte text)

/-- The chunk at the start of the text. -/
def chunkAt (chunk text : Bytes) : Option (Option Bytes) :=
  matchChunk chunk.length chunk (some text)

/-- The first later place the chunk matches at, not across a slash. -/
def skipTo (chunk : Bytes) (last : Bool) : Bytes → Option (Option Bytes)
  | [] => some none
  | byte :: name =>
    if byte = 47 then some none
    else
      match chunkAt chunk name with
      | none => none
      | some (some rest) => if last && !rest.isEmpty then skipTo chunk last name else some (some rest)
      | some none => skipTo chunk last name

/-- Whether what is left of a pattern is well formed. -/
def wellFormed : ℕ → Bytes → Bool
  | 0, _ => true
  | bound + 1, pattern =>
    if pattern.isEmpty then true
    else
      let (_, chunk, rest) := scanChunk pattern
      (chunkAt chunk []).isSome && wellFormed bound rest

def matchFrom : ℕ → Bytes → Bytes → Option Bool
  | 0, _, name => some name.isEmpty
  | bound + 1, pattern, name =>
    if pattern.isEmpty then some name.isEmpty
    else
      let (star, chunk, rest) := scanChunk pattern
      if star && chunk.isEmpty then some (!name.contains 47)
      else
        match chunkAt chunk name with
        | none => none
        | some here =>
          match here.filter fun left => left.isEmpty || !rest.isEmpty with
          | some left => matchFrom bound rest left
          | none =>
            match if star then skipTo chunk rest.isEmpty name else some none with
            | none => none
            | some (some left) => matchFrom bound rest left
            | some none => if wellFormed rest.length rest then some false else none

/-- `path.Match`; nothing for a malformed pattern. -/
def pathMatch (pattern name : Bytes) : Option Bool := matchFrom pattern.length pattern name

theorem getD_pathMatch : (pathMatch pattern name).getD false = true ↔ pathMatch pattern name = some true := by
  cases pathMatch pattern name <;> simp

example : pathMatch (lit "a*/b?[x-z]") (lit "abc/bqy") = some true := rfl
example : pathMatch (lit "a*b") (lit "a/b") = some false := rfl
example : pathMatch (lit "a[") (lit "z") = none := rfl
example : pathMatch (lit "*_admin") (lit "x_admin_admin") = some true := rfl

end PathPattern
