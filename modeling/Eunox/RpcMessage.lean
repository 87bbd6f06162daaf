import Eunox.JsonQuote
import Eunox.Rfc3339

/-! JSON-RPC messages and the key an id is correlated by. Two spellings of one
number share a key; a string, a null and a malformed id are kept apart by their
prefix. -/
namespace Eunox
open ByteString JsonText PathPattern

structure RpcError where
  code : ℤ
  message : Bytes
  data : Option Bytes := none
  deriving DecidableEq, Repr

/-- `mcp.RPCMsg`. The id, the params and the result are raw JSON; an id that is
absent differs from one that is null. -/
structure RpcMsg where
  jsonrpc : Bytes := lit "2.0"
  id : Option Bytes := none
  method : Bytes := []
  params : Bytes := []
  result : Option Bytes := none
  error : Option RpcError := none
  deriving DecidableEq, Repr

def RpcMsg.isRequest (m : RpcMsg) : Bool := m.id.isSome && !m.method.isEmpty

def RpcMsg.isResponse (m : RpcMsg) : Bool := m.id.isSome && m.method.isEmpty

/-- `mcp.ErrorResponse`. -/
def errorResponse (id : Option Bytes) (code : ℤ) (message : Bytes) : RpcMsg where
  id := id
  error := some ⟨code, message, none⟩

/-! Bounded texts. -/

/-- `capability.BoundString`: at most `limit` bytes of valid UTF-8, with a marker
where something was cut. -/
def boundString (s : Bytes) (limit : ℕ) : Bytes :=
  let s := Utf8.toValid [0xEF, 0xBF, 0xBD] s
  if s.length ≤ limit then s
  else
    let marker := lit "...[eunox: truncated, " ++ decimal s.length ++ lit " bytes]"
    if limit < marker.length then (lit "...").take limit
    else s.take (Utf8.runeBoundaryCut s (limit - marker.length)) ++ marker

def auditEnvelopeFieldCap : ℕ := 8192

def boundEnvelopeField (s : Bytes) : Bytes := boundString s auditEnvelopeFieldCap

/-! Numeric ids. -/

def parseCanonicalJSONInt (raw : Bytes) : Option ℤ :=
  let neg : Bool := raw.head? = some 45
  let d := if neg then raw.tail else raw
  if d.isEmpty || 18 < d.length then none
  else if d.head? = some 48 then if 1 < d.length || neg then none else some 0
  else if d.all isDigit then
    some (if neg then -(Rfc3339.number d : ℤ) else Rfc3339.number d)
  else none

def maxNumericLiteralLen : ℕ := 1024
def maxNumericLiteralExp : ℕ := 1024

/-- The digits before and after a point, and what follows them. -/
def readMantissa (s : Bytes) : Bytes × Bytes :=
  let integer := s.takeWhile isDigit
  let s := s.dropWhile isDigit
  if s.head? = some 46 then (integer ++ s.tail.takeWhile isDigit, s.tail.dropWhile isDigit)
  else (integer, s)

/-- No digit is added to a sum that is past the bound. -/
def exponentSum (digits : Bytes) : ℕ :=
  digits.foldl (fun exp byte => if exp ≤ maxNumericLiteralExp then exp * 10 + Rfc3339.digitValue byte else exp) 0

/-- What follows the mantissa. -/
def exponentBounded : Bytes → Bool
  | [] => true
  | mark :: s =>
    if mark ≠ 101 && mark ≠ 69 then false
    else
      let digits := (readSign [43, 45] s).2
      !digits.isEmpty && digits.all isDigit && exponentSum digits ≤ maxNumericLiteralExp

/-- `capability.NumericLiteralBounded`. -/
def numericLiteralBounded (s : Bytes) : Bool :=
  if s.isEmpty || maxNumericLiteralLen < s.length then false
  else
    let (digits, s) := readMantissa (readSign [43, 45] s).2
    if digits.isEmpty then false else exponentBounded s

def signedValue (sign digits : Bytes) : ℤ :=
  if sign = [45] then -(Rfc3339.number digits : ℤ) else Rfc3339.number digits

/-- A mantissa with so many places, and the exponent that follows it. -/
def scaled (mantissa : ℤ) (places : ℕ) : Bytes → Option ℚ
  | [] => some (mantissa * 10 ^ (-(places : ℤ)))
  | mark :: s =>
    let exponent := readSign [43, 45] s
    if (mark ≠ 101 && mark ≠ 69) || exponent.2.isEmpty || !exponent.2.all isDigit then none
    else some (mantissa * 10 ^ (signedValue exponent.1 exponent.2 - places))

/-- `big.Rat.SetString` on a decimal literal: its exact value. -/
def ratOf (s : Bytes) : Option ℚ :=
  let signed := readSign [43, 45] s
  let integer := signed.2.takeWhile isDigit
  let s := signed.2.dropWhile isDigit
  let point : Bool := s.head? = some 46
  let fraction := if point then s.tail.takeWhile isDigit else []
  let s := if point then s.tail.dropWhile isDigit else s
  if (integer ++ fraction).isEmpty then none
  else scaled (signedValue signed.1 (integer ++ fraction)) fraction.length s

/-- `big.Rat.RatString`, which on an integer prints what `strconv.FormatInt` does. -/
def ratString (q : ℚ) : Bytes :=
  if q.den = 1 then decimalInt q.num else decimalInt q.num ++ 47 :: decimal q.den

/-! String ids. -/

/-- `utf8.Valid`. -/
def validUtf8 : ℕ → Bytes → Bool
  | 0, s => s.isEmpty
  | bound + 1, s => s.isEmpty || (decodeRune s != (runeError, 1)) && validUtf8 bound (s.drop (decodeRune s).2)

/-- The escapes of a string decode without a loss: every `\u` has its digits and
every half of a surrogate pair its other half. -/
def pairedEscapes : ℕ → Bytes → Bool
  | 0, _ => true
  | _ + 1, [] => true
  | bound + 1, 92 :: rest =>
    match rest with
    | [] => false
    | 117 :: rest =>
      if rest.length < 4 || !(rest.take 4).all isHex then false
      else
        let high := hexRune (rest.take 4)
        if 0xD800 ≤ high && high ≤ 0xDBFF then
          match rest.drop 4 with
          | 92 :: 117 :: more =>
            if 4 ≤ more.length && (more.take 4).all isHex && 0xDC00 ≤ hexRune (more.take 4) &&
                hexRune (more.take 4) ≤ 0xDFFF then pairedEscapes bound (more.drop 4)
            else false
          | _ => false
        else if 0xDC00 ≤ high && high ≤ 0xDFFF then false
        else pairedEscapes bound (rest.drop 4)
    | _ :: rest => pairedEscapes bound rest
  | bound + 1, byte :: rest => pairedEscapes bound ((byte :: rest).drop (decodeRune (byte :: rest)).2)

def stringIDIsWellFormed (raw : Bytes) : Bool := validUtf8 raw.length raw && pairedEscapes raw.length raw

/-- A rune that is no backslash is passed over. -/
theorem pairedEscapes_rune {word : Bytes} (bound : ℕ) (rest : Bytes) (encodes : Utf8.Encodes word rune)
    (plain : ∀ byte ∈ word.head?, byte ≠ 92) : pairedEscapes (bound + 1) (word ++ rest) = pairedEscapes bound rest := by
  have decodes := encodes.decodes rest
  obtain ⟨lead, tail, rfl⟩ := List.exists_cons_of_ne_nil encodes.nonempty
  rw [List.cons_append] at decodes ⊢
  rw [pairedEscapes, decodes]
  · simp
  · exact fun escape => plain lead rfl escape

/-! The key. -/

/-- `mcp.MsgKey`. -/
def msgKey (id : Option Bytes) : Bytes :=
  match id with
  | none => []
  | some id =>
    let raw := trimSpace id
    let asIs := lit "r:" ++ raw
    match raw with
    | [] => []
    | 34 :: _ =>
      match parseText raw with
      | some (.string body) => if stringIDIsWellFormed raw then lit "s:" ++ unquote body else asIs
      | _ => asIs
    | 110 :: _ => if raw = lit "null" then lit "z:null" else asIs
    | _ :: _ =>
      match parseCanonicalJSONInt raw with
      | some i => lit "n:" ++ decimalInt i
      | none =>
        if raw.length ≤ maxNumericLiteralLen && numericLiteralBounded raw &&
            readNumber raw = some (raw, []) then
          match ratOf raw with
          | some q => lit "n:" ++ ratString q
          | none => asIs
        else asIs

example : ["5", "5.0", "5e0", " 5 ", "50e-1"].map (fun s => msgKey (some (lit s))) =
    List.replicate 5 (lit "n:5") := by decide +kernel
example : ["\"5\"", "null", "0.5", "05", "\"\\ud800\""].map (fun s => msgKey (some (lit s))) =
    ["s:5", "z:null", "n:1/2", "r:05", "r:\"\\ud800\""].map lit := by decide +kernel

end Eunox
