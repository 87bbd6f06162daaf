import Eunox.ByteString

/-! JSON texts as trees that keep every byte. `Text.print` gives the text back and
`readText` reads one value from the front of a byte string, as Go's
`encoding/json` scanner does: any byte of at least `0x80` is let through inside a
string, white space is the four JSON bytes, and a container nested deeper than
`maxNestingDepth` is an error. The loops take the length of what they read as
their bound. -/
namespace JsonText
open ByteString

/-- The two kinds of container. -/
inductive Bracket where
  | square
  | curly
  deriving DecidableEq, Repr

def Bracket.opening : Bracket → UInt8
  | .square => 91
  | .curly => 123

def Bracket.closing : Bracket → UInt8
  | .square => 93
  | .curly => 125

/-- The key of a member as it is spelled between its quotes, with the white space
on both sides of the colon. -/
structure Label where
  key : Bytes
  gap : Bytes
  lead : Bytes
  deriving DecidableEq, Repr

/-- One element or member of a container, with the white space around it. -/
structure Entry (α : Type) where
  before : Bytes
  label : Option Label
  value : α
  after : Bytes

/-- One JSON value as it is spelled. A string is what stands between its quotes,
still escaped; the gap of a container is what an empty one has between its
brackets. -/
inductive Text where
  | null
  | bool (b : Bool)
  | number (literal : Bytes)
  | string (body : Bytes)
  | container (bracket : Bracket) (gap : Bytes) (entries : List (Entry Text))

/-! Printing. -/

def Label.print (label : Label) : Bytes := 34 :: (label.key ++ 34 :: (label.gap ++ 58 :: label.lead))

def printLabel : Option Label → Bytes
  | none => []
  | some label => label.print

mutual
def Text.print : Text → Bytes
  | .null => lit "null"
  | .bool true => lit "true"
  | .bool false => lit "false"
  | .number literal => literal
  | .string body => 34 :: (body ++ [34])
  | .container bracket gap entries => bracket.opening :: (gap ++ (printEntries entries ++ [bracket.closing]))

def printEntry : Entry Text → Bytes
  | ⟨before, label, value, after⟩ => before ++ (printLabel label ++ (value.print ++ after))

def printEntries : List (Entry Text) → Bytes
  | [] => []
  | entry :: entries => printEntry entry ++ (if entries.isEmpty then [] else 44 :: printEntries entries)
end

/-! Reading. -/

/-- Go's `maxNestingDepth`. -/
def maxNestingDepth : ℕ := 10000

def isSpace (byte : UInt8) : Bool := byte = 32 || byte = 9 || byte = 13 || byte = 10

/-- White space in front, and what follows it. -/
def readSpace (s : Bytes) : Bytes × Bytes := (s.takeWhile isSpace, s.dropWhile isSpace)

/-- At least one digit. -/
def readDigits (s : Bytes) : Option (Bytes × Bytes) :=
  if (s.takeWhile isDigit).isEmpty then none else some (s.takeWhile isDigit, s.dropWhile isDigit)

def readSign (allowed : List UInt8) : Bytes → Bytes × Bytes
  | [] => ([], [])
  | byte :: rest => if byte ∈ allowed then ([byte], rest) else ([], byte :: rest)

/-- The digits before the point: a zero stands alone. -/
def readInteger : Bytes → Option (Bytes × Bytes)
  | [] => none
  | byte :: rest => if byte = 48 then some ([48], rest) else readDigits (byte :: rest)

def readFraction : Bytes → Option (Bytes × Bytes)
  | [] => some ([], [])
  | byte :: rest =>
    if byte = 46 then (readDigits rest).map fun (digits, rest) => (46 :: digits, rest)
    else some ([], byte :: rest)

def readExponent : Bytes → Option (Bytes × Bytes)
  | [] => some ([], [])
  | byte :: rest =>
    if byte = 101 || byte = 69 then
      let (sign, rest) := readSign [43, 45] rest
      (readDigits rest).map fun (digits, rest) => (byte :: (sign ++ digits), rest)
    else some ([], byte :: rest)

def readNumber (s : Bytes) : Option (Bytes × Bytes) := do
  let (sign, s) := readSign [45] s
  let (integer, s) ← readInteger s
  let (fraction, s) ← readFraction s
  let (exponent, s) ← readExponent s
  return (sign ++ (integer ++ (fraction ++ exponent)), s)

/-- The bytes that may follow a backslash, other than the `u`. -/
def escapes : List UInt8 := [98, 102, 110, 114, 116, 92, 47, 34]

/-- What is in front of the next quote that no backslash escapes, and what
follows that quote. -/
def readString : Bytes → Option (Bytes × Bytes)
  | [] => none
  | 92 :: 117 :: a :: b :: c :: d :: rest =>
    if [a, b, c, d].all isHex then
      (readString rest).map fun (body, rest) => (92 :: 117 :: a :: b :: c :: d :: body, rest)
    else none
  | 92 :: escaped :: rest =>
    if escaped ∈ escapes then
      (readString rest).map fun (body, rest) => (92 :: escaped :: body, rest)
    else none
  | byte :: rest =>
    if byte = 34 then some ([], rest)
    else if byte < 32 || byte = 92 then none
    else (readString rest).map fun (body, rest) => (byte :: body, rest)

/-- The key and colon of a member; nothing to read for an element. -/
def readLabel : Bracket → Bytes → Option (Option Label × Bytes)
  | .square, s => some (none, s)
  | .curly, s => do
    let s ← cutPrefix [34] s
    let (key, s) ← readString s
    let (gap, s) := readSpace s
    let s ← cutPrefix [58] s
    let (lead, s) := readSpace s
    return (some ⟨key, gap, lead⟩, s)

mutual
/-- One value without the white space around it. `depth` is how many containers
may still be opened. -/
def readValue : ℕ → ℕ → Bytes → Option (Text × Bytes)
  | 0, _, _ => none
  | _ + 1, _, [] => none
  | bound + 1, depth, byte :: s =>
    if byte = 110 then (cutPrefix (lit "ull") s).map (.null, ·)
    else if byte = 116 then (cutPrefix (lit "rue") s).map (.bool true, ·)
    else if byte = 102 then (cutPrefix (lit "alse") s).map (.bool false, ·)
    else if byte = 34 then (readString s).map fun (body, s) => (.string body, s)
    else if byte = 91 then readContainer .square bound depth s
    else if byte = 123 then readContainer .curly bound depth s
    else (readNumber (byte :: s)).map fun (literal, s) => (.number literal, s)

/-- What follows an opening bracket. -/
def readContainer (bracket : Bracket) : ℕ → ℕ → Bytes → Option (Text × Bytes)
  | 0, _, _ => none
  | _ + 1, 0, _ => none
  | bound + 1, depth + 1, s =>
    let (gap, s) := readSpace s
    if s.head? = some bracket.closing then some (.container bracket gap [], s.tail)
    else (readEntries bracket bound depth gap s).map fun (entries, s) => (.container bracket [] entries, s)

/-- The entries up to the closing bracket; the white space before the first has
been read. -/
def readEntries (bracket : Bracket) : ℕ → ℕ → Bytes → Bytes → Option (List (Entry Text) × Bytes)
  | 0, _, _, _ => none
  | bound + 1, depth, before, s => do
    let (label, s) ← readLabel bracket s
    let (value, s) ← readValue bound depth s
    let (after, s) := readSpace s
    if s.head? = some bracket.closing then return ([⟨before, label, value, after⟩], s.tail)
    let s ← cutPrefix [44] s
    let (before', s) := readSpace s
    let (entries, s) ← readEntries bracket bound depth before' s
    return (⟨before, label, value, after⟩ :: entries, s)
end

/-- The first value of a byte string, after white space, and what follows it:
what one `Decoder.Decode` consumes. -/
def readText (s : Bytes) : Option (Text × Bytes) := readValue (2 * s.length) maxNestingDepth (readSpace s).2

/-- A byte string that holds one value and white space: what `json.Valid`
accepts. -/
def parseText (s : Bytes) : Option Text := do
  let (text, rest) ← readText s
  if (readSpace rest).2.isEmpty then some text else none

example : (parseText (lit " [1.5e3, \x7b\"a\\u00e9\" : null\x7d,[ ] ] ")).map Text.print =
    some (lit "[1.5e3, \x7b\"a\\u00e9\" : null\x7d,[ ] ]") := by
  decide

example : (["01", "1.", "[1,]", "\x7b\"a\" 1\x7d", "\"\\x\"", "[", "nul"].map fun s =>
    (parseText (lit s)).isSome) = List.replicate 7 false := by
  decide

end JsonText
