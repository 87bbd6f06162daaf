import Eunox.CallCounter

/-! Texts the engine reports. A text keeps the values it prints apart from the
wording around them; how a verb prints its value is left to the reader of the
text. -/
namespace Eunox
open ByteString

/-- A piece of a formatted text. -/
inductive Fragment where
  | text (s : String)
  /-- `%s`. -/
  | bytes (s : Bytes)
  /-- `%q` of a string. -/
  | quoted (s : Bytes)
  /-- `%q` of the first character. -/
  | quotedRune (rest : Bytes)
  /-- `%v` of a list of strings. -/
  | listed (items : List Bytes)
  | int (n : ℤ)
  | double (x : Binary64)
  /-- A magnitude in decimal. -/
  | magnitude (x : ℚ)
  | counterError (e : CallCounter.CounterError)
  deriving DecidableEq

abbrev Message := List Fragment

/-- How the verbs print. -/
structure Printer where
  quote : Bytes → String
  quoteRune : Bytes → String
  raw : Bytes → String
  double : Binary64 → String
  magnitude : ℚ → String

def Fragment.render (p : Printer) : Fragment → String
  | .text s => s
  | .bytes s => p.raw s
  | .quoted s => p.quote s
  | .quotedRune rest => p.quoteRune rest
  | .listed items => "[" ++ String.intercalate " " (items.map p.raw) ++ "]"
  | .int n => toString n
  | .double x => p.double x
  | .magnitude x => p.magnitude x
  | .counterError e => e.text p.double

def Message.render (p : Printer) (m : Message) : String := String.join (m.map (Fragment.render p))

end Eunox
