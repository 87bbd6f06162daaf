import Eunox.ByteString

/-! JSON values. A number keeps its literal, as a decoder that does not convert
numbers reports it; strings and keys are byte strings. -/
namespace JsonValue
open ByteString

inductive Json where
  | null
  | bool (b : Bool)
  | number (literal : Bytes)
  | string (s : Bytes)
  | array (items : List Json)
  | object (members : List (Bytes × Json))

end JsonValue
