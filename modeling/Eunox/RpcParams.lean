import Eunox.RpcMessage
import Eunox.Json
import Eunox.JsonToken

/-! How the params of a message are decoded. Two keys of one object that case
folding identifies are refused at any depth, before anything is bound. Nothing here
depends on which fold it is. -/
namespace Eunox
open ByteString JsonText

variable (fold : Bytes → Bytes)

mutual
/-- No object in the value has two keys with one fold. -/
def distinctKeys : Text → Bool
  | .container _ _ entries =>
    ((entries.filterMap (·.label)).map fun label => fold (unquote label.key)).Nodup &&
      distinctKeysEntries entries
  | _ => true

def distinctKeysEntry : Entry Text → Bool
  | ⟨_, _, value, _⟩ => distinctKeys value

def distinctKeysEntries : List (Entry Text) → Bool
  | [] => true
  | entry :: entries => distinctKeysEntry entry && distinctKeysEntries entries
end

/-! The guard, over the tokens of the stream. -/

inductive ParamsError where
  | parse
  | duplicateKey (key : Bytes)
  /-- The two differ only by case. -/
  | foldedKey (prior key : Bytes)
  deriving DecidableEq

structure Frame where
  object : Bool
  /-- The keys of the object so far, each under its fold. -/
  seen : List (Bytes × Bytes) := []
  expectKey : Bool := false
  deriving DecidableEq

/-- A value is over: the object around it expects a key. -/
def markValueDone : List Frame → List Frame
  | [] => []
  | frame :: stack => (if frame.object then { frame with expectKey := true } else frame) :: stack

/-- The object whose key comes next. -/
def expectingKey : List Frame → Option (Frame × List Frame)
  | [] => none
  | frame :: stack => if frame.object && frame.expectKey then some (frame, stack) else none

/-- Every token takes at least a byte, so their number is fuel enough. -/
def walkKeys : ℕ → Decoder → List Frame → Option ParamsError
  | 0, _, _ => some .parse
  | fuel + 1, d, stack =>
    match d.token with
    | .eof => none
    | .error => some .parse
    | .token (.opening bracket) d => walkKeys fuel d (⟨bracket = .curly, [], bracket = .curly⟩ :: stack)
    | .token (.closing _) d => walkKeys fuel d (markValueDone stack.tail)
    | .token (.scalar (.string body)) d =>
      match expectingKey stack with
      | none => walkKeys fuel d (markValueDone stack)
      | some (frame, stack) =>
        let key := unquote body
        match frame.seen.lookup (fold key) with
        | some prior => some (if prior = key then .duplicateKey key else .foldedKey prior key)
        | none => walkKeys fuel d ({ frame with seen := (fold key, key) :: frame.seen, expectKey := false } :: stack)
    | .token (.scalar _) d => walkKeys fuel d (markValueDone stack)

def rejectDuplicateJSONKeys (raw : Bytes) : Option ParamsError :=
  if (trimSpace raw).isEmpty then none else walkKeys fold (raw.length + 1) ⟨raw, .topValue, []⟩ []

/-- The value `mcp.DecodeParams` binds from. -/
def decodeParams (raw : Bytes) : Option Text :=
  if (rejectDuplicateJSONKeys fold raw).isSome then none else (readText raw).map Prod.fst

/-- The members of an object, by the strings their keys denote. -/
def membersOf (entries : List (Entry Text)) : List (Bytes × Text) :=
  entries.filterMap fun entry => entry.label.map fun label => (unquote label.key, entry.value)

/-- Decoding into a `map[string]json.RawMessage`. -/
def decodeFields (raw : Bytes) : Option (List (Bytes × Text)) :=
  match decodeParams fold raw with
  | some .null => some []
  | some (.container .curly _ entries) => some (membersOf entries)
  | _ => none

mutual
/-- The value decoding into an `interface{}` gives, its numbers kept as they are
written. -/
def valueOf : Text → JsonValue.Json
  | .null => .null
  | .bool b => .bool b
  | .number literal => .number literal
  | .string body => .string (unquote body)
  | .container .square _ entries => .array (valuesOf entries)
  | .container .curly _ entries => .object (memberValuesOf entries)

def entryValue : Entry Text → JsonValue.Json
  | ⟨_, _, value, _⟩ => valueOf value

def valuesOf : List (Entry Text) → List JsonValue.Json
  | [] => []
  | entry :: entries => entryValue entry :: valuesOf entries

def memberValuesOf : List (Entry Text) → List (Bytes × JsonValue.Json)
  | [] => []
  | entry :: entries => (unquote (entry.label.elim [] Label.key), entryValue entry) :: memberValuesOf entries
end

/-- `json.Marshal` of such a map: the keys in order, the values compacted. -/
def marshalFields (fields : List (Bytes × Text)) : Bytes :=
  (Text.container .curly [] ((fields.insertionSort fun left right => left.1 ≤ right.1).map
    fun field => ⟨[], some ⟨quote field.1, [], []⟩, field.2.compact, []⟩)).print

example : (decodeFields id (lit "\x7b\"b\":[1, 2],\"a\":\x7b\x7d\x7d")).map marshalFields =
    some (lit "\x7b\"a\":\x7b\x7d,\"b\":[1,2]\x7d") := rfl

example : (decodeFields id (lit "\x7b\"b\":[\x7b\"a\":1,\"\\u0061\":2\x7d]\x7d")).isNone := by
  decide

-- a stream that ends inside its second value is walked to its end
example : (decodeParams id (lit "\x7b\"a\":1\x7d \x7b\"b\"")).isSome := rfl

end Eunox
