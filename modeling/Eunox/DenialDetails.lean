import Eunox.BoundedHeap
import Eunox.RpcMessage

/-! `enforcement.BoundDenialDetails`: what a deny echoes of the call it refuses, cut down to a budget. A value
is of one of the types the walk knows, or of any other Go type. -/
namespace Eunox.DenialDetails
open ByteString

def maxDenialDetailStringLen : ℕ := 512
def denialDetailElided : Bytes := lit "[eunox: elided]"
def denialDetailElidedKey : Bytes := lit "_eunox_elided"
def denialDetailForgedKeyPrefix : Bytes := lit "_eunox_caller_"

inductive Detail (α : Type) where
  | string (s : Bytes)
  /-- A `json.Number`. -/
  | number (literal : Bytes)
  | bytes (s : Bytes)
  /-- A string of a type of its own. -/
  | named (s : Bytes)
  | map (entries : List (Bytes × Detail α))
  | slice (items : List (Detail α))
  | strings (items : List Bytes)
  | other (value : α)

section
variable {α : Type}

abbrev Entries (α : Type) := List (Bytes × Detail α)

/-- `out[k] = v`. -/
def assign (out : Entries α) (key : Bytes) (value : Detail α) : Entries α :=
  out.filter (fun entry => entry.1 != key) ++ [(key, value)]

def boundDetailString (s : Bytes) : Bytes := boundString s maxDenialDetailStringLen

def escapeReservedDetailKey (key : Bytes) : Bytes :=
  if key = denialDetailElidedKey then denialDetailForgedKeyPrefix ++ key else key

def selectSmallestKeys (entries : Entries α) (limit : ℕ) : List Bytes :=
  if limit = 0 then [] else BoundedHeap.smallest limit (entries.map Prod.fst)

def entriesElided (n : ℕ) : Bytes := decimal n ++ lit " entries elided"

def entriesElidedOf (n total : ℕ) : Bytes := decimal n ++ lit " of " ++ decimal total ++ lit " entries elided"

def elementsElided (n : ℕ) : Bytes := lit "[eunox: " ++ decimal n ++ lit " elements elided]"

def elementsElidedOf (n total : ℕ) : Bytes :=
  lit "[eunox: " ++ decimal n ++ lit " of " ++ decimal total ++ lit " elements elided]"

/-! The walk. A function that charges takes the budget and gives what is left of it. -/

section Slice
variable {τ : Type} (marker : Bytes → τ) (bound : τ → ℤ → τ × ℤ)

end Slice

end
end Eunox.DenialDetails
