import Eunox.DenialBound

/-! What a deny echoes is what the call had at that place, or says that something was cut. -/
namespace Eunox.DenialDetails
open ByteString

section Kept
variable {α : Type}

/-- The string made valid, or a beginning of it and how long it was. -/
def KeptString (s b : Bytes) : Prop :=
  let valid := Utf8.toValid [0xEF, 0xBF, 0xBD] s
  b = valid ∧ (Utf8.Valid s → b = s) ∨ b = lit "..." ∨
    ∃ front, front <+: valid ∧ b = front ++ (lit "...[eunox: truncated, " ++ decimal valid.length ++ lit " bytes]")

/-- An entry is the marker, or the entry of a key of the map under that key's bounded spelling. -/
def KeptEntries (kept : Detail α → Detail α → Prop) (entries out : Entries α) : Prop :=
  ∀ entry ∈ out, (∃ n ≤ entries.length, entry = (denialDetailElidedKey, .string (entriesElided n)) ∨
      entry = (denialDetailElidedKey, .string (entriesElidedOf n entries.length))) ∨
    ∃ source ∈ entries, entry.1 = keyOf source.1 ∧ kept source.2 entry.2

/-- The elements one by one, all or the first of them before a marker. -/
def KeptItems {τ : Type} (marker : Bytes → τ) (kept : τ → τ → Prop) (items out : List τ) : Prop :=
  List.Forall₂ kept items out ∨ out = [marker (elementsElided items.length)] ∨
    ∃ front n, List.Forall₂ kept (items.take n) front ∧
      out = front ++ [marker (elementsElidedOf (items.length - n) items.length)]

def Kept : ℕ → Detail α → Detail α → Prop
  | 0, _, out => out = .string denialDetailElided
  | left + 1, value, out => out = .string denialDetailElided ∨
    match value with
    | .string s => ∃ b, KeptString s b ∧ out = .string b
    | .number literal => ∃ b, KeptString literal b ∧ out = .number b
    | .bytes s => ∃ b, KeptString s b ∧ out = .bytes b
    | .named s => ∃ b, KeptString s b ∧ out = .string b
    | .map entries => ∃ kept, KeptEntries (Kept left) entries kept ∧ out = .map kept
    | .slice items => ∃ kept, KeptItems .string (Kept left) items kept ∧ out = .slice kept
    | .strings items =>
      ∃ kept, KeptItems id (fun s b => KeptString s b ∨ b = denialDetailElided) items kept ∧ out = .strings kept
    | .other value => out = .other value

section Slice
variable {τ : Type} {marker : Bytes → τ} {bound : τ → ℤ → τ × ℤ} {kept : τ → τ → Prop}

end Slice

section Map
variable {bound : Detail α → ℤ → Detail α × ℤ} {kept : Detail α → Detail α → Prop} {entries out : Entries α}

theorem KeptEntries.marked (keeps : KeptEntries kept entries out) (n : ℕ) (part : n ≤ entries.length) :
    KeptEntries kept entries (assign out denialDetailElidedKey (.string (entriesElidedOf n entries.length))) := by
  intro entry mem
  rcases List.mem_append.mp mem with old | new
  · exact keeps entry (List.mem_filter.mp old).1
  · exact .inl ⟨n, part, .inr (List.mem_singleton.mp new)⟩

end Map

end Kept

/-- A value in so many slices. -/
def nest {α : Type} : ℕ → Detail α → Detail α
  | 0, value => value
  | depth + 1, value => .slice [nest depth value]

end Eunox.DenialDetails
