import Eunox.ByteString

/-! `capability.CompositeKey`, the one encoding every counter and label key is
built with. A part is written with its length in front, so no byte of a part can
stand for the border of another: a key determines the parts it was built from. -/
namespace Eunox
open ByteString

/-- `":" + strconv.Itoa(len(p)) + ":" + p`. -/
def compositePart (part : Bytes) : Bytes := 58 :: (decimal part.length ++ 58 :: part)

def writeCompositeParts (parts : List Bytes) : Bytes := parts.flatMap compositePart

/-- The tag is written verbatim. -/
def compositeKeyJoin (tag : Bytes) (head tail : List Bytes) : Bytes :=
  tag ++ (writeCompositeParts head ++ writeCompositeParts tail)

def compositeKey (tag : Bytes) (parts : List Bytes) : Bytes := compositeKeyJoin tag parts []

theorem compositeKeyJoin_eq (tag : Bytes) (head tail : List Bytes) :
    compositeKeyJoin tag head tail = compositeKey tag (head ++ tail) := by
  simp [compositeKey, compositeKeyJoin, writeCompositeParts]

private theorem colon_not_mem_decimal (n : ℕ) : (58 : UInt8) ∉ decimal n := by
  intro mem
  exact absurd (decimal_digits mem).2 (by decide)

theorem writeCompositeParts_injective : Function.Injective writeCompositeParts := by
  intro left
  induction left with
  | nil =>
    intro right same
    cases right with
    | nil => rfl
    | cons part rest => simp [writeCompositeParts, compositePart] at same
  | cons part rest ih =>
    intro right same
    cases right with
    | nil => simp [writeCompositeParts, compositePart] at same
    | cons part' rest' =>
      simp only [writeCompositeParts, List.flatMap_cons, compositePart, List.cons_append,
        List.append_assoc, List.cons.injEq, true_and] at same
      -- The length ends at the first colon, and then says where the part ends.
      obtain ⟨lengths, bodies⟩ := append_separator_inj_head (colon_not_mem_decimal _) (colon_not_mem_decimal _) same
      obtain ⟨rfl, rests⟩ := List.append_inj bodies (decimal_injective lengths)
      rw [ih rests]

/-- The tag ends where the first colon stands. -/
private theorem takeWhile_tag (plain : (58 : UInt8) ∉ tag) (parts : List Bytes) :
    (tag ++ writeCompositeParts parts).takeWhile (· ≠ 58) = tag := by
  rw [List.takeWhile_append_of_pos fun byte mem => by simpa using ne_of_mem_of_not_mem mem plain]
  cases parts <;> simp [writeCompositeParts, compositePart]

/-- Keys under colon-free tags agree only when tag and parts do. -/
theorem compositeKey_inj (plain : (58 : UInt8) ∉ tag) (plain' : (58 : UInt8) ∉ tag')
    (same : compositeKey tag parts = compositeKey tag' parts') : tag = tag' ∧ parts = parts' := by
  have written : tag ++ writeCompositeParts parts = tag' ++ writeCompositeParts parts' := by
    simpa [compositeKey, compositeKeyJoin, writeCompositeParts] using same
  have tags := congrArg (List.takeWhile (· ≠ 58)) written
  rw [takeWhile_tag plain, takeWhile_tag plain'] at tags
  subst tags
  exact ⟨rfl, writeCompositeParts_injective (List.append_cancel_left written)⟩

end Eunox
