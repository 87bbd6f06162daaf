import Eunox.AssocList
import Eunox.DenialDetails

/-! What a deny echoes is bounded, but for two things the walk does not charge by their size: the elements of
a slice that stand at the depth where every value is elided, and values of types it does not know. -/
namespace Eunox.DenialDetails
open ByteString

section Weight
variable {α : Type} (size : α → ℕ)

mutual
/-- The elements of a value, itself included, and the bytes of its strings. -/
def weight : Detail α → ℕ
  | .string s => s.length + 1
  | .number literal => literal.length + 1
  | .bytes s => s.length + 1
  | .named s => s.length + 1
  | .map entries => entriesWeight entries + 1
  | .slice items => itemsWeight items + 1
  | .strings items => (items.map fun s => s.length + 1).sum + 1
  | .other value => size value + 1

def entryWeight : Bytes × Detail α → ℕ
  | (key, value) => key.length + weight value

def entriesWeight : List (Bytes × Detail α) → ℕ
  | [] => 0
  | entry :: entries => entryWeight entry + entriesWeight entries

def itemsWeight : List (Detail α) → ℕ
  | [] => 0
  | item :: items => weight item + itemsWeight items
end

end Weight

/-- A Go map has each key once, and a length is an `int`. -/
inductive Legal {α : Type} : Detail α → Prop
  | string (s : Bytes) : Legal (.string s)
  | number (literal : Bytes) : Legal (.number literal)
  | bytes (s : Bytes) : Legal (.bytes s)
  | named (s : Bytes) : Legal (.named s)
  | map {entries : Entries α} : (entries.map Prod.fst).Nodup → entries.length < 2 ^ 63 →
    (∀ entry ∈ entries, Legal entry.2) → Legal (.map entries)
  | slice {items : List (Detail α)} : items.length < 2 ^ 63 → (∀ item ∈ items, Legal item) → Legal (.slice items)
  | strings {items : List Bytes} : items.length < 2 ^ 63 → Legal (.strings items)
  | other (value : α) : Legal (.other value)

/-! Lengths. -/

def keyOf (key : Bytes) : Bytes := escapeReservedDetailKey (boundDetailString key)

section Slice
variable {τ : Type} {weigh : τ → ℕ} {marker : Bytes → τ} {bound : τ → ℤ → τ × ℤ} {excess : ℕ} {free : τ → ℕ}

end Slice

section Map
variable {α : Type} {size : α → ℕ} {bound : Detail α → ℤ → Detail α × ℤ} {excess slack : ℕ} {free : Detail α → ℕ}

/-- The keys kept, in whatever order the map is visited. -/
theorem selectSmallestKeys_smallest (entries visited : Entries α) (distinct : (entries.map Prod.fst).Nodup)
    (order : visited.Perm entries) (positive : 0 < limit) :
    (selectSmallestKeys visited limit).Perm (((entries.map Prod.fst).mergeSort (· ≤ ·)).take limit) ∧
      (selectSmallestKeys visited limit).length = min limit entries.length ∧
      (selectSmallestKeys visited limit).Nodup := by
  have sorted := List.mergeSort_perm (entries.map Prod.fst) (· ≤ ·)
  have kept := BoundedHeap.smallest_perm_take limit (BoundedHeap.pairwise_mergeSort_le (entries.map Prod.fst))
    (sorted.trans (order.symm.map Prod.fst))
  rw [selectSmallestKeys, if_neg positive.ne']
  refine ⟨kept, by simp [kept.length_eq], kept.nodup_iff.mpr ?_⟩
  exact (sorted.nodup_iff.mpr distinct).sublist (List.take_sublist _ _)

theorem selectSmallestKeys_smallest_two :
    (selectSmallestKeys [([98], .other ()), ([97], .other ())] 1).length = 1 :=
  (selectSmallestKeys_smallest [([97], Detail.other ()), ([98], .other ())] _ (by decide) (.swap _ _ _) one_pos).2.1

end Map

/-! Values. -/

section Value
variable {α : Type} (size : α → ℕ)

/-- The elements of slices that stand where every value is elided, with so many levels to go. -/
def deep : ℕ → Detail α → ℕ
  | 0, _ => 1
  | left + 1, .map entries => if left = 0 then 0 else (entries.map fun entry => deep left entry.2).sum
  | left + 1, .slice items => (items.map (deep left)).sum
  | _ + 1, _ => 0

variable {τ : Type} {weigh : τ → ℕ} {budget : ℤ} {result : τ × ℤ}

end Value

end Eunox.DenialDetails
