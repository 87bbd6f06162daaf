import Mathlib.Data.List.Basic
import Mathlib.Data.List.Nodup
import Mathlib.Data.List.Perm.Subperm
import Mathlib.Algebra.Order.BigOperators.Group.List
import Mathlib.Algebra.Order.Ring.Nat

/-! Association lists, as maps when every key is in them once. -/
namespace AssocList

section
variable {α β : Type} [BEq α] [LawfulBEq α]

theorem mem_of_lookup {entries : List (α × β)} (found : entries.lookup key = some value) :
    (key, value) ∈ entries := by
  obtain ⟨front, back, split, -⟩ := List.lookup_eq_some_iff.mp found
  rw [split]
  exact List.mem_append_right _ (.head _)

theorem lookup_filter (keep : α → Bool) (entries : List (α × β)) (key : α) :
    (entries.filter fun entry => keep entry.1).lookup key = if keep key then entries.lookup key else none := by
  induction entries with
  | nil => simp
  | cons first entries ih =>
    obtain ⟨own, value⟩ := first
    by_cases here : key = own
    · subst here
      by_cases kept : keep key = true <;> simp [kept, ih]
    · have other : (key == own) = false := beq_false_of_ne here
      by_cases kept : keep own = true <;> simp [kept, ih, List.lookup_cons, other]

end
end AssocList
