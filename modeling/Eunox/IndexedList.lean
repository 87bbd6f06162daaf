import Mathlib.Data.List.Basic

/-! Lists that objects are found in by their place: one is exchanged, or a new one comes last. -/
namespace IndexedList
variable {α : Type*} {l : List α} {a b c : α} {i j : ℕ}

theorem lt_of_found (found : l[i]? = some a) : i < l.length := (List.getElem?_eq_some_iff.mp found).1

theorem set_cases (found : (l.set i a)[j]? = some b) : j = i ∧ b = a ∨ j ≠ i ∧ l[j]? = some b := by
  by_cases here : i = j
  · subst here
    have bound := lt_of_found found
    rw [List.length_set] at bound
    exact .inl ⟨rfl, by simpa [bound] using found.symm⟩
  · exact .inr ⟨Ne.symm here, by rwa [List.getElem?_set_ne here] at found⟩

theorem set_self (found : l[i]? = some b) : (l.set i a)[i]? = some a := List.getElem?_set_self (lt_of_found found)

/-- What is found stays where it is, or is the one exchanged. -/
theorem exchanged (here : l[i]? = some b) (old : l[j]? = some c) :
    j = i ∧ c = b ∧ (l.set i a)[j]? = some a ∨ j ≠ i ∧ (l.set i a)[j]? = some c := by
  by_cases same : i = j
  · subst same
    exact .inl ⟨rfl, Option.mem_unique old here, set_self here⟩
  · exact .inr ⟨Ne.symm same, by rwa [List.getElem?_set_ne same]⟩

theorem set_other (here : l[i]? = some b) (old : l[j]? = some c) (differ : c ≠ b) : (l.set i a)[j]? = some c :=
  ((exchanged here old).resolve_left fun same => differ same.2.1).2

theorem append_old (found : l[i]? = some a) : (l ++ [b])[i]? = some a := by
  rwa [List.getElem?_append_left (lt_of_found found)]

theorem append_cases (found : (l ++ [a])[i]? = some b) : i < l.length ∧ l[i]? = some b ∨ i = l.length ∧ b = a := by
  rcases Nat.lt_or_ge i l.length with old | last
  · exact .inl ⟨old, by rwa [List.getElem?_append_left old] at found⟩
  have bound := lt_of_found found
  rw [List.length_append, List.length_singleton] at bound
  obtain rfl : i = l.length := by omega
  exact .inr ⟨rfl, by simpa using found.symm⟩

end IndexedList
