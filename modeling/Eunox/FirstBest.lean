import Mathlib.Data.List.MinMax
import Mathlib.Data.Prod.Lex
import Mathlib.Order.Lattice

/-! The first of the best: `List.argmax` on lists that are made of blocks. Where
no two elements of different blocks tie, the order of the blocks does not matter. -/
namespace FirstBest
variable {α ι κ : Type*} [LinearOrder κ] {key : α → κ}

/-- The first best: what stands before it is less, and what follows no greater. -/
theorem mem_argmax_iff_split {l : List α} : best ∈ l.argmax key ↔ ∃ before after, l = before ++ best :: after ∧
    (∀ a ∈ before, key a < key best) ∧ ∀ a ∈ after, key a ≤ key best := by
  constructor
  · intro found
    induction l with
    | nil => simp at found
    | cons head rest ih =>
      rw [List.argmax_cons] at found
      cases later : rest.argmax key with
      | none => exact ⟨[], [], by simp_all, nofun, nofun⟩
      | some other =>
        simp only [later] at found
        split at found
        · rename_i less
          obtain rfl := Option.some.inj found
          obtain ⟨before, after, rfl, under, past⟩ := ih later
          exact ⟨head :: before, after, rfl, List.forall_mem_cons.mpr ⟨less, under⟩, past⟩
        · rename_i atLeast
          obtain rfl := Option.some.inj found
          exact ⟨[], rest, rfl, nofun, fun a mem => (List.le_of_mem_argmax mem later).trans (not_lt.mp atLeast)⟩
  · rintro ⟨before, after, rfl, under, past⟩
    induction before with
    | nil =>
      rw [List.nil_append, List.argmax_cons]
      cases later : after.argmax key with
      | none => rfl
      | some other => simp [past other (List.argmax_mem later)]
    | cons head before ih =>
      have best := ih fun a mem => under a (.tail _ mem)
      rw [List.cons_append, List.argmax_cons, Option.mem_def.mp best]
      simp [under head (.head _)]

/-- The first best is the first best of any part it is in. -/
theorem argmax_filter {l : List α} (found : best ∈ l.argmax key) (inside : part best = true) :
    best ∈ (l.filter part).argmax key := by
  obtain ⟨before, after, rfl, under, past⟩ := mem_argmax_iff_split.mp found
  refine mem_argmax_iff_split.mpr ⟨before.filter part, after.filter part, by simp [inside], ?_, ?_⟩
  · exact fun a mem => under a (List.mem_of_mem_filter mem)
  · exact fun a mem => past a (List.mem_of_mem_filter mem)

/-- Lists of the same blocks in another order have the same first best, where the best of
one block does not tie with another's. -/
theorem argmax_blocks [DecidableEq ι] {block : α → ι} {l l' : List α}
    (same : ∀ i, l.filter (fun a => decide (block a = i)) = l'.filter fun a => decide (block a = i))
    (apart : ∀ a ∈ l, ∀ b ∈ l, key a = key b → block a = block b) : l.argmax key = l'.argmax key := by
  have mem_iff (a : α) : a ∈ l ↔ a ∈ l' := by
    have := congrArg (a ∈ ·) (same (block a))
    simpa using this
  cases best : l.argmax key with
  | none =>
    have empty : l = [] := List.argmax_eq_none.mp best
    have empty' : l' = [] := List.eq_nil_iff_forall_not_mem.mpr fun a mem => by
      simpa [empty] using (mem_iff a).mpr mem
    rw [empty', List.argmax_nil]
  | some a =>
    cases best' : l'.argmax key with
    | none =>
      rw [List.argmax_eq_none.mp best'] at mem_iff
      exact absurd ((mem_iff a).mp (List.argmax_mem best)) List.not_mem_nil
    | some b =>
      have inside : b ∈ l := (mem_iff b).mpr (List.argmax_mem best')
      have tie : key a = key b := le_antisymm (List.le_of_mem_argmax ((mem_iff a).mp (List.argmax_mem best)) best')
        (List.le_of_mem_argmax inside best)
      have together := apart a (List.argmax_mem best) b inside tie
      have mine : a ∈ (l.filter fun c => decide (block c = block a)).argmax key := argmax_filter best (by simp)
      have yours : b ∈ (l'.filter fun c => decide (block c = block a)).argmax key :=
        argmax_filter best' (by simp [together])
      rw [same] at mine
      exact congrArg some (Option.mem_unique mine yours)

/-- The first best of images is the image of the first best. -/
theorem argmax_map {β : Type*} (f : β → α) : ∀ l : List β, (l.map f).argmax key = (l.argmax (key ∘ f)).map f
  | [] => rfl
  | head :: rest => by
    rw [List.map_cons, List.argmax_cons, argmax_map f rest, List.argmax_cons]
    cases rest.argmax (key ∘ f) with
    | none => rfl
    | some c =>
      dsimp
      split <;> rfl

/-- Keys that put the list in the same order have the same first best. -/
theorem argmax_congr {key' : α → κ} {l : List α} (same : ∀ a ∈ l, ∀ b ∈ l, key a < key b ↔ key' a < key' b) :
    l.argmax key = l.argmax key' := by
  induction l with
  | nil => rfl
  | cons a rest ih =>
    have later := ih fun b mem c mem' => same b (.tail _ mem) c (.tail _ mem')
    rw [List.argmax_cons, List.argmax_cons, later]
    cases best : rest.argmax key' with
    | none => rfl
    | some b => simp [same a (.head _) b (.tail _ (List.argmax_mem best))]

/-- The key of the first best does not depend on the order. -/
theorem argmax_perm {l l' : List α} (perm : l.Perm l') : (l.argmax key).map key = (l'.argmax key).map key := by
  have greatest (l : List α) : (l.map key).argmax id = (l.argmax key).map key := argmax_map key l
  rw [← greatest, ← greatest]
  exact (perm.map key).maximum_eq

/-- The first best of a part: what stands before it in the part is less, and what follows no greater. -/
theorem argmax_filter_split {l : List α} (found : best ∈ (l.filter part).argmax key) :
    ∃ before after, l = before ++ best :: after ∧ part best = true ∧
      (∀ a ∈ before, part a = true → key a < key best) ∧
      ∀ a ∈ after, part a = true → key a ≤ key best := by
  obtain ⟨front, back, split, under, past⟩ := mem_argmax_iff_split.mp found
  obtain ⟨first, rest, rfl, rfl, kept⟩ := List.filter_eq_append_iff.mp split
  obtain ⟨skipped, after, rfl, passed, chosen, rfl⟩ := List.filter_eq_cons_iff.mp kept
  refine ⟨first ++ skipped, after, by simp, chosen, ?_, fun a mem inside => past a (List.mem_filter.mpr ⟨mem, inside⟩)⟩
  refine List.forall_mem_append.mpr ⟨fun a mem inside => under a (List.mem_filter.mpr ⟨mem, inside⟩), ?_⟩
  exact fun a mem inside => absurd inside (passed a mem)

end FirstBest
