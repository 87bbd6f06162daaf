import Mathlib.Data.List.Basic

/-! A loop over a keyed store in which every pass touches one key. A key that
no pass names is left alone, and when the keys of the passes are distinct, what
happens to one of them is what its own pass does to the store before the loop. -/
namespace KeyedFold

variable {Store Key Value Item : Type*} (observe : Store → Key → Value) (key : Item → Key)
  (step : Store → Item → Store)

theorem apart (frame : ∀ store item k, k ≠ key item → observe (step store item) k = observe store k)
    {items : List Item} (outside : ∀ item ∈ items, key item ≠ k) (store : Store) :
    observe (items.foldl step store) k = observe store k := by
  induction items generalizing store with
  | nil => rfl
  | cons first rest ih =>
    rw [List.foldl_cons, ih (fun item mem => outside item (by simp [mem]))]
    exact frame store first k (outside first (by simp)).symm

theorem own (frame : ∀ store item k, k ≠ key item → observe (step store item) k = observe store k)
    (Change : Item → Value → Value → Prop)
    (pass : ∀ store item, Change item (observe store (key item)) (observe (step store item) (key item)))
    {items : List Item} (distinct : (items.map key).Nodup) (mem : item ∈ items) (store : Store) :
    Change item (observe store (key item)) (observe (items.foldl step store) (key item)) := by
  induction items generalizing store with
  | nil => cases mem
  | cons first rest ih =>
    obtain ⟨fresh, later⟩ := List.nodup_cons.mp distinct
    rw [List.foldl_cons]
    rcases List.mem_cons.mp mem with rfl | inRest
    · have outside : ∀ other ∈ rest, key other ≠ key item :=
        fun other held same => fresh (same ▸ List.mem_map_of_mem held)
      rw [apart observe key step frame outside]
      exact pass store item
    · have elsewhere : key item ≠ key first := fun same => fresh (same ▸ List.mem_map_of_mem inRest)
      have change := ih later inRest (step store first)
      rwa [frame store first _ elsewhere] at change

end KeyedFold
