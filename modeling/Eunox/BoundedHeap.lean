import Mathlib.Data.List.Induction
import Mathlib.Data.List.Perm.Subperm

/-! The smallest elements of a list, in a heap of bounded size with the largest at its root. What is kept is
the smallest part of what was offered. -/
namespace BoundedHeap

section
variable {α : Type}

def swap (heap : List α) (i j : ℕ) : List α :=
  match heap[i]?, heap[j]? with
  | some a, some b => (heap.set i b).set j a
  | _, _ => heap

theorem swap_perm (heap : List α) (i j : ℕ) : (swap heap i j).Perm heap := by
  unfold swap
  split
  · rename_i a b first second
    obtain ⟨inside, rfl⟩ := List.getElem?_eq_some_iff.mp first
    obtain ⟨inside', rfl⟩ := List.getElem?_eq_some_iff.mp second
    exact List.set_set_perm inside inside'
  · rfl

theorem getElem?_swap (inside : i < heap.length) (inside' : j < heap.length) (k : ℕ) :
    (swap (α := α) heap i j)[k]? = if k = j then heap[i]? else if k = i then heap[j]? else heap[k]? := by
  simp only [swap, List.getElem?_eq_getElem inside, List.getElem?_eq_getElem inside', List.getElem?_set,
    List.length_set]
  grind

section
variable [LT α] [DecidableLT α]

/-- The larger of the two, the entry at `i` if `j` is past the end. -/
def larger (heap : List α) (i j : ℕ) : ℕ :=
  match heap[i]?, heap[j]? with
  | some own, some below => if own < below then j else i
  | _, _ => i

/-- The entry at `i` downwards, past the larger of its children. -/
def siftDown : ℕ → ℕ → List α → List α
  | 0, _, heap => heap
  | fuel + 1, i, heap =>
    let largest := larger heap (larger heap i (2 * i + 1)) (2 * i + 2)
    if largest = i then heap else siftDown fuel largest (swap heap i largest)

theorem siftDown_perm (fuel i : ℕ) (heap : List α) : (siftDown fuel i heap).Perm heap := by
  induction fuel generalizing i heap with
  | zero => rfl
  | succ fuel ih =>
    rw [siftDown]
    split
    · rfl
    · exact (ih _ _).trans (swap_perm _ _ _)

theorem larger_cases (heap : List α) (i j : ℕ) : larger heap i j = i ∨ larger heap i j = j := by
  unfold larger
  grind

end

variable [LE α]

section
variable [DecidableLE α]

/-- The entry at `i` upwards, past every smaller parent. -/
def siftUp : ℕ → ℕ → List α → List α
  | 0, _, heap => heap
  | fuel + 1, i, heap =>
    if i = 0 then heap
    else
      let parent := (i - 1) / 2
      match heap[parent]?, heap[i]? with
      | some above, some own => if own ≤ above then heap else siftUp fuel parent (swap heap i parent)
      | _, _ => heap

theorem siftUp_perm (fuel i : ℕ) (heap : List α) : (siftUp fuel i heap).Perm heap := by
  induction fuel generalizing i heap with
  | zero => rfl
  | succ fuel ih =>
    rw [siftUp]
    split
    · rfl
    dsimp only
    split
    · split
      · rfl
      · exact (ih _ _).trans (swap_perm _ _ _)
    · rfl

end

section
variable [DecidableLE α] [LT α] [DecidableLT α]

/-- One element more, in the place of the largest once the heap is full. -/
def offer (limit : ℕ) (heap : List α) (element : α) : List α :=
  if heap.length < limit then siftUp heap.length heap.length (heap ++ [element])
  else
    match heap.head? with
    | some root => if root ≤ element then heap else siftDown heap.length 0 (heap.set 0 element)
    | none => heap

def smallest (limit : ℕ) (elements : List α) : List α := elements.foldl (offer limit) []

end

/-! What is kept. A place past the end counts as below every entry. -/

/-- Every entry is at most its parent. -/
def Ordered (heap : List α) : Prop := ∀ c, 0 < c → heap[c]? ≤ heap[(c - 1) / 2]?

/-- Ordered, but for the entry at `i` and its parent. -/
def Rising (heap : List α) (i : ℕ) : Prop := ∀ c, 0 < c →
  (c ≠ i → heap[c]? ≤ heap[(c - 1) / 2]?) ∧ ((c - 1) / 2 = i → 0 < i → heap[c]? ≤ heap[(i - 1) / 2]?)

/-- Ordered, but for the entry at `i` and its children. -/
def Sinking (heap : List α) (i : ℕ) : Prop := ∀ c, 0 < c →
  ((c - 1) / 2 ≠ i → heap[c]? ≤ heap[(c - 1) / 2]?) ∧ ((c - 1) / 2 = i → 0 < i → heap[c]? ≤ heap[(i - 1) / 2]?)

/-- The heap holds the smallest of what was offered. -/
structure Holds (limit : ℕ) (offered heap : List α) : Prop where
  ordered : Ordered heap
  bounded : heap.length ≤ limit
  least : ∃ dropped, (heap ++ dropped).Perm offered ∧ (∀ a ∈ heap, ∀ b ∈ dropped, a ≤ b) ∧
    (dropped ≠ [] → heap.length = limit)

variable [Std.IsLinearOrder α] {heap : List α}

instance preorder : Std.IsPreorder (Option α) where
  le_refl a := by
    cases a with
    | none => exact Option.none_le
    | some a => exact Option.some_le_some.mpr (Std.le_refl a)
  le_trans a b c := by
    cases a <;> cases b <;> cases c <;> simp
    exact Std.le_trans

theorem Rising.swap (rising : Rising heap i) (inside : i < heap.length) (moves : 0 < i)
    (larger : heap[(i - 1) / 2]? ≤ heap[i]?) : Rising (swap heap i ((i - 1) / 2)) ((i - 1) / 2) := by
  have parent := rising ((i - 1) / 2)
  intro c positive
  have own := rising c positive
  simp only [getElem?_swap inside (show (i - 1) / 2 < heap.length by omega)]
  grind

theorem Sinking.swap (sinking : Sinking heap i) (inside : j < heap.length) (child : 0 < j)
    (below : (j - 1) / 2 = i) (largest : ∀ c, 0 < c → (c - 1) / 2 = i → heap[c]? ≤ heap[j]?)
    (larger : heap[i]? ≤ heap[j]?) : Sinking (swap heap i j) j := by
  intro c positive
  have own := sinking c positive
  have raised := sinking j
  simp only [getElem?_swap (show i < heap.length by omega) inside]
  grind

theorem Ordered.root (ordered : Ordered heap) (i : ℕ) : heap[i]? ≤ heap[0]? := by
  induction i using Nat.strongRecOn with
  | ind i ih =>
    rcases Nat.eq_zero_or_pos i with rfl | positive
    · exact Std.le_refl _
    · exact Std.le_trans (ordered i positive) (ih _ (by omega))

theorem Ordered.le_root {root : α} (ordered : Ordered (root :: tail)) (member : a ∈ root :: tail) : a ≤ root := by
  obtain ⟨i, entry⟩ := List.mem_iff_getElem?.mp member
  have most := ordered.root i
  rwa [entry, List.getElem?_cons_zero, Option.some_le_some] at most

section
variable [DecidableLE α]

theorem siftUp_ordered (rising : Rising heap i) (inside : i < heap.length) (fuelled : i ≤ fuel) :
    Ordered (siftUp fuel i heap) := by
  induction fuel generalizing i heap with
  | zero =>
    intro c positive
    exact (rising c positive).1 (by omega)
  | succ fuel ih =>
    rw [siftUp]
    split
    · intro c positive
      exact (rising c positive).1 (by omega)
    · rename_i moves
      have parent : (i - 1) / 2 < heap.length := by omega
      simp only [List.getElem?_eq_getElem inside, List.getElem?_eq_getElem parent]
      split
      · intro c positive
        have own := rising c positive
        grind
      · rename_i larger
        have less := (Std.le_total (a := heap[i]) (b := heap[(i - 1) / 2])).resolve_left larger
        refine ih (rising.swap inside (by omega) ?_) ?_ (by omega)
        · simpa [List.getElem?_eq_getElem, inside, parent] using less
        · simpa [(swap_perm heap i ((i - 1) / 2)).length_eq] using parent

theorem pairwise_mergeSort_le (l : List α) : (l.mergeSort (· ≤ ·)).Pairwise (· ≤ ·) := by
  have sorted := @List.pairwise_mergeSort α (· ≤ ·)
    (by simpa using fun a b c => Std.le_trans) (by simpa using fun a b => Std.le_total) l
  simpa using sorted

end

variable [LT α] [DecidableLT α] [Std.LawfulOrderLT α]

theorem larger_most (inside : i < heap.length) :
    heap[i]? ≤ heap[larger heap i j]? ∧ heap[j]? ≤ heap[larger heap i j]? ∧ larger heap i j < heap.length := by
  unfold larger
  rw [List.getElem?_eq_getElem inside]
  grind

theorem siftDown_ordered (sinking : Sinking heap i) (inside : i < heap.length)
    (fuelled : heap.length ≤ fuel + i) : Ordered (siftDown fuel i heap) := by
  induction fuel generalizing i heap with
  | zero => omega
  | succ fuel ih =>
    have first := larger_most (j := 2 * i + 1) inside
    have second := larger_most (j := 2 * i + 2) first.2.2
    have place := larger_cases heap i (2 * i + 1)
    have place' := larger_cases heap (larger heap i (2 * i + 1)) (2 * i + 2)
    rw [siftDown]
    generalize larger heap (larger heap i (2 * i + 1)) (2 * i + 2) = largest at *
    have most : ∀ c, 0 < c → (c - 1) / 2 = i → heap[c]? ≤ heap[largest]? := by
      intro c positive child
      obtain rfl | rfl : c = 2 * i + 1 ∨ c = 2 * i + 2 := by omega
      · exact Std.le_trans first.2.1 second.1
      · exact second.2.1
    split
    · rename_i stays
      intro c positive
      have own := sinking c positive
      grind
    · refine ih (sinking.swap second.2.2 (by omega) (by omega) most ?_) ?_ ?_
      · exact Std.le_trans first.1 second.1
      · simpa [(swap_perm heap i largest).length_eq] using second.2.2
      · rw [(swap_perm heap i largest).length_eq]
        omega

variable [DecidableLE α]

theorem Holds.offer (holds : Holds limit offered heap) (element : α) :
    Holds limit (offered ++ [element]) (offer limit heap element) := by
  obtain ⟨ordered, bounded, dropped, parts, least, full⟩ := holds
  unfold BoundedHeap.offer
  split
  · rename_i room
    obtain rfl : dropped = [] := by
      by_contra rest
      exact absurd (full rest) (by omega)
    have sifted := siftUp_perm heap.length heap.length (heap ++ [element])
    refine ⟨siftUp_ordered ?_ (by simp) (Nat.le_refl _), by simpa [sifted.length_eq] using Nat.succ_le_of_lt room, [], ?_,
      by simp, by simp⟩
    · intro c positive
      have own := ordered c positive
      grind
    · simpa using sifted.trans (List.Perm.append_right [element] (by simpa using parts))
  · cases heap with
    | nil =>
      refine ⟨ordered, bounded, dropped ++ [element], parts.append_right [element], by simp, ?_⟩
      simp_all
    | cons root tail =>
      have full : (root :: tail).length = limit := by omega
      dsimp only [List.head?_cons]
      split
      · rename_i stays
        refine ⟨ordered, bounded, dropped ++ [element], by simpa using parts.append_right [element], ?_, fun _ => full⟩
        intro a kept b past
        rcases List.mem_append.mp past with past | past
        · exact least a kept b past
        · rw [List.mem_singleton.mp past]
          exact Std.le_trans (ordered.le_root kept) stays
      · rename_i less
        have less := (Std.le_total (a := root) (b := element)).resolve_left less
        have sifted := siftDown_perm (root :: tail).length 0 (element :: tail)
        refine ⟨siftDown_ordered ?_ (by simp) (by simp), Nat.le_trans (Nat.le_of_eq sifted.length_eq) bounded, root :: dropped,
          ?_, ?_, fun _ => sifted.length_eq.trans full⟩
        · intro c positive
          have own := ordered c positive
          grind
        · refine (sifted.append_right _).trans ?_
          exact ((List.perm_middle.trans parts).cons element).trans (List.perm_append_singleton _ _).symm
        · intro a kept b past
          have small : a ≤ root := by
            rcases List.mem_cons.mp (sifted.mem_iff.mp kept) with rfl | kept
            · exact less
            · exact ordered.le_root (.tail _ kept)
          rcases List.mem_cons.mp past with rfl | past
          · exact small
          · exact Std.le_trans small (least root (.head _) b past)

/-- After any run of offers. -/
theorem smallest_holds (limit : ℕ) (elements : List α) : Holds limit elements (smallest limit elements) := by
  induction elements using List.reverseRecOn with
  | nil => exact ⟨by simp [Ordered, smallest], Nat.zero_le _, [], by simp [smallest]⟩
  | append_singleton elements element ih =>
    rw [smallest, List.foldl_append]
    exact ih.offer element

/-- They are what sorting puts first. -/
theorem smallest_perm_take (limit : ℕ) {sorted elements : List α} (order : sorted.Pairwise (· ≤ ·))
    (same : sorted.Perm elements) : (smallest limit elements).Perm (sorted.take limit) := by
  obtain ⟨-, bounded, dropped, parts, least, full⟩ := smallest_holds limit elements
  generalize smallest limit elements = heap at *
  have kept := List.mergeSort_perm heap (· ≤ ·)
  have others := List.mergeSort_perm dropped (· ≤ ·)
  have joined : sorted = heap.mergeSort (· ≤ ·) ++ dropped.mergeSort (· ≤ ·) := by
    refine List.Perm.eq_of_pairwise (fun a b _ _ => Std.le_antisymm) order ?_ ?_
    · refine List.pairwise_append.mpr ⟨pairwise_mergeSort_le _, pairwise_mergeSort_le _, fun a mem b past => ?_⟩
      exact least a (kept.mem_iff.mp mem) b (others.mem_iff.mp past)
    · exact same.trans (parts.symm.trans (kept.symm.append others.symm))
  refine kept.symm.trans ?_
  by_cases rest : dropped = []
  · rw [joined, rest, List.take_of_length_le (by simpa using bounded)]
    simp
  · rw [joined, List.take_left' (by simpa using full rest)]

end
end BoundedHeap
