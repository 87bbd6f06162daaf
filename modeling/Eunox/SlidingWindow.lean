import Mathlib.Algebra.Order.BigOperators.Group.List
import Mathlib.Algebra.BigOperators.Group.List.Basic
import Mathlib.Data.List.Basic
import Mathlib.Tactic

/-! Sliding-window quotas over a store that forgets. A ledger is everything a
limiter ever admitted, as `(instant, amount)` records; a store is what it still
remembers. `Covers` says that the ledger never holds more than the limit in any
window and that the store accounts for at least as much of it as any window
from now on can still see. Each rule below is one thing a limiter may do to its
store or ledger without losing that. -/
namespace SlidingWindow

/-- The amount recorded strictly after a cutoff. -/
def after (cutoff : ℤ) (records : List (ℤ × ℕ)) : ℕ := ((records.filter fun r => cutoff < r.1).map Prod.snd).sum

/-- The amount recorded in the half-open window of this width that ends at `t`. -/
def within (width t : ℤ) (records : List (ℤ × ℕ)) : ℕ :=
  ((records.filter fun r => t - width < r.1 ∧ r.1 ≤ t).map Prod.snd).sum

@[simp] theorem after_nil (cutoff : ℤ) : after cutoff [] = 0 := rfl

@[simp] theorem within_nil (width t : ℤ) : within width t [] = 0 := rfl

@[simp] theorem after_append (cutoff : ℤ) (left right : List (ℤ × ℕ)) :
    after cutoff (left ++ right) = after cutoff left + after cutoff right := by
  simp [after]

@[simp] theorem within_append (width t : ℤ) (left right : List (ℤ × ℕ)) :
    within width t (left ++ right) = within width t left + within width t right := by
  simp [within]

theorem after_singleton_le (cutoff instant : ℤ) (amount : ℕ) : after cutoff [(instant, amount)] ≤ amount := by
  simp only [after, List.filter_cons]
  split <;> simp

theorem after_cons (cutoff : ℤ) (r : ℤ × ℕ) (records : List (ℤ × ℕ)) :
    after cutoff (r :: records) = (if cutoff < r.1 then r.2 else 0) + after cutoff records := by
  unfold after
  by_cases live : cutoff < r.1 <;> simp [live]

/-- A later cutoff sees less. -/
theorem after_anti (order : early ≤ late) (records : List (ℤ × ℕ)) : after late records ≤ after early records := by
  induction records with
  | nil => simp
  | cons r rest ih =>
    rw [after_cons, after_cons]
    split <;> split <;> omega

/-- Pruning at or below the cutoff hides nothing from it. -/
theorem after_prune (order : pruned ≤ cutoff) (records : List (ℤ × ℕ)) :
    after cutoff (records.filter fun r => pruned < r.1) = after cutoff records := by
  unfold after
  rw [List.filter_filter]
  congr 2
  apply List.filter_congr
  simp only [Bool.and_eq_left_iff_imp, decide_eq_true_eq]
  omega

/-- When nothing is newer than the window's end, the window is the tail after
its start. -/
theorem within_eq_after (past : ∀ r ∈ records, r.1 ≤ t) : within width t records = after (t - width) records := by
  unfold within after
  congr 2
  apply List.filter_congr
  intro r mem
  simp [past r mem]

theorem after_eq_zero (expired : ∀ r ∈ records, r.1 ≤ cutoff) : after cutoff records = 0 := by
  unfold after
  rw [List.filter_eq_nil_iff.mpr]
  · rfl
  · intro r mem
    have := expired r mem
    simp only [decide_eq_true_eq]
    omega

theorem length_le_after (live : ∀ r ∈ records, cutoff < r.1) (positive : ∀ r ∈ records, 1 ≤ r.2) :
    records.length ≤ after cutoff records := by
  induction records with
  | nil => simp
  | cons r rest ih =>
    have head := positive r (by simp)
    have tail := ih (fun s mem => live s (by simp [mem])) (fun s mem => positive s (by simp [mem]))
    rw [after_cons, if_pos (live r (by simp)), List.length_cons]
    omega

/-- Dropping the oldest of ordered records either hides nothing from a cutoff,
or everything kept is still after it. -/
theorem after_drop (ordered : records.Pairwise (fun a b => a.1 ≤ b.1)) (count : ℕ) (cutoff : ℤ) :
    after cutoff (records.drop count) = after cutoff records ∨ ∀ r ∈ records.drop count, cutoff < r.1 := by
  by_cases lost : ∃ r ∈ records.take count, cutoff < r.1
  · right
    obtain ⟨old, oldMember, live⟩ := lost
    intro r mem
    have split := ordered
    rw [← List.take_append_drop count records, List.pairwise_append] at split
    exact lt_of_lt_of_le live (split.2.2 old oldMember r mem)
  · left
    push Not at lost
    conv_rhs => rw [← List.take_append_drop count records, after_append, after_eq_zero lost]
    omega

/-- The ledger respects the limit in every window, and the store still accounts
for whatever part of it a present or future window can see. -/
structure Covers (width : ℤ) (limit : ℕ) (now : ℤ) (ledger store : List (ℤ × ℕ)) : Prop where
  bounded : ∀ t, within width t ledger ≤ limit
  ledgerPast : ∀ r ∈ ledger, r.1 ≤ now
  storePast : ∀ r ∈ store, r.1 ≤ now
  ordered : store.Pairwise (fun a b => a.1 ≤ b.1)
  retained : ∀ cutoff, now - width ≤ cutoff → after cutoff ledger ≤ after cutoff store

namespace Covers
variable {width now later : ℤ} {limit : ℕ} {ledger store : List (ℤ × ℕ)}

theorem start : Covers width limit now [] [] where
  bounded := by simp
  ledgerPast := by simp
  storePast := by simp
  ordered := .nil
  retained := by simp

section
variable (covers : Covers width limit now ledger store)
include covers

/-- Time passes. -/
theorem advance (order : now ≤ later) : Covers width limit later ledger store where
  bounded := covers.bounded
  ledgerPast r member := le_trans (covers.ledgerPast r member) order
  storePast r member := le_trans (covers.storePast r member) order
  ordered := covers.ordered
  retained cutoff live := covers.retained cutoff (by omega)

/-- The store forgets what no window can see any more. -/
theorem prune (expired : cutoff ≤ now - width) :
    Covers width limit now ledger (store.filter fun r => cutoff < r.1) where
  bounded := covers.bounded
  ledgerPast := covers.ledgerPast
  storePast r member := covers.storePast r (List.mem_of_mem_filter member)
  ordered := covers.ordered.filter _
  retained late live := by
    rw [after_prune (by omega)]
    exact covers.retained late live

/-- The store forgets everything once all of it has expired. -/
theorem clear (expired : ∀ r ∈ store, r.1 ≤ now - width) : Covers width limit now ledger [] := by
  have cleared := covers.prune le_rfl
  rwa [List.filter_eq_nil_iff.mpr] at cleared
  intro r mem
  have := expired r mem
  simp only [decide_eq_true_eq]
  omega

/-- The store records a call that the ledger does not count. -/
theorem record (amount : ℕ) : Covers width limit now ledger (store ++ [(now, amount)]) where
  bounded := covers.bounded
  ledgerPast := covers.ledgerPast
  storePast := List.forall_mem_append.mpr ⟨covers.storePast, List.forall_mem_singleton.mpr le_rfl⟩
  ordered := by
    refine List.pairwise_append.mpr ⟨covers.ordered, List.pairwise_singleton _ _, ?_⟩
    intro r mem fresh isFresh
    rw [List.mem_singleton.mp isFresh]
    exact covers.storePast r mem
  retained cutoff live := by
    rw [after_append]
    exact le_trans (covers.retained cutoff live) (Nat.le_add_right _ _)

/-- The store keeps only its newest records, at least as many as the limit. -/
theorem keepNewest (enough : limit ≤ count) (positive : ∀ r ∈ store, 1 ≤ r.2) :
    Covers width limit now ledger (store.drop (store.length - count)) where
  bounded := covers.bounded
  ledgerPast := covers.ledgerPast
  storePast r member := covers.storePast r (List.mem_of_mem_drop member)
  ordered := covers.ordered.drop
  retained cutoff live := by
    by_cases few : store.length ≤ count
    · rw [Nat.sub_eq_zero_of_le few]
      exact covers.retained cutoff live
    · rcases after_drop covers.ordered (store.length - count) cutoff with same | fresh
      · rw [same]
        exact covers.retained cutoff live
      · -- everything kept is live, and there are at least `limit` of them
        have window := covers.bounded (cutoff + width)
        rw [within_eq_after (fun r member => by have := covers.ledgerPast r member; omega)] at window
        have full := length_le_after fresh (fun r member => positive r (List.mem_of_mem_drop member))
        rw [List.length_drop] at full
        have shift : cutoff + width - width = cutoff := by ring
        rw [shift] at window
        omega

/-- A call is admitted with headroom and recorded. -/
theorem admission (headroom : after (now - width) store + amount ≤ limit) :
    Covers width limit now (ledger ++ [(now, amount)]) (store ++ [(now, amount)]) where
  bounded t := by
    rw [within_append]
    rcases le_or_gt now t with present | past
    · have old : within width t ledger = after (t - width) ledger :=
        within_eq_after fun r mem => le_trans (covers.ledgerPast r mem) present
      have kept := covers.retained (t - width) (by omega)
      have narrower : after (t - width) store ≤ after (now - width) store := after_anti (by omega) store
      have fresh : within width t [(now, amount)] ≤ amount := by
        simp only [within, List.filter_cons]
        split <;> simp
      omega
    · have unseen : within width t [(now, amount)] = 0 := by
        simp [within, not_le.mpr past]
      have := covers.bounded t
      omega
  ledgerPast := List.forall_mem_append.mpr ⟨covers.ledgerPast, List.forall_mem_singleton.mpr le_rfl⟩
  storePast := (covers.record amount).storePast
  ordered := (covers.record amount).ordered
  retained cutoff live := by
    rw [after_append, after_append]
    exact Nat.add_le_add_right (covers.retained cutoff live) _

/-- A call of no weight is admitted and not recorded. -/
theorem admitZero : Covers width limit now (ledger ++ [(now, 0)]) store where
  bounded t := by
    have silent : within width t [(now, 0)] = 0 := by
      simp only [within, List.filter_cons]
      split <;> simp
    rw [within_append, silent]
    exact covers.bounded t
  ledgerPast := List.forall_mem_append.mpr ⟨covers.ledgerPast, List.forall_mem_singleton.mpr le_rfl⟩
  storePast := covers.storePast
  ordered := covers.ordered
  retained cutoff live := by
    have silent : after cutoff [(now, 0)] = 0 := Nat.le_zero.mp (after_singleton_le ..)
    rw [after_append, silent]
    exact covers.retained cutoff live

end

end Covers

end SlidingWindow
