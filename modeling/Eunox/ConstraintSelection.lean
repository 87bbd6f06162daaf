import Eunox.Manifest
import Eunox.FirstBest

/-! The entry of a manifest that governs a request, `ManifestPDP.findConstraint`:
the first best of those that match, by specificity and then by being scoped to a
principal. -/
namespace Eunox
open ByteString FirstBest

def containsAction (actions : List Bytes) (act : Bytes) : Bool := actions.any fun a => a == act || a == lit "*"

/-- A request as the selection reads it. -/
structure Selector where
  targetType : Bytes
  name : Bytes
  claims : Members

section
variable (s : Selector)

/-- The pattern of an entry in the request's namespace. -/
def Selector.pattern (c : ManifestEntry) : Option Bytes :=
  (parsedTarget c.target).bind fun target => if target.1 = s.targetType then some target.2 else none

/-- The entry names the target, and its principals take in the caller. -/
def Selector.admits (c : ManifestEntry) : Bool :=
  match s.pattern c with
  | none => false
  | some bare => matchesResource bare s.name && c.principalMatches s.claims

def Selector.specificity (c : ManifestEntry) : ℤ :=
  match s.pattern c with
  | none => noMatchScore
  | some bare => resourceSpecificity bare s.name

def Selector.permits (c : ManifestEntry) : Bool :=
  containsAction c.actions (requiredActionFor s.targetType)

def Selector.offer (s : Selector) (scorer : ConstraintScorer (ManifestEntry × ℕ)) (candidate : ManifestEntry × ℕ) :
    ConstraintScorer (ManifestEntry × ℕ) :=
  scorer.offer candidate (s.specificity candidate.1) candidate.1.hasPrincipal

/-- One entry offered to the scorer of those that permit the action, and to that of all
that match. -/
def Selector.consider (scorers : ConstraintScorer (ManifestEntry × ℕ) × ConstraintScorer (ManifestEntry × ℕ))
    (candidate : ManifestEntry × ℕ) : ConstraintScorer (ManifestEntry × ℕ) × ConstraintScorer (ManifestEntry × ℕ) :=
  if !s.admits candidate.1 then scorers
  else
    (if s.permits candidate.1 then s.offer scorers.1 candidate else scorers.1, s.offer scorers.2 candidate)

/-- The position of the entry that governs the request. -/
def findConstraint (caps : List ManifestEntry) (s : Selector) : Option ℕ :=
  let scorers := caps.zipIdx.foldl s.consider ({}, {})
  (scorers.1.best.or scorers.2.best).map Prod.snd

/-! What the scorers keep. -/

/-- What candidates are ranked by. -/
def Selector.key (c : ManifestEntry) : ℤ ×ₗ Bool := toLex (s.specificity c, c.hasPrincipal)

end

section Scorer
variable {α : Type} {score : α → ℤ} {prin : α → Bool}

/-- The scorer holds this candidate, with its own score. -/
def ConstraintScorer.Holds (score : α → ℤ) (prin : α → Bool) (cs : ConstraintScorer α) : Option α → Prop
  | none => cs = {}
  | some a => cs = ⟨some a, score a, prin a⟩

theorem offer_holds {cs : ConstraintScorer α} (holds : cs.Holds score prin held) (real : noMatchScore < score a) :
    (cs.offer a (score a) (prin a)).Holds score prin
      (List.argAux (fun b c => toLex (score c, prin c) < toLex (score b, prin b)) held a) := by
  cases held with
  | none =>
    cases holds
    have above : ({} : ConstraintScorer α).bestScore < score a := real
    simp [ConstraintScorer.offer, List.argAux, ConstraintScorer.Holds, above]
  | some b =>
    cases holds
    have order : ((⟨some b, score b, prin b⟩ : ConstraintScorer α).bestScore < score a ||
        (score a == score b && prin a && !prin b)) = true ↔
        toLex (score b, prin b) < toLex (score a, prin a) := by
      rw [Prod.Lex.toLex_lt_toLex]
      simp only [Bool.or_eq_true, decide_eq_true_eq, Bool.and_eq_true, beq_iff_eq, Bool.not_eq_true', Bool.lt_iff]
      constructor
      · rintro (less | ⟨⟨same, named⟩, general⟩)
        · exact .inl less
        · exact .inr ⟨same.symm, general, named⟩
      · rintro (less | ⟨same, general, named⟩)
        · exact .inl less
        · exact .inr ⟨⟨same.symm, named⟩, general⟩
    unfold ConstraintScorer.offer List.argAux
    by_cases better : toLex (score b, prin b) < toLex (score a, prin a)
    · rw [if_pos (order.mpr better)]
      simp [better, ConstraintScorer.Holds]
    · rw [if_neg (fun on => better (order.mp on))]
      simp [better, ConstraintScorer.Holds]

/-- Offered one after the other, the first best is kept. -/
theorem foldl_offer_holds (l : List α) (real : ∀ a ∈ l, noMatchScore < score a) {cs : ConstraintScorer α}
    (holds : cs.Holds score prin held) :
    (l.foldl (fun cs a => cs.offer a (score a) (prin a)) cs).Holds score prin
      (l.foldl (List.argAux fun b c => toLex (score c, prin c) < toLex (score b, prin b)) held) := by
  induction l generalizing cs held with
  | nil => exact holds
  | cons a rest ih =>
    exact ih (fun b mem => real b (.tail _ mem)) (offer_holds holds (real a (.head _)))

theorem foldl_offer_best (l : List α) (real : ∀ a ∈ l, noMatchScore < score a) :
    (l.foldl (fun cs a => cs.offer a (score a) (prin a)) ({} : ConstraintScorer α)).best =
      l.argmax fun a => toLex (score a, prin a) := by
  have holds : ConstraintScorer.Holds score prin (l.foldl (fun cs a => cs.offer a (score a) (prin a)) {})
      (l.argmax fun a => toLex (score a, prin a)) :=
    foldl_offer_holds l real (show ConstraintScorer.Holds score prin {} none from rfl)
  cases found : l.argmax fun a => toLex (score a, prin a) with
  | none =>
    rw [found] at holds
    rw [show _ = ({} : ConstraintScorer α) from holds]
  | some a =>
    rw [found] at holds
    rw [show _ = (⟨some a, score a, prin a⟩ : ConstraintScorer α) from holds]

end Scorer

/-! What is selected. -/

/-- The first best among those that match and permit the action, or else among those that match. -/
noncomputable def Selector.select {β : Type} (s : Selector) (entry : β → ManifestEntry) (l : List β) :
    Option β :=
  ((l.filter fun b => s.admits (entry b) && s.permits (entry b)).argmax (s.key ∘ entry)).or
    ((l.filter fun b => s.admits (entry b)).argmax (s.key ∘ entry))

theorem countRunes_counts (bound : ℕ) (resource : Bytes) (counts : ℤ × ℤ) :
    counts.1 ≤ (countRunes bound resource counts).1 ∧ counts.2 ≤ (countRunes bound resource counts).2 := by
  induction bound generalizing resource counts with
  | zero => exact ⟨le_rfl, le_rfl⟩
  | succ bound ih =>
    obtain ⟨literals, wildcards⟩ := counts
    have wild (rest : Bytes) := ih rest (literals, wildcards + 1)
    have plain (rest : Bytes) := ih rest (literals + 1, wildcards)
    unfold countRunes
    split
    · exact ⟨le_rfl, le_rfl⟩
    dsimp only
    split
    · exact ⟨(wild _).1, le_trans (by simp) (wild _).2⟩
    split
    · split
      · exact ⟨le_rfl, le_rfl⟩
      · exact ⟨le_trans (by simp) (plain _).1, (plain _).2⟩
    · split
      · exact ⟨(wild _).1, le_trans (by simp) (wild _).2⟩
      · exact ⟨le_trans (by simp) (plain _).1, (plain _).2⟩

theorem resourceSpecificity_floor (resource toolName : Bytes) :
    -maxWildcardTiebreak ≤ resourceSpecificity resource toolName := by
  obtain ⟨literals, -⟩ := countRunes_counts resource.length resource (0, 0)
  simp only [resourceSpecificity, exactMatchSpecificity, resourceSpecificityLiteralWeight, maxWildcardTiebreak]
  split
  · norm_num
  · omega

/-- Every score is above the one of no match. -/
theorem noMatchScore_lt (resource toolName : Bytes) : noMatchScore < resourceSpecificity resource toolName :=
  lt_of_lt_of_le (by decide) (resourceSpecificity_floor resource toolName)

theorem Selector.specificity_real {s : Selector} (admitted : s.admits c = true) : noMatchScore < s.specificity c := by
  unfold Selector.admits at admitted
  unfold Selector.specificity
  split at admitted
  · cases admitted
  · next bare found => exact noMatchScore_lt bare s.name

section Select
variable (s : Selector)

/-- The one pass is two: one over the entries that permit the action. -/
theorem foldl_consider (l : List (ManifestEntry × ℕ))
    (scorers : ConstraintScorer (ManifestEntry × ℕ) × ConstraintScorer (ManifestEntry × ℕ)) :
    l.foldl s.consider scorers = ((l.filter fun c => s.admits c.1 && s.permits c.1).foldl s.offer scorers.1,
        (l.filter fun c => s.admits c.1).foldl s.offer scorers.2) := by
  induction l generalizing scorers with
  | nil => rfl
  | cons c rest ih =>
    rw [List.foldl_cons, ih]
    unfold Selector.consider
    by_cases admitted : s.admits c.1 = true
    · by_cases permitted : s.permits c.1 = true <;> simp [admitted, permitted]
    · simp [admitted]

theorem foldl_offer_argmax (l : List (ManifestEntry × ℕ)) (admitted : ∀ c ∈ l, s.admits c.1 = true) :
    (l.foldl s.offer {}).best = l.argmax (s.key ∘ Prod.fst) :=
  foldl_offer_best l fun c mem => Selector.specificity_real (admitted c mem)

theorem findConstraint_eq (caps : List ManifestEntry) :
    findConstraint caps s = (s.select Prod.fst caps.zipIdx).map Prod.snd := by
  unfold findConstraint Selector.select
  dsimp only
  rw [foldl_consider, foldl_offer_argmax, foldl_offer_argmax]
  · intro c mem
    exact (List.mem_filter.mp mem).2
  · intro c mem
    exact (Bool.and_eq_true_iff.mp (List.mem_filter.mp mem).2).1

variable {β γ : Type}

theorem select_map (entry : β → ManifestEntry) (g : γ → β) (l : List γ) :
    s.select entry (l.map g) = (s.select (entry ∘ g) l).map g := by
  unfold Selector.select
  rw [List.filter_map, List.filter_map, argmax_map, argmax_map, Option.map_or]
  rfl

theorem select_mem (selected : s.select entry l = some b) : b ∈ l := by
  rcases Option.or_eq_some_iff.mp selected with found | ⟨-, found⟩
  · exact List.mem_of_mem_filter (List.argmax_mem found)
  · exact List.mem_of_mem_filter (List.argmax_mem found)

/-- What is selected matches, and no candidate that permits the action ranks above it. -/
theorem select_best (selected : s.select entry l = some b) :
    s.admits (entry b) = true ∧ ∀ a ∈ l, s.admits (entry a) = true → s.permits (entry a) = true →
      s.key (entry a) ≤ s.key (entry b) := by
  rcases Option.or_eq_some_iff.mp selected with found | ⟨nothing, found⟩
  · refine ⟨(Bool.and_eq_true_iff.mp (List.mem_filter.mp (List.argmax_mem found)).2).1, ?_⟩
    intro a mem admitted permitted
    exact List.le_of_mem_argmax (f := s.key ∘ entry)
      (List.mem_filter.mpr ⟨mem, Bool.and_eq_true_iff.mpr ⟨admitted, permitted⟩⟩) found
  · refine ⟨(List.mem_filter.mp (List.argmax_mem found)).2, ?_⟩
    intro a mem admitted permitted
    have inside : a ∈ l.filter fun b => s.admits (entry b) && s.permits (entry b) :=
      List.mem_filter.mpr ⟨mem, Bool.and_eq_true_iff.mpr ⟨admitted, permitted⟩⟩
    rw [List.argmax_eq_none.mp nothing] at inside
    exact absurd inside List.not_mem_nil

/-- The position found stands for the first best of whatever the entries are read off. -/
theorem findConstraint_origin (entry : β → ManifestEntry) (l : List β) :
    ((findConstraint (l.map entry) s).bind fun i => l[i]?) = s.select entry l := by
  have positions : (l.map entry).zipIdx = l.zipIdx.map (Prod.map entry id) := List.zipIdx_map
  have whole : s.select entry l = (s.select (entry ∘ Prod.fst) l.zipIdx).map Prod.fst := by
    rw [← select_map, List.zipIdx_map_fst]
  rw [findConstraint_eq, positions, select_map, whole, Option.map_map]
  change ((s.select (entry ∘ Prod.fst) l.zipIdx).map Prod.snd).bind _ = _
  cases found : s.select (entry ∘ Prod.fst) l.zipIdx with
  | none => rfl
  | some candidate => exact List.mem_zipIdx_iff_getElem?.mp (select_mem s found)

end Select

end Eunox
