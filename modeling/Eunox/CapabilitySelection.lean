import Eunox.MergeTies

/-! The constraint that governs a request, `FindMatchingCapability`: the first best of
those that match, by specificity and then by being scoped to a principal. -/
namespace Eunox
open ByteString PathPattern FirstBest

section
variable (req : EnforceRequest)

/-- The constraint is one of the request: its namespace, its pattern, an action and its principals. -/
def governs (c : Constraint) : Bool :=
  namesTarget req c && actionPermitted c.actions (resolveRequestTarget req).1 &&
    c.principalMatches req.claims

/-- The pattern of the constraint, without its namespace. -/
def barePattern (c : Constraint) : Bytes := (splitEnginePrefix c.target).2

/-- What the constraints that match are ranked by. -/
def selectionRank (c : Constraint) : ℤ ×ₗ Bool :=
  toLex (resourceSpecificity (barePattern c) (resolveRequestTarget req).2, c.hasPrincipal)

/-- The score leaves room below each specificity, and so keeps their order. -/
theorem scaled_lt (a b : Constraint) :
    toLex (resourceSpecificity (barePattern a) (resolveRequestTarget req).2 * resourceScoreWeight, a.hasPrincipal) <
      toLex (resourceSpecificity (barePattern b) (resolveRequestTarget req).2 * resourceScoreWeight,
        b.hasPrincipal) ↔ selectionRank req a < selectionRank req b := by
  rw [selectionRank, selectionRank, Prod.Lex.toLex_lt_toLex, Prod.Lex.toLex_lt_toLex]
  have positive : (0 : ℤ) < resourceScoreWeight := by decide
  simp only [mul_lt_mul_iff_left₀ positive, mul_left_inj' positive.ne']

theorem findMatchingCapability_eq (capabilities : List Constraint) : findMatchingCapability req capabilities =
      (capabilities.filter (governs req)).argmax (selectionRank req) := by
  let score (c : Constraint) := resourceSpecificity (barePattern c) (resolveRequestTarget req).2 * resourceScoreWeight
  have real (c : Constraint) : noMatchScore < score c := by
    have floor := resourceSpecificity_floor (barePattern c) (resolveRequestTarget req).2
    simp only [score, noMatchScore, resourceScoreWeight, maxWildcardTiebreak,
      resourceSpecificityLiteralWeight] at floor ⊢
    omega
  calc findMatchingCapability req capabilities
    _ = ((capabilities.filter (governs req)).foldl (fun cs c => cs.offer c (score c) c.hasPrincipal)
          ({} : ConstraintScorer Constraint)).best := by
      rw [List.foldl_filter]
      rfl
    _ = (capabilities.filter (governs req)).argmax fun c => toLex (score c, c.hasPrincipal) :=
      foldl_offer_best _ fun c _ => real c
    _ = (capabilities.filter (governs req)).argmax (selectionRank req) := argmax_congr fun a _ b _ => scaled_lt req a b

end

/-- The selection is the documented maximum. -/
theorem find_matching_capability_greatest (req : EnforceRequest) (capabilities : List Constraint) :
    (findMatchingCapability req capabilities = none ↔ ∀ c ∈ capabilities, governs req c = false) ∧
    (∀ c, findMatchingCapability req capabilities = some c →
      ∃ before after, capabilities = before ++ c :: after ∧ governs req c = true ∧
        (∀ d ∈ before, governs req d = true → selectionRank req d < selectionRank req c) ∧
        ∀ d ∈ after, governs req d = true → selectionRank req d ≤ selectionRank req c) ∧
    (∀ others, capabilities.filter (governs req) = others.filter (governs req) →
      findMatchingCapability req capabilities = findMatchingCapability req others) ∧
    (∀ others, (capabilities.filter (governs req)).Perm (others.filter (governs req)) →
      (findMatchingCapability req capabilities).map (selectionRank req) =
        (findMatchingCapability req others).map (selectionRank req)) ∧
    (∀ c ∈ capabilities, governs req c = true → barePattern c = (resolveRequestTarget req).2 →
      ∀ d, findMatchingCapability req capabilities = some d →
        runeCount (barePattern d) < 13000000 → barePattern d = (resolveRequestTarget req).2) := by
  simp only [findMatchingCapability_eq]
  refine ⟨?_, fun c => argmax_filter_split, ?_, fun others => argmax_perm, ?_⟩
  · rw [List.argmax_eq_none, List.filter_eq_nil_iff]
    simp
  · intro others same
    rw [same]
  · intro c member chosen precise d found short
    by_contra other
    have under := List.le_of_mem_argmax (List.mem_filter.mpr ⟨member, chosen⟩) found
    have less := resourceSpecificity_lt short other
    rw [selectionRank, selectionRank, Prod.Lex.toLex_le_toLex, precise, resourceSpecificity, if_pos rfl] at under
    omega

end Eunox
