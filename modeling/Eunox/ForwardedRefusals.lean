import Eunox.CapabilityMatch
import Eunox.DecisionCommits

/-! A refusal an observing route may forward carries the redactions its
constraint declares, whichever check refused; one without a governing constraint
carries those of every capability that names the target. -/
namespace Eunox
open ByteString CallCounter

/-- The transport may forward the call in spite of this answer. -/
def EnforceResponse.Forwardable (resp : EnforceResponse) : Prop :=
  resp.decision ≠ .allow ∧ resp.denial.all DenialInfo.downgradable = true

/-! Obligations depend on the directives and on the target's namespace. -/

theorem collectDirectives_congr (ctx ctx' : Context)
    (namespaces : (splitEnginePrefix c.target).1 = (splitEnginePrefix c'.target).1)
    (directives : List Directive) :
    (collectDirectives ctx c directives).1 = (collectDirectives ctx' c' directives).1 := by
  have skips : ∀ dir, skippedDirective c dir = skippedDirective c' dir := by
    intro dir
    unfold skippedDirective responseDirectiveOnNonTool
    cases dir <;> simp [namespaces]
  induction directives with
  | nil => rfl
  | cons dir rest ih =>
    simp only [collectDirectives, skips]
    split
    · exact ih
    · split
      · rfl
      · exact congrArg (dir.toObligation :: ·) ih

/-- Without a refusal, directives oblige one list after the other. -/
theorem collectDirectives_append (collected : (collectDirectives ctx c (front ++ back)).2 = none) :
    (collectDirectives ctx c (front ++ back)).1 =
        (collectDirectives ctx c front).1 ++ (collectDirectives ctx c back).1 ∧
      (collectDirectives ctx c back).2 = none := by
  induction front with
  | nil => exact ⟨rfl, collected⟩
  | cons dir rest ih =>
    simp only [List.cons_append, collectDirectives] at collected ⊢
    by_cases skip : skippedDirective c dir = true
    · simp only [skip] at collected ⊢
      exact ih collected
    · simp only [skip, Bool.false_eq_true] at collected ⊢
      by_cases unknown : dir.toObligation.type ≠ directiveTypeRedactFields
      · simp [unknown] at collected
      · simp only [unknown] at collected ⊢
        obtain ⟨parts, later⟩ := ih collected
        exact ⟨congrArg _ parts, later⟩

/-- A refusal in place of obligations is the engine's own fault. -/
theorem collectDirectives_fault (refused : (collectDirectives ctx c directives).2 = some resp) :
    ¬ resp.Forwardable := by
  induction directives with
  | nil => simp [collectDirectives] at refused
  | cons dir rest ih =>
    simp only [collectDirectives] at refused
    split at refused
    · exact ih refused
    split at refused
    · obtain rfl := Option.some.inj refused
      simp [EnforceResponse.Forwardable, denyResponse, DenialInfo.downgradable, classifyDenialCode]
    · exact ih refused

/-! The namespace of a target a request resolves to. -/

theorem splitEnginePrefix_type (s : Bytes) : isTargetType (splitEnginePrefix s).1 = true := by
  unfold splitEnginePrefix
  split
  · split
    · assumption
    · exact (by decide : isTargetType (lit "tool") = true)
  · exact (by decide : isTargetType (lit "tool") = true)

/-- The obligations of a capability that names the target are among those the
target's own constraint collects. -/
theorem naming_obligations (collected : (collectObligations ctx (namingTargetConstraint req capabilities)).2 = none)
    (listed : c ∈ capabilities) (names : namesTarget req c = true) :
    ∀ ob ∈ (collectObligations ctx c).1,
      ob ∈ (collectObligations ctx (namingTargetConstraint req capabilities)).1 := by
  have same : (splitEnginePrefix c.target).1 = (resolveRequestTarget req).1 := by
    simp only [namesTarget, Bool.and_eq_true, beq_iff_eq] at names
    exact names.1
  have namespaces : (splitEnginePrefix c.target).1 =
      (splitEnginePrefix (namingTargetConstraint req capabilities).target).1 := by
    rw [show (namingTargetConstraint req capabilities).target =
      (resolveRequestTarget req).1 ++ 58 :: (resolveRequestTarget req).2 from rfl,
      splitEnginePrefix_join (same ▸ splitEnginePrefix_type c.target), same]
  intro ob obliged
  obtain ⟨before, after, split⟩ := List.append_of_mem
    (List.mem_filter.mpr ⟨listed, names⟩ : c ∈ capabilities.filter (namesTarget req))
  have directives : (namingTargetConstraint req capabilities).directives = before.flatMap Constraint.directives ++
        (c.directives ++ after.flatMap Constraint.directives) := by
    show (capabilities.filter (namesTarget req)).flatMap Constraint.directives = _
    rw [split, List.flatMap_append, List.flatMap_cons]
  unfold collectObligations at collected obliged ⊢
  rw [directives] at collected ⊢
  obtain ⟨parts, rest⟩ := collectDirectives_append collected
  obtain ⟨own, -⟩ := collectDirectives_append rest
  rw [collectDirectives_congr ctx ctx namespaces] at obliged
  rw [parts, own]
  exact List.mem_append_right _ (List.mem_append_left _ obliged)

/-! The refusals of an evaluated constraint. -/

/-- Nothing is attached yet to a refusal that may be forwarded. -/
def EnforceResponse.Unobliged (resp : EnforceResponse) : Prop := resp.Forwardable → resp.obligations = []

theorem denyResponse_unobliged (ctx : Context) (auditOnly : Bool) (denial : DenialInfo) :
    (denyResponse ctx auditOnly [] denial).Unobliged := fun _ => rfl

section Evaluated
variable {e : Engine} {ctx : Context} {req : EnforceRequest} {matched : Constraint}

theorem checkEffectCeiling_unobliged (refused : e.checkEffectCeiling ctx auditOnly eff carried = some resp) :
    resp.Unobliged := by
  unfold Engine.checkEffectCeiling at refused
  split at refused
  · cases refused
  dsimp only at refused
  split at refused
  · cases refused
  obtain rfl := Option.some.inj refused
  split
  · exact denyResponse_unobliged _ _ _
  · exact fun _ => rfl

/-- A call that could not be recorded is refused by a fault. -/
theorem recordAllowed_unobliged (obligations : List Obligation) (effect : ResolvedEffect)
    (flow : Bool) (carried : List Bytes) (w : World) :
    (e.recordAllowed ctx req matched obligations effect flow carried w).1.Unobliged := by
  unfold Engine.recordAllowed
  split
  · dsimp only
    split <;>
    · rintro ⟨-, downgradable⟩
      simp [labelRecordFailureDenial, recordFailureDenial, denyResponse, DenialInfo.downgradable,
        classifyDenialCode] at downgradable
  · exact fun forwardable => absurd rfl forwardable.1

theorem evaluateChecked_unobliged (effect : ResolvedEffect) (flow : Bool) (carried : List Bytes)
    (w : World) : (e.evaluateChecked ctx req matched effect flow carried w).1.Unobliged := by
  unfold Engine.evaluateChecked
  split
  · exact denyResponse_unobliged _ _ _
  split
  · rename_i refused
    exact fun forwardable => absurd forwardable (collectDirectives_fault (congrArg Prod.snd refused))
  split
  · rename_i refused
    exact checkEffectCeiling_unobliged refused
  split
  · exact fun _ => rfl
  · exact recordAllowed_unobliged _ _ _ _ _

theorem evaluateAnchored_unobliged (effect : ResolvedEffect) (w : World) :
    (e.evaluateAnchored ctx req matched effect w).1.Unobliged := by
  unfold Engine.evaluateAnchored
  split
  · exact denyResponse_unobliged _ _ _
  split
  · exact evaluateChecked_unobliged _ _ _ _
  split
  · exact denyResponse_unobliged _ _ _
  dsimp only
  unfold stampCarriedLabels
  split
  · exact evaluateChecked_unobliged _ _ _ _
  · exact evaluateChecked_unobliged _ _ _ _

/-- The deferred stamp reaches every refusal of the evaluation. -/
theorem evaluateMatched_obligations (forwards : willForwardDeny ctx (some matched) = true)
    (forwardable : (e.evaluateMatched ctx req matched w).1.Forwardable) :
    (e.evaluateMatched ctx req matched w).1.obligations = (collectObligations ctx matched).1 := by
  unfold Engine.evaluateMatched at forwardable ⊢
  dsimp only at forwardable ⊢
  set threaded : Context := { ctx with
    directives := matched.directives
    effect := some (resolveEffect matched.effect req.arguments), carriedLabels := none }
  have same : (collectObligations threaded matched).1 = (collectObligations ctx matched).1 :=
    collectDirectives_congr threaded ctx rfl matched.directives
  have forwards' : willForwardDeny threaded (some matched) = true := forwards
  have unobliged : (e.evaluateAnchored threaded req matched
      (resolveEffect matched.effect req.arguments) w).1.Unobliged :=
    evaluateAnchored_unobliged _ w
  rw [forwards'] at forwardable ⊢
  unfold stampObligations at forwardable ⊢
  split at forwardable
  · rename_i stamped
    rw [if_pos stamped]
    exact same
  · rename_i unstamped
    -- nothing was attached, so the stamp would have applied
    refine absurd ?_ unstamped
    simp [forwardable.1, forwardable.2, unobliged forwardable]

end Evaluated

/-- A refusal built with its obligations at hand carries them. -/
theorem obligatedDenial_obligations (forwardable : (obligatedDenial ctx true auditOnly obliging denial).Forwardable) :
    (collectObligations ctx obliging).2 = none ∧ (obligatedDenial ctx true auditOnly obliging denial).obligations =
        (collectObligations ctx obliging).1 := by
  unfold obligatedDenial at forwardable ⊢
  rcases collected : collectObligations ctx obliging with ⟨obligations, _ | deny⟩
  · exact ⟨rfl, rfl⟩
  · rw [collected] at forwardable
    exact absurd forwardable (collectDirectives_fault (congrArg Prod.snd collected))

/-- **No forwardable refusal loses its redactions.** Whatever check refuses, a
refusal that the posture forwards carries every obligation of the constraint
that was matched; with no match, of every capability that names the target. -/
theorem forwarded_refusal_obliged (e : Engine) (ctx : Context) (w : World) :
    (∀ req matched, willForwardDeny ctx (some matched) = true →
      (e.evaluateConditions ctx (some req) (some matched) w).1.Forwardable →
      ∀ ob ∈ (collectObligations ctx matched).1,
        ob ∈ (e.evaluateConditions ctx (some req) (some matched) w).1.obligations) ∧
    (∀ req capabilities matched, findMatchingCapability req capabilities = some matched →
      willForwardDeny ctx (some matched) = true →
      (e.validateAction ctx (some req) capabilities w).1.Forwardable →
      ∀ ob ∈ (collectObligations ctx matched).1,
        ob ∈ (e.validateAction ctx (some req) capabilities w).1.obligations) ∧
    (∀ req capabilities, findMatchingCapability req capabilities = none → willForwardDeny ctx none = true →
      (e.validateAction ctx (some req) capabilities w).1.Forwardable →
      ∀ c ∈ capabilities, namesTarget req c = true → ∀ ob ∈ (collectObligations ctx c).1,
        ob ∈ (e.validateAction ctx (some req) capabilities w).1.obligations) ∧
    (∀ matched, ¬ (e.evaluateConditions ctx none matched w).1.Forwardable) ∧
    (∀ req, ¬ (e.evaluateConditions ctx (some req) none w).1.Forwardable) ∧
    ∀ capabilities, ¬ (e.validateAction ctx none capabilities w).1.Forwardable := by
  have nil : ∀ seam, ¬ (nilRequestDenial seam).Forwardable := by
    rintro seam ⟨-, downgradable⟩
    simp [nilRequestDenial, conditionFault, DenialInfo.downgradable, classifyDenialCode] at downgradable
  refine ⟨?_, ?_, ?_, fun matched => ?_, fun req => nil _, fun capabilities => nil _⟩
  · intro req matched forwards forwardable ob obliged
    rwa [show (e.evaluateConditions ctx (some req) (some matched) w).1.obligations = _ from
      evaluateMatched_obligations forwards forwardable]
  · intro req capabilities matched found forwards forwardable ob obliged
    simp only [Engine.validateAction, found] at forwardable ⊢
    cases schema : matched.argumentSchema.elim (.ok ()) fun schema => schema req.arguments with
    | error err =>
      simp only [schema, forwards] at forwardable ⊢
      rwa [(obligatedDenial_obligations forwardable).2]
    | ok passed =>
      simp only [schema] at forwardable ⊢
      rwa [evaluateMatched_obligations forwards forwardable]
  · intro req capabilities unmatched forwards forwardable c listed names ob obliged
    simp only [Engine.validateAction, unmatched, forwards] at forwardable ⊢
    obtain ⟨collected, obligations⟩ := obligatedDenial_obligations forwardable
    rw [obligations]
    exact naming_obligations collected listed names ob obliged
  · cases matched <;> exact nil _

/-- An observed sink whose answers are redacted. -/
def observedSink : Constraint :=
  { bareConstraint [.flowLabel []] [.redactFields [lit "ssn"]] with enforcement := lit "audit" }

/-- A capability that names the tool for another principal only. -/
def othersTool : Constraint :=
  { bareConstraint [] [.redactFields [lit "ssn"]] with
    actions := [lit "call"], principal := [(lit "sub", [lit "someone"])] }

theorem forwarded_refusal_obliged_redaction :
    ⟨directiveTypeRedactFields, [lit "ssn"]⟩ ∈ ((bareRoute none).evaluateConditions bareContext
      (some (bareRequest (lit "s") [lit "pii"])) (some observedSink) freshStores).1.obligations ∧
    ⟨directiveTypeRedactFields, [lit "ssn"]⟩ ∈ ((bareRoute none).validateAction
      { bareContext with skipQuota := true } (some (bareRequest (lit "s") [])) [othersTool]
      freshStores).1.obligations := by
  have sink : ((bareRoute none).evaluateConditions bareContext
      (some (bareRequest (lit "s") [lit "pii"])) (some observedSink) freshStores).1.Forwardable := by
    unfold EnforceResponse.Forwardable
    decide
  have unmatched : ((bareRoute none).validateAction { bareContext with skipQuota := true }
      (some (bareRequest (lit "s") [])) [othersTool] freshStores).1.Forwardable := by
    unfold EnforceResponse.Forwardable
    decide
  have unnamed : findMatchingCapability (bareRequest (lit "s") []) [othersTool] = none := by
    have missing : (findMatchingCapability (bareRequest (lit "s") []) [othersTool]).isNone := by
      decide
    simpa using missing
  constructor
  · have obliged := (forwarded_refusal_obliged (bareRoute none) bareContext freshStores).1
    exact obliged _ observedSink (by decide) sink _ (by decide)
  · have obliged := (forwarded_refusal_obliged (bareRoute none)
      { bareContext with skipQuota := true } freshStores).2.2.1
    exact obliged _ [othersTool] unnamed rfl unmatched othersTool (by simp) (rfl) _ (by decide)

end Eunox
