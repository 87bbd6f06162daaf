import Eunox.EngineDecision

/-! Everything one decision can do to the stores. The pure pass of an allowed
call leaves the stores as they were; a refusal leaves them as they were, writes
one marker again, or stops at the quota commit; only the last step records. -/
namespace Eunox
open ByteString CallCounter

variable {e : Engine} {ctx : Context} {req : EnforceRequest} {matched : Constraint} {w w' : World}

section
variable (e : Engine) (instant : ℤ) (req : EnforceRequest)

/-- The target was recorded under the request's anchor and is still in the
history window. -/
def Armed (targetType target : Bytes) (w : World) : Prop :=
  ∃ count > 0, e.historyCount instant req targetType target w = .ok count

/-- One marker that was there is written again. -/
def Rearmed (w w' : World) : Prop :=
  ∃ targetType target, Armed e instant req targetType target w ∧
    w' = (e.recordMarker instant req targetType target w).2

/-- The history window is one the counter accepts. -/
theorem historyCount_ok (targetType target : Bytes) (w : World) :
    ∃ count, e.historyCount instant req targetType target w = .ok count := by
  simp only [Engine.historyCount, peek]
  cases w.counter.entries.lookup _ with
  | none => exact ⟨0, rfl⟩
  | some entry => exact ⟨_, rfl⟩

end

variable (e ctx req w) in
/-- The lookup answers by the first armed antecedent. -/
theorem sequenceLookup_cases (afterTools priors : List Bytes) :
    (e.sequenceLookup ctx req afterTools priors w = (none, w) ∧
      ∀ prior ∈ priors, ¬ Armed e ctx.instant req (antecedentTarget prior).1
        (antecedentTarget prior).2 w) ∨ ∃ prior ∈ priors,
      Armed e ctx.instant req (antecedentTarget prior).1 (antecedentTarget prior).2 w ∧
      e.sequenceLookup ctx req afterTools priors w =
        (some (sequenceDenial req afterTools (antecedentTarget prior).1 (antecedentTarget prior).2),
          (e.recordMarker ctx.instant req (antecedentTarget prior).1 (antecedentTarget prior).2 w).2) := by
  induction priors with
  | nil => exact .inl ⟨rfl, by simp⟩
  | cons prior rest ih =>
    obtain ⟨count, read⟩ := historyCount_ok e ctx.instant req (antecedentTarget prior).1 (antecedentTarget prior).2 w
    by_cases found : 0 < count
    · refine .inr ⟨prior, by simp, ⟨count, found, read⟩, ?_⟩
      simp [Engine.sequenceLookup, read, found]
    · have skip : e.sequenceLookup ctx req afterTools (prior :: rest) w =
          e.sequenceLookup ctx req afterTools rest w := by
        simp [Engine.sequenceLookup, read, found]
      have unarmed : ¬ Armed e ctx.instant req (antecedentTarget prior).1 (antecedentTarget prior).2 w := by
        rintro ⟨count', found', read'⟩
        obtain rfl : count = count' := Except.ok.inj (read.symm.trans read')
        exact found found'
      rw [skip]
      rcases ih with ⟨clean, others⟩ | ⟨hit, mem, armed, denied⟩
      · exact .inl ⟨clean, List.forall_mem_cons.mpr ⟨unarmed, others⟩⟩
      · exact .inr ⟨hit, by simp [mem], armed, denied⟩

theorem handleSequenceBlock_world (cond : Condition) :
    (e.handleSequenceBlock ctx cond req w).2 = w ∨ (e.handleSequenceBlock ctx cond req w).1 ≠ none ∧
        Rearmed e ctx.instant req w (e.handleSequenceBlock ctx cond req w).2 := by
  unfold Engine.handleSequenceBlock
  split
  · rename_i afterTools
    dsimp only
    split
    · exact .inl rfl
    split
    · exact .inl rfl
    split
    · exact .inl rfl
    · rcases sequenceLookup_cases e ctx req w afterTools afterTools with ⟨clean, -⟩ | ⟨prior, -, armed, denied⟩
      · exact .inl (by rw [clean])
      · exact .inr ⟨by simp [denied], _, _, armed, by rw [denied]⟩
  · exact .inl rfl

/-- The label snapshot a sink needs is at hand, or flow is off. -/
def Threaded (e : Engine) (ctx : Context) (cond : Condition) : Prop :=
  isFlowLabelCondition cond = true → ctx.carriedLabels.isSome ∨ e.skipFlow = true

theorem peekSessionLabels_skipFlow (off : e.skipFlow = true) (instant : ℤ) :
    e.peekSessionLabels instant req w = (.ok [], w) := by
  simp [Engine.peekSessionLabels, off]

theorem handleFlowLabel_world {cond : Condition} (threaded : Threaded e ctx cond) :
    (e.handleFlowLabel ctx cond req w).2 = w := by
  unfold Engine.handleFlowLabel
  split
  · split
    · rfl
    split
    · rfl
    split
    · rfl
    split
    · rfl
    rename_i missing
    rcases threaded rfl with some | off
    · simp [missing] at some
    · rw [peekSessionLabels_skipFlow off]
  · rfl

variable (req w) in
theorem evalCondition_world {cond : Condition} (threaded : Threaded e ctx cond)
    (handler : Handler) : (e.evalCondition ctx req cond handler w).2 = w ∨
      (e.evalCondition ctx req cond handler w).1 ≠ none ∧
        Rearmed e ctx.instant req w (e.evalCondition ctx req cond handler w).2 := by
  cases handler with
  | flowLabel => exact .inl (handleFlowLabel_world threaded)
  | sequenceBlock => exact handleSequenceBlock_world cond
  | _ => exact .inl rfl

/-- What the pure pass found out about a constraint it let through. -/
structure Passed (e : Engine) (ctx : Context) (req : EnforceRequest) (conditions : List Condition)
    (deferred : List DeferredCondition) (w : World) : Prop where
  known : ∀ cond ∈ conditions, cond.isNil = false ∧
    ∃ registered, e.handlers cond.conditionType = some registered ∧
      (registered.handler.commits = false →
        (e.evalCondition ctx req cond registered.handler w).1 = none)
  deferred : deferred = conditions.filterMap fun cond =>
    (e.handlers cond.conditionType).bind fun registered =>
      if registered.handler.commits then
        some ⟨cond, cond.conditionType, registered.handler⟩ else none

variable (req w) in
/-- The pure pass changes the stores only by the marker it denies on. -/
theorem runPureConditions_cases (threaded : ∀ cond ∈ conditions, Threaded e ctx cond) :
    (∃ deferred, e.runPureConditions ctx req conditions w = (.ok deferred, w) ∧
      Passed e ctx req conditions deferred w) ∨
    ∃ condErr w', e.runPureConditions ctx req conditions w = (.error condErr, w') ∧
      (w' = w ∨ Rearmed e ctx.instant req w w') := by
  induction conditions with
  | nil => exact .inl ⟨[], rfl, ⟨by simp, rfl⟩⟩
  | cons cond rest ih =>
    have later := ih fun c mem => threaded c (by simp [mem])
    simp only [Engine.runPureConditions]
    by_cases missing : cond.isNil = true
    · exact .inr ⟨_, w, by rw [if_pos missing], .inl rfl⟩
    rw [if_neg missing]
    have present : cond.isNil = false := by simpa using missing
    cases registered : e.handlers cond.conditionType with
    | none => exact .inr ⟨_, w, rfl, .inl rfl⟩
    | some handler =>
      cases commits : handler.handler.commits with
      | true =>
        simp only [commits, ↓reduceIte]
        rcases later with ⟨deferred, ran, passed⟩ | ⟨condErr, w', ran, world⟩
        · refine .inl ⟨⟨cond, cond.conditionType, handler.handler⟩ :: deferred, by simp [ran],
            ⟨List.forall_mem_cons.mpr ⟨⟨present, handler, registered, by simp [commits]⟩, passed.known⟩, ?_⟩⟩
          simp [registered, commits, ← passed.deferred]
        · exact .inr ⟨condErr, w', by simp [ran], world⟩
      | false =>
        simp only [commits, Bool.false_eq_true]
        have world := evalCondition_world req w (threaded cond (by simp)) handler.handler
        cases verdict : e.evalCondition ctx req cond handler.handler w with
        | mk condErr w1 =>
          rw [verdict] at world
          cases condErr with
          | some condErr => exact .inr ⟨condErr, w1, rfl, world.imp id And.right⟩
          | none =>
            obtain rfl : w1 = w := world.resolve_right fun denied => denied.1 rfl
            rcases later with ⟨deferred, ran, passed⟩ | ⟨condErr, w', ran, world⟩
            · refine .inl ⟨deferred, ran, ⟨List.forall_mem_cons.mpr
                ⟨⟨present, handler, registered, fun _ => by rw [verdict]⟩, passed.known⟩, ?_⟩⟩
              simp [registered, commits, ← passed.deferred]
            · exact .inr ⟨condErr, w', ran, world⟩

/-! The whole decision. -/

/-- Whether the decision reads and writes flow labels. -/
def Engine.flowRelevant (e : Engine) (matched : Constraint) : Bool := !e.skipFlow && constraintHasFlow matched

/-- The labels carried in, and the stores after reading them. -/
def Engine.snapshot (e : Engine) (ctx : Context) (req : EnforceRequest) (matched : Constraint)
    (w : World) : Except Message (List Bytes) × World :=
  if e.flowRelevant matched then e.peekSessionLabels ctx.instant req w else (.ok [], w)

/-- The context the conditions of a decision are evaluated in. -/
def Engine.decisionContext (e : Engine) (ctx : Context) (req : EnforceRequest)
    (matched : Constraint) (carried : List Bytes) : Context :=
  { ctx with
    directives := matched.directives
    effect := some (resolveEffect matched.effect req.arguments)
    carriedLabels := if e.flowRelevant matched then some carried else none }

/-- What a decision that reached the quota commit had found. -/
structure Cleared (e : Engine) (ctx : Context) (req : EnforceRequest) (matched : Constraint)
    (w : World) (carried : List Bytes) (read : World) (pending : List PendingBucket) : Prop where
  anchored : e.anchorUnresolved req = false
  snapshot : e.snapshot ctx req matched w = (.ok carried, read)
  prepared : ∃ deferred faults,
    Passed e (e.decisionContext ctx req matched carried) req matched.conditions deferred read ∧
      e.prepareDeferred (e.decisionContext ctx req matched carried) req deferred [] [] =
        (faults, .ok pending)

variable (e : Engine) (ctx : Context) (req : EnforceRequest) (matched : Constraint) (w : World) in
/-- Everything a decision can do to the stores. -/
inductive Outcome : Decision → World → Prop where
  /-- Refused after reading at most the label set. -/
  | refused {decision : Decision} (denied : decision ≠ .allow)
      (stores : after = w ∨ after = (e.snapshot ctx req matched w).2) : Outcome decision after
  /-- Refused by an antecedent, whose marker is written again. -/
  | rearmed {decision : Decision} (denied : decision ≠ .allow)
      (marker : Rearmed e ctx.instant req (e.snapshot ctx req matched w).2 after) : Outcome decision after
  /-- Refused by the counter. -/
  | unadmitted {decision : Decision} (denied : decision ≠ .allow)
      (cleared : Cleared e ctx req matched w carried seen pending)
      (refused : e.admitPending ctx.instant pending seen = (some condErr, after)) : Outcome decision after
  /-- Refused because the call could not be recorded. -/
  | unrecorded {decision : Decision} (denied : decision ≠ .allow)
      (cleared : Cleared e ctx req matched w carried seen pending)
      (admission : e.admitPending ctx.instant pending seen = (none, admitted))
      (failed : e.recordSourceCall ctx.instant req matched ⟨e.flowRelevant matched, true⟩ carried
        admitted = (.error err, after)) : Outcome decision after
  | allowed (cleared : Cleared e ctx req matched w carried seen pending)
      (admission : e.admitPending ctx.instant pending seen = (none, admitted))
      (recorded : e.recordSourceCall ctx.instant req matched ⟨e.flowRelevant matched, true⟩ carried
        admitted = (.ok labelsOut, after)) : Outcome .allow after

/-- The stamps an answer leaves with. -/
def stamped (ctx : Context) (req : EnforceRequest) (matched : Constraint) (carried : List Bytes)
    (ran : EnforceResponse × World) : EnforceResponse × World :=
  let ctx := { ctx with
    directives := matched.directives, effect := some (resolveEffect matched.effect req.arguments), carriedLabels := none }
  (stampObligations (willForwardDeny ctx (some matched)) (collectObligations ctx matched).1
    (stampCarriedLabels carried ran.1), ran.2)

section
variable (forwards : Bool) (obligations : List Obligation) (carried : List Bytes) (resp : EnforceResponse)

@[simp] theorem stampObligations_decision : (stampObligations forwards obligations resp).decision = resp.decision := by
  unfold stampObligations
  split <;> rfl

@[simp] theorem stampObligations_denial : (stampObligations forwards obligations resp).denial = resp.denial := by
  unfold stampObligations
  split <;> rfl

@[simp] theorem stampCarriedLabels_decision : (stampCarriedLabels carried resp).decision = resp.decision := by
  unfold stampCarriedLabels
  split <;> rfl

@[simp] theorem stampCarriedLabels_denial : (stampCarriedLabels carried resp).denial = resp.denial := by
  unfold stampCarriedLabels
  split <;> rfl

@[simp] theorem stampCarriedLabels_nil : stampCarriedLabels [] resp = resp := by
  unfold stampCarriedLabels
  split
  · rename_i bare
    rw [← List.isEmpty_iff.mp bare.2]
  · rfl

end

theorem collectDirectives_denied (refused : collectDirectives ctx matched directives = (obligations, some resp)) :
    resp.decision ≠ .allow := by
  induction directives generalizing obligations with
  | nil => simp [collectDirectives] at refused
  | cons dir rest ih =>
    simp only [collectDirectives] at refused
    split at refused
    · exact ih refused
    split at refused
    · simp only [Prod.mk.injEq, Option.some.injEq] at refused
      rw [← refused.2]
      simp [denyResponse]
    · simp only [Prod.mk.injEq] at refused
      exact ih (Prod.ext rfl refused.2)

theorem checkEffectCeiling_denied (refused : e.checkEffectCeiling ctx auditOnly eff carried = some resp) :
    resp.decision ≠ .allow := by
  unfold Engine.checkEffectCeiling at refused
  split at refused
  · cases refused
  dsimp only at refused
  split at refused
  · cases refused
  · rw [← Option.some.inj refused]
    split <;> simp [denyResponse, escalateResponse]

variable (e ctx req matched) in
theorem recordAllowed_decision (obligations : List Obligation) (effect : ResolvedEffect)
    (flow : Bool) (carried : List Bytes) (admitted : World) :
    (∃ err w', e.recordSourceCall ctx.instant req matched ⟨flow, true⟩ carried admitted = (.error err, w') ∧
      (e.recordAllowed ctx req matched obligations effect flow carried admitted).1.decision ≠ .allow ∧
      (e.recordAllowed ctx req matched obligations effect flow carried admitted).2 = w') ∨
    ∃ labelsOut w', e.recordSourceCall ctx.instant req matched ⟨flow, true⟩ carried admitted = (.ok labelsOut, w') ∧
      (e.recordAllowed ctx req matched obligations effect flow carried admitted).1.decision = .allow ∧
      (e.recordAllowed ctx req matched obligations effect flow carried admitted).2 = w' := by
  unfold Engine.recordAllowed
  cases ran : e.recordSourceCall ctx.instant req matched ⟨flow, true⟩ carried admitted with
  | mk result w' =>
    cases result with
    | error err =>
      dsimp only
      split <;> simp [labelRecordFailureDenial, recordFailureDenial, denyResponse]
    | ok labelsOut => exact .inr ⟨labelsOut, w', rfl, rfl, rfl⟩

/-- A decision threads the snapshot to every sink of its constraint. -/
theorem decisionContext_threaded (e : Engine) (ctx : Context) (req : EnforceRequest)
    (matched : Constraint) (carried : List Bytes) :
    ∀ cond ∈ matched.conditions, Threaded e (e.decisionContext ctx req matched carried) cond := by
  intro cond mem flow
  cases off : e.skipFlow with
  | true => exact .inr rfl
  | false =>
    have has : constraintHasFlow matched = true := by
      simp only [constraintHasFlow, Bool.or_eq_true, List.any_eq_true]
      exact .inl ⟨cond, mem, flow⟩
    exact .inl (by simp [Engine.decisionContext, Engine.flowRelevant, off, has])

theorem evaluateChecked_outcome {read : World} (anchored : e.anchorUnresolved req = false)
    (snapshot : e.snapshot ctx req matched w = (.ok carried, read)) :
    let ran := e.evaluateChecked (e.decisionContext ctx req matched carried) req matched
      (resolveEffect matched.effect req.arguments) (e.flowRelevant matched) carried read
    Outcome e ctx req matched w ran.1.decision ran.2 := by
  have threaded := decisionContext_threaded e ctx req matched carried
  have read' : read = (e.snapshot ctx req matched w).2 := by rw [snapshot]
  intro ran
  simp only [ran, Engine.evaluateChecked]
  set inner := e.decisionContext ctx req matched carried
  rcases runPureConditions_cases req read threaded with ⟨deferred, pure, passed⟩ | ⟨condErr, w', pure, world⟩
  · simp only [pure]
    rcases obligated : collectObligations inner matched with ⟨obligations, _ | deny⟩
    · cases ceiling : e.checkEffectCeiling inner matched.isAuditOnly (resolveEffect matched.effect req.arguments)
          carried with
      | some deny => exact .refused (checkEffectCeiling_denied ceiling) (.inr read')
      | none =>
        simp only [Engine.commitDeferredConditions]
        rcases preparing : e.prepareDeferred inner req deferred [] [] with ⟨faults, condErr | pending⟩
        · exact .refused (by simp [denyResponse]) (.inr read')
        have cleared : Cleared e ctx req matched w carried read pending :=
          ⟨anchored, snapshot, deferred, faults, passed, preparing⟩
        rcases admission : e.admitPending ctx.instant pending read with ⟨condErr, admitted⟩
        have same : e.admitPending inner.instant pending read = (condErr, admitted) := admission
        simp only [same]
        cases condErr with
        | some condErr => exact .unadmitted (by simp [denyResponse]) cleared admission
        | none =>
          rcases recordAllowed_decision e inner req matched obligations (resolveEffect matched.effect req.arguments)
              (e.flowRelevant matched) carried admitted with
            ⟨err, w', failed, denied, rfl⟩ | ⟨labelsOut, w', recorded, allow, rfl⟩
          · exact .unrecorded denied cleared admission failed
          · rw [show _ = Decision.allow from allow]
            exact .allowed cleared admission recorded
    · exact .refused (collectDirectives_denied obligated) (.inr read')
  · simp only [pure]
    rcases world with rfl | marker
    · exact .refused (by simp [denyResponse]) (.inr read')
    · exact .rearmed (by simp [denyResponse]) (read' ▸ marker)

/-- A decision is refused before its conditions are asked, in every context at that instant, or has a snapshot. -/
theorem evaluateMatched_early (e : Engine) (ctx : Context) (req : EnforceRequest) (matched : Constraint) (w : World) :
    (∃ denial read, (read = w ∨ read = (e.snapshot ctx req matched w).2) ∧
      ∀ ctx' : Context, ctx'.instant = ctx.instant → (e.evaluateMatched ctx' req matched w).1.decision = .deny ∧
        (e.evaluateMatched ctx' req matched w).1.denial = some denial ∧ (e.evaluateMatched ctx' req matched w).2 = read) ∨
    ∃ carried read, e.anchorUnresolved req = false ∧ e.snapshot ctx req matched w = (.ok carried, read) := by
  simp only [Engine.evaluateMatched, stampObligations_decision, stampObligations_denial, Engine.evaluateAnchored]
  cases anchored : e.anchorUnresolved req with
  | true => exact .inl ⟨anchorDenial, w, .inl rfl, fun _ _ => ⟨rfl, rfl, rfl⟩⟩
  | false =>
    rcases snapshot : e.snapshot ctx req matched w with ⟨err | carried, read⟩
    · unfold Engine.snapshot at snapshot
      split at snapshot
      · rename_i relevant
        have flows : (e.skipFlow || !constraintHasFlow matched) = false := by
          simpa [Engine.flowRelevant] using relevant
        refine .inl ⟨conditionFault conditionTypeFlowLabel ([.text "flow-label state lookup failed: "] ++ err),
          read, .inr rfl, fun ctx' same => ?_⟩
        simp [flows, same, snapshot, denyResponse]
      · cases snapshot
    · exact .inr ⟨carried, read, rfl, rfl⟩

/-- Otherwise it is the checked one with its refusal stamped. -/
theorem evaluateMatched_checked {read : World} (anchored : e.anchorUnresolved req = false)
    (snapshot : e.snapshot ctx req matched w = (.ok carried, read)) : e.evaluateMatched ctx req matched w =
      stamped ctx req matched carried
        (e.evaluateChecked (e.decisionContext ctx req matched carried) req matched
          (resolveEffect matched.effect req.arguments) (e.flowRelevant matched) carried read) := by
  have skipped : (e.skipFlow || !constraintHasFlow matched) = !e.flowRelevant matched := by
    simp [Engine.flowRelevant]
  simp only [Engine.evaluateMatched, Engine.evaluateAnchored, anchored, skipped, stamped, Bool.false_eq_true, ↓reduceIte]
  cases relevant : e.flowRelevant matched with
  | false =>
    simp only [Engine.snapshot, relevant] at snapshot
    cases snapshot
    simp [Engine.decisionContext, relevant]
  | true =>
    simp only [Engine.snapshot, relevant, ↓reduceIte] at snapshot
    simp [snapshot, Engine.decisionContext, relevant]

/-- The inversion of a decision. -/
theorem evaluateMatched_outcome (e : Engine) (ctx : Context) (req : EnforceRequest)
    (matched : Constraint) (w : World) :
    Outcome e ctx req matched w (e.evaluateMatched ctx req matched w).1.decision
      (e.evaluateMatched ctx req matched w).2 := by
  rcases evaluateMatched_early e ctx req matched w with
    ⟨denial, read, stores, early⟩ | ⟨carried, read, anchored, snapshot⟩
  · obtain ⟨deny, -, ran⟩ := early ctx rfl
    rw [ran, deny]
    exact .refused (by simp) stores
  · rw [evaluateMatched_checked anchored snapshot]
    simpa [stamped] using evaluateChecked_outcome anchored snapshot

end Eunox
