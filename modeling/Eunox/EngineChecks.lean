import Eunox.Engine

/-! The checks of a decision that write no state: the responses it can build, the
obligations of a constraint, the effect ceiling, and what the two quota
conditions prepare. -/
namespace Eunox
open ByteString JsonValue CallCounter

/-! Responses. -/

variable (e : Engine) (ctx : Context) (req : EnforceRequest)

variable (auditOnly : Bool) (obligations : List Obligation) (eff : ResolvedEffect) (spec : CounterKeySpec)

def denyResponse (denial : DenialInfo) : EnforceResponse where
  requestID := ctx.requestID
  decision := .deny
  auditOnly := auditOnly
  obligations := obligations
  denial := some denial
  decidedAt := ctx.timestamp
  labelsOut := []
  carriedLabels := []
  effect := none
  handlerFaults := []

/-- An escalation blocks on every posture. -/
def escalateResponse (denial : DenialInfo) : EnforceResponse where
  requestID := ctx.requestID
  decision := .escalate
  auditOnly := false
  obligations := []
  denial := some { denial with blockOverride := true }
  decidedAt := ctx.timestamp
  labelsOut := []
  carriedLabels := []
  effect := none
  handlerFaults := []

/-- Whether a deny for this constraint is forwarded rather than blocked. -/
def willForwardDeny : Option Constraint → Bool
  | some matched => matched.isAuditOnly || ctx.skipQuota
  | none => ctx.skipQuota

def recordFailureDenial : EnforceResponse :=
  denyResponse ctx auditOnly obligations
    { code := .enforcementError, conditionType := conditionTypeSequenceBlock
      message := [.text "session history recording failed; sequenceBlock state is unreliable"]
      blockOverride := false, details := [("phase", .text [.text "record"])] }

def labelRecordFailureDenial : EnforceResponse :=
  denyResponse ctx auditOnly obligations
    { code := .enforcementError, conditionType := conditionTypeFlowLabel
      message := [.text "flow-label recording failed; source->sink flow state is unreliable"]
      blockOverride := false
      details := [("flow", .flag true), ("phase", .text [.text "record"])] }

/-! Obligations. -/

def responseDirectiveOnNonTool (constraintTarget : Bytes) : Directive → Bool
  | .redactFields _ => (splitEnginePrefix constraintTarget).1 ≠ lit "tool"
  | _ => false

/-- Directives that yield no obligation: nil ones, `labelOutput`, and a response
directive on a target whose responses are not redacted. -/
def skippedDirective (matched : Constraint) (dir : Directive) : Bool :=
  dir.isNil || dir.directiveType == directiveTypeLabelOutput ||
    responseDirectiveOnNonTool matched.target dir

/-- The name Go prints for a directive's type. -/
def Directive.goType : Directive → Bytes
  | .null | .typedNil _ => []
  | .labelOutput _ => lit "*capability.LabelOutputDirective"
  | .redactFields _ => lit "*capability.RedactFieldsDirective"
  | .other goType _ _ => goType

/-- The obligations of a list of directives, those before the offending one when
a directive's type has no consumer. -/
def collectDirectives (ctx : Context) (matched : Constraint) :
    List Directive → List Obligation × Option EnforceResponse
  | [] => ([], none)
  | dir :: rest =>
    if skippedDirective matched dir then collectDirectives ctx matched rest
    else
      let ob := dir.toObligation
      if ob.type ≠ directiveTypeRedactFields then
        ([], some (denyResponse ctx false [] {
          code := .enforcementError, conditionType := []
          message := [.text "unhandled obligation type ", .quoted ob.type, .text " from directive ",
            .bytes dir.goType, .text
            "; register it in knownObligationTypes and implement its consumer"]
          blockOverride := false, details := [] }))
      else
        let (obligations, refused) := collectDirectives ctx matched rest
        (ob :: obligations, refused)

def collectObligations (matched : Constraint) :
    List Obligation × Option EnforceResponse :=
  collectDirectives ctx matched matched.directives

/-! The effect ceiling. -/

def effectClassRank (effectClass : Bytes) : Option ℕ :=
  [lit "reversible", lit "compensable", lit "irreversible"].idxOf? effectClass

def effectClassAtMost (effectClass limit : Bytes) : Bool :=
  match effectClassRank effectClass, effectClassRank limit with
  | some c, some l => c ≤ l
  | _, _ => false

def EffectCeiling.isSet (c : EffectCeiling) : Bool := !c.maxEffectClass.isEmpty || c.maxBlastRadius.isSome

/-- Why a resolved effect is over the ceiling; nothing when it is not. -/
def EffectCeiling.exceeds (c : EffectCeiling) (eff : ResolvedEffect) : List String :=
  if !c.isSet then []
  else if c.requireCompensation &&
      (c.maxEffectClass.isEmpty || c.maxEffectClass == lit "irreversible") then
    ["ceiling_misconfigured"]
  else
    let overClass := !c.maxEffectClass.isEmpty && !effectClassAtMost eff.effectClass c.maxEffectClass
    let radius := match c.maxBlastRadius with
      | none => []
      | some bound =>
        match eff.blastRadius, bound.value with
        | none, _ => ["blast_radius_unknown"]
        | some _, none => ["blast_radius_bound_unreadable"]
        | some size, some limit => if limit < size then ["blast_radius"] else []
    (if overClass then ["effect_class"] else []) ++ radius ++
      (if c.requireCompensation && overClass && eff.compensatingAction.isEmpty then
        ["no_compensating_action"] else [])

def unannotatedHint : Message :=
  if eff.annotated then []
  else [.text (" — this target declares no effect contract, so it resolves to the fail-closed " ++
    "default (irreversible, unquantified); annotate it to buy it out of maximum friction")]

/-- A piece of a text or of a record that is left out when its value is empty. -/
def unlessEmpty {α : Type} (value : Bytes) (piece : List α) : List α :=
  if value.isEmpty then [] else piece

/-- `ResolvedEffect.String`. -/
def ResolvedEffect.message : Message :=
  let radius : Message := match eff.blastRadius with
    | some size => .text " blastRadius=" :: .magnitude size ::
        unlessEmpty eff.unit [.text " ", .bytes eff.unit]
    | none => [.text " blastRadius=unquantified"]
  List.flatten [[.text "class=", .bytes eff.effectClass], radius,
    unlessEmpty eff.compensatingAction
      [.text " compensatingAction=", .bytes eff.compensatingAction],
    if eff.annotated then [] else [.text " unannotated"]]

def ResolvedEffect.auditDetails : Details :=
  let radius : Details := match eff.blastRadius with
    | some size => ("blast_radius", .text [.magnitude size]) ::
        unlessEmpty eff.unit [("blast_radius_unit", .text [.bytes eff.unit])]
    | none => []
  List.flatten [[("effect", .flag true), ("effect_class", .text [.bytes eff.effectClass]),
      ("annotated", .flag eff.annotated)], radius,
    unlessEmpty eff.compensatingAction
      [("compensating_action", .text [.bytes eff.compensatingAction])],
    unlessEmpty eff.ref [("effect_contract", .text [.bytes eff.ref])]]

/-- The tool-agnostic bound on an action the conditions allowed. -/
def Engine.checkEffectCeiling (carriedLabels : List Bytes) : Option EnforceResponse :=
  match e.effectCeiling with
  | none => none
  | some ceiling =>
    let reasons := ceiling.exceeds eff
    if reasons.isEmpty then none
    else
      let denial : DenialInfo := {
        code := if ceiling.onExceed = lit "deny" then .conditionFailed else .escalationRequired
        conditionType := lit "effectCeiling"
        message := List.flatten [[.text "this action exceeds the policy's effect ceiling (",
          .text (String.intercalate ", " reasons), .text "): "], eff.message, unannotatedHint eff]
        blockOverride := true
        details := List.flatten [eff.auditDetails,
          [("ceiling_exceeded", .strings (reasons.map lit))],
          if carriedLabels.isEmpty then [] else [("carried_labels", .strings carriedLabels)],
          unlessEmpty ceiling.maxEffectClass
            [("ceiling_max_effect_class", .text [.bytes ceiling.maxEffectClass])],
          ceiling.maxBlastRadius.toList.map fun bound => ("ceiling_max_blast_radius", .text [.bytes bound.literal])] }
      some (if ceiling.onExceed = lit "deny" then denyResponse ctx auditOnly [] denial
        else escalateResponse ctx denial)

/-! Counter-backed keys. -/

/-- What a counter-backed key derivation may vary. -/
structure CounterKeySpec where
  conditionType : Bytes
  tag : Bytes
  subject : String
  counterDetail : String

def maxCallsBucketSpec : CounterKeySpec := ⟨conditionTypeMaxCalls, lit "maxcalls", "maxCalls condition", ""⟩

def blastRadiusBucketSpec : CounterKeySpec :=
  ⟨conditionTypeBlastRadius, lit "blastradius", "a cumulative blastRadius bound",
    ", so a cumulative blast-radius bound cannot be enforced"⟩

def sequenceHistorySpec : CounterKeySpec := ⟨conditionTypeSequenceBlock, lit "seq", "sequenceBlock condition", ""⟩

/-- The refusal of a bound that had no subject to be evaluated against. -/
def missingSubject (what : String) : ConditionError where
  code := .missingContext
  conditionType := spec.conditionType
  message := [.text (what ++ " is required for " ++ spec.subject)]
  blockOverride := true
  details := []

/-- A wired counter, and an anchor to key on. -/
def Engine.counterSubjectGuards : Option ConditionError :=
  if !e.counterWired then
    some (conditionFault spec.conditionType
      [.text ("call counter not configured" ++ spec.counterDetail)])
  else if (e.resolveAnchor req).id.isEmpty then some (missingSubject spec "sessionId")
  else none

/-- The key of a quota bucket; no key when quotas are skipped. -/
def Engine.quotaBucketKey : Except ConditionError (Option Bytes) :=
  match e.counterSubjectGuards req spec with
  | some condErr => .error condErr
  | none =>
    let (targetType, toolName) := sessionTargetKey req
    if toolName.isEmpty then .error (missingSubject spec "tool or resource name")
    else if ctx.skipQuota then .ok none
    else .ok (some (e.anchoredKey spec.tag req [targetType, toolName]))

/-- The bucket a quota condition draws on, under the shared key derivation. -/
def Engine.prepareBucket (commit : Bytes → DeferredCommit) : Preparation :=
  match e.quotaBucketKey ctx req spec with
  | .error condErr => .refuse condErr
  | .ok none => ⟨.none, true, none⟩
  | .ok (some key) => ⟨commit key, false, none⟩

/-- A condition the registry could not cast to the handler's own type. -/
def castFault (conditionType : Bytes) : ConditionError :=
  conditionFault conditionType [.text "invalid ", .bytes conditionType, .text " condition type"]

/-- Whole seconds, rounded up; the full window when there is no estimate. -/
def retryAfterSeconds (d windowSec : ℤ) : ℤ :=
  if d ≤ 0 then windowSec else if d % second ≠ 0 then d / second + 1 else d / second

def maxCallsRateLimited (count windowSeconds current retryAfterSec : ℤ) : ConditionError where
  code := .rateLimited
  conditionType := conditionTypeMaxCalls
  message := [.text "call limit exceeded"]
  blockOverride := false
  details := [("limit", .int count), ("current", .int current),
    ("window_seconds", .int windowSeconds), ("retry_after_seconds", .int retryAfterSec)]

/-- `maxCallsHandler.PrepareCommit`. -/
def Engine.maxCallsPrepareCommit (cond : Condition)
    (req : EnforceRequest) : Preparation :=
  match cond with
  | .maxCalls count windowSeconds =>
    e.prepareBucket ctx req maxCallsBucketSpec fun key =>
      { bucket := ⟨key, windowSeconds, true, .ofNat 0, .ofRat count⟩
        deny := some fun total retryAfter => some (maxCallsRateLimited count windowSeconds
          total.toInt (retryAfterSeconds retryAfter windowSeconds)) }
  | _ => .refuse (castFault conditionTypeMaxCalls)

def effectDenial (conditionType : Bytes) (message : Message) (extra : Details) : ConditionError where
  code := .conditionFailed
  conditionType := conditionType
  message := message
  blockOverride := false
  details := eff.auditDetails ++ extra

/-- Whether a magnitude can join a weighted total. -/
def weightSummable (weight : Binary64) : Bool :=
  if weight.isNaN || weight.isInf then false
  else (Binary64.ofNat 0).le weight && weight.le maxWeightedTotal

/-- The bounds a condition declares: per call, and cumulative. -/
def parseBlastRadiusBounds (max maxTotal : Option Number) (windowSeconds : ℤ) :
    Except ConditionError (Option ℚ × Option (ℚ × Number)) :=
  let fault (message : Message) : ConditionError := conditionFault conditionTypeBlastRadius message
  let hasVelocity := maxTotal.isSome && 0 < windowSeconds
  let cumulative (perCall : Option ℚ) : Except ConditionError (Option ℚ × Option (ℚ × Number)) :=
    if maxTotal.isSome ≠ decide (0 < windowSeconds) then
      .error (fault [.text ("blastRadius declares half of a cumulative bound ('maxTotal' without " ++
        "a positive 'windowSeconds', or the reverse); each half silently disables the other, " ++
        "so neither is enforced")])
    else match maxTotal with
      | none => .ok (perCall, none)
      | some bound =>
        match bound.value with
        | none => .error (fault [.text "blastRadius 'maxTotal' is not a number (",
            .quoted bound.literal, .text ")"])
        | some limit =>
          if !weightSummable (.ofRat limit) then
            .error (fault [.text "blastRadius 'maxTotal' (", .bytes bound.literal,
              .text (") is outside the range a cumulative bound can sum, so no total could " ++
                "ever exceed it")])
          else .ok (perCall, some (limit, bound))
  if max.isNone && !hasVelocity then
    .error (fault [.text ("blastRadius declares neither 'max' nor a complete " ++
      "'maxTotal'/'windowSeconds' pair, so it bounds nothing")])
  else match max with
    | none => cumulative none
    | some bound =>
      match bound.value with
      | none => .error (fault [.text "blastRadius 'max' is not a number (", .quoted bound.literal,
          .text ")"])
      | some limit => cumulative (some limit)

def checkPerCallBlastRadius (max : Bytes) (limit : ℚ) (eff : ResolvedEffect) :
    Option ConditionError :=
  let extra : Details := [("blast_radius_max", .text [.bytes max])]
  match eff.blastRadius with
  | none => some (effectDenial eff conditionTypeBlastRadius
      ([.text ("this call's blast radius could not be quantified, so it cannot be shown to be " ++
        "within the bound of "), .bytes max] ++ unannotatedHint eff) extra)
  | some size =>
    if size ≤ limit then none
    else some (effectDenial eff conditionTypeBlastRadius
      [.text "this call's blast radius ", .magnitude size,
        .text " exceeds the permitted maximum ", .bytes max] extra)

def velocityExtras (maxTotal : Bytes) (windowSeconds : ℤ) : Details :=
  [("blast_radius_max_total", .text [.bytes maxTotal]),
    ("blast_radius_window_seconds", .int windowSeconds)]

/-- The weighted bucket a cumulative bound draws on. -/
def Engine.velocityBucket (maxTotal : Bytes) (windowSeconds : ℤ)
    (limit : ℚ) (eff : ResolvedEffect) (req : EnforceRequest) : Preparation :=
  let extras := velocityExtras maxTotal windowSeconds
  match eff.blastRadius with
  | none => .refuse (effectDenial eff conditionTypeBlastRadius
      ([.text ("this call's blast radius could not be quantified, so it cannot be summed against " ++
        "the cumulative bound of "), .bytes maxTotal, .text " per ", .int windowSeconds, .text "s"] ++
        unannotatedHint eff) extras)
  | some size =>
    if !weightSummable (.ofRat size) then
      .refuse (effectDenial eff conditionTypeBlastRadius
        [.text "this call's blast radius ", .magnitude size,
          .text (" is outside the range a cumulative bound can sum, so it cannot be shown to be " ++
            "within "), .bytes maxTotal] extras)
    else e.prepareBucket ctx req blastRadiusBucketSpec fun key =>
      { bucket := ⟨key, windowSeconds, false, .ofRat size, .ofRat limit⟩
        deny := some fun total retryAfter => some (effectDenial eff conditionTypeBlastRadius
          [.text "this call's blast radius ", .magnitude size,
            .text " would take this session's cumulative total for the target past the permitted ",
            .bytes maxTotal, .text " per ", .int windowSeconds, .text "s (already ", .double total,
            .text " within the window)"]
          (extras ++ [("blast_radius_total", .double total), ("retry_after_seconds",
            .int (retryAfterSeconds retryAfter windowSeconds))])) }

/-- `blastRadiusHandler.PrepareCommit`. -/
def Engine.blastRadiusPrepareCommit (cond : Condition)
    (req : EnforceRequest) : Preparation :=
  match cond with
  | .blastRadius max maxTotal windowSeconds =>
    match parseBlastRadiusBounds max maxTotal windowSeconds with
    | .error condErr => .refuse condErr
    | .ok (perCall, cumulative) =>
      match ctx.effect with
      | none => .refuse (conditionFault conditionTypeBlastRadius
          [.text "effect contract was not resolved for this call; blast radius is unavailable"])
      | some eff =>
        let literal := (max.map Number.literal).getD []
        match perCall.bind fun limit => checkPerCallBlastRadius literal limit eff with
        | some condErr => .refuse condErr
        | none =>
          match cumulative with
          | none => ⟨.none, false, none⟩
          | some (limit, bound) => e.velocityBucket ctx bound.literal windowSeconds limit eff req
  | _ => .refuse (castFault conditionTypeBlastRadius)

end Eunox
