import Eunox.EngineChecks

/-! One decision of the engine, `evaluateMatched`: the condition handlers that
read the stores, the two passes over a constraint's conditions with the effect
ceiling between them, the atomic quota commit, and the record an allowed call
leaves. -/
namespace Eunox
open ByteString CallCounter

/-! Condition handlers. -/

/-- Merges declared labels into the present ones, in canonical order. -/
def unionLabels (present declared : List Bytes) : List Bytes :=
  if declared.isEmpty then present else normalizeDeclaredLabels (present ++ declared)

/-- The verdict of a flow-label condition over the labels present. -/
def flowVerdict (allow present declared : List Bytes) : Option ConditionError :=
  let blocked := (unionLabels present declared).filter fun l => !allow.contains l
  match blocked.getLast? with
  | none => none
  | some last => some {
      code := .conditionFailed, conditionType := conditionTypeFlowLabel
      message := [.text "flow label(s) ", .listed blocked,
        .text " present in this session but not permitted at this sink"]
      blockOverride := false
      details := [("flow", .flag true), ("blockedLabel", .text [.bytes last]),
        ("blockedLabels", .strings blocked), ("allowLabels", .strings allow)] ++
        (if declared.isEmpty then [] else [("declared_labels", .strings declared)]) }

variable (e : Engine) (ctx : Context) (req : EnforceRequest)

/-- The sink half of information-flow control. The threaded snapshot is used
where there is one. -/
def Engine.handleFlowLabel (cond : Condition) (req : EnforceRequest)
    (w : World) : Option ConditionError × World :=
  match cond with
  | .flowLabel allow =>
    match firstUnusable allow with
    | some err => (some {
        code := .conditionFailed, conditionType := conditionTypeFlowLabel
        message := [.text "flowLabel 'allow' is unusable: "] ++ err
        blockOverride := false, details := [] }, w)
    | none =>
      if !e.flowWired then
        (some (conditionFault conditionTypeFlowLabel
          [.text "flow-label store not configured; flow-label state is unavailable"]), w)
      else if (e.resolveAnchor req).id.isEmpty then
        (some {
          code := .missingContext, conditionType := conditionTypeFlowLabel
          message := [.text "sessionId is required for flowLabel condition"]
          blockOverride := true, details := [] }, w)
      else
        let declared := normalizeDeclaredLabels req.declaredLabels
        match ctx.carriedLabels with
        | some present => (flowVerdict allow present declared, w)
        | none =>
          match e.peekSessionLabels ctx.instant req w with
          | (.error err, w) => (some (conditionFault conditionTypeFlowLabel
              ([.text "flow-label state lookup failed: "] ++ err)), w)
          | (.ok present, w) => (flowVerdict allow present declared, w)
  | _ => (some (castFault conditionTypeFlowLabel), w)

/-- The denial of a call whose antecedent ran; the blocked target is named the
way its own history is keyed. -/
def sequenceDenial (afterTools : List Bytes) (priorType priorTool : Bytes) :
    ConditionError :=
  let (blockedType, blockedName) := sessionTargetKey req
  let blockedShown := if blockedName.isEmpty then lit "(unknown)" else blockedName
  let blockedDetail := if blockedName.isEmpty then lit "(unknown)"
    else blockedType ++ 58 :: blockedName
  { code := .conditionFailed, conditionType := conditionTypeSequenceBlock
    message := [.bytes priorType, .text " ", .quoted priorTool,
      .text " was already called in this session; ", .bytes blockedType, .text " ",
      .quoted blockedShown, .text " is blocked after it"]
    blockOverride := false
    details := [("afterTool", .text [.bytes (priorType ++ 58 :: priorTool)]),
      ("blockedTool", .text [.bytes blockedDetail]), ("afterTools", .strings afterTools)] }

/-- The type and name an `afterTools` entry looks up. -/
def antecedentTarget (prior : Bytes) : Bytes × Bytes :=
  ((splitEnginePrefix prior).1, trimSpace (splitEnginePrefix prior).2)

/-- How many calls of a target the history window holds. -/
def Engine.historyCount (instant : ℤ) (req : EnforceRequest)
    (targetType target : Bytes) (w : World) : Except CounterError ℤ :=
  peek w.counter instant (e.sequenceHistoryKey req targetType target) sequenceHistoryWindowSec

/-- Looks the antecedents up in order; the first one found denies, and its
marker is written again so that its age counts from now. -/
def Engine.sequenceLookup (e : Engine) (ctx : Context) (req : EnforceRequest)
    (afterTools : List Bytes) : List Bytes → World → Option ConditionError × World
  | [], w => (none, w)
  | prior :: rest, w =>
    let (priorType, priorTool) := antecedentTarget prior
    match e.historyCount ctx.instant req priorType priorTool w with
    | .error err => (some (conditionFault conditionTypeSequenceBlock
        [.text "session history lookup failed: ", .counterError err]), { w with faulted := true })
    | .ok count =>
      if 0 < count then
        (some (sequenceDenial req afterTools priorType priorTool),
          (e.recordMarker ctx.instant req priorType priorTool w).2)
      else e.sequenceLookup ctx req afterTools rest w

def Engine.handleSequenceBlock (cond : Condition)
    (req : EnforceRequest) (w : World) : Option ConditionError × World :=
  match cond with
  | .sequenceBlock afterTools =>
    let emptyAfterTools := afterTools.filter fun prior => (trimSpace (stripEnginePrefix prior)).isEmpty
    if afterTools.isEmpty then
      (some (conditionFault conditionTypeSequenceBlock
        [.text ("sequenceBlock condition requires a non-empty 'afterTools' list naming the tools " ++
          "whose prior use blocks this call")]), w)
    else if !emptyAfterTools.isEmpty then
      (some (conditionFault conditionTypeSequenceBlock
        [.text ("sequenceBlock 'afterTools' contains entries that name no tool after the " ++
          "namespace prefix is stripped: "), .listed emptyAfterTools]
        [("emptyAfterTools", .strings emptyAfterTools), ("afterTools", .strings afterTools)]), w)
    else match e.counterSubjectGuards req sequenceHistorySpec with
      | some condErr => (some condErr, w)
      | none => e.sequenceLookup ctx req afterTools afterTools w
  | _ => (some (castFault conditionTypeSequenceBlock), w)

/-! The two passes. -/

/-- A condition set aside for the atomic commit. -/
structure DeferredCondition where
  cond : Condition
  conditionType : Bytes
  handler : Handler

def Handler.commits : Handler → Bool
  | .committing _ | .maxCalls | .blastRadius => true
  | _ => false

def Engine.prepareCommit (e : Engine) (ctx : Context) (d : DeferredCondition)
    (req : EnforceRequest) : Preparation :=
  match d.handler with
  | .committing prepareCommit => prepareCommit ctx d.cond req
  | .maxCalls => e.maxCallsPrepareCommit ctx d.cond req
  | .blastRadius => e.blastRadiusPrepareCommit ctx d.cond req
  | _ => ⟨.none, false, none⟩

/-- One pure condition through its handler. -/
def Engine.evalCondition (cond : Condition)
    (handler : Handler) (w : World) : Option ConditionError × World :=
  match handler with
  | .pure handle => (handle ctx cond req, w)
  | .flowLabel => e.handleFlowLabel ctx cond req w
  | .sequenceBlock => e.handleSequenceBlock ctx cond req w
  | _ => (some (conditionFault cond.conditionType [.text "condition type ",
      .quoted cond.conditionType, .text " has no usable handler to evaluate it"]), w)

/-- Evaluates the pure conditions in order and sets the committing ones aside. -/
def Engine.runPureConditions (e : Engine) (ctx : Context) (req : EnforceRequest) :
    List Condition → World → Except ConditionError (List DeferredCondition) × World
  | [], w => (.ok [], w)
  | cond :: rest, w =>
    if cond.isNil then
      (.error (conditionFault []
        [.text "constraint carries a null condition that cannot be evaluated"]), w)
    else match e.handlers cond.conditionType with
      | none => (.error (conditionFault cond.conditionType
          [.text "unknown condition type: ", .bytes cond.conditionType]), w)
      | some registered =>
        if registered.handler.commits then
          match e.runPureConditions ctx req rest w with
          | (.ok deferred, w) => (.ok (⟨cond, cond.conditionType, registered.handler⟩ :: deferred), w)
          | (.error condErr, w) => (.error condErr, w)
        else match e.evalCondition ctx req cond registered.handler w with
          | (some condErr, w) => (.error condErr, w)
          | (none, w) => e.runPureConditions ctx req rest w

/-- A bucket to admit, with what its refusal reports. -/
structure PendingBucket where
  bucket : QuotaBucket
  deny : Option (Binary64 → ℤ → Option ConditionError)
  conditionType : Bytes

def unauthorizedSkipError (conditionType : Bytes) : ConditionError :=
  conditionFault conditionType [.text "committing condition ", .quoted conditionType,
    .text (" reported a skip the request context did not authorize; skip must be derived solely " ++
      "from request context")]

/-- What preparing the deferred conditions comes to: the faults reported on the
way, and the refusal or the buckets to admit. -/
abbrev Prepared := List HandlerFault × Except ConditionError (List PendingBucket)

/-- Prepares every deferred condition, without touching the counter. -/
def Engine.prepareDeferred (e : Engine) (ctx : Context) (req : EnforceRequest) :
    List DeferredCondition → List HandlerFault → List PendingBucket → Prepared
  | [], faults, pending => (faults, .ok pending)
  | d :: rest, faults, pending =>
    let p := e.prepareCommit ctx d req
    match p.condErr with
    | some condErr => (faults, .error condErr)
    | none =>
      if p.skip then
        if !ctx.skipQuota then (faults, .error (unauthorizedSkipError d.conditionType))
        else e.prepareDeferred ctx req rest faults pending
      else if !p.commit.prepared then e.prepareDeferred ctx req rest faults pending
      else if ctx.skipQuota then
        let fault : HandlerFault := ⟨d.conditionType, handlerContractQuotaUnderSkip⟩
        e.prepareDeferred ctx req rest
          (if faults.contains fault then faults else faults ++ [fault]) pending
      else if !p.commit.commits then
        (faults, .error (conditionFault d.conditionType
          [.text "committing condition handler prepared a quota bucket with no key"]))
      else e.prepareDeferred ctx req rest faults
        (pending ++ [⟨p.commit.bucket, p.commit.deny, d.conditionType⟩])

/-- The one condition type every bucket came from, or none. -/
def attributableType : List Bytes → Bytes
  | [] => []
  | first :: rest => if rest.all (· == first) then first else []

/-- What a refused admission reports. -/
def admissionDenial (pending : List PendingBucket) (a : Admission) : ConditionError :=
  match pending[a.deniedIndex]? with
  | none => conditionFault (attributableType (pending.map PendingBucket.conditionType))
      [.text "call counter returned out-of-range denied bucket index ", .int a.deniedIndex,
        .text " (have ", .int pending.length, .text " buckets)"]
  | some b =>
    match b.deny with
    | none => conditionFault b.conditionType
        [.text "committing condition handler for bucket index ", .int a.deniedIndex,
          .text " supplied a nil Deny callback"]
    | some deny => (deny a.total a.retryAfter).getD (conditionFault b.conditionType
        [.text "committing condition handler for bucket index ", .int a.deniedIndex,
          .text "'s Deny callback returned nil for a refused admission"])

/-- Admits the prepared buckets in one atomic backend call. -/
def Engine.admitPending (instant : ℤ) (pending : List PendingBucket) (w : World) :
    Option ConditionError × World :=
  if pending.isEmpty then (none, w)
  else if !e.counterWired then
    (some (conditionFault [] [.text "call counter not configured"]), w)
  else match admitAll w.counter instant (pending.map PendingBucket.bucket) with
    | (.error err, counter) =>
      (some (conditionFault (attributableType (pending.map PendingBucket.conditionType))
        [.text "call counter error: ", .counterError err]),
        { w with counter := counter, faulted := true })
    | (.ok a, counter) =>
      (if a.admitted then none else some (admissionDenial pending a),
        { w with counter := counter })

def Engine.commitDeferredConditions
    (deferred : List DeferredCondition) (w : World) :
    List HandlerFault × Option ConditionError × World :=
  match e.prepareDeferred ctx req deferred [] [] with
  | (faults, .error condErr) => (faults, some condErr, w)
  | (faults, .ok pending) =>
    let (condErr, w) := e.admitPending ctx.instant pending w
    (faults, condErr, w)

variable (matched : Constraint) (w : World)

theorem recordMarker_flowStore (instant : ℤ) (targetType target : Bytes) :
    (e.recordMarker instant req targetType target w).2.flowStore = w.flowStore := by
  unfold Engine.recordMarker
  split <;> rfl

theorem admitPending_flowStore (instant : ℤ) (pending : List PendingBucket) :
    (e.admitPending instant pending w).2.flowStore = w.flowStore := by
  unfold Engine.admitPending
  split
  · rfl
  split
  · rfl
  split <;> rfl

/-! The decision. -/

/-- The record of an allowed call, and the allow it answers with. -/
def Engine.recordAllowed (obligations : List Obligation) (effect : ResolvedEffect) (flowRelevant : Bool)
    (carriedLabels : List Bytes) (w : World) : EnforceResponse × World :=
  match e.recordSourceCall ctx.instant req matched ⟨flowRelevant, true⟩ carriedLabels w with
  | (.error err, w) =>
    (if err.flow then labelRecordFailureDenial ctx matched.isAuditOnly obligations
      else recordFailureDenial ctx matched.isAuditOnly obligations, w)
  | (.ok labelsOut, w) =>
    ({ requestID := ctx.requestID, decision := .allow, auditOnly := matched.isAuditOnly
       obligations := obligations, denial := none, decidedAt := ctx.timestamp
       labelsOut := labelsOut, carriedLabels := carriedLabels, effect := some effect
       handlerFaults := [] }, w)

/-- Everything after the label snapshot. -/
def Engine.evaluateChecked (effect : ResolvedEffect) (flowRelevant : Bool)
    (carriedLabels : List Bytes) (w : World) : EnforceResponse × World :=
  let refuse (condErr : ConditionError) : EnforceResponse := denyResponse ctx matched.isAuditOnly [] condErr
  match e.runPureConditions ctx req matched.conditions w with
  | (.error condErr, w) => (refuse condErr, w)
  | (.ok deferred, w) =>
    match collectObligations ctx matched with
    | (_, some deny) => (deny, w)
    | (obligations, none) =>
      match e.checkEffectCeiling ctx matched.isAuditOnly effect carriedLabels with
      | some deny => (deny, w)
      | none =>
        match e.commitDeferredConditions ctx req deferred w with
        | (faults, some condErr, w) => ({ refuse condErr with handlerFaults := faults }, w)
        | (faults, none, w) =>
          let (resp, w) := e.recordAllowed ctx req matched obligations effect flowRelevant
            carriedLabels w
          ({ resp with handlerFaults := faults }, w)

/-- The refusal of a caller this engine cannot anchor as configured. -/
def anchorDenial : DenialInfo where
  code := .missingContext
  conditionType := lit "task"
  message := [.text ("this route anchors enforcement state on the task, but the presented token " ++
    "carries no mcp.task_id; refusing rather than accounting this call against a second, " ++
    "session-keyed bucket (fail closed)")]
  blockOverride := true
  details := [("anchor", .text [.text "task"]), ("reason", .text [.text "no_task_id"])]

/-- Every refusal carries the snapshot the decision was made on. -/
def stampCarriedLabels (carriedLabels : List Bytes) (resp : EnforceResponse) : EnforceResponse :=
  if resp.decision ≠ .allow ∧ resp.carriedLabels.isEmpty then
    { resp with carriedLabels := carriedLabels } else resp

/-- A refusal that will be forwarded carries the constraint's obligations. -/
def stampObligations (forwards : Bool) (obligations : List Obligation) (resp : EnforceResponse) :
    EnforceResponse :=
  if forwards && resp.decision ≠ .allow && resp.obligations.isEmpty &&
      resp.denial.all DenialInfo.downgradable then
    { resp with obligations := obligations } else resp

def Engine.evaluateAnchored (effect : ResolvedEffect) (w : World) : EnforceResponse × World :=
  if e.anchorUnresolved req then (denyResponse ctx matched.isAuditOnly [] anchorDenial, w)
  else if e.skipFlow || !constraintHasFlow matched then
    e.evaluateChecked ctx req matched effect false [] w
  else match e.peekSessionLabels ctx.instant req w with
    | (.error err, w) => (denyResponse ctx matched.isAuditOnly []
        (conditionFault conditionTypeFlowLabel
          ([.text "flow-label state lookup failed: "] ++ err)), w)
    | (.ok carriedLabels, w) =>
      let (resp, w) := e.evaluateChecked { ctx with carriedLabels := some carriedLabels } req matched
        effect true carriedLabels w
      (stampCarriedLabels carriedLabels resp, w)

def Engine.evaluateMatched : EnforceResponse × World :=
  let effect := resolveEffect matched.effect req.arguments
  let ctx := { ctx with
    directives := matched.directives, effect := some effect, carriedLabels := none }
  let (resp, w) := e.evaluateAnchored ctx req matched effect w
  (stampObligations (willForwardDeny ctx (some matched)) (collectObligations ctx matched).1 resp, w)

/-- The wording of every refusal of a nil argument. -/
def nilSeamRefusal (seam what : String) : Message :=
  [.text (seam ++ ": called with " ++ what ++
    "; refusing rather than evaluating an incomplete decision")]

def nilRequestDenial (seam : String) : EnforceResponse where
  requestID := []
  decision := .deny
  auditOnly := false
  obligations := []
  denial := some (conditionFault [] (nilSeamRefusal seam "a nil request or constraint"))
  decidedAt := []
  labelsOut := []
  carriedLabels := []
  effect := none
  handlerFaults := []

/-- `EvaluateConditions`; the context carries the identity it mints. -/
def Engine.evaluateConditions (req : Option EnforceRequest)
    (matched : Option Constraint) (w : World) : EnforceResponse × World :=
  match req, matched with
  | none, _ => (nilRequestDenial "EvaluateConditions", w)
  | some _, none => (nilRequestDenial "EvaluateConditions: no matched constraint", w)
  | some req, some matched => e.evaluateMatched ctx req matched w

end Eunox
