import Eunox.HostDispatch

/-! Server-initiated requests: what the upstream asks of the host, on its way
there. Only sampling is decided; every other method is forwarded, audited, and
held by the kill switch and the gate of the audit trail. -/
namespace Eunox.Transport
open ByteString Interaction

/-- The revision of the handshake, `deriveHandshakeRevision`. -/
def handshakeRevision : Bytes :=
  match methodRegistry.lookup methodInitialize with
  | some { revisions := [rev], .. } => rev
  | _ => defaultRevision

/-- Whether a leg at this revision declares it with every request; one that is not
published is read as the handshake's. -/
def declaresPerRequestRevision (rev : Bytes) : Bool :=
  let opened := if publishedRevisions.contains rev then rev else handshakeRevision
  opened == revision20260728

structure ServerRequestParams where
  audit : Bool
  sessionID : Bytes
  sourceIP : Bytes
  /-- The revision the host's context pinned; none where it is empty. -/
  revision : Bytes
  recs : RefusalRecorders
  /-- The names of the leg in the records of a request that was not delivered, or cannot
  be translated. -/
  undelivered : Bytes
  untranslatable : Bytes
  /-- Whether the decision has a turn to wait for. -/
  decideLock : Bool
  /-- Whether the session's anchors can be asked after. -/
  anchorSplit : Bool
  requireAuditStrict : Bool

section ServerForward
variable (x : Externals) (fp : ServerRequestParams) (msg : RpcMsg)

def answerInitiator (reply : RpcMsg) (what method : Bytes) : Action Unit :=
  consult (.answerInitiator reply what method)

def forwardToHost : Action ForwardOutcome := consult (.forward msg)

def askDecideLock : Action Bool := consult .decideLock

def endTurn : Action Unit := consult .endTurn

/-- Whether the host's leg has resolved more than one anchor. -/
def ServerRequestParams.spansAnchors : Action Bool :=
  if fp.anchorSplit then (consult .anchorSplit : Action Bool) else pure false

/-- The refusals of the flow layer; none of them is downgraded. -/
def samplingFlowDenial (reason : Bytes) : Verdict where
  decision := lit "deny"
  denial := some { code := .conditionFailed, conditionType := conditionTypeFlowLabel, blockOverride := true
                   details := [(lit "flow", .flag true), (lit "reason", .text reason)] }

def samplingTurnDenial : Verdict := samplingFlowDenial (lit "turn_unavailable")

def samplingAnchorSplitDenial : Verdict := samplingFlowDenial (lit "session_spans_anchors")

def askSampling : Action Verdict := consult (.decide fp.sessionID fp.sourceIP (.sampling fp.audit))

def ServerRequestParams.decideUnlessSplit (split : Bool) : Action Verdict :=
  if split then pure samplingAnchorSplitDenial else askSampling fp

/-- The decision, with its turn held. -/
def ServerRequestParams.decideInTurn : Action Verdict := do
  let split ← fp.spansAnchors
  let dec ← fp.decideUnlessSplit split
  endTurn
  pure dec

def ServerRequestParams.decideSampling : Action Verdict := do
  let split ← fp.spansAnchors
  if split then pure samplingAnchorSplitDenial
  else if !fp.decideLock then askSampling fp
  else do
    let entered ← askDecideLock
    if entered then fp.decideInTurn else pure samplingTurnDenial

variable (identifier method : Bytes) (dec : Verdict)

/-- The gate of `--require-audit=strict`; the initiator is answered. -/
def ServerRequestParams.strictServerRequestAuditDenial : Action Bool := do
  match ← auditGateTripped fp.recs.recorder fp.requireAuditStrict with
  | none => pure false
  | some state =>
    recordDeny true ⟨fp.sessionID, identifier, method, .auditUnavailable, [],
      mergeAuditDetails state.detail (handlerFaultDetail dec), false⟩
    answerInitiator (errorResponse msg.id (-32603) (denialCodeName .auditUnavailable))
      (lit "refusing a server-initiated request: the audit trail has degraded under --require-audit=strict")
      method
    pure true

/-- The record of a request nobody took. -/
def ServerRequestParams.recordUndelivered (detail : AuditDetails) : Action Unit := do
  let admitted ← fp.recs.forCategory .undeliveredForward
  recordRolledUp admitted ⟨fp.sessionID, identifier, method, .enforcementError, [],
    mergeAuditDetails detail (transportLegDetail fp.undelivered), false⟩

/-- The record of a forward: none where the forward recorded its own refusal. -/
def ServerRequestParams.recordForwardOutcome (outcome : ForwardOutcome)
    (auditOnly : Bool) (dec : Verdict) (detail : AuditDetails) : Action Unit :=
  match outcome with
  | .refused => pure ()
  | .undelivered =>
    warnIfStrictAuditJustDegraded fp.requireAuditStrict fp.recs.recorder
      (fp.recordUndelivered identifier method detail)
  | .delivered =>
    warnIfStrictAuditJustDegraded fp.requireAuditStrict fp.recs.recorder
      (recordAllow fp.recs.recorder {
        sessionID := fp.sessionID, identifier := identifier, method := method, details := detail
        obligs := [], auditOnly := auditOnly, labelsOut := dec.labelsOut, carriedLabels := dec.carriedLabels })

/-- The error of a message that cannot cross to the host. -/
def refuseServerRequestAcrossRevisions (hostRev : Bytes) : Option Bytes :=
  if !declaresPerRequestRevision hostRev then none
  else
    let subject := if method.isEmpty then lit "a response" else boundConsoleDetail method
    some (lit "message cannot be translated across the host/upstream revision boundary: " ++ subject ++
      lit " cannot cross a host " ++ hostRev ++ lit " / upstream " ++ handshakeRevision ++ lit " pair (" ++
      lit "the host's revision replaced server-initiated requests with a client-driven exchange, " ++
      lit "so there is no way to ask it and no honest answer eunox could give on its behalf" ++
      lit ")")

/-- A refusal on this leg, recorded before the initiator is answered. -/
def ServerRequestParams.refuse (record : DenyRecord) (what : Bytes) : Action Unit := do
  recordDeny fp.recs.recorder record
  answerInitiator (errorResponse msg.id (denialToJSONRPCCode record.denialCode) (denialCodeName record.denialCode))
    what record.method

/-- The host's revision has no server-initiated requests. -/
def ServerRequestParams.refuseUntranslatable (text : Bytes) : Action Unit := do
  let identity := auditIdentity msg
  let admitted ← fp.recs.forCategory .untranslatableServerRequest
  recordRolledUp admitted ⟨fp.sessionID, identity.1, identity.2, .untranslatableAcrossRevisions, [],
    transportLegDetail fp.untranslatable, false⟩
  answerInitiator (errorResponse msg.id (-32022) text)
    (lit "refusing a server-initiated request an upstream aimed at a host whose revision has no such thing")
    msg.method

/-- Past every refusal: the gate, what is recorded of a downgrade, the forward and its record. -/
def ServerRequestParams.gateAndForward (downgrade : Action Unit)
    (auditOnly : Bool) (detail : AuditDetails) : Action Unit := do
  let tripped ← fp.strictServerRequestAuditDenial msg identifier method dec
  if tripped then pure ()
  else do
    downgrade
    let outcome ← forwardToHost msg
    fp.recordForwardOutcome identifier method outcome auditOnly dec detail

/-- Every method but sampling. -/
def ServerRequestParams.forwardUndecided : Action Unit := do
  let identity := auditIdentity msg
  match ← checkKill fp.sessionID with
  | some deny =>
    let denial := normalizeDenial deny.denial
    fp.refuse msg ⟨fp.sessionID, identity.1, identity.2, denial.code, denial.conditionType, [], false⟩
      (lit "denying a revoked session's server-initiated request")
  | none => fp.gateAndForward msg identity.1 identity.2 {} (pure ()) fp.audit []

/-- Sampling, once it is decided. -/
def ServerRequestParams.forwardSampling : Action Unit :=
  let method := methodSamplingCreateMessage
  let denial := normalizeDenial dec.denial
  let record (observe : Bool) : DenyRecord := ⟨fp.sessionID, method, method, denial.code,
    denial.conditionType, mergeAuditDetails denial.details (handlerFaultDetail dec), observe⟩
  if dec.decision = decisionAllow then
    fp.gateAndForward msg method method dec (pure ()) fp.audit (handlerFaultDetail dec)
  else if isObserveDeny denial fp.audit dec.auditOnly then
    fp.gateAndForward msg method method dec (recordDeny fp.recs.recorder (record true)) true
      (handlerFaultDetail dec)
  else fp.refuse msg (record false) (lit "denying a server-initiated request the policy refused")

def forwardServerRequest : Action Unit :=
  match refuseServerRequestAcrossRevisions msg.method (resolveRevision fp.revision) with
  | some text => fp.refuseUntranslatable msg text
  | none =>
    if msg.method ≠ methodSamplingCreateMessage then fp.forwardUndecided msg
    else do
      let dec ← fp.decideSampling
      fp.forwardSampling msg dec

end ServerForward
end Eunox.Transport
