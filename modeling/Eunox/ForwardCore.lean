import Eunox.Interaction
import Eunox.Enforce
import Eunox.RpcParams
import Eunox.UnicodeText

/-! The shared forwarding core: an enforced call after its decision, on its way to
the upstream and back, with every record and gate on the way. What stands outside
is asked: the decision point, the upstream, the audit sink. Lines on stderr are
left out. -/
namespace Eunox.Transport
open ByteString JsonText JsonValue Interaction

/-! Codes. -/

def codeInvalidRequest : DenialCode := .other (lit "INVALID_REQUEST")
def codeUpstreamError : DenialCode := .other (lit "UPSTREAM_ERROR")
def codeUpstreamTimeout : DenialCode := .other (lit "UPSTREAM_TIMEOUT")
def codeRequestCanceled : DenialCode := .other (lit "REQUEST_CANCELED")

def jsonRPCCodeInvalidRequest : ℤ := -32600
def jsonRPCCodeInvalidParams : ℤ := -32602
def jsonRPCCodeInternalError : ℤ := -32603

def denialCodeName : DenialCode → Bytes
  | .authorizationFailed => lit "AUTHORIZATION_FAILED"
  | .capabilityDenied => lit "CAPABILITY_DENIED"
  | .invalidParams => lit "INVALID_PARAMS"
  | .conditionFailed => lit "CONDITION_FAILED"
  | .killSwitch => lit "KILL_SWITCH"
  | .killSwitchError => lit "KILL_SWITCH_ERROR"
  | .missingContext => lit "MISSING_CONTEXT"
  | .rateLimited => lit "RATE_LIMITED"
  | .noJWTClaims => lit "NO_JWT_CLAIMS"
  | .operationNotPermitted => lit "OPERATION_NOT_PERMITTED"
  | .valueNotPermitted => lit "VALUE_NOT_PERMITTED"
  | .enforcementError => lit "ENFORCEMENT_ERROR"
  | .auditUnavailable => lit "AUDIT_UNAVAILABLE"
  | .samplingDenied => lit "SAMPLING_DENIED"
  | .escalationRequired => lit "ESCALATION_REQUIRED"
  | .unsupportedProtocolVersion => lit "UNSUPPORTED_PROTOCOL_VERSION"
  | .unroutableMethod => lit "UNROUTABLE_METHOD"
  | .untranslatableAcrossRevisions => lit "UNTRANSLATABLE_ACROSS_REVISIONS"
  | .headerMismatch => lit "HEADER_MISMATCH"
  | .other code => code

/-- `capability.DenialWireCode`. -/
def denialToJSONRPCCode : DenialCode → ℤ
  | .invalidParams => -32602
  | .authorizationFailed | .killSwitch | .killSwitchError | .noJWTClaims | .samplingDenied
  | .unroutableMethod => -32001
  | .conditionFailed | .rateLimited | .missingContext | .operationNotPermitted
  | .valueNotPermitted | .escalationRequired => -32003
  | .enforcementError | .auditUnavailable => -32603
  | .unsupportedProtocolVersion | .untranslatableAcrossRevisions => -32022
  | .headerMismatch => -32020
  | .capabilityDenied | .other _ => -32002

/-! What crosses to the outside. -/

/-- A value among the details of a denial or a record. -/
inductive AuditDetail where
  | of (d : Detail)
  /-- An argument of the call. -/
  | value (v : Json)
  | arguments (members : Members)
  | text (s : Bytes)
  | number (n : ℤ)
  | flag (b : Bool)
  | object (fields : List (Bytes × Bytes))
  /-- The handlers that broke a contract, each with the contract. -/
  | faults (faults : List HandlerFault)

abbrev AuditDetails := List (Bytes × AuditDetail)

/-- `capability.DenialInfo` as the transport reads it. -/
structure Denial where
  code : DenialCode
  conditionType : Bytes := []
  blockOverride : Bool := false
  details : AuditDetails := []

def Denial.downgradable (d : Denial) : Bool := !d.blockOverride && classifyDenialCode d.code == .policy

/-- `capability.EnforceResponse` as the transport reads it; the decision is the text it
is, and may be none of the known ones. -/
structure Verdict where
  decision : Bytes := []
  auditOnly : Bool := false
  obligations : List Obligation := []
  denial : Option Denial := none
  labelsOut : List Bytes := []
  carriedLabels : List Bytes := []
  effect : Option ResolvedEffect := none
  handlerFaults : List HandlerFault := []

def decisionAllow : Bytes := lit "allow"

structure AllowRecord where
  sessionID : Bytes
  identifier : Bytes
  method : Bytes
  details : AuditDetails
  obligs : List Bytes
  auditOnly : Bool
  labelsOut : List Bytes
  carriedLabels : List Bytes

structure DenyRecord where
  sessionID : Bytes
  identifier : Bytes
  method : Bytes
  denialCode : DenialCode
  condType : Bytes
  details : AuditDetails
  observe : Bool

/-- What the decision point is asked about. -/
inductive Question where
  | tool (name : Bytes) (arguments : Members) (declared : Option (List Bytes)) (skipQuota : Bool)
  | resourceRead (uri : Bytes) (skipQuota : Bool)
  | resourceCancel (uri : Bytes)
  | promptGet (name : Bytes) (skipQuota : Bool)
  | sampling (skipQuota : Bool)

/-- The failures `callUpstream` can end in, as `upstreamErrInfo` tells them apart. -/
inductive UpstreamFailure where
  | duplicateID
  | untranslatable (text : Bytes)
  | unenforceableShape (text : Bytes)
  | frameDesync
  | writeTimeout
  | deadlineExceeded
  | canceled
  | netTimeout
  | other

/-- A reply with the error code the upstream sent, where the boundary re-spelled it. -/
structure UpstreamReply where
  msg : RpcMsg
  codeBeforeRewrite : Option ℤ := none

/-- `AuditDegraded`. -/
structure Degradation where
  degraded : Bool
  reason : Bytes := []
  detail : AuditDetails := []

structure ListFilterResult where
  result : Bytes
  upstream : ℤ
  kept : ℤ

inductive RefusalCategory where
  | kill | unroutable | smuggled | undeliveredForward | untranslatableServerRequest
  deriving DecidableEq

/-- What a transport's forward to the host did. -/
inductive ForwardOutcome where
  | delivered | undelivered | refused
  deriving DecidableEq

/-- Everything the transport asks of others. -/
inductive Query where
  | checkKill (sessionID : Bytes)
  | decide (sessionID sourceIP : Bytes) (question : Question)
  | callUpstream (msg : RpcMsg)
  | auditDegraded
  | recordAllow (record : AllowRecord)
  | recordDeny (record : DenyRecord)
  | endDecision
  /-- The initialize responder. -/
  | buildInit (msg : RpcMsg)
  | filterList (method sessionID result : Bytes) (complete : Bool)
  | recordObservedToolHashes (sessionID result : Bytes) (complete : Bool)
  /-- Whether the limiter lets a record of this category through, and how many it
  held back before. -/
  | admitRefusal (category : RefusalCategory)
  /-- The host, of a server-initiated request. -/
  | forward (msg : RpcMsg)
  | answerInitiator (reply : RpcMsg) (what method : Bytes)
  | anchorSplit
  | decideLock
  | endTurn

def Answer : Query → Type
  | .checkKill _ => Option Verdict
  | .decide _ _ _ => Verdict
  | .callUpstream _ => Except UpstreamFailure UpstreamReply
  | .auditDegraded => Degradation
  | .filterList _ _ _ _ => ListFilterResult
  | .recordObservedToolHashes _ _ _ => ℤ
  | .buildInit _ => RpcMsg
  | .admitRefusal _ => Option ℕ
  | .forward _ => ForwardOutcome
  | .anchorSplit | .decideLock => Bool
  | _ => Unit

abbrev Action := Prog Query Answer

abbrev Happening := Event Query Answer

def consult (q : Query) : Action (Answer q) := ask q

def askUpstream (msg : RpcMsg) : Action (Except UpstreamFailure UpstreamReply) := consult (.callUpstream msg)

/-- The larger functions of other packages, and the tables of the standard library. -/
structure Externals where
  printer : Printer
  /-- The walk of `ApplyRedactObligs` over a result, given the paths to redact. By its contract the bytes it returns
  hold none of them, and where it cannot tell it returns nothing. -/
  redact : Bytes → List Bytes → Option Bytes
  /-- The case folding of the duplicate-key check. -/
  fold : Bytes → Bytes
  parseContextManifest : List (Bytes × Text) → Except Bytes (Option (List Bytes))
  /-- The verdict on a receipt in a tool's result, whose signature is checked. -/
  effectReceipt : Bytes → Option ResolvedEffect → Bytes → Option AuditDetail

/-- Nothing where the redaction fails. -/
def Externals.applyRedactObligs (x : Externals) (result : Bytes) (obligs : List Obligation) : Option Bytes :=
  let paths := (obligs.filter fun ob => ob.type = directiveTypeRedactFields).flatMap Obligation.paths
  if paths.isEmpty then some result else x.redact result paths

/-- Every control or line-terminating rune becomes a space; `unicode.IsControl` is the category Cc. -/
def sanitizeControlRunes (s : Bytes) : Bytes :=
  utf8 ((runes (Utf8.toValid [0xEF, 0xBF, 0xBD] s)).map fun r =>
    if r < 0x20 || (0x7F ≤ r && r < 0xA0) || r = 0x2028 || r = 0x2029 then 32 else r)

def sanitizeAuditField (s : Bytes) : Bytes := sanitizeControlRunes s

def maxConsoleDetailBytes : ℕ := 2048

def boundConsoleDetail (s : Bytes) : Bytes := sanitizeControlRunes (boundString (trimSpace s) maxConsoleDetailBytes)

/-! Details. -/

def handlerFaultKey : Bytes := lit "_eunox_handler_fault"
def upstreamErrorCodeKey : Bytes := lit "_eunox_upstream_error_code"
def effectReceiptKey : Bytes := lit "_eunox_effect_receipt"
def unroutableKey : Bytes := lit "_eunox_unroutable"
def reservedArgumentsKey : Bytes := lit "_eunox_reserved_arguments"
def truncatedKey : Bytes := lit "_eunox_truncated"

def handlerFaultDetail (dec : Verdict) : AuditDetails :=
  if dec.handlerFaults.isEmpty then []
  else [(handlerFaultKey, .faults dec.handlerFaults)]

/-- The later map wins. -/
def mergeAuditDetails (base extra : AuditDetails) : AuditDetails :=
  base.filter (fun entry => (extra.lookup entry.1).isNone) ++ extra

/-! Replies. -/

/-- A missing denial is an authorization that failed. -/
def normalizeDenial (d : Option Denial) : Denial := d.getD { code := .authorizationFailed }

/-- A member of an object that is left out when empty. -/
def omitEmpty (key : String) (value : Bytes) : Bytes :=
  if value.isEmpty then [] else lit ",\"" ++ lit key ++ lit "\":\"" ++ quote value ++ lit "\""

def denialErrorData (code : DenialCode) (conditionType target argument : Bytes) : Bytes :=
  lit "\x7b\"code\":\"" ++ quote (denialCodeName code) ++ lit "\"" ++ omitEmpty "type" conditionType ++
    omitEmpty "target" target ++ omitEmpty "argument" argument ++ lit "\x7d"

section Replies
variable (x : Externals)

variable (id : Option Bytes) (code : DenialCode) (conditionType target argument : Bytes)

def denialMessage : Bytes :=
  denialCodeName code ++
    (if target.isEmpty then [] else lit ": target " ++ lit (x.printer.quote target)) ++
    (if conditionType.isEmpty then []
      else lit " failed condition " ++ lit (x.printer.quote conditionType) ++
        (if argument.isEmpty then [] else lit " on argument " ++ lit (x.printer.quote argument)))

def denialResult : RpcMsg where
  id := id
  error := some ⟨denialToJSONRPCCode code, denialMessage x code conditionType target argument,
    some (denialErrorData code conditionType target argument)⟩

def denialArgument (d : Denial) : Bytes :=
  match d.details.lookup (lit "argument") with
  | some (.of (.text message)) => lit (message.render x.printer)
  | some (.text s) => s
  | _ => []

/-- A message with nothing in it. -/
def zeroMsg : RpcMsg := { jsonrpc := [] }

def refusalResponse : RpcMsg :=
  if id.isNone then zeroMsg else denialResult x id code conditionType target argument

def refusalError (code : ℤ) (message : Bytes) : RpcMsg :=
  if id.isNone then zeroMsg else errorResponse id code message

end Replies

/-! Identities. -/

def methodToolsCall : Bytes := lit "tools/call"
def methodToolsList : Bytes := lit "tools/list"
def methodResourcesRead : Bytes := lit "resources/read"
def methodResourcesSubscribe : Bytes := lit "resources/subscribe"
def methodResourcesUnsubscribe : Bytes := lit "resources/unsubscribe"
def methodResourcesList : Bytes := lit "resources/list"
def methodPromptsGet : Bytes := lit "prompts/get"
def methodPromptsList : Bytes := lit "prompts/list"
def methodSamplingCreateMessage : Bytes := lit "sampling/createMessage"

/-- Empty for a method that lists nothing. -/
def listResultKey (method : Bytes) : Bytes :=
  if method = methodToolsList then lit "tools"
  else if method = methodResourcesList then lit "resources"
  else if method = methodPromptsList then lit "prompts"
  else []

/-- Of two members of one name the later counts. -/
def countListEntries (method result : Bytes) : ℤ :=
  if (listResultKey method).isEmpty then 0
  else
    match parseText result with
    | some (.container .curly _ entries) =>
      match (membersOf entries).reverse.lookup (listResultKey method) with
      | some (.container .square _ items) => items.length
      | _ => 0
    | _ => 0

/-- The methods `capability.MethodTargetType` knows. -/
def resolvesTarget (method : Bytes) : Bool :=
  [methodToolsCall, methodToolsList, methodResourcesRead, methodResourcesSubscribe,
    methodResourcesUnsubscribe, methodResourcesList, methodPromptsGet, methodPromptsList,
    methodSamplingCreateMessage].contains method

/-- What a record of a message no policy evaluated may claim. -/
def auditIdentity (msg : RpcMsg) : Bytes × Bytes :=
  if msg.isResponse then (lit "server-response", lit "server-response")
  else if msg.method.isEmpty then (lit "unframed-message", lit "unframed-message")
  else if resolvesTarget msg.method then ([], msg.method)
  else (msg.method, msg.method)

structure CallIdentity where
  method : Bytes
  auditID : Bytes
  denialTarget : Bytes
  kind : Bytes

def methodIdentity (method : Bytes) : CallIdentity := ⟨method, method, method, lit "method"⟩

/-- Whose kill or refusal it is: a verified session, or what a client claimed. -/
structure KillSubject where
  verified : Bytes
  claimed : Bytes

def verifiedSession (id : Bytes) : KillSubject := ⟨id, []⟩

def maxClaimedSessionIDLen : ℕ := 200

def truncateUTF8 (s : Bytes) (limit : ℕ) : Bytes :=
  let s := Utf8.toValid [0xEF, 0xBF, 0xBD] s
  if s.length ≤ limit then s else s.take (Utf8.runeBoundaryCut s limit)

def KillSubject.auditDetails (k : KillSubject) (base : AuditDetails) : AuditDetails :=
  if k.claimed.isEmpty then base
  else
    let sanitized := truncateUTF8 k.claimed maxClaimedSessionIDLen
    mergeAuditDetails base ((if sanitized ≠ k.claimed
      then [(lit "claimed_session_id_truncated", .flag true)] else []) ++
      [(lit "claimed_session_id", .text sanitized)])

/-! Records. -/

/-- The part of a leg that records, gates and forwards. -/
structure ForwardParams where
  /-- Whether there is an audit sink. -/
  recorder : Bool
  audit : Bool
  sessionID : Bytes
  upstreamTimeMs : ℤ
  /-- Whether there is an upstream to call. -/
  callUpstream : Bool
  /-- Whether a decision turn is held. -/
  endDecision : Bool
  requireAuditStrict : Bool

def recordDeny (recorder : Bool) (record : DenyRecord) : Action Unit :=
  if recorder then consult (.recordDeny record) else pure ()

def recordAllow (recorder : Bool) (record : AllowRecord) : Action Unit :=
  if recorder then consult (.recordAllow record) else pure ()

def auditDegraded : Action Degradation := consult .auditDegraded

/-- Asks whether the trail degraded under this very record; what it would write to
stderr is left out. -/
def warnIfStrictAuditJustDegraded (strict recorder : Bool) (recordFn : Action Unit) : Action Unit :=
  if !strict || !recorder then recordFn
  else do
    let pre ← auditDegraded
    recordFn
    if pre.degraded then pure ()
    else do
      let _ ← auditDegraded
      pure ()

/-- The gate of `--require-audit=strict`: nothing while the trail is whole. -/
def auditGateTripped (recorder strict : Bool) : Action (Option Degradation) :=
  if !strict || !recorder then pure none
  else do
    let state ← auditDegraded
    pure (if state.degraded then some state else none)

def upstreamTimeoutReason (upstreamTimeMs : ℤ) : Bytes :=
  if upstreamTimeMs ≤ 0 then lit "upstream did not respond before the request deadline"
  else lit "upstream did not respond within " ++ decimal upstreamTimeMs.toNat ++ lit " ms"

/-- The code of the record, the reason the host sees, and the code of the reply. -/
def upstreamErrInfo (err : UpstreamFailure) (upstreamTimeMs : ℤ) : DenialCode × Bytes × ℤ :=
  match err with
  | .duplicateID =>
    (codeInvalidRequest, lit "duplicate JSON-RPC request id already in flight", jsonRPCCodeInvalidRequest)
  | .untranslatable text => (.untranslatableAcrossRevisions, text, -32022)
  | .unenforceableShape text => (.enforcementError, text, -32603)
  | .frameDesync => (codeUpstreamError, lit "upstream connection failed", jsonRPCCodeInternalError)
  | .writeTimeout | .deadlineExceeded | .netTimeout =>
    (codeUpstreamTimeout, upstreamTimeoutReason upstreamTimeMs, jsonRPCCodeInternalError)
  | .canceled => (codeRequestCanceled, lit "request canceled before the upstream responded",
      jsonRPCCodeInternalError)
  | .other => (codeUpstreamError, lit "upstream error", jsonRPCCodeInternalError)

def auditObligationNames (obligs : List Obligation) : List Bytes :=
  obligs.flatMap fun ob =>
    if ob.paths.isEmpty then [ob.type] else ob.paths.map fun path => ob.type ++ 58 :: path

def hasRedactFieldsObligation (obligs : List Obligation) : Bool :=
  obligs.any fun ob => ob.type == directiveTypeRedactFields && !ob.paths.isEmpty

def auditedUpstreamErrorCode (up : UpstreamReply) (err : RpcError) : ℤ := up.codeBeforeRewrite.getD err.code

def upstreamErrorDetail (up : UpstreamReply) : AuditDetails :=
  match up.msg.error with
  | none => []
  | some err => [(upstreamErrorCodeKey, .number (auditedUpstreamErrorCode up err))]

def isObserveDeny (denial : Denial) (auditMode auditOnly : Bool) : Bool :=
  denial.downgradable && (auditMode || auditOnly)

/-! The core. -/

section Core
variable (x : Externals) (fp : ForwardParams) (msg : RpcMsg) (id : CallIdentity)

/-- A deny for this call, under its own session and identity. -/
def ForwardParams.denyRecord (code : DenialCode) (condType : Bytes) (details : AuditDetails)
    (observe : Bool) : DenyRecord :=
  ⟨fp.sessionID, id.auditID, id.method, code, condType, details, observe⟩

def ForwardParams.recordUpstreamFailure (err : UpstreamFailure) (detail : AuditDetails) :
    Action RpcMsg := do
  let info := upstreamErrInfo err fp.upstreamTimeMs
  warnIfStrictAuditJustDegraded fp.requireAuditStrict fp.recorder
    (recordDeny fp.recorder (fp.denyRecord id info.1 [] detail false))
  pure (refusalError msg.id info.2.2 info.2.1)

variable (dec : Verdict)

/-- A call that was authorized on a path with no upstream. -/
def ForwardParams.refuseUpstreamless : Action RpcMsg := do
  recordDeny fp.recorder (fp.denyRecord id .enforcementError [] (handlerFaultDetail dec) false)
  pure (refusalResponse x msg.id .enforcementError [] id.denialTarget [])

def ForwardParams.strictAuditDenial : Action (Option RpcMsg) := do
  match ← auditGateTripped fp.recorder fp.requireAuditStrict with
  | none => pure none
  | some state =>
    recordDeny true (fp.denyRecord id .auditUnavailable []
      (mergeAuditDetails state.detail (handlerFaultDetail dec)) false)
    pure (some (refusalResponse x msg.id .auditUnavailable [] id.denialTarget []))

/-- The reply with the obligations of the decision applied; nothing where that fails.
The free-form data of an error is dropped instead. -/
def redactReply (resp : RpcMsg) : Option RpcMsg :=
  let redacted : Option RpcMsg := match resp.result with
    | none => some resp
    | some result =>
      if dec.obligations.isEmpty then some resp
      else (x.applyRedactObligs result dec.obligations).map fun result => { resp with result := some result }
  redacted.map fun resp =>
    if hasRedactFieldsObligation dec.obligations then
      { resp with error := resp.error.map fun err => { err with data := none } }
    else resp

def giveBackTurn : Action Unit := consult .endDecision

/-- The turn of the decision is given back. -/
def ForwardParams.finishDecision : Action Unit := if fp.endDecision then giveBackTurn else pure ()

/-- From the upstream's reply to the host's. -/
def ForwardParams.relayReply (recordObligations : Bool)
    (allowDetails : UpstreamReply → AuditDetails) (up : UpstreamReply) : Action RpcMsg :=
  match redactReply x dec up.msg with
  | none => do
    warnIfStrictAuditJustDegraded fp.requireAuditStrict fp.recorder
      (recordDeny fp.recorder (fp.denyRecord id .enforcementError [] (handlerFaultDetail dec) false))
    pure (refusalError msg.id jsonRPCCodeInternalError (lit "internal error: response redaction failed"))
  | some resp => do
    fp.finishDecision
    warnIfStrictAuditJustDegraded fp.requireAuditStrict fp.recorder (recordAllow fp.recorder {
      sessionID := fp.sessionID, identifier := id.auditID, method := id.method
      details := mergeAuditDetails (allowDetails { up with msg := resp }) (handlerFaultDetail dec)
      obligs := if recordObligations && resp.result.isSome then auditObligationNames dec.obligations else []
      auditOnly := fp.audit || dec.auditOnly
      labelsOut := dec.labelsOut, carriedLabels := dec.carriedLabels })
    pure { resp with id := msg.id }

/-- The record of a denial that is forwarded all the same. -/
def ForwardParams.recordObserved : Action Unit :=
  let denial := normalizeDenial dec.denial
  warnIfStrictAuditJustDegraded fp.requireAuditStrict fp.recorder
    (recordDeny fp.recorder (fp.denyRecord id denial.code denial.conditionType
      (mergeAuditDetails denial.details (handlerFaultDetail dec)) true))

/-- From the gate of the audit trail on: the record of a downgraded denial, the one call
of the upstream, and what it answers. -/
def ForwardParams.forwardGated (observe : Bool) (recordObligations : Bool)
    (allowDetails : UpstreamReply → AuditDetails) : Action RpcMsg := do
  match ← fp.strictAuditDenial x msg id dec with
  | some denied => pure denied
  | none =>
    let recordDowngrade : Action Unit := if observe then fp.recordObserved id dec else pure ()
    recordDowngrade
    if !fp.callUpstream then fp.refuseUpstreamless x msg id dec
    else
      match ← askUpstream msg with
      | .error err => fp.recordUpstreamFailure msg id err (handlerFaultDetail dec)
      | .ok up => fp.relayReply x msg id dec recordObligations allowDetails up

/-- No reply is made to a message without an id. -/
def replyFor (msg reply : RpcMsg) : RpcMsg := if msg.id.isNone then zeroMsg else reply

/-- Whether an answer other than allow is forwarded all the same. -/
def ForwardParams.observes : Bool :=
  isObserveDeny (normalizeDenial dec.denial) fp.audit dec.auditOnly && fp.callUpstream

def enforcedForwardCore (recordObligations : Bool) (allowDetails : UpstreamReply → AuditDetails) : Action RpcMsg :=
  replyFor msg <$>
    if dec.decision = decisionAllow then fp.forwardGated x msg id dec false recordObligations allowDetails
    else if fp.observes dec then fp.forwardGated x msg id dec true recordObligations allowDetails
    else do
      let denial := normalizeDenial dec.denial
      recordDeny fp.recorder (fp.denyRecord id denial.code denial.conditionType
        (mergeAuditDetails denial.details (handlerFaultDetail dec)) false)
      pure (refusalResponse x msg.id denial.code denial.conditionType id.denialTarget
        (denialArgument x denial))

end Core

end Eunox.Transport
