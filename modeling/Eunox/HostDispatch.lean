import Eunox.ForwardCore
import Eunox.AuditRecord

/-! Host messages: the routing tables of each revision, and what becomes of a
request or a notification. -/
namespace Eunox.Transport
open ByteString JsonText JsonValue Interaction

/-! Revisions and tables. -/

def revision20251125 : Bytes := lit "2025-11-25"
def revision20260728 : Bytes := lit "2026-07-28"
def defaultRevision : Bytes := revision20251125

def publishedRevisions : List Bytes := [revision20251125, revision20260728]

def methodInitialize : Bytes := lit "initialize"
def methodPing : Bytes := lit "ping"
def methodNotificationsInitialized : Bytes := lit "notifications/initialized"
def methodNotificationsCancelled : Bytes := lit "notifications/cancelled"
def methodNotificationsProgress : Bytes := lit "notifications/progress"
def methodNotificationsRootsListChanged : Bytes := lit "notifications/roots/list_changed"

/-- The functions a table names. -/
inductive MethodHandler where
  | toolsCall | resourcesRead | resourcesSubscribe | resourcesUnsubscribe | promptsGet
  | initResponder | ping | list
  deriving DecidableEq

inductive NotificationDisposition where
  | forward | swallow
  deriving DecidableEq

structure MethodSpec where
  revisions : List Bytes
  decide : Option MethodHandler := none
  here : Option MethodHandler := none
  /-- Nothing where the method is no notification. -/
  disposition : Option NotificationDisposition := none

def methodRegistry : List (Bytes × MethodSpec) :=
  [(methodToolsCall, { revisions := [revision20251125, revision20260728], decide := some .toolsCall }),
    (methodResourcesRead,
      { revisions := [revision20251125, revision20260728], decide := some .resourcesRead }),
    (methodResourcesSubscribe, { revisions := [revision20251125], decide := some .resourcesSubscribe }),
    (methodResourcesUnsubscribe, { revisions := [revision20251125], decide := some .resourcesUnsubscribe }),
    (methodPromptsGet, { revisions := [revision20251125, revision20260728], decide := some .promptsGet }),
    (methodInitialize,
      { revisions := [revision20251125], here := some .initResponder, disposition := some .swallow }),
    (methodPing, { revisions := [revision20251125], here := some .ping }),
    (methodResourcesList, { revisions := [revision20251125, revision20260728], here := some .list }),
    (methodToolsList, { revisions := [revision20251125, revision20260728], here := some .list }),
    (methodPromptsList, { revisions := [revision20251125, revision20260728], here := some .list }),
    (methodNotificationsInitialized, { revisions := [revision20251125], disposition := some .swallow }),
    (methodNotificationsCancelled,
      { revisions := [revision20251125, revision20260728], disposition := some .forward }),
    (methodNotificationsProgress,
      { revisions := [revision20251125, revision20260728], disposition := some .forward }),
    (methodNotificationsRootsListChanged,
      { revisions := [revision20251125], disposition := some .forward })]

/-- The tables of one revision. -/
structure RevisionTables where
  decide : Bytes → Option MethodHandler
  here : Bytes → Option MethodHandler
  notifications : Bytes → Option NotificationDisposition

/-- A revision no table was built for has empty ones. -/
def buildRevisionDispatch (registry : List (Bytes × MethodSpec)) (rev : Bytes) : RevisionTables :=
  let spec (method : Bytes) : Option MethodSpec :=
    (registry.lookup method).filter fun spec => publishedRevisions.contains rev && spec.revisions.contains rev
  { decide := fun method => (spec method).bind MethodSpec.decide
    here := fun method => (spec method).bind fun spec => if spec.decide.isSome then none else spec.here
    notifications := fun method => (spec method).bind MethodSpec.disposition }

/-- An unset revision is the default one. -/
def resolveRevision (rev : Bytes) : Bytes := if rev.isEmpty then defaultRevision else rev

def tablesFor (rev : Bytes) : RevisionTables := buildRevisionDispatch methodRegistry (resolveRevision rev)

/-- The handler of a request, and whether it is an enforced one. -/
def RevisionTables.request (t : RevisionTables) (method : Bytes) : Option MethodHandler × Bool :=
  match t.decide method with
  | some handler => (some handler, true)
  | none => (t.here method, false)

def RevisionTables.enforces (t : RevisionTables) (method : Bytes) : Bool := (t.decide method).isSome

def unroutableReason (rev method : Bytes) : Bytes :=
  match methodRegistry.lookup method with
  | none => lit "unknown_method"
  | some spec => if spec.revisions.contains rev then lit "framing_unmapped" else lit "removed_in_revision"

def unroutableDetail (rev reason : Bytes) : AuditDetails :=
  [(unroutableKey, .object [(lit "reason", reason), (lit "revision", rev)])]

/-! Parameters. -/

/-- Whether a key of an object names a field of a struct. -/
def namesField (field key : Bytes) : Bool := Audit.foldName field == Audit.foldName key

/-- A string field; null leaves it as it is. -/
def bindString (field : Bytes) (fields : List (Bytes × Text)) : Option Bytes :=
  (fields.filter fun entry => namesField field entry.1).foldlM (fun held entry =>
    match entry.2 with
    | .null => some held
    | .string body => some (unquote body)
    | _ => none) []

/-- A map field; nothing is the nil map. -/
def bindMap (field : Bytes) (fields : List (Bytes × Text)) : Option (Option (List (Bytes × Text))) :=
  (fields.filter fun entry => namesField field entry.1).foldlM (fun held entry =>
    match entry.2 with
    | .null => some none
    | .container .curly _ entries => some (some (held.getD [] ++ membersOf entries))
    | _ => none) none

structure ToolCallParams where
  name : Bytes
  arguments : Option Members
  metaBlock : List (Bytes × Text)

section Dispatch
variable (x : Externals)

def decodeToolCallParams (raw : Bytes) : Option ToolCallParams := do
  let fields ← decodeFields x.fold raw
  let name ← bindString (lit "name") fields
  let arguments ← bindMap (lit "arguments") fields
  let metaBlock ← bindMap (lit "_meta") fields
  pure ⟨name, arguments.map fun members => members.map fun member => (member.1, valueOf member.2),
    metaBlock.getD []⟩

/-- `mcp.ResourceReadParams`. -/
def decodeResourceParams (raw : Bytes) : Option Bytes := do
  bindString (lit "uri") (← decodeFields x.fold raw)

/-- The name of `mcp.PromptGetParams`; its arguments are checked to be an object. -/
def decodePromptParams (raw : Bytes) : Option Bytes := do
  let fields ← decodeFields x.fold raw
  let name ← bindString (lit "name") fields
  let _ ← bindMap (lit "arguments") fields
  pure name

/-- The page asked for and the page got are the whole listing. -/
def completeToolsListing (params result : Bytes) : Bool :=
  let first : Bool := params.isEmpty ||
    ((decodeFields x.fold params).bind (bindString (lit "cursor"))) == some []
  first && ((decodeFields x.fold result).bind (bindString (lit "nextCursor"))) == some []

/-! Handlers. -/

/-- The part of a leg that dispatches. -/
structure DispatchParams extends ForwardParams where
  sourceIP : Bytes
  buildInit : Bool
  receipts : Bool
  honorAttribution : Bool
  /-- Whether a limiter bounds the refusals of this leg. -/
  limited : Bool

variable (d : DispatchParams) (msg : RpcMsg)

def checkKill (sessionID : Bytes) : Action (Option Verdict) := consult (.checkKill sessionID)

def recordKillDenial (recorder : Bool) (deny : Verdict) (subj : KillSubject) : Action RpcMsg := do
  let denial := normalizeDenial deny.denial
  let identity := auditIdentity msg
  recordDeny recorder ⟨subj.verified, identity.1, identity.2, denial.code, denial.conditionType,
    subj.auditDetails [], false⟩
  pure (denialResult x msg.id denial.code denial.conditionType identity.2 [])

/-- The refusal of a killed session. -/
def DispatchParams.killDenied : Action (Option RpcMsg) := do
  match ← checkKill d.sessionID with
  | none => pure none
  | some deny => some <$> recordKillDenial x msg d.recorder deny (verifiedSession d.sessionID)

def DispatchParams.malformedDeny (reason : Bytes) : Action RpcMsg := do
  match ← d.killDenied x msg with
  | some resp => pure resp
  | none =>
    let identity := auditIdentity msg
    recordDeny d.recorder ⟨d.sessionID, identity.1, identity.2, codeInvalidRequest, [], [], false⟩
    pure (errorResponse msg.id jsonRPCCodeInvalidParams reason)

def isReservedDetailKey (name : Bytes) : Bool :=
  [truncatedKey, upstreamErrorCodeKey, effectReceiptKey, handlerFaultKey, unroutableKey,
    reservedArgumentsKey].contains name

/-- Arguments as details; those under a key of eunox's own are set apart. -/
def quarantineReservedArgs (args : Members) : AuditDetails :=
  let plain := args.filter fun arg => !isReservedDetailKey arg.1
  let quarantined := args.filter fun arg => isReservedDetailKey arg.1
  plain.map (fun arg => (arg.1, AuditDetail.value arg.2)) ++
    if quarantined.isEmpty then [] else [(reservedArgumentsKey, .arguments quarantined)]

def decidePoint (question : Question) : Action Verdict := consult (.decide d.sessionID d.sourceIP question)

/-- A decision, its turn given back, and the forward. -/
def DispatchParams.decideAndForward (question : Question) (id : CallIdentity) (recordObligations : Bool)
    (allowDetails : Verdict → UpstreamReply → AuditDetails) : Action RpcMsg := do
  let dec ← decidePoint d question
  d.finishDecision
  enforcedForwardCore x d.toForwardParams msg id dec recordObligations (allowDetails dec)

/-- The verdict on a receipt the upstream published with its result. -/
def DispatchParams.effectReceiptDetail (up : UpstreamReply) (dec : Verdict) (tool : Bytes) : AuditDetails :=
  if !d.receipts then []
  else match up.msg.result with
    | none => []
    | some result => ((x.effectReceipt result dec.effect tool).map fun receipt => (effectReceiptKey, receipt)).toList

/-- Arguments of the call, where the route or the decision only observes. -/
def DispatchParams.toolDetails (arguments : Members) (name : Bytes) (dec : Verdict) (up : UpstreamReply) :
    AuditDetails :=
  mergeAuditDetails (if d.audit || dec.auditOnly then quarantineReservedArgs arguments else [])
    (upstreamErrorDetail up ++ d.effectReceiptDetail x up dec name)

def dispatchToolsCall : Action RpcMsg :=
  match decodeToolCallParams x msg.params with
  | none => d.malformedDeny x msg (lit "invalid tools/call params")
  | some params =>
    if params.name.isEmpty then d.malformedDeny x msg (lit "tools/call: name must not be empty")
    else
      let arguments := params.arguments.getD []
      let decide (declared : Option (List Bytes)) : Action RpcMsg :=
        d.decideAndForward x msg (.tool params.name arguments declared d.audit)
          ⟨methodToolsCall, params.name, params.name, lit "tool"⟩ true (d.toolDetails x arguments params.name)
      if d.honorAttribution then
        match x.parseContextManifest params.metaBlock with
        | .error err => d.malformedDeny x msg (lit "tools/call: " ++ err)
        | .ok declared => decide declared
      else decide none

/-- The handlers of a resource, which differ in the question, the identity and whether
obligations are recorded. -/
def dispatchResource (method kind : Bytes) (question : Bytes → Question) (recordObligations : Bool) :
    Action RpcMsg :=
  match decodeResourceParams x msg.params with
  | none => d.malformedDeny x msg (lit "invalid " ++ method ++ lit " params")
  | some uri =>
    if uri.isEmpty then d.malformedDeny x msg (method ++ lit ": uri must not be empty")
    else d.decideAndForward x msg (question uri) ⟨method, uri, uri, kind⟩ recordObligations
      fun _ => upstreamErrorDetail

def dispatchResourcesRead : Action RpcMsg :=
  dispatchResource x d msg methodResourcesRead (lit "resource") (.resourceRead · d.audit) true

def dispatchResourcesSubscribe : Action RpcMsg :=
  dispatchResource x d msg methodResourcesSubscribe (lit "resource subscription")
    (.resourceRead · d.audit) false

def dispatchResourcesUnsubscribe : Action RpcMsg :=
  dispatchResource x d msg methodResourcesUnsubscribe (lit "resource subscription") .resourceCancel false

def dispatchPromptsGet : Action RpcMsg :=
  match decodePromptParams x msg.params with
  | none => d.malformedDeny x msg (lit "invalid prompts/get params")
  | some name =>
    if name.isEmpty then d.malformedDeny x msg (lit "prompts/get: name must not be empty")
    else d.decideAndForward x msg (.promptGet name d.audit)
      ⟨methodPromptsGet, lit "prompts/" ++ name, name, lit "prompt"⟩ true fun _ => upstreamErrorDetail

/-- What an allowed listing is recorded with. -/
def listAllowDetails (up : UpstreamReply) (upstreamCount filteredCount : ℤ) (observeMode : Bool) :
    AuditDetails :=
  [(lit "upstream_count", .number upstreamCount), (lit "filtered_count", .number filteredCount),
    (lit "suppressed_count", .number (upstreamCount - filteredCount))] ++
    (if observeMode then [(lit "observe_mode", .flag true)] else []) ++ upstreamErrorDetail up

/-- The listing the host gets, with the counts before and after the filter. -/
def DispatchParams.filterListing (up : UpstreamReply) : Action (UpstreamReply × ℤ × ℤ) :=
  match up.msg.result with
  | some result =>
    let complete := msg.method = methodToolsList && completeToolsListing x msg.params result
    if !d.audit then do
      let fr : ListFilterResult ← consult (.filterList msg.method d.sessionID result complete)
      pure ({ up with msg := { up.msg with result := some fr.result } }, fr.upstream, fr.kept)
    else if msg.method = methodToolsList then do
      let count : ℤ ← consult (.recordObservedToolHashes d.sessionID result complete)
      pure (up, count, count)
    else
      let count := if d.recorder then countListEntries msg.method result else 0
      pure (up, count, count)
  | none =>
    let count := if d.recorder then countListEntries msg.method [] else 0
    pure (up, count, count)

def dispatchList : Action RpcMsg := do
  let id := methodIdentity msg.method
  match ← d.strictAuditDenial x msg id {} with
  | some denied => pure denied
  | none =>
    if !d.callUpstream then d.refuseUpstreamless x msg id {}
    else
      match ← askUpstream msg with
      | .error err => d.recordUpstreamFailure msg id err []
      | .ok up =>
        if up.msg.error.isNone && up.msg.result.isNone then do
          warnIfStrictAuditJustDegraded d.requireAuditStrict d.recorder
            (recordDeny d.recorder (d.denyRecord id .enforcementError [] [] false))
          pure (errorResponse msg.id jsonRPCCodeInternalError
            (lit "upstream returned a malformed list response (no result and no error)"))
        else do
          let (up, upstreamCount, filteredCount) ← d.filterListing x msg up
          warnIfStrictAuditJustDegraded d.requireAuditStrict d.recorder (recordAllow d.recorder {
            sessionID := d.sessionID, identifier := id.auditID, method := id.method
            details := listAllowDetails up upstreamCount filteredCount d.audit
            obligs := [], auditOnly := d.audit, labelsOut := [], carriedLabels := [] })
          pure { up.msg with id := msg.id }

def dispatchInitialize : Action RpcMsg :=
  if !d.buildInit then pure (errorResponse msg.id jsonRPCCodeInternalError
    (lit "internal error: initialize responder not configured"))
  else consult (.buildInit msg)

def dispatchPing : RpcMsg := { id := msg.id, result := some (lit "\x7b\x7d") }

/-! Refusals of routing. -/

/-- The recorder a refusal of one category writes through. -/
structure RefusalRecorders where
  recorder : Bool
  /-- Whether a limiter bounds the categories that are not exempt. -/
  metered : Bool

def RefusalCategory.exempt : RefusalCategory → Bool
  | .unroutable | .smuggled => true
  | _ => false

/-- How many records were held back before this one; nothing where it is held back too,
or where there is no tape. -/
def RefusalRecorders.forCategory (r : RefusalRecorders) (category : RefusalCategory) : Action (Option ℕ) :=
  if !r.recorder then pure none
  else if !r.metered || category.exempt then pure (some 0)
  else consult (.admitRefusal category)

/-- The record of a refusal, with what was held back before it. -/
def recordRolledUp (suppressed : Option ℕ) (record : DenyRecord) : Action Unit :=
  match suppressed with
  | none => pure ()
  | some 0 => recordDeny true record
  | some n => recordDeny true { record with
      details := mergeAuditDetails record.details [(lit "suppressed_refusal_count", .number n),
        (lit "suppressed_refusal_scope", .text (lit "proxy_category"))] }

/-- A message no table routes: a denial through the core, which has no upstream here. -/
def refuseUnroutable (rev : Bytes) (fp : ForwardParams) (recs : RefusalRecorders) (subj : KillSubject)
    (msg : RpcMsg) : Action RpcMsg := do
  let msg := { msg with method := boundEnvelopeField msg.method }
  let sanitizedMethod := sanitizeAuditField msg.method
  let identity := auditIdentity msg
  let admitted ← recs.forCategory .unroutable
  let rev := resolveRevision rev
  let details := if admitted.isSome
    then subj.auditDetails (unroutableDetail rev (unroutableReason rev msg.method)) else []
  enforcedForwardCore x { fp with recorder := admitted.isSome, callUpstream := false } msg
    ⟨identity.2, identity.1, sanitizedMethod, lit "method"⟩
    { decision := lit "deny", denial := some { code := .unroutableMethod, details := details } }
    false fun _ => []

def dispatchUnmapped (rev : Bytes) : Action RpcMsg :=
  refuseUnroutable x rev d.toForwardParams ⟨d.recorder, d.limited⟩ (verifiedSession d.sessionID) msg

/-! The two framings. -/

def runHandler : MethodHandler → Action RpcMsg
  | .toolsCall => dispatchToolsCall x d msg
  | .resourcesRead => dispatchResourcesRead x d msg
  | .resourcesSubscribe => dispatchResourcesSubscribe x d msg
  | .resourcesUnsubscribe => dispatchResourcesUnsubscribe x d msg
  | .promptsGet => dispatchPromptsGet x d msg
  | .initResponder => dispatchInitialize d msg
  | .ping => pure (dispatchPing msg)
  | .list => dispatchList x d msg

/-- A request, under the revision of its context. -/
def dispatchRequest (rev : Bytes) : Action RpcMsg :=
  replyFor msg <$>
    match (tablesFor rev).request msg.method with
    | (some handler, true) => runHandler x d msg handler
    | (handler, _) => do
      match ← d.killDenied x msg with
      | some resp => pure resp
      | none =>
        match handler with
        | some handler => runHandler x d msg handler
        | none => dispatchUnmapped x d msg rev

structure HostNotificationGate where
  recorders : RefusalRecorders
  subject : KillSubject
  /-- The session the kill switch is asked about. -/
  killSession : Bytes
  established : Bool
  audit : Bool
  requireAuditStrict : Bool
  leg : Bytes

inductive NotificationOutcome where
  | swallowed | refused | forward
  deriving DecidableEq

def transportLegDetail (leg : Bytes) : AuditDetails :=
  if leg.isEmpty then [] else [(lit "transport", .text leg)]

def RpcMsg.isZero (m : RpcMsg) : Bool :=
  m.jsonrpc.isEmpty && m.id.isNone && m.method.isEmpty && m.params.isEmpty && m.result.isNone &&
    m.error.isNone

def recordKillDrop (suppressed : Option ℕ) (deny : Verdict) (subj : KillSubject) (leg : Bytes) :
    Action Unit :=
  let identity := if RpcMsg.isZero msg then ([], []) else auditIdentity msg
  let denial := normalizeDenial deny.denial
  recordRolledUp suppressed ⟨subj.verified, identity.1, identity.2, denial.code, denial.conditionType,
    subj.auditDetails (transportLegDetail leg), false⟩

/-- A notification, under the revision of its context. -/
def HostNotificationGate.admission (g : HostNotificationGate) (rev : Bytes) : Action NotificationOutcome := do
  let tables := tablesFor rev
  let disposition := tables.notifications msg.method
  if disposition = some .swallow && g.established then pure .swallowed
  else
    match ← checkKill g.killSession with
    | some kill =>
      let admitted ← g.recorders.forCategory .kill
      recordKillDrop msg admitted kill g.subject g.leg
      pure .refused
    | none =>
      if disposition = some .swallow then pure .swallowed
      else if tables.enforces msg.method then do
        let admitted ← g.recorders.forCategory .smuggled
        let identity := auditIdentity msg
        recordRolledUp admitted ⟨g.subject.verified, identity.1, identity.2, codeInvalidRequest, [],
          g.subject.auditDetails (transportLegDetail g.leg), false⟩
        pure .refused
      else if disposition = some .forward then pure .forward
      else do
        let fp : ForwardParams := ⟨false, g.audit, g.subject.verified, 0, false, false, g.requireAuditStrict⟩
        let _ ← refuseUnroutable x rev fp g.recorders g.subject msg
        pure .refused

end Dispatch
end Eunox.Transport
