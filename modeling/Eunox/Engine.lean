import Eunox.CompositeKey
import Eunox.CallCounterMemory
import Eunox.FlowLabelStore
import Eunox.Enforce

/-! The enforcement engine: what it is built from, the subject a request's
accumulated state accrues to, the keys that state lives under, and the writes a
decided call leaves in the two stores. A decision reads one clock. -/
namespace Eunox
open ByteString JsonValue CallCounter

/-- What a decision threads to its checks: its identity and instant, the
route's observe posture, and what the engine resolved for the call. -/
structure Context where
  requestID : Bytes
  timestamp : Bytes
  instant : ℤ
  skipQuota : Bool
  directives : List Directive
  effect : Option ResolvedEffect
  /-- The label snapshot, once one was threaded. -/
  carriedLabels : Option (List Bytes)

/-- `ConditionError` has the fields of a denial. -/
abbrev ConditionError := DenialInfo

/-- A refusal of a condition that reached no verdict. -/
def conditionFault (conditionType : Bytes) (message : Message) (details : Details := []) :
    ConditionError where
  code := .enforcementError
  conditionType := conditionType
  message := message
  blockOverride := false
  details := details

/-- What a committing handler prepared. A missing callback is a nil one, and a
callback may answer nil. -/
structure DeferredCommit where
  bucket : QuotaBucket
  deny : Option (Binary64 → ℤ → Option ConditionError)

def zeroBucket : QuotaBucket := ⟨[], 0, false, .ofNat 0, .ofNat 0⟩

def DeferredCommit.none : DeferredCommit := ⟨zeroBucket, Option.none⟩

def DeferredCommit.commits (d : DeferredCommit) : Bool := !d.bucket.key.isEmpty

def DeferredCommit.prepared (d : DeferredCommit) : Bool := d.bucket ≠ zeroBucket

/-- The three results of `PrepareCommit`. -/
structure Preparation where
  commit : DeferredCommit
  skip : Bool
  condErr : Option ConditionError

def Preparation.refuse (e : ConditionError) : Preparation := ⟨.none, false, some e⟩

/-- A registered condition handler. The built-in ones that read engine state
are named; any other is its function. -/
inductive Handler where
  /-- A nil handler. -/
  | absent
  | pure (handle : Context → Condition → EnforceRequest → Option ConditionError)
  | flowLabel
  | sequenceBlock
  | committing (prepareCommit : Context → Condition → EnforceRequest → Preparation)
  | maxCalls
  | blastRadius

inductive EngineSubsystem where
  | none | antecedentHistory | flowLabels
  | other (name : Bytes)
  deriving DecidableEq

def EngineSubsystem.modelled : EngineSubsystem → Bool
  | .antecedentHistory | .flowLabels => true
  | _ => false

def validSubsystemDeclaration (uses : List EngineSubsystem) : Bool :=
  if uses.isEmpty then false
  else if uses.contains .none then uses.length == 1
  else uses.all EngineSubsystem.modelled

/-- An invalid declaration depends on everything. -/
def declarationUsesSubsystem (uses : List EngineSubsystem) (s : EngineSubsystem) : Bool :=
  if !validSubsystemDeclaration uses then true else uses.contains s

/-- The subsystem declarations of the condition and directive prototypes. -/
def tokenSubsystems : List (Bytes × List EngineSubsystem) :=
  [(lit "timeWindow", [.none]), (lit "ipRange", [.none]), (lit "allowedOperations", [.none]),
    (lit "allowedExtensions", [.none]), (lit "allowedTables", [.none]),
    (conditionTypeMaxCalls, [.none]), (lit "recipientDomain", [.none]),
    (lit "allowedValues", [.none]), (conditionTypeSequenceBlock, [.antecedentHistory]),
    (conditionTypeFlowLabel, [.flowLabels]), (lit "effectClass", [.none]),
    (conditionTypeBlastRadius, [.none]), (lit "policy", [.antecedentHistory, .flowLabels]),
    (lit "custom", [.antecedentHistory, .flowLabels]), (directiveTypeRedactFields, [.none]),
    (directiveTypeLabelOutput, [.flowLabels])]

def tokenUsesEngineSubsystem (token : Bytes) (s : EngineSubsystem) : Bool :=
  match tokenSubsystems.lookup token with
  | none => true
  | some uses => declarationUsesSubsystem uses s

/-- A handler with the declaration it answers the subsystem gates from: its own
where it makes one, the registry's otherwise. -/
structure RegisteredHandler where
  handler : Handler
  uses : List EngineSubsystem

def RegisteredHandler.dependsOn (h : RegisteredHandler) (s : EngineSubsystem) : Bool :=
  declarationUsesSubsystem h.uses s

structure EffectCeiling where
  maxEffectClass : Bytes
  maxBlastRadius : Option Number
  requireCompensation : Bool
  onExceed : Bytes

structure Engine where
  handlers : Bytes → Option RegisteredHandler
  /-- `none` when the policy's tokens were never declared. -/
  policyTokens : Option (List Bytes)
  effectCeiling : Option EffectCeiling
  counterKeyNamespace : Bytes
  taskAnchored : Bool
  /-- Whether a call counter is wired. -/
  counterWired : Bool
  /-- Whether a flow-label store is wired. -/
  flowWired : Bool

/-- The built-in registry over the handlers that keep no state of the engine. That of `policy` answers for the
wired evaluator: `policyUses` is what the evaluator declares, nothing where none is wired or it does not say. The
evaluator is taken to be honest: it reads no store of the engine, so that its handler is a function of the call. -/
def registerBuiltins (policyUses : List EngineSubsystem)
    (stateless : Bytes → Option (Context → Condition → EnforceRequest → Option ConditionError)) :
    Bytes → Option RegisteredHandler := fun token =>
  let uses := if token = lit "policy" then policyUses else (tokenSubsystems.lookup token).getD []
  if token = conditionTypeFlowLabel then some ⟨.flowLabel, uses⟩
  else if token = conditionTypeSequenceBlock then some ⟨.sequenceBlock, uses⟩
  else if token = conditionTypeMaxCalls then some ⟨.maxCalls, uses⟩
  else if token = conditionTypeBlastRadius then some ⟨.blastRadius, uses⟩
  else (stateless token).map fun handle => ⟨.pure handle, uses⟩

/-- Whom the built-in registry holds, and under which token those that read a subsystem. -/
theorem registerBuiltins_cases (found : registerBuiltins policyUses stateless token = some registered) :
    registered.uses = (if token = lit "policy" then policyUses else (tokenSubsystems.lookup token).getD []) ∧
      (registered.handler = .flowLabel ∧ token = conditionTypeFlowLabel ∨
        registered.handler = .sequenceBlock ∧ token = conditionTypeSequenceBlock ∨
        registered.handler = .maxCalls ∨ registered.handler = .blastRadius ∨
        ∃ handle, stateless token = some handle ∧ registered.handler = .pure handle) := by
  unfold registerBuiltins at found
  dsimp only at found
  generalize (if token = lit "policy" then policyUses else (tokenSubsystems.lookup token).getD []) = uses at found ⊢
  split_ifs at found with flow sequence
  · cases found
    exact ⟨rfl, .inl ⟨rfl, flow⟩⟩
  · cases found
    exact ⟨rfl, .inr (.inl ⟨rfl, sequence⟩)⟩
  · cases found
    exact ⟨rfl, .inr (.inr (.inl rfl))⟩
  · cases found
    exact ⟨rfl, .inr (.inr (.inr (.inl rfl)))⟩
  · obtain ⟨handle, held, rfl⟩ := Option.map_eq_some_iff.mp found
    exact ⟨rfl, .inr (.inr (.inr (.inr ⟨handle, held, rfl⟩)))⟩

variable (e : Engine) (req : EnforceRequest)

def Engine.policyUses (s : EngineSubsystem) : Bool :=
  match e.policyTokens with
  | none => true
  | some tokens => tokens.any fun token =>
    match e.handlers token with
    | some h => h.dependsOn s
    | none => tokenUsesEngineSubsystem token s

def Engine.skipAntecedentRecording : Bool := !e.policyUses .antecedentHistory

def Engine.skipFlow : Bool := !e.policyUses .flowLabels

/-- The stores behind the engine's two seams, and whether one of their
operations has returned an error. -/
structure World where
  counter : InMemory
  flowStore : FlowLabelStore.InMemory
  faulted : Bool

/-! Anchors and keys. -/

inductive AnchorKind where
  | session | task
  deriving DecidableEq

structure StateAnchor where
  kind : AnchorKind
  id : Bytes
  deriving DecidableEq

/-- The claim each task variable reads. -/
def taskVarClaims : List (Bytes × Bytes) :=
  [(lit "task.id", lit "task_id"), (lit "task.agent", lit "agent_id"),
    (lit "task.principal", lit "sub")]

def resolveTaskVar (name : Bytes) (claims : Members) : Option Bytes :=
  match taskVarClaims.lookup name with
  | none => none
  | some key =>
    match claims.lookup key with
    | some (.string s) => if (trimSpace s).isEmpty then none else some s
    | _ => none

def resolveStateAnchor (taskAnchored : Bool) (task : Option Bytes) (sessionID : Bytes) :
    StateAnchor :=
  match taskAnchored, task with
  | true, some id => ⟨.task, id⟩
  | _, _ => ⟨.session, sessionID⟩

def Engine.resolveAnchor : StateAnchor :=
  resolveStateAnchor e.taskAnchored
    (if e.taskAnchored then resolveTaskVar (lit "task.id") req.claims else none) req.sessionID

/-- A token was presented, but names no task to anchor on. -/
def Engine.anchorUnresolved : Bool :=
  e.taskAnchored && !req.claims.isEmpty && (resolveTaskVar (lit "task.id") req.claims).isNone

/-- The session form carries no kind. -/
def StateAnchor.components (a : StateAnchor) : List Bytes :=
  match a.kind with
  | .task => [lit "task", a.id]
  | .session => [a.id]

def Engine.anchoredKey (tag : Bytes) (req : EnforceRequest) (tail : List Bytes) :
    Bytes :=
  compositeKeyJoin tag (e.counterKeyNamespace :: (e.resolveAnchor req).components) tail

def Engine.flowKey : Bytes := e.anchoredKey (lit "flow") req []

def Engine.sequenceHistoryKey (targetType target : Bytes) :
    Bytes :=
  e.anchoredKey (lit "seq") req [targetType, target]

variable (instant : ℤ) (req : EnforceRequest) (s : Bytes)

def isTargetType : Bool := [lit "tool", lit "resource", lit "prompt", lit "system"].contains s

def splitEnginePrefix : Bytes × Bytes :=
  match cut 58 s with
  | some (targetType, bare) => if isTargetType targetType then (targetType, bare) else (lit "tool", s)
  | none => (lit "tool", s)

theorem isTargetType_plain (known : isTargetType targetType = true) : (58 : UInt8) ∉ targetType := by
  simp only [isTargetType, List.contains_iff_mem, List.mem_cons, List.not_mem_nil, or_false] at known
  rcases known with rfl | rfl | rfl | rfl <;> decide

theorem splitEnginePrefix_join (known : isTargetType targetType = true) (name : Bytes) :
    splitEnginePrefix (targetType ++ 58 :: name) = (targetType, name) := by
  have found : cut 58 (targetType ++ 58 :: name) = some (targetType, name) :=
    cut_eq_some.mpr ⟨rfl, isTargetType_plain known⟩
  simp [splitEnginePrefix, found, known]

def stripEnginePrefix : Bytes := (splitEnginePrefix s).2

def sessionTargetName : Bytes :=
  match req.target with
  | some target =>
    let n := trimSpace target.name
    if n.isEmpty then trimSpace (stripEnginePrefix req.targetName) else n
  | none => trimSpace (stripEnginePrefix req.targetName)

def sessionTargetKey : Bytes × Bytes :=
  let targetType := match req.target with
    | some target => if target.type.isEmpty then (splitEnginePrefix req.targetName).1 else target.type
    | none => (splitEnginePrefix req.targetName).1
  (targetType, sessionTargetName req)

/-! What a call leaves in the stores. -/

def sequenceHistoryWindowSec : ℤ := 86400
def sequenceHistoryMaxEntries : ℤ := 1

/-- The first label on neither axis. -/
def firstUnusable : List Bytes → Option Message
  | [] => none
  | label :: rest =>
    match validateFlowLabel label with
    | .error e => some e
    | .ok () => firstUnusable rest

/-- The anchor's accumulated labels. -/
def Engine.peekSessionLabels (w : World) : Except Message (List Bytes) × World :=
  if e.skipFlow || !e.flowWired || (e.resolveAnchor req).id.isEmpty then (.ok [], w)
  else
    let (present, store) := w.flowStore.get instant (e.flowKey req)
    match firstUnusable present with
    | some e => (.error ([.text
        "session flow-label store holds a label this build cannot interpret ("] ++ e ++
        [.text "); refusing to evaluate an information-flow policy against it"]),
        { w with flowStore := store })
    | none => (.ok (normalizeFlowLabels present), { w with flowStore := store })

/-- The labels a constraint's `labelOutput` directives assert. -/
def outputLabels (directives : List Directive) : List Bytes :=
  directives.flatMap fun
    | .labelOutput labels => labels
    | _ => []

/-- Unions the call's asserted labels into its anchor's set. -/
def Engine.recordLabels (matched : Constraint) (w : World) : Except Message (List Bytes) × World :=
  if e.skipFlow then (.ok [], w)
  else match firstUnusable (outputLabels matched.directives) with
    | some e => (.error ([.text "labelOutput: "] ++ e), w)
    | none =>
      if (outputLabels matched.directives).isEmpty then (.ok [], w)
      else if !e.flowWired then
        (.error [.text "flow label store not configured; flow labels cannot be recorded"], w)
      else if (e.resolveAnchor req).id.isEmpty then
        (.error [.text "sessionId is required to record flow labels"], w)
      else
        let out := normalizeFlowLabels (outputLabels matched.directives)
        match w.flowStore.add instant (e.flowKey req) out with
        | (.error e, store) => (.error e, { w with flowStore := store, faulted := true })
        | (.ok (), store) => (.ok out, { w with flowStore := store })

/-- One marker of the sequence history. -/
def Engine.recordMarker (targetType target : Bytes) (w : World) : Except Message Unit × World :=
  match incrementAndGet w.counter instant (e.sequenceHistoryKey req targetType target)
      sequenceHistoryWindowSec sequenceHistoryMaxEntries with
  | (.error err, counter) => (.error [.counterError err], { w with counter := counter, faulted := true })
  | (.ok _, counter) => (.ok (), { w with counter := counter })

def errUnanchorableStateWrite : Message :=
  [.text ("this route anchors enforcement state on the task, but the presented token carries no " ++
    "mcp.task_id; refusing to record this call against a second, session-keyed bucket " ++
    "(fail closed)")]

/-- Notes an allowed call for later `sequenceBlock` conditions. A name that
starts with a target type is also noted under the key its bare spelling parses
to, before the verbatim one. -/
def Engine.recordSessionCall (w : World) : Except Message Unit × World :=
  if e.skipAntecedentRecording || !e.counterWired then (.ok (), w)
  else if e.anchorUnresolved req then (.error errUnanchorableStateWrite, w)
  else if (e.resolveAnchor req).id.isEmpty then (.ok (), w)
  else
    let (targetType, tool) := sessionTargetKey req
    if tool.isEmpty then (.ok (), w)
    else
      let (altType, altName) := splitEnginePrefix tool
      if altName ≠ tool then
        match e.recordMarker instant req altType altName w with
        | (.error err, w) => (.error err, w)
        | (.ok (), w) => e.recordMarker instant req targetType tool w
      else e.recordMarker instant req targetType tool w

/-- Which of the two namespaces a commit writes. -/
structure SourceCommitScope where
  flow : Bool
  antecedent : Bool

structure SourceCommitError where
  err : Message
  flow : Bool

/-- The labels of `out` that were not carried before the call. -/
def labelsAdded (out carried : List Bytes) : List Bytes := out.filter fun l => !carried.contains l

/-- Takes back the labels a faulted call added; never for a task's set, which
another caller may be writing. -/
def Engine.rollbackLabels (added : List Bytes) (w : World) : World :=
  if !e.flowWired || (e.resolveAnchor req).id.isEmpty || added.isEmpty then w
  else if (e.resolveAnchor req).kind = .task then w
  else { w with flowStore := w.flowStore.remove instant (e.flowKey req) added }

def Engine.recordAntecedentIn (scope : SourceCommitScope)
    (req : EnforceRequest) (w : World) : Except Message Unit × World :=
  if scope.antecedent then e.recordSessionCall instant req w else (.ok (), w)

/-- Commits a call's flow labels and its marker as one unit: labels first, and
back out when the marker fails. -/
def Engine.recordSourceCall
    (matched : Constraint) (scope : SourceCommitScope) (carriedLabels : List Bytes) (w : World) :
    Except SourceCommitError (List Bytes) × World :=
  if e.anchorUnresolved req then (.error ⟨errUnanchorableStateWrite, scope.flow⟩, w)
  else
    match if scope.flow then e.recordLabels instant req matched w else (.ok [], w) with
    | (.error err, w) => (.error ⟨err, true⟩, w)
    | (.ok labelsOut, w) =>
      match e.recordAntecedentIn instant scope req w with
      | (.error err, w) =>
        (.error ⟨err, false⟩,
          e.rollbackLabels instant req (labelsAdded labelsOut carriedLabels) w)
      | (.ok (), w) => (.ok labelsOut, w)

end Eunox
