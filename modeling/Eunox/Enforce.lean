import Eunox.FlowLabel
import Eunox.Json

/-! The request, policy and response data of a decision, package `capability`.
An effect contract is what it resolves a call's arguments to, and an argument
schema is the check it makes of them; a number of a policy stands beside the
value its literal parses to. -/
namespace Eunox
open ByteString JsonValue

/-- A call's arguments, and a token's claims. -/
abbrev Members := List (Bytes × Json)

def conditionTypeFlowLabel : Bytes := lit "flowLabel"
def conditionTypeSequenceBlock : Bytes := lit "sequenceBlock"
def conditionTypeMaxCalls : Bytes := lit "maxCalls"
def conditionTypeBlastRadius : Bytes := lit "blastRadius"
def directiveTypeLabelOutput : Bytes := lit "labelOutput"
def directiveTypeRedactFields : Bytes := lit "redactFields"

/-- A number of a policy; `none` for a literal that is not read as a number. -/
structure Number where
  literal : Bytes
  value : Option ℚ
  deriving DecidableEq

/-- `Condition`. A nil pointer boxed in the interface is kept apart from a nil
interface; of it only whether it points to a flow-label condition is asked. -/
inductive Condition where
  | null
  | typedNil (isFlowLabel : Bool)
  | flowLabel (allow : List Bytes)
  | sequenceBlock (afterTools : List Bytes)
  | maxCalls (count windowSeconds : ℤ)
  | blastRadius (max maxTotal : Option Number) (windowSeconds : ℤ)
  /-- Any other type, known by its discriminator. -/
  | other (conditionType : Bytes) (payload : Json)

def Condition.conditionType : Condition → Bytes
  | .null | .typedNil _ => []
  | .flowLabel _ => conditionTypeFlowLabel
  | .sequenceBlock _ => conditionTypeSequenceBlock
  | .maxCalls _ _ => conditionTypeMaxCalls
  | .blastRadius _ _ _ => conditionTypeBlastRadius
  | .other conditionType _ => conditionType

/-- `cond == nil || isTypedNil(cond)`. -/
def Condition.isNil : Condition → Bool
  | .null | .typedNil _ => true
  | _ => false

structure Obligation where
  type : Bytes
  paths : List Bytes
  deriving DecidableEq

inductive Directive where
  | null
  | typedNil (isLabelOutput : Bool)
  | labelOutput (labels : List Bytes)
  | redactFields (fields : List Bytes)
  | other (goType directiveType : Bytes) (obligation : Obligation)

def Directive.directiveType : Directive → Bytes
  | .null | .typedNil _ => []
  | .labelOutput _ => directiveTypeLabelOutput
  | .redactFields _ => directiveTypeRedactFields
  | .other _ directiveType _ => directiveType

def Directive.isNil : Directive → Bool
  | .null | .typedNil _ => true
  | _ => false

def Directive.toObligation : Directive → Obligation
  | .null | .typedNil _ => ⟨[], []⟩
  | .labelOutput _ => ⟨directiveTypeLabelOutput, []⟩
  | .redactFields fields => ⟨directiveTypeRedactFields, fields⟩
  | .other _ _ obligation => obligation

/-- What a call does, reduced against its arguments. -/
structure ResolvedEffect where
  effectClass : Bytes
  idempotent : Bool
  compensatingAction : Bytes
  /-- `none` when the size of the effect is not established. -/
  blastRadius : Option ℚ
  unit : Bytes
  ref : Bytes
  annotated : Bool
  deriving DecidableEq

/-- The resolution of a target without a contract. -/
def unannotatedEffect : ResolvedEffect where
  effectClass := lit "irreversible"
  idempotent := false
  compensatingAction := []
  blastRadius := none
  unit := []
  ref := []
  annotated := false

abbrev EffectContract := Members → ResolvedEffect

def resolveEffect : Option EffectContract → Members → ResolvedEffect
  | none, _ => unannotatedEffect
  | some contract, arguments => contract arguments

structure Constraint where
  target : Bytes
  actions : List Bytes
  enforcement : Bytes
  argumentSchema : Option (Members → Except Message Unit)
  principal : List (Bytes × List Bytes)
  effect : Option EffectContract
  conditions : List Condition
  directives : List Directive

def Constraint.isAuditOnly (c : Constraint) : Bool := c.enforcement == lit "audit"

def isFlowLabelCondition : Condition → Bool
  | .typedNil isFlowLabel => isFlowLabel
  | .flowLabel _ => true
  | _ => false

def isLabelOutputDirective : Directive → Bool
  | .typedNil isLabelOutput => isLabelOutput
  | .labelOutput _ => true
  | _ => false

def constraintHasFlow (c : Constraint) : Bool :=
  c.conditions.any isFlowLabelCondition || c.directives.any isLabelOutputDirective

structure RequestTarget where
  type : Bytes
  name : Bytes

structure EnforceRequest where
  sessionID : Bytes
  targetName : Bytes
  arguments : Members
  sourceIP : Bytes
  target : Option RequestTarget
  claims : Members
  declaredLabels : List Bytes

/-- Denial codes; an embedder's handler may report one of its own. -/
inductive DenialCode where
  | authorizationFailed | capabilityDenied | invalidParams | conditionFailed | killSwitch
  | killSwitchError | missingContext | rateLimited | noJWTClaims | operationNotPermitted
  | valueNotPermitted | enforcementError | auditUnavailable | samplingDenied
  | escalationRequired | unsupportedProtocolVersion | unroutableMethod
  | untranslatableAcrossRevisions | headerMismatch
  | other (code : Bytes)
  deriving DecidableEq

inductive DenialClass where
  | policy | revocation | fault
  deriving DecidableEq

def classifyDenialCode : DenialCode → DenialClass
  | .killSwitch | .killSwitchError => .revocation
  | .enforcementError | .auditUnavailable => .fault
  | .unsupportedProtocolVersion | .unroutableMethod | .untranslatableAcrossRevisions => .fault
  | .headerMismatch => .fault
  | _ => .policy

/-- A value of a denial's details. -/
inductive Detail where
  | flag (b : Bool)
  | text (m : Message)
  | strings (items : List Bytes)
  | int (n : ℤ)
  | double (x : Binary64)
  deriving DecidableEq

abbrev Details := List (String × Detail)

structure DenialInfo where
  code : DenialCode
  conditionType : Bytes
  message : Message
  blockOverride : Bool
  details : Details
  deriving DecidableEq

/-- Whether an observing route may forward the call this refuses. -/
def DenialInfo.downgradable (d : DenialInfo) : Bool := !d.blockOverride && classifyDenialCode d.code == .policy

inductive Decision where
  | allow | deny | escalate
  deriving DecidableEq

def handlerContractQuotaUnderSkip : Bytes := lit "quota_bucket_under_skip_quota"

/-- A handler, by its type, that derived a bucket while quotas are skipped. -/
structure HandlerFault where
  type : Bytes
  contract : Bytes
  deriving DecidableEq

structure EnforceResponse where
  requestID : Bytes
  decision : Decision
  auditOnly : Bool
  obligations : List Obligation
  denial : Option DenialInfo
  decidedAt : Bytes
  labelsOut : List Bytes
  carriedLabels : List Bytes
  effect : Option ResolvedEffect
  handlerFaults : List HandlerFault
  deriving DecidableEq

end Eunox
