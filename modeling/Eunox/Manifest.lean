import Eunox.CapabilityMatch

/-! Policy manifests and when one is accepted, package `config`. What a single
condition, directive, effect or argument schema must satisfy is left to the rules
a manifest is checked under. -/
namespace Eunox
open ByteString JsonValue PathPattern

/-! Targets. -/

def globMetaChars : Bytes := lit "*?[\\"

def containsGlobMeta (s : Bytes) : Bool := s.any globMetaChars.contains

def parseTarget (s : Bytes) : Except Message (Bytes × Bytes) :=
  match cut 58 s with
  | none => .error [.text "target ", .quoted s,
      .text " must begin with a namespace prefix (tool:, resource:, prompt:, or system:)"]
  | some (targetType, bare) =>
    if !isTargetType targetType then
      .error [.text "target ", .quoted s, .text " has unrecognized namespace prefix ", .quoted targetType,
        .text " — valid prefixes are: tool, resource, prompt, system"]
    else if bare.isEmpty then
      .error [.text "target ", .quoted s, .text " must have a non-empty name after the namespace prefix"]
    else .ok (targetType, bare)

/-- The type and the bare pattern of a target that parses. -/
def parsedTarget (s : Bytes) : Option (Bytes × Bytes) := (parseTarget s).toOption

/-! Entries. -/

/-- An argument schema as it is written. -/
inductive ArgumentSchema where
  | schema (type : Bytes) (types : List Bytes) (properties : List (Bytes × Option ArgumentSchema))
      (required : List Bytes) (additionalProperties : Option Bool) (keywords : Members)

/-- A capability of a manifest. The schema as it is written stands beside the check it makes. -/
structure ManifestEntry extends Constraint where
  descriptionHash : Bytes
  schema : Option ArgumentSchema

def ManifestEntry.isExactTool (c : ManifestEntry) : Bool :=
  match parsedTarget c.target with
  | some (targetType, name) => targetType == lit "tool" && !containsGlobMeta name
  | none => false

def ManifestEntry.isPinnedExactTool (c : ManifestEntry) : Bool := !c.descriptionHash.isEmpty && c.isExactTool

deriving instance DecidableEq for EffectCeiling

structure LocalManifest where
  schemaVersion : Bytes := []
  name : Bytes := []
  version : Bytes := []
  description : Bytes := []
  serverVersion : Bytes := []
  capabilities : List ManifestEntry := []
  audience : Bytes := []
  effectCeiling : Option EffectCeiling := none
  flowLabelNamespaces : List Bytes := []

/-- What a check of one token reads of the manifest around it. -/
structure ManifestScope where
  schemaVersion : Bytes
  flowNamespaces : Bytes → Bool

/-- The checks of single tokens, some twenty validators that each look at one token: what is proved of manifests holds
whatever they are. An error names the capability, and the condition or directive, by position; whether there is one
does not turn on it. -/
structure ManifestRules where
  effectCeiling : EffectCeiling → Option Message
  /-- `conditionValidators`, and the condition's own `Compile`. -/
  condition : ManifestScope → Condition → Option (ℕ → ℕ → Message)
  /-- `directiveValidators`, given the target and its type. -/
  directive : ManifestScope → Bytes → Bytes → Directive → Option (ℕ → ℕ → Message)
  /-- `CompileSchemaPatterns` and `validateArgumentSchemaConsistency`. -/
  argumentSchema : ArgumentSchema → Option (ℕ → Message)
  effectContract : ManifestEntry → Option (ℕ → Message)
  /-- The tokens of one capability against the declared revision. -/
  tokenRevision : Bytes → ManifestEntry → Option (ℕ → Message)

/-! Checks. A check is its error, or nothing. -/

def check (failed : Bool) (error : Message) : Option Message := if failed then some error else none

/-- The first error among checks made in order. -/
def firstError (checks : List (Option Message)) : Option Message := checks.findSome? id

theorem firstError_none : firstError checks = none ↔ ∀ result ∈ checks, result = none := by
  simp [firstError]

@[simp] theorem check_none : check failed error = none ↔ failed = false := by
  cases failed <;> simp [check]

def atCapability (i : ℕ) (body : Message) : Message := .text "capability at index " :: .int i :: .text ": " :: body

def isAlphanumeric (byte : UInt8) : Bool := isDigit byte || (65 ≤ byte && byte ≤ 90) || (97 ≤ byte && byte ≤ 122)

/-- A number of a version: no leading zero. -/
def versionNumber (s : Bytes) : Bool := s == [48] || (!s.isEmpty && s.all isDigit && s.head? != some 48)

/-- `semverRe`. -/
def isSemver (s : Bytes) : Bool := (s.splitOn 46).length == 3 && (s.splitOn 46).all versionNumber

/-- `serverVersionPinRe`. -/
def isServerVersionPin (s : Bytes) : Bool :=
  match s with
  | [] => false
  | first :: rest =>
    (isAlphanumeric first || first == 42) &&
      rest.all fun byte => isAlphanumeric byte || (lit ".*+_-").contains byte

def isBareWildcardTarget (bare : Bytes) : Bool := bare.all (lit "*?").contains && bare.contains 42

/-- The text before and after the first occurrence. -/
def cutText (separator : Bytes) : Bytes → Option (Bytes × Bytes)
  | [] => if separator.isEmpty then some ([], []) else none
  | byte :: rest =>
    match cutPrefix separator (byte :: rest) with
    | some after => some ([], after)
    | none => (cutText separator rest).map fun parts => (byte :: parts.1, parts.2)

def resourceOpaqueURIWildcard (bare : Bytes) : Bool :=
  match cut 58 bare with
  | none | some ([], _) => false
  | some (_, rest) => !(lit "//").isPrefixOf rest && containsGlobMeta rest

def resourceWildcardsSchemeOrAuthority (pattern : Bytes) : Bool :=
  match cutText (lit "://") pattern with
  | none =>
    match cut 58 pattern with
    | none | some ([], _) => false
    | some (scheme, _) => containsGlobMeta scheme
  | some (scheme, rest) =>
    containsGlobMeta scheme || containsGlobMeta (rest.takeWhile fun byte => !(lit "/?#").contains byte)

def validateTargetPatternBreadth (targetType bare target : Bytes) : Option Message :=
  if targetType = lit "tool" then
    check (isBareWildcardTarget bare) [.text "target ", .quoted target,
      .text (" is too broad: a bare tool wildcard (tool:* or tool:**) is rejected; use a narrower tool " ++
        "glob or list tools explicitly")]
  else if targetType = lit "resource" then
    firstError [
      check (isBareWildcardTarget bare) [.text "target ", .quoted target,
        .text (" is too broad: a bare resource wildcard (resource:* or resource:**) is rejected; scope the target to a " ++
          "concrete URI scheme, authority, or path")],
      check (resourceWildcardsSchemeOrAuthority bare) [.text "target ", .quoted target,
        .text (" is too broad: resource wildcards are not allowed in the URI scheme or authority; use a concrete " ++
          "scheme and authority, then put globs in the path")],
      check (resourceOpaqueURIWildcard bare) [.text "target ", .quoted target,
        .text (" is invalid: wildcards in an opaque (non-hierarchical) URI such as urn: or mailto: are rejected; " ++
          "opaque URIs match by exact equality only")]]
  else if targetType = lit "system" then
    check (containsGlobMeta bare) [.text "target ", .quoted target,
      .text " is invalid: system: targets are fixed identifiers and do not allow glob metacharacters"]
  else none

/-- A pattern the matcher cannot read. -/
def invalidPattern (pattern : Bytes) : Bool := (pathMatch pattern []).isNone

def validateResourcePattern (bare : Bytes) : Option Message :=
  check (invalidPattern bare) [.text "enforcement: invalid resource pattern ", .quoted bare,
    .text ": syntax error in pattern"]

def validateActionForTargetType (targetType action : Bytes) : Option Message :=
  check (!(validActionsFor targetType).contains action) [.text "invalid action ", .quoted action,
    .text " for target type ", .quoted targetType, .text " — valid actions are ",
    .listed (validActionsFor targetType)]

/-! Single fields. -/

def validateServerVersion (pin : Bytes) : Option Message :=
  if pin.isEmpty then none
  else firstError [
    check (!isServerVersionPin pin) [.text ("'serverVersion' is a dot-separated version pin with '*' wildcards (e.g. " ++
      "\"1.2.3\", \"1.2.*\", \"*\"), not a semver range; comparison/range operators (>=, >, <=, ~, ^, ||) are not " ++
      "supported and would never match, got "),
      .quoted pin],
    (pin.splitOn 46).findSome? fun part => firstError [
      check part.isEmpty [.text ("'serverVersion' has an empty dot-component (e.g. \"1.2.\" or \"1..2\"); it can never " ++
        "match a real server version, got "),
        .quoted pin],
      check (part.contains 42 && part != [42]) [.text ("'serverVersion' wildcard must be a whole dot-component (e.g. " ++
        "\"1.2.*\", not \"1.2*\"); component "),
        .quoted part, .text " mixes a literal with '*' and would never match, got ", .quoted pin]]]

def validateAudience (audience : Bytes) : Option Message :=
  if audience.isEmpty then none
  else firstError [
    check (trimSpace audience).isEmpty [.text ("'audience' is whitespace-only; the audience is matched verbatim " ++
      "against a token's 'aud' claim, so it would never match and would silently deny every call — set a real audience " ++
      "or remove the field")],
    check (audience != trimSpace audience) [.text "'audience' ", .quoted audience,
      .text (" has leading or trailing whitespace; the audience is matched verbatim against a token's 'aud' claim, so " ++
        "this value would never match and would silently deny every call — remove the surrounding whitespace")]]

/-- Each declared once, and well formed. -/
def validateFlowLabelNamespaces : List Bytes → List Bytes → Option Message
  | _, [] => none
  | seen, ns :: rest =>
    match validateFlowLabelNamespace ns with
    | .error err => some (.text "flowLabelNamespaces: " :: err)
    | .ok () =>
      if seen.contains ns then some [.text "flowLabelNamespaces declares ", .quoted ns, .text " twice"]
      else validateFlowLabelNamespaces (ns :: seen) rest

/-- The values `enforcement` may take on a target of this type. -/
def validateEnforcement (enforcement targetType : Bytes) : Option Message :=
  if enforcement.isEmpty || enforcement == lit "enforce" then none
  else if enforcement == lit "audit" then
    check (targetType == lit "system") [.text "enforcement ", .quoted enforcement,
      .text " is not supported on a system: target (the sampling opt-in is binary)"]
  else some [.text "invalid enforcement ", .quoted enforcement, .text " — valid values are ",
    .quoted (lit "enforce"), .text " or ", .quoted (lit "audit")]

def validateDescriptionHashFormat (s : Bytes) : Option Message :=
  let hexPart := s.drop 7
  firstError [
    check (!(lit "sha256:").isPrefixOf s) [.text "descriptionHash ", .quoted s, .text " must start with ",
      .quoted (lit "sha256:")],
    check (hexPart.length != 64) [.text "descriptionHash ", .quoted s,
      .text ": hex part must be exactly 64 characters (got ", .int hexPart.length, .text ")"],
    check (!hexPart.all isHex)
      [.text "descriptionHash ", .quoted s, .text ": hex part is not valid hex"],
    check (hexPart.any fun byte => 65 ≤ byte && byte ≤ 90) [.text "descriptionHash ", .quoted s,
      .text ": hex part must be lowercase"]]

def supportedPrincipalClaims : List Bytes := [lit "agent_id", lit "iss", lit "sub", lit "task_id"]

def validatePrincipal (principal : List (Bytes × List Bytes)) : Option Message :=
  principal.findSome? fun (claimName, patterns) => firstError [
    check (!supportedPrincipalClaims.contains claimName) [.text "principal claim ", .quoted claimName,
      .text " is not supported — valid claims are agent_id, iss, sub, task_id"],
    check patterns.isEmpty [.text "principal claim ", .quoted claimName,
      .text " must list at least one allowed value"],
    patterns.findSome? fun p => firstError [
      check (trimSpace p).isEmpty [.text "principal claim ", .quoted claimName, .text " has an empty value"],
      check (invalidPattern p) [.text "principal claim ", .quoted claimName, .text " has an invalid pattern ",
        .quoted p, .text ": syntax error in pattern"]]]

/-! Capabilities. -/

/-- The pin an entry sets for its tool. -/
def ManifestEntry.pin (c : ManifestEntry) : List (Bytes × Bytes) :=
  if c.descriptionHash.isEmpty then []
  else ((parsedTarget c.target).map fun target => (target.2, c.descriptionHash)).toList

/-- The checks of a pin, against those of earlier entries. -/
def validateDescriptionHash (targetType bare : Bytes) (c : ManifestEntry) (pins : List (Bytes × Bytes)) :
    Option Message :=
  if c.descriptionHash.isEmpty then none
  else firstError [
    check (targetType != lit "tool") [.text ("descriptionHash is only supported on tool: targets (FM-5 startup " ++
      "verification fetches tools/list; resource: and prompt: descriptions are not verified at startup)")],
    check (containsGlobMeta bare) [.text "descriptionHash cannot be set on glob target ", .quoted c.target,
      .text (" — a single hash cannot represent the description of every tool the glob matches; use exact-name entries " ++
        "with --pin-descriptions")],
    validateDescriptionHashFormat c.descriptionHash,
    (pins.lookup bare).bind fun prev => check (prev != c.descriptionHash)
      [.text "conflicting descriptionHash pins for tool ", .quoted bare, .text " — ", .quoted prev,
        .text " and ", .quoted c.descriptionHash,
        .text "; a tool cannot be pinned to two different descriptions, so remove or reconcile one of the entries"]]

/-- A list of tokens, none of them null, each checked in turn. -/
def validateTokens {α : Type} (isNull isTypedNil : α → Bool) (kind : String) (i : ℕ)
    (rule : α → Option (ℕ → ℕ → Message)) (tokens : List α) : Option Message :=
  tokens.zipIdx.findSome? fun (token, j) => firstError [
    check (isNull token) [.text "capability at index ", .int i, .text (", " ++ kind ++ " "), .int j,
      .text (": a null " ++ kind ++ " is not permitted; every " ++ kind ++ "s entry must be a typed " ++ kind ++ " object")],
    check (isTypedNil token) [.text "capability at index ", .int i, .text (", " ++ kind ++ " "), .int j,
      .text (": a typed-nil " ++ kind ++ " is not permitted; every " ++ kind ++ "s entry must be a typed " ++ kind ++ " object")],
    (rule token).map fun error => error i j]

def Condition.isNull : Condition → Bool
  | .null => true
  | _ => false

def Directive.isNull : Directive → Bool
  | .null => true
  | _ => false

section Rules
variable (r : ManifestRules)

def validateSchema (scope : Bytes × Bytes) (i : ℕ) (c : ManifestEntry) : Option Message :=
  match c.schema with
  | none => none
  | some schema => firstError [
      check (scope.1 != lit "tool") (atCapability i [.text "constraint ", .quoted c.target,
        .text (" carries an argumentSchema, which applies only to tool: targets (the proxy validates " ++
          "tool-call arguments structurally; "),
        .bytes scope.1, .text " requests carry no tool-argument map to validate)"]),
      (r.argumentSchema schema).map fun error => error i]

/-- The counter bucket a condition draws on. -/
def quotaBucketOf : Condition → Option (Bytes × ℤ)
  | .maxCalls _ windowSeconds => if windowSeconds < 1 then none else some (conditionTypeMaxCalls, windowSeconds)
  | .blastRadius _ maxTotal windowSeconds =>
    if maxTotal.isSome && 0 < windowSeconds then some (conditionTypeBlastRadius, windowSeconds) else none
  | _ => none

/-- The buckets so far, each with the position of its condition. -/
def validateQuotaBucketsDistinct : List ((Bytes × ℤ) × ℕ) → List (Condition × ℕ) → Option Message
  | _, [] => none
  | seen, (cond, j) :: rest =>
    match quotaBucketOf cond with
    | none => validateQuotaBucketsDistinct seen rest
    | some bucket =>
      match seen.lookup bucket with
      | some first => some [.text "conditions ", .int first, .text " and ", .int j, .text " are both ",
          .bytes bucket.1, .text " with the same windowSeconds (", .int bucket.2, .text ("); two equal windows share one " ++
          "counter bucket and would halve the effective limit — combine them into a single condition with the lower bound")]
      | none => validateQuotaBucketsDistinct ((bucket, j) :: seen) rest

/-- The checks of one capability in order, once its target parses. -/
def capabilityChecks (scope : ManifestScope) (i : ℕ) (pins : List (Bytes × Bytes)) (c : ManifestEntry)
    (targetType bare : Bytes) : List (Option Message) :=
  [(validateEnforcement c.enforcement targetType).map (atCapability i),
    (validateTargetPatternBreadth targetType bare c.target).map (atCapability i),
    (validateResourcePattern bare).map (atCapability i),
    (c.actions.findSome? fun action => validateActionForTargetType targetType action).map fun error =>
      atCapability i (.text "constraint " :: .quoted c.target :: .text " has " :: error),
    (validateDescriptionHash targetType bare c pins).map (atCapability i),
    validateSchema r (targetType, bare) i c,
    (validatePrincipal c.principal).map (atCapability i),
    (r.effectContract c).map fun error => error i,
    validateTokens Directive.isNull Directive.isNil "directive" i (r.directive scope c.target targetType)
      c.directives,
    validateTokens Condition.isNull Condition.isNil "condition" i (r.condition scope) c.conditions,
    (validateQuotaBucketsDistinct [] c.conditions.zipIdx).map (atCapability i)]

def validateCapability (scope : ManifestScope) (i : ℕ) (pins : List (Bytes × Bytes)) (c : ManifestEntry) :
    Option Message :=
  if (trimSpace c.target).isEmpty then some (atCapability i [.text "'target' must not be empty"])
  else if c.actions.isEmpty then some (atCapability i [.text "'actions' must not be empty"])
  else match parseTarget c.target with
    | .error err => some (atCapability i err)
    | .ok (targetType, bare) => firstError (capabilityChecks r scope i pins c targetType bare)

/-- In order, each against the pins of those before it. -/
def validateCapabilities (scope : ManifestScope) : ℕ → List (Bytes × Bytes) → List ManifestEntry → Option Message
  | _, _, [] => none
  | i, pins, c :: rest =>
    match validateCapability r scope i pins c with
    | some error => some error
    | none => validateCapabilities scope (i + 1) (c.pin ++ pins) rest

/-! The manifest. -/

def manifestSchemaVersion02 : Bytes := lit "0.2"

def supportedManifestSchemaVersions : List Bytes := [lit "0.1", manifestSchemaVersion02]

/-- By the order of publication; an unknown revision admits nothing. -/
def revisionAdmits (declared since : Bytes) : Bool :=
  match supportedManifestSchemaVersions.idxOf? declared, supportedManifestSchemaVersions.idxOf? since with
  | some di, some si => si ≤ di
  | _, _ => false

def checkTokenGrammarVersion (m : LocalManifest) : Option Message :=
  let declared := trimSpace m.schemaVersion
  let introduced (key : String) : Message := [.text ("the top-level " ++ key ++ " was introduced in schemaVersion "),
    .quoted manifestSchemaVersion02, .text " (the flow+effect grammar); this manifest declares schemaVersion ",
    .quoted declared, .text ", under which the key is not part of the grammar"]
  firstError [
    check (m.effectCeiling.isSome && !revisionAdmits declared manifestSchemaVersion02) (introduced "effectCeiling"),
    check (!m.flowLabelNamespaces.isEmpty && !revisionAdmits declared manifestSchemaVersion02) (introduced "flowLabelNamespaces"),
    m.capabilities.zipIdx.findSome? fun (c, i) => (r.tokenRevision declared c).map fun error => error i]

def LocalManifest.scope (m : LocalManifest) : ManifestScope where
  schemaVersion := trimSpace m.schemaVersion
  flowNamespaces := fun ns => m.flowLabelNamespaces.contains ns

/-- Nothing where the manifest is accepted. -/
def validateLocalManifest (m : LocalManifest) : Option Message :=
  firstError [
    check (trimSpace m.name).isEmpty [.text "'name' must not be empty"],
    validateFlowLabelNamespaces [] m.flowLabelNamespaces,
    m.effectCeiling.bind r.effectCeiling,
    check m.version.isEmpty [.text "'version' must not be empty"],
    check (!isSemver m.version) [.text "'version' must be a three-part semver (MAJOR.MINOR.PATCH), got ",
      .quoted m.version],
    validateServerVersion m.serverVersion,
    validateAudience m.audience,
    validateCapabilities r m.scope 0 [] m.capabilities,
    checkTokenGrammarVersion r m]

end Rules
end Eunox
