import Eunox.Manifest

/-! The startup drift check: the manifest against the tools and the version the
upstream reports. -/
namespace Eunox
open ByteString JsonValue

/-! References to arguments, `capability/argument_path.go`. -/
namespace ArgumentPath

/-- The segments of a nested path; none for any other reference. -/
def argumentPathSegments (ref : Bytes) : List Bytes :=
  match cutPrefix (lit "$.") ref with
  | none | some [] => []
  | some rest => if (rest.splitOn 46).contains [] then [] else rest.splitOn 46

def isEscapedArgumentLiteral (ref : Bytes) : Bool :=
  2 ≤ (ref.takeWhile (· == 36)).length && (ref.dropWhile (· == 36)).head? == some 46

def argumentLiteralKey (ref : Bytes) : Bytes := if isEscapedArgumentLiteral ref then ref.drop 1 else ref

def argumentRootKey (ref : Bytes) : Bytes :=
  match argumentPathSegments ref with
  | first :: _ => first
  | [] => argumentLiteralKey ref

end ArgumentPath

namespace Drift
open ArgumentPath

/-! Findings. -/

inductive Kind where
  /-- A live tool that a glob covers. -/
  | fm1
  /-- A tool: entry that matches no live tool. -/
  | fm2
  /-- A pinned argument the live schema does not have. -/
  | fm3
  /-- A server version that does not satisfy the pin. -/
  | fm4
  /-- A description that does not hash to its pin. -/
  | fm5
  /-- A description-pinned tool that is not live. -/
  | fm2Pinned
  /-- A live schema of another structure than the argument schema. -/
  | fm6
  | uncovered
  | schemaAbsent
  deriving DecidableEq

structure Warning where
  kind : Kind
  tool : Bytes := []
  resource : Bytes := []
  argument : Bytes := []
  versionActual : Bytes := []
  hashExpected : Bytes := []
  hashActual : Bytes := []
  detail : Message := []
  liveToolCount : ℕ := 0
  expectedToolCount : ℕ := 0
  deriving DecidableEq

def Warning.isFatal (w : Warning) : Bool :=
  w.kind = .fm1 || w.kind = .fm2 || w.kind = .fm4 || w.kind = .fm6 || w.kind = .fm2Pinned

def Warning.severity (w : Warning) : String :=
  match w.kind with
  | .uncovered => "INFO"
  | .fm5 | .fm2Pinned => "ERROR"
  | _ => "WARN"

def truncatedPaginationHint : String :=
  "truncated pagination — an empty nextCursor on a non-final page — hiding it from this session's tools/list"

/-- The counts of a finding about an absent entry. -/
def Warning.counts (w : Warning) : Message :=
  [.text truncatedPaginationHint, .text "; this session saw ", .int w.liveToolCount,
    .text " live tool name(s) against ", .int w.expectedToolCount, .text " exact tool(s) named in the manifest)"]

/-- The line on stderr. -/
def Warning.logLine (w : Warning) : Message :=
  .text "[eunox] " :: .text w.severity :: match w.kind with
    | .fm1 => [.text " drift=fm1 tool=", .quoted w.tool, .text " resource=", .quoted w.resource,
        .text (" — upstream tool admitted by a manifest glob rather than an exact entry; verify this is " ++
          "intentional before deploying")]
    | .fm2 => [.text " drift=fm2 resource=", .quoted w.resource,
        .text " — manifest entry matches no live upstream tool (tool removed or renamed, or "] ++ w.counts
    | .fm2Pinned => [.text " drift=fm2_pinned resource=", .quoted w.resource,
        .text (" — description-pinned tool is absent from the live tools/list; its descriptionHash could not be " ++
          "verified (upstream may be hiding a poisoned tool, or ")] ++
        w.counts
    | .fm3 => [.text " drift=fm3 resource=", .quoted w.resource, .text " tool=", .quoted w.tool,
        .text " argument=", .quoted w.argument,
        .text " — pinned argument not in live inputSchema; the pin may not enforce if the upstream renamed it"]
    | .fm4 => [.text " drift=fm4 serverVersion=", .quoted w.resource, .text " actual=",
        .quoted (if w.versionActual.isEmpty then lit "(unknown)" else w.versionActual),
        .text " — server version does not satisfy manifest pin; server may have been updated"]
    | .fm5 => [.text " drift=fm5 resource=", .quoted w.resource, .text " tool=", .quoted w.tool,
        .text " — description hash mismatch; tool description may have been modified (expected ",
        .bytes w.hashExpected, .text ", got ", .bytes w.hashActual, .text ")"]
    | .fm6 => [.text " drift=fm6 resource=", .quoted w.resource, .text " tool=", .quoted w.tool,
        .text " argument=", .quoted w.argument, .text " — "] ++ w.detail ++
        [.text "; review whether the argumentSchema still constrains this tool as intended"]
    | .uncovered => [.text " drift=uncovered tool=", .quoted w.tool,
        .text " — not covered by manifest; no allowlist entry matches it (denied in enforce mode)"]
    | .schemaAbsent => [.text " drift=schema_absent resource=", .quoted w.resource, .text " tool=",
        .quoted w.tool, .text " argument=", .quoted w.argument,
        .text (" — tool published no inputSchema, so pinned arguments could not be verified this session (request-time " ++
          "enforcement is unaffected)")]

structure UpstreamTool where
  name : Bytes
  description : Bytes := []
  inputSchema : Option Members := none
  title : Bytes := []
  annotations : Option Members := none
  outputSchema : Option Members := none

/-- What the comparison is given. The hash is a SHA-256, and the listing is screened key by key as it is decoded; what is
proved of the comparison holds for any hash and any reader. -/
structure Environment where
  /-- `ComputeToolHash` over the description and `ToolHashParams`. -/
  toolHash : UpstreamTool → Bytes
  parseToolsListResult : Bytes → Except Message (List UpstreamTool)
  printer : Printer

/-! Covering entries. -/

def matchResource (pattern name : Bytes) : Bool := matchesResource (stripEnginePrefix pattern) name

def resSpecificity (pattern name : Bytes) : ℤ := resourceSpecificity (stripEnginePrefix pattern) name

def isToolTarget (target : Bytes) : Bool := (parsedTarget target).map Prod.fst == some (lit "tool")

/-- A matching entry with its position, and its score. -/
structure CoveringMatch where
  c : ManifestEntry × ℕ
  score : ℤ

/-- The matches so far, and the highest score among those of no principal. -/
def coverStep (toolName : Bytes) (found : List CoveringMatch × ℤ) (c : ManifestEntry × ℕ) :
    List CoveringMatch × ℤ :=
  if !isToolTarget c.1.target then found
  else if !matchResource c.1.target toolName then found
  else
    let s := resSpecificity c.1.target toolName
    (found.1 ++ [⟨c, s⟩], if !c.1.hasPrincipal && found.2 < s then s else found.2)

def coveringMatches (manifest : LocalManifest) (toolName : Bytes) : List CoveringMatch :=
  let found := manifest.capabilities.zipIdx.foldl (coverStep toolName) ([], noMatchScore)
  found.1.filter fun m => found.2 ≤ m.score

def coveringConstraints (manifest : LocalManifest) (toolName : Bytes) : List (ManifestEntry × ℕ) :=
  (coveringMatches manifest toolName).map CoveringMatch.c

/-! The arguments an entry pins. -/

/-- The types of condition that name an argument. -/
def argumentNamers : List Bytes :=
  [lit "allowedValues", lit "allowedOperations", lit "allowedExtensions", lit "allowedTables",
    lit "recipientDomain"]

def memberString (members : Members) (key : String) : Option Bytes :=
  match members.lookup (lit key) with
  | some (.string s) => some s
  | _ => none

def argumentName : Condition → Option Bytes
  | .other conditionType (.object members) =>
    if argumentNamers.contains conditionType then some ((memberString members "argument").getD []) else none
  | _ => none

/-- Each name once, and none that is empty. -/
def distinctNames (names : List Bytes) : List Bytes := (names.filter (!·.isEmpty)).eraseDups

def conditionArgumentNames (conditions : List Condition) : List Bytes :=
  distinctNames ((conditions.filterMap argumentName).map argumentRootKey)

def pinnedArgumentNames (c : ManifestEntry) : List Bytes :=
  let declared := match c.schema with
    | some (.schema _ _ properties required _ _) => properties.map Prod.fst ++ required
    | none => []
  sortStrings (distinctNames (conditionArgumentNames c.conditions ++ declared))

/-! The structure of a live schema. -/

def joinArgPath (path name : Bytes) : Bytes := if path.isEmpty then name else path ++ lit "." ++ name

def singleConcreteType : ArgumentSchema → Option Bytes
  | .schema type types _ _ _ _ => if !types.isEmpty || type.isEmpty then none else some type

def liveSingleType : Json → Option Bytes
  | .object members => (memberString members "type").filter (!·.isEmpty)
  | _ => none

def liveObjectProperties : Json → Option Members
  | .object members =>
    match members.lookup (lit "properties") with
    | some (.object properties) => some properties
    | _ => none
  | _ => none

def typesCompatible (want got : Bytes) : Bool :=
  want == got || ([lit "number", lit "integer"].contains want && [lit "number", lit "integer"].contains got)

/-- Nested properties, or a closed set of none. -/
def nests : ArgumentSchema → Bool
  | .schema _ _ properties _ additionalProperties _ => !properties.isEmpty || additionalProperties == some false

/-- A declared parameter of another type than the live one. -/
def retyped (finding : Warning) (declared : ArgumentSchema) (live : Json) (full : Bytes) : List Warning :=
  match singleConcreteType declared, liveSingleType live with
  | some want, some got =>
    if typesCompatible want got then []
    else [{ finding with argument := full, detail :=
      [.text "declared parameter type ", .quoted want, .text " no longer matches the live type ", .quoted got] }]
  | _, _ => []

mutual

/-- One level of a declared schema against the live properties at the same path. -/
def collectStructuralDrift (finding : Warning) (reviewed : List Bytes) :
    ArgumentSchema → Members → Bytes → List Warning
  | .schema _ _ properties _ additionalProperties _, live, path =>
    (if additionalProperties = some false then
      (live.filter fun (name, _) =>
        (properties.lookup name).isNone && !(path.isEmpty && reviewed.contains name)).map fun (name, _) =>
          { finding with argument := joinArgPath path name, detail :=
            [.text ("live parameter is not declared by the closed argumentSchema (additionalProperties:false) — a new, " ++
              "unreviewed tool argument")] }
    else []) ++ collectDeclared finding reviewed properties live path

def collectDeclared (finding : Warning) (reviewed : List Bytes) :
    List (Bytes × Option ArgumentSchema) → Members → Bytes → List Warning
  | [], _, _ => []
  | (_, none) :: rest, live, path => collectDeclared finding reviewed rest live path
  | (name, some declared) :: rest, live, path =>
    (match live.lookup name with
    | none => []
    | some liveProp =>
      retyped finding declared liveProp (joinArgPath path name) ++
        if nests declared then
          match liveObjectProperties liveProp with
          | some nested => collectStructuralDrift finding reviewed declared nested (joinArgPath path name)
          | none => []
        else []) ++ collectDeclared finding reviewed rest live path

end

section Environment
variable (env : Environment)

/-- In the order of their arguments, then of their texts. -/
def structuralDrift (toolName : Bytes) (c : ManifestEntry) (schema : ArgumentSchema) (live : Members) :
    List Warning :=
  let found := collectStructuralDrift { kind := .fm6, tool := toolName, resource := c.target }
    (conditionArgumentNames c.conditions) schema live []
  found.insertionSort fun a b =>
    a.argument < b.argument ∨ (a.argument = b.argument ∧ a.detail.render env.printer ≤ b.detail.render env.printer)

/-! Single checks. -/

section
variable (tool : UpstreamTool) (c : ManifestEntry)

def fm1Warnings : List Warning :=
  if containsGlobMeta (stripEnginePrefix c.target) then [{ kind := .fm1, tool := tool.name, resource := c.target }]
  else []

def fm3Warnings (live : Members) : List Warning :=
  ((pinnedArgumentNames c).filter fun name => (live.lookup name).isNone).map fun name =>
    { kind := .fm3, tool := tool.name, resource := c.target, argument := name }

def schemaAbsentWarnings : List Warning :=
  match pinnedArgumentNames c with
  | [] => []
  | first :: _ => [{ kind := .schemaAbsent, tool := tool.name, resource := c.target, argument := first }]

def fm5Warnings (actualHash : Bytes) : List Warning :=
  if !c.isPinnedExactTool || actualHash == c.descriptionHash then []
  else [{ kind := .fm5, tool := tool.name, resource := c.target, hashExpected := c.descriptionHash, hashActual := actualHash }]

def fm6Warnings (live : Members) : List Warning :=
  match c.schema with
  | none => []
  | some schema => if !c.isExactTool then [] else structuralDrift env tool.name c schema live

def schemaProperties (schema : Option Members) : Members :=
  (schema.bind fun s => liveObjectProperties (.object s)).getD []

/-! The comparison. -/

/-- A finding that was made before is not reported again. -/
def addWarning (warnings : List Warning) (w : Warning) : List Warning :=
  if w ∈ warnings then warnings else warnings ++ [w]

/-- What one tool is checked for against one entry that covers it. -/
def coveredWarnings : List Warning :=
  fm1Warnings tool c ++ fm5Warnings tool c (env.toolHash tool) ++
    if tool.inputSchema.isSome then
      fm3Warnings tool c (schemaProperties tool.inputSchema) ++
        fm6Warnings env tool c (schemaProperties tool.inputSchema)
    else schemaAbsentWarnings tool c

end

variable (manifest : LocalManifest)

def toolWarnings (tool : UpstreamTool) : List Warning :=
  match coveringConstraints manifest tool.name with
  | [] => [{ kind := .uncovered, tool := tool.name }]
  | covering => covering.flatMap fun c => coveredWarnings env tool c.1

def anyToolMatches (resource : Bytes) (tools : List UpstreamTool) : Bool :=
  tools.any fun t => matchResource resource t.name

variable (tools : List UpstreamTool) (serverVersion : Bytes)

/-- The targets no live tool matches, in order, each of one kind: pinned wins. -/
def absentStep (absent : List (Bytes × Kind)) (c : ManifestEntry) : List (Bytes × Kind) :=
  if !isToolTarget c.target then absent
  else if anyToolMatches c.target tools then absent
  else if (absent.lookup c.target).isSome then
    if c.isPinnedExactTool then
      absent.map fun entry => if entry.1 = c.target then (entry.1, .fm2Pinned) else entry
    else absent
  else absent ++ [(c.target, if c.isPinnedExactTool then .fm2Pinned else .fm2)]

def liveAndExpectedToolCounts : ℕ × ℕ :=
  ((tools.map UpstreamTool.name).dedup.length,
    (manifest.capabilities.filterMap fun c =>
      if c.isExactTool then (parsedTarget c.target).map Prod.snd else none).dedup.length)

def absentWarnings : List Warning :=
  (manifest.capabilities.foldl (absentStep tools) []).map fun (target, kind) =>
    { kind := kind, resource := target,
      liveToolCount := (liveAndExpectedToolCounts manifest tools).1,
      expectedToolCount := (liveAndExpectedToolCounts manifest tools).2 }

/-- Part by part; a trailing star takes in the rest, of which there is some. -/
def matchParts : List Bytes → List Bytes → Bool
  | [], actual => actual.isEmpty
  | c :: rest, actual =>
    if c = lit "*" && rest.isEmpty then !actual.isEmpty
    else match actual with
      | [] => false
      | a :: others => (c == lit "*" || a == c) && matchParts rest others

def matchServerVersion (constraint actual : Bytes) : Bool :=
  if constraint.isEmpty then true
  else if actual.isEmpty then false
  else matchParts (constraint.splitOn 46) (actual.splitOn 46)

def serverVersionDrift : List Warning :=
  if manifest.serverVersion.isEmpty || matchServerVersion manifest.serverVersion serverVersion then []
  else [{ kind := .fm4, resource := manifest.serverVersion, versionActual := serverVersion }]

def checkManifestDrift : List Warning :=
  serverVersionDrift manifest serverVersion ++
    (tools.flatMap (toolWarnings env manifest) ++ absentWarnings manifest tools).foldl addWarning []

/-! The hook. -/

/-- What the hook writes to stderr, and the error that aborts the startup. -/
structure Verdict where
  lines : List Message
  error : Option Message

def hasFatalDrift (warnings : List Warning) : Bool := warnings.any Warning.isFatal

def hasCriticalDrift (warnings : List Warning) : Bool := warnings.any fun w => w.kind = .fm5 || w.kind = .fm2Pinned

def evaluateDrift (strict : Bool) : Verdict :=
  let warnings := checkManifestDrift env manifest tools serverVersion
  { lines := warnings.map Warning.logLine
    error :=
      if hasCriticalDrift warnings then
        some [.text ("startup aborted: description integrity check failed — a pinned description mismatched or a " ++
          "description-pinned tool is missing from the live tool list (see warnings above)")]
      else if strict && hasFatalDrift warnings then
        some [.text "startup aborted by strict drift checking: manifest drift detected (see warnings above)"]
      else none }

def manifestHasPinnedDescriptions : Bool :=
  manifest.capabilities.any ManifestEntry.isPinnedExactTool

/-- No list to compare with: fatal with pins, or when strict. -/
def driftProbeUnavailable (strict : Bool) (serverVersion : Bytes) (err : Message) :
    Verdict :=
  let version := (serverVersionDrift manifest serverVersion).map Warning.logLine
  if manifestHasPinnedDescriptions manifest then
    ⟨version, some (.text ("tools/list unavailable and manifest has descriptionHash pins: cannot verify " ++
      "description integrity: ") :: err)⟩
  else if strict then
    ⟨version, some (.text ("tools/list unavailable under strict drift checking: cannot verify manifest drift; an " ++
      "unreachable probe is indistinguishable from drift: ") :: err)⟩
  else
    ⟨version ++ [.text ("[eunox] WARN drift=skipped tools/list unavailable — manifest drift was NOT verified this " ++
      "session; glob entries may now cover upstream tools added since the manifest was written and any drift would go " ++
      "undetected: ") :: err], none⟩

def makeDriftCheck (manifest : Option LocalManifest) (strict : Bool) :
    Option (Bytes → Bytes → Option Message → Verdict) :=
  manifest.map fun manifest rawToolsListResult serverVersion probeErr =>
    match probeErr with
    | some err => driftProbeUnavailable manifest strict serverVersion err
    | none =>
      match env.parseToolsListResult rawToolsListResult with
      | .error err => driftProbeUnavailable manifest strict serverVersion err
      | .ok tools => evaluateDrift env manifest tools serverVersion strict

end Environment
end Drift
end Eunox
