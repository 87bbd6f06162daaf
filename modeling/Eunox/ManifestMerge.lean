import Eunox.Manifest

/-! Merging manifests, and the ties across files a merge is refused for. -/
namespace Eunox
open ByteString PathPattern

/-! Ties. -/

/-- The leading run without a metacharacter. -/
def literalPrefix (pattern : Bytes) : Bytes := pattern.takeWhile fun byte => !globMetaChars.contains byte

def literalPrefixesDisjoint (a b : Bytes) : Bool :=
  !(literalPrefix b).isPrefixOf (literalPrefix a) && !(literalPrefix a).isPrefixOf (literalPrefix b)

/-- Whether two patterns can tie on a name both match. -/
def globTargetsOverlap (a b : Bytes) : Bool :=
  if a = b then true
  else match containsGlobMeta a, containsGlobMeta b with
    | false, false => false
    | true, true =>
      if literalPrefixesDisjoint a b then false else resourceSpecificity a [] == resourceSpecificity b []
    | _, _ => false

/-- A target that does not parse is taken to tie. -/
def targetsCanTie (a b : Bytes) : Bool :=
  match parsedTarget a, parsedTarget b with
  | some (aType, aBare), some (bType, bBare) => aType == bType && globTargetsOverlap aBare bBare
  | _, _ => true

/-- Whether a claim's value can match both patterns; a malformed one is taken to. -/
def patternPairCanOverlap (pa pb : Bytes) : Bool :=
  if pa = pb then true
  else match containsGlobMeta pa, containsGlobMeta pb with
    | false, false => false
    | true, true => true
    | true, false => (pathMatch pa pb).getD true
    | false, true => (pathMatch pb pa).getD true

def patternsCanOverlap (a b : List Bytes) : Bool := a.any fun pa => b.any fun pb => patternPairCanOverlap pa pb

/-- Whether one request can satisfy both scopes, and neither is preferred for being one. -/
def principalsConflict (a b : List (Bytes × List Bytes)) : Bool :=
  if a.isEmpty || b.isEmpty then a.isEmpty && b.isEmpty
  else a.all fun (claim, _) =>
    match a.lookup claim, b.lookup claim with
    | some aPats, some bPats => patternsCanOverlap aPats bPats
    | _, _ => true

def actionsOverlap (a b : List Bytes) : Bool := a.any fun x => x == lit "*" || b.any fun y => y == lit "*" || x == y

/-- Two entries that can tie on one request. -/
def entriesConflict (p c : ManifestEntry) : Bool :=
  targetsCanTie p.target c.target && actionsOverlap p.actions c.actions &&
    principalsConflict p.principal c.principal

def mergeConflict (p c : ManifestEntry) : Message :=
  [.text "conflicting capabilities across policy files: targets ", .quoted p.target, .text " and ",
    .quoted c.target, .text (" overlap (a single request can match both), with overlapping actions and principal " ++
      "scopes a single request can satisfy at once, so they tie in the enforcement engine, which breaks the tie by " ++
      "policy-file order — the entry in the file listed first silently wins and the later one is ignored (e.g. an " ++
      "earlier audit/permissive entry downgrades a later restrictive one to allow-and-log). Combine them into one " ++
      "capability, scope them to non-overlapping targets, or scope them to principals no single request can satisfy " ++
      "together (disjoint literal values on the same claim), so the effective policy does not depend on file order")]

/-- The entries of a file against those of the files before it. -/
def conflictsWith (seen : List ManifestEntry) (capabilities : List ManifestEntry) : Option Message :=
  capabilities.findSome? fun c => seen.findSome? fun p =>
    if entriesConflict p c then some (mergeConflict p c) else none

/-- `seen` holds the entries of the files before. -/
def detectMergeConflictsFrom : List ManifestEntry → List LocalManifest → Option Message
  | _, [] => none
  | seen, m :: rest =>
    match conflictsWith seen m.capabilities with
    | some error => some error
    | none => detectMergeConflictsFrom (seen ++ m.capabilities) rest

def detectMergeConflicts (ms : List LocalManifest) : Option Message := detectMergeConflictsFrom [] ms

/-! The merge. -/

/-- The first value that is set; two that differ are refused. -/
def mergeSingleValueField (merged next : Bytes) (field : String) : Except Message Bytes :=
  if next.isEmpty then .ok merged
  else if merged.isEmpty then .ok next
  else if merged ≠ next then
    .error [.text ("conflicting " ++ field ++ " across merged policy files: "), .quoted merged, .text " and ",
      .quoted next, .text ("; this field holds a single value and cannot be merged when files disagree — declare it in " ++
        "only one --policy file, or make the values match")]
  else .ok merged

def mergeEffectCeiling (dst src : Option EffectCeiling) (srcName : Bytes) :
    Except Message (Option EffectCeiling) :=
  match src, dst with
  | none, dst => .ok dst
  | some src, none => .ok (some src)
  | some src, some dst =>
    if dst = src then .ok (some dst)
    else .error [.text "manifest ", .quoted srcName, .text (" declares an effectCeiling that conflicts with an earlier " ++
      "file's; merged manifests must agree on the consequence bound (dropping one would raise the bound for the other " ++
      "file's capabilities)")]

/-- The union, each namespace once. -/
def mergeFlowLabelNamespaces (merged next : List Bytes) : List Bytes :=
  next.foldl (fun merged ns => if merged.contains ns then merged else merged ++ [ns]) merged

/-- One file into what was merged so far. -/
def mergeInto (merged m : LocalManifest) : Except Message LocalManifest := do
  let serverVersion ← mergeSingleValueField merged.serverVersion m.serverVersion "serverVersion"
  let schemaVersion ← mergeSingleValueField merged.schemaVersion m.schemaVersion "schemaVersion"
  let audience ← mergeSingleValueField merged.audience m.audience "audience"
  let effectCeiling ← mergeEffectCeiling merged.effectCeiling m.effectCeiling m.name
  pure { merged with
    capabilities := merged.capabilities ++ m.capabilities
    serverVersion := serverVersion
    schemaVersion := schemaVersion
    audience := audience
    effectCeiling := effectCeiling
    flowLabelNamespaces := mergeFlowLabelNamespaces merged.flowLabelNamespaces m.flowLabelNamespaces }

def accepted (r : ManifestRules) (m : LocalManifest) (what : Message) : Except Message LocalManifest :=
  match validateLocalManifest r m with
  | some error => .error (what ++ error)
  | none => .ok m

/-- The position of the first nil manifest. -/
def nilManifest (ms : List (Option LocalManifest)) : Option Message :=
  ms.zipIdx.findSome? fun (m, i) => check m.isNone
    [.text "manifest ", .int (i + 1), .text " of ", .int ms.length, .text " is nil"]

def mergeManifests (r : ManifestRules) (ms : List (Option LocalManifest)) : Except Message LocalManifest :=
  match nilManifest ms with
  | some error => .error error
  | none =>
    match ms.filterMap id with
    | [] => .ok {}
    | [m] => accepted r m [.text "manifest ", .quoted m.name, .text " is invalid: "]
    | first :: rest =>
      match detectMergeConflicts (first :: rest) with
      | some error => .error error
      | none => do
        let start : LocalManifest :=
          { name := first.name, version := first.version, description := first.description }
        let merged ← (first :: rest).foldlM mergeInto start
        accepted r merged [.text "merged manifest is invalid: "]

end Eunox
