import Eunox.AssocList
import Eunox.JsonFold
import Eunox.Manifest
import Eunox.ValueGlob

/-! The capability claims of a token: how one is read, and how a call is judged by
them before the inner policy is asked (`JWTPDP.Decide` from the claims on). A claim
that matches the target grants the call where its conditions hold, and one such claim is enough. -/
namespace Eunox.JwtGrants
open ByteString JsonValue JsonText PathPattern PercentEncoding

/-! Text. -/

/-- The case tables of package `unicode`. -/
structure CaseTable extends SimpleFold where
  upper : ℕ → ℕ

namespace CaseTable
variable (table : CaseTable)

def upperRune (r : ℕ) : ℕ :=
  if r < 0x80 then if 97 ≤ r && r ≤ 122 then r - 32 else r else table.upper r

/-- `strings.ToUpper`. -/
def toUpper (s : Bytes) : Bytes := ((runes s).map fun r => encodeRune (table.upperRune r)).flatten

end CaseTable

/-- The first of `strings.Fields`, once leading white space is gone. -/
def firstField : Bytes → Bytes
  | [] => []
  | byte :: rest => if spaces.any (·.isPrefixOf (byte :: rest)) then [] else byte :: firstField rest

def operationVerb (table : CaseTable) (s : Bytes) : Bytes := table.toUpper (firstField (trimLeft s))

def matchOperation (table : CaseTable) (allowed : List Bytes) (op : Bytes) : Bool :=
  allowed.any fun a => table.EqualFold (trimSpace a) op

def sqlVerbs : List Bytes :=
  ["SELECT", "INSERT", "UPDATE", "DELETE", "MERGE", "UPSERT", "REPLACE", "CREATE", "ALTER", "DROP", "TRUNCATE",
    "RENAME", "COMMENT", "GRANT", "REVOKE", "CALL", "DO", "EXECUTE", "EXEC", "PREPARE", "DEALLOCATE", "COPY",
    "VACUUM", "ANALYZE", "REINDEX", "CLUSTER", "REFRESH", "LOCK", "SET", "RESET", "LOAD", "INSTALL", "ATTACH",
    "DETACH", "IMPORT", "BACKUP", "RESTORE", "SHUTDOWN", "KILL", "USE", "HANDLER"].map lit

def isSQLVerb (table : CaseTable) (s : Bytes) : Bool := sqlVerbs.contains (table.toUpper s)

/-! Claims. -/

def isHTTPResourceValue (bareName : Bytes) : Bool :=
  lit "http://" <+: lowerASCII bareName || lit "https://" <+: lowerASCII bareName

def isHTTPResourceClaim (head : Bytes) : Bool :=
  match cutPrefix (lit "resource:") head with
  | some bareName => isHTTPResourceValue bareName
  | none => false

/-- The name, the conditions, and whether a separator stands between them. -/
def splitV2Claim (claim : Bytes) : Bytes × Bytes × Bool :=
  match cut 63 claim with
  | some (namepart, condpart) =>
    if isHTTPResourceClaim namepart then (claim, [], false) else (namepart, condpart, true)
  | none => (claim, [], false)

structure CapHead where
  type : Bytes
  bareName : Bytes
  condpart : Bytes

def parseCapHead (claim : Bytes) : Option CapHead :=
  let (namepart, condpart, hadSep) := splitV2Claim claim
  if hadSep && condpart.isEmpty then none
  else (parsedTarget namepart).map fun (type, bareName) => ⟨type, bareName, condpart⟩

/-- A malformed claim grants nothing. -/
def parseCapHeads (caps : List Bytes) : List CapHead := caps.filterMap parseCapHead

structure CondPair where
  key : Bytes
  value : Bytes

/-- `url.QueryUnescape`. -/
def queryUnescape (s : Bytes) : Option Bytes := pathUnescape (s.map fun byte => if byte = 43 then 32 else byte)

def parseCondPairs : List Bytes → List Bytes → Option (List CondPair)
  | [], _ => some []
  | pair :: pairs, seen =>
    match cut 61 pair with
    | none => none
    | some (key, val) =>
      if key.isEmpty || key.any [37, 43].contains || seen.contains key then none
      else
        match queryUnescape val with
        | none => none
        | some value => (parseCondPairs pairs (key :: seen)).map (⟨key, value⟩ :: ·)

def parseCondSuffix (condpart : Bytes) : Option (List CondPair) := parseCondPairs (condpart.splitOn 38) []

/-- A value that is JSON keeps its type, unless it is a container or a string. -/
def jwtShorthandValues (raw : Bytes) : List Json :=
  match parseText raw with
  | some (.bool b) => [.bool b]
  | some .null => [.null]
  | some (.number literal) => [.number literal]
  | _ => [.string raw]

inductive ClaimCondition where
  | allowedOperations (argument : Bytes) (operations : List Bytes)
  | allowedValues (argument : Bytes) (values : List Json)
  | other (conditionType : Bytes)

def jwtCondKeyOp : Bytes := lit "op"

def CondPair.condition (pair : CondPair) : ClaimCondition :=
  if pair.key = jwtCondKeyOp then .allowedOperations [] [pair.value]
  else .allowedValues pair.key (jwtShorthandValues pair.value)

structure ClaimConstraint where
  target : Bytes
  actions : List Bytes
  conditions : List ClaimCondition

def buildV2Constraint (type bareName : Bytes) (conds : List CondPair) : ClaimConstraint where
  target := type ++ 58 :: bareName
  actions := [requiredActionFor type]
  conditions := conds.map CondPair.condition

/-- The pattern, and the query a claim for an http resource pins. -/
def claimGlobParts (type bareName : Bytes) : Bytes × Option Bytes :=
  if type = lit "resource" && isHTTPResourceValue bareName then
    match cut 63 bareName with
    | some (path, query) => (path, some query)
    | none => (bareName, none)
  else (bareName, none)

def matchClaimBare (type bareName targetName : Bytes) : Bool :=
  match claimGlobParts type bareName with
  | (globPart, some query) =>
    match cut 63 targetName with
    | some (path, targetQuery) => query == targetQuery && matchesResource globPart path
    | none => false
  | (globPart, none) => matchesResource globPart targetName

def CapHead.covers (h : CapHead) (target : RequestTarget) : Bool :=
  h.type == target.type && matchClaimBare h.type h.bareName target.name

/-- The pairs of a head's suffix; none of them without a suffix. -/
def CapHead.conds (h : CapHead) : Option (List CondPair) :=
  if h.condpart.isEmpty then some [] else parseCondSuffix h.condpart

def CapHead.constraint (target : RequestTarget) (h : CapHead) : Option ClaimConstraint :=
  if h.covers target then h.conds.map (buildV2Constraint h.type h.bareName) else none

def buildConstraintsFromParsed (heads : List CapHead) (target : RequestTarget) : List ClaimConstraint :=
  heads.filterMap (CapHead.constraint target)

def claimNamesTargetButFailedToParse (heads : List CapHead) (target : RequestTarget) : Bool :=
  heads.any fun h => h.covers target && h.conds.isNone

/-! The request the conditions are judged on. -/

/-- The argument a target's own name is put under, whether it is, and whether the type is known. -/
def conditionArgumentFor (type : Bytes) : Bytes × Bool × Bool :=
  if type = lit "resource" then (lit "uri", true, true)
  else if type = lit "prompt" then (lit "name", true, true)
  else if type = lit "tool" then ([], false, true)
  else ([], false, false)

def jwtConditionArgs (target : RequestTarget) (args : Members) : Members :=
  match conditionArgumentFor target.type with
  | (key, true, _) => [(key, .string target.name)]
  | (_, false, true) => args
  | (_, false, false) => []

def jwtClaimEnforceRequest (sessionID : Bytes) (target : RequestTarget) (args claims : Members) : EnforceRequest where
  sessionID := sessionID
  targetName := target.name
  arguments := args
  sourceIP := []
  target := some target
  claims := claims
  declaredLabels := []

/-- The request all claims of one call are judged on. -/
def condReq (sessionID : Bytes) (claims : Members) (target : RequestTarget) (args : Members) : EnforceRequest :=
  jwtClaimEnforceRequest sessionID target (jwtConditionArgs target args) claims

/-! Evaluation. -/

def maxArgStringDepth : ℕ := 64

def collectAll (collect : Json → Option (List Bytes)) : List Json → Option (List Bytes)
  | [] => some []
  | value :: values =>
    match collect value with
    | none => none
    | some found => (collectAll collect values).map (found ++ ·)

/-- Every string below a value, nothing if it is nested past the levels left. -/
def collectArgStringsDepth : ℕ → Json → Option (List Bytes)
  | 0, _ => none
  | _ + 1, .string s => some [s]
  | left + 1, .object members =>
    collectAll (collectArgStringsDepth left)
      (((members.map Prod.fst).insertionSort (· ≤ ·)).filterMap fun key => members.lookup key)
  | left + 1, .array items => collectAll (collectArgStringsDepth left) items
  | _ + 1, _ => some []

def collectArgStrings (value : Json) : Option (List Bytes) := collectArgStringsDepth (maxArgStringDepth + 1) value

/-- The policy that decides after the token: which condition types it redefines, and its verdict on
an `allowedValues` condition, nothing where its handler cannot run ahead of the decision. -/
structure ClaimConditionEvaluator where
  handlerOverridden : Bytes → Bool
  verdict : Bytes → List Json → EnforceRequest → Option (Option ConditionError)

structure JWTPDP where
  table : CaseTable
  inner : ClaimConditionEvaluator

def typeAllowedOperations : Bytes := lit "allowedOperations"
def typeAllowedValues : Bytes := lit "allowedValues"

def claimDenial (code : DenialCode) (conditionType : Bytes) (message : Message) (details : Details) : DenialInfo where
  code := code
  conditionType := conditionType
  message := message
  blockOverride := false
  details := details

/-- The handler's override travels with its verdict. -/
def denyFromCondition (name : Bytes) (cerr : ConditionError) : DenialInfo :=
  { cerr with message := [.quoted name, .text ": "] ++ cerr.message }

namespace JWTPDP
variable (p : JWTPDP)

/-- Past the scanned strings, with the last granted verb among them. -/
def scanOperations (name : Bytes) (operations : List Bytes) : List Bytes → Bytes → Option DenialInfo
  | [], matchedOp =>
    if matchedOp.isEmpty then
      some (claimDenial .missingContext typeAllowedOperations
        [.quoted name, .text ": no matching operation found in arguments"] [("allowedOperations", .strings operations)])
    else none
  | s :: rest, matchedOp =>
    let word := operationVerb p.table s
    if word.isEmpty then scanOperations name operations rest matchedOp
    else if matchOperation p.table operations word then scanOperations name operations rest word
    else if isSQLVerb p.table word then
      some (claimDenial .operationNotPermitted typeAllowedOperations
        [.quoted name, .text ": operation ", .quoted word, .text " is not in the permitted set ", .listed operations]
        [("operation", .text [.bytes word]), ("allowedOperations", .strings operations)])
    else scanOperations name operations rest matchedOp

/-- The arm of `op=`. -/
def evaluateOperations (req : EnforceRequest) (argument : Bytes) (operations : List Bytes) : Option DenialInfo :=
  let name := req.targetName
  -- an absent target cannot show that the arguments are the caller's
  let type := req.target.elim [] RequestTarget.type
  let fault := claimDenial .enforcementError typeAllowedOperations
  if p.inner.handlerOverridden typeAllowedOperations then
    some (fault [.quoted name, .text ": the deciding policy redefines ", .bytes typeAllowedOperations,
        .text (", and this capability claim's argument-less op= form cannot be judged by that handler; deny (fail " ++
          "closed) — grant the operation through a manifest constraint that names the operation argument instead")]
      [("conditionType", .text [.bytes typeAllowedOperations]), ("reason", .text [.text "handler_override_unsupported"])])
  else if (conditionArgumentFor type).2.1 || !(conditionArgumentFor type).2.2 then
    some (fault [.quoted name, .text ": a ", .bytes type,
        .text (" decision carries no caller-supplied arguments, so this capability claim's argument-less op= form has " ++
          "nothing to judge but the target's own name; deny (fail closed) — restrict the operation on a tool: claim, " ++
          "or through a manifest constraint naming the operation argument")]
      [("targetType", .text [.bytes type]), ("reason", .text [.text "op_scan_without_arguments"])])
  else if !argument.isEmpty then
    some (fault [.quoted name, .text ": allowedOperations with a named argument is not supported from a capability claim"]
      [("argument", .text [.bytes argument]), ("allowedOperations", .strings operations)])
  else
    match operations.find? fun op => !isSQLVerb p.table op with
    | some op =>
      some (fault [.quoted name, .text ": non-SQL operation ", .quoted op,
          .text (" cannot be safely enforced without an explicit argument naming the operation parameter; use the " ++
            "manifest form that names the argument")]
        [("operation", .text [.bytes op]), ("allowedOperations", .strings operations)])
    | none =>
      match collectArgStrings (.object req.arguments) with
      | none =>
        some (fault [.quoted name, .text ": arguments nested too deeply to scan for operations"]
          [("maxDepth", .int maxArgStringDepth), ("allowedOperations", .strings operations)])
      | some argStrings => p.scanOperations name operations argStrings []

def evaluateCondition (req : EnforceRequest) : ClaimCondition → Option DenialInfo
  | .allowedOperations argument operations => p.evaluateOperations req argument operations
  | .allowedValues argument values =>
    match p.inner.verdict argument values req with
    | none =>
      some (claimDenial .enforcementError typeAllowedValues
        [.quoted req.targetName, .text ": the deciding policy's ", .bytes typeAllowedValues,
          .text (" handler cannot be evaluated ahead of its own decision (it commits state, or is not " ++
            "registered); deny (fail closed)")]
        [("conditionType", .text [.bytes typeAllowedValues])])
    | some cerr => cerr.map (denyFromCondition req.targetName)
  | .other conditionType =>
    some (claimDenial .enforcementError conditionType
      [.quoted req.targetName, .text ": JWT condition type ", .quoted conditionType,
        .text " has no evaluator; deny (fail closed)"] [("conditionType", .text [.bytes conditionType])])

def evaluateJWTConditions (req : EnforceRequest) : List ClaimCondition → Option DenialInfo
  | [] => none
  | cond :: rest =>
    match p.evaluateCondition req cond with
    | some denial => some denial
    | none => evaluateJWTConditions req rest

/-- A later verdict takes the place of an earlier one, but not of a refusal that must block. -/
def keepDenial (lastDeny : Option DenialInfo) (denial : DenialInfo) : DenialInfo :=
  match lastDeny with
  | none => denial
  | some last => if last.downgradable then denial else last

/-- The loop over the matching claims; nothing once one of them grants the call. -/
def tryGrants (req : EnforceRequest) : List ClaimConstraint → Option DenialInfo → Option DenialInfo
  | [], lastDeny => lastDeny
  | matched :: rest, lastDeny =>
    if matched.conditions.isEmpty then none
    else
      match p.evaluateJWTConditions req matched.conditions with
      | some denial => tryGrants req rest (some (keepDenial lastDeny denial))
      | none => none

/-- The refusal of the token, nothing where the call goes on to the inner policy. -/
def decide (sessionID : Bytes) (claims : Members) (caps : List Bytes) (target : RequestTarget) (args : Members) :
    Option DenialInfo :=
  let heads := parseCapHeads caps
  match buildConstraintsFromParsed heads target with
  | [] =>
    some (claimDenial .authorizationFailed (lit "jwtCapability")
      (if claimNamesTargetButFailedToParse heads target then
        [.text "a JWT capability claim names ", .bytes target.type, .text " ", .quoted target.name,
          .text ", but its condition suffix could not be parsed, so it grants nothing (see the eunox log for the parse error)"]
      else
        [.bytes target.type, .text " ", .quoted target.name, .text " is not in the JWT capability claims"]) [])
  | constraints => p.tryGrants (condReq sessionID claims target args) constraints none

end JWTPDP

/-! What the scan reads. -/

/-- A string scalar below a value, at any depth. -/
inductive StringIn : Json → Bytes → Prop
  | own (s : Bytes) : StringIn (.string s) s
  | item {items : List Json} {value : Json} {s : Bytes} (member : value ∈ items) (inside : StringIn value s) :
    StringIn (.array items) s
  | member {members : Members} {key : Bytes} {value : Json} {s : Bytes} (found : members.lookup key = some value)
    (inside : StringIn value s) : StringIn (.object members) s

theorem collectAll_reads {collect : Json → Option (List Bytes)} (read : collectAll collect values = some strings) :
    (∀ value ∈ values, ∃ found, collect value = some found) ∧
      ∀ s, s ∈ strings ↔ ∃ value ∈ values, ∃ found, collect value = some found ∧ s ∈ found := by
  induction values generalizing strings with
  | nil => simp [← Option.some.inj read]
  | cons value values ih =>
    rw [collectAll] at read
    split at read
    · cases read
    · rename_i found here
      obtain ⟨later, rest, rfl⟩ := Option.map_eq_some_iff.mp read
      exact ⟨List.forall_mem_cons.mpr ⟨⟨found, here⟩, (ih rest).1⟩, fun s => by simp [(ih rest).2, here]⟩

theorem mem_values {members : Members} {value : Json} :
    value ∈ ((members.map Prod.fst).insertionSort (· ≤ ·)).filterMap (fun key => members.lookup key) ↔
      ∃ key, members.lookup key = some value := by
  rw [List.mem_filterMap]
  constructor
  · rintro ⟨key, -, found⟩
    exact ⟨key, found⟩
  · rintro ⟨key, found⟩
    refine ⟨key, ?_, found⟩
    rw [List.mem_insertionSort]
    exact List.mem_map.mpr ⟨_, AssocList.mem_of_lookup found, rfl⟩

/-- A scan that is not too deep misses no string. -/
theorem mem_collectArgStringsDepth (read : collectArgStringsDepth left value = some strings) :
    s ∈ strings ↔ StringIn value s := by
  induction left generalizing value strings with
  | zero => cases read
  | succ left ih =>
    -- a container's strings are those of its values, each read one level further down
    have below {values : List Json} (read : collectAll (collectArgStringsDepth left) values = some strings) :
        s ∈ strings ↔ ∃ value ∈ values, StringIn value s := by
      rw [(collectAll_reads read).2]
      constructor
      · rintro ⟨value, mem, found, here, inside⟩
        exact ⟨value, mem, (ih here).mp inside⟩
      · rintro ⟨value, mem, inside⟩
        obtain ⟨found, here⟩ := (collectAll_reads read).1 value mem
        exact ⟨value, mem, found, here, (ih here).mpr inside⟩
    cases value with
    | string own =>
      obtain rfl := Option.some.inj read
      constructor
      · intro mem
        rw [List.mem_singleton.mp mem]
        exact .own own
      · rintro ⟨⟩
        exact List.mem_singleton_self _
    | array items =>
      rw [below read]
      exact ⟨fun ⟨_, mem, inside⟩ => .item mem inside, fun | .item mem inside => ⟨_, mem, inside⟩⟩
    | object members =>
      rw [below read]
      constructor
      · rintro ⟨value, mem, inside⟩
        obtain ⟨key, found⟩ := mem_values.mp mem
        exact .member found inside
      · rintro ⟨⟩
        rename_i key value found inside
        exact ⟨value, mem_values.mpr ⟨key, found⟩, inside⟩
    | _ =>
      rw [← Option.some.inj read]
      exact ⟨nofun, nofun⟩

/-! What a condition demands. -/

namespace JWTPDP
variable (p : JWTPDP) (req : EnforceRequest)

/-- The condition could not be judged, or is answered by a refusal that must block. -/
def Fault : ClaimCondition → Prop
  | .allowedOperations argument operations =>
    p.inner.handlerOverridden typeAllowedOperations = true ∨ req.target.elim [] RequestTarget.type ≠ lit "tool" ∨
      argument ≠ [] ∨ (∃ op ∈ operations, isSQLVerb p.table op = false) ∨
      collectArgStrings (.object req.arguments) = none
  | .allowedValues argument values =>
    p.inner.verdict argument values req = none ∨
      ∃ cerr, p.inner.verdict argument values req = some (some cerr) ∧ cerr.downgradable = false
  | .other _ => True

/-- Every SQL verb among the arguments is granted, and some granted verb is. -/
def Granted (operations : List Bytes) : Prop :=
  (∀ s, StringIn (.object req.arguments) s → isSQLVerb p.table (operationVerb p.table s) = true →
    matchOperation p.table operations (operationVerb p.table s) = true) ∧
  ∃ s, StringIn (.object req.arguments) s ∧ operationVerb p.table s ≠ [] ∧
    matchOperation p.table operations (operationVerb p.table s) = true

def Holds : ClaimCondition → Prop
  | .allowedOperations argument operations =>
    ¬ p.Fault req (.allowedOperations argument operations) ∧ p.Granted req operations
  | .allowedValues argument values => p.inner.verdict argument values req = some none
  | .other _ => False

/-- The first condition that does not hold. -/
def FirstFailing (conditions : List ClaimCondition) (cond : ClaimCondition) : Prop :=
  ∃ before after, conditions = before ++ cond :: after ∧ (∀ held ∈ before, p.Holds req held) ∧ ¬ p.Holds req cond

end JWTPDP

theorem conditionArgumentFor_tool (type : Bytes) :
    ((conditionArgumentFor type).2.1 || !(conditionArgumentFor type).2.2) = true ↔ type ≠ lit "tool" := by
  unfold conditionArgumentFor
  split_ifs with resource prompt tool
  · simp [resource, show lit "resource" ≠ lit "tool" by decide]
  · simp [prompt, show lit "prompt" ≠ lit "tool" by decide]
  · simp [tool]
  · simp [tool]

namespace JWTPDP
variable {p : JWTPDP} {req : EnforceRequest}

theorem scanOperations_none_iff (name : Bytes) (operations strings : List Bytes) (matchedOp : Bytes) :
    p.scanOperations name operations strings matchedOp = none ↔
      (∀ s ∈ strings, isSQLVerb p.table (operationVerb p.table s) = true →
        matchOperation p.table operations (operationVerb p.table s) = true) ∧
      (matchedOp ≠ [] ∨ ∃ s ∈ strings, operationVerb p.table s ≠ [] ∧
        matchOperation p.table operations (operationVerb p.table s) = true) := by
  induction strings generalizing matchedOp with
  | nil => simp [scanOperations]
  | cons s rest ih =>
    have blank : isSQLVerb p.table [] = false := by
      rw [isSQLVerb, show p.table.toUpper [] = [] from rfl]
      decide
    rw [scanOperations, List.forall_mem_cons]
    simp only [List.mem_cons, exists_eq_or_imp]
    generalize operationVerb p.table s = word
    by_cases empty : word = []
    · simp [empty, blank, ih]
    by_cases granted : matchOperation p.table operations word = true
    · simp [empty, granted, ih]
    by_cases verb : isSQLVerb p.table word = true
    · simp [empty, granted, verb]
    · simp [empty, granted, verb, ih]

theorem scanOperations_downgradable {denial : DenialInfo}
    (refused : p.scanOperations name operations strings matchedOp = some denial) : denial.downgradable = true := by
  induction strings generalizing matchedOp with
  | nil =>
    rw [scanOperations] at refused
    split at refused
    · rw [← Option.some.inj refused]
      rfl
    · cases refused
  | cons s rest ih =>
    rw [scanOperations] at refused
    split at refused
    · exact ih refused
    split at refused
    · exact ih refused
    split at refused
    · rw [← Option.some.inj refused]
      rfl
    · exact ih refused

/-- The arm of `op=`: a fault, or the verdict of the scan. -/
theorem evaluateOperations_cases (p : JWTPDP) (req : EnforceRequest) (argument : Bytes) (operations : List Bytes) :
    (p.Fault req (.allowedOperations argument operations) ∧
      ∃ denial, p.evaluateOperations req argument operations = some denial ∧ denial.downgradable = false) ∨
    ¬ p.Fault req (.allowedOperations argument operations) ∧
      ∃ strings, collectArgStrings (.object req.arguments) = some strings ∧
        p.evaluateOperations req argument operations = p.scanOperations req.targetName operations strings [] := by
  generalize evaluated : p.evaluateOperations req argument operations = verdict
  unfold evaluateOperations at evaluated
  dsimp only at evaluated
  split at evaluated
  · rename_i overridden
    exact .inl ⟨.inl overridden, _, evaluated.symm, rfl⟩
  split at evaluated
  · rename_i synthesized
    exact .inl ⟨.inr (.inl ((conditionArgumentFor_tool _).mp synthesized)), _, evaluated.symm, rfl⟩
  split at evaluated
  · rename_i named
    exact .inl ⟨.inr (.inr (.inl (by simpa using named))), _, evaluated.symm, rfl⟩
  split at evaluated
  · rename_i op found
    have foreign : isSQLVerb p.table op = false := by simpa using List.find?_some found
    exact .inl ⟨.inr (.inr (.inr (.inl ⟨op, List.mem_of_find?_eq_some found, foreign⟩))), _, evaluated.symm, rfl⟩
  split at evaluated
  · rename_i deep
    exact .inl ⟨.inr (.inr (.inr (.inr deep))), _, evaluated.symm, rfl⟩
  · rename_i shipped caller unnamed _ verbs _ strings read
    refine .inr ⟨?_, strings, read, evaluated.symm⟩
    rintro (overridden | synthesized | named | ⟨op, listed, foreign⟩ | deep)
    · exact shipped overridden
    · exact caller ((conditionArgumentFor_tool _).mpr synthesized)
    · exact unnamed (by simpa using named)
    · exact List.find?_eq_none.mp verbs op listed (by simp [foreign])
    · rw [read] at deep
      cases deep

theorem evaluateCondition_none_iff (cond : ClaimCondition) :
    p.evaluateCondition req cond = none ↔ p.Holds req cond := by
  cases cond with
  | allowedOperations argument operations =>
    rw [evaluateCondition, Holds]
    rcases evaluateOperations_cases p req argument operations with ⟨fault, denial, refused, -⟩ | ⟨sound, strings, read, scan⟩
    · simp [refused, fault]
    · have scanned (s : Bytes) : s ∈ strings ↔ StringIn (.object req.arguments) s := mem_collectArgStringsDepth read
      simp [scan, scanOperations_none_iff, sound, Granted, scanned]
  | allowedValues argument values =>
    rw [evaluateCondition, Holds]
    cases p.inner.verdict argument values req with
    | none | some cerr => simp
  | other conditionType => simp [evaluateCondition, Holds]

theorem evaluateCondition_blocks_iff {denial : DenialInfo} (cond : ClaimCondition)
    (refused : p.evaluateCondition req cond = some denial) : denial.downgradable = false ↔ p.Fault req cond := by
  cases cond with
  | allowedOperations argument operations =>
    rw [evaluateCondition] at refused
    rcases evaluateOperations_cases p req argument operations with
      ⟨fault, found, same, blocks⟩ | ⟨sound, strings, read, scan⟩
    · obtain rfl := Option.mem_unique same refused
      exact iff_of_true blocks fault
    · have forwards := scanOperations_downgradable (scan ▸ refused)
      exact iff_of_false (by simp [forwards]) sound
  | allowedValues argument values =>
    rw [evaluateCondition] at refused
    rw [Fault]
    cases asked : p.inner.verdict argument values req with
    | none =>
      rw [asked] at refused
      exact iff_of_true (by rw [← Option.some.inj refused]; rfl) (.inl rfl)
    | some verdict =>
      rw [asked] at refused
      obtain ⟨cerr, rfl, rfl⟩ := Option.map_eq_some_iff.mp refused
      simp [denyFromCondition, DenialInfo.downgradable]
  | other conditionType => exact iff_of_true (by rw [← Option.some.inj refused]; rfl) trivial

/-! A claim: all of its conditions. -/

theorem evaluateJWTConditions_none_iff (conditions : List ClaimCondition) :
    p.evaluateJWTConditions req conditions = none ↔ ∀ cond ∈ conditions, p.Holds req cond := by
  induction conditions with
  | nil => simp [evaluateJWTConditions]
  | cons cond rest ih =>
    rw [evaluateJWTConditions, List.forall_mem_cons, ← evaluateCondition_none_iff, ← ih]
    cases p.evaluateCondition req cond <;> simp

theorem firstFailing_cons {cond : ClaimCondition} : p.FirstFailing req (cond :: rest) failed ↔
    cond = failed ∧ ¬ p.Holds req cond ∨ p.Holds req cond ∧ p.FirstFailing req rest failed := by
  constructor
  · rintro ⟨before, after, split, held, fails⟩
    cases before with
    | nil =>
      obtain ⟨rfl, -⟩ := List.cons.inj split
      exact .inl ⟨rfl, fails⟩
    | cons first before =>
      obtain ⟨rfl, rfl⟩ := List.cons.inj split
      obtain ⟨here, held⟩ := List.forall_mem_cons.mp held
      exact .inr ⟨here, before, after, rfl, held, fails⟩
  · rintro (⟨rfl, fails⟩ | ⟨holds, before, after, rfl, held, fails⟩)
    · exact ⟨[], rest, rfl, by simp, fails⟩
    · exact ⟨cond :: before, after, rfl, List.forall_mem_cons.mpr ⟨holds, held⟩, fails⟩

/-- The refusal of a claim is that of its first failing condition. -/
theorem evaluateJWTConditions_blocks_iff {conditions : List ClaimCondition} {denial : DenialInfo}
    (refused : p.evaluateJWTConditions req conditions = some denial) :
    denial.downgradable = false ↔ ∃ cond, p.FirstFailing req conditions cond ∧ p.Fault req cond := by
  induction conditions with
  | nil => cases refused
  | cons cond rest ih =>
    rw [evaluateJWTConditions] at refused
    have holds : _ ↔ p.Holds req cond := evaluateCondition_none_iff cond
    split at refused
    · rename_i found here
      obtain rfl := Option.some.inj refused
      simp only [here, reduceCtorEq, false_iff] at holds
      simp [evaluateCondition_blocks_iff cond here, firstFailing_cons, holds]
    · rename_i here
      simp [ih refused, firstFailing_cons, holds.mp here]

/-! The token: any of its claims. -/

theorem keepDenial_blocks (lastDeny : Option DenialInfo) (denial : DenialInfo) :
    (keepDenial lastDeny denial).downgradable = false ↔
      (∃ last, lastDeny = some last ∧ last.downgradable = false) ∨ denial.downgradable = false := by
  cases lastDeny with
  | none => simp [keepDenial]
  | some last =>
    by_cases forwards : last.downgradable = true
    · simp [keepDenial, forwards]
    · simp [keepDenial, forwards]

theorem tryGrants_none_iff (constraints : List ClaimConstraint) (lastDeny : Option DenialInfo) :
    p.tryGrants req constraints lastDeny = none ↔
      (∃ matched ∈ constraints, ∀ cond ∈ matched.conditions, p.Holds req cond) ∨
        constraints = [] ∧ lastDeny = none := by
  induction constraints generalizing lastDeny with
  | nil => simp [tryGrants]
  | cons matched rest ih =>
    simp only [tryGrants, List.mem_cons, exists_eq_or_imp, ← evaluateJWTConditions_none_iff, reduceCtorEq, false_and,
      or_false]
    split
    · rename_i unconditional
      rw [List.isEmpty_iff] at unconditional
      simp [unconditional, evaluateJWTConditions]
    · split
      · rename_i denial refused
        simp [ih, refused, evaluateJWTConditions_none_iff]
      · rename_i passed
        simp [passed]

theorem tryGrants_blocks_iff {constraints : List ClaimConstraint} {lastDeny : Option DenialInfo} {denial : DenialInfo}
    (refused : p.tryGrants req constraints lastDeny = some denial) :
    denial.downgradable = false ↔ (∃ last, lastDeny = some last ∧ last.downgradable = false) ∨
      ∃ matched ∈ constraints, ∃ cond, p.FirstFailing req matched.conditions cond ∧ p.Fault req cond := by
  induction constraints generalizing lastDeny with
  | nil =>
    obtain rfl := refused
    simp
  | cons matched rest ih =>
    rw [tryGrants] at refused
    split at refused
    · cases refused
    split at refused
    · rename_i found here
      rw [ih refused]
      simp only [Option.some.injEq, exists_eq_left', keepDenial_blocks, evaluateJWTConditions_blocks_iff here,
        List.mem_cons, exists_eq_or_imp, or_assoc]
    · cases refused

end JWTPDP

/-- The conditions of a claim that parses and matches the target. -/
def claimConditions (target : RequestTarget) (claim : Bytes) : Option (List ClaimCondition) :=
  ((parseCapHead claim).bind (CapHead.constraint target)).map ClaimConstraint.conditions

theorem exists_constraint (caps : List Bytes) (target : RequestTarget) (demand : List ClaimCondition → Prop) :
    (∃ matched ∈ buildConstraintsFromParsed (parseCapHeads caps) target, demand matched.conditions) ↔
      ∃ claim ∈ caps, ∃ conditions, claimConditions target claim = some conditions ∧ demand conditions := by
  simp only [buildConstraintsFromParsed, parseCapHeads, List.filterMap_filterMap, List.mem_filterMap, claimConditions,
    Option.map_eq_some_iff]
  constructor
  · rintro ⟨matched, ⟨claim, mem, found⟩, demanded⟩
    exact ⟨claim, mem, _, ⟨matched, found, rfl⟩, demanded⟩
  · rintro ⟨claim, mem, _, ⟨matched, found, rfl⟩, demanded⟩
    exact ⟨matched, ⟨claim, mem, found⟩, demanded⟩

namespace JWTPDP
variable (p : JWTPDP) (req : EnforceRequest) (caps : List Bytes) (target : RequestTarget)

/-- Some claim for the target holds. -/
def Permits : Prop :=
  ∃ claim ∈ caps, ∃ conditions, claimConditions target claim = some conditions ∧
    ∀ cond ∈ conditions, p.Holds req cond

/-- Some claim for the target fails first on a fault. -/
def Faults : Prop :=
  ∃ claim ∈ caps, ∃ conditions, claimConditions target claim = some conditions ∧
    ∃ cond, p.FirstFailing req conditions cond ∧ p.Fault req cond

variable (sessionID : Bytes) (claims : Members) (args : Members)

theorem decide_cases : (buildConstraintsFromParsed (parseCapHeads caps) target = [] ∧
      ∃ denial, p.decide sessionID claims caps target args = some denial ∧ denial.downgradable = true) ∨
    buildConstraintsFromParsed (parseCapHeads caps) target ≠ [] ∧
      p.decide sessionID claims caps target args = p.tryGrants (condReq sessionID claims target args)
        (buildConstraintsFromParsed (parseCapHeads caps) target) none := by
  unfold decide
  dsimp only
  split
  · rename_i empty
    exact .inl ⟨empty, _, rfl, rfl⟩
  · rename_i nonempty
    exact .inr ⟨nonempty, rfl⟩

theorem decide_none_iff : p.decide sessionID claims caps target args = none ↔
    p.Permits (condReq sessionID claims target args) caps target := by
  rw [Permits, ← exists_constraint]
  rcases p.decide_cases caps target sessionID claims args with ⟨empty, denial, refused, -⟩ | ⟨nonempty, loop⟩
  · simp [refused, empty]
  · rw [loop, tryGrants_none_iff]
    simp [nonempty]

theorem decide_blocks_iff {denial : DenialInfo} (refused : p.decide sessionID claims caps target args = some denial) :
    denial.downgradable = false ↔ p.Faults (condReq sessionID claims target args) caps target := by
  rw [Faults, ← exists_constraint]
  rcases p.decide_cases caps target sessionID claims args with ⟨empty, found, here, forwards⟩ | ⟨-, loop⟩
  · obtain rfl := Option.mem_unique here refused
    simp [forwards, empty]
  · rw [loop] at refused
    rw [tryGrants_blocks_iff refused]
    simp

/-- A condition on operations passes on a tool only, so what it scans is the caller's own arguments. -/
theorem evaluated_arguments (argument : Bytes) (operations : List Bytes)
    (sound : ¬ p.Fault (condReq sessionID claims target args) (.allowedOperations argument operations)) :
    (condReq sessionID claims target args).arguments = args := by
  have tool : target.type = lit "tool" := by
    by_contra other
    exact sound (.inr (.inl other))
  simp only [condReq, jwtClaimEnforceRequest, jwtConditionArgs, tool]
  rfl

end JWTPDP

/-- A call goes on exactly when some claim for its target holds, and a refusal must block exactly when
some claim for the target fails first on a fault; neither depends on the order of the claims. Where a
condition on operations passes, every SQL verb among the arguments is granted and a granted verb is there. -/
theorem jwt_claims_grant_any (p : JWTPDP) (sessionID : Bytes) (claims : Members) (caps : List Bytes)
    (target : RequestTarget) (args : Members) :
    (p.decide sessionID claims caps target args = none ↔
      p.Permits (condReq sessionID claims target args) caps target) ∧
    (∀ denial, p.decide sessionID claims caps target args = some denial →
      (denial.downgradable = false ↔ p.Faults (condReq sessionID claims target args) caps target)) ∧
    (∀ caps', caps.Perm caps' →
      (p.decide sessionID claims caps' target args = none ↔ p.decide sessionID claims caps target args = none) ∧
      ∀ denial denial', p.decide sessionID claims caps target args = some denial →
        p.decide sessionID claims caps' target args = some denial' → denial'.downgradable = denial.downgradable) ∧
    ∀ argument operations,
      p.evaluateCondition (condReq sessionID claims target args) (.allowedOperations argument operations) = none →
      (∀ s, StringIn (.object args) s → isSQLVerb p.table (operationVerb p.table s) = true →
        matchOperation p.table operations (operationVerb p.table s) = true) ∧
      ∃ s, StringIn (.object args) s ∧ operationVerb p.table s ≠ [] ∧
        matchOperation p.table operations (operationVerb p.table s) = true := by
  refine ⟨p.decide_none_iff caps target sessionID claims args,
    fun denial => p.decide_blocks_iff caps target sessionID claims args, fun caps' order => ⟨?_, ?_⟩, ?_⟩
  · rw [p.decide_none_iff, p.decide_none_iff, JWTPDP.Permits, JWTPDP.Permits]
    simp [order.mem_iff]
  · intro denial denial' refused refused'
    have same := p.decide_blocks_iff caps target sessionID claims args refused
    have same' := p.decide_blocks_iff caps' target sessionID claims args refused'
    rw [JWTPDP.Faults] at same same'
    simp only [← order.mem_iff, ← same] at same'
    exact Bool.eq_iff_iff.mpr (by simpa using not_congr same')
  · intro argument operations passed
    obtain ⟨sound, granted⟩ := (JWTPDP.evaluateCondition_none_iff _).mp passed
    rwa [JWTPDP.Granted, p.evaluated_arguments target sessionID claims args argument operations sound] at granted

/-- A read of a database under one of two claims for it. -/
theorem jwt_claims_grant_select : (JWTPDP.mk ⟨asciiFold, id⟩ ⟨fun _ => false, fun _ _ _ => none⟩).Permits
      (condReq [] [] ⟨lit "tool", lit "query_db"⟩ [(lit "sql", .string (lit "select 1"))])
      [lit "tool:query_db?op=INSERT", lit "tool:query_db?op=SELECT"] ⟨lit "tool", lit "query_db"⟩ :=
  (jwt_claims_grant_any _ _ _ _ _ _).1.mp (rfl)

end Eunox.JwtGrants
