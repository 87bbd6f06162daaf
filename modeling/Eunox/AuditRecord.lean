import Eunox.JsonString
import Eunox.Rfc3339

/-! The audit record: its on-disk line, how a line is decoded, and how its
signature is checked. One table of fields drives both directions, as the struct
tags drive `encoding/json`. The two digest functions are parameters. -/
namespace Eunox.Audit
open ByteString JsonText PathPattern

/-- `auditRecord`. The details are a raw JSON value, kept as its text. -/
structure AuditRecord where
  classUID : ℤ := 0
  categoryUID : ℤ := 0
  activityID : ℤ := 0
  time : Bytes := []
  seq : ℕ := 0
  requestID : Bytes := []
  sessionID : Bytes := []
  agentID : Bytes := []
  taskID : Bytes := []
  userID : Bytes := []
  tokenID : Bytes := []
  pep : Bytes := []
  upstream : Bytes := []
  policyVersion : Bytes := []
  policySHA256 : Bytes := []
  targetType : Bytes := []
  target : Bytes := []
  method : Bytes := []
  decision : Bytes := []
  auditOnly : Bool := false
  denialCode : Bytes := []
  conditionType : Bytes := []
  details : Option Text := none
  obligations : List Bytes := []
  labelsOut : List Bytes := []
  carriedLabels : List Bytes := []
  protocolRevision : Bytes := []
  keyID : Bytes := []
  prevHMAC : Bytes := []
  hmac : Bytes := []

/-- `auditGenesisPrev`. -/
def genesisPrev : Bytes := lit "sha256:genesis"

/-! The fields. -/

/-- How a field takes a value, with a flag for a value of the wrong type, and how
it is written, nothing where `omitempty` leaves it out. -/
structure Field where
  name : Bytes
  store : Text → AuditRecord → AuditRecord × Bool
  spell : AuditRecord → Option Text

def decimalValue (digits : Bytes) : ℕ := Rfc3339.number digits

/-- `strconv.ParseUint` on a JSON number. -/
def parseUint (literal : Bytes) : Option ℕ :=
  if !literal.isEmpty && literal.all isDigit && decimalValue literal < 2 ^ 64 then
    some (decimalValue literal)
  else none

/-- `strconv.ParseInt` on a JSON number. -/
def parseInt (literal : Bytes) : Option ℤ :=
  let negative : Bool := literal.head? = some 45
  let digits := if negative then literal.tail else literal
  if digits.isEmpty || !digits.all isDigit then none
  else if negative then
    if decimalValue digits ≤ 2 ^ 63 then some (-decimalValue digits) else none
  else if decimalValue digits < 2 ^ 63 then some (decimalValue digits) else none

def intField (name : String) (get : AuditRecord → ℤ) (set : AuditRecord → ℤ → AuditRecord) :
    Field where
  name := lit name
  store text record :=
    match text with
    | .null => (record, false)
    | .number literal =>
      match parseInt literal with
      | some n => (set record n, false)
      | none => (record, true)
    | _ => (record, true)
  spell record := some (.number (decimalInt (get record)))

def uintField (name : String) (get : AuditRecord → ℕ) (set : AuditRecord → ℕ → AuditRecord) :
    Field where
  name := lit name
  store text record :=
    match text with
    | .null => (record, false)
    | .number literal =>
      match parseUint literal with
      | some n => (set record n, false)
      | none => (record, true)
    | _ => (record, true)
  spell record := some (.number (decimal (get record)))

def quoted (s : Bytes) : Text := .string (quote s)

def stringField (name : String) (omitEmpty : Bool) (get : AuditRecord → Bytes)
    (set : AuditRecord → Bytes → AuditRecord) : Field where
  name := lit name
  store text record :=
    match text with
    | .null => (record, false)
    | .string body => (set record (unquote body), false)
    | _ => (record, true)
  spell record :=
    if omitEmpty && (get record).isEmpty then none else some (quoted (get record))

def boolField (name : String) (get : AuditRecord → Bool) (set : AuditRecord → Bool → AuditRecord) :
    Field where
  name := lit name
  store text record :=
    match text with
    | .null => (record, false)
    | .bool b => (set record b, false)
    | _ => (record, true)
  spell record := if get record then some (.bool true) else none

/-- `json.RawMessage` takes any value, `null` included. -/
def rawField (name : String) (get : AuditRecord → Option Text)
    (set : AuditRecord → Option Text → AuditRecord) : Field where
  name := lit name
  store text record := (set record (some text), false)
  spell record := (get record).map Text.compact

/-- The elements of a string array: `null` and a value of the wrong type leave
the element that was there. -/
def storeElements : List (Entry Text) → List Bytes → List Bytes × Bool
  | [], _ => ([], false)
  | entry :: entries, old =>
    let (rest, wrong) := storeElements entries old.tail
    match entry.value with
    | .string body => (unquote body :: rest, wrong)
    | .null => (old.headD [] :: rest, wrong)
    | _ => (old.headD [] :: rest, true)

def listField (name : String) (get : AuditRecord → List Bytes)
    (set : AuditRecord → List Bytes → AuditRecord) : Field where
  name := lit name
  store text record :=
    match text with
    | .null => (set record [], false)
    | .container .square _ entries =>
      let (items, wrong) := storeElements entries (get record)
      (set record items, wrong)
    | _ => (record, true)
  spell record :=
    if (get record).isEmpty then none
    else some (.container .square [] ((get record).map fun item => ⟨[], none, quoted item, []⟩))

/-- The fields a signature covers, in declaration order. -/
def bodyFields : List Field :=
  [intField "class_uid" (·.classUID) (fun r v => { r with classUID := v }),
   intField "category_uid" (·.categoryUID) (fun r v => { r with categoryUID := v }),
   intField "activity_id" (·.activityID) (fun r v => { r with activityID := v }),
   stringField "time" false (·.time) (fun r v => { r with time := v }),
   uintField "seq" (·.seq) (fun r v => { r with seq := v }),
   stringField "request_id" false (·.requestID) (fun r v => { r with requestID := v }),
   stringField "session_id" true (·.sessionID) (fun r v => { r with sessionID := v }),
   stringField "agent_id" true (·.agentID) (fun r v => { r with agentID := v }),
   stringField "task_id" true (·.taskID) (fun r v => { r with taskID := v }),
   stringField "user_id" true (·.userID) (fun r v => { r with userID := v }),
   stringField "token_id" true (·.tokenID) (fun r v => { r with tokenID := v }),
   stringField "pep" true (·.pep) (fun r v => { r with pep := v }),
   stringField "upstream" true (·.upstream) (fun r v => { r with upstream := v }),
   stringField "policy_version" true (·.policyVersion) (fun r v => { r with policyVersion := v }),
   stringField "policy_sha256" true (·.policySHA256) (fun r v => { r with policySHA256 := v }),
   stringField "target_type" true (·.targetType) (fun r v => { r with targetType := v }),
   stringField "target" true (·.target) (fun r v => { r with target := v }),
   stringField "method" true (·.method) (fun r v => { r with method := v }),
   stringField "decision" false (·.decision) (fun r v => { r with decision := v }),
   boolField "audit_only" (·.auditOnly) (fun r v => { r with auditOnly := v }),
   stringField "denial_code" true (·.denialCode) (fun r v => { r with denialCode := v }),
   stringField "condition_type" true (·.conditionType) (fun r v => { r with conditionType := v }),
   rawField "details" (·.details) (fun r v => { r with details := v }),
   listField "obligations" (·.obligations) (fun r v => { r with obligations := v }),
   listField "labels_out" (·.labelsOut) (fun r v => { r with labelsOut := v }),
   listField "carried_labels" (·.carriedLabels) (fun r v => { r with carriedLabels := v }),
   stringField "protocol_revision" true (·.protocolRevision)
     (fun r v => { r with protocolRevision := v }),
   stringField "key_id" true (·.keyID) (fun r v => { r with keyID := v }),
   stringField "prev_hmac" false (·.prevHMAC) (fun r v => { r with prevHMAC := v })]

/-- The signature, the struct's last field. -/
def macField : Field := stringField "_hmac" true (·.hmac) (fun r v => { r with hmac := v })

def fields : List Field := bodyFields ++ [macField]

/-! Writing. -/

def member (name : Bytes) (value : Text) : Entry Text := ⟨[], some ⟨name, [], []⟩, value, []⟩

variable (digests : Digests) (keys : Option Keys) (record : AuditRecord)

def AuditRecord.text : Text :=
  .container .curly [] (fields.filterMap fun field => (field.spell record).map (member field.name))

/-- `json.Marshal` of the record. -/
def AuditRecord.marshal : Bytes := record.text.print

def macFieldPrefix : Bytes := lit ",\"_hmac\":"

def isPlainJSONString (s : Bytes) : Bool :=
  s.all fun byte => !(byte < 0x20 || 0x7e < byte) &&
    !(byte = 34 || byte = 92 || byte = 60 || byte = 62 || byte = 38)

def appendJSONString (dst s : Bytes) : Bytes :=
  if isPlainJSONString s then dst ++ (34 :: s ++ [34]) else dst ++ (quoted s).print

/-- `signedRecordLine`; nothing for a body that is no object. -/
def signedRecordLine (body mac : Bytes) : Option Bytes :=
  if body.getLast? = some 125 then
    some (appendJSONString (body.dropLast ++ macFieldPrefix) mac ++ [125])
  else none

/-- `isCanonicalSignedLine`; nothing for a body that is no object. -/
def isCanonicalSignedLine (line body mac : Bytes) : Option Bool :=
  if body.getLast? = some 125 then
    match cutPrefix body.dropLast line with
    | none => some false
    | some tail =>
      if tail.length < macFieldPrefix.length + 1 ||
          tail.take macFieldPrefix.length ≠ macFieldPrefix || tail.getLast? ≠ some 125 then
        some false
      else some ((tail.drop macFieldPrefix.length).dropLast = appendJSONString [] mac)
  else none

/-! Decoding. -/

/-- Why a line is refused. -/
inductive DecodeError where
  | malformed
  | wrongType
  | unknownField
  | trailingData
  deriving DecidableEq, Repr

/-- `strictRejectionIsFatal`. -/
def DecodeError.fatal : DecodeError → Bool
  | .unknownField => false
  | _ => true

/-- A rune under `foldName`, for the orbits that reach ASCII. -/
def foldRune (rune : ℕ) : ℕ :=
  if 97 ≤ rune && rune ≤ 122 then rune - 32
  else if rune = 0x17F then 83
  else if rune = 0x212A then 75
  else rune

def foldFrom : ℕ → Bytes → List ℕ
  | 0, _ => []
  | _ + 1, [] => []
  | bound + 1, byte :: rest =>
    let (rune, size) := decodeRune (byte :: rest)
    foldRune rune :: foldFrom bound ((byte :: rest).drop size)

def foldName (name : Bytes) : List ℕ := foldFrom name.length name

/-- The field a key names: by its exact name, or else by case folding. -/
def fieldFor (key : Bytes) : Option Field :=
  (fields.find? fun field => field.name == key).or
    (fields.find? fun field => foldName field.name == foldName key)

/-- One member into the record. The first error is kept and decoding goes on. -/
def storeMember (disallowUnknown : Bool) (state : AuditRecord × Option DecodeError)
    (entry : Entry Text) : AuditRecord × Option DecodeError :=
  match entry.label with
  | none => state
  | some label =>
    match fieldFor (unquote label.key) with
    | none => (state.1, if disallowUnknown then state.2.or (some .unknownField) else state.2)
    | some field =>
      let (record, wrong) := field.store entry.value state.1
      (record, if wrong then state.2.or (some .wrongType) else state.2)

/-- `Decoder.Decode` into a fresh record, after the value has been scanned. -/
def decodeText (disallowUnknown : Bool) : Text → AuditRecord × Option DecodeError
  | .null => ({}, none)
  | .container .curly _ entries => entries.foldl (storeMember disallowUnknown) ({}, none)
  | _ => ({}, some .wrongType)

/-- `Decoder.More`: something other than a closing bracket follows. -/
def more (rest : Bytes) : Bool :=
  match (readSpace rest).2 with
  | [] => false
  | byte :: _ => byte ≠ 93 && byte ≠ 125

def strictDecodeAuditRecord (line : Bytes) : Except DecodeError AuditRecord :=
  match readText line with
  | none => .error .malformed
  | some (text, rest) =>
    match decodeText true text with
    | (_, some fault) => .error fault
    | (record, none) => if more rest then .error .trailingData else .ok record

def lenientDecodeAuditRecord (line : Bytes) : AuditRecord × Bool :=
  match readText line with
  | none => ({}, false)
  | some (text, rest) =>
    let (record, fault) := decodeText false text
    (record, fault.isNone && !more rest)

/-- `recordDecode`: whether the line is a record at all, and why it may not be
verified. -/
structure RecordDecode where
  wellFormed : Bool
  verifyErr : Option DecodeError
  deriving DecidableEq

def decodeAuditRecord (line : Bytes) : AuditRecord × RecordDecode :=
  match strictDecodeAuditRecord line with
  | .ok record => (record, ⟨true, none⟩)
  | .error fault =>
    if fault.fatal then ({}, ⟨false, some fault⟩)
    else
      let (record, wellFormed) := lenientDecodeAuditRecord line
      (record, ⟨wellFormed, some fault⟩)

/-! Signatures. -/

/-- HMAC-SHA256 of a key and a message, and SHA-256. -/
structure Digests where
  hmac : Bytes → Bytes → Bytes
  sum : Bytes → Bytes

def hexEncode (s : Bytes) : Bytes := s.flatMap fun byte => [hexDigit (byte.toNat / 16), hexDigit (byte.toNat % 16)]

def recordMAC (key body : Bytes) : Bytes := lit "sha256:" ++ hexEncode (digests.hmac key body)

def hmacKeyID (key : Bytes) : Bytes := hexEncode ((digests.sum key).take 8)

/-- What a `Sink` holds of keys: a verification ring, or the one active key. -/
structure Keys where
  verifyKeys : Option (List (Bytes × Bytes)) := none
  key : Option Bytes := none
  keyID : Bytes := []

/-- `NewVerifier`: the ring maps the id of each key to it, the last one winning. -/
def newVerifier (keys : List Bytes) : Keys where
  verifyKeys := some (keys.foldl (fun ring key =>
    (hmacKeyID digests key, key) :: ring.filter (·.1 ≠ hmacKeyID digests key)) [])

/-- Why a record's signature was not compared. -/
inductive VerifyError where
  | unsigned
  | notObject
  | nonCanonical
  | keyIDNotInRing
  | noKeyTried
  deriving DecidableEq, Repr

/-- The ring a verifier looks keys up in; a nil verifier holds none. -/
def Keys.ring (digests : Digests) : Option Keys → Option (List (Bytes × Bytes))
  | none => none
  | some keys =>
    match keys.verifyKeys with
    | some ring => some ring
    | none => keys.key.map fun key => [(if keys.keyID.isEmpty then hmacKeyID digests key else keys.keyID, key)]

/-- `keysToTry`. -/
def keysToTry (keyID : Bytes) :
    Except VerifyError (List Bytes) :=
  match Keys.ring digests keys with
  | none => .ok []
  | some ring =>
    if keyID.isEmpty then .ok (ring.map (·.2))
    else
      match ring.lookup keyID with
      | some key => .ok [key]
      | none => .error .keyIDNotInRing

/-- `verifyDecodedRecord`. -/
def verifyDecodedRecord (line : Bytes)
    (record : AuditRecord) : Except VerifyError Bool :=
  if record.hmac.isEmpty then .error .unsigned
  else
    let body := { record with hmac := [] }.marshal
    match isCanonicalSignedLine (trimSpace line) body record.hmac with
    | none => .error .notObject
    | some false => .error .nonCanonical
    | some true =>
      match keysToTry digests keys record.keyID with
      | .error fault => .error fault
      | .ok candidates =>
        if candidates.any fun key => record.hmac == recordMAC digests key body then .ok true
        else if candidates.isEmpty then .error .noKeyTried
        else .ok false

end Eunox.Audit
