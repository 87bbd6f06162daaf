import Eunox.AuditRecord

/-! `VerifyLog`: the pass over an audit log that recomputes every signature and
walks the chain of `prev_hmac` and `seq`. The findings it prints are kept as
values. -/
namespace Eunox.Audit
open ByteString

/-! What a pass reports. -/

/-- The report filters; `since` counts from the zero time, which stands for no
bound. -/
structure VerifyOptions where
  requestID : Bytes := []
  taskID : Bytes := []
  since : ℤ := 0
  collect : Bool := false

structure VerifyResult where
  total : ℕ := 0
  valid : ℕ := 0
  invalid : ℕ := 0
  skipped : ℕ := 0
  unknownKey : ℕ := 0
  unverifiable : ℕ := 0
  chainBreaks : ℕ := 0
  firstSeq : ℕ := 0
  firstVerifiedSeq : ℕ := 0
  deriving DecidableEq, Repr

/-- `OK`. -/
def VerifyResult.ok (result : VerifyResult) : Bool :=
  result.invalid = 0 && result.chainBreaks = 0 && result.unknownKey = 0 && result.unverifiable = 0

/-- The tally one record is counted in. -/
inductive Tally where
  | valid
  | invalid
  | skipped
  | unknownKey
  | unverifiable
  deriving DecidableEq, Repr

def VerifyResult.count (result : VerifyResult) : Tally → VerifyResult
  | .valid => { result with valid := result.valid + 1 }
  | .invalid => { result with invalid := result.invalid + 1 }
  | .skipped => { result with skipped := result.skipped + 1 }
  | .unknownKey => { result with unknownKey := result.unknownKey + 1 }
  | .unverifiable => { result with unverifiable := result.unverifiable + 1 }

/-- `RecordStatus`. -/
inductive RecordStatus where
  | verified
  | invalid
  | unknownKey
  | unverifiable
  | unsigned
  deriving DecidableEq, Repr

/-- What `classify` concluded, with the time it parsed. -/
structure RecordVerdict where
  status : RecordStatus
  instant : Option ℤ := none
  deriving DecidableEq

structure JoinedRecord where
  pep : Bytes
  seq : ℕ
  time : Bytes
  instant : Option ℤ
  taskID : Bytes
  method : Bytes
  targetType : Bytes
  target : Bytes
  decision : Bytes
  denialCode : Bytes
  status : RecordStatus
  deriving DecidableEq

/-! Findings. -/

inductive DiagnosticKind where
  | unclassified
  | malformed
  | decoy
  | unsigned
  | unknownKey
  | unverifiable
  | verifyError
  | mismatch
  | malformedTime
  | chainBreak
  | seqGap
  deriving DecidableEq, Repr

def diagnosticKinds : List DiagnosticKind :=
  [.unclassified, .malformed, .decoy, .unsigned, .unknownKey, .unverifiable, .verifyError,
    .mismatch, .malformedTime, .chainBreak, .seqGap]

/-- Why a record may not be verified, or was not. -/
inductive RecordFault where
  | decode (fault : DecodeError)
  | verify (fault : VerifyError)
  deriving DecidableEq, Repr

/-- One line of the findings, as the values it is formatted from. -/
inductive Finding where
  | malformed (record : ℕ)
  | decoy (record : ℕ)
  | unsigned (record seq : ℕ)
  | unknownKey (seq : ℕ) (keyID : Bytes)
  | unverifiable (seq : ℕ)
  | verifyError (seq : ℕ) (fault : RecordFault)
  | mismatch (seq : ℕ) (requestID sessionID target : Bytes)
  | malformedTime (seq : ℕ) (time : Bytes)
  | alsoMalformedTime (seq : ℕ) (time : Bytes)
  | genesis (prevHMAC : Bytes)
  | untrustedAnchor (seq : ℕ)
  | brokenLink (seq : ℕ)
  | seqGap (seq prevSeq : ℕ)
  | elided (kind : DiagnosticKind)
  | summary (kind : DiagnosticKind) (seen first last : ℕ)
  deriving DecidableEq, Repr

/-- How often a finding occurred, and at which records first and last. -/
structure DiagnosticCap where
  seen : ℕ := 0
  first : ℕ := 0
  last : ℕ := 0
  deriving DecidableEq, Repr

def maxRecordDiagnostics : ℕ := 10

/-! The pass. -/

/-- `auditChainVerifier`: the tallies, the chain anchor, the findings and the
records handed to the collector. -/
structure ChainVerifier where
  res : VerifyResult := {}
  havePrev : Bool := false
  prevHMAC : Bytes := []
  prevSeq : ℕ := 0
  diags : DiagnosticKind → DiagnosticCap := fun _ => {}
  prevRecordInvalid : Bool := false
  out : List Finding := []
  collected : List JoinedRecord := []

namespace ChainVerifier

section
variable (v : ChainVerifier)

section
variable (kind : DiagnosticKind) (finding : Finding)

def print : ChainVerifier := { v with out := v.out ++ [finding] }

def count (tally : Tally) : ChainVerifier := { v with res := v.res.count tally }

def addBreak : ChainVerifier := { v with res := { v.res with chainBreaks := v.res.chainBreaks + 1 } }

/-- `admitDiagnostic`: count the occurrence, and whether its line is printed. -/
def admitDiagnostic : ChainVerifier × Bool :=
  let cap := v.diags kind
  let cap : DiagnosticCap := ⟨cap.seen + 1, if cap.seen = 0 then v.res.total else cap.first, v.res.total⟩
  let v := { v with diags := Function.update v.diags kind cap }
  if cap.seen ≤ maxRecordDiagnostics then (v, true)
  else if cap.seen = maxRecordDiagnostics + 1 then (v.print (.elided kind), false)
  else (v, false)

/-- Count the occurrence and print its line when it is admitted. -/
def note : ChainVerifier :=
  let (v, printed) := v.admitDiagnostic kind
  if printed then v.print finding else v

/-- The same for the two findings that carry a remark on the record's time. -/
def noteWithTime (record : AuditRecord) (malformedTime : Bool) : ChainVerifier :=
  let (v, printed) := v.admitDiagnostic kind
  if printed then
    let v := v.print finding
    if malformedTime then v.print (.alsoMalformedTime record.seq record.time) else v
  else v

/-- A finding changes nothing but the findings. -/
theorem admitDiagnostic_frame : ∃ diags out, (v.admitDiagnostic kind).1 = { v with diags := diags, out := out } := by
  unfold admitDiagnostic
  dsimp only
  split
  · exact ⟨_, _, rfl⟩
  · split <;> exact ⟨_, _, rfl⟩

theorem note_frame : ∃ diags out, v.note kind finding = { v with diags := diags, out := out } := by
  obtain ⟨diags, out, admitted⟩ := v.admitDiagnostic_frame kind
  simp only [note, admitted]
  split <;> exact ⟨_, _, rfl⟩

theorem noteWithTime_frame (record : AuditRecord) (malformedTime : Bool) : ∃ diags out,
    v.noteWithTime kind finding record malformedTime = { v with diags := diags, out := out } := by
  obtain ⟨diags, out, admitted⟩ := v.admitDiagnostic_frame kind
  simp only [noteWithTime, admitted]
  split
  · split <;> exact ⟨_, _, rfl⟩
  · exact ⟨_, _, rfl⟩

end

variable (record : AuditRecord)

/-- `checkGenesisAnchor`. -/
def checkGenesisAnchor : ChainVerifier :=
  if record.seq ≠ 1 || record.prevHMAC = genesisPrev then v
  else v.addBreak.note .chainBreak (.genesis record.prevHMAC)

/-- `checkAnchorLink`. -/
def checkAnchorLink : ChainVerifier :=
  let v :=
    if v.prevRecordInvalid then
      { v.addBreak.note .chainBreak (.untrustedAnchor record.seq) with prevRecordInvalid := false }
    else v
  if record.prevHMAC ≠ v.prevHMAC then v.addBreak.note .chainBreak (.brokenLink record.seq) else v

/-- `checkSeqContiguity`, in 64-bit arithmetic. -/
def checkSeqContiguity : ChainVerifier :=
  if record.seq = (v.prevSeq + 1) % 2 ^ 64 then v
  else v.addBreak.note .seqGap (.seqGap record.seq v.prevSeq)

/-- `updateChain`. -/
def updateChain : ChainVerifier :=
  let v :=
    if v.havePrev then (v.checkAnchorLink record).checkSeqContiguity record
    else { v with res := { v.res with firstSeq := record.seq } }.checkGenesisAnchor record
  { v with havePrev := true, prevHMAC := record.hmac, prevSeq := record.seq }

end

end ChainVerifier

section
variable (opts : VerifyOptions) (record : AuditRecord)

/-- `recordTime`. -/
def recordTime : Option ℤ := Rfc3339.parse record.time

/-- `inJoinWindow`. -/
def VerifyOptions.inJoinWindow : Bool :=
  (opts.taskID.isEmpty || record.taskID = opts.taskID) &&
    (opts.requestID.isEmpty || record.requestID = opts.requestID)

/-- Whether a record whose time parsed is inside the report window. -/
def VerifyOptions.inReportWindow (time : ℤ) : Bool :=
  opts.inJoinWindow record && (opts.since = 0 || opts.since ≤ time)

/-- `decodableVerdict`. -/
def decodableVerdict (status : RecordStatus) :
    RecordVerdict :=
  if opts.collect then ⟨status, recordTime record⟩ else ⟨status, none⟩

end

section
variable (digests : Digests) (keys : Option Keys)

/-- What the signature check says of a record: a line the strict decode refused
is reported on that refusal alone. -/
def checkSignature (line : Bytes) (record : AuditRecord) (dec : RecordDecode) :
    Except RecordFault Bool :=
  match dec.verifyErr with
  | some fault => .error (.decode fault)
  | none =>
    match verifyDecodedRecord digests keys line record with
    | .error fault => .error (.verify fault)
    | .ok verified => .ok verified

namespace ChainVerifier

variable (opts : VerifyOptions) (v : ChainVerifier) (record : AuditRecord)

/-- A verified record proves its own seq; the least one is kept. -/
def recordVerifiedSeq : ChainVerifier :=
  if v.res.firstVerifiedSeq = 0 || record.seq < v.res.firstVerifiedSeq then
    { v with res := { v.res with firstVerifiedSeq := record.seq } }
  else v

/-- The arms of `classify` that follow the signature check. -/
def classifySigned
    (checked : Except RecordFault Bool) : ChainVerifier × RecordVerdict :=
  let time := recordTime record
  match checked with
  | .error (.verify .keyIDNotInRing) =>
    ((v.noteWithTime .unknownKey (.unknownKey record.seq record.keyID) record time.isNone).count
      .unknownKey, ⟨.unknownKey, time⟩)
  | .error (.verify .noKeyTried) =>
    ((v.noteWithTime .unverifiable (.unverifiable record.seq) record time.isNone).count
      .unverifiable, ⟨.unverifiable, time⟩)
  | .error fault =>
    ({ (v.note .verifyError (.verifyError record.seq fault)).count .invalid with
        prevRecordInvalid := true }, ⟨.invalid, time⟩)
  | .ok false =>
    ({ (v.note .mismatch (.mismatch record.seq record.requestID record.sessionID
        record.target)).count .invalid with prevRecordInvalid := true }, ⟨.invalid, time⟩)
  | .ok true =>
    let v := v.recordVerifiedSeq record
    match time with
    | none =>
      ((v.note .malformedTime (.malformedTime record.seq record.time)).count .invalid,
        ⟨.invalid, none⟩)
    | some instant =>
      (v.count (if opts.inReportWindow record instant then .valid else .skipped),
        ⟨.verified, some instant⟩)

/-- `classify`. -/
def classify (line : Bytes) (record : AuditRecord)
    (dec : RecordDecode) (forgedSeq0 unsigned : Bool) : ChainVerifier × RecordVerdict :=
  if !dec.wellFormed then
    ((v.note .malformed (.malformed v.res.total)).count .invalid, ⟨.invalid, none⟩)
  else if forgedSeq0 then
    ((v.note .decoy (.decoy v.res.total)).count .invalid, decodableVerdict opts record .invalid)
  else if unsigned then
    ((v.note .unsigned (.unsigned v.res.total record.seq)).count .invalid,
      decodableVerdict opts record .unsigned)
  else v.classifySigned opts record (checkSignature digests keys line record dec)

/-- `collect`. -/
def collect (opts : VerifyOptions) (v : ChainVerifier) (record : AuditRecord) (dec : RecordDecode)
    (verdict : RecordVerdict) : ChainVerifier :=
  if !opts.collect || !dec.wellFormed || !opts.inJoinWindow record then v
  else { v with collected := v.collected ++ [
    { pep := record.pep, seq := record.seq, time := record.time, instant := verdict.instant,
      taskID := record.taskID, method := record.method, targetType := record.targetType,
      target := record.target, decision := record.decision, denialCode := record.denialCode,
      status := verdict.status }] }

/-- The chain after a line: only a signed record that is no seq-0 decoy moves it. -/
def walkChain (dec : RecordDecode)
    (forgedSeq0 unsigned : Bool) : ChainVerifier :=
  if dec.wellFormed && !forgedSeq0 && !unsigned then v.updateChain record else v

/-- `processLine`. -/
def processLine (line : Bytes) : ChainVerifier :=
  let v := { v with res := { v.res with total := v.res.total + 1 } }
  let (record, dec) := decodeAuditRecord line
  let unsigned := record.hmac.isEmpty
  let forgedSeq0 := record.seq = 0 && !unsigned
  let v := v.walkChain record dec forgedSeq0 unsigned
  let (v, verdict) := v.classify digests keys opts line record dec forgedSeq0 unsigned
  v.collect opts record dec verdict

/-- `reportSuppressedDiagnostics`. -/
def reportSuppressedDiagnostics : ChainVerifier :=
  diagnosticKinds.foldl (fun v kind =>
    let cap := v.diags kind
    if cap.seen ≤ maxRecordDiagnostics then v
    else v.print (.summary kind cap.seen cap.first cap.last)) v

end ChainVerifier
end

/-! The stream. -/

/-- What a reader delivers: its bytes, and the fault it ends with if it does not
end cleanly. -/
structure Stream where
  bytes : Bytes
  fault : Option Bytes := none

inductive LogError where
  | tooLong
  | unterminatedTail
  | read (fault : Bytes)
  deriving DecidableEq, Repr

def auditScanBufferBytes : ℕ := 4 * 2 ^ 20

/-- The carriage return `bufio.ScanLines` drops. -/
def dropCR (line : Bytes) : Bytes := if line.getLast? = some 13 then line.dropLast else line

/-- The lines a scanner with a buffer of this size yields, and why it stopped
before the end: a line its buffer cannot hold, or a last line without newline.
A blank last line is one like any other. -/
def scanSignedLines (buffer : ℕ) : ℕ → Bytes → List Bytes × Option LogError
  | 0, _ => ([], none)
  | bound + 1, s =>
    match cut 10 s with
    | some (line, rest) =>
      if buffer < line.length + 1 then ([], some .tooLong)
      else
        let (lines, stop) := scanSignedLines buffer bound rest
        (dropCR line :: lines, stop)
    | none =>
      if buffer ≤ s.length then ([], some .tooLong)
      else if s.isEmpty then ([], none)
      else if (trimSpace s).isEmpty then ([dropCR s], none)
      else ([], some .unterminatedTail)

/-- `NewLineScanner` run to its end. A read fault is reported before an
unterminated tail. -/
def Stream.scan (stream : Stream) : List Bytes × Option LogError :=
  let (lines, stop) := scanSignedLines auditScanBufferBytes (stream.bytes.length + 1) stream.bytes
  match stop, stream.fault with
  | some .tooLong, _ => (lines, some .tooLong)
  | _, some fault => (lines, some (.read fault))
  | _, none => (lines, stop)

/-- The lines a pass processes. -/
def Stream.records (stream : Stream) : List Bytes := stream.scan.1.filter fun line => !(trimSpace line).isEmpty

/-- `VerifyLog`. -/
def verifyLog (digests : Digests) (keys : Option Keys) (opts : VerifyOptions) (stream : Stream) :
    ChainVerifier × Option LogError :=
  ((stream.records.foldl (ChainVerifier.processLine digests keys opts) {}).reportSuppressedDiagnostics,
    stream.scan.2)

end Eunox.Audit
