import Eunox.AuditVerify

/-! The report filters of a verification pass. A pass is compared with the same
pass under other filters through `unfiltered`, which forgets what a filter may
change: whether a verified record is counted valid or skipped, and which records
the collector received. -/
namespace Eunox.Audit
open ByteString (Bytes)

namespace ChainVerifier

section
variable (digests : Digests) (keys : Option Keys) (opts : VerifyOptions) (v : ChainVerifier) (line : Bytes)
  (record : AuditRecord) (dec : RecordDecode) (kind : DiagnosticKind) (finding : Finding)
  (forgedSeq0 unsigned malformedTime : Bool)

/-- What no filter may change. -/
def unfiltered : ChainVerifier :=
  { v with
    res := { v.res with valid := v.res.valid + v.res.skipped, skipped := 0 }
    collected := [] }

@[simp] theorem unfiltered_print :
    (v.print finding).unfiltered = v.unfiltered.print finding := rfl

@[simp] theorem unfiltered_addBreak : v.addBreak.unfiltered = v.unfiltered.addBreak := rfl

theorem unfiltered_admitDiagnostic :
    (v.admitDiagnostic kind).1.unfiltered = (v.unfiltered.admitDiagnostic kind).1 ∧
      (v.admitDiagnostic kind).2 = (v.unfiltered.admitDiagnostic kind).2 := by
  unfold admitDiagnostic
  dsimp [unfiltered]
  split
  · exact ⟨rfl, rfl⟩
  · split <;> exact ⟨rfl, rfl⟩

@[simp] theorem unfiltered_note :
    (v.note kind finding).unfiltered = v.unfiltered.note kind finding := by
  obtain ⟨state, printed⟩ := unfiltered_admitDiagnostic v kind
  simp only [note, ← state, ← printed]
  split <;> simp

@[simp] theorem unfiltered_noteWithTime :
    (v.noteWithTime kind finding record malformedTime).unfiltered =
      v.unfiltered.noteWithTime kind finding record malformedTime := by
  obtain ⟨state, printed⟩ := unfiltered_admitDiagnostic v kind
  simp only [noteWithTime, ← state, ← printed]
  split
  · split <;> simp
  · simp

@[simp] theorem unfiltered_checkGenesisAnchor :
    (v.checkGenesisAnchor record).unfiltered = v.unfiltered.checkGenesisAnchor record := by
  unfold checkGenesisAnchor
  split <;> simp

@[simp] theorem unfiltered_checkAnchorLink :
    (v.checkAnchorLink record).unfiltered = v.unfiltered.checkAnchorLink record := by
  have trusted (w : ChainVerifier) : ({ w with prevRecordInvalid := false } : ChainVerifier).unfiltered =
        { w.unfiltered with prevRecordInvalid := false } := rfl
  have linked (w : ChainVerifier) :
      (if record.prevHMAC ≠ w.prevHMAC then w.addBreak.note .chainBreak (.brokenLink record.seq)
        else w).unfiltered =
      if record.prevHMAC ≠ w.unfiltered.prevHMAC then
        w.unfiltered.addBreak.note .chainBreak (.brokenLink record.seq) else w.unfiltered := by
    rw [apply_ite unfiltered, unfiltered_note, unfiltered_addBreak]
    rfl
  unfold checkAnchorLink
  rw [linked]
  by_cases anchor : v.prevRecordInvalid = true
  · rw [if_pos anchor, if_pos (show v.unfiltered.prevRecordInvalid = true from anchor), trusted,
      unfiltered_note, unfiltered_addBreak]
  · rw [if_neg anchor, if_neg (show ¬ v.unfiltered.prevRecordInvalid = true from anchor)]

@[simp] theorem unfiltered_checkSeqContiguity :
    (v.checkSeqContiguity record).unfiltered = v.unfiltered.checkSeqContiguity record := by
  unfold checkSeqContiguity
  rw [apply_ite unfiltered, unfiltered_note, unfiltered_addBreak]
  rfl

@[simp] theorem unfiltered_updateChain :
    (v.updateChain record).unfiltered = v.unfiltered.updateChain record := by
  have anchored (w : ChainVerifier) : ({ w with havePrev := true, prevHMAC := record.hmac, prevSeq := record.seq }
        : ChainVerifier).unfiltered =
      { w.unfiltered with havePrev := true, prevHMAC := record.hmac, prevSeq := record.seq } := rfl
  unfold updateChain
  rw [anchored, apply_ite unfiltered, unfiltered_checkSeqContiguity, unfiltered_checkAnchorLink,
    unfiltered_checkGenesisAnchor]
  rfl

@[simp] theorem unfiltered_walkChain :
    (v.walkChain record dec forgedSeq0 unsigned).unfiltered =
      v.unfiltered.walkChain record dec forgedSeq0 unsigned := by
  unfold walkChain
  split <;> simp

@[simp] theorem unfiltered_recordVerifiedSeq :
    (v.recordVerifiedSeq record).unfiltered = v.unfiltered.recordVerifiedSeq record := by
  unfold recordVerifiedSeq
  rw [apply_ite unfiltered]
  rfl

/-- A record counted valid and one counted skipped look the same. -/
theorem unfiltered_count_verified (shown : Bool) :
    (v.count (if shown then .valid else .skipped)).unfiltered = v.unfiltered.count .valid := by
  cases shown
  · simp [count, VerifyResult.count, unfiltered, Nat.add_assoc]
  · simp [count, VerifyResult.count, unfiltered, Nat.add_right_comm]

theorem unfiltered_classifySigned (checked : Except RecordFault Bool) :
    (v.classifySigned opts record checked).1.unfiltered =
      (v.unfiltered.classifySigned {} record checked).1.unfiltered := by
  have counted (w : ChainVerifier) (tally : Tally) (other : tally ≠ .valid ∧ tally ≠ .skipped) :
      (w.count tally).unfiltered = w.unfiltered.count tally := by
    cases tally <;> simp_all <;> rfl
  have distrusted (w : ChainVerifier) : ({ w with prevRecordInvalid := true } : ChainVerifier).unfiltered =
        { w.unfiltered with prevRecordInvalid := true } := rfl
  have again : v.unfiltered.unfiltered = v.unfiltered := by simp [unfiltered]
  unfold classifySigned
  split
  · simp [counted, again]
  · simp [counted, again]
  · simp [counted, distrusted, again]
  · simp [counted, distrusted, again]
  dsimp only
  split
  · simp [counted, again]
  · rw [unfiltered_count_verified, unfiltered_count_verified]
    simp [again]

theorem unfiltered_classify :
    (v.classify digests keys opts line record dec forgedSeq0 unsigned).1.unfiltered =
      (v.unfiltered.classify digests keys {} line record dec forgedSeq0 unsigned).1.unfiltered := by
  have refused (w : ChainVerifier) (kind : DiagnosticKind) (finding : Finding) :
      ((w.note kind finding).count .invalid).unfiltered =
        ((w.unfiltered.note kind finding).count .invalid).unfiltered := by
    change (w.note kind finding).unfiltered.count .invalid =
      (w.unfiltered.note kind finding).unfiltered.count .invalid
    rw [unfiltered_note, unfiltered_note]
    rfl
  unfold classify
  split
  · exact refused ..
  split
  · exact refused ..
  · split
    · exact refused ..
    · exact unfiltered_classifySigned ..

theorem unfiltered_collect (verdict : RecordVerdict) :
    (v.collect opts record dec verdict).unfiltered = v.unfiltered := by
  unfold collect
  split <;> rfl

/-- One line: what no filter may change depends on no filter. -/
theorem unfiltered_processLine : (v.processLine digests keys opts line).unfiltered =
      (v.unfiltered.processLine digests keys {} line).unfiltered := by
  unfold processLine
  rw [unfiltered_collect, unfiltered_collect, unfiltered_classify, unfiltered_classify]
  rw [unfiltered_walkChain, unfiltered_walkChain]
  rfl

theorem unfiltered_run {v w : ChainVerifier} (opts' : VerifyOptions) (lines : List Bytes) (same : v.unfiltered = w.unfiltered) :
    (lines.foldl (processLine digests keys opts) v).unfiltered =
      (lines.foldl (processLine digests keys opts') w).unfiltered := by
  induction lines generalizing v w with
  | nil => exact same
  | cons line rest ih =>
    apply ih
    rw [unfiltered_processLine, unfiltered_processLine digests keys opts', same]

theorem unfiltered_reportSuppressedDiagnostics :
    v.reportSuppressedDiagnostics.unfiltered = v.unfiltered.reportSuppressedDiagnostics := by
  unfold reportSuppressedDiagnostics
  generalize diagnosticKinds = kinds
  induction kinds generalizing v with
  | nil => rfl
  | cons kind rest ih =>
    simp only [List.foldl_cons, ih]
    rw [apply_ite unfiltered]
    rfl

/-! Every record is counted once. -/

/-- The tallies add up to the records read. -/
def Balanced : Prop :=
  v.res.total = v.res.valid + v.res.invalid + v.res.skipped + v.res.unknownKey + v.res.unverifiable

/-- The six counts that must balance. -/
def counts : List ℕ := [v.res.total, v.res.valid, v.res.invalid, v.res.skipped, v.res.unknownKey, v.res.unverifiable]

@[simp] theorem note_res : (v.note kind finding).res = v.res := by
  obtain ⟨diags, out, framed⟩ := v.note_frame kind finding
  rw [framed]

theorem counts_note : (v.note kind finding).counts = v.counts := by
  simp [counts]

theorem counts_noteWithTime : (v.noteWithTime kind finding record malformedTime).counts = v.counts := by
  obtain ⟨diags, out, framed⟩ := v.noteWithTime_frame kind finding record malformedTime
  rw [framed]
  rfl

theorem counts_updateChain : (v.updateChain record).counts = v.counts := by
  simp only [counts, updateChain, checkGenesisAnchor, checkAnchorLink, checkSeqContiguity]
  split_ifs <;> simp [addBreak]

theorem counts_count {v w : ChainVerifier} (same : w.counts = v.counts) (tally : Tally) :
    (w.count tally).counts = (v.count tally).counts := by
  simp only [counts, List.cons.injEq, and_true] at same
  cases tally <;> simp [counts, count, VerifyResult.count, same]

/-- `classify` moves exactly one tally. -/
theorem classify_counts : ∃ tally : Tally,
    (v.classify digests keys opts line record dec forgedSeq0 unsigned).1.counts = (v.count tally).counts := by
  have distrusted (w : ChainVerifier) (tally : Tally) (same : w.counts = v.counts) :
      ({ w.count tally with prevRecordInvalid := true } : ChainVerifier).counts =
        (v.count tally).counts := counts_count same tally
  have verified : (v.recordVerifiedSeq record).counts = v.counts := by
    unfold recordVerifiedSeq
    split <;> rfl
  unfold classify
  split
  · exact ⟨.invalid, counts_count (counts_note ..) _⟩
  split
  · exact ⟨.invalid, counts_count (counts_note ..) _⟩
  split
  · exact ⟨.invalid, counts_count (counts_note ..) _⟩
  unfold classifySigned
  split
  · exact ⟨.unknownKey, counts_count (counts_noteWithTime ..) _⟩
  · exact ⟨.unverifiable, counts_count (counts_noteWithTime ..) _⟩
  · exact ⟨.invalid, distrusted _ _ (counts_note ..)⟩
  · exact ⟨.invalid, distrusted _ _ (counts_note ..)⟩
  dsimp only
  split
  · exact ⟨.invalid, counts_count ((counts_note ..).trans verified) _⟩
  · exact ⟨_, counts_count verified _⟩

/-- One line adds one to the total and to one tally. -/
theorem processLine_counts : ∃ tally : Tally,
    (v.processLine digests keys opts line).counts =
      ({ v with res := { v.res with total := v.res.total + 1 } }.count tally).counts := by
  have walked (w : ChainVerifier) (record dec forgedSeq0 unsigned) :
      (w.walkChain record dec forgedSeq0 unsigned).counts = w.counts := by
    unfold walkChain
    split
    · exact counts_updateChain ..
    · rfl
  have collected (w : ChainVerifier) (record dec verdict) : (w.collect opts record dec verdict).counts = w.counts := by
    unfold collect
    split <;> rfl
  unfold ChainVerifier.processLine
  rw [collected]
  obtain ⟨tally, moved⟩ := classify_counts digests keys opts ..
  exact ⟨tally, moved.trans (counts_count (walked ..) tally)⟩

variable {v} in
theorem Balanced.processLine (balanced : v.Balanced) :
    (v.processLine digests keys opts line).Balanced := by
  obtain ⟨tally, moved⟩ := processLine_counts digests keys opts v line
  simp only [counts, List.cons.injEq, and_true] at moved
  unfold Balanced at balanced ⊢
  cases tally <;> simp only [count, VerifyResult.count] at moved <;> omega

variable {v} in
theorem Balanced.run (balanced : v.Balanced) (lines : List Bytes) :
    (lines.foldl (ChainVerifier.processLine digests keys opts) v).Balanced := by
  induction lines generalizing v with
  | nil => exact balanced
  | cons line rest ih => exact ih (balanced.processLine digests keys opts line)

theorem reportSuppressedDiagnostics_res : v.reportSuppressedDiagnostics.res = v.res := by
  unfold reportSuppressedDiagnostics
  generalize diagnosticKinds = kinds
  induction kinds generalizing v with
  | nil => rfl
  | cons kind rest ih =>
    simp only [List.foldl_cons, ih]
    split <;> rfl

end

end ChainVerifier

section
variable (digests : Digests) (keys : Option Keys) (opts opts' : VerifyOptions) (stream : Stream)

/-- A pass under other filters is the same but for the valid and skipped tallies
and for what the collector received: in particular it prints the same findings. -/
theorem verifyLog_unfiltered : (verifyLog digests keys opts stream).1.unfiltered =
      (verifyLog digests keys opts' stream).1.unfiltered := by
  simp only [verifyLog, ChainVerifier.unfiltered_reportSuppressedDiagnostics]
  congr 1
  exact ChainVerifier.unfiltered_run digests keys opts opts' _ rfl

theorem verifyLog_balanced : (verifyLog digests keys opts stream).1.Balanced := by
  have started : ({} : ChainVerifier).Balanced := rfl
  unfold ChainVerifier.Balanced verifyLog
  rw [ChainVerifier.reportSuppressedDiagnostics_res]
  exact started.run digests keys opts stream.records

end

/-- No filter hides tampering: two passes over one stream agree on every tally
but valid and skipped, on the verdict and on the error, and in each pass the
tallies add up. -/
theorem report_filters_hide_nothing (digests : Digests) (keys : Option Keys)
    (opts opts' : VerifyOptions) (stream : Stream) :
    let left := verifyLog digests keys opts stream
    let right := verifyLog digests keys opts' stream
    left.1.res.total = right.1.res.total ∧ left.1.res.invalid = right.1.res.invalid ∧
      left.1.res.unknownKey = right.1.res.unknownKey ∧
      left.1.res.unverifiable = right.1.res.unverifiable ∧
      left.1.res.chainBreaks = right.1.res.chainBreaks ∧
      left.1.res.firstSeq = right.1.res.firstSeq ∧
      left.1.res.firstVerifiedSeq = right.1.res.firstVerifiedSeq ∧
      left.1.res.ok = right.1.res.ok ∧ left.2 = right.2 ∧
      left.1.res.total = left.1.res.valid + left.1.res.invalid + left.1.res.skipped +
        left.1.res.unknownKey + left.1.res.unverifiable := by
  intro left right
  have same : left.1.unfiltered = right.1.unfiltered := verifyLog_unfiltered digests keys opts opts' stream
  have balanced : left.1.Balanced := verifyLog_balanced digests keys opts stream
  have errors : left.2 = right.2 := by
    simp [left, right, verifyLog]
  have res := congrArg ChainVerifier.res same
  simp only [ChainVerifier.unfiltered, VerifyResult.mk.injEq] at res
  obtain ⟨total, -, invalid, -, unknownKey, unverifiable, chainBreaks, firstSeq, firstVerified⟩ := res
  refine ⟨total, invalid, unknownKey, unverifiable, chainBreaks, firstSeq, firstVerified, ?_, errors, balanced⟩
  simp [VerifyResult.ok, invalid, chainBreaks, unknownKey, unverifiable]

end Eunox.Audit
