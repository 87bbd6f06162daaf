import Eunox.AuditFilters
import Eunox.AuditMarshal
import Mathlib.Data.List.Chain

/-! Tamper evidence of a verification pass. The signature is taken as unforgeable:
what carries a valid one is a body the key holder signed. A pass that reports
nothing wrong has then read a run of lines the writer emitted, one after the
other. -/
namespace Eunox.Audit
open ByteString JsonText

/-! A pass that reports nothing wrong. -/

namespace ChainVerifier

section
variable (v : ChainVerifier)

/-- What the verdict counts. -/
def faults : ℕ := v.res.invalid + v.res.chainBreaks + v.res.unknownKey + v.res.unverifiable

theorem ok_iff : v.res.ok = true ↔ v.faults = 0 := by
  simp only [VerifyResult.ok, faults, Bool.and_eq_true, decide_eq_true_eq]
  omega

/-- The record the next one must follow. -/
def anchor : Bool × Bytes × ℕ := (v.havePrev, v.prevHMAC, v.prevSeq)

@[simp] theorem faults_addBreak : v.addBreak.faults = v.faults + 1 := by
  simp only [addBreak, faults]
  omega

@[simp] theorem anchor_addBreak : v.addBreak.anchor = v.anchor := rfl

@[simp] theorem faults_note (kind : DiagnosticKind) (finding : Finding) :
    (v.note kind finding).faults = v.faults := by
  obtain ⟨diags, out, framed⟩ := v.note_frame kind finding
  rw [framed]
  rfl

@[simp] theorem anchor_note (kind : DiagnosticKind) (finding : Finding) :
    (v.note kind finding).anchor = v.anchor := by
  obtain ⟨diags, out, framed⟩ := v.note_frame kind finding
  rw [framed]
  rfl

variable (record : AuditRecord)

/-- The record follows the anchor, or may come first. -/
def Follows : Prop :=
  (v.havePrev = true → record.prevHMAC = v.prevHMAC ∧ record.seq = (v.prevSeq + 1) % 2 ^ 64) ∧
    (v.havePrev = false → record.seq = 1 → record.prevHMAC = genesisPrev)

/-- Every check of a link either passes or counts a break. -/
theorem checkAnchorLink_faults :
    (v.checkAnchorLink record).anchor = v.anchor ∧ v.faults ≤ (v.checkAnchorLink record).faults ∧
      ((v.checkAnchorLink record).faults = v.faults → record.prevHMAC = v.prevHMAC) := by
  unfold checkAnchorLink
  extract_lets warned w
  have kept : w.anchor = v.anchor ∧ v.faults ≤ w.faults := by
    unfold w warned
    split
    · have same : (v.addBreak.note .chainBreak (.untrustedAnchor record.seq)).faults = v.faults + 1 := by simp
      exact ⟨anchor_note .., (Nat.le_succ _).trans_eq same.symm⟩
    · exact ⟨rfl, le_rfl⟩
  split
  · refine ⟨by simpa using kept.1, by simp; omega, fun quiet => ?_⟩
    simp at quiet
    omega
  · rename_i equal
    exact ⟨kept.1, kept.2, fun _ => (not_not.mp equal).trans (congrArg (·.2.1) kept.1)⟩

theorem checkSeqContiguity_faults : v.faults ≤ (v.checkSeqContiguity record).faults ∧
      ((v.checkSeqContiguity record).faults = v.faults → record.seq = (v.prevSeq + 1) % 2 ^ 64) := by
  unfold checkSeqContiguity
  split
  · rename_i next
    exact ⟨le_rfl, fun _ => next⟩
  · refine ⟨by simp, fun quiet => ?_⟩
    simp at quiet

theorem checkGenesisAnchor_faults : v.faults ≤ (v.checkGenesisAnchor record).faults ∧
      ((v.checkGenesisAnchor record).faults = v.faults → record.seq = 1 → record.prevHMAC = genesisPrev) := by
  unfold checkGenesisAnchor
  split
  · rename_i sound
    simp only [Bool.or_eq_true, decide_eq_true_eq] at sound
    exact ⟨le_rfl, fun _ first => sound.resolve_left (not_not.mpr first)⟩
  · refine ⟨by simp, fun quiet => ?_⟩
    simp at quiet

/-- A record enters the chain: its link is sound unless a break is counted. -/
theorem updateChain_faults : (v.updateChain record).anchor = (true, record.hmac, record.seq) ∧
      v.faults ≤ (v.updateChain record).faults ∧
      ((v.updateChain record).faults = v.faults → v.Follows record) := by
  have anchored (w : ChainVerifier) : ({ w with havePrev := true, prevHMAC := record.hmac, prevSeq := record.seq }
        : ChainVerifier).faults = w.faults := rfl
  refine ⟨rfl, ?_⟩
  unfold updateChain
  dsimp only
  rw [anchored]
  split
  · rename_i started
    obtain ⟨same, grown, linked⟩ := checkAnchorLink_faults v record
    obtain ⟨more, next⟩ := checkSeqContiguity_faults (v.checkAnchorLink record) record
    have seq : (v.checkAnchorLink record).prevSeq = v.prevSeq := congrArg (·.2.2) same
    refine ⟨grown.trans more, fun quiet => ⟨fun _ => ⟨linked (by omega), ?_⟩, ?_⟩⟩
    · rw [← seq]
      exact next (by omega)
    · simp [started]
  · rename_i fresh
    obtain ⟨grown, genesis⟩ := checkGenesisAnchor_faults
      { v with res := { v.res with firstSeq := record.seq } } record
    exact ⟨grown, fun quiet => ⟨fun started => absurd started fresh, fun _ => genesis quiet⟩⟩

@[simp] theorem anchor_count (tally : Tally) : (v.count tally).anchor = v.anchor := rfl

theorem faults_count_invalid : (v.count .invalid).faults = v.faults + 1 := by
  simp only [count, VerifyResult.count, faults]
  omega

end

section
variable (digests : Digests) (keys : Option Keys) (opts : VerifyOptions)

/-- `classify` counts a fault unless the record is a signed one that verifies. -/
theorem classify_faults (v : ChainVerifier) (line : Bytes) (record : AuditRecord)
    (dec : RecordDecode) (forgedSeq0 unsigned : Bool) :
    let after := (v.classify digests keys opts line record dec forgedSeq0 unsigned).1
    after.anchor = v.anchor ∧ v.faults ≤ after.faults ∧ (after.faults = v.faults →
      dec.wellFormed = true ∧ forgedSeq0 = false ∧ unsigned = false ∧
        checkSignature digests keys line record dec = .ok true) := by
  have refused (kind : DiagnosticKind) (finding : Finding) {P : Prop} :
      ((v.note kind finding).count .invalid).anchor = v.anchor ∧
        v.faults ≤ ((v.note kind finding).count .invalid).faults ∧
        (((v.note kind finding).count .invalid).faults = v.faults → P) := by
    refine ⟨by simp, by simp [faults_count_invalid], fun quiet => ?_⟩
    rw [faults_count_invalid, faults_note] at quiet
    omega
  intro after
  simp only [after, classify]
  split
  · exact refused ..
  rename_i wellFormed
  split
  · exact refused ..
  rename_i genuine
  split
  · exact refused ..
  rename_i signed
  unfold classifySigned
  have noted (kind : DiagnosticKind) (finding : Finding) :=
    v.noteWithTime_frame kind finding record (recordTime record).isNone
  split
  · obtain ⟨diags, out, framed⟩ := noted .unknownKey (.unknownKey record.seq record.keyID)
    simp only [framed, count, VerifyResult.count, anchor, faults, true_and]
    exact ⟨by omega, fun quiet => by omega⟩
  · obtain ⟨diags, out, framed⟩ := noted .unverifiable (.unverifiable record.seq)
    simp only [framed, count, VerifyResult.count, anchor, faults, true_and]
    exact ⟨by omega, fun quiet => by omega⟩
  · exact refused ..
  · exact refused ..
  · rename_i verified
    have kept : (v.recordVerifiedSeq record).anchor = v.anchor ∧ (v.recordVerifiedSeq record).faults = v.faults := by
      unfold recordVerifiedSeq
      split <;> exact ⟨rfl, rfl⟩
    have sound : dec.wellFormed = true ∧ forgedSeq0 = false ∧ unsigned = false ∧
        checkSignature digests keys line record dec = .ok true :=
      ⟨by simpa using wellFormed, by simpa using genuine, by simpa using signed, verified⟩
    dsimp only
    split
    · refine ⟨by simp [kept], by simp [faults_count_invalid, kept], fun _ => sound⟩
    refine ⟨by simp [kept], ?_, fun _ => sound⟩
    have counted (w : ChainVerifier) (shown : Bool) :
        (w.count (if shown then .valid else .skipped)).faults = w.faults := by
      cases shown <;> rfl
    rw [counted, kept.2]

/-- The line is one the pass finds nothing wrong with. -/
structure Accepts (v : ChainVerifier) (line : Bytes) (record : AuditRecord) : Prop where
  decoded : strictDecodeAuditRecord line = .ok record
  positive : record.seq ≠ 0
  verified : verifyDecodedRecord digests keys line record = .ok true
  follows : v.Follows record

theorem checkSignature_ok (decoded : decodeAuditRecord line = (record, dec))
    (sound : checkSignature digests keys line record dec = .ok true) :
    strictDecodeAuditRecord line = .ok record ∧ verifyDecodedRecord digests keys line record = .ok true := by
  have strict : dec.verifyErr = none := by
    unfold checkSignature at sound
    split at sound
    · cases sound
    · assumption
  constructor
  · unfold decodeAuditRecord at decoded
    split at decoded
    · rename_i read
      rw [read, (Prod.mk.inj decoded).1]
    · split at decoded
      · rw [← (Prod.mk.inj decoded).2] at strict
        cases strict
      · rw [← (Prod.mk.inj decoded).2] at strict
        cases strict
  · simp only [checkSignature, strict] at sound
    split at sound
    · cases sound
    · rename_i verified
      rw [verified, Except.ok.inj sound]

theorem collect_frame (v : ChainVerifier) (record : AuditRecord) (dec : RecordDecode)
    (verdict : RecordVerdict) : (v.collect opts record dec verdict).faults = v.faults ∧
      (v.collect opts record dec verdict).anchor = v.anchor := by
  unfold collect
  split <;> exact ⟨rfl, rfl⟩

/-- One line: faults are never taken back, and a line that adds none was
accepted. -/
theorem processLine_accepts (v : ChainVerifier) (line : Bytes) :
    v.faults ≤ (v.processLine digests keys opts line).faults ∧
      ((v.processLine digests keys opts line).faults = v.faults → ∃ record, Accepts digests keys v line record ∧
          (v.processLine digests keys opts line).anchor = (true, record.hmac, record.seq)) := by
  let begun : ChainVerifier := { v with res := { v.res with total := v.res.total + 1 } }
  have start : begun.faults = v.faults := rfl
  cases decoded : decodeAuditRecord line with
  | mk record dec =>
    simp only [processLine, decoded, (collect_frame opts _ _ _ _).1, (collect_frame opts _ _ _ _).2]
    generalize forged : (decide (record.seq = 0) && !record.hmac.isEmpty) = forgedSeq0
    generalize unsignedRecord : record.hmac.isEmpty = unsigned at forged
    change v.faults ≤ ((begun.walkChain record dec forgedSeq0 unsigned).classify digests keys opts
      line record dec forgedSeq0 unsigned).1.faults ∧ (((begun.walkChain record dec forgedSeq0
      unsigned).classify digests keys opts line record dec forgedSeq0 unsigned).1.faults = v.faults →
      _)
    obtain ⟨same, grown, sound⟩ := classify_faults digests keys opts
      (begun.walkChain record dec forgedSeq0 unsigned) line record dec forgedSeq0 unsigned
    obtain ⟨anchored, larger, follows⟩ := begun.updateChain_faults record
    have walked : begun.faults ≤ (begun.walkChain record dec forgedSeq0 unsigned).faults := by
      unfold walkChain
      split
      · exact larger
      · exact le_rfl
    refine ⟨by omega, fun quiet => ?_⟩
    obtain ⟨wellFormed, genuine, signed, checked⟩ := sound (by omega)
    have entered : begun.walkChain record dec forgedSeq0 unsigned = begun.updateChain record := by
      simp [walkChain, wellFormed, genuine, signed]
    obtain ⟨strict, verified⟩ := checkSignature_ok digests keys decoded checked
    have positive : record.seq ≠ 0 := by
      intro zero
      simp [zero, genuine, signed] at forged
    rw [entered] at same grown walked quiet
    refine ⟨record, ⟨strict, positive, verified, follows (by omega)⟩, ?_⟩
    rw [← anchored, ← same, entered]

theorem run_grows (lines : List Bytes) (v : ChainVerifier) :
    v.faults ≤ (lines.foldl (processLine digests keys opts) v).faults := by
  induction lines generalizing v with
  | nil => exact le_rfl
  | cons line lines ih => exact (processLine_accepts digests keys opts v line).1.trans (ih _)

/-! The whole pass. -/

/-- The records a pass read, in order: each decodes, verifies and follows the one
before it. -/
inductive Chain : Option AuditRecord → List Bytes → List AuditRecord → Prop where
  | nil {last : Option AuditRecord} : Chain last [] []
  | cons {last : Option AuditRecord} {line : Bytes} {record : AuditRecord} {lines : List Bytes}
      {records : List AuditRecord} (decoded : strictDecodeAuditRecord line = .ok record)
      (positive : record.seq ≠ 0)
      (verified : verifyDecodedRecord digests keys line record = .ok true)
      (linked : ∀ before ∈ last, record.prevHMAC = before.hmac ∧
        record.seq = (before.seq + 1) % 2 ^ 64)
      (genesis : last = none → record.seq = 1 → record.prevHMAC = genesisPrev)
      (rest : Chain (some record) lines records) : Chain last (line :: lines) (record :: records)

/-- The anchor is this record, or there is none yet. -/
def AnchoredAt (v : ChainVerifier) (last : Option AuditRecord) : Prop :=
  (last = none → v.havePrev = false) ∧
    ∀ before ∈ last, v.anchor = (true, before.hmac, before.seq)

/-- A pass that reports nothing wrong has read a chain. -/
theorem run_accepts {lines : List Bytes} (anchored : v.AnchoredAt last)
    (quiet : (lines.foldl (processLine digests keys opts) v).faults = 0) :
    ∃ records, Chain digests keys last lines records := by
  induction lines generalizing v last with
  | nil => exact ⟨[], .nil⟩
  | cons line lines ih =>
    obtain ⟨grown, accepted⟩ := processLine_accepts digests keys opts v line
    have more := run_grows digests keys opts lines (v.processLine digests keys opts line)
    rw [List.foldl_cons] at quiet
    obtain ⟨record, accepts, anchor⟩ := accepted (by omega)
    have next : (v.processLine digests keys opts line).AnchoredAt (some record) := by
      refine ⟨by simp, fun before held => ?_⟩
      obtain rfl := Option.some.inj held
      exact anchor
    obtain ⟨records, chain⟩ := ih next quiet
    refine ⟨record :: records, .cons accepts.decoded accepts.positive accepts.verified ?_ ?_ chain⟩
    · intro before held
      have start := anchored.2 before held
      simp only [ChainVerifier.anchor, Prod.mk.injEq] at start
      obtain ⟨prev, seq⟩ := accepts.follows.1 start.1
      rw [← start.2.1, ← start.2.2]
      exact ⟨prev, seq⟩
    · exact fun fresh => accepts.follows.2 (anchored.1 fresh)

end
end ChainVerifier

/-! The writer. -/

/-- The chain head of a sink: the seq and signature of the last record written. -/
structure Head where
  seq : ℕ
  prevHMAC : Bytes

/-- The fields `writeRecord` stamps before it signs. -/
def Head.stamp (head : Head) (record : AuditRecord) : AuditRecord :=
  { record with
    seq := head.seq + 1
    prevHMAC := if head.prevHMAC.isEmpty then genesisPrev else head.prevHMAC
    hmac := [] }

section
variable (digests : Digests) (key : Bytes)

/-- The signature of a stamped record. -/
def macOf (record : AuditRecord) : Bytes := recordMAC digests key record.marshal

/-- The line a stamped record is written as. -/
def lineOf (record : AuditRecord) : Bytes := (record.withMAC (macOf digests key record)).marshal

/-- The head after a record is written. -/
def Head.advance (head : Head) (record : AuditRecord) : Head := ⟨head.seq + 1, macOf digests key (head.stamp record)⟩

/-- A head that is fresh, or that a signed record left behind. The key is the sink's one signing key, which is also
all that the verifier holds below: a link under another key it could not check. -/
def Head.Sound (head : Head) : Prop := head.prevHMAC = [] ∨ ∃ body, head.prevHMAC = recordMAC digests key body

/-- The records the writer signs: `writeRecord` stamps one on a sound head, and
refuses to wrap the seq. -/
inductive Emits : AuditRecord → Prop where
  | stamp {head : Head} {record : AuditRecord} (sound : head.Sound digests key)
      (room : head.seq < 2 ^ 64 - 1) (legal : record.Legal) : Emits (head.stamp record)

/-- What is known of every record the writer signs. -/
structure Written (record : AuditRecord) : Prop where
  unsigned : record.hmac = []
  bounded : record.seq < 2 ^ 64
  linked : record.prevHMAC = genesisPrev ∨ ∃ body, record.prevHMAC = recordMAC digests key body
  legal : record.Legal

variable {digests key}

theorem Head.Sound.advance (head : Head) (record : AuditRecord) :
    (head.advance digests key record).Sound digests key :=
  .inr ⟨_, rfl⟩

theorem Emits.written {record : AuditRecord} (emits : Emits digests key record) : Written digests key record := by
  obtain ⟨sound, room, legal⟩ := emits
  refine ⟨rfl, by simp only [Head.stamp]; omega, ?_, legal⟩
  rcases sound with fresh | ⟨body, signed⟩
  · exact .inl (by simp [Head.stamp, fresh])
  · exact .inr ⟨body, by simp [Head.stamp, signed, recordMAC_nonempty]⟩

namespace Written

theorem plain (written : Written digests key record) : Plain record.prevHMAC := by
  rcases written.linked with genesis | ⟨body, linked⟩
  · rw [genesis]
    exact genesisPrev_plain
  · rw [linked]
    exact recordMAC_plain digests key body

/-- The line is what the writer splices. -/
theorem signedRecordLine_eq (written : Written digests key record) :
    signedRecordLine record.marshal (macOf digests key record) = some (lineOf digests key record) :=
  signedRecordLine_marshal written.unsigned (recordMAC_nonempty digests key _)

/-- Two records written as one line carry one seq. -/
theorem seq_eq (written : Written digests key left) (written' : Written digests key right)
    (same : lineOf digests key left = lineOf digests key right) : left.seq = right.seq := by
  have legal : (left.withMAC (macOf digests key left)).Legal := written.legal
  have legal' : (right.withMAC (macOf digests key right)).Legal := written'.legal
  have seqs := legal.seq_eq legal' same
  exact seqs

end Written
end

/-! What an accepted line is. -/

/-- The verifier tries no key but this one. -/
def HoldsOnly (digests : Digests) (keys : Option Keys) (key : Bytes) : Prop :=
  ∀ keyID candidates, keysToTry digests keys keyID = .ok candidates →
    ∀ candidate ∈ candidates, candidate = key

/-- A verifier made from one key tries no other. -/
theorem newVerifier_holdsOnly (digests : Digests) (key : Bytes) :
    HoldsOnly digests (some (newVerifier digests [key])) key := by
  intro keyID candidates tried candidate listed
  have ring : Keys.ring digests (some (newVerifier digests [key])) = some [(hmacKeyID digests key, key)] := rfl
  simp only [keysToTry, ring] at tried
  split at tried
  · obtain rfl := Except.ok.inj tried
    simpa using listed
  · split at tried
    · rename_i found
      obtain rfl := Except.ok.inj tried
      rw [List.mem_singleton] at listed
      rw [List.lookup_cons] at found
      split at found
      · exact listed.trans (Option.some.inj found).symm
      · cases found
    · cases tried

/-- A verified line is the canonical line of its fields, signed with the key. -/
theorem verified_line (held : HoldsOnly digests keys key)
    (verified : verifyDecodedRecord digests keys line record = .ok true) :
    record.hmac = macOf digests key (record.withMAC []) ∧
      signedRecordLine (record.withMAC []).marshal record.hmac = some (trimSpace line) := by
  unfold verifyDecodedRecord at verified
  split at verified
  · cases verified
  dsimp only at verified
  split at verified
  · cases verified
  · cases verified
  rename_i canonical
  split at verified
  · cases verified
  rename_i candidates tried
  split at verified
  · rename_i found
    obtain ⟨candidate, listed, matched⟩ := List.any_eq_true.mp found
    obtain rfl := held _ _ tried candidate listed
    exact ⟨eq_of_beq matched, isCanonicalSignedLine_iff.mp canonical⟩
  · split at verified <;> cases verified

/-! What an accepted log is. -/

section
variable (digests : Digests) (key : Bytes)

/-- One record was written right after the other. -/
def Successor (before after : AuditRecord) : Prop :=
  after.seq = before.seq + 1 ∧ after.prevHMAC = macOf digests key before

/-- A run of records written one after the other, from the genesis sentinel if it
starts at seq 1. -/
def Chained (chain : List AuditRecord) : Prop :=
  chain.IsChain (Successor digests key) ∧
    ∀ first ∈ chain.head?, first.seq = 1 → first.prevHMAC = genesisPrev

/-- Every record of these lines that carries a valid signature has a body the
writer signed. -/
def Unforgeable (emitted : Set AuditRecord) (lines : List Bytes) : Prop :=
  ∀ line ∈ lines, ∀ record, strictDecodeAuditRecord line = .ok record →
    record.hmac = macOf digests key (record.withMAC []) →
    ∃ written ∈ emitted, written.marshal = (record.withMAC []).marshal

/-- A decoded record is the signed form of an emitted one. -/
structure Stands (line : Bytes) (record written : AuditRecord) : Prop where
  spelled : trimSpace line = lineOf digests key written
  signed : record.hmac = macOf digests key written
  seq : record.seq = written.seq
  prevHMAC : Plain record.prevHMAC → record.prevHMAC = written.prevHMAC

variable {digests key}

variable {emitted : Set AuditRecord} (writes : ∀ record ∈ emitted, Written digests key record)
  (held : HoldsOnly digests keys key) (unforgeable : Unforgeable digests key emitted lines)
include writes held unforgeable

theorem stands_of_verified (listed : line ∈ lines) (decoded : strictDecodeAuditRecord line = .ok record)
    (verified : verifyDecodedRecord digests keys line record = .ok true) :
    ∃ written ∈ emitted, Stands digests key line record written := by
  obtain ⟨signed, spliced⟩ := verified_line held verified
  obtain ⟨written, mem, same⟩ := unforgeable line listed record decoded signed
  have sound := writes written mem
  have details := strictDecode_legal decoded
  have legal : (record.withMAC []).Legal := details
  have mac : record.hmac = macOf digests key written := by
    rw [signed, macOf, macOf, same]
  have seqs := sound.legal.seq_eq legal same
  refine ⟨written, mem, ⟨?_, mac, seqs.symm, fun plain => ?_⟩⟩
  · rw [← same, mac, sound.signedRecordLine_eq] at spliced
    exact (Option.some.inj spliced).symm
  · have prevs := sound.legal.prevHMAC_eq legal same sound.plain plain
    exact prevs.symm

/-- A chain of verified records is a run of emitted ones. -/
theorem chain_run (chain : ChainVerifier.Chain digests keys last lines records) :
    ∃ run : List AuditRecord, (∀ record ∈ run, record ∈ emitted) ∧ run.IsChain (Successor digests key) ∧
      lines.map trimSpace = run.map (lineOf digests key) ∧ ∀ first ∈ run.head?,
        (last = none → first.seq = 1 → first.prevHMAC = genesisPrev) ∧
        ∀ before ∈ last, ∀ written : AuditRecord, before.hmac = macOf digests key written →
          before.seq = written.seq → written.seq < 2 ^ 64 → Successor digests key written first := by
  induction chain with
  | nil => exact ⟨[], by simp, .nil, rfl, by simp⟩
  | @cons last line record lines records decoded positive verified linked genesis _ ih =>
    obtain ⟨next, mem, stands⟩ := stands_of_verified writes held unforgeable (.head _) decoded verified
    obtain ⟨more, known, chained, spelled, begins⟩ := ih fun line listed => unforgeable line (.tail _ listed)
    refine ⟨next :: more, by simpa using ⟨mem, known⟩, List.isChain_cons.mpr ⟨fun first head => ?_, chained⟩,
      by simp [stands.spelled, spelled], fun first head => ?_⟩
    · exact (begins first head).2 record rfl next stands.signed stands.seq (writes next mem).bounded
    obtain rfl := Option.some.inj head
    refine ⟨fun fresh one => ?_, fun before here written signed seq bounded => ?_⟩
    · have origin := genesis fresh (stands.seq.trans one)
      rw [← stands.prevHMAC (origin ▸ genesisPrev_plain), origin]
    · obtain ⟨prev, following⟩ := linked before here
      have plain : Plain record.prevHMAC := by
        rw [prev, signed]
        exact recordMAC_plain digests key _
      refine ⟨?_, by rw [← stands.prevHMAC plain, prev, signed]⟩
      -- the seq cannot have wrapped: zero is no record's
      rw [← stands.seq, ← seq, following, Nat.mod_eq_of_lt]
      omega

end

/-! Tampering. -/

/-- The non-blank lines of a log, trimmed. -/
def logLines (bytes : Bytes) : List Bytes :=
  (((bytes.splitOnP (· == 10)).map dropCR).filter fun line => !(trimSpace line).isEmpty).map
    trimSpace

theorem scanSignedLines_lines (room : s.length < bound) (clean : (scanSignedLines buffer bound s).2 = none) :
    ((scanSignedLines buffer bound s).1.filter fun line => !(trimSpace line).isEmpty) =
      ((s.splitOnP (· == 10)).map dropCR).filter fun line => !(trimSpace line).isEmpty := by
  have noBreak {line : Bytes} (absent : 10 ∉ line) : ∀ byte ∈ line, (byte == 10) = false :=
    fun byte mem => beq_false_of_ne fun same => absent (same ▸ mem)
  induction bound generalizing s with
  | zero => omega
  | succ bound ih =>
    simp only [scanSignedLines] at clean ⊢
    cases found : cut 10 s with
    | some parts =>
      obtain ⟨rfl, absent⟩ := cut_eq_some.mp found
      simp only [found] at clean ⊢
      split at clean
      · cases clean
      rename_i fits
      have tail := ih (by simp at room; omega) clean
      rw [if_neg fits, List.splitOnP_append_cons_of_forall_mem (noBreak absent) 10 rfl]
      simp only [List.map_cons, List.filter_cons, tail]
    | none =>
      rw [List.splitOnP_eq_singleton (noBreak (cut_eq_none.mp found))]
      simp only [found] at clean ⊢
      split at clean
      · cases clean
      rename_i fits
      rw [if_neg fits]
      split at clean
      · rename_i empty
        obtain rfl : s = [] := by simpa using empty
        rfl
      · rename_i nonempty
        rw [if_neg nonempty]
        split at clean
        · rename_i blank
          rw [if_pos blank]
          rfl
        · cases clean

/-- A pass without an error has processed every non-blank line. -/
theorem records_eq {stream : Stream} (clean : stream.scan.2 = none) :
    stream.records.map trimSpace = logLines stream.bytes := by
  have lines : stream.scan.1 = (scanSignedLines auditScanBufferBytes (stream.bytes.length + 1) stream.bytes).1 := by
    unfold Stream.scan
    dsimp only
    split <;> rfl
  have stopped : (scanSignedLines auditScanBufferBytes (stream.bytes.length + 1) stream.bytes).2 = none := by
    unfold Stream.scan at clean
    dsimp only at clean
    split at clean
    · cases clean
    · cases clean
    · exact clean
  unfold Stream.records logLines
  rw [lines, scanSignedLines_lines (Nat.lt_succ_self _) stopped]

/-- The ways of altering a written log: an interior line taken out, a line put in
that was not written or that parts two neighbours, a line repeated, the lines put
in another order, a line replaced by one that was not written. -/
inductive Tampered (emitted : Set Bytes) (log : List Bytes) : List Bytes → Prop where
  | deletion {front back : List Bytes} {line : Bytes} (whole : log = front ++ line :: back)
      (inside : front ≠ [] ∧ back ≠ []) : Tampered emitted log (front ++ back)
  | insertion {front back : List Bytes} {line : Bytes} (whole : log = front ++ back)
      (foreign : line ∉ emitted ∨ (front ≠ [] ∧ back ≠ [])) :
      Tampered emitted log (front ++ line :: back)
  | duplication {front back : List Bytes} {line : Bytes} (whole : log = front ++ back)
      (copied : line ∈ log) : Tampered emitted log (front ++ line :: back)
  | reordering {edited : List Bytes} (same : edited.Perm log) (moved : edited ≠ log) :
      Tampered emitted log edited
  | rewriting {front back : List Bytes} {line other : Bytes} (whole : log = front ++ line :: back)
      (foreign : other ∉ emitted) : Tampered emitted log (front ++ other :: back)

section
variable {digests : Digests} {key : Bytes}

/-- Two neighbouring lines of a run carry consecutive seqs. -/
theorem Chained.adjacent (chained : Chained digests key run)
    (lines : run.map (lineOf digests key) = front ++ left :: right :: back) :
    ∃ x ∈ run, ∃ y ∈ run, lineOf digests key x = left ∧ lineOf digests key y = right ∧ y.seq = x.seq + 1 := by
  obtain ⟨before, after, rfl, -, spelled⟩ := List.map_eq_append_iff.mp lines
  obtain ⟨x, after, rfl, first, spelled⟩ := List.map_eq_cons_iff.mp spelled
  obtain ⟨y, after, rfl, second, -⟩ := List.map_eq_cons_iff.mp spelled
  refine ⟨x, by simp, y, by simp, first, second, ?_⟩
  have tail := (List.isChain_append.mp chained.1).2.1
  cases tail with
  | cons_cons link _ => exact link.1

theorem Chained.increasing (chained : Chained digests key run) : run.Pairwise fun x y => x.seq < y.seq := by
  have seqs : (run.map (·.seq)).IsChain (· < ·) := by
    rw [List.isChain_map]
    exact chained.1.imp fun _ _ link => by rw [link.1]; omega
  have sorted := seqs.pairwise
  rwa [List.pairwise_map] at sorted

section Emitted
variable {emitted : Set AuditRecord} (writes : ∀ record ∈ emitted, Emits digests key record)
include writes

/-- A line tells the seq of its record. -/
theorem seq_of_line (hx : x ∈ emitted)
    (hy : y ∈ emitted) (same : lineOf digests key x = lineOf digests key y) : x.seq = y.seq :=
  (writes x hx).written.seq_eq (writes y hy).written same

/-- No line stands between two neighbours of another run. -/
theorem Chained.no_gap (tightKnown : ∀ record ∈ tight, record ∈ emitted) (tightChained : Chained digests key tight)
    (looseKnown : ∀ record ∈ loose, record ∈ emitted) (looseChained : Chained digests key loose)
    (inside : front ≠ [] ∧ back ≠ []) (joined : tight.map (lineOf digests key) = front ++ back)
    (parted : loose.map (lineOf digests key) = front ++ middle :: back) : False := by
  obtain ⟨front, left, rfl⟩ := (List.eq_nil_or_concat front).resolve_left inside.1
  obtain ⟨right, back, rfl⟩ := List.exists_cons_of_ne_nil inside.2
  simp only [List.concat_eq_append, List.append_assoc, List.singleton_append] at joined parted
  have shifted : loose.map (lineOf digests key) = (front ++ [left]) ++ middle :: right :: back := by
    simpa using parted
  obtain ⟨x, hx, y, hy, xl, yr, next⟩ := tightChained.adjacent joined
  obtain ⟨x', hx', z, hz, xl', zm, next'⟩ := looseChained.adjacent parted
  obtain ⟨z', hz', y', hy', zm', yr', next''⟩ := looseChained.adjacent shifted
  have sameX := seq_of_line writes (tightKnown x hx) (looseKnown x' hx') (xl.trans xl'.symm)
  have sameY := seq_of_line writes (tightKnown y hy) (looseKnown y' hy') (yr.trans yr'.symm)
  have sameZ := seq_of_line writes (looseKnown z hz) (looseKnown z' hz') (zm.trans zm'.symm)
  omega

/-- The order of seqs on emitted lines. -/
def LineBefore (digests : Digests) (key : Bytes) (emitted : Set AuditRecord)
    (left right : Bytes) : Prop :=
  ∃ x ∈ emitted, ∃ y ∈ emitted,
    lineOf digests key x = left ∧ lineOf digests key y = right ∧ x.seq < y.seq

omit writes in
theorem Chained.ordered (known : ∀ record ∈ run, record ∈ emitted) (chained : Chained digests key run) :
    (run.map (lineOf digests key)).Pairwise (LineBefore digests key emitted) := by
  rw [List.pairwise_map]
  exact chained.increasing.imp_of_mem fun hx hy less => ⟨_, known _ hx, _, known _ hy, rfl, rfl, less⟩

theorem LineBefore.asymm (forth : LineBefore digests key emitted left right)
    (back : LineBefore digests key emitted right left) : False := by
  obtain ⟨x, hx, y, hy, xl, yr, less⟩ := forth
  obtain ⟨y', hy', x', hx', yr', xl', less'⟩ := back
  have sameX := seq_of_line writes hx hx' (xl.trans xl'.symm)
  have sameY := seq_of_line writes hy hy' (yr.trans yr'.symm)
  omega

/-- A run of emitted records is never a tampered form of another one. -/
theorem Chained.untampered (logKnown : ∀ record ∈ log, record ∈ emitted) (logChained : Chained digests key log)
    (known : ∀ record ∈ run, record ∈ emitted) (chained : Chained digests key run) :
    ¬ Tampered (lineOf digests key '' emitted) (log.map (lineOf digests key)) (run.map (lineOf digests key)) := by
  have written {line : Bytes} (mem : line ∈ run.map (lineOf digests key)) :
      line ∈ lineOf digests key '' emitted := by
    obtain ⟨record, held, rfl⟩ := List.mem_map.mp mem
    exact ⟨record, known record held, rfl⟩
  have ordered := chained.ordered known
  intro tampered
  generalize edited : run.map (lineOf digests key) = lines at tampered ordered
  cases tampered with
  | deletion whole inside => exact Chained.no_gap writes known chained logKnown logChained inside edited whole
  | @insertion front back line whole foreign =>
    rcases foreign with foreign | inside
    · exact foreign (written (by rw [edited]; simp))
    · exact Chained.no_gap writes logKnown logChained known chained inside whole edited
  | @duplication front back line whole copied =>
    obtain ⟨-, after, across⟩ := List.pairwise_append.mp ordered
    rw [whole] at copied
    rcases List.mem_append.mp copied with early | late
    · have self := across line early line (.head _)
      exact self.asymm writes self
    · have self := (List.pairwise_cons.mp after).1 line late
      exact self.asymm writes self
  | reordering same moved =>
    refine moved (same.eq_of_pairwise ?_ ordered (logChained.ordered logKnown))
    exact fun _ _ _ _ forth back => (forth.asymm writes back).elim
  | @rewriting front back line other whole foreign => exact foreign (written (by rw [edited]; simp))

end Emitted

/-- Tamper evidence. The signature being unforgeable, a pass that ends without an
error and finds nothing wrong has read, trimmed and without blank lines, a run of
lines the writer emitted one after the other, from the genesis sentinel if it
starts at seq 1; so a log altered in any of the listed ways is reported. -/
theorem tampering_is_evident {keys : Option Keys} {emitted : Set AuditRecord} {stream : Stream}
    (writes : ∀ record ∈ emitted, Emits digests key record) (held : HoldsOnly digests keys key)
    (unforgeable : Unforgeable digests key emitted stream.records) (opts : VerifyOptions) :
    ((verifyLog digests keys opts stream).2 = none → (verifyLog digests keys opts stream).1.res.ok = true →
      ∃ run : List AuditRecord, (∀ record ∈ run, record ∈ emitted) ∧ Chained digests key run ∧
        logLines stream.bytes = run.map (lineOf digests key)) ∧
    (∀ log : List AuditRecord, (∀ record ∈ log, record ∈ emitted) → Chained digests key log →
      Tampered (lineOf digests key '' emitted) (log.map (lineOf digests key)) (logLines stream.bytes) →
      (verifyLog digests keys opts stream).2 ≠ none ∨ (verifyLog digests keys opts stream).1.res.ok = false) := by
  have accepted (clean : (verifyLog digests keys opts stream).2 = none)
      (ok : (verifyLog digests keys opts stream).1.res.ok = true) :
      ∃ run : List AuditRecord, (∀ record ∈ run, record ∈ emitted) ∧ Chained digests key run ∧
        logLines stream.bytes = run.map (lineOf digests key) := by
    have quiet : (stream.records.foldl (ChainVerifier.processLine digests keys opts) {}).faults = 0 := by
      unfold verifyLog at ok
      rw [ChainVerifier.reportSuppressedDiagnostics_res] at ok
      exact (ChainVerifier.ok_iff _).mp ok
    have fresh : ({} : ChainVerifier).AnchoredAt none := ⟨fun _ => rfl, by simp⟩
    obtain ⟨records, chain⟩ := ChainVerifier.run_accepts digests keys opts fresh quiet
    have written := fun record member => (writes record member).written
    obtain ⟨run, known, chained, spelled, begins⟩ := chain_run written held unforgeable chain
    exact ⟨run, known, ⟨chained, fun first head => (begins first head).1 rfl⟩, (records_eq clean).symm.trans spelled⟩
  refine ⟨accepted, fun log logKnown logChained tampered => ?_⟩
  by_contra silent
  push Not at silent
  obtain ⟨run, known, chained, spelled⟩ := accepted silent.1 (by simpa using silent.2)
  rw [spelled] at tampered
  exact Chained.untampered writes logKnown logChained known chained tampered

end

/-! A log of two records. -/

/-- Digests for the example: the key and the length of the message. -/
def sampleDigests : Digests := ⟨fun key body => key ++ [UInt8.ofNat body.length], id⟩

def sampleKey : Bytes := lit "key"

def sampleRecord : AuditRecord :=
  { classUID := 6003, time := lit "2026-01-02T03:04:05Z", requestID := lit "req-1",
    decision := lit "allow" }

def sampleFirst : AuditRecord := Head.stamp ⟨0, []⟩ sampleRecord

def sampleSecond : AuditRecord := (Head.advance sampleDigests sampleKey ⟨0, []⟩ sampleRecord).stamp sampleRecord

def sampleLog : Stream :=
  ⟨lineOf sampleDigests sampleKey sampleFirst ++ 10 :: (lineOf sampleDigests sampleKey sampleSecond ++
    [10]), none⟩

theorem tampering_is_evident_sample : ∃ run : List AuditRecord,
    (∀ record ∈ run, record ∈ ({sampleFirst, sampleSecond} : Set AuditRecord)) ∧ Chained sampleDigests sampleKey run ∧
      logLines sampleLog.bytes = run.map (lineOf sampleDigests sampleKey) := by
  have legal : sampleRecord.Legal := fun _ held => by cases held
  have writes : ∀ record ∈ ({sampleFirst, sampleSecond} : Set AuditRecord), Emits sampleDigests sampleKey record := by
    rintro record (rfl | rfl)
    · exact .stamp (.inl rfl) (by decide) legal
    · exact .stamp (Head.Sound.advance ..) (by decide) legal
  have covered : ∀ line ∈ sampleLog.records, ∀ record ∈ (strictDecodeAuditRecord line).toOption,
      (record.withMAC []).marshal = sampleFirst.marshal ∨ (record.withMAC []).marshal = sampleSecond.marshal := by
    decide +kernel
  have unforgeable : Unforgeable sampleDigests sampleKey {sampleFirst, sampleSecond} sampleLog.records := by
    intro line listed record decoded _
    rcases covered line listed record (by simp [decoded, Except.toOption]) with same | same
    · exact ⟨sampleFirst, by simp, same.symm⟩
    · exact ⟨sampleSecond, by simp, same.symm⟩
  exact (tampering_is_evident writes (newVerifier_holdsOnly sampleDigests sampleKey) unforgeable
    {}).1 (by decide +kernel) (by decide +kernel)

end Eunox.Audit
