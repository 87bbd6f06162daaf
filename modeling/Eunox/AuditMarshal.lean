import Eunox.AuditRecord
import Eunox.JsonSpelling

/-! The spelling of an audit record. The line of a signed record is the record
marshaled with its signature, a marshaled record determines the two fields the
chain is made of, and the verifier's canonical-form check compares a line with
exactly what the writer splices. -/
namespace Eunox.Audit
open ByteString JsonText

/-! Plain text. -/

/-- Text `json.Marshal` spells as it is. -/
def Plain (s : Bytes) : Prop := ∀ byte ∈ s, byte < 0x80 ∧ htmlSafe byte = true

theorem Plain.append (first : Plain left) (second : Plain right) : Plain (left ++ right) :=
  List.forall_mem_append.mpr ⟨first, second⟩

theorem hexDigit_plain (small : n < 16) : hexDigit n < 0x80 ∧ htmlSafe (hexDigit n) = true := by
  revert n
  decide

theorem hexEncode_plain (s : Bytes) : Plain (hexEncode s) := by
  intro byte member
  simp only [hexEncode, List.mem_flatMap, List.mem_cons, List.not_mem_nil, or_false] at member
  obtain ⟨source, -, rfl | rfl⟩ := member
  · exact hexDigit_plain (by have := source.toNat_lt; omega)
  · exact hexDigit_plain (Nat.mod_lt _ (by decide))

theorem recordMAC_plain (digests : Digests) (key body : Bytes) : Plain (recordMAC digests key body) := by
  have tag : Plain (lit "sha256:") := by
    unfold Plain
    decide +kernel
  exact tag.append (hexEncode_plain _)

theorem genesisPrev_plain : Plain genesisPrev := by
  unfold Plain
  decide +kernel

theorem recordMAC_nonempty (digests : Digests) (key body : Bytes) : recordMAC digests key body ≠ [] := by
  have tag : lit "sha256:" ≠ [] := by decide
  simp [recordMAC, tag]

theorem appendJSONString_eq (dst s : Bytes) : appendJSONString dst s = dst ++ (quoted s).print := by
  unfold appendJSONString
  split
  · rename_i plain
    have spelled : quote s = s := by
      refine quote_plain fun byte member => ?_
      have held := List.all_eq_true.mp plain byte member
      simp only [Bool.and_eq_true, Bool.not_eq_true', Bool.or_eq_false_iff,
        decide_eq_false_iff_not, UInt8.not_lt] at held
      obtain ⟨⟨low, high⟩, ⟨⟨⟨notQuote, notEscape⟩, notLess⟩, notGreater⟩, notAmp⟩ := held
      refine ⟨?_, by simp [htmlSafe, low, notQuote, notEscape, notLess, notGreater, notAmp]⟩
      exact Nat.lt_of_le_of_lt high (by decide)
    simp [quoted, Text.print, spelled]
  · rfl

/-! The members of a record. -/

/-- The details are a JSON value, as `json.Marshal` and the decoder make them. -/
def AuditRecord.Legal (record : AuditRecord) : Prop := ∀ text ∈ record.details, text.WellFormed

/-- A field spells nothing but well-formed values. -/
def Field.Legal (field : Field) : Prop :=
  ∀ record : AuditRecord, record.Legal → ∀ text ∈ field.spell record, text.WellFormed

section
variable (name : String)

theorem intField_legal (get : AuditRecord → ℤ)
    (set : AuditRecord → ℤ → AuditRecord) : (intField name get set).Legal := by
  intro record _ text spelled
  obtain rfl : Text.number (decimalInt (get record)) = text := by simpa [intField] using spelled
  exact decimalInt_number _

theorem uintField_legal (get : AuditRecord → ℕ)
    (set : AuditRecord → ℕ → AuditRecord) : (uintField name get set).Legal := by
  intro record _ text spelled
  obtain rfl : Text.number (decimal (get record)) = text := by simpa [uintField] using spelled
  exact decimal_number _

theorem stringField_legal (omitEmpty : Bool)
    (get : AuditRecord → Bytes) (set : AuditRecord → Bytes → AuditRecord) :
    (stringField name omitEmpty get set).Legal := by
  intro record _ text spelled
  simp only [stringField] at spelled
  split at spelled
  · cases spelled
  · obtain rfl := Option.some.inj spelled
    exact quote_stringBody _

theorem boolField_legal (get : AuditRecord → Bool)
    (set : AuditRecord → Bool → AuditRecord) : (boolField name get set).Legal := by
  intro record _ text spelled
  simp only [boolField] at spelled
  split at spelled
  · obtain rfl := Option.some.inj spelled
    trivial
  · cases spelled

theorem rawField_legal (set : AuditRecord → Option Text → AuditRecord) :
    (rawField name (·.details) set).Legal := by
  intro record legal text spelled
  simp only [rawField, Option.mem_def, Option.map_eq_some_iff] at spelled
  obtain ⟨raw, held, rfl⟩ := spelled
  exact Text.compact_wellFormed raw (legal raw held)

theorem listField_legal
    (get : AuditRecord → List Bytes) (set : AuditRecord → List Bytes → AuditRecord) :
    (listField name get set).Legal := by
  have blank : AllSpace [] := by simp [AllSpace]
  have items (list : List Bytes) : WellFormedEntries .square (list.map fun item => ⟨[], none, quoted item, []⟩) := by
    induction list with
    | nil => trivial
    | cons item list ih => exact ⟨⟨blank, trivial, quote_stringBody item, blank⟩, ih⟩
  intro record _ text spelled
  simp only [listField] at spelled
  split at spelled
  · cases spelled
  · obtain rfl := Option.some.inj spelled
    exact ⟨blank, fun _ => rfl, items _⟩

end

theorem fields_legal : ∀ field ∈ fields, field.Legal := by
  simp only [fields, bodyFields, macField, List.cons_append, List.nil_append,
    List.forall_mem_cons, List.not_mem_nil, false_imp_iff, implies_true, and_true]
  and_intros <;> first
    | exact stringField_legal _ _ _ _
    | exact intField_legal _ _ _
    | exact listField_legal _ _ _
    | exact uintField_legal _ _ _
    | exact boolField_legal _ _ _
    | exact rawField_legal _ _

theorem fields_names : ∀ field ∈ fields, StringBody field.name := by
  have all : ∀ name ∈ fields.map (·.name), readString (name ++ [34]) = some (name, []) := by
    decide
  exact fun field member => all _ (List.mem_map_of_mem member)

/-- The member a field contributes. -/
def Field.entry (record : AuditRecord) (field : Field) : Option (Entry Text) :=
  (field.spell record).map (member field.name)

theorem entries_wellFormed (legal : record.Legal) {table : List Field} (known : ∀ field ∈ table, field ∈ fields) :
    WellFormedEntries .curly (table.filterMap (Field.entry record)) := by
  have blank : AllSpace [] := by simp [AllSpace]
  induction table with
  | nil => trivial
  | cons field table ih =>
    have rest := ih fun other held => known other (.tail _ held)
    have listed := known field (.head _)
    rw [List.filterMap_cons]
    cases spelled : field.spell record with
    | none => simpa [Field.entry, spelled] using rest
    | some text =>
      simp only [Field.entry, spelled]
      exact ⟨⟨blank, ⟨fields_names field listed, blank, blank⟩,
        fields_legal field listed record legal text spelled, blank⟩, rest⟩

theorem AuditRecord.Legal.text {record : AuditRecord} (legal : record.Legal) : record.text.WellFormed :=
  ⟨by simp [AllSpace], fun _ => rfl, entries_wellFormed legal fun _ held => held⟩

/-! What a spelling determines. -/

/-- The value of the first member of this name. -/
def valueOf (name : Bytes) (entries : List (Entry Text)) : Option Text :=
  (entries.find? fun entry => entry.label.map (·.key) == some name).map (·.value)

theorem valueOf_entries (record : AuditRecord) {table : List Field}
    (distinct : (table.map (·.name)).Nodup) (listed : field ∈ table) :
    valueOf field.name (table.filterMap (Field.entry record)) = field.spell record := by
  induction table with
  | nil => cases listed
  | cons first table ih =>
    simp only [List.map_cons, List.nodup_cons] at distinct
    have absent (name : Bytes) (missing : name ∉ table.map (·.name)) :
        valueOf name (table.filterMap (Field.entry record)) = none := by
      simp only [valueOf, Option.map_eq_none_iff, List.find?_eq_none, List.mem_filterMap]
      rintro entry ⟨other, held, spelled⟩
      simp only [Field.entry, Option.map_eq_some_iff] at spelled
      obtain ⟨text, -, rfl⟩ := spelled
      have different : other.name ≠ name := fun same => missing (same ▸ List.mem_map_of_mem held)
      simpa [member] using different
    rcases List.mem_cons.mp listed with rfl | listed
    · cases spelled : field.spell record with
      | none => simpa [Field.entry, spelled] using absent _ distinct.1
      | some text => simp [Field.entry, spelled, valueOf, member]
    · have different : first.name ≠ field.name := fun same => distinct.1 (same ▸ List.mem_map_of_mem listed)
      have found := ih distinct.2 listed
      cases spelled : first.spell record with
      | none => simpa [Field.entry, spelled] using found
      | some text => simpa [Field.entry, spelled, valueOf, member, different] using found

theorem fields_distinct : (fields.map (·.name)).Nodup := by decide

section
variable {left right : AuditRecord} (legal : left.Legal) (legal' : right.Legal) (same : left.marshal = right.marshal)
include legal legal' same

/-- A spelling determines what every field spells. -/
theorem AuditRecord.Legal.spell_eq (field : Field)
    (listed : field ∈ fields) : field.spell left = field.spell right := by
  have texts : left.text = right.text := legal.text.print_inj legal'.text same
  have entries : fields.filterMap (Field.entry left) = fields.filterMap (Field.entry right) :=
    (Text.container.inj texts).2.2
  rw [← valueOf_entries left fields_distinct listed, ← valueOf_entries right fields_distinct listed, entries]

theorem AuditRecord.Legal.seq_eq : left.seq = right.seq := by
  have spelled := legal.spell_eq legal' same (uintField "seq" (·.seq)
    (fun r v => { r with seq := v })) (by simp [fields, bodyFields])
  simp only [uintField, Option.some.injEq, Text.number.injEq] at spelled
  exact decimal_injective spelled

theorem AuditRecord.Legal.prevHMAC_eq (plain : Plain left.prevHMAC)
    (plain' : Plain right.prevHMAC) : left.prevHMAC = right.prevHMAC := by
  have spelled := legal.spell_eq legal' same (stringField "prev_hmac" false (·.prevHMAC)
    (fun r v => { r with prevHMAC := v })) (by simp [fields, bodyFields])
  simp only [stringField, Bool.false_and, Bool.false_eq_true, if_false, Option.some.injEq, quoted,
    Text.string.injEq] at spelled
  rwa [quote_plain plain, quote_plain plain'] at spelled

end

/-! The signed line. -/

theorem printEntries_concat (nonempty : entries ≠ []) (last : Entry Text) :
    printEntries (entries ++ [last]) = printEntries entries ++ 44 :: printEntry last := by
  induction entries with
  | nil => exact absurd rfl nonempty
  | cons first rest ih =>
    cases rest with
    | nil => simp [printEntries]
    | cons second rest =>
      have outer (tail : List (Entry Text)) (listed : tail ≠ []) :
          printEntries (first :: tail) = printEntry first ++ 44 :: printEntries tail := by
        simp [printEntries, listed]
      rw [List.cons_append, outer _ (by simp), ih (by simp), outer _ (by simp)]
      simp

/-- A record with this signature. -/
def AuditRecord.withMAC (record : AuditRecord) (mac : Bytes) : AuditRecord := { record with hmac := mac }

/-- The members a signature covers do not depend on it. -/
theorem bodyFields_withMAC (record : AuditRecord) (mac : Bytes) :
    bodyFields.filterMap (Field.entry (record.withMAC mac)) = bodyFields.filterMap (Field.entry record) := rfl

theorem bodyFields_nonempty (record : AuditRecord) : bodyFields.filterMap (Field.entry record) ≠ [] := by
  unfold bodyFields
  simp [Field.entry, intField]

theorem marshal_unsigned (unsigned : record.hmac = []) : record.marshal =
      123 :: (printEntries (bodyFields.filterMap (Field.entry record)) ++ [125]) := by
  have entries : fields.filterMap (Field.entry record) = bodyFields.filterMap (Field.entry record) := by
    simp [fields, macField, Field.entry, stringField, unsigned]
  change (Text.container .curly [] (fields.filterMap (Field.entry record))).print = _
  rw [entries]
  rfl

theorem marshal_signed (record : AuditRecord) (signed : mac ≠ []) : (record.withMAC mac).marshal =
      123 :: (printEntries (bodyFields.filterMap (Field.entry record)) ++
        (macFieldPrefix ++ ((quoted mac).print ++ [125]))) := by
  have entries : fields.filterMap (Field.entry (record.withMAC mac)) =
      bodyFields.filterMap (Field.entry record) ++ [member (lit "_hmac") (quoted mac)] := by
    have last : Field.entry (record.withMAC mac) macField = some (member (lit "_hmac") (quoted mac)) := by
      simp [Field.entry, macField, stringField, AuditRecord.withMAC, signed]
    rw [fields, List.filterMap_append, bodyFields_withMAC]
    simp [last]
  have spelled : 44 :: printEntry (member (lit "_hmac") (quoted mac)) = macFieldPrefix ++ (quoted mac).print := by
    have front : macFieldPrefix = 44 :: 34 :: (lit "_hmac" ++ [34, 58]) := rfl
    simp [member, printEntry, printLabel, Label.print, front]
  change (Text.container .curly [] (fields.filterMap (Field.entry (record.withMAC mac)))).print = _
  rw [entries, Text.print, printEntries_concat (bodyFields_nonempty record), spelled]
  simp [Bracket.opening, Bracket.closing]

/-- What the writer splices is the record marshaled with its signature. -/
theorem signedRecordLine_marshal {record : AuditRecord} (unsigned : record.hmac = []) (signed : mac ≠ []) :
    signedRecordLine record.marshal mac = some (record.withMAC mac).marshal := by
  rw [marshal_unsigned unsigned, marshal_signed record signed, signedRecordLine]
  simp [appendJSONString_eq, List.getLast?_cons, List.dropLast_cons_of_ne_nil]

/-- The canonical-form check accepts exactly the line the writer splices. -/
theorem isCanonicalSignedLine_iff :
    isCanonicalSignedLine line body mac = some true ↔ signedRecordLine body mac = some line := by
  have spliced : appendJSONString (body.dropLast ++ macFieldPrefix) mac ++ [125] =
      body.dropLast ++ (macFieldPrefix ++ (appendJSONString [] mac ++ [125])) := by
    simp [appendJSONString_eq]
  unfold isCanonicalSignedLine signedRecordLine
  split
  · rw [spliced, Option.some.injEq]
    generalize appendJSONString [] mac = spelled
    constructor
    · intro canonical
      split at canonical
      · cases canonical
      rename_i tail cut
      rw [cutPrefix_eq_some] at cut
      split at canonical
      · cases canonical
      rename_i shape
      simp only [Bool.or_eq_true, decide_eq_true_eq, not_or, not_not] at shape
      simp only [Option.some.injEq, decide_eq_true_eq] at canonical
      obtain ⟨⟨long, front⟩, brace⟩ := shape
      have rest : tail.drop macFieldPrefix.length ≠ [] := by
        intro empty
        have := List.drop_eq_nil_iff.mp empty
        omega
      have last : (tail.drop macFieldPrefix.length).getLast rest = 125 := by
        rw [List.getLast_drop]
        exact Option.some.inj ((List.getLast?_eq_some_getLast _).symm.trans brace)
      rw [cut, ← canonical, ← last, List.dropLast_append_getLast]
      nth_rewrite 1 [← front]
      rw [List.take_append_drop]
    · rintro rfl
      have brace : (macFieldPrefix ++ (spelled ++ [125])).getLast? = some 125 := by
        rw [← List.append_assoc, List.getLast?_concat]
      simp [brace]
  · simp

/-! Decoded records. -/

/-- Storing a well-formed value leaves well-formed details. -/
def Field.KeepsLegal (field : Field) : Prop :=
  ∀ (text : Text) (record : AuditRecord), text.WellFormed → record.Legal →
    (field.store text record).1.Legal

theorem keepsLegal_of_details {field : Field}
    (kept : ∀ text record, (field.store text record).1.details = record.details) :
    field.KeepsLegal := by
  intro text record _ legal raw held
  rw [kept] at held
  exact legal raw held

theorem fields_keepLegal : ∀ field ∈ fields, field.KeepsLegal := by
  have raws (name : String) (get : AuditRecord → Option Text) :
      (rawField name get (fun r v => { r with details := v })).KeepsLegal := by
    intro text record legal _ raw held
    obtain rfl : text = raw := by simpa [rawField] using held
    exact legal
  simp only [fields, bodyFields, macField, List.cons_append, List.nil_append,
    List.forall_mem_cons, List.not_mem_nil, false_imp_iff, implies_true, and_true]
  and_intros
  all_goals first
    | exact raws _ _
    | refine keepsLegal_of_details fun text record => ?_
      simp only [stringField, intField, listField, uintField, boolField]
      repeat' split
      all_goals rfl

theorem storeMember_legal (legal : state.1.Legal) (valueLegal : entry.value.WellFormed) :
    (storeMember disallowUnknown state entry).1.Legal := by
  unfold storeMember
  split
  · exact legal
  split
  · exact legal
  rename_i label _ field found
  have listed : field ∈ fields := by
    rcases Option.or_eq_some_iff.mp found with found | ⟨-, found⟩
    · exact List.mem_of_find?_eq_some found
    · exact List.mem_of_find?_eq_some found
  exact fields_keepLegal field listed entry.value state.1 valueLegal legal

theorem decodeText_legal (disallowUnknown : Bool) (textLegal : text.WellFormed) :
    (decodeText disallowUnknown text).1.Legal := by
  have empty : AuditRecord.Legal {} := fun _ held => by cases held
  have folded (entries : List (Entry Text)) (state : AuditRecord × Option DecodeError)
      (legal : state.1.Legal) (legalEntries : WellFormedEntries .curly entries) :
      (entries.foldl (storeMember disallowUnknown) state).1.Legal := by
    induction entries generalizing state with
    | nil => exact legal
    | cons entry entries ih =>
      obtain ⟨entryLegal, more⟩ := legalEntries
      obtain ⟨before, label, value, after⟩ := entry
      exact ih _ (storeMember_legal legal entryLegal.2.2.1) more
  unfold decodeText
  split
  · exact empty
  · exact folded _ _ empty textLegal.2.2
  · exact empty

/-- What the strict decoder yields has well-formed details. -/
theorem strictDecode_legal (decoded : strictDecodeAuditRecord line = .ok record) : record.Legal := by
  unfold strictDecodeAuditRecord at decoded
  split at decoded
  · cases decoded
  rename_i text rest read
  have legal := decodeText_legal true (readText_sound read).2.1
  split at decoded
  · cases decoded
  rename_i found
  split at decoded
  · cases decoded
  · rw [← Except.ok.inj decoded]
    rwa [found] at legal

end Eunox.Audit
