import Mathlib.Data.List.Sort
import Eunox.Message

/-! Flow labels, `capability/flowlabel.go`: the closed native vocabulary and the
imported `namespace:value` labels, when a label is usable, and the canonical
order of a label set. -/
namespace Eunox
open ByteString

/-- Order is fixed so that a report derived from it is deterministic. -/
def nativeFlowLabelVocabulary : List Bytes :=
  [lit "public", lit "internal", lit "confidential", lit "pii", lit "untrusted"]

def isNativeFlowLabel (label : Bytes) : Bool := nativeFlowLabelVocabulary.contains label

def maxFlowLabelNamespaceLen : ℕ := 32
def maxFlowLabelValueLen : ℕ := 96

/-- The namespace and value of an imported label; `none` for a label without
the separator. -/
def splitFlowLabel (label : Bytes) : Option (Bytes × Bytes) := cut 58 label

private def namespaceByte (b : UInt8) : Bool := (97 ≤ b && b ≤ 122) || (48 ≤ b && b ≤ 57) || b == 45

/-- Printable ASCII without the space. A character beyond ASCII starts with a
byte out of this range. -/
private def valueByte (b : UInt8) : Bool := 33 ≤ b && b ≤ 126

def validateFlowLabelNamespace (ns : Bytes) : Except Message Unit :=
  match ns with
  | [] => .error [.text "the namespace before ", .quoted (lit ":"),
      .text " is empty; an imported label is ", .quoted (lit "namespace:value")]
  | first :: _ =>
    if maxFlowLabelNamespaceLen < ns.length then
      .error [.text "namespace ", .quoted ns, .text " is ", .int ns.length,
        .text " bytes, over the ", .int maxFlowLabelNamespaceLen, .text "-byte bound"]
    else if first < 97 || 122 < first then
      .error [.text "namespace ", .quoted ns, .text " must start with a lowercase letter"]
    else match ns.dropWhile namespaceByte with
      | [] => .ok ()
      | rest => .error [.text "namespace ", .quoted ns, .text " contains ", .quotedRune rest,
          .text ("; a namespace is lowercase letters, digits and hyphens (it is eunox's name " ++
            "for the taxonomy, not the taxonomy's own spelling)")]

def validateFlowLabel (label : Bytes) : Except Message Unit :=
  match splitFlowLabel label with
  | none =>
    if isNativeFlowLabel label then .ok ()
    else .error [.text "unknown flow label ", .quoted label, .text (": it names no native class " ++
      "(public, internal, confidential, pii, untrusted) and carries no "), .quoted (lit ":"),
      .text " namespace separator, so it belongs to neither axis"]
  | some (ns, value) =>
    match validateFlowLabelNamespace ns with
    | .error e => .error ([.text "imported flow label ", .quoted label, .text ": "] ++ e)
    | .ok () =>
      if value = [] then
        .error [.text "imported flow label ", .quoted label, .text ": the value after ",
          .quoted (lit ":"), .text (" is empty; an imported label names a class in its " ++
            "taxonomy, not the taxonomy alone")]
      else if maxFlowLabelValueLen < value.length then
        .error [.text "imported flow label ", .quoted label, .text ": the value is ",
          .int value.length, .text " bytes, over the ", .int maxFlowLabelValueLen,
          .text "-byte bound"]
      else match value.dropWhile valueByte with
        | [] => .ok ()
        | rest => .error [.text "imported flow label ", .quoted label,
            .text ": the value contains ", .quotedRune rest,
            .text ("; imported label values are printable ASCII with no spaces (slugify the " ++
              "taxonomy's own spelling, e.g. "), .quoted (lit "Highly Confidential"),
            .text " -> ", .quoted (lit "highly-confidential"), .text ")"]

/-- Whether a label is usable on either axis. -/
def usable (label : Bytes) : Bool :=
  match validateFlowLabel label with
  | .ok () => true
  | .error _ => false

/-- `sort.Strings`: byte order. -/
def sortStrings (items : List Bytes) : List Bytes := items.insertionSort fun a b => ¬ b < a

@[simp] theorem mem_sortStrings : item ∈ sortStrings items ↔ item ∈ items := List.mem_insertionSort _

/-- Native labels in vocabulary order, then imported ones sorted; duplicates
collapse and labels on neither axis are dropped. -/
def normalizeFlowLabels (labels : List Bytes) : List Bytes :=
  nativeFlowLabelVocabulary.filter (labels.contains ·) ++
    sortStrings ((labels.filter fun l => (splitFlowLabel l).isSome && usable l).dedup)

/-- The name of `normalizeFlowLabels` at the attribution boundary. -/
def normalizeDeclaredLabels (labels : List Bytes) : List Bytes := normalizeFlowLabels labels

private theorem usable_native (native : label ∈ nativeFlowLabelVocabulary) : usable label = true := by
  revert label
  decide

/-- The canonical form keeps exactly the usable labels. -/
theorem mem_normalizeFlowLabels : label ∈ normalizeFlowLabels labels ↔ label ∈ labels ∧ usable label = true := by
  simp only [normalizeFlowLabels, List.mem_append, List.mem_filter, List.contains_iff_mem,
    mem_sortStrings, List.mem_dedup, Bool.and_eq_true]
  constructor
  · rintro (⟨native, mem⟩ | ⟨mem, -, valid⟩)
    · exact ⟨mem, usable_native native⟩
    · exact ⟨mem, valid⟩
  · rintro ⟨mem, valid⟩
    cases split : splitFlowLabel label with
    | some parts => exact .inr ⟨mem, by simp, valid⟩
    | none =>
      refine .inl ⟨?_, mem⟩
      unfold usable validateFlowLabel at valid
      rw [split] at valid
      by_cases native : isNativeFlowLabel label = true
      · simpa [isNativeFlowLabel] using native
      · simp [native] at valid

end Eunox
