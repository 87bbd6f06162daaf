import Eunox.AssocList
import Eunox.Manifest

/-! What an accepted manifest satisfies, told without the order of its entries. -/
namespace Eunox
open ByteString PathPattern

theorem parseTarget_parsed : parseTarget s = .ok (targetType, bare) ↔ parsedTarget s = some (targetType, bare) := by
  unfold parsedTarget
  cases parseTarget s with
  | error err | ok target => simp [Except.toOption]

/-- A target that parses has a known type and a pattern, which the engine reads alike. -/
theorem parsedTarget_spec (parsed : parsedTarget s = some (targetType, bare)) :
    isTargetType targetType = true ∧ bare ≠ [] ∧ splitEnginePrefix s = (targetType, bare) := by
  rw [← parseTarget_parsed] at parsed
  unfold parseTarget at parsed
  unfold splitEnginePrefix
  split at parsed
  · cases parsed
  next found =>
  split at parsed
  · cases parsed
  · split at parsed
    · cases parsed
    · simp_all

/-! Tokens. -/

theorem validateTokens_none {α : Type} {isNull isTypedNil : α → Bool}
    {rule : α → Option (ℕ → ℕ → Message)} {tokens : List α} :
    validateTokens isNull isTypedNil kind i rule tokens = none ↔
      ∀ token ∈ tokens, isNull token = false ∧ isTypedNil token = false ∧ rule token = none := by
  unfold validateTokens
  rw [List.findSome?_eq_none_iff]
  constructor
  · intro all token mem
    obtain ⟨j, found⟩ := List.mem_iff_getElem?.mp mem
    have here := all (token, j) (List.mem_zipIdx_iff_getElem?.mpr found)
    simpa [firstError_none] using here
  · rintro all ⟨token, j⟩ mem
    have here := all token (List.fst_mem_of_mem_zipIdx mem)
    simpa [firstError_none] using here

/-! Capabilities. -/

section Rules
variable {r : ManifestRules} {scope : ManifestScope} {c : ManifestEntry}

theorem validateDescriptionHash_none : validateDescriptionHash targetType bare c pins = none ↔
      validateDescriptionHash targetType bare c [] = none ∧
        (c.descriptionHash ≠ [] → ∀ prev ∈ pins.lookup bare, prev = c.descriptionHash) := by
  unfold validateDescriptionHash
  by_cases empty : c.descriptionHash = []
  · simp [empty]
  simp only [List.isEmpty_iff, empty, if_false, firstError_none, List.mem_cons, List.not_mem_nil, or_false,
    forall_eq_or_imp, forall_eq, List.lookup_nil, Option.bind_none, and_true, not_false_eq_true, ne_eq,
    forall_const]
  cases pins.lookup bare with
  | none => simp
  | some prev => simp [and_assoc]

theorem pin_eq (parsed : parsedTarget c.target = some (targetType, bare)) :
    c.pin = if c.descriptionHash.isEmpty then [] else [(bare, c.descriptionHash)] := by
  simp [ManifestEntry.pin, parsed]

/-- The checks of an entry that do not turn on its place. -/
structure ManifestEntry.Passes (c : ManifestEntry) (r : ManifestRules) (scope : ManifestScope)
    (targetType bare : Bytes) : Prop where
  enforcement : validateEnforcement c.enforcement targetType = none
  breadth : validateTargetPatternBreadth targetType bare c.target = none
  pattern : invalidPattern bare = false
  actions : ∀ action ∈ c.actions, action ∈ validActionsFor targetType
  descriptionHash : validateDescriptionHash targetType bare c [] = none
  schema : ∀ schema ∈ c.schema, targetType = lit "tool" ∧ r.argumentSchema schema = none
  principal : validatePrincipal c.principal = none
  effect : r.effectContract c = none
  directives : ∀ d ∈ c.directives, d.isNull = false ∧ d.isNil = false ∧
    r.directive scope c.target targetType d = none
  conditions : ∀ cond ∈ c.conditions, cond.isNull = false ∧ cond.isNil = false ∧ r.condition scope cond = none
  quotas : validateQuotaBucketsDistinct [] c.conditions.zipIdx = none

theorem validateSchema_none : validateSchema r (targetType, bare) i c = none ↔
      ∀ schema ∈ c.schema, targetType = lit "tool" ∧ r.argumentSchema schema = none := by
  unfold validateSchema
  cases c.schema with
  | none => simp
  | some schema => simp [firstError_none]

theorem actions_none : (c.actions.findSome? fun action => validateActionForTargetType targetType action) = none ↔
      ∀ action ∈ c.actions, action ∈ validActionsFor targetType := by
  simp [validateActionForTargetType]

theorem capabilityChecks_none {i : ℕ} : firstError (capabilityChecks r scope i pins c targetType bare) = none ↔
      c.Passes r scope targetType bare ∧
        (c.descriptionHash ≠ [] → ∀ prev ∈ pins.lookup bare, prev = c.descriptionHash) := by
  simp only [firstError_none, capabilityChecks, List.mem_cons, List.not_mem_nil, or_false, forall_eq_or_imp,
    forall_eq, Option.map_eq_none_iff]
  rw [validateTokens_none, validateTokens_none, validateSchema_none, actions_none, validateDescriptionHash_none]
  constructor
  · rintro ⟨mode, breadth, pattern, actions, ⟨hash, pinned⟩, schema, principal, effect, dirs, conds, quotas⟩
    exact ⟨⟨mode, breadth, check_none.mp pattern, actions, hash, schema, principal, effect, dirs, conds, quotas⟩,
      pinned⟩
  · rintro ⟨p, pinned⟩
    exact ⟨p.enforcement, p.breadth, check_none.mpr p.pattern, p.actions, ⟨p.descriptionHash, pinned⟩, p.schema,
      p.principal, p.effect, p.directives, p.conditions, p.quotas⟩

/-- An entry that is accepted wherever it stands. -/
structure ManifestEntry.Accepted (c : ManifestEntry) (r : ManifestRules) (scope : ManifestScope)
    (targetType bare : Bytes) : Prop where
  named : trimSpace c.target ≠ []
  acts : c.actions ≠ []
  parsed : parsedTarget c.target = some (targetType, bare)
  passes : c.Passes r scope targetType bare

theorem validateCapability_none : validateCapability r scope i pins c = none ↔
      (∃ targetType bare, c.Accepted r scope targetType bare) ∧
        ∀ p ∈ c.pin, ∀ prev ∈ pins.lookup p.1, prev = p.2 := by
  unfold validateCapability
  constructor
  · intro passed
    split at passed
    · cases passed
    next named =>
    split at passed
    · cases passed
    next acts =>
    split at passed
    · cases passed
    next targetType bare parsed =>
    have parsed := parseTarget_parsed.mp parsed
    obtain ⟨passes, pinned⟩ := capabilityChecks_none.mp passed
    refine ⟨⟨targetType, bare, by simpa using named, by simpa using acts, parsed, passes⟩, fun p mem => ?_⟩
    rw [pin_eq parsed] at mem
    split at mem
    · simp at mem
    · next pin =>
      obtain rfl := List.mem_singleton.mp mem
      exact pinned (by simpa using pin)
  · rintro ⟨⟨targetType, bare, accepted⟩, pinned⟩
    rw [if_neg (by simpa using accepted.named), if_neg (by simpa using accepted.acts),
      parseTarget_parsed.mpr accepted.parsed]
    refine capabilityChecks_none.mpr ⟨accepted.passes, fun pin prev found => ?_⟩
    refine pinned (bare, c.descriptionHash) ?_ prev found
    rw [pin_eq accepted.parsed, if_neg (by simpa using pin)]
    exact .head _

/-- No tool is pinned to two descriptions. -/
def PinsAgree (pins : List (Bytes × Bytes)) : Prop := ∀ p ∈ pins, ∀ q ∈ pins, p.1 = q.1 → p.2 = q.2

theorem PinsAgree.lookup (agree : PinsAgree pins) {p : Bytes × Bytes} (mem : p ∈ pins) :
    pins.lookup p.1 = some p.2 := by
  cases found : pins.lookup p.1 with
  | none => simpa using List.lookup_eq_none_iff.mp found p mem
  | some other => exact congrArg some (agree (p.1, other) (AssocList.mem_of_lookup found) p mem rfl)

theorem PinsAgree.subset (agree : PinsAgree pins) (part : others ⊆ pins) : PinsAgree others :=
  fun p memberP q memberQ => agree p (part memberP) q (part memberQ)

/-- A pin joins those before it where none of them is of its tool and another hash. -/
theorem pinsAgree_pin {pins : List (Bytes × Bytes)} (agree : PinsAgree pins) :
    (∀ p ∈ c.pin, ∀ prev ∈ pins.lookup p.1, prev = p.2) ↔ PinsAgree (c.pin ++ pins) := by
  constructor
  · intro joins
    have single : ∀ p ∈ c.pin, ∀ q ∈ c.pin, p = q := by
      unfold ManifestEntry.pin
      split
      · simp
      · cases parsedTarget c.target <;> simp
    have across : ∀ p ∈ c.pin, ∀ q ∈ pins, p.1 = q.1 → p.2 = q.2 := by
      intro p memberP q memberQ same
      refine (joins p memberP q.2 ?_).symm
      rw [same]
      exact agree.lookup memberQ
    intro p memberP q memberQ same
    rcases List.mem_append.mp memberP with newP | oldP <;> rcases List.mem_append.mp memberQ with newQ | oldQ
    · rw [single p newP q newQ]
    · exact across p newP q oldQ same
    · exact (across q newQ p oldP same.symm).symm
    · exact agree p oldP q oldQ same
  · intro together p memberP prev found
    exact together (p.1, prev) (List.mem_append_right _ (AssocList.mem_of_lookup found)) p
      (List.mem_append_left _ memberP) rfl

theorem validateCapabilities_none (agree : PinsAgree pins) : validateCapabilities r scope i pins caps = none ↔
      (∀ c ∈ caps, ∃ targetType bare, c.Accepted r scope targetType bare) ∧
        PinsAgree (pins ++ caps.flatMap ManifestEntry.pin) := by
  induction caps generalizing i pins with
  | nil => simp [validateCapabilities, agree]
  | cons c rest ih =>
    unfold validateCapabilities
    have regroup : PinsAgree ((c.pin ++ pins) ++ rest.flatMap ManifestEntry.pin) ↔
        PinsAgree (pins ++ (c :: rest).flatMap ManifestEntry.pin) := by
      constructor
      · exact fun agree => agree.subset fun p mem => by
          simp only [List.flatMap_cons, List.mem_append] at mem ⊢
          tauto
      · exact fun agree => agree.subset fun p mem => by
          simp only [List.flatMap_cons, List.mem_append] at mem ⊢
          tauto
    rw [List.forall_mem_cons]
    cases first : validateCapability r scope i pins c with
    | some error =>
      refine iff_of_false nofun ?_
      rintro ⟨⟨here, -⟩, total⟩
      have joins := (pinsAgree_pin agree).mpr (total.subset fun p mem => by
        simp only [List.flatMap_cons, List.mem_append] at mem ⊢
        tauto)
      simp [validateCapability_none.mpr ⟨here, joins⟩] at first
    | none =>
      obtain ⟨here, joins⟩ := validateCapability_none.mp first
      rw [ih ((pinsAgree_pin agree).mp joins), regroup]
      exact ⟨fun ⟨others, total⟩ => ⟨⟨here, others⟩, total⟩, fun ⟨⟨_, others⟩, total⟩ => ⟨others, total⟩⟩

/-! The manifest. -/

theorem validateFlowLabelNamespaces_none : validateFlowLabelNamespaces seen namespaces = none ↔
      (∀ ns ∈ namespaces, validateFlowLabelNamespace ns = .ok () ∧ ns ∉ seen) ∧ namespaces.Nodup := by
  induction namespaces generalizing seen with
  | nil => simp [validateFlowLabelNamespaces]
  | cons ns rest ih =>
    unfold validateFlowLabelNamespaces
    cases shape : validateFlowLabelNamespace ns with
    | error err => simp [shape]
    | ok u =>
      dsimp only
      by_cases again : seen.contains ns = true
      · have : ns ∈ seen := by simpa using again
        simp [this]
      · rw [if_neg again, ih]
        have fresh : ns ∉ seen := by simpa using again
        simp only [List.mem_cons, not_or, forall_eq_or_imp, shape, fresh, List.nodup_cons, true_and,
          not_false_eq_true]
        constructor
        · rintro ⟨others, nodup⟩
          exact ⟨fun other mem => ⟨(others other mem).1, (others other mem).2.2⟩,
            fun mem => (others ns mem).2.1 rfl, nodup⟩
        · rintro ⟨others, apart, nodup⟩
          exact ⟨fun other mem => ⟨(others other mem).1, fun same => apart (same ▸ mem),
            (others other mem).2⟩, nodup⟩

/-- The fields of an accepted manifest, none of which turns on an order. -/
structure LocalManifest.Accepted (m : LocalManifest) (r : ManifestRules) : Prop where
  name : trimSpace m.name ≠ []
  namespaces : ∀ ns ∈ m.flowLabelNamespaces, validateFlowLabelNamespace ns = .ok ()
  distinct : m.flowLabelNamespaces.Nodup
  ceiling : ∀ ceiling ∈ m.effectCeiling, r.effectCeiling ceiling = none
  version : isSemver m.version = true
  serverVersion : validateServerVersion m.serverVersion = none
  audience : validateAudience m.audience = none
  entries : ∀ c ∈ m.capabilities, ∃ targetType bare, c.Accepted r m.scope targetType bare
  pins : PinsAgree (m.capabilities.flatMap ManifestEntry.pin)
  grammar : (m.effectCeiling ≠ none ∨ m.flowLabelNamespaces ≠ []) →
    revisionAdmits (trimSpace m.schemaVersion) manifestSchemaVersion02 = true
  tokens : ∀ c ∈ m.capabilities, r.tokenRevision (trimSpace m.schemaVersion) c = none

theorem checkTokenGrammarVersion_none : checkTokenGrammarVersion r m = none ↔
      ((m.effectCeiling ≠ none ∨ m.flowLabelNamespaces ≠ []) →
        revisionAdmits (trimSpace m.schemaVersion) manifestSchemaVersion02 = true) ∧
      ∀ c ∈ m.capabilities, r.tokenRevision (trimSpace m.schemaVersion) c = none := by
  have tokens : (m.capabilities.zipIdx.findSome? fun (entry : ManifestEntry × ℕ) =>
      (r.tokenRevision (trimSpace m.schemaVersion) entry.1).map fun error => error entry.2) = none ↔
      ∀ c ∈ m.capabilities, r.tokenRevision (trimSpace m.schemaVersion) c = none := by
    rw [List.findSome?_eq_none_iff]
    constructor
    · intro all c mem
      obtain ⟨j, found⟩ := List.mem_iff_getElem?.mp mem
      simpa using all (c, j) (List.mem_zipIdx_iff_getElem?.mpr found)
    · rintro all ⟨c, j⟩ mem
      simpa using all c (List.fst_mem_of_mem_zipIdx mem)
  unfold checkTokenGrammarVersion
  simp only [firstError_none, List.mem_cons, List.not_mem_nil, or_false, forall_eq_or_imp, forall_eq]
  rw [tokens]
  cases revisionAdmits (trimSpace m.schemaVersion) manifestSchemaVersion02 <;> cases m.effectCeiling <;>
    cases m.flowLabelNamespaces <;> simp

theorem validateLocalManifest_none : validateLocalManifest r m = none ↔ m.Accepted r := by
  have versioned : m.version.isEmpty = false ∧ (!isSemver m.version) = false ↔ isSemver m.version = true := by
    rw [Bool.not_eq_false']
    refine and_iff_right_of_imp fun semver => ?_
    cases version : m.version with
    | nil => simp [version, isSemver] at semver
    | cons => rfl
  have ceiling : m.effectCeiling.bind r.effectCeiling = none ↔
      ∀ ceiling ∈ m.effectCeiling, r.effectCeiling ceiling = none := by
    cases m.effectCeiling <;> simp
  have nothing : PinsAgree [] := by simp [PinsAgree]
  unfold validateLocalManifest
  simp only [firstError_none, List.mem_cons, List.not_mem_nil, or_false, forall_eq_or_imp, forall_eq,
    check_none, validateFlowLabelNamespaces_none, validateCapabilities_none nothing,
    checkTokenGrammarVersion_none, ceiling, List.nil_append]
  constructor
  · rintro ⟨name, ⟨namespaces, distinct⟩, ceiling, solid, semver, server, audience, ⟨entries, pins⟩, grammar, tokens⟩
    exact ⟨by simpa using name, fun ns mem => (namespaces ns mem).1, distinct, ceiling,
      versioned.mp ⟨solid, semver⟩, server, audience, entries, pins, grammar, tokens⟩
  · intro a
    obtain ⟨solid, semver⟩ := versioned.mpr a.version
    exact ⟨by simpa using a.name, ⟨fun ns mem => ⟨a.namespaces ns mem, not_false⟩, a.distinct⟩, a.ceiling,
      solid, semver, a.serverVersion, a.audience, ⟨a.entries, a.pins⟩, a.grammar, a.tokens⟩

end Rules
end Eunox
