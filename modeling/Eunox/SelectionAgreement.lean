import Eunox.CapabilitySelection
import Eunox.MergeOrder

/-! The engine's `FindMatchingCapability` and the proxy's `findConstraint` select the same entry: the first scan
leaves out the entries that do not permit the action, the second only prefers the others to them. -/
namespace Eunox
open ByteString PathPattern FirstBest

theorem validActionsFor_known (known : isTargetType targetType = true) :
    validActionsFor targetType = [requiredActionFor targetType, lit "*"] := by
  simp only [isTargetType, List.contains_iff_mem, List.mem_cons, List.not_mem_nil, or_false] at known
  rcases known with rfl | rfl | rfl | rfl <;> rfl

theorem actionPermitted_required (known : isTargetType targetType = true) (actions : List Bytes) :
    actionPermitted actions targetType = containsAction actions (requiredActionFor targetType) := by
  rw [actionPermitted, validActionsFor_known known]
  exact congrArg actions.any (funext fun a => by simp only [List.contains_cons, List.contains_nil, Bool.or_false])

/-- Without the entries that only name the target, the proxy selects among those that permit the action. -/
theorem select_permits (s : Selector) (l : List ManifestEntry) :
    (s.select id l).filter s.permits = (l.filter fun c => s.admits c && s.permits c).argmax s.key := by
  unfold Selector.select
  cases best : (l.filter fun c => s.admits c && s.permits c).argmax s.key with
  | some c =>
    have permitted := (Bool.and_eq_true_iff.mp (List.mem_filter.mp (List.argmax_mem best)).2).2
    simp [best, permitted]
  | none =>
    have nobody := List.filter_eq_nil_iff.mp (List.argmax_eq_none.mp best)
    simp only [id, Function.comp_id, best, Option.filter_eq_none_iff]
    intro c found permitted
    obtain ⟨mem, admitted⟩ := List.mem_filter.mp (List.argmax_mem found)
    exact nobody c mem (Bool.and_eq_true_iff.mpr ⟨admitted, permitted⟩)

section
variable {req : EnforceRequest} {target : RequestTarget} (carried : req.target = some target)
  (typed : target.type ≠ []) (named : target.name ≠ []) (trimmed : trimSpace target.name = target.name)
include carried typed named trimmed

theorem resolveRequestTarget_carried : resolveRequestTarget req = (target.type, target.name) := by
  simp [resolveRequestTarget, carried, typed, named, trimmed]

/-- An entry whose target parses is read alike by both. -/
theorem governs_iff {c : ManifestEntry} (parse : (parsedTarget c.target).isSome = true) :
    governs req c.toConstraint =
      ((Selector.mk target.type target.name req.claims).admits c &&
        (Selector.mk target.type target.name req.claims).permits c) := by
  obtain ⟨parsed, parses⟩ := Option.isSome_iff_exists.mp parse
  obtain ⟨known, -, split⟩ := parsedTarget_spec parses
  have resolved := resolveRequestTarget_carried carried typed named trimmed
  simp only [governs, namesTarget, resolved, split, Selector.admits, Selector.pattern, parses, Selector.permits,
    Option.bind_some]
  by_cases same : parsed.1 = target.type
  · rw [← same, actionPermitted_required known]
    simp [Bool.and_right_comm]
  · simp [same]

theorem rank_eq {c : ManifestEntry} (parse : (parsedTarget c.target).isSome = true)
    (admitted : (Selector.mk target.type target.name req.claims).admits c = true) :
    selectionRank req c.toConstraint = (Selector.mk target.type target.name req.claims).key c := by
  obtain ⟨parsed, parses⟩ := Option.isSome_iff_exists.mp parse
  obtain ⟨-, -, split⟩ := parsedTarget_spec parses
  have same : parsed.1 = target.type := by
    by_contra other
    simp [Selector.admits, Selector.pattern, parses, other] at admitted
  simp [selectionRank, barePattern, resolveRequestTarget_carried carried typed named trimmed, split, Selector.key,
    Selector.specificity, Selector.pattern, parses, same]

end

/-- The engine returns an entry exactly when the proxy returns one that permits the action, and then that one. -/
theorem selections_agree (caps : List ManifestEntry) (req : EnforceRequest) (target : RequestTarget)
    (parse : ∀ c ∈ caps, (parsedTarget c.target).isSome = true) (carried : req.target = some target)
    (typed : target.type ≠ []) (named : target.name ≠ []) (trimmed : trimSpace target.name = target.name) :
    findMatchingCapability req (caps.map (·.toConstraint)) =
      (((findConstraint caps ⟨target.type, target.name, req.claims⟩).bind fun i => caps[i]?).filter
        (Selector.mk target.type target.name req.claims).permits).map (·.toConstraint) := by
  have origin := findConstraint_origin ⟨target.type, target.name, req.claims⟩ id caps
  rw [List.map_id] at origin
  rw [origin, select_permits, findMatchingCapability_eq, List.filter_map, argmax_map]
  have same : caps.filter (governs req ∘ (·.toConstraint)) = caps.filter fun c =>
      (Selector.mk target.type target.name req.claims).admits c &&
        (Selector.mk target.type target.name req.claims).permits c :=
    List.filter_congr fun c mem => governs_iff carried typed named trimmed (parse c mem)
  have ranked {c} (mem : c ∈ caps) := rank_eq carried typed named trimmed (parse c mem)
  rw [same]
  refine congrArg _ (argmax_congr fun a mem b mem' => ?_)
  simp only [List.mem_filter, Bool.and_eq_true] at mem mem'
  rw [Function.comp_apply, Function.comp_apply, ranked mem.1 mem.2.1, ranked mem'.1 mem'.2.1]

/-- A tool whose name begins with a namespace, asked for by a caller with a subject. -/
def namespacedRequest : EnforceRequest :=
  ⟨[], [], [], [], some ⟨lit "tool", lit "prompt:x"⟩, [(lit "sub", .string (lit "ann"))], []⟩

def scopedCallable : ManifestEntry := { callable "tool:prompt:*" with principal := [(lit "sub", [lit "ann"])] }

-- The entry scoped to the caller before the equally specific general one, though it comes later.
theorem selections_agree_namespaced :
    findMatchingCapability namespacedRequest ([callable "tool:prompt:*", scopedCallable].map (·.toConstraint)) =
      some scopedCallable.toConstraint :=
  (selections_agree [callable "tool:prompt:*", scopedCallable] namespacedRequest _ (by decide) rfl
    (by decide) (by decide) (by decide)).trans rfl

end Eunox
