import Eunox.DecisionCommits
import Eunox.EngineNoninterference

/-! An engine that is told its policy's tokens skips the subsystems none of them
uses. Skipping is not seen: beside it an engine that was told nothing, and so
skips nothing, answers every call alike. The two drift apart only in the markers of the
sequence history, which the one writes and neither reads. -/
namespace Eunox
open ByteString CallCounter StateProgram

/-- The engine, told nothing about its policy. -/
def Engine.untold (e : Engine) : Engine := { e with policyTokens := none }

/-! The tokens of a policy. -/

/-- The type of a condition. A nil one has none, unless it is a nil pointer to a
flow-label condition: that is one to `IsFlowLabelCondition`. -/
def Condition.token (cond : Condition) : Option Bytes :=
  if isFlowLabelCondition cond then some conditionTypeFlowLabel
  else if cond.isNil then none else some cond.conditionType

def Directive.token (dir : Directive) : Option Bytes :=
  if isLabelOutputDirective dir then some directiveTypeLabelOutput
  else if dir.isNil then none else some dir.directiveType

/-- The condition and directive types of a constraint. -/
def Constraint.tokens (c : Constraint) : List Bytes :=
  c.conditions.filterMap Condition.token ++ c.directives.filterMap Directive.token

/-- Nothing the constraint runs is skipped. -/
structure Engine.Covers (e : Engine) (matched : Constraint) : Prop where
  flow : constraintHasFlow matched = true → e.skipFlow = false
  labels : ∀ cond ∈ matched.conditions, cond.isNil = false →
    cond.conditionType = conditionTypeFlowLabel → e.skipFlow = false
  history : ∀ cond ∈ matched.conditions, cond.isNil = false →
    cond.conditionType = conditionTypeSequenceBlock → e.skipAntecedentRecording = false

section Tokens
variable {e : Engine} (builtin : e.handlers = registerBuiltins policyUses stateless) {tokens : List Bytes}
  (told : e.policyTokens = some tokens)
include builtin told

/-- A token whose declaration names a subsystem keeps it wired, the evaluator's apart. -/
theorem policyUses_of_mem (own : token ≠ lit "policy") (listed : tokenSubsystems.lookup token = some uses)
    (declares : declarationUsesSubsystem uses s = true) (mem : token ∈ tokens) :
    e.policyUses s = true := by
  unfold Engine.policyUses
  rw [told]
  refine List.any_eq_true.mpr ⟨token, mem, ?_⟩
  cases found : e.handlers token with
  | none => simpa [tokenUsesEngineSubsystem, listed] using declares
  | some h =>
    have same : h.uses = uses := by
      rw [(registerBuiltins_cases (builtin ▸ found)).1, if_neg own, listed]
      rfl
    simpa [RegisteredHandler.dependsOn, same] using declares

/-- An engine told the types of a constraint skips nothing the constraint runs. -/
theorem covers_of_tokens (carried : ∀ token ∈ matched.tokens, token ∈ tokens) : e.Covers matched := by
  have flowOf : ∀ token ≠ lit "policy", tokenSubsystems.lookup token = some [.flowLabels] → token ∈ tokens →
      e.skipFlow = false := by
    intro token own listed mem
    have used := policyUses_of_mem builtin told own listed (s := .flowLabels) (by decide) mem
    simp [Engine.skipFlow, used]
  have typed : ∀ cond ∈ matched.conditions, cond.isNil = false → cond.conditionType ∈ tokens := by
    intro cond mem solid
    refine carried _ (List.mem_append_left _ (List.mem_filterMap.mpr ⟨cond, mem, ?_⟩))
    cases cond <;> simp_all [Condition.token, isFlowLabelCondition, Condition.isNil, Condition.conditionType]
  refine ⟨fun flows => ?_, fun cond mem solid kind => ?_, fun cond mem solid kind => ?_⟩
  · rcases Bool.or_eq_true_iff.mp flows with sink | source
    · obtain ⟨cond, mem, sink⟩ := List.any_eq_true.mp sink
      refine flowOf conditionTypeFlowLabel (by decide) rfl (carried _ ?_)
      exact List.mem_append_left _ (List.mem_filterMap.mpr ⟨cond, mem, by simp [Condition.token, sink]⟩)
    · obtain ⟨dir, mem, source⟩ := List.any_eq_true.mp source
      refine flowOf directiveTypeLabelOutput (by decide) rfl (carried _ ?_)
      exact List.mem_append_right _ (List.mem_filterMap.mpr ⟨dir, mem, by simp [Directive.token, source]⟩)
  · exact flowOf conditionTypeFlowLabel (by decide) rfl (kind ▸ typed cond mem solid)
  · have listed : tokenSubsystems.lookup conditionTypeSequenceBlock = some [.antecedentHistory] := by
      decide
    have used := policyUses_of_mem builtin told (by decide) listed (s := .antecedentHistory) (by decide)
      (kind ▸ typed cond mem solid)
    simp [Engine.skipAntecedentRecording, used]

end Tokens

/-! The two engines side by side. -/

/-- The counters both engines keep alike: all of them, but for the sequence history
where the told engine skips it. -/
def Engine.watched (e : Engine) : Set Bytes :=
  { sk | e.skipAntecedentRecording = true → ∀ req targetType target,
    sk ≠ storageKey (e.sequenceHistoryKey req targetType target) sequenceHistoryWindowSec }

/-- The stores of the told engine, and those of the untold one. -/
abbrev Mirrors (e : Engine) : World → World → Prop := SameStores e.watched

/-- The untold engine ends as the told one does, unless a backend faults, and the two
differ in what is not watched alone. -/
def Ends (e : Engine) {α : Type} (told untold : α × World) : Prop :=
  ¬ Faulted untold.2 → ¬ Faulted told.2 ∧ untold.1 = told.1 ∧ Mirrors e told.2 untold.2

theorem Ends.refl (e : Engine) (r : α × World) : Ends e r r := fun good => ⟨good, rfl, .refl _ _⟩

/-- They do from every state. -/
def Beside (e : Engine) {α : Type} (f g : World → α × World) : Prop := ∀ ⦃w : World⦄, Ends e (f w) (g w)

theorem Beside.refl (e : Engine) (f : World → α × World) : Beside e f f := fun _ => .refl e _

theorem Beside.of_ite {c : Prop} [Decidable c] {f g f' g' : World → α × World} (yes : c → Beside e f g)
    (no : ¬ c → Beside e f' g') : Beside e (fun w => if c then f w else f' w) fun w => if c then g w else g' w := by
  by_cases holds : c
  · simpa only [holds, ↓reduceIte] using yes holds
  · simpa only [holds, ↓reduceIte] using no holds

theorem skipFlow_untold (e : Engine) : e.untold.skipFlow = false := rfl

theorem skipAntecedentRecording_untold (e : Engine) : e.untold.skipAntecedentRecording = false := rfl

section Beside
variable {e : Engine} (instant : ℤ) (req : EnforceRequest)

theorem peekSessionLabels_untold (wired : e.skipFlow = false) :
    e.untold.peekSessionLabels instant req = e.peekSessionLabels instant req := by
  funext w
  unfold Engine.peekSessionLabels
  rw [wired]
  rfl

theorem recordLabels_untold (wired : e.skipFlow = false) (matched : Constraint) :
    e.untold.recordLabels instant req matched = e.recordLabels instant req matched := by
  funext w
  unfold Engine.recordLabels
  rw [wired]
  rfl

/-- A marker only the untold engine writes. -/
theorem recordMarker_unseen (skipped : e.skipAntecedentRecording = true) (targetType target : Bytes)
    (good : ¬ Faulted (e.recordMarker instant req targetType target w).2) :
    ¬ Faulted w ∧ (e.recordMarker instant req targetType target w).1 = .ok () ∧
      Mirrors e w (e.recordMarker instant req targetType target w).2 := by
  have outside : storageKey (e.sequenceHistoryKey req targetType target) sequenceHistoryWindowSec ∉
      e.watched := fun inside => inside skipped req targetType target rfl
  refine ⟨fun bad => good (recordMarker_stays instant targetType target bad), ?_,
    recordMarker_flowStore e req w instant targetType target, recordMarker_outside w instant outside⟩
  unfold Engine.recordMarker at good ⊢
  split
  · rename_i failed
    simp [failed, Faulted] at good
  · rfl

theorem recordSessionCall_untold (kept : e.skipAntecedentRecording = false) :
    e.untold.recordSessionCall instant req = e.recordSessionCall instant req := by
  funext w
  unfold Engine.recordSessionCall
  rw [kept]
  rfl

theorem recordSessionCall_silent (skipped : e.skipAntecedentRecording = true) (w : World) :
    e.recordSessionCall instant req w = (.ok (), w) := by
  simp [Engine.recordSessionCall, skipped]

/-- The markers only the untold engine writes. -/
theorem recordSessionCall_unseen (skipped : e.skipAntecedentRecording = true)
    (resolved : e.anchorUnresolved req = false) :
    Beside e (fun w => (.ok (), w)) (e.untold.recordSessionCall instant req) := by
  have marker (targetType target : Bytes) :
      Beside e (fun w => (.ok (), w)) (e.untold.recordMarker instant req targetType target) :=
    fun _ good => recordMarker_unseen instant req skipped targetType target good
  have anchor : e.untold.anchorUnresolved req = false := resolved
  intro w
  unfold Engine.recordSessionCall
  rw [anchor]
  simp only [Bool.false_eq_true, ↓reduceIte]
  split
  · exact .refl e _
  split
  · exact .refl e _
  split
  · exact .refl e _
  split
  · have first := @marker (splitEnginePrefix (sessionTargetKey req).2).1 (splitEnginePrefix (sessionTargetKey req).2).2 w
    revert first
    rcases e.untold.recordMarker instant req (splitEnginePrefix (sessionTargetKey req).2).1
      (splitEnginePrefix (sessionTargetKey req).2).2 w with ⟨err | ⟨⟩, mid⟩
    · intro first good
      cases (first good).2.1
    · intro first good
      obtain ⟨clean, answers, later⟩ := marker _ _ good
      obtain ⟨before, -, earlier⟩ := first clean
      exact ⟨before, answers, earlier.trans later⟩
  · exact @marker _ _ w

/-- The told engine may skip the marker; what the call answers is the same. -/
theorem recordSessionCall_beside (resolved : e.anchorUnresolved req = false) :
    Beside e (e.recordSessionCall instant req) (e.untold.recordSessionCall instant req) := by
  cases skip : e.skipAntecedentRecording with
  | false =>
    rw [recordSessionCall_untold instant req skip]
    exact .refl e _
  | true =>
    intro w
    rw [recordSessionCall_silent instant req skip]
    exact @recordSessionCall_unseen _ _ _ skip resolved w

theorem recordSourceCall_beside (matched : Constraint)
    (wired : flow = true → e.skipFlow = false) (carried : List Bytes) :
    Beside e (e.recordSourceCall instant req matched ⟨flow, true⟩ carried)
      (e.untold.recordSourceCall instant req matched ⟨flow, true⟩ carried) := by
  have rollback : e.untold.rollbackLabels = e.rollbackLabels := rfl
  have labelled (w : World) : (if flow then e.untold.recordLabels instant req matched w else (.ok [], w)) =
      if flow then e.recordLabels instant req matched w else (.ok [], w) := by
    split
    · rename_i on
      rw [recordLabels_untold instant req (wired on)]
    · rfl
  unfold Engine.recordSourceCall
  simp only [labelled, rollback, Engine.recordAntecedentIn, ↓reduceIte]
  refine .of_ite (fun _ => .refl e _) fun resolved w => ?_
  rcases (if flow then e.recordLabels instant req matched w else (.ok [], w)) with ⟨err | labelsOut, mid⟩
  · exact .refl e _
  dsimp only
  cases skip : e.skipAntecedentRecording with
  | false =>
    rw [recordSessionCall_untold instant req skip]
    exact .refl e _
  | true =>
    have unseen := @recordSessionCall_unseen _ instant req skip (Bool.eq_false_iff.mpr resolved) mid
    rw [recordSessionCall_silent instant req skip]
    revert unseen
    rcases e.untold.recordSessionCall instant req mid with ⟨err | ⟨⟩, last⟩
    · intro unseen good
      cases (unseen fun bad => good (rollbackLabels_stays instant _ bad)).2.1
    · intro unseen good
      obtain ⟨clean, -, mirror⟩ := unseen good
      exact ⟨clean, rfl, mirror⟩

end Beside

/-! The decision. -/

section Decision
variable {e : Engine} (ctx : Context) (req : EnforceRequest)

theorem handleFlowLabel_untold (wired : e.skipFlow = false) (cond : Condition) :
    e.untold.handleFlowLabel ctx cond req = e.handleFlowLabel ctx cond req := by
  funext w
  unfold Engine.handleFlowLabel
  rw [peekSessionLabels_untold ctx.instant req wired]
  rfl

theorem sequenceLookup_untold (afterTools priors : List Bytes) :
    e.untold.sequenceLookup ctx req afterTools priors = e.sequenceLookup ctx req afterTools priors := by
  induction priors with
  | nil => rfl
  | cons prior rest ih =>
    funext w
    simp only [Engine.sequenceLookup, ih]
    rfl

theorem handleSequenceBlock_untold (cond : Condition) :
    e.untold.handleSequenceBlock ctx cond req = e.handleSequenceBlock ctx cond req := by
  funext w
  unfold Engine.handleSequenceBlock
  simp only [sequenceLookup_untold]
  rfl

variable (builtin : e.handlers = registerBuiltins policyUses stateless)

include builtin in
/-- The handlers that read a subsystem are registered under the tokens that name it. -/
theorem registered_builtin (found : e.handlers token = some registered) :
    (registered.handler = .flowLabel → token = conditionTypeFlowLabel) ∧
      (registered.handler = .sequenceBlock → token = conditionTypeSequenceBlock) := by
  obtain ⟨-, ⟨is, named⟩ | ⟨is, named⟩ | is | is | ⟨handle, -, is⟩⟩ := registerBuiltins_cases (builtin ▸ found) <;>
    simp [*]

include builtin in
theorem runPureConditions_untold (flow : ∀ cond ∈ conditions, cond.isNil = false →
      cond.conditionType = conditionTypeFlowLabel → e.skipFlow = false) :
    e.untold.runPureConditions ctx req conditions = e.runPureConditions ctx req conditions := by
  induction conditions with
  | nil => rfl
  | cons cond rest ih =>
    have later := ih fun cond mem => flow cond (.tail _ mem)
    have handlers : e.untold.handlers = e.handlers := rfl
    funext w
    simp only [Engine.runPureConditions, handlers, later]
    split
    · rfl
    rename_i solid
    cases found : e.handlers cond.conditionType with
    | none => rfl
    | some registered =>
      have evaluated : e.untold.evalCondition ctx req cond registered.handler =
          e.evalCondition ctx req cond registered.handler := by
        unfold Engine.evalCondition
        funext w
        cases handled : registered.handler with
        | flowLabel =>
          have wired := flow cond List.mem_cons_self (Bool.eq_false_iff.mpr solid)
            ((registered_builtin builtin found).1 handled)
          exact congrFun (handleFlowLabel_untold ctx req wired cond) w
        | sequenceBlock => exact congrFun (handleSequenceBlock_untold ctx req cond) w
        | _ => rfl
      simp [evaluated]

theorem prepareDeferred_untold (deferred : List DeferredCondition) (faults : List HandlerFault)
    (pending : List PendingBucket) : e.untold.prepareDeferred ctx req deferred faults pending =
      e.prepareDeferred ctx req deferred faults pending := by
  have prepares (d : DeferredCondition) : e.untold.prepareCommit ctx d req = e.prepareCommit ctx d req := rfl
  induction deferred generalizing faults pending with
  | nil => rfl
  | cons d rest ih => simp [Engine.prepareDeferred, prepares, ih]

theorem recordAllowed_beside
    (wired : flow = true → e.skipFlow = false) (obligations : List Obligation) (effect : ResolvedEffect)
    (carried : List Bytes) :
    Beside e (e.recordAllowed ctx req matched obligations effect flow carried)
      (e.untold.recordAllowed ctx req matched obligations effect flow carried) := by
  intro w
  have source := recordSourceCall_beside ctx.instant req matched wired carried (w := w)
  unfold Engine.recordAllowed
  revert source
  rcases e.untold.recordSourceCall ctx.instant req matched ⟨flow, true⟩ carried w with ⟨err | labelsOut, last⟩
  all_goals
    intro source good
    obtain ⟨clean, answers, mirror⟩ := source good
    rcases told : e.recordSourceCall ctx.instant req matched ⟨flow, true⟩ carried w with ⟨err' | labelsOut', last'⟩
    all_goals
      rw [told] at clean answers mirror
      cases answers
    exact ⟨clean, rfl, mirror⟩

/-- A quota is never counted where the history is. -/
theorem quotaKeys_watched : e.QuotaKeys ctx req fun key => ∀ windowSec, storageKey key windowSec ∈ e.watched := by
  intro spec builtin key derived windowSec _ req' targetType target same
  obtain ⟨-, rfl⟩ := quotaBucketKey_some derived
  have keys := (storageKey_inj.mp same).1
  unfold Engine.sequenceHistoryKey Engine.anchoredKey at keys
  rw [compositeKeyJoin_eq, compositeKeyJoin_eq] at keys
  simp only [List.mem_cons, List.not_mem_nil, or_false] at builtin
  rcases builtin with rfl | rfl
  · exact absurd (compositeKey_inj (by decide) (by decide) keys).1 (by decide)
  · exact absurd (compositeKey_inj (by decide) (by decide) keys).1 (by decide)

/-- What both engines do on stores that mirror each other. -/
theorem watched_respects (e : Engine) (instant : ℤ) (req : EnforceRequest) :
    LocalIf (e.skipAntecedentRecording = false) e instant req
      (fun key => ∀ windowSec, storageKey key windowSec ∈ e.watched) (Respects (Mirrors e) Faulted) :=
  local_sameStores e instant req fun kept _ _ skipped => by simp [kept] at skipped

variable {matched : Constraint} (covers : e.Covers matched)
include builtin covers

theorem evaluateChecked_beside (wired : flow = true → e.skipFlow = false)
    (effect : ResolvedEffect) (carried : List Bytes) :
    Beside e (e.evaluateChecked ctx req matched effect flow carried)
      (e.untold.evaluateChecked ctx req matched effect flow carried) := by
  have ceiling : e.untold.checkEffectCeiling = e.checkEffectCeiling := rfl
  have admission : e.untold.admitPending = e.admitPending := rfl
  intro w
  unfold Engine.evaluateChecked
  simp only [runPureConditions_untold ctx req builtin covers.labels, ceiling, admission, prepareDeferred_untold,
    Engine.commitDeferredConditions]
  rcases e.runPureConditions ctx req matched.conditions w with ⟨condErr | deferred, mid⟩
  · exact .refl e _
  rcases collectObligations ctx matched with ⟨obligations, _ | deny⟩
  swap
  · exact .refl e _
  dsimp only
  cases e.checkEffectCeiling ctx matched.isAuditOnly effect carried with
  | some deny => exact .refl e _
  | none =>
    rcases e.prepareDeferred ctx req deferred [] [] with ⟨faults, condErr | pending⟩
    · exact .refl e _
    dsimp only
    rcases e.admitPending ctx.instant pending mid with ⟨_ | condErr, next⟩
    · intro good
      obtain ⟨clean, answers, mirror⟩ := recordAllowed_beside ctx req wired obligations effect carried good
      exact ⟨clean, congrArg (fun resp : EnforceResponse => { resp with handlerFaults := faults }) answers, mirror⟩
    · exact .refl e _

theorem evaluateMatched_beside :
    Beside e (e.evaluateMatched ctx req matched) (e.untold.evaluateMatched ctx req matched) := by
  let effect := resolveEffect matched.effect req.arguments
  let ctx' : Context := { ctx with directives := matched.directives, effect := some effect, carriedLabels := none }
  have anchored : Beside e (e.evaluateAnchored ctx' req matched effect)
      (e.untold.evaluateAnchored ctx' req matched effect) := by
    unfold Engine.evaluateAnchored
    rw [skipFlow_untold]
    refine .of_ite (fun _ => .refl e _) fun _ => ?_
    cases flows : constraintHasFlow matched with
    | false =>
      simp only [Bool.not_false, Bool.or_true]
      exact evaluateChecked_beside ctx' req builtin covers (by simp) effect []
    | true =>
      have wired := covers.flow flows
      simp only [wired, Bool.not_true, Bool.or_self, Bool.false_eq_true, ↓reduceIte,
        peekSessionLabels_untold ctx'.instant req wired]
      intro w
      dsimp only
      rcases e.peekSessionLabels ctx'.instant req w with ⟨err | carried, mid⟩
      · exact .refl e _
      intro good
      obtain ⟨clean, answers, mirror⟩ := evaluateChecked_beside { ctx' with carriedLabels := some carried } req
        builtin covers (fun _ => wired) effect carried good
      exact ⟨clean, congrArg (stampCarriedLabels carried) answers, mirror⟩
  intro w good
  obtain ⟨clean, answers, mirror⟩ := anchored good
  exact ⟨clean, congrArg (stampObligations (willForwardDeny ctx' (some matched)) (collectObligations ctx' matched).1)
    answers, mirror⟩

/-- One decision is the same on both engines. -/
theorem evaluateMatched_alongside (mirror : Mirrors e w w') (good : ¬ Faulted (e.evaluateMatched ctx req matched w).2)
    (good' : ¬ Faulted (e.untold.evaluateMatched ctx req matched w').2) :
    (e.untold.evaluateMatched ctx req matched w').1 = (e.evaluateMatched ctx req matched w).1 ∧
      Mirrors e (e.evaluateMatched ctx req matched w).2 (e.untold.evaluateMatched ctx req matched w').2 := by
  obtain ⟨clean, answers, beside⟩ := evaluateMatched_beside ctx req builtin covers good'
  have reading : e.Sequenced matched.conditions → e.skipAntecedentRecording = false := by
    rintro ⟨cond, mem, solid, registered, found, handled⟩
    exact covers.history cond mem solid ((registered_builtin builtin found).2 handled)
  obtain ⟨same, next⟩ := ((watched_respects e ctx.instant req).evaluateMatched (embedderKeys_builtin builtin req _)
    (fun ctx' _ => quotaKeys_watched ctx' req) reading).alike mirror good clean
  exact ⟨answers.trans same, next.trans beside⟩

end Decision

/-! Runs. -/

/-- A call to one of the engine's two seams, with the identity and instant it runs
under. A nil request or constraint is a call too. -/
inductive SeamCall where
  | evaluateConditions (ctx : Context) (req : Option EnforceRequest) (matched : Option Constraint)
  | recordSessionCall (instant : ℤ) (req : Option EnforceRequest)

inductive SeamAnswer where
  | evaluated (resp : EnforceResponse)
  | recorded (result : Except Message Unit)

/-- A refusal because the request cannot be anchored. -/
def SeamAnswer.unanchored : SeamAnswer → Bool
  | .evaluated resp => resp.denial = some anchorDenial
  | .recorded (.error err) => err = errUnanchorableStateWrite
  | .recorded (.ok ()) => false

/-- The constraint of a call is one of the policy's. -/
def SeamCall.drawnFrom (entries : List Constraint) : SeamCall → Prop
  | .evaluateConditions _ _ (some matched) => matched ∈ entries
  | _ => True

def Engine.answer (e : Engine) (call : SeamCall) (w : World) : SeamAnswer × World :=
  match call with
  | .evaluateConditions ctx req matched =>
    (.evaluated (e.evaluateConditions ctx req matched w).1, (e.evaluateConditions ctx req matched w).2)
  | .recordSessionCall _ none =>
    (.recorded (.error (nilSeamRefusal "RecordSessionCall" "a nil engine or request")), w)
  | .recordSessionCall instant (some req) =>
    (.recorded (e.recordSessionCall instant req w).1, (e.recordSessionCall instant req w).2)

/-- The answers to a run of calls. -/
def Engine.runCalls (e : Engine) : List SeamCall → World → List SeamAnswer × World
  | [], w => ([], w)
  | call :: rest, w =>
    ((e.answer call w).1 :: (e.runCalls rest (e.answer call w).2).1, (e.runCalls rest (e.answer call w).2).2)

section Runs
variable {e : Engine} (builtin : e.handlers = registerBuiltins policyUses stateless)
include builtin

theorem answer_stays (call : SeamCall) (bad : Faulted w) : Faulted (e.answer call w).2 := by
  rcases call with ⟨ctx, _ | req, _ | matched⟩ | ⟨instant, _ | req⟩
  · exact bad
  · exact bad
  · exact bad
  · exact ((local_respects e ctx.instant req).evaluateMatched (embedderKeys_builtin builtin req _)
      (fun ctx' _ => quotaKeys_owned e ctx' req) fun _ => trivial).stays bad
  · exact bad
  · exact (local_respects e instant req).recordSessionCall.stays bad

theorem runCalls_stays (calls : List SeamCall) (bad : Faulted w) : Faulted (e.runCalls calls w).2 := by
  induction calls generalizing w with
  | nil => exact bad
  | cons call rest ih => exact ih (answer_stays builtin call bad)

variable {entries : List Constraint} (covers : ∀ matched ∈ entries, e.Covers matched)
include covers

/-- One call: the untold engine may refuse to write a marker it cannot anchor, which the
told one does not write. -/
theorem answer_alongside (drawn : call.drawnFrom entries)
    (mirror : Mirrors e w w') (good : ¬ Faulted (e.answer call w).2)
    (good' : ¬ Faulted (e.untold.answer call w').2) (anchored : (e.untold.answer call w').1.unanchored = false) :
    (e.untold.answer call w').1 = (e.answer call w).1 ∧
      Mirrors e (e.answer call w).2 (e.untold.answer call w').2 := by
  rcases call with ⟨ctx, _ | req, _ | matched⟩ | ⟨instant, _ | req⟩
  · exact ⟨rfl, mirror⟩
  · exact ⟨rfl, mirror⟩
  · exact ⟨rfl, mirror⟩
  · obtain ⟨same, next⟩ := evaluateMatched_alongside ctx req builtin (covers matched drawn) mirror good good'
    exact ⟨congrArg SeamAnswer.evaluated same, next⟩
  · exact ⟨rfl, mirror⟩
  · cases resolved : e.anchorUnresolved req with
    | false =>
      obtain ⟨clean, answers, beside⟩ := recordSessionCall_beside instant req resolved good'
      obtain ⟨same, next⟩ := (watched_respects e instant req).recordSessionCall.alike mirror good clean
      exact ⟨congrArg SeamAnswer.recorded (answers.trans same), next.trans beside⟩
    | true =>
      cases wired : e.counterWired with
      | false =>
        have silent : ∀ engine : Engine, engine.counterWired = false → ∀ w,
            engine.recordSessionCall instant req w = (.ok (), w) := by
          intro engine off w
          simp [Engine.recordSessionCall, off]
        simp only [Engine.answer, silent e wired, silent e.untold wired]
        exact ⟨trivial, mirror⟩
      | true =>
        have unresolved : e.untold.anchorUnresolved req = true := resolved
        have counter : e.untold.counterWired = true := wired
        simp [Engine.answer, SeamAnswer.unanchored, Engine.recordSessionCall,
          skipAntecedentRecording_untold, unresolved, counter] at anchored

theorem runCalls_alongside (drawn : ∀ call ∈ calls, call.drawnFrom entries)
    (mirror : Mirrors e w w') (good : ¬ Faulted (e.runCalls calls w).2)
    (good' : ¬ Faulted (e.untold.runCalls calls w').2)
    (anchored : ∀ answer ∈ (e.untold.runCalls calls w').1, answer.unanchored = false) :
    (e.untold.runCalls calls w').1 = (e.runCalls calls w).1 := by
  induction calls generalizing w w' with
  | nil => rfl
  | cons call rest ih =>
    have mid : ¬ Faulted (e.answer call w).2 := fun bad => good (runCalls_stays builtin rest bad)
    have mid' : ¬ Faulted (e.untold.answer call w').2 :=
      fun bad => good' (runCalls_stays (e := e.untold) builtin rest bad)
    obtain ⟨same, next⟩ := answer_alongside builtin covers (drawn call (.head _)) mirror mid mid'
      (anchored _ (.head _))
    have later := ih (fun call mem => drawn call (.tail _ mem)) next good good'
      fun answer mem => anchored answer (.tail _ mem)
    simp [Engine.runCalls, same, later]

end Runs

/-- Skipping is not seen. An engine with the built-in handlers that was told the
condition and directive types of its policy answers every run of calls on the policy's
constraints as one that was told nothing and so skips nothing: the same responses, with
their decisions, denial codes and obligations, and the same results of recording. What a policy
evaluator declares may be anything; that it is honest, reading no store, is that its handler, one of
`stateless`, is a function of the call. Only runs in which a backend faults or a request cannot be
anchored are left out. -/
theorem skipped_subsystems_unseen {e : Engine}
    {stateless : Bytes → Option (Context → Condition → EnforceRequest → Option ConditionError)}
    (builtin : e.handlers = registerBuiltins policyUses stateless) {entries : List Constraint} {tokens : List Bytes}
    (told : e.policyTokens = some tokens)
    (carried : ∀ matched ∈ entries, ∀ token ∈ matched.tokens, token ∈ tokens)
    {calls : List SeamCall} (drawn : ∀ call ∈ calls, call.drawnFrom entries) {w : World}
    (good : ¬ Faulted (e.runCalls calls w).2) (good' : ¬ Faulted (e.untold.runCalls calls w).2)
    (anchored : ∀ answer ∈ (e.untold.runCalls calls w).1, answer.unanchored = false) :
    (e.runCalls calls w).1 = (e.untold.runCalls calls w).1 :=
  (runCalls_alongside builtin (fun matched member => covers_of_tokens builtin told (carried matched member))
    drawn (.refl _ w) good good' anchored).symm

/-- A quota and a policy, whose evaluator says that it uses neither subsystem. -/
def quotaEntry : Constraint := bareConstraint [.maxCalls 1 60, .other (lit "policy") .null] []

def quotaCalls : List SeamCall :=
  [.evaluateConditions bareContext (some (bareRequest (lit "s") [])) (some quotaEntry),
    .recordSessionCall 0 (some (bareRequest (lit "s") [])),
    .evaluateConditions bareContext (some (bareRequest (lit "s") [])) (some quotaEntry)]

def quotaRoute : Engine :=
  { bareRoute (some [conditionTypeMaxCalls, lit "policy"]) with
    handlers := registerBuiltins [.none] fun token => if token = lit "policy" then some fun _ _ _ => none else none }

/-- Told of them only, a route skips both subsystems and answers as if it did not. -/
theorem skipped_subsystems_unseen_quota : quotaRoute.skipFlow = true ∧ quotaRoute.skipAntecedentRecording = true ∧
    (quotaRoute.runCalls quotaCalls freshStores).1 = (quotaRoute.untold.runCalls quotaCalls freshStores).1 := by
  refine ⟨by decide, by decide, ?_⟩
  have carried : ∀ matched ∈ [quotaEntry], ∀ token ∈ matched.tokens, token ∈ [conditionTypeMaxCalls, lit "policy"] := by
    intro matched member
    obtain rfl := List.mem_singleton.mp member
    decide
  refine skipped_subsystems_unseen rfl rfl carried ?_ ?_ ?_ ?_
  · intro call member
    simp only [quotaCalls, List.mem_cons, List.not_mem_nil, or_false] at member
    rcases member with rfl | rfl | rfl <;> simp [SeamCall.drawnFrom]
  · unfold Faulted
    decide +kernel
  · unfold Faulted
    decide +kernel
  · decide +kernel

end Eunox
