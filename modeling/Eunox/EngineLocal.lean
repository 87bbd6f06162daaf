import Eunox.StateProgram
import Eunox.EngineDecision

/-! A decision reaches the stores only through a few operations at keys of its
own subject. A compositional property of those operations is one of the whole
decision, whatever its conditions are. -/
namespace Eunox
open ByteString CallCounter StateProgram

/-- What state accrues to: a route's namespace and an anchor. -/
structure Subject where
  counterKeyNamespace : Bytes
  anchor : StateAnchor
  deriving DecidableEq

def Engine.subject (e : Engine) (req : EnforceRequest) : Subject := ⟨e.counterKeyNamespace, e.resolveAnchor req⟩

/-- The keys a subject's calls count under: a tag, the subject, and a target's
type and name. -/
def Subject.Owns (subject : Subject) (key : Bytes) : Prop :=
  ∃ tag targetType target : Bytes, (58 : UInt8) ∉ tag ∧
    key = compositeKeyJoin tag (subject.counterKeyNamespace :: subject.anchor.components)
      [targetType, target]

/-- The key of the bucket that was prepared, if one was, is as described. -/
def Preparation.Keyed (p : Preparation) (Q : Bytes → Prop) : Prop := p.commit.commits = true → Q p.commit.bucket.key

/-- What an embedder's committing handlers may key their buckets by. -/
def Engine.EmbedderKeys (e : Engine) (req : EnforceRequest) (Q : Bytes → Prop) : Prop :=
  ∀ token prepareCommit uses, e.handlers token = some ⟨.committing prepareCommit, uses⟩ →
    ∀ ctx cond, (prepareCommit ctx cond req).Keyed Q

/-- The built-in quota conditions derive their keys from the request's subject;
an embedder's handlers are asked to. -/
def Engine.KeysBySubject (e : Engine) : Prop := ∀ req, e.EmbedderKeys req (e.subject req).Owns

/-- A property of programs over the stores that the operations of one request on one engine, at one instant, have. Of
reading the sequence history this need only hold where `reads` does. -/
structure LocalIf (reads : Prop) (e : Engine) (instant : ℤ) (req : EnforceRequest) (Q : Bytes → Prop)
    (P : ∀ {α : Type}, (World → α × World) → Prop) : Prop extends Compositional P where
  labels : P (e.peekSessionLabels instant req)
  record : ∀ matched, P (e.recordLabels instant req matched)
  rollback : ∀ added, P fun w => ((), e.rollbackLabels instant req added w)
  history : reads → ∀ targetType target, P fun w => (e.historyCount instant req targetType target w, w)
  marker : ∀ targetType target, P (e.recordMarker instant req targetType target)
  fault : P fun w => ((), { w with faulted := true })
  admission : ∀ pending : List PendingBucket, (∀ b ∈ pending, Q b.bucket.key) →
    P (e.admitPending instant pending)

/-- Some condition looks the sequence history up. -/
def Engine.Sequenced (e : Engine) (conditions : List Condition) : Prop :=
  ∃ cond ∈ conditions, cond.isNil = false ∧ ∃ registered,
    e.handlers cond.conditionType = some registered ∧ registered.handler = .sequenceBlock

/-! Preparing. -/

section Keyed
variable {e : Engine} {ctx : Context} {req : EnforceRequest} {Q : Bytes → Prop}

theorem Preparation.Keyed.of_uncommitted {p : Preparation} (uncommitted : p.commit = .none) : p.Keyed Q := by
  intro commits
  rw [uncommitted] at commits
  cases commits

/-- A derived key had a subject to be derived from. -/
theorem quotaBucketKey_some (derived : e.quotaBucketKey ctx req spec = .ok (some key)) :
    (e.resolveAnchor req).id ≠ [] ∧
      key = e.anchoredKey spec.tag req [(sessionTargetKey req).1, (sessionTargetKey req).2] := by
  unfold Engine.quotaBucketKey at derived
  split at derived
  · cases derived
  rename_i guarded
  dsimp only at derived
  split at derived
  · cases derived
  split at derived
  · cases derived
  refine ⟨fun empty => ?_, (Option.some.inj (Except.ok.inj derived)).symm⟩
  unfold Engine.counterSubjectGuards at guarded
  split at guarded
  · cases guarded
  · simp [empty] at guarded

/-- The keys the built-in quota conditions derive. -/
def Engine.QuotaKeys (e : Engine) (ctx : Context) (req : EnforceRequest) (Q : Bytes → Prop) : Prop :=
  ∀ spec ∈ [maxCallsBucketSpec, blastRadiusBucketSpec], ∀ key,
    e.quotaBucketKey ctx req spec = .ok (some key) → Q key

variable (derived : e.QuotaKeys ctx req Q)
include derived

theorem prepareBucket_keyed {spec : CounterKeySpec} (builtin : spec ∈ [maxCallsBucketSpec, blastRadiusBucketSpec])
    (keyed : ∀ key, (commit key).bucket.key = key) :
    (e.prepareBucket ctx req spec commit).Keyed Q := by
  unfold Engine.prepareBucket
  split
  · exact .of_uncommitted rfl
  · exact .of_uncommitted rfl
  rename_i key found
  intro _
  rw [keyed]
  exact derived spec builtin key found

theorem maxCallsPrepareCommit_keyed (cond : Condition) : (e.maxCallsPrepareCommit ctx cond req).Keyed Q := by
  unfold Engine.maxCallsPrepareCommit
  split
  · exact prepareBucket_keyed derived (by simp) fun _ => rfl
  · exact .of_uncommitted rfl

theorem velocityBucket_keyed (maxTotal : Bytes) (windowSeconds : ℤ) (limit : ℚ) (eff : ResolvedEffect) :
    (e.velocityBucket ctx maxTotal windowSeconds limit eff req).Keyed Q := by
  unfold Engine.velocityBucket
  split
  · exact .of_uncommitted rfl
  split
  · exact .of_uncommitted rfl
  · exact prepareBucket_keyed derived (by simp) fun _ => rfl

theorem blastRadiusPrepareCommit_keyed (cond : Condition) : (e.blastRadiusPrepareCommit ctx cond req).Keyed Q := by
  unfold Engine.blastRadiusPrepareCommit
  split
  · split
    · exact .of_uncommitted rfl
    split
    · exact .of_uncommitted rfl
    dsimp only
    split
    · exact .of_uncommitted rfl
    split
    · exact .of_uncommitted rfl
    · exact velocityBucket_keyed derived _ _ _ _
  · exact .of_uncommitted rfl

/-- A condition set aside under a handler the engine has. -/
def DeferredCondition.RegisteredIn (d : DeferredCondition) (e : Engine) : Prop :=
  ∃ token registered, e.handlers token = some registered ∧ d.handler = registered.handler

variable (embedder : e.EmbedderKeys req Q)
include embedder

theorem prepareCommit_keyed {d : DeferredCondition} (registered : d.RegisteredIn e) :
    (e.prepareCommit ctx d req).Keyed Q := by
  obtain ⟨token, ⟨handler, uses⟩, found, same⟩ := registered
  unfold Engine.prepareCommit
  rw [same]
  cases handler with
  | committing prepareCommit => exact embedder token prepareCommit uses found ctx d.cond
  | maxCalls => exact maxCallsPrepareCommit_keyed derived d.cond
  | blastRadius => exact blastRadiusPrepareCommit_keyed derived d.cond
  | _ => exact .of_uncommitted rfl

/-- The key of every bucket the commit is about to admit. -/
theorem prepareDeferred_keyed (registered : ∀ d ∈ deferred, d.RegisteredIn e) {faults faults' : List HandlerFault}
    {pending pending' : List PendingBucket} (before : ∀ b ∈ pending, Q b.bucket.key)
    (prepared : e.prepareDeferred ctx req deferred faults pending = (faults', .ok pending')) :
    ∀ b ∈ pending', Q b.bucket.key := by
  induction deferred generalizing faults pending with
  | nil =>
    obtain ⟨-, same⟩ := Prod.mk.inj prepared
    rwa [← Except.ok.inj same]
  | cons d rest ih =>
    have later := fun {faults pending} => @ih (fun d mem => registered d (by simp [mem])) faults pending
    simp only [Engine.prepareDeferred] at prepared
    split at prepared
    · cases prepared
    split at prepared
    · split at prepared
      · cases prepared
      · exact later before prepared
    split at prepared
    · exact later before prepared
    split at prepared
    · exact later before prepared
    split at prepared
    · cases prepared
    · rename_i commits
      refine later (List.forall_mem_append.mpr ⟨before, List.forall_mem_singleton.mpr ?_⟩) prepared
      exact prepareCommit_keyed derived embedder (registered d (by simp)) (by simpa using commits)

end Keyed

/-- The built-in registry has no embedder's committing handler. -/
theorem embedderKeys_builtin {e : Engine}
    (builtin : e.handlers = registerBuiltins policyUses stateless) (req : EnforceRequest) (Q : Bytes → Prop) :
    e.EmbedderKeys req Q := by
  intro token prepareCommit uses found
  have := (registerBuiltins_cases (builtin ▸ found)).2
  simp at this

theorem quotaKeys_owned (e : Engine) (ctx : Context) (req : EnforceRequest) :
    e.QuotaKeys ctx req (e.subject req).Owns := by
  intro spec builtin key found
  obtain ⟨-, rfl⟩ := quotaBucketKey_some found
  refine ⟨spec.tag, _, _, ?_, rfl⟩
  simp only [List.mem_cons, List.not_mem_nil, or_false] at builtin
  rcases builtin with rfl | rfl <;> decide

section Local
variable {reads : Prop} {e : Engine} {instant : ℤ} {req : EnforceRequest} {Q : Bytes → Prop}
  {P : ∀ {α : Type}, (World → α × World) → Prop} (ops : LocalIf reads e instant req Q P)
include ops

/-! Recording. -/

theorem LocalIf.recordSessionCall : P (e.recordSessionCall instant req) := by
  unfold Engine.recordSessionCall
  rcases sessionTargetKey req with ⟨targetType, tool⟩
  rcases named : splitEnginePrefix tool with ⟨altType, altName⟩
  simp only [named]
  refine ops.unless fun _ => ?_
  refine ops.unless fun _ => ?_
  refine ops.unless fun _ => ?_
  refine ops.unless fun _ => ?_
  have primary := ops.marker targetType tool
  refine of_ite (fun _ => ops.after (ops.marker altType altName) ?_) fun _ => primary
  rintro (err | ⟨⟩)
  · exact ⟨_, ops.answer (.error err), fun w w' ran => by simp [ran]⟩
  · exact ⟨_, primary, fun w w' ran => by simp [ran]⟩

theorem LocalIf.recordAntecedentIn (scope : SourceCommitScope) : P (e.recordAntecedentIn instant scope req) := by
  exact of_ite (fun _ => ops.recordSessionCall) fun _ => ops.answer _

theorem LocalIf.recordSourceCall (matched : Constraint) (scope : SourceCommitScope)
    (carried : List Bytes) : P (e.recordSourceCall instant req matched scope carried) := by
  refine ops.unless fun _ => ?_
  have labelled : P fun w => if scope.flow then e.recordLabels instant req matched w
      else (.ok [], w) :=
    of_ite (fun _ => ops.record matched) fun _ => ops.answer _
  refine ops.after labelled ?_
  rintro (err | labelsOut)
  · exact ⟨_, ops.answer (.error ⟨err, true⟩), fun w w' ran => by simp [ran]⟩
  refine ops.continue (ops.recordAntecedentIn scope) ?_
  rintro (err | ⟨⟩)
  · have undone := ops.mapAnswer (ops.rollback (labelsAdded labelsOut carried))
      fun _ => (.error ⟨err, false⟩ : Except SourceCommitError (List Bytes))
    exact ⟨_, undone, fun w w' ⟨_, ran, marked⟩ => by simp [ran, marked]⟩
  · exact ⟨_, ops.answer (.ok labelsOut), fun w w' ⟨_, ran, marked⟩ => by simp [ran, marked]⟩

end Local

section Decision
variable {reads : Prop} {e : Engine} {ctx : Context} {req : EnforceRequest} {Q : Bytes → Prop}
  {P : ∀ {α : Type}, (World → α × World) → Prop} (ops : LocalIf reads e ctx.instant req Q P)
include ops

/-! Conditions. -/

theorem LocalIf.handleFlowLabel (cond : Condition) : P (e.handleFlowLabel ctx cond req) := by
  cases cond with
  | flowLabel allow =>
    unfold Engine.handleFlowLabel
    dsimp only
    cases firstUnusable allow with
    | some err => exact ops.answer _
    | none =>
      refine ops.unless fun _ => ?_
      refine ops.unless fun _ => ?_
      cases ctx.carriedLabels with
      | some present => exact ops.answer _
      | none =>
        refine ops.after (ops.labels) ?_
        rintro (err | present) <;> exact ⟨_, ops.answer _, fun w w' ran => by simp only [ran]; rfl⟩
  | _ => exact ops.answer _

theorem LocalIf.sequenceLookup (reading : reads) (afterTools priors : List Bytes) :
    P (e.sequenceLookup ctx req afterTools priors) := by
  induction priors with
  | nil => exact ops.answer _
  | cons prior rest ih =>
    refine ops.after (ops.history reading (antecedentTarget prior).1 (antecedentTarget prior).2) ?_
    rintro (err | count)
    · refine ⟨_, ops.mapAnswer ops.fault fun _ => some (conditionFault conditionTypeSequenceBlock
        [.text "session history lookup failed: ", .counterError err]), fun w w' ran => ?_⟩
      obtain ⟨read, rfl⟩ := Prod.mk.inj ran
      simp [Engine.sequenceLookup, read]
    · have again := ops.mapAnswer (ops.marker (antecedentTarget prior).1
        (antecedentTarget prior).2) fun _ => some (sequenceDenial req afterTools
          (antecedentTarget prior).1 (antecedentTarget prior).2)
      refine ⟨_, of_ite (c := 0 < count) (fun _ => again) fun _ => ih, fun w w' ran => ?_⟩
      obtain ⟨read, rfl⟩ := Prod.mk.inj ran
      simp [Engine.sequenceLookup, read]

theorem LocalIf.handleSequenceBlock (reading : reads) (cond : Condition) :
    P (e.handleSequenceBlock ctx cond req) := by
  cases cond with
  | sequenceBlock afterTools =>
    unfold Engine.handleSequenceBlock
    dsimp only
    refine ops.unless fun _ => ?_
    refine ops.unless fun _ => ?_
    cases e.counterSubjectGuards req sequenceHistorySpec with
    | some condErr => exact ops.answer _
    | none => exact ops.sequenceLookup reading afterTools afterTools
  | _ => exact ops.answer _

theorem LocalIf.evalCondition (cond : Condition) {handler : Handler} (reading : handler = .sequenceBlock → reads) :
    P (e.evalCondition ctx req cond handler) := by
  cases handler with
  | flowLabel => exact ops.handleFlowLabel cond
  | sequenceBlock => exact ops.handleSequenceBlock (reading rfl) cond
  | _ => exact ops.answer _

theorem LocalIf.runPureConditions (reading : e.Sequenced conditions → reads) :
    P (e.runPureConditions ctx req conditions) := by
  induction conditions with
  | nil => exact ops.answer _
  | cons cond rest ih =>
    have ih := ih fun ⟨other, mem, looks⟩ => reading ⟨other, .tail _ mem, looks⟩
    refine of_eq (fun w => Engine.runPureConditions.eq_2 e ctx req w cond rest) ?_
    refine ops.unless fun solid => ?_
    cases found : e.handlers cond.conditionType with
    | none => exact ops.answer _
    | some registered =>
      refine of_ite (fun _ => ops.after ih ?_) fun _ =>
        ops.after (ops.evalCondition cond fun looks => reading
          ⟨cond, .head _, Bool.eq_false_iff.mpr solid, registered, found, looks⟩) ?_
      · rintro (condErr | deferred)
        · exact ⟨_, ops.answer (.error condErr), fun w w' ran => by simp [ran]⟩
        · exact ⟨_, ops.answer (.ok (⟨cond, cond.conditionType, registered.handler⟩ :: deferred)),
            fun w w' ran => by simp [ran]⟩
      · rintro (_ | condErr)
        · exact ⟨_, ih, fun w w' ran => by simp [ran]⟩
        · exact ⟨_, ops.answer (.error condErr), fun w w' ran => by simp [ran]⟩

/-! The decision. -/

omit ops in
theorem runPureConditions_registered (ran : e.runPureConditions ctx req conditions w = (.ok deferred, w')) :
    ∀ d ∈ deferred, d.RegisteredIn e := by
  induction conditions generalizing w w' deferred with
  | nil =>
    obtain ⟨same, -⟩ := Prod.mk.inj ran
    rw [← Except.ok.inj same]
    simp
  | cons cond rest ih =>
    simp only [Engine.runPureConditions] at ran
    split at ran
    · cases ran
    split at ran
    · cases ran
    rename_i registered found
    split at ran
    · split at ran
      · rename_i later
        obtain ⟨same, -⟩ := Prod.mk.inj ran
        rw [← Except.ok.inj same]
        exact List.forall_mem_cons.mpr ⟨⟨_, registered, found, rfl⟩, ih later⟩
      · cases ran
    · split at ran
      · cases ran
      · exact ih ran

instance : Nonempty World := ⟨⟨newInMemory 0, FlowLabelStore.newInMemory 0 0, false⟩⟩

theorem LocalIf.recordAllowed (matched : Constraint) (obligations : List Obligation)
    (effect : ResolvedEffect) (flow : Bool) (carried : List Bytes) :
    P (e.recordAllowed ctx req matched obligations effect flow carried) := by
  unfold Engine.recordAllowed
  refine ops.after (ops.recordSourceCall matched ⟨flow, true⟩ carried) ?_
  rintro (err | labelsOut) <;> exact ⟨_, ops.answer _, fun w w' ran => by simp only [ran]; rfl⟩

variable (embedder : e.EmbedderKeys req Q)
include embedder

theorem LocalIf.evaluateChecked (derived : e.QuotaKeys ctx req Q) (reading : e.Sequenced matched.conditions → reads)
    (effect : ResolvedEffect) (flow : Bool) (carried : List Bytes) :
    P (e.evaluateChecked ctx req matched effect flow carried) := by
  unfold Engine.evaluateChecked
  refine ops.afterReached (ops.runPureConditions reading) ?_
  rintro (condErr | deferred) ⟨start, reached⟩
  · exact ⟨_, ops.answer _, fun w w' ran => by simp only [ran]; rfl⟩
  have registered := runPureConditions_registered (Prod.ext reached rfl)
  rcases collectObligations ctx matched with ⟨obligations, _ | deny⟩
  swap
  · exact ⟨_, ops.answer deny, fun w w' ran => by simp [ran]⟩
  cases e.checkEffectCeiling ctx matched.isAuditOnly effect carried with
  | some deny => exact ⟨_, ops.answer deny, fun w w' ran => by simp [ran]⟩
  | none =>
    rcases preparing : e.prepareDeferred ctx req deferred [] [] with ⟨faults, condErr | pending⟩
    · exact ⟨_, ops.answer _, fun w w' ran => by
        simp only [ran, Engine.commitDeferredConditions, preparing]
        rfl⟩
    have keyed := prepareDeferred_keyed derived embedder registered (by simp) preparing
    refine ops.continue (ops.admission pending keyed) ?_
    rintro (_ | condErr)
    · refine ⟨_, ops.mapAnswer (ops.recordAllowed matched obligations effect flow carried)
        fun resp => { resp with handlerFaults := faults }, fun w w' ⟨_, ran, admitted⟩ => ?_⟩
      simp [ran, Engine.commitDeferredConditions, preparing, admitted]
    · refine ⟨_, ops.answer { denyResponse ctx matched.isAuditOnly [] condErr with
        handlerFaults := faults }, fun w w' ⟨_, ran, admitted⟩ => ?_⟩
      simp [ran, Engine.commitDeferredConditions, preparing, admitted]

/-- The whole decision has the property. -/
theorem LocalIf.evaluateMatched (derived : ∀ ctx' : Context, ctx'.skipQuota = ctx.skipQuota → e.QuotaKeys ctx' req Q)
    (reading : e.Sequenced matched.conditions → reads) : P (e.evaluateMatched ctx req matched) := by
  have checked : ∀ ctx' : Context, ctx'.instant = ctx.instant → ctx'.skipQuota = ctx.skipQuota →
      ∀ effect flow carried, P (e.evaluateChecked ctx' req matched effect flow carried) :=
    fun ctx' same posture => LocalIf.evaluateChecked (same ▸ ops) embedder (derived ctx' posture) reading
  refine ops.mapAnswer (f := e.evaluateAnchored _ req matched _) ?_ _
  refine ops.unless fun _ => ?_
  refine of_ite (fun _ => checked _ (by rfl) (by rfl) _ _ _) fun _ => ?_
  refine ops.after ops.labels ?_
  rintro (err | carried)
  · exact ⟨_, ops.answer _, fun w w' ran => by simp only [ran]; rfl⟩
  · exact ⟨_, ops.mapAnswer (checked { ctx with
      directives := matched.directives
      effect := some (resolveEffect matched.effect req.arguments)
      carriedLabels := some carried } rfl rfl _ true carried) (stampCarriedLabels carried),
      fun w w' ran => by simp only [ran]; rfl⟩

end Decision

end Eunox
