import Eunox.DecisionCommits
import Eunox.EngineNoninterference

/-! Information-flow confinement over runs. Decisions are taken one after another
by any number of engines over shared stores. An allowed sink permits every label
its subject's earlier calls put out; no other subject's call changes its answer;
and the labels a request declares of itself only ever restrict it. -/
namespace Eunox
open ByteString CallCounter StateProgram

/-- One `EvaluateConditions` call; request and constraint may be nil. -/
structure Call where
  engine : Engine
  context : Context
  request : Option EnforceRequest
  matched : Option Constraint

def Call.respond (c : Call) (w : World) : EnforceResponse × World :=
  c.engine.evaluateConditions c.context c.request c.matched w

/-- The stores after a sequence of calls. -/
def Call.run (w : World) (calls : List Call) : World := calls.foldl (fun w c => (c.respond w).2) w

def Call.subject (c : Call) : Option Subject := c.request.map c.engine.subject

theorem Call.run_append (w : World) (calls later : List Call) :
    Call.run w (calls ++ later) = Call.run (Call.run w calls) later := List.foldl_append

/-! Accumulation. -/

/-- Every label a key holds stays through a call, and an allowed call's own labels
are there afterwards. -/
theorem Call.respond_labels (keeps : w.flowStore.ttl ≤ 0) (c : Call) :
    (c.respond w).2.flowStore.ttl ≤ 0 ∧ ∀ key, ∀ l ∈ w.labels key, l ∈ (c.respond w).2.labels key := by
  obtain ⟨e, ctx, request, matched⟩ := c
  cases request with
  | none => exact ⟨keeps, fun _ _ held => held⟩
  | some req =>
    cases matched with
    | none => exact ⟨keeps, fun _ _ held => held⟩
    | some matched =>
      have effect := (evaluateMatched_outcome e ctx req matched w).labels keeps
      exact ⟨effect.wiring.ttl ▸ keeps, effect.grows⟩

theorem Call.run_labels (keeps : w.flowStore.ttl ≤ 0) (calls : List Call) : (Call.run w calls).flowStore.ttl ≤ 0 ∧
      ∀ key, ∀ l ∈ w.labels key, l ∈ (Call.run w calls).labels key := by
  induction calls generalizing w with
  | nil => exact ⟨keeps, fun _ _ held => held⟩
  | cons c rest ih =>
    obtain ⟨keeps', grows⟩ := c.respond_labels keeps
    obtain ⟨last, later⟩ := ih keeps'
    exact ⟨last, fun key l held => later key l (grows key l held)⟩

/-! The sink. -/

/-- `flowLabel` conditions are evaluated by the engine's own handler. -/
def Engine.OwnSink (e : Engine) : Prop := ∃ uses, e.handlers conditionTypeFlowLabel = some ⟨.flowLabel, uses⟩

theorem flowVerdict_none :
    flowVerdict allow present declared = none ↔ ∀ l ∈ unionLabels present declared, l ∈ allow := by
  unfold flowVerdict
  constructor
  · intro clean l mem
    by_contra outside
    have blocked : l ∈ (unionLabels present declared).filter fun l => !allow.contains l := by
      simpa [outside] using mem
    dsimp only at clean
    split at clean
    · rename_i empty
      rw [List.getLast?_eq_none_iff.mp empty] at blocked
      cases blocked
    · cases clean
  · intro inside
    have empty : (unionLabels present declared).filter (fun l => !allow.contains l) = [] := by
      simpa [List.filter_eq_nil_iff] using inside
    rw [empty]
    rfl

/-- The union holds what both sides hold, as far as it can be interpreted. -/
theorem mem_unionLabels (usable' : ∀ l ∈ present, usable l = true) :
    l ∈ unionLabels present (normalizeDeclaredLabels declared) ↔
      l ∈ present ∨ l ∈ normalizeDeclaredLabels declared := by
  unfold unionLabels
  split
  · rename_i empty
    rw [List.isEmpty_iff.mp empty]
    simp
  · simp only [normalizeDeclaredLabels, mem_normalizeFlowLabels, List.mem_append]
    constructor
    · exact And.left
    · rintro (held | ⟨stated, valid⟩)
      · exact ⟨.inl held, usable' l held⟩
      · exact ⟨.inr ⟨stated, valid⟩, valid⟩

/-- What an allowed sink permits. -/
theorem sink_allows (keeps : w.flowStore.ttl ≤ 0) (own : e.OwnSink) (flow : e.skipFlow = false)
    (allowed : Outcome e ctx req matched w .allow w') (sink : .flowLabel allow ∈ matched.conditions) :
    (∀ l ∈ w.labels (e.flowKey req), l ∈ allow) ∧ ∀ l ∈ normalizeDeclaredLabels req.declaredLabels, l ∈ allow := by
  cases allowed with
  | refused denied | rearmed denied | unadmitted denied | unrecorded denied => exact absurd rfl denied
  | @allowed carried _ _ _ _ _ cleared =>
    obtain ⟨uses, handled⟩ := own
    obtain ⟨deferred, faults, passed, -⟩ := cleared.prepared
    obtain ⟨-, registered, found, verdict⟩ := passed.known _ sink
    obtain rfl : registered = ⟨.flowLabel, uses⟩ := Option.mem_unique found handled
    have relevant : e.flowRelevant matched = true := by
      simp only [Engine.flowRelevant, flow, constraintHasFlow, Bool.not_false, Bool.true_and,
        Bool.or_eq_true, List.any_eq_true]
      exact .inl ⟨_, sink, rfl⟩
    have clean := verdict rfl
    simp only [Engine.evalCondition, Engine.handleFlowLabel] at clean
    split at clean
    · cases clean
    split at clean
    · cases clean
    rename_i wired
    split at clean
    · cases clean
    rename_i anchor
    simp only [Engine.decisionContext, relevant] at clean
    have peeked := cleared.snapshot
    rw [Engine.snapshot, if_pos relevant] at peeked
    obtain ⟨whole, valid⟩ := peekSessionLabels_ok keeps peeked (by simpa using wired) flow (by simpa using anchor)
    have inside := flowVerdict_none.mp clean
    exact ⟨fun l held => inside l ((mem_unionLabels valid).mpr (.inl ((whole l).mpr held))),
      fun l stated => inside l ((mem_unionLabels valid).mpr (.inr stated))⟩

/-! Separation. -/

theorem Call.respond_stays (c : Call) (keyed : c.engine.KeysBySubject) (bad : Faulted w) : Faulted (c.respond w).2 := by
  obtain ⟨e, ctx, request, matched⟩ := c
  cases request with
  | none => exact bad
  | some req =>
    cases matched with
    | none => exact bad
    | some matched => exact ((local_respects e ctx.instant req).evaluateMatched
        (keyed req) (fun ctx _ => quotaKeys_owned e ctx req) fun _ => trivial).stays bad

theorem Call.run_stays (keyed : ∀ c ∈ calls, c.engine.KeysBySubject) {w : World} (bad : Faulted w) :
    Faulted (Call.run w calls) := by
  induction calls generalizing w with
  | nil => exact bad
  | cons c rest ih => exact ih (fun c mem => keyed c (by simp [mem])) (c.respond_stays (keyed c (by simp)) bad)

/-- A call of the subject answers alike in stores the subject sees alike. -/
theorem Call.respond_agree {c : Call} (keyed : c.engine.KeysBySubject) {s : Subject}
    (own : c.subject = some s) (agree : Agree s w w')
    (good : ¬ Faulted (c.respond w).2) (good' : ¬ Faulted (c.respond w').2) :
    (c.respond w').1 = (c.respond w).1 ∧ Agree s (c.respond w).2 (c.respond w').2 := by
  obtain ⟨e, ctx, request, matched⟩ := c
  cases request with
  | none => cases own
  | some req =>
    obtain rfl : e.subject req = s := Option.some.inj own
    cases matched with
    | none => exact ⟨rfl, agree⟩
    | some matched =>
      exact ((local_respects e ctx.instant req).evaluateMatched
        (keyed req) (fun ctx _ => quotaKeys_owned e ctx req) fun _ => trivial).alike agree good good'

/-- A call of another subject is not seen. -/
theorem Call.respond_hidden {c : Call} (keyed : c.engine.KeysBySubject) {s : Subject}
    (apart : c.subject ≠ some s) (keeps : w.flowStore.ttl ≤ 0) : Agree s w (c.respond w).2 := by
  obtain ⟨e, ctx, request, matched⟩ := c
  cases request with
  | none => exact .refl keeps
  | some req =>
    cases matched with
    | none => exact .refl keeps
    | some matched =>
      have other : e.subject req ≠ s := fun same => apart (congrArg some same)
      exact (local_hidden ctx.instant other).evaluateMatched
        (keyed req) (fun ctx _ => quotaKeys_owned e ctx req) (fun _ => trivial) (.refl keeps)

/-- A subject sees a run as the run of its own calls. -/
theorem Call.run_agree {calls : List Call} (keyed : ∀ c ∈ calls, c.engine.KeysBySubject)
    {s : Subject} (agree : Agree s w w') (good : ¬ Faulted (Call.run w calls))
    (good' : ¬ Faulted (Call.run w' (calls.filter fun c => c.subject = some s))) :
    Agree s (Call.run w calls) (Call.run w' (calls.filter fun c => c.subject = some s)) := by
  induction calls generalizing w w' with
  | nil => exact agree
  | cons c rest ih =>
    have keyed' : ∀ c ∈ rest, c.engine.KeysBySubject := fun c mem => keyed c (by simp [mem])
    by_cases own : c.subject = some s
    · have kept : (c :: rest).filter (fun c => c.subject = some s) =
          c :: rest.filter fun c => c.subject = some s := by simp [own]
      rw [kept] at good' ⊢
      have mid : ¬ Faulted (c.respond w).2 := fun bad => good (Call.run_stays keyed' bad)
      have mid' : ¬ Faulted (c.respond w').2 := fun bad =>
        good' (Call.run_stays (fun c mem => keyed' c (List.mem_of_mem_filter mem)) bad)
      have next := (Call.respond_agree (keyed c (by simp)) own agree mid mid').2
      exact ih keyed' next good good'
    · have dropped : (c :: rest).filter (fun c => c.subject = some s) =
          rest.filter fun c => c.subject = some s := by simp [own]
      rw [dropped] at good' ⊢
      have hidden := Call.respond_hidden (keyed c (by simp)) own agree.labels.keeps
      exact ih keyed' (hidden.symm.trans agree) good good'

/-! Declared labels. -/

/-- Only `flowLabel` conditions read the labels a request declares; an embedder's
handlers are asked not to. -/
def Engine.IgnoresDeclared (e : Engine) : Prop :=
  ∀ token uses,
    (∀ handle, e.handlers token = some ⟨.pure handle, uses⟩ → ∀ ctx cond req labels,
      handle ctx cond { req with declaredLabels := labels } = handle ctx cond req) ∧
    ∀ prepareCommit, e.handlers token = some ⟨.committing prepareCommit, uses⟩ →
      ∀ ctx cond req labels,
        prepareCommit ctx cond { req with declaredLabels := labels } = prepareCommit ctx cond req

section Declared
variable {e : Engine} {ctx : Context} {req : EnforceRequest} {labels : List Bytes}

theorem sequenceLookup_declared (afterTools priors : List Bytes) (w : World) :
    e.sequenceLookup ctx { req with declaredLabels := labels } afterTools priors w =
      e.sequenceLookup ctx req afterTools priors w := by
  induction priors with
  | nil => rfl
  | cons prior rest ih =>
    simp only [Engine.sequenceLookup, ih]
    rfl

variable (more : req.declaredLabels ⊆ labels)
include more

/-- A sink that more declared labels pass, fewer pass too. -/
theorem flowVerdict_declared (clean : flowVerdict allow present (normalizeDeclaredLabels labels) = none)
    (valid : ∀ l ∈ present, usable l = true) :
    flowVerdict allow present (normalizeDeclaredLabels req.declaredLabels) = none := by
  rw [flowVerdict_none] at clean ⊢
  intro l mem
  refine clean l ((mem_unionLabels valid).mpr (((mem_unionLabels valid).mp mem).imp id ?_))
  simp only [normalizeDeclaredLabels, mem_normalizeFlowLabels]
  exact fun ⟨stated, ok⟩ => ⟨more stated, ok⟩

omit more in
theorem peekSessionLabels_usable (peeked : e.peekSessionLabels instant req w = (.ok carried, w')) :
    ∀ l ∈ carried, usable l = true := by
  unfold Engine.peekSessionLabels at peeked
  split at peeked
  · obtain ⟨same, -⟩ := Prod.mk.inj peeked
    rw [← Except.ok.inj same]
    simp
  · dsimp only at peeked
    split at peeked
    · cases peeked
    · obtain ⟨same, -⟩ := Prod.mk.inj peeked
      rw [← Except.ok.inj same]
      exact fun l mem => (mem_normalizeFlowLabels.mp mem).2

/-- The snapshot a condition may be given holds usable labels only. -/
def UsableSnapshot (ctx : Context) : Prop :=
  ∀ present, ctx.carriedLabels = some present → ∀ l ∈ present, usable l = true

theorem handleFlowLabel_declared (snapshot : UsableSnapshot ctx) {cond : Condition}
    (clean : e.handleFlowLabel ctx cond { req with declaredLabels := labels } w = (none, w')) :
    e.handleFlowLabel ctx cond req w = (none, w') := by
  cases cond with
  | flowLabel allow =>
    unfold Engine.handleFlowLabel at clean ⊢
    dsimp only at clean ⊢
    split at clean
    · cases clean
    split at clean
    · cases clean
    rename_i wired
    rw [if_neg wired]
    split at clean
    · cases clean
    rename_i anchor
    rw [if_neg (show ¬ (e.resolveAnchor req).id.isEmpty = true from anchor)]
    split at clean
    · rename_i present carried
      obtain ⟨verdict, rfl⟩ := Prod.mk.inj clean
      rw [flowVerdict_declared more verdict (snapshot present carried)]
    · split at clean
      · cases clean
      rename_i present read peeked
      obtain ⟨verdict, rfl⟩ := Prod.mk.inj clean
      have same : e.peekSessionLabels ctx.instant req w = (.ok present, read) := peeked
      rw [same]
      simp [flowVerdict_declared more verdict (peekSessionLabels_usable same)]
  | _ => cases clean

theorem runPureConditions_declared (ignores : e.IgnoresDeclared) (snapshot : UsableSnapshot ctx)
    (ran : e.runPureConditions ctx { req with declaredLabels := labels } conditions w = (.ok deferred, w')) :
    e.runPureConditions ctx req conditions w = (.ok deferred, w') := by
  induction conditions generalizing w w' deferred with
  | nil => exact ran
  | cons cond rest ih =>
    simp only [Engine.runPureConditions] at ran ⊢
    split at ran
    · cases ran
    rename_i present
    rw [if_neg present]
    split at ran
    · cases ran
    rename_i registered found
    split at ran
    · rename_i commits
      rw [if_pos commits]
      split at ran
      · rename_i later
        rw [ih later]
        exact ran
      · cases ran
    · rename_i pure
      rw [if_neg pure]
      split at ran
      · cases ran
      rename_i read verdict
      have same : e.evalCondition ctx req cond registered.handler w = (none, read) := by
        obtain ⟨handler, uses⟩ := registered
        cases handler with
        | pure handle =>
          rw [← verdict]
          exact Prod.ext (((ignores _ uses).1 handle found ctx cond req labels).symm) rfl
        | flowLabel => exact handleFlowLabel_declared more snapshot verdict
        | sequenceBlock =>
          rw [← verdict]
          cases cond with
          | sequenceBlock afterTools =>
            simp only [Engine.evalCondition, Engine.handleSequenceBlock, sequenceLookup_declared]
            rfl
          | _ => rfl
        | _ => exact verdict
      rw [same]
      exact ih ran

omit more in
theorem prepareDeferred_declared (ignores : e.IgnoresDeclared)
    (registered : ∀ d ∈ deferred, d.RegisteredIn e) (faults : List HandlerFault)
    (pending : List PendingBucket) :
    e.prepareDeferred ctx { req with declaredLabels := labels } deferred faults pending =
      e.prepareDeferred ctx req deferred faults pending := by
  induction deferred generalizing faults pending with
  | nil => rfl
  | cons d rest ih =>
    have first : e.prepareCommit ctx d { req with declaredLabels := labels } = e.prepareCommit ctx d req := by
      obtain ⟨token, ⟨handler, uses⟩, found, same⟩ := registered d (by simp)
      unfold Engine.prepareCommit
      rw [same]
      cases handler with
      | committing prepareCommit => exact (ignores token uses).2 prepareCommit found ctx _ req labels
      | _ => rfl
    simp [Engine.prepareDeferred, first, ih fun d mem => registered d (by simp [mem])]

theorem evaluateChecked_declared (ignores : e.IgnoresDeclared) (snapshot : UsableSnapshot ctx)
    (allowed : (e.evaluateChecked ctx { req with declaredLabels := labels } matched effect flow carried
      w).1.decision = .allow) :
    e.evaluateChecked ctx { req with declaredLabels := labels } matched effect flow carried w =
      e.evaluateChecked ctx req matched effect flow carried w := by
  unfold Engine.evaluateChecked at allowed ⊢
  split at allowed
  · simp [denyResponse] at allowed
  rename_i deferred read ran
  rw [runPureConditions_declared more ignores snapshot ran]
  unfold Engine.commitDeferredConditions
  rw [prepareDeferred_declared ignores (runPureConditions_registered ran)]
  rfl

/-- A call that more declared labels let through is the same call without them. -/
theorem evaluateMatched_declared (ignores : e.IgnoresDeclared)
    (allowed : (e.evaluateMatched ctx { req with declaredLabels := labels } matched w).1.decision = .allow) :
    e.evaluateMatched ctx { req with declaredLabels := labels } matched w = e.evaluateMatched ctx req matched w := by
  rcases evaluateMatched_early e ctx { req with declaredLabels := labels } matched w with
    ⟨denial, v, -, early⟩ | ⟨carried, read, anchored, snapshot⟩
  · exact absurd (allowed.symm.trans (early ctx rfl).1) nofun
  rw [evaluateMatched_checked anchored snapshot] at allowed ⊢
  have without : e.evaluateMatched ctx req matched w = _ := evaluateMatched_checked anchored snapshot
  have carries : UsableSnapshot (e.decisionContext ctx req matched carried) := by
    intro present found
    simp only [Engine.decisionContext, Engine.snapshot] at found snapshot
    split at found
    · cases found
      rw [if_pos ‹_›] at snapshot
      exact peekSessionLabels_usable snapshot
    · cases found
  simp only [stamped, stampObligations_decision, stampCarriedLabels_decision] at allowed
  rw [without, ← evaluateChecked_declared more ignores carries allowed]
  rfl

end Declared
/-! The law. -/

/-- The calls whose labels a sink has to permit, and how it is asked. -/
structure AllowedSink (start : World) (history : List Call) (sink : Call) (req : EnforceRequest)
    (matched : Constraint) (allow : List Bytes) : Prop where
  request : sink.request = some req
  constraint : sink.matched = some matched
  own : sink.engine.OwnSink
  flow : sink.engine.skipFlow = false
  condition : .flowLabel allow ∈ matched.conditions
  allowed : (sink.respond (Call.run start history)).1.decision = .allow

/-- An allowed call of the sink's subject, on a route that records flow labels. -/
structure AllowedSource (start : World) (before : List Call) (source sink : Call)
    (req : EnforceRequest) (matched : Constraint) : Prop where
  request : source.request = some req
  constraint : source.matched = some matched
  flow : source.engine.skipFlow = false
  subject : source.subject = sink.subject
  allowed : (source.respond (Call.run start before)).1.decision = .allow

theorem AllowedSource.recorded (keeps : start.flowStore.ttl ≤ 0)
    (allowed : AllowedSource start before source sink req' matched) (asked : sink.request = some req) :
    ∀ l ∈ outputLabels matched.directives,
      l ∈ (Call.run start (before ++ source :: between)).labels (sink.engine.flowKey req) := by
  intro l mem
  have ttl := (Call.run_labels keeps before).1
  obtain ⟨e, ctx, request, constraint⟩ := source
  obtain ⟨rfl, rfl, flow, subject, allow⟩ := allowed
  have effect := (evaluateMatched_outcome e ctx req' matched (Call.run start before)).labels ttl
  obtain ⟨recorded, -⟩ := effect.recorded allow flow
  have same : e.flowKey req' = sink.engine.flowKey req := by
    rw [Call.subject, Call.subject, asked] at subject
    exact congrArg Subject.flowKey (Option.some.inj subject)
  rw [Call.run_append, ← same]
  have ttl' := effect.wiring.ttl ▸ ttl
  exact (Call.run_labels ttl' between).2 _ l ((recorded _ l).mpr (.inr ⟨rfl, mem⟩))

/-- Confinement, separation and the one-way effect of declared labels. -/
theorem flow_labels_confined (start : World) (keeps : start.flowStore.ttl ≤ 0) :
    (∀ history sink req matched allow, AllowedSink start history sink req matched allow →
      (∀ before source between req' matched', history = before ++ source :: between →
        AllowedSource start before source sink req' matched' →
        ∀ l ∈ outputLabels matched'.directives, l ∈ allow) ∧
      ∀ l ∈ normalizeDeclaredLabels req.declaredLabels, l ∈ allow) ∧
    (∀ (history : List Call) (sink : Call), (∀ c ∈ sink :: history, c.engine.KeysBySubject) →
      let own := history.filter fun c => c.subject = sink.subject
      ¬ Faulted (sink.respond (Call.run start history)).2 →
      ¬ Faulted (sink.respond (Call.run start own)).2 →
      (sink.respond (Call.run start history)).1 = (sink.respond (Call.run start own)).1) ∧
    ∀ history (e : Engine) ctx req matched labels, e.IgnoresDeclared → req.declaredLabels ⊆ labels →
      let before := Call.run start history
      let plain := Call.respond ⟨e, ctx, some req, some matched⟩ before
      let declared := Call.respond
        ⟨e, ctx, some { req with declaredLabels := labels }, some matched⟩ before
      (declared.1.decision = .allow → declared = plain) ∧
      (declared.1.decision ≠ .allow → ¬ Faulted declared.2 →
        ∀ key l, l ∈ declared.2.labels key ↔ l ∈ before.labels key) := by
  refine ⟨?_, ?_, ?_⟩
  · rintro history sink req matched allow ⟨asked, constrained, own, flow, condition, allowed⟩
    obtain ⟨e, ctx, request, constraint⟩ := sink
    obtain rfl : request = some req := asked
    obtain rfl : constraint = some matched := constrained
    have outcome := evaluateMatched_outcome e ctx req matched (Call.run start history)
    rw [show (e.evaluateMatched ctx req matched _).1.decision = .allow from allowed] at outcome
    obtain ⟨held, stated⟩ := sink_allows (Call.run_labels keeps history).1 own flow outcome condition
    refine ⟨?_, stated⟩
    rintro before source between req' matched' rfl source l member
    exact held l (source.recorded keeps rfl l member)
  · intro history sink keyed own good good'
    obtain ⟨e, ctx, request, constraint⟩ := sink
    cases request with
    | none => rfl
    | some req =>
      have here := keyed _ (.head _ ..)
      have same : Agree (e.subject req) start start := .refl keeps
      have agree := Call.run_agree (fun c member => keyed c (.tail _ member)) same
        (fun bad => good (Call.respond_stays _ here bad))
        (fun bad => good' (Call.respond_stays _ here bad))
      exact (Call.respond_agree here rfl agree good good').1.symm
  · intro history e ctx req matched labels ignores more before plain declared
    refine ⟨fun allowed => evaluateMatched_declared more ignores allowed, ?_⟩
    intro denied good key l
    have ttl := (Call.run_labels keeps history).1
    have effect := (evaluateMatched_outcome e ctx { req with declaredLabels := labels } matched before).labels ttl
    exact ⟨effect.refused denied (Bool.eq_false_of_not_eq_true good) key l, effect.grows key l⟩

/-! The built-in handlers meet what is asked of an engine. -/

section Builtins
variable {e : Engine}
  {stateless : Bytes → Option (Context → Condition → EnforceRequest → Option ConditionError)}
  (builtin : e.handlers = registerBuiltins policyUses stateless)
include builtin

theorem ownSink_builtin : e.OwnSink := ⟨_, by rw [builtin]; rfl⟩

theorem ignoresDeclared_builtin (plain : ∀ token handle, stateless token = some handle → ∀ ctx cond req labels,
      handle ctx cond { req with declaredLabels := labels } = handle ctx cond req) :
    e.IgnoresDeclared := by
  refine fun token uses => ⟨fun handle found => ?_, fun _ found => ?_⟩
  all_goals
    have := (registerBuiltins_cases (builtin ▸ found)).2
    simp at this
  exact plain token handle this

end Builtins

/-- A call on a bare route. -/
def bareCall (e : Engine) (sessionID : Bytes) (declared : List Bytes) (conditions : List Condition)
    (directives : List Directive) : Call :=
  ⟨e, bareContext, some (bareRequest sessionID declared), some (bareConstraint conditions directives)⟩

/-- A source, a call of another session, and a sink that permits what both it and
the source stand for. -/
theorem flow_labels_confined_pii :
    let e := bareRoute none
    let source := bareCall e (lit "s") [] [] [.labelOutput [lit "pii"]]
    let other := bareCall e (lit "t") [] [] [.labelOutput [lit "untrusted"]]
    let allow := [lit "pii", lit "public"]
    let sink := bareCall e (lit "s") [lit "public"] [.flowLabel allow] []
    lit "pii" ∈ allow ∧ lit "public" ∈ allow ∧ (sink.respond (Call.run freshStores [source, other])).1 =
        (sink.respond (Call.run freshStores [source])).1 ∧
      sink.respond freshStores = (bareCall e (lit "s") [] [.flowLabel allow] []).respond freshStores := by
  intro e source other allow sink
  obtain ⟨confined, separate, monotone⟩ := flow_labels_confined freshStores (by decide)
  obtain ⟨held, stated⟩ := confined [source, other] sink _ _ allow
    ⟨rfl, rfl, ownSink_builtin rfl, by decide, by simp [bareConstraint], by decide⟩
  refine ⟨held [] source [other] _ _ rfl ⟨rfl, rfl, by decide, rfl, by decide⟩ _
    (by decide), stated _ (by decide), ?_, ?_⟩
  · have keyed : ∀ c ∈ [sink, source, other], c.engine.KeysBySubject := by
      have bare : e.KeysBySubject := fun req => embedderKeys_builtin rfl req _
      simp only [List.mem_cons, List.not_mem_nil, or_false, forall_eq_or_imp, forall_eq]
      exact ⟨bare, bare, bare⟩
    exact separate [source, other] sink keyed (by unfold Faulted; decide) (by unfold Faulted; decide)
  · exact (monotone [] e bareContext (bareRequest (lit "s") []) _ [lit "public"]
      (ignoresDeclared_builtin rfl (by simp)) (by simp [bareRequest])).1 (by decide)

/-- Without the conditions on engines the law fails: a route whose declared policy
has no flow token records and reads no label, a handler in the place of the
built-in one permits what it likes, a bucket shared between subjects lets one
refuse the other, and a handler that reads declared labels can reward them. On
every route a refusal withholds the labels the call would have recorded. -/
theorem flow_labels_unconfined :
    let pii := lit "pii"
    let unaware := bareRoute (some [conditionTypeMaxCalls])
    let replaced := embedderRoute conditionTypeFlowLabel (.pure fun _ _ _ => none)
    let shared := embedderRoute (lit "custom") (.committing fun _ _ _ => ⟨sharedBucket, false, none⟩)
    let rewarding := embedderRoute (lit "custom") (.pure fun _ _ req =>
      if req.declaredLabels.isEmpty then some (conditionFault (lit "custom") []) else none)
    let custom : Condition := .other (lit "custom") .null
    let source (e : Engine) := bareCall e (lit "s") [] [] [.labelOutput [pii]]
    let sink (e : Engine) := bareCall e (lit "s") [] [.flowLabel []] []
    let limited (session : Bytes) := bareCall shared session [] [.flowLabel [], custom] []
    let stated (declared : List Bytes) := bareCall rewarding (lit "s") declared [custom] []
    let relay (declared : List Bytes) :=
      bareCall (bareRoute none) (lit "s") declared [.flowLabel []] [.labelOutput [pii]]
    let decision (c : Call) (history : List Call) := (c.respond (Call.run freshStores history)).1.decision
    (decision (source unaware) [] = .allow ∧ decision (sink unaware) [source unaware] = .allow) ∧
    (decision (source replaced) [] = .allow ∧ decision (sink replaced) [source replaced] = .allow) ∧
    (decision (limited (lit "s")) [] = .allow ∧ decision (limited (lit "s")) [limited (lit "t")] = .deny) ∧
    (decision (stated []) [] = .deny ∧ decision (stated [pii]) [] = .allow) ∧
    ((relay []).respond freshStores).2.labels ((bareRoute none).flowKey (bareRequest (lit "s") [])) = [pii] ∧
    ((relay [pii]).respond freshStores).2.labels ((bareRoute none).flowKey (bareRequest (lit "s") [])) = [] := by
  all_goals decide +kernel

end Eunox
