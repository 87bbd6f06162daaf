import Eunox.SequenceHistory
import Eunox.EngineLabels
import Eunox.EngineLocal

/-! A refused decision commits nothing, and an allowed one everything it has to
record. Refusing may prune expired calls and write an armed marker again; it
leaves the label sets and the quotas as they were. -/
namespace Eunox
open ByteString CallCounter

variable {e : Engine} {ctx : Context} {req : EnforceRequest} {matched : Constraint} {w w' : World}

/-! What a refusal may leave. -/

/-- Counters that differ by expired calls at most. -/
def PrunedOnly (instant : ℤ) (m m' : InMemory) : Prop :=
  ∀ key windowSec, m'.entries.lookup (storageKey key windowSec) =
      m.entries.lookup (storageKey key windowSec) ∨
    m'.entries.lookup (storageKey key windowSec) =
      (m.entries.lookup (storageKey key windowSec)).map fun entry =>
        pruneEntry entry (floorToMicro instant - windowNanos windowSec)

theorem prunedOnly_of_eq (same : m' = m) : PrunedOnly instant m m' := by
  subst same
  exact fun _ _ => .inl rfl

theorem readBuckets_prunedOnly (instant : ℤ) (m : InMemory) (distinct : Distinct buckets) :
    PrunedOnly instant m (readBuckets (floorToMicro instant) m buckets).1 := by
  intro key windowSec
  by_cases batch : ∃ b ∈ buckets, b.slot = storageKey key windowSec
  · obtain ⟨b, mem, same⟩ := batch
    obtain ⟨rfl, rfl⟩ := storageKey_inj.mp same
    exact .inr (readBuckets_inside _ m distinct mem)
  · push Not at batch
    exact .inl (readBuckets_other _ m buckets _ batch)

/-- One marker that was there is written again, and nothing else. -/
structure RearmedOnly (e : Engine) (instant : ℤ) (req : EnforceRequest) (w w' : World) : Prop where
  marker : ∃ targetType target, Armed e instant req targetType target w ∧
    Armed e instant req targetType target w' ∧
    ∀ slot, slot ≠ e.markerSlot req targetType target →
      w'.counter.entries.lookup slot = w.counter.entries.lookup slot

/-- Nothing of a refused call is left behind. -/
structure Uncommitted (e : Engine) (instant : ℤ) (req : EnforceRequest) (w w' : World) : Prop where
  labels : ∀ key, w'.flowStore.heldSet key = w.flowStore.heldSet key
  counters : PrunedOnly instant w.counter w'.counter ∨ RearmedOnly e instant req w w'

/-! What an allowed call leaves. -/

/-- The conditions a constraint commits by. -/
def Engine.deferredConditions (e : Engine) (matched : Constraint) : List DeferredCondition :=
  matched.conditions.filterMap fun cond =>
    (e.handlers cond.conditionType).bind fun registered =>
      if registered.handler.commits then some ⟨cond, cond.conditionType, registered.handler⟩ else none

/-- The buckets they prepare; none while quotas are skipped. -/
def Engine.preparedBuckets (e : Engine) (ctx : Context) (req : EnforceRequest)
    (matched : Constraint) (carried : List Bytes) : List PendingBucket :=
  match e.prepareDeferred (e.decisionContext ctx req matched carried) req
      (e.deferredConditions matched) [] [] with
  | (_, .ok pending) => pending
  | (_, .error _) => []

/-- The call was drawn on a bucket: a call that moves the total is appended to
the entry, and one that weighs nothing leaves it pruned. -/
def Drawn (instant : ℤ) (m m' : InMemory) (b : QuotaBucket) : Prop :=
  let now := floorToMicro instant
  let state := bucketState now m b
  m'.entries.lookup b.slot =
    if state.record then some (state.committed now)
    else (m.entries.lookup b.slot).map fun entry => pruneEntry entry (now - windowNanos b.windowSec)

/-- Everything an allowed call has to record is recorded. -/
structure Committed (e : Engine) (ctx : Context) (req : EnforceRequest) (matched : Constraint)
    (w w' : World) : Prop where
  buckets : ∃ carried, (e.snapshot ctx req matched w).1 = .ok carried ∧
    ∀ b ∈ e.preparedBuckets ctx req matched carried,
      (∀ targetType target, b.bucket.slot ≠ e.markerSlot req targetType target) →
        Drawn ctx.instant w.counter w'.counter b.bucket
  labels : e.skipFlow = false →
    ∀ l ∈ outputLabels matched.directives, l ∈ w'.labels (e.flowKey req)
  marker : e.skipAntecedentRecording = false → e.counterWired = true →
    (e.resolveAnchor req).id ≠ [] → (sessionTargetKey req).2 ≠ [] →
      Armed e ctx.instant req (sessionTargetKey req).1 (sessionTargetKey req).2 w'

/-! Step by step. -/

theorem snapshot_uncommitted (e : Engine) (ctx : Context) (req : EnforceRequest)
    (matched : Constraint) (w : World) : (e.snapshot ctx req matched w).2.counter = w.counter ∧
      ∀ key, (e.snapshot ctx req matched w).2.flowStore.heldSet key = w.flowStore.heldSet key := by
  unfold Engine.snapshot
  split
  · unfold Engine.peekSessionLabels
    split
    · exact ⟨rfl, fun _ => rfl⟩
    · dsimp only
      split <;> exact ⟨rfl, fun key => FlowLabelStore.get_heldSet ..⟩
  · exact ⟨rfl, fun _ => rfl⟩

theorem Cleared.read_uncommitted {read : World} (cleared : Cleared e ctx req matched w carried read pending) :
    read.counter = w.counter ∧ ∀ key, read.flowStore.heldSet key = w.flowStore.heldSet key := by
  have stores := snapshot_uncommitted e ctx req matched w
  rwa [cleared.snapshot] at stores

theorem Cleared.pending_eq {read : World} (cleared : Cleared e ctx req matched w carried read pending) :
    e.preparedBuckets ctx req matched carried = pending := by
  obtain ⟨deferred, faults, passed, prepared⟩ := cleared.prepared
  have same : deferred = e.deferredConditions matched := passed.deferred
  rw [same] at prepared
  simp [Engine.preparedBuckets, prepared]

/-- A refused admission prunes. -/
theorem admitPending_refused
    (refused : e.admitPending instant pending w = (some condErr, w')) (clean : w'.faulted = false) :
    PrunedOnly instant w.counter w'.counter ∧ w'.flowStore = w.flowStore := by
  unfold Engine.admitPending at refused
  split at refused
  · cases refused
  split at refused
  · obtain ⟨-, rfl⟩ := Prod.mk.inj refused
    exact ⟨prunedOnly_of_eq rfl, rfl⟩
  split at refused
  · obtain ⟨-, rfl⟩ := Prod.mk.inj refused
    cases clean
  · rename_i a counter ran
    obtain ⟨verdict, rfl⟩ := Prod.mk.inj refused
    refine ⟨?_, rfl⟩
    cases admitAll_admits ran with
    | blocked valid => exact readBuckets_prunedOnly instant w.counter (checkBuckets_ok valid).2.2
    | admitted => cases verdict

/-- An admission draws on every bucket. -/
theorem admitPending_drawn {instant : ℤ} (admitted : e.admitPending instant pending w = (none, w')) :
    ∀ b ∈ pending, Drawn instant w.counter w'.counter b.bucket := by
  intro b mem
  unfold Engine.admitPending at admitted
  split at admitted
  · rename_i empty
    rw [List.isEmpty_iff.mp empty] at mem
    cases mem
  split at admitted
  · cases admitted
  split at admitted
  · cases admitted
  rename_i a counter ran
  obtain ⟨verdict, rfl⟩ := Prod.mk.inj admitted
  have inBatch : b.bucket ∈ pending.map PendingBucket.bucket := List.mem_map_of_mem mem
  cases admitAll_admits ran with
  | blocked => cases verdict
  | admitted valid => exact commit_inside _ w.counter (checkBuckets_ok valid).2.2 inBatch

/-- A record that went through. -/
theorem recordSourceCall_committed {flow : Bool}
    (recorded : e.recordSourceCall instant req matched ⟨flow, true⟩ carried w = (.ok out, w')) :
    (∀ slot, (∀ targetType target, slot ≠ e.markerSlot req targetType target) →
      w'.counter.entries.lookup slot = w.counter.entries.lookup slot) ∧
    (flow = true → e.skipFlow = false → ∀ l ∈ outputLabels matched.directives, l ∈ w'.labels (e.flowKey req)) ∧
    ∃ mid, e.recordSessionCall instant req mid = (.ok (), w') := by
  cases recordSourceCall_record recorded with
  | @recorded _ mid _ labelled noted =>
    have counter : mid.counter = w.counter := by
      split at labelled
      · rw [← recordLabels_counter e instant req matched w, labelled]
      · cases labelled
        rfl
    refine ⟨fun slot elsewhere => ?_, ?_, mid, noted⟩
    · have other := recordSessionCall_other (w := mid) instant elsewhere
      rw [show e.recordSessionCall instant req mid = (.ok (), w') from noted] at other
      rw [other, counter]
    · rintro rfl on l mem
      have stored := recordSessionCall_flowStore e req mid instant
      rw [show e.recordSessionCall instant req mid = (.ok (), w') from noted] at stored
      rw [labels_congr stored]
      exact recordLabels_held on labelled l mem

/-- A record that failed without a fault had not begun. -/
theorem recordSourceCall_failed (anchored : e.anchorUnresolved req = false)
    (failed : e.recordSourceCall instant req matched scope carried w = (.error err, w'))
    (clean : w'.faulted = false) : w' = w ∧ Unrecordable e req matched := by
  cases recordSourceCall_record failed with
  | unanchored unresolved => simp [anchored] at unresolved
  | unlabelled failed => exact (recordLabels_failed failed).resolve_left (by simp [clean])
  | @unmarked out _ last _ _ marked =>
    -- The marker failed, which is a fault, and taking labels back keeps it one.
    have fault := (recordSessionCall_error marked).resolve_right (by simp [anchored])
    have kept : (e.rollbackLabels instant req (labelsAdded out carried) last).faulted = last.faulted := by
      unfold Engine.rollbackLabels
      split
      · rfl
      · split <;> rfl
    rw [kept, fault] at clean
    cases clean

/-- The built-in quota conditions ask for an anchor; an embedder's are asked to. -/
def Engine.AnchorsQuotas (e : Engine) (req : EnforceRequest) : Prop :=
  e.EmbedderKeys req fun _ => (e.resolveAnchor req).id ≠ []

theorem Cleared.anchor {read : World}
    (cleared : Cleared e ctx req matched w carried read pending) (anchors : e.AnchorsQuotas req) :
    pending = [] ∨ (e.resolveAnchor req).id ≠ [] := by
  obtain ⟨deferred, faults, passed, prepared⟩ := cleared.prepared
  have registered : ∀ d ∈ deferred, d.RegisteredIn e := by
    rw [passed.deferred]
    intro d mem
    obtain ⟨cond, -, found⟩ := List.mem_filterMap.mp mem
    obtain ⟨registered, handled, kept⟩ := Option.bind_eq_some_iff.mp found
    split at kept
    · obtain rfl := Option.some.inj kept
      exact ⟨_, registered, handled, rfl⟩
    · cases kept
  have keyed := prepareDeferred_keyed
    (fun _ _ _ derived => (quotaBucketKey_some derived).1) anchors registered (by simp) prepared
  cases pending with
  | nil => exact .inl rfl
  | cons b rest => exact .inr (keyed b (by simp))

/-! The decision. -/

theorem Outcome.uncommitted (outcome : Outcome e ctx req matched w decision w')
    (denied : decision ≠ .allow) (clean : w'.faulted = false)
    (valid : ∀ l ∈ outputLabels matched.directives, usable l = true) (wired : e.flowWired = true)
    (anchors : e.AnchorsQuotas req) : Uncommitted e ctx.instant req w w' := by
  obtain ⟨counter, labels⟩ := snapshot_uncommitted e ctx req matched w
  cases outcome with
  | refused _ stores =>
    rcases stores with rfl | rfl
    · exact ⟨fun _ => rfl, .inl (prunedOnly_of_eq rfl)⟩
    · exact ⟨labels, .inl (prunedOnly_of_eq counter)⟩
  | rearmed _ marker =>
    obtain ⟨targetType, target, armed, rfl⟩ := marker
    refine ⟨fun key => ?_, .inr ⟨targetType, target, (armed_congr counter ..).mp armed, ?_, ?_⟩⟩
    · rw [recordMarker_flowStore, labels]
    · rcases recordMarker_cases e ctx.instant req targetType target
        (e.snapshot ctx req matched w).2 with ⟨err, failed⟩ | ⟨after, entry, ran, -⟩
      · rw [failed] at clean
        cases clean
      · rw [ran]
        refine (recordMarker_onRecord ran).armed ?_
        rw [show windowNanos sequenceHistoryWindowSec = 86400000000000 from rfl]
        omega
    · intro slot elsewhere
      rw [recordMarker_other _ _ _ elsewhere, counter]
  | unadmitted _ cleared refused =>
    obtain ⟨readCounter, readLabels⟩ := cleared.read_uncommitted
    obtain ⟨pruned, stored⟩ := admitPending_refused refused clean
    exact ⟨fun key => by rw [stored, readLabels], .inl (readCounter ▸ pruned)⟩
  | @unrecorded _ _ pending _ _ _ _ _ cleared admission failed =>
    obtain ⟨readCounter, readLabels⟩ := cleared.read_uncommitted
    obtain ⟨rfl, cause⟩ := recordSourceCall_failed cleared.anchored failed clean
    -- Only an anchor can be missing, and without one no bucket was prepared.
    have empty : (e.resolveAnchor req).id = [] := by
      rcases cause with ⟨l, mem, unusable⟩ | unwired | empty
      · rw [valid l mem] at unusable
        cases unusable
      · rw [wired] at unwired
        cases unwired
      · exact empty
    obtain rfl : pending = [] := (cleared.anchor anchors).resolve_right fun anchor => anchor empty
    obtain ⟨-, rfl⟩ := Prod.mk.inj admission
    exact ⟨readLabels, .inl (prunedOnly_of_eq readCounter)⟩
  | allowed => exact absurd rfl denied

theorem Outcome.committed (outcome : Outcome e ctx req matched w .allow w') : Committed e ctx req matched w w' := by
  cases outcome with
  | refused denied | rearmed denied | unadmitted denied | unrecorded denied => exact absurd rfl denied
  | allowed cleared admission recorded =>
    obtain ⟨readCounter, -⟩ := cleared.read_uncommitted
    obtain ⟨others, labels, mid, marked⟩ := recordSourceCall_committed recorded
    refine ⟨⟨_, by rw [cleared.snapshot], fun b mem elsewhere => ?_⟩, fun flow l asserted => ?_,
      fun records wired anchor named => ?_⟩
    · rw [cleared.pending_eq] at mem
      have drawn := admitPending_drawn admission b mem
      unfold Drawn at drawn ⊢
      rw [others _ elsewhere, drawn, readCounter]
    · cases relevant : e.flowRelevant matched with
      | true => exact labels relevant flow l asserted
      | false =>
        rw [outputLabels_of_irrelevant flow relevant] at asserted
        cases asserted
    · refine (recordSessionCall_onRecord marked records wired anchor named).1.armed ?_
      rw [show windowNanos sequenceHistoryWindowSec = 86400000000000 from rfl]
      omega

/-- A refusal that met no fault leaves the stores, and an allow leaves the call
recorded. -/
theorem decision_commits_on_allow_only (e : Engine) (ctx : Context) (req : EnforceRequest)
    (matched : Constraint) (w : World) :
    let ran := e.evaluateMatched ctx req matched w
    (ran.1.decision ≠ .allow → ran.2.faulted = false →
      (∀ l ∈ outputLabels matched.directives, usable l = true) → e.flowWired = true →
      e.AnchorsQuotas req → Uncommitted e ctx.instant req w ran.2) ∧
    (ran.1.decision = .allow → Committed e ctx req matched w ran.2) := by
  have outcome := evaluateMatched_outcome e ctx req matched w
  refine ⟨outcome.uncommitted, fun allowed => ?_⟩
  rw [show (e.evaluateMatched ctx req matched w).1.decision = .allow from allowed] at outcome
  exact outcome.committed

/-! Small routes. -/

/-- A route with the built-in handlers that keep state, and a few tokens declared. -/
def bareRoute (policyTokens : Option (List Bytes)) : Engine where
  handlers := registerBuiltins [] fun _ => none
  policyTokens := policyTokens
  effectCeiling := none
  counterKeyNamespace := lit "route"
  taskAnchored := false
  counterWired := true
  flowWired := true

def freshStores : World := ⟨newInMemory 0, FlowLabelStore.newInMemory 0 0, false⟩

def bareContext : Context := ⟨[], [], 0, false, [], none, none⟩

def bareRequest (sessionID : Bytes) (declared : List Bytes) : EnforceRequest where
  sessionID := sessionID
  targetName := lit "tool:send"
  arguments := []
  sourceIP := []
  target := none
  claims := []
  declaredLabels := declared

def bareConstraint (conditions : List Condition) (directives : List Directive) : Constraint where
  target := lit "tool:send"
  actions := []
  enforcement := []
  argumentSchema := none
  principal := []
  effect := none
  conditions := conditions
  directives := directives

/-- A bare route on which an embedder serves one condition type. -/
def embedderRoute (token : Bytes) (handler : Handler) : Engine :=
  { bareRoute none with
    handlers := fun asked => if asked = token then some ⟨handler, [.none]⟩
      else (bareRoute none).handlers asked }

/-- One bucket for every caller. -/
def sharedBucket : DeferredCommit := ⟨⟨lit "everyone", 60, true, .ofNat 0, .ofNat 1⟩, none⟩

/-- One call within a limit of one, and the next over it. -/
theorem decision_commits_within_limit :
    let e := bareRoute none
    let req := bareRequest (lit "s") []
    let matched := bareConstraint [.maxCalls 1 60] [.labelOutput [lit "pii"]]
    let first := e.evaluateMatched bareContext req matched freshStores
    let second := e.evaluateMatched bareContext req matched first.2
    first.1.decision = .allow ∧ Committed e bareContext req matched freshStores first.2 ∧
      second.1.decision = .deny ∧ Uncommitted e bareContext.instant req first.2 second.2 := by
  intro e req matched first second
  have began := decision_commits_on_allow_only e bareContext req matched freshStores
  have went := decision_commits_on_allow_only e bareContext req matched first.2
  refine ⟨?_, began.2 ?_, ?_, went.1 ?_ ?_ ?_ rfl (embedderKeys_builtin rfl req _)⟩
  all_goals decide +kernel

/-- What an allowed call may leave unrecorded: labels and markers its route's
policy does not use, quotas while they are skipped, a weight of nothing, the
marker of a call without an anchor. And what a refused one may leave behind: the
bucket of a handler that prepares it without asking for the anchor its labels
need. -/
theorem decision_commits_not_everything :
    let unaware := bareRoute (some [conditionTypeMaxCalls])
    let bare := bareRoute none
    let shared := embedderRoute (lit "custom") (.committing fun _ _ _ => ⟨sharedBucket, false, none⟩)
    let req := bareRequest (lit "s") []
    let source := bareConstraint [] [.labelOutput [lit "pii"]]
    let limited := bareConstraint [.maxCalls 1 60] []
    let weighed := { bareConstraint [.blastRadius none (some ⟨lit "5", some 5⟩) 60] [] with
      effect := some fun _ => { unannotatedEffect with blastRadius := some 0 } }
    let observed := bare.evaluateMatched { bareContext with skipQuota := true } req limited freshStores
    let light := bare.evaluateMatched bareContext req weighed freshStores
    let sourced := unaware.evaluateMatched bareContext req source freshStores
    let nameless := bare.evaluateMatched bareContext (bareRequest [] []) (bareConstraint [] []) freshStores
    let refused := shared.evaluateMatched bareContext (bareRequest [] [])
      (bareConstraint [.other (lit "custom") .null] [.labelOutput [lit "pii"]]) freshStores
    (sourced.1.decision = .allow ∧ sourced.2.labels (unaware.flowKey req) = [] ∧
      sourced.2.counter.entries.entries = []) ∧
    (observed.1.decision = .allow ∧ observed.2.counter.entries.lookup
      (storageKey (bare.anchoredKey (lit "maxcalls") req [lit "tool", lit "send"]) 60) = none) ∧
    (light.1.decision = .allow ∧ light.2.counter.entries.lookup
      (storageKey (bare.anchoredKey (lit "blastradius") req [lit "tool", lit "send"]) 60) = none) ∧
    (nameless.1.decision = .allow ∧ nameless.2.counter.entries.entries = []) ∧
    (refused.1.decision = .deny ∧ refused.2.faulted = false ∧
      (refused.2.counter.entries.lookup (storageKey (lit "everyone") 60)).isSome) := by
  all_goals decide +kernel

end Eunox
