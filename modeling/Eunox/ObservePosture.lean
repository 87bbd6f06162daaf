import Eunox.DecisionCommits
import Eunox.EngineOutcome
import Eunox.EngineNoninterference

/-! The observe posture against the enforcing one. The same call, decided in the
same state with and without quotas skipped: every check but the quota admission
itself answers alike, so observing foretells enforcing up to an exhausted
window, and it leaves the same labels and history without drawing on a quota. -/
namespace Eunox
open ByteString CallCounter StateProgram

/-! Which counters are quotas and which are history. -/

/-- The storage keys under some tags. -/
def taggedSlots (tags : List Bytes) : Set Bytes :=
  { sk | ∃ tag ∈ tags, ∃ parts windowSec, sk = storageKey (compositeKey tag parts) windowSec }

def historySlots : Set Bytes := taggedSlots [sequenceHistorySpec.tag]

def quotaSlots : Set Bytes := taggedSlots [maxCallsBucketSpec.tag, blastRadiusBucketSpec.tag]

theorem anchoredKey_slot (e : Engine) (req : EnforceRequest)
    (mem : tag ∈ tags) (tail : List Bytes) (windowSec : ℤ) :
    storageKey (e.anchoredKey tag req tail) windowSec ∈ taggedSlots tags :=
  ⟨tag, mem, _, windowSec, by rw [Engine.anchoredKey, compositeKeyJoin_eq]⟩

theorem taggedSlots_apart (plain : ∀ tag ∈ tags ++ others, (58 : UInt8) ∉ tag) (apart : ∀ tag ∈ tags, tag ∉ others)
    (here : sk ∈ taggedSlots tags) : sk ∉ taggedSlots others := by
  obtain ⟨tag, mem, parts, windowSec, rfl⟩ := here
  rintro ⟨tag', member', parts', windowSec', same⟩
  obtain ⟨keys, -⟩ := storageKey_inj.mp same
  obtain ⟨rfl, -⟩ := compositeKey_inj (plain tag (by simp [mem])) (plain tag' (by simp [member'])) keys
  exact apart tag mem member'

theorem history_not_quota (here : sk ∈ historySlots) : sk ∉ quotaSlots :=
  taggedSlots_apart (by decide) (by decide) here

theorem quota_not_history (here : sk ∈ quotaSlots) : sk ∉ historySlots := fun there => history_not_quota there here

theorem markerKey_slot (e : Engine) (req : EnforceRequest) (targetType target : Bytes) :
    storageKey (e.sequenceHistoryKey req targetType target) sequenceHistoryWindowSec ∈ historySlots :=
  anchoredKey_slot e req (List.mem_singleton_self sequenceHistorySpec.tag) _ _

/-! What a decision that derives no bucket does to the quotas. -/

/-- The quotas of both worlds are the same. -/
def SameQuotas (w w' : World) : Prop := Alike quotaSlots w.counter w'.counter

theorem local_keeps_quotas (e : Engine) (instant : ℤ) (req : EnforceRequest) :
    LocalIf True e instant req (fun _ => False) (Hidden SameQuotas) where
  toCompositional := hidden_compositional (fun first second => Alike.trans first second) (fun _ => Alike.refl _ _)
  labels := by
    intro w same
    unfold Engine.peekSessionLabels
    split
    · exact same
    · dsimp only
      split <;> exact same
  record := by
    intro matched w same
    unfold Engine.recordLabels
    dsimp only
    repeat' split
    all_goals exact same
  rollback := by
    intro added w same
    dsimp only
    unfold Engine.rollbackLabels
    split
    · exact same
    split <;> exact same
  history := fun _ _ _ _ same => same
  marker := by
    intro targetType target w same
    exact recordMarker_outside w instant (history_not_quota (markerKey_slot e req targetType target))
  fault := fun _ same => same
  admission := by
    intro pending keyed w same
    obtain rfl := List.eq_nil_iff_forall_not_mem.mpr keyed
    exact same

/-- No bucket is derived while quotas are skipped. -/
theorem quotaKeys_skipped (observing : ctx.skipQuota = true) (e : Engine) (req : EnforceRequest) :
    e.QuotaKeys ctx req fun _ => False := by
  intro spec _ key derived
  unfold Engine.quotaBucketKey at derived
  split at derived
  · cases derived
  dsimp only at derived
  split at derived
  · cases derived
  · simp at derived

/-- What two worlds must share for a record to come out alike: the same labels and the same history. -/
abbrev SameRecord : World → World → Prop := SameStores historySlots

/-! The same checks under both postures. -/

/-- The context of the same call on a route that observes, or does not. -/
def Context.under (ctx : Context) (observing : Bool) : Context := { ctx with skipQuota := observing }

/-- A registry of built-in handlers, whose stateless ones do not ask whether the
route observes. -/
structure Engine.Builtin (e : Engine) : Prop where
  registry : ∃ policyUses stateless, e.handlers = registerBuiltins policyUses stateless ∧
    ∀ token handle, stateless token = some handle → ∀ (ctx : Context) (observing : Bool) cond req,
      handle (ctx.under observing) cond req = handle ctx cond req

theorem Engine.Builtin.pure_blind {e : Engine} (builtin : e.Builtin)
    (found : e.handlers token = some ⟨.pure handle, uses⟩)
    (ctx : Context) (observing : Bool) (cond : Condition) (req : EnforceRequest) :
    handle (ctx.under observing) cond req = handle ctx cond req := by
  obtain ⟨_, stateless, registry, blind⟩ := builtin.registry
  have held := (registerBuiltins_cases (registry ▸ found)).2
  simp only [reduceCtorEq, false_and, false_or, Handler.pure.injEq, exists_eq_right'] at held
  exact blind token handle held ctx observing cond req

/-- The only conditions set aside are the two quota conditions. -/
theorem Engine.Builtin.deferred {e : Engine} (builtin : e.Builtin)
    (found : e.handlers token = some registered) (commits : registered.handler.commits = true) :
    registered.handler = .maxCalls ∨ registered.handler = .blastRadius := by
  obtain ⟨_, stateless, registry, -⟩ := builtin.registry
  obtain ⟨-, ⟨is, -⟩ | ⟨is, -⟩ | quota | quota | ⟨handle, -, is⟩⟩ := registerBuiltins_cases (registry ▸ found)
  · simp [is, Handler.commits] at commits
  · simp [is, Handler.commits] at commits
  · exact .inl quota
  · exact .inr quota
  · simp [is, Handler.commits] at commits

section Posture
variable {e : Engine} {ctx : Context} {req : EnforceRequest}

theorem sequenceLookup_under (observing : Bool) (afterTools priors : List Bytes) (w : World) :
    e.sequenceLookup (ctx.under observing) req afterTools priors w =
      e.sequenceLookup ctx req afterTools priors w := by
  induction priors with
  | nil => rfl
  | cons prior rest ih =>
    simp only [Engine.sequenceLookup, ih]
    rfl

theorem evalCondition_under (builtin : e.Builtin) {token : Bytes}
    (found : e.handlers token = some registered) (observing : Bool) (cond : Condition) (w : World) :
    e.evalCondition (ctx.under observing) req cond registered.handler w =
      e.evalCondition ctx req cond registered.handler w := by
  obtain ⟨handler, uses⟩ := registered
  cases handler with
  | pure handle => simp [Engine.evalCondition, builtin.pure_blind found ctx observing cond req]
  | sequenceBlock => simp only [Engine.evalCondition, Engine.handleSequenceBlock, sequenceLookup_under]
  | _ => rfl

/-- The pure pass does not see the posture. -/
theorem runPureConditions_under (builtin : e.Builtin) (observing : Bool) (conditions : List Condition) (w : World) :
    e.runPureConditions (ctx.under observing) req conditions w = e.runPureConditions ctx req conditions w := by
  induction conditions generalizing w with
  | nil => rfl
  | cons cond rest ih =>
    simp only [Engine.runPureConditions, ih]
    cases found : e.handlers cond.conditionType with
    | none => rfl
    | some registered => simp [evalCondition_under builtin found]

/-- What the observing route prepares against what the enforcing one does. -/
inductive Foretold (e : Engine) (req : EnforceRequest) : Preparation → Preparation → Prop where
  | refused (condErr : ConditionError) : Foretold e req (.refuse condErr) (.refuse condErr)
  | unbounded : Foretold e req ⟨.none, false, none⟩ ⟨.none, false, none⟩
  | skipped {commit : DeferredCommit} {spec : CounterKeySpec} (wired : e.counterWired = true)
      (quota : spec ∈ [maxCallsBucketSpec, blastRadiusBucketSpec])
      (keyed : commit.bucket.key = e.anchoredKey spec.tag req
        [(sessionTargetKey req).1, (sessionTargetKey req).2]) :
      Foretold e req ⟨.none, true, none⟩ ⟨commit, false, none⟩

theorem prepareBucket_foretold (quota : spec ∈ [maxCallsBucketSpec, blastRadiusBucketSpec])
    (keyed : ∀ key, (commit key).bucket.key = key) :
    Foretold e req (e.prepareBucket (ctx.under true) req spec commit)
      (e.prepareBucket (ctx.under false) req spec commit) := by
  unfold Engine.prepareBucket Engine.quotaBucketKey
  cases guarded : e.counterSubjectGuards req spec with
  | some condErr => exact .refused condErr
  | none =>
    have wired : e.counterWired = true := by
      unfold Engine.counterSubjectGuards at guarded
      split at guarded
      · cases guarded
      · rename_i wired
        simpa using wired
    by_cases nameless : (sessionTargetKey req).2.isEmpty = true
    · simp only [nameless, ↓reduceIte]
      exact .refused _
    · simp only [nameless, Bool.false_eq_true, ↓reduceIte, Context.under]
      exact .skipped wired quota (keyed _)

theorem maxCalls_foretold (cond : Condition) : Foretold e req (e.maxCallsPrepareCommit (ctx.under true) cond req)
      (e.maxCallsPrepareCommit (ctx.under false) cond req) := by
  unfold Engine.maxCallsPrepareCommit
  cases cond with
  | maxCalls count windowSeconds => exact prepareBucket_foretold (by simp) fun _ => rfl
  | _ => exact .refused _

theorem velocityBucket_foretold (maxTotal : Bytes) (windowSeconds : ℤ) (limit : ℚ) (eff : ResolvedEffect) :
    Foretold e req (e.velocityBucket (ctx.under true) maxTotal windowSeconds limit eff req)
      (e.velocityBucket (ctx.under false) maxTotal windowSeconds limit eff req) := by
  unfold Engine.velocityBucket
  dsimp only
  split
  · exact .refused _
  split
  · exact .refused _
  · exact prepareBucket_foretold (by simp) fun _ => rfl

/-- The per-call bound is checked under both postures, and before the window. -/
theorem blastRadius_foretold (cond : Condition) :
    Foretold e req (e.blastRadiusPrepareCommit (ctx.under true) cond req)
      (e.blastRadiusPrepareCommit (ctx.under false) cond req) := by
  have effect : ∀ observing, (ctx.under observing).effect = ctx.effect := fun _ => rfl
  unfold Engine.blastRadiusPrepareCommit
  simp only [effect]
  split
  · split
    · exact .refused _
    split
    · exact .refused _
    split
    · exact .refused _
    split
    · exact .unbounded
    · exact velocityBucket_foretold _ _ _ _
  · exact .refused _

/-- A bucket one of the two quota conditions derives for the request. -/
def Engine.QuotaBucketOf (e : Engine) (req : EnforceRequest) (b : PendingBucket) : Prop :=
  e.counterWired = true ∧ ∃ spec ∈ [maxCallsBucketSpec, blastRadiusBucketSpec],
    b.bucket.key = e.anchoredKey spec.tag req [(sessionTargetKey req).1, (sessionTargetKey req).2]

theorem prepareCommit_foretold (builtin : e.Builtin) {d : DeferredCondition}
    (registered : d.RegisteredIn e) (commits : d.handler.commits = true) :
    Foretold e req (e.prepareCommit (ctx.under true) d req) (e.prepareCommit (ctx.under false) d req) := by
  obtain ⟨token, handler, found, same⟩ := registered
  unfold Engine.prepareCommit
  rw [same] at commits ⊢
  rcases builtin.deferred found commits with is | is
  · rw [is]
    exact maxCalls_foretold d.cond
  · rw [is]
    exact blastRadius_foretold d.cond

theorem anchoredKey_ne_nil (tag : Bytes) (tail : List Bytes) (named : tag ≠ []) :
    e.anchoredKey tag req tail ≠ [] := by
  simp [Engine.anchoredKey, compositeKeyJoin, named]

variable (ctx) in
/-- Preparing ends in the same refusal, or in no bucket when observing and in
buckets of the quota conditions when enforcing. -/
theorem prepareDeferred_foretold (builtin : e.Builtin)
    (registered : ∀ d ∈ deferred, d.RegisteredIn e ∧ d.handler.commits = true)
    {pending : List PendingBucket} (before : ∀ b ∈ pending, e.QuotaBucketOf req b) : (∃ condErr,
      e.prepareDeferred (ctx.under true) req deferred [] [] = ([], .error condErr) ∧
      e.prepareDeferred (ctx.under false) req deferred [] pending = ([], .error condErr)) ∨
    e.prepareDeferred (ctx.under true) req deferred [] [] = ([], .ok []) ∧
      ∃ drawn, e.prepareDeferred (ctx.under false) req deferred [] pending = ([], .ok drawn) ∧
        ∀ b ∈ drawn, e.QuotaBucketOf req b := by
  induction deferred generalizing pending with
  | nil => exact .inr ⟨rfl, pending, rfl, before⟩
  | cons d rest ih =>
    have later := fun {pending} => @ih (fun d mem => registered d (by simp [mem])) pending
    obtain ⟨here, commits⟩ := registered d (by simp)
    have foretold : Foretold e req (e.prepareCommit (ctx.under true) d req)
        (e.prepareCommit (ctx.under false) d req) := prepareCommit_foretold builtin here commits
    simp only [Engine.prepareDeferred]
    generalize e.prepareCommit (ctx.under true) d req = observed at foretold ⊢
    generalize e.prepareCommit (ctx.under false) d req = enforced at foretold ⊢
    cases foretold with
    | refused condErr => exact .inl ⟨condErr, rfl, rfl⟩
    | unbounded =>
      have nothing : DeferredCommit.none.prepared = false := by simp [DeferredCommit.prepared, DeferredCommit.none]
      simpa only [nothing, Bool.not_false, Bool.false_eq_true, ↓reduceIte] using later before
    | @skipped commit spec wired quota keyed =>
      have tagged : spec.tag ≠ [] := by
        simp only [List.mem_cons, List.not_mem_nil, or_false] at quota
        rcases quota with rfl | rfl <;> decide
      have named := keyed ▸ anchoredKey_ne_nil spec.tag _ tagged
      have derived : commit.prepared = true := by
        simp only [DeferredCommit.prepared, decide_eq_true_eq]
        exact fun zero => named (congrArg QuotaBucket.key zero)
      have admits : commit.commits = true := by simp [DeferredCommit.commits, named]
      simp only [Context.under, derived, admits, Bool.not_true, Bool.false_eq_true, ↓reduceIte]
      exact later (List.forall_mem_append.mpr ⟨before, List.forall_mem_singleton.mpr ⟨wired, spec, quota, keyed⟩⟩)

/-- Admission on the quotas is not seen by labels or history. -/
theorem admitPending_sameRecord (quotas : ∀ b ∈ pending, e.QuotaBucketOf req b) (instant : ℤ) (w : World) :
    SameRecord w (e.admitPending instant pending w).2 := by
  refine ⟨admitPending_flowStore e w instant pending, admitPending_outside w instant fun b mem => ?_⟩
  obtain ⟨-, spec, quota, keyed⟩ := quotas b mem
  apply quota_not_history
  show storageKey b.bucket.key b.bucket.windowSec ∈ quotaSlots
  rw [keyed]
  apply anchoredKey_slot
  simp only [List.mem_cons, List.not_mem_nil, or_false] at quota ⊢
  exact quota.imp (congrArg _) (congrArg _)

theorem collectObligations_under (observing : Bool) (matched : Constraint) :
    collectObligations (ctx.under observing) matched = collectObligations ctx matched := by
  unfold collectObligations
  induction matched.directives with
  | nil => rfl
  | cons dir rest ih =>
    simp only [collectDirectives, ih]
    rfl

/-- The pure pass sets aside registered committing conditions only. -/
theorem Passed.committing {deferred : List DeferredCondition} (passed : Passed e ctx req conditions deferred w) :
    ∀ d ∈ deferred, d.RegisteredIn e ∧ d.handler.commits = true := by
  intro d mem
  rw [passed.deferred] at mem
  obtain ⟨cond, -, kept⟩ := List.mem_filterMap.mp mem
  obtain ⟨registered, found, is⟩ := Option.bind_eq_some_iff.mp kept
  split at is
  · rename_i commits
    obtain rfl := Option.some.inj is
    exact ⟨⟨_, registered, found, rfl⟩, commits⟩
  · cases is

/-! The two decisions. -/

/-- The enforcing decision got as far as the quota commit, and a window of a
quota condition has no room for the call. -/
def Engine.NoHeadroom (e : Engine) (ctx : Context) (req : EnforceRequest) (matched : Constraint)
    (w : World) : Prop :=
  ∃ carried read pending, Cleared e ctx req matched w carried read pending ∧
    ∃ b ∈ pending, e.QuotaBucketOf req b ∧
      (bucketState (floorToMicro ctx.instant) read.counter b.bucket).blocked = true

/-- The same answer, and the same labels and history left behind. -/
structure Foreseen (observed enforced : EnforceResponse × World) : Prop where
  decision : observed.1.decision = enforced.1.decision
  denial : observed.1.denial = enforced.1.denial
  record : SameRecord observed.2 enforced.2

theorem Foreseen.of_same : Foreseen (resp, w) (resp, w) := ⟨rfl, rfl, .refl _ w⟩

/-- Admission refuses without a fault only for want of headroom. -/
theorem admitPending_blocked (quotas : ∀ b ∈ pending, e.QuotaBucketOf req b)
    (refused : e.admitPending instant pending w = (some condErr, w')) (good : ¬ Faulted w') :
    ∃ b ∈ pending, (bucketState (floorToMicro instant) w.counter b.bucket).blocked = true := by
  unfold Engine.admitPending at refused
  split at refused
  · cases refused
  rename_i nonempty
  obtain ⟨b, drawn⟩ := List.exists_mem_of_ne_nil pending (by simpa using nonempty)
  rw [if_neg (by simp [(quotas b drawn).1])] at refused
  split at refused
  · cases refused
    exact absurd rfl good
  rename_i ran
  obtain ⟨verdict, rfl⟩ := Prod.mk.inj refused
  cases admitAll_admits ran with
  | blocked valid place found =>
    obtain ⟨bucket, inBatch, rfl⟩ := List.mem_map.mp (List.mem_of_find?_eq_some found)
    obtain ⟨p, mem, rfl⟩ := List.mem_map.mp inBatch
    exact ⟨p, mem, List.find?_some found⟩
  | admitted => cases verdict

/-- A record over the same labels and history comes out the same. -/
theorem recordAllowed_foreseen (matched : Constraint) (obligations : List Obligation)
    (effect : ResolvedEffect) (flow : Bool) (carried : List Bytes) (same : SameRecord w w')
    (good : ¬ Faulted (e.recordAllowed ctx req matched obligations effect flow carried w).2)
    (good' : ¬ Faulted (e.recordAllowed ctx req matched obligations effect flow carried w').2) :
    Foreseen (e.recordAllowed ctx req matched obligations effect flow carried w)
      (e.recordAllowed ctx req matched obligations effect flow carried w') := by
  obtain ⟨answers, record⟩ := ((local_sameStores e ctx.instant req fun _ : True => markerKey_slot e req).recordAllowed
    matched obligations effect flow carried).alike same good good'
  exact ⟨by rw [answers], by rw [answers], record⟩

/-- After the same snapshot, the two decisions part at the quota commit only. -/
theorem evaluateChecked_foreseen (builtin : e.Builtin) {w read : World} (anchored : e.anchorUnresolved req = false)
    (snapshot : e.snapshot ctx req matched w = (.ok carried, read)) :
    let decide := fun observing => e.evaluateChecked
      ((e.decisionContext ctx req matched carried).under observing) req matched
      (resolveEffect matched.effect req.arguments) (e.flowRelevant matched) carried read
    ¬ Faulted (decide true).2 → ¬ Faulted (decide false).2 → Foreseen (decide true) (decide false) ∨
        (decide false).1.decision = .deny ∧ e.NoHeadroom (ctx.under false) req matched w := by
  intro decide good good'
  simp only [decide, Engine.evaluateChecked, runPureConditions_under builtin, collectObligations_under] at good good' ⊢
  set inner := e.decisionContext ctx req matched carried
  set effect := resolveEffect matched.effect req.arguments
  rcases runPureConditions_cases req read (decisionContext_threaded e (ctx.under false) req matched carried) with
    ⟨deferred, pure, passed⟩ | ⟨condErr, w', pure, -⟩
  · have ran : e.runPureConditions inner req matched.conditions read = (.ok deferred, read) :=
      (runPureConditions_under builtin false _ _).symm.trans pure
    simp only [ran] at good good' ⊢
    rcases obligated : collectObligations inner matched with ⟨obligations, _ | deny⟩
    · simp only [obligated] at good good' ⊢
      have ceilings : ∀ observing, e.checkEffectCeiling (inner.under observing) matched.isAuditOnly effect carried =
          e.checkEffectCeiling inner matched.isAuditOnly effect carried := fun _ => rfl
      simp only [ceilings] at good good' ⊢
      cases ceiling : e.checkEffectCeiling inner matched.isAuditOnly effect carried with
      | some deny => exact .inl .of_same
      | none =>
        simp only [ceiling, Engine.commitDeferredConditions] at good good' ⊢
        have nothing : ∀ b ∈ ([] : List PendingBucket), e.QuotaBucketOf req b := List.forall_mem_nil _
        rcases prepareDeferred_foretold inner builtin passed.committing nothing with
          ⟨condErr, observed, enforced⟩ | ⟨observed, drawn, enforced, quotas⟩
        · simp only [observed, enforced]
          exact .inl .of_same
        · have idle : ∀ instant, e.admitPending instant [] read = (none, read) := fun _ => rfl
          have same := admitPending_sameRecord quotas ctx.instant read
          simp only [observed, enforced, idle] at good good' ⊢
          rcases admission : e.admitPending ctx.instant drawn read with ⟨_ | condErr, admitted⟩
          · have admitted' : e.admitPending (inner.under false).instant drawn read = (none, admitted) := admission
            simp only [admitted'] at good' ⊢
            rw [admission] at same
            have foreseen := recordAllowed_foreseen matched obligations effect (e.flowRelevant matched) carried same
              good good'
            exact .inl ⟨foreseen.decision, foreseen.denial, foreseen.record⟩
          · have refused : e.admitPending (inner.under false).instant drawn read = (some condErr, admitted) := admission
            simp only [refused] at good' ⊢
            obtain ⟨b, mem, blocked⟩ := admitPending_blocked quotas admission good'
            refine .inr ⟨rfl, carried, read, drawn, ⟨anchored, snapshot, ?_⟩, b, mem, quotas b mem, blocked⟩
            exact ⟨deferred, [], passed, enforced⟩
    · exact .inl .of_same
  · have ran : e.runPureConditions inner req matched.conditions read = (.error condErr, w') :=
      (runPureConditions_under builtin false _ _).symm.trans pure
    simp only [ran]
    exact .inl .of_same

/-- The two decisions as wholes. -/
theorem evaluateMatched_foreseen (builtin : e.Builtin) (matched : Constraint) (w : World)
    (good : ¬ Faulted (e.evaluateMatched (ctx.under true) req matched w).2)
    (good' : ¬ Faulted (e.evaluateMatched (ctx.under false) req matched w).2) :
    Foreseen (e.evaluateMatched (ctx.under true) req matched w) (e.evaluateMatched (ctx.under false) req matched w) ∨
      (e.evaluateMatched (ctx.under false) req matched w).1.decision = .deny ∧
        e.NoHeadroom (ctx.under false) req matched w := by
  rcases evaluateMatched_early e ctx req matched w with
    ⟨denial, v, -, early⟩ | ⟨carried, read, anchored, snapshot⟩
  · obtain ⟨decision, refusal, stores⟩ := early (ctx.under true) rfl
    obtain ⟨decision', refusal', stores'⟩ := early (ctx.under false) rfl
    refine .inl ⟨decision.trans decision'.symm, refusal.trans refusal'.symm, ?_⟩
    rw [stores, stores']
    exact .refl _ v
  · have checked (observing : Bool) : e.evaluateMatched (ctx.under observing) req matched w = _ :=
      evaluateMatched_checked anchored snapshot
    rw [checked true] at good ⊢
    rw [checked false] at good' ⊢
    rcases evaluateChecked_foreseen builtin anchored snapshot good good' with foreseen | blocked
    · refine .inl ⟨?_, ?_, foreseen.record⟩ <;> simp only [stamped, stampObligations_decision,
        stampCarriedLabels_decision, stampObligations_denial, stampCarriedLabels_denial]
      · exact foreseen.decision
      · exact foreseen.denial
    · refine .inr ⟨?_, blocked.2⟩
      simp only [stamped, stampObligations_decision, stampCarriedLabels_decision]
      exact blocked.1

end Posture

/-- **Observing foretells enforcing.** On an engine of built-in handlers, from
any stores and without a fault of theirs: observing draws on no quota, answers
as enforcing does unless a window has no headroom for the call, and where both
allow, both leave the same labels and the same history. -/
theorem observe_foretells_enforce {e : Engine} (builtin : e.Builtin) (ctx : Context)
    (req : EnforceRequest) (matched : Constraint) (w : World)
    (good : ¬ Faulted (e.evaluateConditions (ctx.under true) (some req) (some matched) w).2)
    (good' : ¬ Faulted (e.evaluateConditions (ctx.under false) (some req) (some matched) w).2) :
    let observed := e.evaluateConditions (ctx.under true) (some req) (some matched) w
    let enforced := e.evaluateConditions (ctx.under false) (some req) (some matched) w
    (∀ sk ∈ quotaSlots, observed.2.counter.entries.lookup sk = w.counter.entries.lookup sk) ∧
    (observed.1.decision = enforced.1.decision ∧
        observed.1.denial.map DenialInfo.code = enforced.1.denial.map DenialInfo.code ∨
      enforced.1.decision = .deny ∧ e.NoHeadroom (ctx.under false) req matched w) ∧
    (observed.1.decision = .allow → enforced.1.decision = .allow → enforced.2.flowStore = observed.2.flowStore ∧
      ∀ sk ∈ historySlots, enforced.2.counter.entries.lookup sk = observed.2.counter.entries.lookup sk) := by
  obtain ⟨_, stateless, registry, -⟩ := builtin.registry
  have quotas : Hidden SameQuotas (e.evaluateMatched (ctx.under true) req matched) :=
    (local_keeps_quotas e (ctx.under true).instant req).evaluateMatched
      (embedderKeys_builtin registry req _) (fun ctx' posture => quotaKeys_skipped posture e req)
      fun _ => trivial
  have foreseen := evaluateMatched_foreseen builtin matched w good good'
  refine ⟨(quotas (Alike.refl _ _)).entries, ?_, fun allowed allowed' => ?_⟩
  · rcases foreseen with same | blocked
    · exact .inl ⟨same.decision, congrArg _ same.denial⟩
    · exact .inr blocked
  · rcases foreseen with same | blocked
    · exact ⟨same.record.labels, same.record.counters.entries⟩
    · exact absurd (allowed'.symm.trans blocked.1) (by simp)

theorem bareRoute_builtin (policyTokens : Option (List Bytes)) : (bareRoute policyTokens).Builtin :=
  ⟨[], fun _ => none, rfl, by simp⟩

/-- A call that one slot is left for. -/
def lastSlot : Constraint := bareConstraint [.maxCalls 1 60] [.labelOutput [lit "confidential"]]

theorem observe_foretells_last_slot :
    ((bareRoute none).evaluateConditions (bareContext.under true) (some (bareRequest (lit "s") []))
      (some lastSlot) freshStores).1.decision = .allow ∧
    ((bareRoute none).evaluateConditions (bareContext.under true) (some (bareRequest (lit "s") []))
      (some lastSlot) freshStores).2.counter.entries.lookup
        (storageKey ((bareRoute none).anchoredKey maxCallsBucketSpec.tag (bareRequest (lit "s") [])
          [lit "tool", lit "send"]) 60) = none := by
  have allowed : ((bareRoute none).evaluateConditions (bareContext.under true)
      (some (bareRequest (lit "s") [])) (some lastSlot) freshStores).1.decision = .allow := by
    decide
  have good : ¬ Faulted ((bareRoute none).evaluateConditions (bareContext.under true)
      (some (bareRequest (lit "s") [])) (some lastSlot) freshStores).2 := by
    unfold Faulted
    decide
  have good' : ¬ Faulted ((bareRoute none).evaluateConditions (bareContext.under false)
      (some (bareRequest (lit "s") [])) (some lastSlot) freshStores).2 := by
    unfold Faulted
    decide +kernel
  have foretold := observe_foretells_enforce (bareRoute_builtin none) bareContext
    (bareRequest (lit "s") []) lastSlot freshStores good good'
  exact ⟨allowed, foretold.1 _ (anchoredKey_slot _ _ (.head _) _ _)⟩

end Eunox
