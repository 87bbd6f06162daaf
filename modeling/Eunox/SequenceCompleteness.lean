import Eunox.QuotaSafety
import Eunox.SequenceHistory
import Eunox.FlowConfinement

/-! Completeness of the sequence history. Whatever the engine does to the counter
is a run of counter operations at its own instant; no such operation, and no
sweep, loses a marker within its window. A recorded call therefore arms every
later `sequenceBlock` of its subject that names it, until the window has passed. -/
namespace Eunox
open ByteString CallCounter StateProgram

/-! Decisions as counter runs. -/

/-- The program acts on the counter by operations at one instant. -/
def Counts (instant : ℤ) {α : Type} (f : World → α × World) : Prop :=
  ∀ w, ∃ events : List QuotaSafety.Event, (∀ ev ∈ events, ev.clock = instant) ∧
    (f w).2.counter = QuotaSafety.run w.counter events

theorem counts_compositional (instant : ℤ) : Compositional (Counts instant) where
  answer := fun _ _ => ⟨[], by simp, rfl⟩
  andThen := by
    intro α β f g first second w
    obtain ⟨events, at_, ran⟩ := first w
    obtain ⟨later, at', ran'⟩ := second (f w).1 (f w).2
    refine ⟨events ++ later, fun ev mem => ?_, ?_⟩
    · exact (List.mem_append.mp mem).elim (at_ ev) (at' ev)
    · rw [ran', ran]
      exact List.foldl_append.symm

theorem counts_of_counter {α : Type} {f : World → α × World} (same : ∀ w, (f w).2.counter = w.counter) :
    Counts instant f :=
  fun w => ⟨[], by simp, same w⟩

theorem recordMarker_counts (e : Engine) (instant : ℤ) (req : EnforceRequest)
    (targetType target : Bytes) : Counts instant (e.recordMarker instant req targetType target) := by
  intro w
  refine ⟨[⟨instant, .incrementAndGet (e.sequenceHistoryKey req targetType target)
    sequenceHistoryWindowSec sequenceHistoryMaxEntries⟩], by simp, ?_⟩
  unfold Engine.recordMarker
  split
  all_goals
    rename_i counted
    exact (congrArg Prod.snd counted).symm

theorem local_counts (e : Engine) (instant : ℤ) (req : EnforceRequest) :
    LocalIf True e instant req (fun _ => True) (Counts instant) where
  toCompositional := counts_compositional instant
  labels := by
    refine counts_of_counter fun w => ?_
    unfold Engine.peekSessionLabels
    split
    · rfl
    · dsimp only
      split <;> rfl
  record := fun matched => counts_of_counter fun w => recordLabels_counter e instant req matched w
  rollback := by
    refine fun added => counts_of_counter fun w => ?_
    dsimp only
    unfold Engine.rollbackLabels
    split
    · rfl
    · split <;> rfl
  history := fun _ _ _ => counts_of_counter fun _ => rfl
  marker := recordMarker_counts e instant req
  fault := counts_of_counter fun _ => rfl
  admission := by
    intro pending _ w
    unfold Engine.admitPending
    split
    · exact ⟨[], by simp, rfl⟩
    split
    · exact ⟨[], by simp, rfl⟩
    refine ⟨[⟨instant, .admitAll (pending.map PendingBucket.bucket)⟩], by simp, ?_⟩
    split
    all_goals
      rename_i ran
      exact (congrArg Prod.snd ran).symm

theorem evaluateMatched_counts (e : Engine) (ctx : Context) (req : EnforceRequest)
    (matched : Constraint) : Counts ctx.instant (e.evaluateMatched ctx req matched) :=
  (local_counts e ctx.instant req).evaluateMatched (fun _ _ _ _ _ _ _ => trivial) (fun _ _ _ _ _ _ => trivial) fun _ => trivial

/-! What happens between a record and a lookup. -/

/-- Everything that writes the shared counter: decisions, the two exported
recording seams, and the locked batches of a background sweep. -/
inductive HistoryStep where
  | decide (c : Call)
  | recordSessionCall (e : Engine) (instant : ℤ) (req : EnforceRequest)
  | recordSourceCall (e : Engine) (instant : ℤ) (req : EnforceRequest) (matched : Constraint)
      (scope : SourceCommitScope) (carried : List Bytes)
  | sweep (clock : ℤ) (keys : List Bytes)

def HistoryStep.clock : HistoryStep → ℤ
  | .decide c => c.context.instant
  | .recordSessionCall _ instant _ => instant
  | .recordSourceCall _ instant _ _ _ _ => instant
  | .sweep clock _ => clock

def HistoryStep.apply (w : World) : HistoryStep → World
  | .decide c => (c.respond w).2
  | .recordSessionCall e instant req => (e.recordSessionCall instant req w).2
  | .recordSourceCall e instant req matched scope carried =>
    (e.recordSourceCall instant req matched scope carried w).2
  | .sweep clock keys => { w with counter := cleanupBatch w.counter clock keys }

def HistoryStep.run (w : World) (steps : List HistoryStep) : World := steps.foldl HistoryStep.apply w

theorem HistoryStep.apply_counts (s : HistoryStep) (w : World) :
    ∃ events : List QuotaSafety.Event, (∀ ev ∈ events, ev.clock = s.clock) ∧
      (s.apply w).counter = QuotaSafety.run w.counter events := by
  cases s with
  | decide c =>
    obtain ⟨e, ctx, request, constraint⟩ := c
    cases request with
    | none => exact ⟨[], by simp, rfl⟩
    | some req =>
      cases constraint with
      | none => exact ⟨[], by simp, rfl⟩
      | some matched => exact evaluateMatched_counts e ctx req matched w
  | recordSessionCall e instant req => exact (local_counts e instant req).recordSessionCall w
  | recordSourceCall e instant req matched scope carried =>
    exact (local_counts e instant req).recordSourceCall matched scope carried w
  | sweep clock keys => exact ⟨[⟨clock, .cleanupBatch keys⟩], by simp [HistoryStep.clock], rfl⟩

theorem HistoryStep.run_counts (steps : List HistoryStep) (w : World) :
    ∃ events : List QuotaSafety.Event, (∀ ev ∈ events, ∃ s ∈ steps, ev.clock = s.clock) ∧
      (HistoryStep.run w steps).counter = QuotaSafety.run w.counter events := by
  induction steps generalizing w with
  | nil => exact ⟨[], by simp, rfl⟩
  | cons s rest ih =>
    obtain ⟨events, at_, ran⟩ := s.apply_counts w
    obtain ⟨later, at', ran'⟩ := ih (s.apply w)
    refine ⟨events ++ later, fun ev mem => ?_, ?_⟩
    · rcases List.mem_append.mp mem with mem | mem
      · exact ⟨s, by simp, at_ ev mem⟩
      · obtain ⟨s', inRest, same⟩ := at' ev mem
        exact ⟨s', by simp [inRest], same⟩
    · rw [show HistoryStep.run w (s :: rest) = HistoryStep.run (s.apply w) rest from rfl, ran', ran]
      exact List.foldl_append.symm

/-! Markers stay. -/

section Retention
open QuotaSafety
variable {a : Account} {m : InMemory} {instant : ℤ}

theorem OnRecord.prune (kept : OnRecord instant held) (live : now - windowNanos a.windowSec < instant) :
    OnRecord instant (prunedEntry a now held) := by
  obtain ⟨entry, rfl, ts, mem, late⟩ := kept
  refine ⟨_, rfl, ts, ?_, late⟩
  have inside : now - windowNanos a.windowSec < ts := by omega
  simpa [pruneEntry, pruneInWindow, storeEntry, mem] using inside

/-- The newest call survives the trim. -/
theorem mem_incrementEntry (entry : Entry) (now windowSec : ℤ) (atLeastOne : 1 ≤ maxEntries) :
    now ∈ (incrementEntry entry now windowSec maxEntries).timestamps := by
  have trimmed : ∀ (valid : List ℤ) (weights : Option (List Binary64)),
      now ∈ (trimOldest (valid ++ [now]) weights maxEntries).1 := by
    intro valid weights
    unfold trimOldest
    split
    · simp
    have short : (valid ++ [now]).length - maxEntries.toNat ≤ valid.length := by
      simp
      omega
    dsimp only
    rw [List.drop_append_of_le_length short]
    simp
  exact trimmed _ _

/-- No operation on the counter loses a call still in the window. -/
theorem onRecord_change (change : Change a m ev held charges) (tidy : Tidy a (m.entries.lookup a.slot))
    (kept : OnRecord instant (m.entries.lookup a.slot)) (after : instant ≤ floorToMicro ev.clock)
    (live : floorToMicro ev.clock - windowNanos a.windowSec < instant) : OnRecord instant held := by
  cases change with
  | same => exact kept
  | pruned => exact kept.prune live
  | @admitted b slot positive grant free =>
    split
    · refine ⟨_, rfl, floorToMicro ev.clock, ?_, after⟩
      simp [BucketState.committed, appendCall, storeEntry]
    · exact kept.prune live
  | incremented positive atLeastOne call =>
    exact ⟨_, rfl, floorToMicro ev.clock, mem_incrementEntry _ _ _ atLeastOne, after⟩
  | @reclaimed e found stale =>
    obtain ⟨entry, held, ts, mem, late⟩ := kept
    obtain rfl : e = entry := Option.mem_unique found held
    obtain ⟨window, positive⟩ := tidy.window e found
    have old := stale_of_shouldDelete stale (window ▸ positive) ts mem
    rw [window] at old
    unfold windowNanos second floorToMicro at *
    omega

theorem onRecord_run (counted : a.counted = true)
    (tidy : Tidy a (m.entries.lookup a.slot)) (kept : OnRecord instant (m.entries.lookup a.slot))
    (after : ∀ ev ∈ events, instant ≤ floorToMicro ev.clock)
    (live : ∀ ev ∈ events, floorToMicro ev.clock - windowNanos a.windowSec < instant) :
    OnRecord instant ((run m events).entries.lookup a.slot) := by
  induction events generalizing m with
  | nil => exact kept
  | cons ev rest ih =>
    have change := step_change a m ev
    refine ih (tidy_step tidy (by simp [Account.Whole, counted]) change)
      (onRecord_change change tidy kept (after ev (by simp)) (live ev (by simp)))
      (fun ev mem => after ev (by simp [mem])) (fun ev mem => live ev (by simp [mem]))

end Retention

/-- The account a target's marker is kept on. -/
def Engine.markerAccount (e : Engine) (req : EnforceRequest) (targetType target : Bytes) :
    QuotaSafety.Account :=
  ⟨e.sequenceHistoryKey req targetType target, sequenceHistoryWindowSec, true⟩

variable {e : Engine} {req : EnforceRequest} {w w' : World}

theorem HistoryStep.run_onRecord (tidy : QuotaSafety.Tidy (e.markerAccount req targetType target)
      (w.counter.entries.lookup (e.markerSlot req targetType target)))
    (kept : OnRecord instant (w.counter.entries.lookup (e.markerSlot req targetType target)))
    (after : ∀ s ∈ steps, instant ≤ floorToMicro s.clock)
    (live : ∀ s ∈ steps, floorToMicro s.clock - windowNanos sequenceHistoryWindowSec < instant) :
    OnRecord instant ((HistoryStep.run w steps).counter.entries.lookup (e.markerSlot req targetType target)) := by
  obtain ⟨events, at_, ran⟩ := HistoryStep.run_counts steps w
  rw [ran]
  refine onRecord_run (a := e.markerAccount req targetType target) rfl tidy kept ?_ ?_
  · intro ev mem
    obtain ⟨s, inSteps, same⟩ := at_ ev mem
    exact same ▸ after s inSteps
  · intro ev mem
    obtain ⟨s, inSteps, same⟩ := at_ ev mem
    exact same ▸ live s inSteps

/-! Spellings. -/

/-- A name without a recognised prefix reads as a tool's. -/
theorem splitEnginePrefix_bare (bare : (splitEnginePrefix name).2 = name) :
    (splitEnginePrefix name).1 = lit "tool" := by
  unfold splitEnginePrefix at bare ⊢
  split
  · rename_i targetType rest found
    split
    · rename_i known
      rw [found] at bare
      simp only [known, ↓reduceIte] at bare
      obtain ⟨shape, -⟩ := cut_eq_some.mp found
      have sizes := congrArg List.length shape
      rw [bare] at sizes
      simp at sizes
      omega
    · rfl
  · rfl

/-- The natural spelling of a recorded target leads back to one of its markers: an
unprefixed name is a tool's, and what follows a prefix is not padded. -/
def Natural (targetType name : Bytes) : Prop :=
  trimSpace (splitEnginePrefix name).2 = (splitEnginePrefix name).2 ∧
    ((splitEnginePrefix name).2 = name → targetType = lit "tool")

instance (targetType name : Bytes) : Decidable (Natural targetType name) :=
  inferInstanceAs (Decidable (_ ∧ (_ → _)))

theorem sessionTargetName_trimmed (req : EnforceRequest) :
    trimSpace (sessionTargetName req) = sessionTargetName req := by
  unfold sessionTargetName
  split
  · dsimp only
    split <;> exact trimSpace_idempotent _
  · exact trimSpace_idempotent _

/-- A listed antecedent that is armed denies, whatever else the list holds. -/
theorem handleSequenceBlock_denies (listed : prior ∈ afterTools)
    (armed : Armed e ctx.instant req (antecedentTarget prior).1 (antecedentTarget prior).2 w) :
    (e.handleSequenceBlock ctx (.sequenceBlock afterTools) req w).1 ≠ none := by
  unfold Engine.handleSequenceBlock
  dsimp only
  split
  · simp
  split
  · simp
  split
  · simp
  rcases sequenceLookup_cases e ctx req w afterTools afterTools with
    ⟨-, unarmed⟩ | ⟨hit, -, -, denied⟩
  · exact absurd armed (unarmed prior listed)
  · simp [denied]

/-- Without an anchor there is no history to clear a call. -/
theorem handleSequenceBlock_unanchored (empty : (e.resolveAnchor req).id = []) (afterTools : List Bytes) :
    (e.handleSequenceBlock ctx (.sequenceBlock afterTools) req w).1 ≠ none := by
  have guarded : e.counterSubjectGuards req sequenceHistorySpec ≠ none := by
    unfold Engine.counterSubjectGuards
    split
    · simp
    · simp [empty]
  unfold Engine.handleSequenceBlock
  dsimp only
  split
  · simp
  split
  · simp
  split
  · simp
  · exact absurd ‹_› guarded

/-- The ways of naming a recorded target that a later lookup finds. -/
def Names (spelled : Bytes) (targetType name : Bytes) : Prop :=
  isTargetType targetType = true ∧ spelled = targetType ++ 58 :: name ∨
    spelled = name ∧ Natural targetType name

theorem Names.antecedent (names : Names spelled (sessionTargetKey req).1 (sessionTargetKey req).2) :
    antecedentTarget spelled = sessionTargetKey req ∨
      (splitEnginePrefix (sessionTargetKey req).2).2 ≠ (sessionTargetKey req).2 ∧
        antecedentTarget spelled = splitEnginePrefix (sessionTargetKey req).2 := by
  have trimmed : trimSpace (sessionTargetKey req).2 = (sessionTargetKey req).2 := sessionTargetName_trimmed req
  rcases names with ⟨known, rfl⟩ | ⟨rfl, plain, tool⟩
  · refine .inl ?_
    unfold antecedentTarget
    rw [splitEnginePrefix_join known, trimmed]
  · unfold antecedentTarget
    rw [plain]
    by_cases bare : (splitEnginePrefix (sessionTargetKey req).2).2 = (sessionTargetKey req).2
    · exact .inl (Prod.ext ((splitEnginePrefix_bare bare).trans (tool bare).symm) bare)
    · exact .inr ⟨bare, rfl⟩

/-! The law. -/

theorem markerSlot_congr {e' : Engine} (same : e'.subject req' = e.subject req) (targetType target : Bytes) :
    e'.markerSlot req' targetType target = e.markerSlot req targetType target := by
  have namespaces := congrArg Subject.counterKeyNamespace same
  have anchors := congrArg Subject.anchor same
  simp only [Engine.subject] at namespaces anchors
  simp [Engine.markerSlot, Engine.sequenceHistoryKey, Engine.anchoredKey, namespaces, anchors]

/-- Every marker of a run from a fresh counter is well formed. -/
theorem HistoryStep.run_tidy (e : Engine) (req : EnforceRequest) (fresh : start.counter.entries = ∅)
    (steps : List HistoryStep) (targetType target : Bytes) :
    QuotaSafety.Tidy (e.markerAccount req targetType target)
      ((HistoryStep.run start steps).counter.entries.lookup (e.markerSlot req targetType target)) := by
  obtain ⟨events, -, ran⟩ := HistoryStep.run_counts steps start
  rw [ran]
  refine QuotaSafety.tidy_run (a := e.markerAccount req targetType target) ?_ (by
    simp [QuotaSafety.Account.Whole, Engine.markerAccount])
  rw [fresh]
  exact QuotaSafety.tidy_none _

/-- A recorded call arms every later lookup of its subject that names it, until
the window has passed, and none of any other subject. -/
theorem sequence_history_complete {start : World} (fresh : start.counter.entries = ∅)
    (earlier : List HistoryStep) {e : Engine} {instant : ℤ} {req : EnforceRequest} {after : World}
    (recorded : e.recordSessionCall instant req (HistoryStep.run start earlier) = (.ok (), after))
    (records : e.skipAntecedentRecording = false) (wired : e.counterWired = true)
    (named : (sessionTargetKey req).2 ≠ []) :
    (∀ (between : List HistoryStep) (e' : Engine) (ctx : Context) (req' : EnforceRequest)
        (afterTools : List Bytes) (spelled : Bytes), e'.subject req' = e.subject req →
      (∀ s ∈ between, instant ≤ s.clock ∧ s.clock ≤ ctx.instant) →
      floorToMicro ctx.instant - windowNanos sequenceHistoryWindowSec < floorToMicro instant →
      spelled ∈ afterTools → Names spelled (sessionTargetKey req).1 (sessionTargetKey req).2 →
      (e'.handleSequenceBlock ctx (.sequenceBlock afterTools) req' (HistoryStep.run after between)).1 ≠ none) ∧
    ∀ (e' : Engine) (req' : EnforceRequest), e'.subject req' ≠ e.subject req →
      ∀ clock targetType target, Armed e' clock req' targetType target after ↔
        Armed e' clock req' targetType target (HistoryStep.run start earlier) := by
  refine ⟨?_, ?_⟩
  · intro between e' ctx req' afterTools spelled same within recent listed names
    by_cases anchor : (e.resolveAnchor req).id = []
    · -- Nothing was recorded, and nothing can be looked up either.
      have empty : (e'.resolveAnchor req').id = [] := by
        rw [show e'.resolveAnchor req' = e.resolveAnchor req from congrArg Subject.anchor same]
        exact anchor
      exact handleSequenceBlock_unanchored empty afterTools
    · have state : after = HistoryStep.run start (earlier ++ [.recordSessionCall e instant req]) := by
        rw [HistoryStep.run, List.foldl_append]
        exact (congrArg Prod.snd recorded).symm
      obtain ⟨primary, other⟩ := recordSessionCall_onRecord recorded records wired anchor named
      have kept : ∀ targetType target, OnRecord (floorToMicro instant)
            (after.counter.entries.lookup (e.markerSlot req targetType target)) →
          Armed e' ctx.instant req' targetType target (HistoryStep.run after between) := by
        intro targetType target held
        have tidy := HistoryStep.run_tidy e req fresh
          (earlier ++ [.recordSessionCall e instant req]) targetType target
        rw [← state] at tidy
        have still := HistoryStep.run_onRecord tidy held
          (fun s member => QuotaSafety.floorToMicro_mono (within s member).1)
          (fun s member => lt_of_le_of_lt
            (sub_le_sub_right (QuotaSafety.floorToMicro_mono (within s member).2) _) recent)
        rw [← markerSlot_congr same] at still
        exact still.armed recent
      refine handleSequenceBlock_denies listed ?_
      rcases names.antecedent with spelt | ⟨prefixed, spelt⟩
      · rw [spelt]
        exact kept _ _ primary
      · rw [spelt]
        exact kept _ _ (other prefixed)
  · intro e' req' apart clock targetType target
    have elsewhere : ∀ t n, e'.markerSlot req' targetType target ≠ e.markerSlot req t n := by
      intro t n met
      obtain ⟨keys, -⟩ := storageKey_inj.mp met
      exact apart ((sequenceHistoryKey_owned e' req' targetType target).unique
        (keys ▸ sequenceHistoryKey_owned e req t n))
    have untouched := recordSessionCall_other (w := HistoryStep.run start earlier) instant elsewhere
    rw [recorded] at untouched
    rw [armed_iff, armed_iff, untouched]

/-- A request for a named target. -/
def targetRequest (sessionID targetType name : Bytes) : EnforceRequest :=
  { bareRequest sessionID [] with target := some ⟨targetType, name⟩ }

/-- A tool whose name starts like a namespace, found under both spellings a day
less a second later, by its own session only. -/
theorem sequence_history_complete_prefixed :
    let e := bareRoute none
    let req := targetRequest (lit "s") (lit "tool") (lit "system:reboot")
    let ctx := { bareContext with instant := 86399 * second }
    let after := (e.recordSessionCall 0 req freshStores).2
    (e.handleSequenceBlock ctx (.sequenceBlock [lit "tool:system:reboot"]) req after).1 ≠ none ∧
      (e.handleSequenceBlock ctx (.sequenceBlock [lit "system:reboot"]) req after).1 ≠ none ∧
      (Armed e 0 (targetRequest (lit "t") (lit "tool") []) (lit "system") (lit "reboot") after ↔
        Armed e 0 (targetRequest (lit "t") (lit "tool") []) (lit "system") (lit "reboot") freshStores) := by
  intro e req ctx after
  obtain ⟨denies, apart⟩ := sequence_history_complete (show freshStores.counter.entries = ∅ from rfl) []
    (show e.recordSessionCall 0 req freshStores = (.ok (), after) from by rfl)
    (by decide) rfl (by decide)
  refine ⟨denies [] e ctx req _ _ rfl (by simp) (by decide) (List.mem_singleton.mpr rfl) (.inl ⟨rfl, rfl⟩),
    denies [] e ctx req _ _ rfl (by simp) (by decide) (List.mem_singleton.mpr rfl)
      (.inr ⟨by decide, by decide⟩), apart e _ (by decide) 0 _ _⟩

/-- Spellings that miss: the natural one of a resource and the explicit one of an
unknown type, both read as a tool's; a name whose prefix is followed by a blank,
noted with the blank and looked up without; and any spelling, when the route's
policy keeps no history. -/
theorem sequence_history_misses :
    let bare := bareRoute none
    let unaware := bareRoute (some [conditionTypeMaxCalls])
    let noted (e : Engine) (req : EnforceRequest) := e.recordSessionCall 0 req freshStores
    let found (req : EnforceRequest) (spelled : Bytes) (w : World) :=
      (bare.handleSequenceBlock bareContext (.sequenceBlock [spelled]) req w).1
    let resource := targetRequest (lit "s") (lit "resource") (lit "ledger")
    let widget := targetRequest (lit "s") (lit "widget") (lit "ledger")
    let padded := targetRequest (lit "s") (lit "tool") (lit "system: reboot")
    let tool := targetRequest (lit "s") (lit "tool") (lit "ledger")
    ((noted bare resource).1 = .ok () ∧ found resource (lit "ledger") (noted bare resource).2 = none) ∧
    ((noted bare widget).1 = .ok () ∧ found widget (lit "widget:ledger") (noted bare widget).2 = none) ∧
    ((noted bare padded).1 = .ok () ∧ found padded (lit "system: reboot") (noted bare padded).2 = none) ∧
    ((noted unaware tool).1 = .ok () ∧ found tool (lit "ledger") (noted unaware tool).2 = none) := by
  refine ⟨⟨rfl, ?_⟩, ⟨rfl, ?_⟩, ⟨rfl, ?_⟩, ⟨rfl, ?_⟩⟩
  all_goals decide

end Eunox
