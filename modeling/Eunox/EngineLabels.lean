import Eunox.EngineOutcome

/-! What a decision does to the flow labels. Only the record of an allowed call
adds labels, at its own anchor; the rollback of a failed one removes only what
that call added. -/
namespace Eunox
open ByteString CallCounter FlowLabelStore

variable {e : Engine} {ctx : Context} {req : EnforceRequest} {matched : Constraint} {w w' : World}

/-- The labels a key holds. -/
def World.labels (w : World) (key : Bytes) : List Bytes := w.flowStore.held key

theorem labels_congr (same : w'.flowStore = w.flowStore) (key : Bytes) :
    w'.labels key = w.labels key := congrArg (InMemory.held · key) same

theorem firstUnusable_none : firstUnusable labels = none ↔ ∀ l ∈ labels, usable l = true := by
  induction labels with
  | nil => simp [firstUnusable]
  | cons label rest ih =>
    simp only [firstUnusable, List.mem_cons]
    cases checked : validateFlowLabel label with
    | error err => simp [usable, checked]
    | ok u => simp [usable, checked, ih]

variable (e req w) in
theorem recordSessionCall_flowStore (instant : ℤ) :
    (e.recordSessionCall instant req w).2.flowStore = w.flowStore := by
  unfold Engine.recordSessionCall
  split
  · rfl
  split
  · rfl
  split
  · rfl
  dsimp only
  split
  · rfl
  split
  · split
    · rename_i marked
      rw [← recordMarker_flowStore e req w, marked]
    · rename_i marked
      rw [recordMarker_flowStore, ← recordMarker_flowStore e req w, marked]
  · exact recordMarker_flowStore e req w instant _ _

/-- The call's asserted labels are in its anchor's set, and nothing else changed. -/
def Recorded (e : Engine) (req : EnforceRequest) (matched : Constraint) (w w' : World) : Prop :=
  ∀ key l, l ∈ w'.labels key ↔
    l ∈ w.labels key ∨ key = e.flowKey req ∧ l ∈ outputLabels matched.directives

/-- Why labels cannot be recorded at all. -/
def Unrecordable (e : Engine) (req : EnforceRequest) (matched : Constraint) : Prop :=
  (∃ l ∈ outputLabels matched.directives, usable l = false) ∨ e.flowWired = false ∨
    (e.resolveAnchor req).id = []

variable (e : Engine) (instant : ℤ) (req : EnforceRequest) (matched : Constraint) (w : World) in
/-- Everything recording labels can do: nothing to record, nothing recordable, or
what the store says. -/
inductive LabelRecord : Except Message (List Bytes) → World → Prop
  | nothing (empty : e.skipFlow = true ∨ outputLabels matched.directives = []) :
      LabelRecord (.ok []) w
  | unrecordable (cause : Unrecordable e req matched) : LabelRecord (.error err) w
  | refused (added : w.flowStore.add instant (e.flowKey req)
        (normalizeFlowLabels (outputLabels matched.directives)) = (.error err, store)) :
      LabelRecord (.error err) { w with flowStore := store, faulted := true }
  | added (valid : ∀ l ∈ outputLabels matched.directives, usable l = true)
      (added : w.flowStore.add instant (e.flowKey req)
        (normalizeFlowLabels (outputLabels matched.directives)) = (.ok (), store)) :
      LabelRecord (.ok (normalizeFlowLabels (outputLabels matched.directives)))
        { w with flowStore := store }

theorem recordLabels_record (ran : e.recordLabels instant req matched w = (result, w')) :
    LabelRecord e instant req matched w result w' := by
  unfold Engine.recordLabels at ran
  split at ran
  · next off =>
    cases ran
    exact .nothing (.inl off)
  split at ran
  · next unusable =>
    cases ran
    refine .unrecordable (.inl ?_)
    by_contra valid
    push Not at valid
    have usable := firstUnusable_none.mpr fun l mem => by simpa using valid l mem
    simp [usable] at unusable
  next usable =>
  split at ran
  · next empty =>
    cases ran
    exact .nothing (.inr (List.isEmpty_iff.mp empty))
  split at ran
  · next missing =>
    cases ran
    exact .unrecordable (.inr (.inl (by simpa using missing)))
  split at ran
  · next empty =>
    cases ran
    exact .unrecordable (.inr (.inr (by simpa using empty)))
  dsimp only at ran
  split at ran
  · next added =>
    cases ran
    exact .refused added
  · next added =>
    cases ran
    exact .added (firstUnusable_none.mp usable) added

theorem recordLabels_counter (e : Engine) (instant : ℤ) (req : EnforceRequest) (matched : Constraint) (w : World) :
    (e.recordLabels instant req matched w).2.counter = w.counter := by
  rcases ran : e.recordLabels instant req matched w with ⟨result, last⟩
  cases recordLabels_record ran <;> rfl

/-- A failure without a fault of the store leaves everything. -/
theorem recordLabels_failed (failed : e.recordLabels instant req matched w = (.error err, w')) :
    w'.faulted = true ∨ w' = w ∧ Unrecordable e req matched := by
  cases recordLabels_record failed with
  | unrecordable cause => exact .inr ⟨rfl, cause⟩
  | refused => exact .inl rfl

/-- Recording keeps exactly the constraint's labels, which are all usable. -/
theorem mem_normalized_outputLabels (valid : ∀ l ∈ outputLabels matched.directives, usable l = true) (l : Bytes) :
    l ∈ normalizeFlowLabels (outputLabels matched.directives) ↔ l ∈ outputLabels matched.directives := by
  rw [mem_normalizeFlowLabels]
  exact ⟨And.left, fun mem => ⟨mem, valid l mem⟩⟩

/-- The labels are in the set afterwards, whatever the TTL. -/
theorem recordLabels_held (flow : e.skipFlow = false)
    (recorded : e.recordLabels instant req matched w = (.ok out, w')) :
    ∀ l ∈ outputLabels matched.directives, l ∈ w'.labels (e.flowKey req) := by
  intro l mem
  cases recordLabels_record recorded with
  | nothing empty =>
    rw [empty.resolve_left (by simp [flow])] at mem
    cases mem
  | added valid added => exact add_held added l ((mem_normalized_outputLabels valid l).mpr mem)

theorem recordLabels_skipFlow (off : e.skipFlow = true) (instant : ℤ) :
    e.recordLabels instant req matched w = (.ok [], w) := by
  simp [Engine.recordLabels, off]

/-- An error of the antecedent record without a fault of the counter is the
refusal of an unanchored caller. -/
theorem recordSessionCall_error (failed : e.recordSessionCall instant req w = (.error err, w')) :
    w'.faulted = true ∨ e.anchorUnresolved req = true := by
  have marker : ∀ {targetType target : Bytes} {v v' : World} {err : Message},
      e.recordMarker instant req targetType target v = (.error err, v') → v'.faulted = true := by
    intro targetType target v v' err failed
    unfold Engine.recordMarker at failed
    split at failed
    · rw [← (Prod.mk.inj failed).2]
    · simp at failed
  unfold Engine.recordSessionCall at failed
  split at failed
  · simp at failed
  split at failed
  · exact .inr ‹_›
  split at failed
  · simp at failed
  dsimp only at failed
  split at failed
  · simp at failed
  refine .inl ?_
  split at failed
  · split at failed
    · rename_i first
      obtain ⟨-, rfl⟩ := Prod.mk.inj failed
      exact marker first
    · exact marker failed
  · exact marker failed

theorem steady_of_eq (same : w'.flowStore = w.flowStore) : Steady w.flowStore w'.flowStore := by
  rw [same]
  exact .refl _

variable (e : Engine) (instant : ℤ) (req : EnforceRequest) (matched : Constraint) (scope : SourceCommitScope)
  (carried : List Bytes) (w : World) in
/-- Everything recording a source call can do. -/
inductive SourceRecord : Except SourceCommitError (List Bytes) → World → Prop
  | unanchored (unresolved : e.anchorUnresolved req = true) : SourceRecord
      (.error ⟨errUnanchorableStateWrite, scope.flow⟩) w
  | unlabelled (failed : e.recordLabels instant req matched w = (.error err, mid)) :
      SourceRecord (.error ⟨err, true⟩) mid
  | unmarked {out : List Bytes} {mid last : World} {err : Message}
      (labelled : (if scope.flow then e.recordLabels instant req matched w else (.ok [], w)) = (.ok out, mid))
      (failed : e.recordSessionCall instant req mid = (.error err, last)) :
      SourceRecord (.error ⟨err, false⟩)
        (e.rollbackLabels instant req (labelsAdded out carried) last)
  | recorded {out : List Bytes} {mid last : World}
      (labelled : (if scope.flow then e.recordLabels instant req matched w else (.ok [], w)) = (.ok out, mid))
      (noted : e.recordAntecedentIn instant scope req mid = (.ok (), last)) :
      SourceRecord (.ok out) last

theorem recordSourceCall_record (ran : e.recordSourceCall instant req matched scope carried w = (result, w')) :
    SourceRecord e instant req matched scope carried w result w' := by
  unfold Engine.recordSourceCall at ran
  split at ran
  · next unresolved =>
    obtain ⟨rfl, rfl⟩ := Prod.mk.inj ran
    exact .unanchored unresolved
  split at ran
  · next failed =>
    obtain ⟨rfl, rfl⟩ := Prod.mk.inj ran
    split at failed
    · exact .unlabelled failed
    · cases failed
  next labelled =>
  split at ran
  · next failed =>
    obtain ⟨rfl, rfl⟩ := Prod.mk.inj ran
    unfold Engine.recordAntecedentIn at failed
    split at failed
    · exact .unmarked labelled failed
    · cases failed
  · next noted =>
    obtain ⟨rfl, rfl⟩ := Prod.mk.inj ran
    exact .recorded labelled noted

/-- What a decision does to the labels: they only accumulate, at the anchor of an
allowed call, and there they are the labels its constraint asserts. -/
structure LabelEffect (e : Engine) (req : EnforceRequest) (matched : Constraint) (w : World)
    (decision : Decision) (w' : World) : Prop where
  wiring : Steady w.flowStore w'.flowStore
  grows : ∀ key, ∀ l ∈ w.labels key, l ∈ w'.labels key
  others : ∀ key, key ≠ e.flowKey req → ∀ l, l ∈ w'.labels key → l ∈ w.labels key
  recorded : decision = .allow → e.skipFlow = false → Recorded e req matched w w' ∧
    ∀ l ∈ outputLabels matched.directives, usable l = true
  refused : decision ≠ .allow → w'.faulted = false → ∀ key l, l ∈ w'.labels key → l ∈ w.labels key

/-- Stores that hold the same labels. -/
theorem LabelEffect.of_same (wiring : Steady w.flowStore w'.flowStore) (same : ∀ key, w'.labels key = w.labels key)
    (recorded : decision = .allow → e.skipFlow = false → Recorded e req matched w w' ∧
      ∀ l ∈ outputLabels matched.directives, usable l = true) :
    LabelEffect e req matched w decision w' where
  wiring := wiring
  grows := fun key l held => by rwa [same]
  others := fun key _ l held => by rwa [same] at held
  recorded := recorded
  refused := fun _ _ key l held => by rwa [same] at held

/-- A constraint that is not flow-relevant asserts no label. -/
theorem outputLabels_of_irrelevant (flow : e.skipFlow = false)
    (irrelevant : e.flowRelevant matched = false) : outputLabels matched.directives = [] := by
  have flowless : constraintHasFlow matched = false := by
    simpa [Engine.flowRelevant, flow] using irrelevant
  simp only [constraintHasFlow, Bool.or_eq_false_iff, List.any_eq_false] at flowless
  rw [outputLabels, List.flatMap_eq_nil_iff]
  intro dir mem
  cases dir with
  | labelOutput labels => exact absurd rfl (flowless.2 _ mem)
  | _ => rfl

theorem skipFlow_of_relevant (relevant : e.flowRelevant matched = true) : e.skipFlow = false := by
  rw [Engine.flowRelevant, Bool.and_eq_true] at relevant
  simpa using relevant.1

/-! Labels that do not expire. -/

section NoIdleExpiry
variable (keeps : w.flowStore.ttl ≤ 0)
include keeps

theorem peekSessionLabels_stores (instant : ℤ) :
    (∀ key, (e.peekSessionLabels instant req w).2.labels key = w.labels key) ∧
      Steady w.flowStore (e.peekSessionLabels instant req w).2.flowStore ∧
      (e.peekSessionLabels instant req w).2.counter = w.counter ∧
      (e.peekSessionLabels instant req w).2.faulted = w.faulted := by
  obtain ⟨-, held, steady⟩ := get_spec keeps instant (e.flowKey req)
  unfold Engine.peekSessionLabels
  split
  · exact ⟨fun _ => rfl, .refl _, rfl, rfl⟩
  dsimp only
  split
  · exact ⟨held, steady, rfl, rfl⟩
  · exact ⟨held, steady, rfl, rfl⟩

/-- A successful peek reports exactly the labels held, all of them usable. -/
theorem peekSessionLabels_ok {read : World} (peeked : e.peekSessionLabels instant req w = (.ok carried, read))
    (wired : e.flowWired = true) (flow : e.skipFlow = false) (anchor : (e.resolveAnchor req).id ≠ []) :
    (∀ l, l ∈ carried ↔ l ∈ w.labels (e.flowKey req)) ∧ ∀ l ∈ carried, usable l = true := by
  have present := (get_spec keeps instant (e.flowKey req)).1
  have live : (e.skipFlow || !e.flowWired || (e.resolveAnchor req).id.isEmpty) = false := by
    simp [flow, wired, anchor]
  simp only [Engine.peekSessionLabels, live, Bool.false_eq_true, ↓reduceIte] at peeked
  split at peeked
  · simp at peeked
  rename_i valid
  obtain ⟨rfl, -⟩ := peeked
  refine ⟨fun l => ?_, fun l mem => (mem_normalizeFlowLabels.mp mem).2⟩
  rw [mem_normalizeFlowLabels, present, mem_sortStrings]
  constructor
  · exact And.left
  · intro held
    refine ⟨held, firstUnusable_none.mp valid l ?_⟩
    rw [present]
    exact mem_sortStrings.mpr held

variable (e ctx req matched) in
theorem snapshot_stores : (∀ key, (e.snapshot ctx req matched w).2.labels key = w.labels key) ∧
      Steady w.flowStore (e.snapshot ctx req matched w).2.flowStore ∧
      (e.snapshot ctx req matched w).2.counter = w.counter ∧
      (e.snapshot ctx req matched w).2.faulted = w.faulted := by
  unfold Engine.snapshot
  split
  · exact peekSessionLabels_stores keeps ctx.instant
  · exact ⟨fun _ => rfl, .refl _, rfl, rfl⟩

theorem recordLabels_error (failed : e.recordLabels instant req matched w = (.error err, w')) :
    Steady w.flowStore w'.flowStore ∧ ∀ key, w'.labels key = w.labels key := by
  cases recordLabels_record failed with
  | unrecordable => exact ⟨.refl _, fun _ => rfl⟩
  | refused added =>
    have spec := add_spec keeps instant (e.flowKey req) (normalizeFlowLabels (outputLabels matched.directives))
    rw [added] at spec
    obtain ⟨steady, ⟨ok, -⟩ | ⟨-, -, held⟩⟩ := spec
    · cases ok
    · exact ⟨steady, held⟩

theorem recordLabels_ok (flow : e.skipFlow = false)
    (recorded : e.recordLabels instant req matched w = (.ok out, w')) :
    Steady w.flowStore w'.flowStore ∧ Recorded e req matched w w' ∧
      ∀ l ∈ outputLabels matched.directives, usable l = true := by
  cases recordLabels_record recorded with
  | nothing empty =>
    have silent := empty.resolve_left (by simp [flow])
    exact ⟨.refl _, by simp [Recorded, silent], by simp [silent]⟩
  | added valid added =>
    have spec := add_spec keeps instant (e.flowKey req) (normalizeFlowLabels (outputLabels matched.directives))
    rw [added] at spec
    obtain ⟨steady, ⟨-, held⟩ | ⟨⟨err, failed⟩, -⟩⟩ := spec
    · refine ⟨steady, fun key l => ?_, valid⟩
      simp only [World.labels]
      rw [held key l, mem_normalized_outputLabels valid]
    · cases failed

variable (e req) in
/-- A rollback removes at most labels the call itself added, and none without a
subject. -/
theorem rollbackLabels_stores (instant : ℤ) (added : List Bytes) :
    Steady w.flowStore (e.rollbackLabels instant req added w).flowStore ∧
      (e.rollbackLabels instant req added w).counter = w.counter ∧
      (e.rollbackLabels instant req added w).faulted = w.faulted ∧
      (∀ key l, l ∈ (e.rollbackLabels instant req added w).labels key → l ∈ w.labels key) ∧
      ∀ key l, l ∈ w.labels key → (e.flowWired = true → (e.resolveAnchor req).id ≠ [] →
          ¬ (key = e.flowKey req ∧ l ∈ added)) →
        l ∈ (e.rollbackLabels instant req added w).labels key := by
  unfold Engine.rollbackLabels
  split
  · exact ⟨.refl _, rfl, rfl, fun _ _ => id, fun _ _ held _ => held⟩
  rename_i subject
  split
  · exact ⟨.refl _, rfl, rfl, fun _ _ => id, fun _ _ held _ => held⟩
  obtain ⟨steady, left⟩ := remove_spec keeps instant (e.flowKey req) added
  simp only [Bool.or_eq_true, Bool.not_eq_true', List.isEmpty_iff, not_or, Bool.not_eq_false] at subject
  exact ⟨steady, rfl, rfl, fun key l mem => ((left key l).mp mem).1,
    fun key l held other => (left key l).mpr ⟨held, other subject.1.1 subject.1.2⟩⟩

/-- What the labels of a source call did before its marker. -/
theorem labelled_cases
    (labelled : (if flow = true then e.recordLabels instant req matched w else (.ok [], w)) = (.ok out, w')) :
    (w' = w ∧ out = [] ∧ (flow = false ∨ e.skipFlow = true)) ∨
      flow = true ∧ e.skipFlow = false ∧ Steady w.flowStore w'.flowStore ∧ Recorded e req matched w w' ∧
        ∀ l ∈ outputLabels matched.directives, usable l = true := by
  split at labelled
  · next relevant =>
    cases off : e.skipFlow with
    | true =>
      rw [recordLabels_skipFlow off] at labelled
      cases labelled
      exact .inl ⟨rfl, rfl, .inr rfl⟩
    | false => exact .inr ⟨relevant, rfl, recordLabels_ok keeps off labelled⟩
  · next irrelevant =>
    cases labelled
    exact .inl ⟨rfl, rfl, .inl (by simpa using irrelevant)⟩

/-- A recorded source call adds its labels, when the decision is flow-relevant. -/
theorem recordSourceCall_ok (recorded : e.recordSourceCall instant req matched scope carried w = (.ok out, w')) :
    Steady w.flowStore w'.flowStore ∧ (scope.flow = true → e.skipFlow = false → Recorded e req matched w w' ∧
        ∀ l ∈ outputLabels matched.directives, usable l = true) ∧
      (scope.flow = false ∨ e.skipFlow = true → ∀ key, w'.labels key = w.labels key) := by
  cases recordSourceCall_record recorded with
  | @recorded _ mid _ labelled noted =>
    have stores : w'.flowStore = mid.flowStore := by
      unfold Engine.recordAntecedentIn at noted
      split at noted
      · rw [← recordSessionCall_flowStore e req mid instant, noted]
      · cases noted
        rfl
    have labels := labels_congr stores
    rcases labelled_cases keeps labelled with ⟨rfl, -, off⟩ | ⟨flow, on, wiring, recorded, valid⟩
    · exact ⟨steady_of_eq stores, fun flow on => by simp [flow, on] at off, fun _ => labels⟩
    · refine ⟨wiring.trans (steady_of_eq stores), fun _ _ => ⟨fun key l => ?_, valid⟩, by simp [flow, on]⟩
      rw [labels, recorded key l]

/-- A failed record leaves every label that was there, and without a store fault
leaves no label of its own. -/
theorem recordSourceCall_error (failed : e.recordSourceCall instant req matched scope carried w = (.error err, w'))
    (anchored : e.anchorUnresolved req = false)
    (covers : scope.flow = true → e.flowWired = true → e.skipFlow = false →
      (e.resolveAnchor req).id ≠ [] → ∀ l ∈ w.labels (e.flowKey req), l ∈ carried) :
    Steady w.flowStore w'.flowStore ∧ (∀ key, ∀ l ∈ w.labels key, l ∈ w'.labels key) ∧
      (∀ key, key ≠ e.flowKey req → ∀ l, l ∈ w'.labels key → l ∈ w.labels key) ∧
      (w'.faulted = true ∨ w' = w) := by
  cases recordSourceCall_record failed with
  | unanchored unresolved => simp [anchored] at unresolved
  | unlabelled failed =>
    obtain ⟨wiring, labels⟩ := recordLabels_error keeps failed
    exact ⟨wiring, fun key l held => by rw [labels]; exact held,
      fun key _ l held => by rwa [labels] at held, (recordLabels_failed failed).imp id And.left⟩
  | @unmarked out mid last _ labelled session =>
    have stores : last.flowStore = mid.flowStore := by
      rw [← recordSessionCall_flowStore e req mid instant, session]
    have fault : last.faulted = true := (recordSessionCall_error session).resolve_right (by simp [anchored])
    -- What the call added to the set before its marker failed.
    have change := labelled_cases keeps labelled
    have wiring : Steady w.flowStore last.flowStore := by
      rcases change with ⟨rfl, -⟩ | ⟨-, -, wiring, -⟩
      · exact steady_of_eq stores
      · exact wiring.trans (steady_of_eq stores)
    obtain ⟨rolled, -, faults, fewer, kept⟩ := rollbackLabels_stores e req
      (wiring.ttl ▸ keeps) instant (labelsAdded out carried)
    have held : ∀ key, last.labels key = mid.labels key := labels_congr stores
    refine ⟨wiring.trans rolled, fun key l before => ?_, fun key other l after => ?_, .inl (faults.trans fault)⟩
    · have present : l ∈ last.labels key := by
        rw [held]
        rcases change with ⟨rfl, -⟩ | ⟨-, -, -, recorded, -⟩
        · exact before
        · exact (recorded key l).mpr (.inl before)
      refine kept key l present fun wired anchor ⟨same, fresh⟩ => ?_
      simp only [labelsAdded, List.mem_filter] at fresh
      rcases change with ⟨-, empty, -⟩ | ⟨flow, off, -⟩
      · simp [empty] at fresh
      · have known := covers flow wired off anchor l (same ▸ before)
        simp [known] at fresh
    · have still := fewer key l after
      rw [held] at still
      rcases change with ⟨rfl, -⟩ | ⟨-, -, -, recorded, -⟩
      · exact still
      · exact ((recorded key l).mp still).resolve_right fun own => other own.1

section Cleared
variable {read : World} {pending : List PendingBucket} (cleared : Cleared e ctx req matched w carried read pending)
include cleared

theorem Cleared.stores :
    (∀ key, read.labels key = w.labels key) ∧ Steady w.flowStore read.flowStore ∧ read.counter = w.counter ∧
      read.faulted = w.faulted := by
  have stores := snapshot_stores e ctx req matched keeps
  rwa [cleared.snapshot] at stores

/-- The same once the buckets are drawn. -/
theorem Cleared.admitted {admitted : World} (admission : e.admitPending ctx.instant pending read = (verdict, admitted)) :
    (∀ key, admitted.labels key = w.labels key) ∧ Steady w.flowStore admitted.flowStore := by
  obtain ⟨labels, wiring, -⟩ := cleared.stores keeps
  have stores : admitted.flowStore = read.flowStore := by
    rw [← admitPending_flowStore e read ctx.instant pending, admission]
  exact ⟨fun key => by rw [labels_congr stores, labels], wiring.trans (steady_of_eq stores)⟩

/-- The snapshot of a flow-relevant decision is the anchor's whole set. -/
theorem Cleared.carried_iff (relevant : e.flowRelevant matched = true) (wired : e.flowWired = true)
    (anchor : (e.resolveAnchor req).id ≠ []) : ∀ l, l ∈ carried ↔ l ∈ w.labels (e.flowKey req) := by
  have peeked := cleared.snapshot
  rw [Engine.snapshot, if_pos relevant] at peeked
  exact (peekSessionLabels_ok keeps peeked wired (skipFlow_of_relevant relevant) anchor).1

end Cleared

theorem Outcome.labels (outcome : Outcome e ctx req matched w decision w') :
    LabelEffect e req matched w decision w' := by
  obtain ⟨snapLabels, snapWiring, -, -⟩ := snapshot_stores e ctx req matched keeps
  cases outcome with
  | refused denied stores =>
    rcases stores with rfl | rfl
    · exact .of_same (.refl _) (fun _ => rfl) fun allow => absurd allow denied
    · exact .of_same snapWiring snapLabels fun allow => absurd allow denied
  | rearmed denied marker =>
    obtain ⟨targetType, target, -, rfl⟩ := marker
    have stores := recordMarker_flowStore e req (e.snapshot ctx req matched w).2 ctx.instant targetType target
    exact .of_same (snapWiring.trans (steady_of_eq stores))
      (fun key => by rw [labels_congr stores, snapLabels]) fun allow => absurd allow denied
  | unadmitted denied cleared refused =>
    obtain ⟨labels, wiring⟩ := cleared.admitted keeps refused
    exact .of_same wiring labels fun allow => absurd allow denied
  | unrecorded denied cleared admission failed =>
    obtain ⟨labels, wiring⟩ := cleared.admitted keeps admission
    obtain ⟨last, grows, others, cause⟩ := recordSourceCall_error (wiring.ttl ▸ keeps) failed cleared.anchored (by
        intro relevant wired _ anchor l held
        rw [labels] at held
        exact (cleared.carried_iff keeps relevant wired anchor l).mpr held)
    refine ⟨wiring.trans last, fun key l held => grows key l (by rwa [labels]),
      fun key other l held => by rw [← labels]; exact others key other l held,
      fun allow => absurd allow denied, fun _ clean key l held => ?_⟩
    rcases cause with fault | rfl
    · simp [fault] at clean
    · rwa [labels] at held
  | allowed cleared admission recorded =>
    obtain ⟨labels, wiring⟩ := cleared.admitted keeps admission
    obtain ⟨last, adds, keepsSet⟩ := recordSourceCall_ok (wiring.ttl ▸ keeps) recorded
    cases relevant : e.flowRelevant matched with
    | false =>
      have same := keepsSet (.inl relevant)
      refine .of_same (wiring.trans last) (fun key => by rw [same, labels]) fun _ flow => ?_
      simp only [Recorded, outputLabels_of_irrelevant flow relevant, same, labels]
      exact ⟨fun _ _ => by simp, by simp⟩
    | true =>
      obtain ⟨added, valid⟩ := adds relevant (skipFlow_of_relevant relevant)
      have added' : Recorded e req matched w w' := fun key l => by rw [added key l, labels]
      exact ⟨wiring.trans last, fun key l held => (added' key l).mpr (.inl held),
        fun key other l held => ((added' key l).mp held).resolve_right fun own => other own.1,
        fun _ _ => ⟨added', valid⟩, fun denied => absurd rfl denied⟩

end NoIdleExpiry
end Eunox
