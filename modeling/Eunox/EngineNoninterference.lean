import Eunox.CallCounterFrame
import Eunox.EngineLocal

/-! Subjects are kept apart. The keys of two subjects never meet, so a decision
answers by its own subject's part of the stores and changes no other subject's.
Counters and label stores are shared between routes; what they can still leak is
that one of them is full, which is a fault. -/
namespace Eunox
open ByteString CallCounter StateProgram

/-! Keys. -/

theorem Subject.components_inj {s s' : Subject} (size : tail.length = tail'.length)
    (same : s.counterKeyNamespace :: s.anchor.components ++ tail =
      s'.counterKeyNamespace :: s'.anchor.components ++ tail') : s = s' := by
  obtain ⟨ns, kind, id⟩ := s
  obtain ⟨ns', kind', id'⟩ := s'
  have lengths := congrArg List.length same
  cases kind <;> cases kind' <;> simp [StateAnchor.components, size] at same lengths ⊢
  · exact ⟨same.1, same.2.1⟩
  · exact ⟨same.1, same.2.1⟩

/-- No key is owned by two subjects. -/
theorem Subject.Owns.unique {s s' : Subject} (owned : s.Owns key) (owned' : s'.Owns key) : s = s' := by
  obtain ⟨tag, targetType, target, plain, rfl⟩ := owned
  obtain ⟨tag', targetType', target', plain', same⟩ := owned'
  rw [compositeKeyJoin_eq, compositeKeyJoin_eq] at same
  exact Subject.components_inj (by rfl) (compositeKey_inj plain plain' same).2

def Subject.flowKey (s : Subject) : Bytes :=
  compositeKeyJoin (lit "flow") (s.counterKeyNamespace :: s.anchor.components) []

theorem Subject.flowKey_injective : Function.Injective Subject.flowKey := by
  intro s s' same
  unfold Subject.flowKey at same
  rw [compositeKeyJoin_eq, compositeKeyJoin_eq] at same
  exact Subject.components_inj rfl (compositeKey_inj (by decide) (by decide) same).2

theorem Engine.flowKey_eq (e : Engine) (req : EnforceRequest) : e.flowKey req = (e.subject req).flowKey := rfl

theorem sequenceHistoryKey_owned (e : Engine) (req : EnforceRequest) (targetType target : Bytes) :
    (e.subject req).Owns (e.sequenceHistoryKey req targetType target) :=
  ⟨lit "seq", targetType, target, by decide, rfl⟩

/-- The namespaces of accumulated state. -/
inductive StateNamespace where
  | flow
  | sequenceHistory
  | maxCalls
  | blastRadius
  deriving DecidableEq

/-- What a key of the namespace starts with. -/
def StateNamespace.tag : StateNamespace → Bytes
  | .flow => lit "flow"
  | .sequenceHistory => sequenceHistorySpec.tag
  | .maxCalls => maxCallsBucketSpec.tag
  | .blastRadius => blastRadiusBucketSpec.tag

/-- How many components follow the anchor: flow labels are kept per anchor, the others per target. -/
def StateNamespace.arity : StateNamespace → ℕ
  | .flow => 0
  | _ => 2

theorem StateNamespace.tag_plain (n : StateNamespace) : (58 : UInt8) ∉ n.tag := by
  cases n <;> decide

theorem StateNamespace.tag_injective : Function.Injective StateNamespace.tag := by
  intro n n' same
  revert same
  cases n <;> cases n' <;> decide

theorem StateAnchor.eq_iff {a b : StateAnchor} : a = b ↔ a.kind = b.kind ∧ a.id = b.id := by
  cases a
  cases b
  simp

/-- A stored key tells its namespace, its route, its anchor, its tail and its window; the key of a
session is none of a task's. -/
theorem state_keys_never_collide (e e' : Engine) (req req' : EnforceRequest) (n n' : StateNamespace)
    (tail : List.Vector Bytes n.arity) (tail' : List.Vector Bytes n'.arity) (windowSec windowSec' : ℤ) :
    (storageKey (e.anchoredKey n.tag req tail.toList) windowSec =
        storageKey (e'.anchoredKey n'.tag req' tail'.toList) windowSec' ↔
      n.tag = n'.tag ∧ e.counterKeyNamespace = e'.counterKeyNamespace ∧
        (e.resolveAnchor req).kind = (e'.resolveAnchor req').kind ∧
        (e.resolveAnchor req).id = (e'.resolveAnchor req').id ∧
        tail.toList = tail'.toList ∧ windowSec = windowSec') ∧
    ((e.resolveAnchor req).kind = .session → (e'.resolveAnchor req').kind = .task →
      storageKey (e.anchoredKey n.tag req tail.toList) windowSec ≠
        storageKey (e'.anchoredKey n'.tag req' tail'.toList) windowSec') := by
  have exact_ : storageKey (e.anchoredKey n.tag req tail.toList) windowSec =
        storageKey (e'.anchoredKey n'.tag req' tail'.toList) windowSec' ↔
      n.tag = n'.tag ∧ e.subject req = e'.subject req' ∧ tail.toList = tail'.toList ∧ windowSec = windowSec' := by
    rw [storageKey_inj, Engine.anchoredKey, Engine.anchoredKey, compositeKeyJoin_eq, compositeKeyJoin_eq]
    constructor
    · rintro ⟨keys, windows⟩
      obtain ⟨tags, parts⟩ := compositeKey_inj n.tag_plain n'.tag_plain keys
      obtain rfl := StateNamespace.tag_injective tags
      -- One namespace has one arity, so the two lists part at the same place.
      have subjects : e.subject req = e'.subject req' := Subject.components_inj (by simp) parts
      refine ⟨tags, subjects, ?_, windows⟩
      exact (List.append_inj parts (congrArg (fun s => (s.counterKeyNamespace :: s.anchor.components).length)
        subjects)).2
    · rintro ⟨tags, subjects, tails, windows⟩
      rw [tags, tails]
      exact ⟨congrArg (fun s => compositeKey n'.tag ((s.counterKeyNamespace :: s.anchor.components) ++
        tail'.toList)) subjects, windows⟩
  refine ⟨?_, fun session task same => ?_⟩
  · rw [exact_, Engine.subject, Engine.subject, Subject.mk.injEq, StateAnchor.eq_iff]
    simp only [and_assoc]
  · have anchors := congrArg Subject.anchor (exact_.mp same).2.1
    have kinds := congrArg StateAnchor.kind anchors
    exact absurd (session.symm.trans (kinds.trans task)) (by decide)

/-- The storage keys of a subject's counters. -/
def Subject.slots (s : Subject) : Set Bytes := { sk | ∃ key windowSec, s.Owns key ∧ sk = storageKey key windowSec }

theorem Subject.Owns.slot {s : Subject} (owned : s.Owns key) (windowSec : ℤ) :
    storageKey key windowSec ∈ s.slots := ⟨key, windowSec, owned, rfl⟩

theorem Subject.Owns.slot_outside {s other : Subject} (owned : other.Owns key)
    (apart : other ≠ s) (windowSec : ℤ) : storageKey key windowSec ∉ s.slots := by
  rintro ⟨key', windowSec', owned', same⟩
  obtain ⟨rfl, -⟩ := storageKey_inj.mp same
  exact apart (owned.unique owned')

/-! The part of the stores a subject can see. -/

structure Agree (s : Subject) (w w' : World) : Prop where
  labels : FlowLabelStore.Alike s.flowKey w.flowStore w'.flowStore
  counters : Alike s.slots w.counter w'.counter

theorem Agree.refl (keeps : w.flowStore.ttl ≤ 0) : Agree s w w := ⟨.refl keeps, .refl _ _⟩

theorem Agree.trans (first : Agree s w w') (second : Agree s w' w'') : Agree s w w'' :=
  ⟨first.labels.trans second.labels, first.counters.trans second.counters⟩

theorem Agree.symm (agree : Agree s w w') : Agree s w' w :=
  ⟨⟨agree.labels.keeps', agree.labels.keeps, agree.labels.set.symm⟩, agree.counters.symm⟩

theorem Agree.right (agree : Agree s w w') : Agree s w' w' := .refl agree.labels.keeps'

def Faulted (w : World) : Prop := w.faulted = true

variable {e : Engine} {req : EnforceRequest}

/-! Counters that are alike at some slots. -/

section Alike
variable {w w' : World} {slots : Set Bytes}

theorem recordMarker_outside (w : World) (instant : ℤ)
    (outside : storageKey (e.sequenceHistoryKey req targetType target) sequenceHistoryWindowSec ∉ slots) :
    Alike slots w.counter (e.recordMarker instant req targetType target w).2.counter := by
  have elsewhere := incrementAndGet_outside (m := w.counter) instant outside sequenceHistoryMaxEntries
  unfold Engine.recordMarker
  split
  all_goals
    rename_i counted
    rwa [counted] at elsewhere

/-- A marker is written alike, whether its slot is one of them or not. -/
theorem recordMarker_alike (alike : Alike slots w.counter w'.counter) (instant : ℤ) (targetType target : Bytes)
    (good : ¬ Faulted (e.recordMarker instant req targetType target w).2)
    (good' : ¬ Faulted (e.recordMarker instant req targetType target w').2) :
    (e.recordMarker instant req targetType target w').1 = (e.recordMarker instant req targetType target w).1 ∧
      Alike slots (e.recordMarker instant req targetType target w).2.counter
        (e.recordMarker instant req targetType target w').2.counter := by
  have outside (v : World) := @recordMarker_outside e req slots targetType target v instant
  unfold Engine.recordMarker at good good' outside ⊢
  rcases counted : incrementAndGet w.counter instant (e.sequenceHistoryKey req targetType target)
    sequenceHistoryWindowSec sequenceHistoryMaxEntries with ⟨err | n, next⟩
  · simp [counted, Faulted] at good
  rcases counted' : incrementAndGet w'.counter instant (e.sequenceHistoryKey req targetType target)
    sequenceHistoryWindowSec sequenceHistoryMaxEntries with ⟨err | n', next'⟩
  · simp [counted', Faulted] at good'
  refine ⟨rfl, ?_⟩
  by_cases inside : storageKey (e.sequenceHistoryKey req targetType target) sequenceHistoryWindowSec ∈ slots
  · exact (incrementAndGet_alike alike inside counted counted').2
  · have left := outside w inside
    have right := outside w' inside
    rw [counted] at left
    rw [counted'] at right
    exact left.symm.trans (alike.trans right)

theorem admitPending_outside (w : World) (instant : ℤ) (outside : ∀ b ∈ pending, b.bucket.slot ∉ slots) :
    Alike slots w.counter (e.admitPending instant pending w).2.counter := by
  have elsewhere := admitAll_outside (m := w.counter) instant (List.forall_mem_map.mpr outside)
  unfold Engine.admitPending
  split
  · exact .refl _ _
  split
  · exact .refl _ _
  split
  all_goals
    rename_i ran
    rwa [ran] at elsewhere

theorem admitPending_alike (alike : Alike slots w.counter w'.counter) (instant : ℤ)
    (inside : ∀ b ∈ pending, b.bucket.slot ∈ slots)
    (good : ¬ Faulted (e.admitPending instant pending w).2)
    (good' : ¬ Faulted (e.admitPending instant pending w').2) :
    (e.admitPending instant pending w').1 = (e.admitPending instant pending w).1 ∧
      Alike slots (e.admitPending instant pending w).2.counter (e.admitPending instant pending w').2.counter := by
  unfold Engine.admitPending at good good' ⊢
  split_ifs at good good' ⊢
  · exact ⟨rfl, alike⟩
  · exact ⟨rfl, alike⟩
  rcases ran : admitAll w.counter instant (pending.map PendingBucket.bucket) with ⟨err | a, next⟩
  · simp [ran, Faulted] at good
  rcases ran' : admitAll w'.counter instant (pending.map PendingBucket.bucket) with ⟨err | a', next'⟩
  · simp [ran', Faulted] at good'
  obtain ⟨rfl, alike⟩ := admitAll_alike alike (List.forall_mem_map.mpr inside) ran ran'
  exact ⟨rfl, alike⟩

end Alike

variable (instant : ℤ)

theorem recordMarker_stays (targetType target : Bytes) (bad : Faulted w) :
    Faulted (e.recordMarker instant req targetType target w).2 := by
  unfold Engine.recordMarker
  split
  · rfl
  · exact bad

theorem recordLabels_stays (matched : Constraint) (bad : Faulted w) :
    Faulted (e.recordLabels instant req matched w).2 := by
  unfold Engine.recordLabels
  dsimp only
  repeat' split
  all_goals first | exact bad | rfl

theorem peekSessionLabels_stays (bad : Faulted w) : Faulted (e.peekSessionLabels instant req w).2 := by
  unfold Engine.peekSessionLabels
  split
  · exact bad
  · dsimp only
    split <;> exact bad

theorem rollbackLabels_stays (added : List Bytes) (bad : Faulted w) :
    Faulted (e.rollbackLabels instant req added w) := by
  unfold Engine.rollbackLabels
  split
  · exact bad
  split <;> exact bad

theorem admitPending_stays (pending : List PendingBucket) (bad : Faulted w) :
    Faulted (e.admitPending instant pending w).2 := by
  unfold Engine.admitPending
  repeat' split
  all_goals first | exact bad | rfl

/-! Stores that are alike. -/

/-- A relation of label stores that the operations on a key keep. -/
structure LabelCongruence (key : Bytes) (R : FlowLabelStore.InMemory → FlowLabelStore.InMemory → Prop) : Prop where
  get : R m m' → ∀ now, (m'.get now key).1 = (m.get now key).1 ∧ R (m.get now key).2 (m'.get now key).2
  add : R m m' → m.add now key labels = (.ok (), next) → m'.add now key labels = (.ok (), next') → R next next'
  remove : R m m' → ∀ now labels, R (m.remove now key labels) (m'.remove now key labels)

/-- A decision on stores with related labels and with counters alike at some slots answers alike, where the
slots take in the history it reads and the buckets it draws on. -/
theorem local_alike {reads : Prop} {slots : Set Bytes} {Q : Bytes → Prop}
    {L : FlowLabelStore.InMemory → FlowLabelStore.InMemory → Prop}
    {R : World → World → Prop} (e : Engine) (instant : ℤ) (req : EnforceRequest)
    (congruence : LabelCongruence (e.flowKey req) L)
    (stores : ∀ {w w'}, R w w' ↔ L w.flowStore w'.flowStore ∧ Alike slots w.counter w'.counter)
    (markers : reads → ∀ targetType target,
      storageKey (e.sequenceHistoryKey req targetType target) sequenceHistoryWindowSec ∈ slots)
    (keyed : ∀ {key}, Q key → ∀ windowSec, storageKey key windowSec ∈ slots) :
    LocalIf reads e instant req Q (Respects R Faulted) where
  toCompositional := respects_compositional _ _
  labels := by
    refine ⟨fun _ => peekSessionLabels_stays instant, fun w w' related _ _ => ?_⟩
    obtain ⟨labels, counters⟩ := stores.mp related
    obtain ⟨same, next⟩ := congruence.get labels instant
    unfold Engine.peekSessionLabels
    split
    · exact ⟨rfl, related⟩
    dsimp only
    rw [same]
    split <;> exact ⟨rfl, stores.mpr ⟨next, counters⟩⟩
  record := by
    refine fun matched => ⟨fun _ => recordLabels_stays instant matched, fun w w' related good good' => ?_⟩
    obtain ⟨labels, counters⟩ := stores.mp related
    unfold Engine.recordLabels at good good' ⊢
    cases valid : firstUnusable (outputLabels matched.directives) with
    | some err => split <;> exact ⟨rfl, related⟩
    | none =>
      simp only [valid] at good good' ⊢
      split_ifs at good good' ⊢
      iterate 4 exact ⟨rfl, related⟩
      rcases added : w.flowStore.add instant (e.flowKey req)
        (normalizeFlowLabels (outputLabels matched.directives)) with ⟨err | ⟨⟩, next⟩
      · simp [added, Faulted] at good
      rcases added' : w'.flowStore.add instant (e.flowKey req)
        (normalizeFlowLabels (outputLabels matched.directives)) with ⟨err | ⟨⟩, next'⟩
      · simp [added', Faulted] at good'
      exact ⟨rfl, stores.mpr ⟨congruence.add labels added added', counters⟩⟩
  rollback := by
    refine fun added => ⟨fun _ => rollbackLabels_stays instant added, fun w w' related _ _ => ⟨rfl, ?_⟩⟩
    obtain ⟨labels, counters⟩ := stores.mp related
    unfold Engine.rollbackLabels
    split
    · exact related
    split
    · exact related
    · exact stores.mpr ⟨congruence.remove labels instant added, counters⟩
  history := fun reading targetType target => ⟨fun _ => id, fun _ _ related _ _ =>
    ⟨peek_alike (stores.mp related).2 instant (markers reading targetType target), related⟩⟩
  marker := by
    refine fun targetType target => ⟨fun _ => recordMarker_stays instant targetType target,
      fun w w' related good good' => ?_⟩
    obtain ⟨labels, counters⟩ := stores.mp related
    obtain ⟨same, alike⟩ := recordMarker_alike counters instant targetType target good good'
    refine ⟨same, stores.mpr ⟨?_, alike⟩⟩
    rwa [recordMarker_flowStore, recordMarker_flowStore]
  fault := ⟨fun _ _ => rfl, fun _ _ _ good _ => absurd rfl good⟩
  admission := by
    refine fun pending owned => ⟨fun _ => admitPending_stays instant pending, fun w w' related good good' => ?_⟩
    obtain ⟨labels, counters⟩ := stores.mp related
    obtain ⟨same, alike⟩ := admitPending_alike counters instant (fun b mem => keyed (owned b mem) _) good good'
    refine ⟨same, stores.mpr ⟨?_, alike⟩⟩
    rwa [admitPending_flowStore, admitPending_flowStore]

/-- A decision answers by its own subject's part of the stores. -/
theorem local_respects (e : Engine) (instant : ℤ) (req : EnforceRequest) :
    LocalIf True e instant req (e.subject req).Owns (Respects (Agree (e.subject req)) Faulted) :=
  local_alike e instant req
    ⟨FlowLabelStore.get_alike, fun alike => FlowLabelStore.add_alike alike, FlowLabelStore.remove_alike⟩
    ⟨fun agree => ⟨agree.labels, agree.counters⟩, fun both => ⟨both.1, both.2⟩⟩
    (fun _ targetType target => (sequenceHistoryKey_owned e req targetType target).slot _) Subject.Owns.slot

/-! The same labels, and counters that are alike at some slots. -/

structure SameStores (slots : Set Bytes) (w w' : World) : Prop where
  labels : w'.flowStore = w.flowStore
  counters : Alike slots w.counter w'.counter

theorem SameStores.refl (slots : Set Bytes) (w : World) : SameStores slots w w := ⟨rfl, .refl _ _⟩

theorem SameStores.trans (first : SameStores slots w w') (second : SameStores slots w' w'') :
    SameStores slots w w'' :=
  ⟨second.labels.trans first.labels, first.counters.trans second.counters⟩

theorem local_sameStores {reads : Prop} {slots : Set Bytes} (e : Engine) (instant : ℤ) (req : EnforceRequest)
    (markers : reads → ∀ targetType target,
      storageKey (e.sequenceHistoryKey req targetType target) sequenceHistoryWindowSec ∈ slots) :
    LocalIf reads e instant req (fun key => ∀ windowSec, storageKey key windowSec ∈ slots)
      (Respects (SameStores slots) Faulted) := by
  have congruence : LabelCongruence (e.flowKey req) fun m m' => m' = m := by
    refine ⟨?_, fun same added added' => ?_, ?_⟩
    · rintro m _ rfl now
      exact ⟨rfl, rfl⟩
    · subst same
      exact congrArg Prod.snd (added'.symm.trans added)
    · rintro m _ rfl now labels
      rfl
  exact local_alike e instant req congruence
    ⟨fun same => ⟨same.labels, same.counters⟩, fun both => ⟨both.1, both.2⟩⟩ markers id

/-- A decision of another subject is not seen. -/
theorem local_hidden {s : Subject} (apart : e.subject req ≠ s) :
    LocalIf True e instant req (e.subject req).Owns (Hidden (Agree s)) where
  toCompositional := hidden_compositional Agree.trans Agree.right
  labels := by
    intro w agree
    unfold Engine.peekSessionLabels
    split
    · exact agree
    have elsewhere := FlowLabelStore.get_outside (Subject.flowKey_injective.ne apart.symm)
      agree.labels.keeps instant
    dsimp only
    split <;> exact ⟨elsewhere, agree.counters⟩
  record := by
    intro matched w agree
    have elsewhere := FlowLabelStore.add_outside (Subject.flowKey_injective.ne apart.symm)
      agree.labels.keeps instant (normalizeFlowLabels (outputLabels matched.directives))
    rw [← Engine.flowKey_eq] at elsewhere
    unfold Engine.recordLabels
    dsimp only
    repeat' split
    all_goals first | exact agree | skip
    all_goals
      rename_i added
      rw [added] at elsewhere
      exact ⟨elsewhere, agree.counters⟩
  rollback := by
    intro added w agree
    unfold Engine.rollbackLabels
    split
    · exact agree
    split
    · exact agree
    · exact ⟨FlowLabelStore.remove_outside (Subject.flowKey_injective.ne apart.symm)
        agree.labels.keeps instant added, agree.counters⟩
  history := fun _ _ _ _ agree => agree
  marker := by
    intro targetType target w agree
    refine ⟨?_, recordMarker_outside w instant ((sequenceHistoryKey_owned e req targetType target).slot_outside
      apart sequenceHistoryWindowSec)⟩
    rw [recordMarker_flowStore]
    exact agree.labels
  fault := fun _ agree => ⟨agree.labels, agree.counters⟩
  admission := by
    intro pending owned w agree
    refine ⟨?_, admitPending_outside w instant fun b mem => (owned b mem).slot_outside apart _⟩
    rw [admitPending_flowStore]
    exact agree.labels

end Eunox
