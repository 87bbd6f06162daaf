import Eunox.CallCounterMemory
import Eunox.KeyedFold

/-! What one call to the in-process counter can do, key by key. A batch is read
and written bucket by bucket over a shared map; since its storage keys are
distinct, every bucket acts on the map as it stood before the call, and a key
outside the batch keeps its entry. -/
namespace Eunox.CallCounter
open ByteString

/-- The storage key a bucket addresses. -/
def QuotaBucket.slot (b : QuotaBucket) : Bytes := storageKey b.key b.windowSec

/-- A bucket as the batch reads it from the state before the call. -/
def bucketState (now : ℤ) (m : InMemory) (b : QuotaBucket) : BucketState := (readBucket now m b).2

theorem lookup_store (m : InMemory) (sk sk' : Bytes) (e : Entry) :
    (m.store sk e).entries.lookup sk' = if sk' = sk then some e else m.entries.lookup sk' := by
  by_cases same : sk' = sk
  · subst sk'
    simp [InMemory.store]
  · simp [InMemory.store, same]

section Reads
variable (now : ℤ) (m : InMemory)

@[simp] theorem bucketState_b (b : QuotaBucket) : (bucketState now m b).b = b := by
  unfold bucketState readBucket
  cases m.entries.lookup (storageKey b.key b.windowSec) <;> rfl

@[simp] theorem bucketState_sk (b : QuotaBucket) : (bucketState now m b).sk = b.slot := by
  unfold bucketState readBucket
  cases m.entries.lookup (storageKey b.key b.windowSec) <;> rfl

/-- Reading a bucket prunes its own entry and leaves the others. -/
theorem readBucket_lookup (b : QuotaBucket) (sk : Bytes) :
    (readBucket now m b).1.entries.lookup sk = if sk = b.slot then
        (m.entries.lookup sk).map fun e => pruneEntry e (now - windowNanos b.windowSec)
      else m.entries.lookup sk := by
  unfold readBucket QuotaBucket.slot
  cases held : m.entries.lookup (storageKey b.key b.windowSec) with
  | none =>
    by_cases same : sk = storageKey b.key b.windowSec
    · subst sk
      simp [held]
    · simp [same]
  | some e =>
    rw [lookup_store]
    by_cases same : sk = storageKey b.key b.windowSec
    · subst sk
      simp [held]
    · simp [same]

variable {now m} in
/-- What a bucket reads depends only on its own entry. -/
theorem bucketState_congr (same : m'.entries.lookup b.slot = m.entries.lookup b.slot) :
    bucketState now m' b = bucketState now m b := by
  unfold QuotaBucket.slot at same
  unfold bucketState readBucket
  rw [same]
  cases m.entries.lookup (storageKey b.key b.windowSec) <;> rfl

/-- The entries a counter holds, key by key. -/
def InMemory.entryAt (m : InMemory) (sk : Bytes) : Option Entry := m.entries.lookup sk

theorem readBuckets_fold (buckets : List QuotaBucket) :
    (readBuckets now m buckets).1 = buckets.foldl (fun m b => (readBucket now m b).1) m := by
  induction buckets generalizing m with
  | nil => rfl
  | cons b rest ih => exact ih _

private theorem readBucket_frame (now : ℤ) (m : InMemory) (b : QuotaBucket) (sk : Bytes)
    (other : sk ≠ b.slot) : (readBucket now m b).1.entryAt sk = m.entryAt sk :=
  (readBucket_lookup now m b sk).trans (if_neg other)

theorem readBuckets_other (buckets : List QuotaBucket) (sk : Bytes)
    (outside : ∀ b ∈ buckets, b.slot ≠ sk) :
    (readBuckets now m buckets).1.entries.lookup sk = m.entries.lookup sk := by
  rw [readBuckets_fold]
  exact KeyedFold.apart InMemory.entryAt _ _ (readBucket_frame now) outside m

/-- Distinct storage keys, as `checkDistinctBuckets` demands. -/
def Distinct (buckets : List QuotaBucket) : Prop := (buckets.map QuotaBucket.slot).Nodup

theorem Distinct.tail (distinct : Distinct (b :: rest)) : Distinct rest := (List.nodup_cons.mp distinct).2

theorem Distinct.head (distinct : Distinct (b :: rest)) : ∀ c ∈ rest, c.slot ≠ b.slot := by
  intro c mem same
  exact (List.nodup_cons.mp distinct).1 (same ▸ List.mem_map_of_mem mem)

theorem readBuckets_inside (distinct : Distinct buckets) (mem : b ∈ buckets) :
    (readBuckets now m buckets).1.entries.lookup b.slot =
      (m.entries.lookup b.slot).map fun e => pruneEntry e (now - windowNanos b.windowSec) := by
  rw [readBuckets_fold]
  exact KeyedFold.own InMemory.entryAt _ _ (readBucket_frame now)
    (fun b before after => after = before.map fun e => pruneEntry e (now - windowNanos b.windowSec))
    (fun m b => (readBucket_lookup now m b b.slot).trans (if_pos rfl)) distinct mem m

/-- Every bucket of a batch reads the state before the call. -/
theorem readBuckets_states (distinct : Distinct buckets) :
    (readBuckets now m buckets).2 = buckets.map (bucketState now m) := by
  induction buckets generalizing m with
  | nil => rfl
  | cons b rest ih =>
    simp only [readBuckets]
    rw [ih _ distinct.tail]
    refine congrArg₂ _ rfl (List.map_congr_left fun c mem => ?_)
    exact bucketState_congr (by rw [readBucket_lookup, if_neg (distinct.head c mem)])

end Reads

theorem commitBucket_other (outside : st.sk ≠ sk) :
    (commitBucket now m st).entries.lookup sk = m.entries.lookup sk := by
  unfold commitBucket
  split
  · rw [lookup_store, if_neg (Ne.symm outside)]
  · rfl

private theorem commitBucket_frame (now : ℤ) (m : InMemory) (st : BucketState) (sk : Bytes)
    (other : sk ≠ st.sk) : (commitBucket now m st).entryAt sk = m.entryAt sk :=
  commitBucket_other (Ne.symm other)

/-- An admitted batch leaves the keys it does not name. -/
theorem commit_other {buckets : List QuotaBucket} (now : ℤ) (m : InMemory) (outside : ∀ b ∈ buckets, b.slot ≠ sk) :
    ((buckets.map (bucketState now m)).foldl (commitBucket now) (readBuckets now m buckets).1).entries.lookup sk =
      m.entries.lookup sk := by
  refine .trans (KeyedFold.apart InMemory.entryAt BucketState.sk _ (commitBucket_frame now) (fun st held => ?_) _)
    (readBuckets_other now m buckets sk outside)
  obtain ⟨b, mem, rfl⟩ := List.mem_map.mp held
  exact bucketState_sk now m b ▸ outside b mem

theorem commit_inside (now : ℤ) (m : InMemory) (distinct : Distinct buckets) (mem : b ∈ buckets) :
    ((buckets.map (bucketState now m)).foldl (commitBucket now) (readBuckets now m buckets).1).entries.lookup b.slot =
      if (bucketState now m b).record then some ((bucketState now m b).committed now)
      else (m.entries.lookup b.slot).map fun e => pruneEntry e (now - windowNanos b.windowSec) := by
  have slots : ((buckets.map (bucketState now m)).map BucketState.sk).Nodup := by
    rw [List.map_map, show BucketState.sk ∘ bucketState now m = QuotaBucket.slot from funext (bucketState_sk now m)]
    exact distinct
  have written (m : InMemory) (st : BucketState) : (commitBucket now m st).entryAt st.sk =
      if st.record then some (st.committed now) else m.entryAt st.sk := by
    unfold commitBucket
    split
    · exact (lookup_store ..).trans (if_pos rfl)
    · rfl
  have change := KeyedFold.own InMemory.entryAt BucketState.sk _ (commitBucket_frame now)
    (fun st before after => after = if st.record then some (st.committed now) else before)
    written slots (List.mem_map_of_mem mem) (readBuckets now m buckets).1
  rw [bucketState_sk, InMemory.entryAt, InMemory.entryAt, readBuckets_inside now m distinct mem] at change
  exact change

/-! ## What the checks establish -/

theorem checkWindowSec_ok (valid : checkWindowSec windowSec = .ok ()) :
    1 ≤ windowSec ∧ windowSec ≤ maxWindowSeconds := by
  unfold checkWindowSec at valid
  split at valid
  · cases valid
  · split at valid
    · cases valid
    · omega

theorem checkMaxEntries_ok (valid : checkMaxEntries maxEntries = .ok ()) :
    1 ≤ maxEntries ∧ maxEntries ≤ maxEntriesCap := by
  unfold checkMaxEntries at valid
  split at valid
  · cases valid
  · split at valid
    · cases valid
    · omega

theorem except_bind_ok {ε α β : Type} {x : Except ε α} {f : α → Except ε β} {b : β} (ran : (x >>= f) = .ok b) :
    ∃ a, x = .ok a ∧ f a = .ok b := by
  cases x with
  | error e => cases ran
  | ok a => exact ⟨a, rfl, ran⟩

theorem checkBucket_ok (valid : checkBucket b = .ok ()) :
    checkWindowSec b.windowSec = .ok () ∧ checkTotalLimit b.limit = .ok () ∧
      (b.counted = true → checkCountedLimit b.limit = .ok ()) ∧
      (b.counted = false → checkWeight b.weight = .ok ()) := by
  obtain ⟨⟨⟩, window, valid⟩ := except_bind_ok valid
  obtain ⟨⟨⟩, limit, last⟩ := except_bind_ok valid
  refine ⟨window, limit, fun counted => ?_, fun weighted => ?_⟩
  · simpa [counted] using last
  · simpa [weighted] using last

/-- A limit that passes is a positive number up to `2 ^ 53`. -/
theorem checkTotalLimit_ok (valid : checkTotalLimit limit = .ok ()) :
    ∃ value representable, limit = .finite value representable ∧ 0 < value ∧ value ≤ 2 ^ 53 := by
  cases limit with
  | nan => simp [checkTotalLimit, Binary64.isNaN] at valid
  | infinite negative => simp [checkTotalLimit, Binary64.isInf] at valid
  | finite value representable =>
    refine ⟨value, representable, rfl, ?_⟩
    simp only [checkTotalLimit, Binary64.isNaN, Binary64.isInf, maxWeightedTotal, Binary64.le,
      Binary64.ofNat_eq_finite (n := 0) (by norm_num),
      Binary64.ofNat_eq_finite (n := 2 ^ 53) (by norm_num), Binary64.lt, Binary64.eq] at valid
    split_ifs at valid with infinite low high
    simp only [Bool.or_eq_true, decide_eq_true_eq, not_or, not_lt] at low high
    exact ⟨lt_of_le_of_ne low.1 (Ne.symm low.2), by exact_mod_cast high⟩

/-- A counted limit that passes is a whole number of calls. -/
theorem checkCountedLimit_ok (total : checkTotalLimit limit = .ok ()) (valid : checkCountedLimit limit = .ok ()) :
    ∃ n : ℕ, 1 ≤ n ∧ n ≤ 2 ^ 53 ∧ limit = .ofNat n := by
  obtain ⟨value, representable, rfl, positive, small⟩ := checkTotalLimit_ok total
  have floor : (Binary64.finite value representable).toInt = ⌊value⌋ := if_pos positive.le
  have range : |⌊value⌋| ≤ 2 ^ 53 := by
    have nonneg : 0 ≤ ⌊value⌋ := Int.floor_nonneg.mpr positive.le
    rw [abs_of_nonneg nonneg]
    exact_mod_cast (Int.floor_le value).trans small
  have truncated : (Binary64.finite value representable).trunc = .finite ⌊value⌋ (Binary64.representable_intCast range) := by
    rw [Binary64.trunc, floor]
    exact Binary64.ofInt_eq_finite range
  simp only [checkCountedLimit, truncated, Binary64.ofNat_eq_finite (n := 1) (by norm_num),
    Binary64.lt, Binary64.eq] at valid
  split_ifs at valid with low whole
  simp only [Nat.cast_one, decide_eq_true_eq, not_lt, Bool.not_eq_true', decide_eq_false_iff_not,
    not_not] at low whole
  have nonneg : 0 ≤ ⌊value⌋ := Int.floor_nonneg.mpr positive.le
  obtain ⟨n, count⟩ := Int.eq_ofNat_of_zero_le nonneg
  rw [count] at whole
  have held : value = (n : ℚ) := by exact_mod_cast whole
  subst held
  have fits : n ≤ 2 ^ 53 := by exact_mod_cast small
  exact ⟨n, by exact_mod_cast low, fits, (Binary64.ofNat_eq_finite fits).symm⟩

theorem checkBuckets_ok (valid : checkBuckets buckets = .ok ()) :
    buckets ≠ [] ∧ (∀ b ∈ buckets, checkBucket b = .ok ()) ∧ Distinct buckets := by
  have checked : ∀ l : List QuotaBucket, l.forM checkBucket = (.ok () : Except CounterError Unit) →
      ∀ b ∈ l, checkBucket b = .ok () := by
    intro l
    induction l with
    | nil => simp
    | cons c rest ih =>
      intro run
      obtain ⟨⟨⟩, first, run⟩ := except_bind_ok run
      exact List.forall_mem_cons.mpr ⟨first, ih run⟩
  unfold checkBuckets at valid
  split at valid
  · cases valid
  rename_i nonempty
  obtain ⟨⟨⟩, each, distinct⟩ := except_bind_ok valid
  refine ⟨by simpa using nonempty, checked buckets each, ?_⟩
  unfold checkDistinctBuckets at distinct
  split at distinct
  · assumption
  · cases distinct

theorem findIdx?_congr {α : Type} {p q : α → Bool} {l : List α}
    (same : ∀ x ∈ l, p x = q x) : l.findIdx? p = l.findIdx? q := by
  induction l with
  | nil => rfl
  | cons x rest ih =>
    rw [List.findIdx?_cons, List.findIdx?_cons, same x (by simp), ih fun y mem => same y (by simp [mem])]

theorem findIdx?_of_find? {α : Type} {p : α → Bool} {l : List α} {x : α} (found : l.find? p = some x) :
    ∃ index, l.findIdx? p = some index := by
  apply Option.isSome_iff_exists.mp
  rw [List.findIdx?_isSome, List.any_eq_true]
  exact ⟨x, List.mem_of_find?_eq_some found, List.find?_some found⟩

variable (now : ℤ) (buckets : List QuotaBucket) (m pruned : InMemory) (states : List BucketState) in
/-- Everything `AdmitAll` can do: refuse an invalid batch untouched, prune and
report a blocked bucket or a full ceiling, or commit every bucket. -/
inductive Admits : Except CounterError Admission → InMemory → Prop
  | invalid (bad : checkBuckets buckets = .error e) : Admits (.error e) m
  | blocked (valid : checkBuckets buckets = .ok ()) (place : states.findIdx? BucketState.blocked = some index)
      (found : states.find? BucketState.blocked = some st) :
      Admits (.ok ⟨false, index, st.cur,
        bucketRetryAfter st.b st.valid st.weights st.cur st.window now⟩) pruned
  | full (valid : checkBuckets buckets = .ok ()) (free : ∀ st ∈ states, st.blocked = false)
      (past : pruned.checkCeilings states = .error e) : Admits (.error e) pruned
  | admitted (valid : checkBuckets buckets = .ok ()) (free : ∀ st ∈ states, st.blocked = false)
      (room : pruned.checkCeilings states = .ok ()) : Admits
        (.ok ⟨true, 0, maxPost states, 0⟩) (states.foldl (commitBucket now) pruned)

theorem admitAll_admits (ran : admitAll m clock buckets = (result, m')) :
    Admits (floorToMicro clock) buckets m (readBuckets (floorToMicro clock) m buckets).1
      (buckets.map (bucketState (floorToMicro clock) m)) result m' := by
  cases valid : checkBuckets buckets with
  | error e =>
    rw [admitAll, valid] at ran
    cases ran
    exact .invalid valid
  | ok u =>
    have states := readBuckets_states (floorToMicro clock) m (checkBuckets_ok valid).2.2
    simp only [admitAll, valid, states] at ran
    cases found : (buckets.map (bucketState (floorToMicro clock) m)).find? BucketState.blocked with
    | some st =>
      obtain ⟨index, place⟩ := findIdx?_of_find? found
      simp only [found, place] at ran
      cases ran
      exact .blocked valid place found
    | none =>
      have free := List.find?_eq_none.mp found
      split at ran
      · rename_i other
        cases found.symm.trans other
      split at ran
      · cases ran
        exact .full valid (by simpa using free) ‹_›
      · cases ran
        exact .admitted valid (by simpa using free) ‹_›

/-- Two counters that agree on a set of storage keys. -/
structure Alike (slots : Set Bytes) (m m' : InMemory) : Prop where
  weighted : m'.maxWeightedEntries = m.maxWeightedEntries
  entries : ∀ sk ∈ slots, m'.entries.lookup sk = m.entries.lookup sk

section Alike
variable {slots : Set Bytes} {m m' : InMemory}

theorem Alike.refl (slots : Set Bytes) (m : InMemory) : Alike slots m m := ⟨rfl, fun _ _ => rfl⟩

theorem Alike.symm (alike : Alike slots m m') : Alike slots m' m :=
  ⟨alike.weighted.symm, fun sk mem => (alike.entries sk mem).symm⟩

theorem Alike.trans (first : Alike slots m m') (second : Alike slots m' m'') : Alike slots m m'' :=
  ⟨second.weighted.trans first.weighted, fun sk mem => (second.entries sk mem).trans (first.entries sk mem)⟩

theorem Alike.store (alike : Alike slots m m') (sk : Bytes) (e : Entry) :
    Alike slots (m.store sk e) (m'.store sk e) := by
  refine ⟨alike.weighted, fun sk' mem => ?_⟩
  rw [lookup_store, lookup_store, alike.entries sk' mem]

/-- A write elsewhere is not seen. -/
theorem Alike.store_outside (outside : sk ∉ slots) (e : Entry) : Alike slots m (m.store sk e) := by
  refine ⟨rfl, fun sk' mem => ?_⟩
  have elsewhere : sk' ≠ sk := fun same => outside (same ▸ mem)
  rw [lookup_store, if_neg elsewhere]

/-- Everything counting can do: refuse untouched, or write the key's entry. -/
theorem incrementAndGet_cases (m : InMemory) (clock : ℤ) (key : Bytes) (windowSec maxEntries : ℤ) :
    (∃ e, incrementAndGet m clock key windowSec maxEntries = (.error e, m)) ∨
    checkWindowSec windowSec = .ok () ∧ checkMaxEntries maxEntries = .ok () ∧
      let e := incrementEntry ((m.entries.lookup (storageKey key windowSec)).getD ⟨[], windowSec, none⟩)
        (floorToMicro clock) windowSec maxEntries
      incrementAndGet m clock key windowSec maxEntries =
        (.ok e.timestamps.length, m.store (storageKey key windowSec) e) := by
  unfold incrementAndGet
  split
  · exact .inl ⟨_, rfl⟩
  · exact .inl ⟨_, rfl⟩
  rename_i window entries
  dsimp only
  cases m.entries.lookup (storageKey key windowSec) with
  | some e => exact .inr ⟨window, entries, rfl⟩
  | none =>
    cases m.admitNewKey with
    | error e => exact .inl ⟨e, rfl⟩
    | ok u => exact .inr ⟨window, entries, rfl⟩

/-- Counting answers alike where neither counter is at its key ceiling. -/
theorem incrementAndGet_alike (alike : Alike slots m m') (inside : storageKey key windowSec ∈ slots)
    (ran : incrementAndGet m clock key windowSec maxEntries = (.ok n, next))
    (ran' : incrementAndGet m' clock key windowSec maxEntries = (.ok n', next')) :
    n' = n ∧ Alike slots next next' := by
  rcases incrementAndGet_cases m clock key windowSec maxEntries with ⟨e, failed⟩ | ⟨-, -, counted⟩
  · cases failed.symm.trans ran
  rcases incrementAndGet_cases m' clock key windowSec maxEntries with ⟨e, failed⟩ | ⟨-, -, counted'⟩
  · cases failed.symm.trans ran'
  rw [alike.entries _ inside] at counted'
  cases counted.symm.trans ran
  cases counted'.symm.trans ran'
  exact ⟨rfl, alike.store _ _⟩

theorem incrementAndGet_outside (clock : ℤ) (outside : storageKey key windowSec ∉ slots) (maxEntries : ℤ) :
    Alike slots m (incrementAndGet m clock key windowSec maxEntries).2 := by
  rcases incrementAndGet_cases m clock key windowSec maxEntries with ⟨e, same⟩ | ⟨-, -, counted⟩
  · rw [same]
    exact .refl slots m
  · rw [counted]
    exact .store_outside outside _

theorem peek_alike (alike : Alike slots m m') (clock : ℤ) (inside : storageKey key windowSec ∈ slots) :
    peek m' clock key windowSec = peek m clock key windowSec := by
  unfold peek
  rw [alike.entries _ inside]

theorem foldl_limits {α : Type} {f : InMemory → α → InMemory} (each : ∀ m x, (f m x).maxKeys = m.maxKeys ∧
      (f m x).maxWeightedEntries = m.maxWeightedEntries) (l : List α) (m : InMemory) :
    (l.foldl f m).maxKeys = m.maxKeys ∧ (l.foldl f m).maxWeightedEntries = m.maxWeightedEntries := by
  induction l generalizing m with
  | nil => exact ⟨rfl, rfl⟩
  | cons x rest ih => exact ⟨(ih _).1.trans (each m x).1, (ih _).2.trans (each m x).2⟩

theorem readBuckets_limits (now : ℤ) (buckets : List QuotaBucket) (m : InMemory) :
    (readBuckets now m buckets).1.maxKeys = m.maxKeys ∧
      (readBuckets now m buckets).1.maxWeightedEntries = m.maxWeightedEntries := by
  rw [readBuckets_fold]
  refine foldl_limits (fun m b => ?_) buckets m
  unfold readBucket
  split <;> exact ⟨rfl, rfl⟩

theorem commit_limits (now : ℤ) (states : List BucketState) (m : InMemory) :
    (states.foldl (commitBucket now) m).maxKeys = m.maxKeys ∧
      (states.foldl (commitBucket now) m).maxWeightedEntries = m.maxWeightedEntries := by
  refine foldl_limits (fun m st => ?_) states m
  unfold commitBucket
  split <;> exact ⟨rfl, rfl⟩

/-- Pruning alike counters for one batch leaves them alike. -/
theorem readBuckets_alike (alike : Alike slots m m') (now : ℤ) (distinct : Distinct buckets) :
    Alike slots (readBuckets now m buckets).1 (readBuckets now m' buckets).1 := by
  refine ⟨?_, fun sk mem => ?_⟩
  · rw [(readBuckets_limits ..).2, (readBuckets_limits ..).2, alike.weighted]
  · by_cases batch : ∃ b ∈ buckets, b.slot = sk
    · obtain ⟨b, inBatch, rfl⟩ := batch
      rw [readBuckets_inside now m distinct inBatch, readBuckets_inside now m' distinct inBatch,
        alike.entries _ mem]
    · push Not at batch
      rw [readBuckets_other now m buckets sk batch, readBuckets_other now m' buckets sk batch, alike.entries _ mem]

theorem commit_alike (now : ℤ) {states : List BucketState} (alike : Alike slots m m') :
    Alike slots (states.foldl (commitBucket now) m) (states.foldl (commitBucket now) m') := by
  induction states generalizing m m' with
  | nil => exact alike
  | cons st rest ih =>
    refine ih ?_
    unfold commitBucket
    split
    · exact alike.store _ _
    · exact alike

/-- A batch is answered alike where neither counter is at a retention ceiling. -/
theorem admitAll_alike (alike : Alike slots m m') (inside : ∀ b ∈ buckets, b.slot ∈ slots)
    (ran : admitAll m clock buckets = (.ok a, next)) (ran' : admitAll m' clock buckets = (.ok a', next')) :
    a' = a ∧ Alike slots next next' := by
  cases valid : checkBuckets buckets with
  | error e => simp [admitAll, valid] at ran
  | ok u =>
    have distinct := (checkBuckets_ok valid).2.2
    have states : buckets.map (bucketState (floorToMicro clock) m') =
        buckets.map (bucketState (floorToMicro clock) m) :=
      List.map_congr_left fun b mem => bucketState_congr (alike.entries _ (inside b mem))
    have pruned := readBuckets_alike alike (floorToMicro clock) distinct
    simp only [admitAll, valid, readBuckets_states _ _ distinct] at ran ran'
    rw [states] at ran'
    split at ran
    · simp only [*] at ran'
      cases ran
      cases ran'
      exact ⟨rfl, pruned⟩
    · split at ran'
      · rename_i blocked _ _ _ _ index found
        exact absurd found (blocked _ _ index)
      · split at ran
        · cases ran
        split at ran'
        · cases ran'
        · cases ran
          cases ran'
          exact ⟨rfl, commit_alike _ pruned⟩

/-- A batch elsewhere is not seen. -/
theorem admitAll_outside (clock : ℤ) (outside : ∀ b ∈ buckets, b.slot ∉ slots) :
    Alike slots m (admitAll m clock buckets).2 := by
  have pruned : Alike slots m (readBuckets (floorToMicro clock) m buckets).1 := by
    refine ⟨(readBuckets_limits _ buckets m).2, fun sk mem => ?_⟩
    exact readBuckets_other _ m buckets sk fun b inBatch same => outside b inBatch (same ▸ mem)
  rcases ran : admitAll m clock buckets with ⟨result, last⟩
  cases admitAll_admits ran with
  | invalid => exact .refl slots m
  | blocked => exact pruned
  | full => exact pruned
  | admitted =>
    refine ⟨(commit_limits _ _ _).2.trans pruned.weighted, fun sk mem => ?_⟩
    exact commit_other _ m fun b inBatch same => outside b inBatch (same ▸ mem)

end Alike
end Eunox.CallCounter
