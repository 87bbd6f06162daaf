import Eunox.CallCounterTotals

/-! Sliding-window quota safety of the in-process counter over whole runs. A
run interleaves admissions, counting calls, reads and the locked delete batches
of background sweeps, each at its own clock reading. The ledger is independent
of the store: it lists every call of every admitted batch. What the store
forgets by pruning, trimming or reclaiming never lets the ledger exceed a
bucket's limit in any window, as long as counting calls on that bucket keep at
least as many entries as the limit admits. -/
namespace Eunox.QuotaSafety
open ByteString SlidingWindow CallCounter

inductive Operation where
  | admitAll (buckets : List QuotaBucket)
  | incrementAndGet (key : Bytes) (windowSec maxEntries : ℤ)
  | peek (key : Bytes) (windowSec : ℤ)
  /-- One locked batch of a sweep; its keys were collected at any earlier time. -/
  | cleanupBatch (keys : List Bytes)

structure Event where
  clock : ℤ
  op : Operation

/-- The instant an event is counted at. -/
abbrev Event.now (ev : Event) : ℤ := floorToMicro ev.clock

def step (m : InMemory) (ev : Event) : InMemory :=
  match ev.op with
  | .admitAll buckets => (CallCounter.admitAll m ev.clock buckets).2
  | .incrementAndGet key windowSec maxEntries => (CallCounter.incrementAndGet m ev.clock key windowSec maxEntries).2
  | .peek _ _ => m
  | .cleanupBatch keys => CallCounter.cleanupBatch m ev.clock keys

def run (m : InMemory) (events : List Event) : InMemory := events.foldl step m

/-- One call of an admitted batch, with the counter it was decided on. -/
structure Admitted where
  instant : ℤ
  bucket : QuotaBucket
  prior : InMemory

/-- The calls an event admits. -/
def granted (m : InMemory) (ev : Event) : List Admitted :=
  match ev.op with
  | .admitAll buckets =>
    match (CallCounter.admitAll m ev.clock buckets).1 with
    | .ok reply => if reply.admitted then buckets.map (⟨floorToMicro ev.clock, ·, m⟩) else []
    | .error _ => []
  | _ => []

/-- Everything a run admits, in order. -/
def ledger : InMemory → List Event → List Admitted
  | _, [] => []
  | m, ev :: rest => granted m ev ++ ledger (step m ev) rest

/-- A bucket address together with the accounting it is admitted under. -/
structure Account where
  key : Bytes
  windowSec : ℤ
  counted : Bool

def Account.slot (a : Account) : Bytes := storageKey a.key a.windowSec

def Account.owns (a : Account) (b : QuotaBucket) : Bool :=
  b.key = a.key ∧ b.windowSec = a.windowSec ∧ b.counted = a.counted

/-- The timed amounts a ledger charges to one account. -/
def Account.charges (a : Account) (entries : List Admitted) : List (ℤ × ℕ) :=
  (entries.filter fun g => a.owns g.bucket).map fun g => (g.instant, amount a.counted (bucketWeight g.bucket))

/-- What an event may write under the account's key: a call it admits there, under either accounting, or one it counts. -/
def Account.writes (a : Account) (m : InMemory) (ev : Event) : List (ℤ × ℕ) :=
  ((granted m ev).filter fun g => g.bucket.slot = a.slot).map (fun g => (g.instant, amount a.counted (bucketWeight g.bucket))) ++
    match ev.op with
    | .incrementAndGet key windowSec _ => if storageKey key windowSec = a.slot then [(floorToMicro ev.clock, 1)] else []
    | _ => []

def Account.written (a : Account) : InMemory → List Event → List (ℤ × ℕ)
  | _, [] => []
  | m, ev :: rest => a.writes m ev ++ a.written (step m ev) rest

/-- What a bucket's window holds before a call, plus the call's own part. -/
def attempted (m : InMemory) (now : ℤ) (b : QuotaBucket) : ℕ :=
  after (now - windowNanos b.windowSec) (m.calls b.counted b.slot) +
    amount b.counted (bucketWeight b)

/-- Whether the integer comparison with the limit is within what doubles hold:
the limit lies below `2 ^ 53`, or the total does not pass it. -/
def Exact (limit : ℚ) (total : ℕ) : Prop := limit < 2 ^ 53 ∨ total ≤ 2 ^ 53

/-- A weight that is a whole number. -/
def Whole (weight : Binary64) : Prop := ∃ n : ℕ, n ≤ 2 ^ 53 ∧ weight = .ofNat n

/-- The weights the account is admitted under are whole. -/
def Account.Whole (a : Account) (entries : List Admitted) : Prop :=
  ∀ g ∈ entries, a.owns g.bucket = true → a.counted = false → QuotaSafety.Whole g.bucket.weight

/-! ## Headroom -/

theorem whole_bucketWeight (whole : b.counted = false → Whole b.weight) :
    ∃ n : ℕ, n ≤ 2 ^ 53 ∧ bucketWeight b = .ofNat n ∧ amount b.counted (bucketWeight b) = n := by
  unfold bucketWeight
  cases accounting : b.counted with
  | true => exact ⟨1, by norm_num, rfl, rfl⟩
  | false =>
    obtain ⟨n, small, weight⟩ := whole accounting
    exact ⟨n, small, by simpa using weight, by simp [amount, weight, wholeAmount_ofNat small]⟩

theorem post_tracks (sound : SoundAt m b.counted b.slot) (whole : b.counted = false → Whole b.weight) :
    Binary64.Tracks (attempted m now b) (bucketState now m b).post := by
  obtain ⟨n, small, weight, same⟩ := whole_bucketWeight whole
  unfold attempted BucketState.post
  rw [bucketState_b, weight, ← weight, same, weight]
  exact (bucketState_tracks now sound).add small

/-- A bucket is blocked exactly when its window total plus its own call passes
its limit. -/
theorem blocked_iff (bound : b.limit = .finite limit representable)
    (sound : SoundAt m b.counted b.slot) (whole : b.counted = false → Whole b.weight)
    (precise : Exact limit (attempted m now b)) :
    (bucketState now m b).blocked = true ↔ limit < attempted m now b := by
  unfold BucketState.blocked
  rw [bucketState_b, bound]
  exact (post_tracks sound whole).lt_iff precise

/-- Within the exact range, a call is recorded exactly when it weighs something. -/
theorem record_iff (sound : SoundAt m b.counted b.slot) (whole : b.counted = false → Whole b.weight)
    (small : attempted m now b ≤ 2 ^ 53) :
    (bucketState now m b).record = true ↔ amount b.counted (bucketWeight b) ≠ 0 := by
  have post := (post_tracks sound whole).1 small
  have cur := (bucketState_tracks now sound).1 (by unfold attempted at small; omega)
  unfold BucketState.record
  rw [post, cur, Binary64.eq_ofNat small (by unfold attempted at small; omega)]
  unfold attempted
  simp

/-! ## What one step can do to one account -/

theorem floorToMicro_mono (order : early ≤ late) : floorToMicro early ≤ floorToMicro late := by
  unfold floorToMicro
  omega

variable {a : Account} {now : ℤ} {m : InMemory}

theorem slot_eq_iff {b : QuotaBucket} : b.slot = a.slot ↔ b.key = a.key ∧ b.windowSec = a.windowSec := storageKey_inj

theorem not_owns {b : QuotaBucket} (different : b.slot ≠ a.slot) : a.owns b = false := by
  rw [Ne, slot_eq_iff] at different
  simp only [Account.owns, decide_eq_false_iff_not]
  exact fun owned => different ⟨owned.1, owned.2.1⟩

section Step
variable (a : Account) (now clock : ℤ) (m : InMemory) (ev : Event) {buckets : List QuotaBucket}

theorem charges_outside (outside : ∀ b ∈ buckets, b.slot ≠ a.slot) : a.charges (buckets.map (⟨now, ·, m⟩)) = [] := by
  unfold Account.charges
  rw [List.filter_eq_nil_iff.mpr]
  · rfl
  · intro g held
    obtain ⟨b, mem, rfl⟩ := List.mem_map.mp held
    simp [not_owns (outside b mem)]

/-- The charges of an admitted batch: its one bucket of the account, if any. -/
theorem charges_batch (distinct : Distinct buckets) (mem : b ∈ buckets) (same : b.slot = a.slot) :
    a.charges (buckets.map (⟨now, ·, m⟩)) =
      if b.counted = a.counted then [(now, amount a.counted (bucketWeight b))] else [] := by
  induction buckets with
  | nil => cases mem
  | cons c rest ih =>
    rcases List.mem_cons.mp mem with rfl | inRest
    · have tail := charges_outside a now m (fun c held => same ▸ distinct.head c held)
      obtain ⟨key, window⟩ := slot_eq_iff.mp same
      unfold Account.charges at tail ⊢
      by_cases accounting : b.counted = a.counted
      · simp [Account.owns, key, window, accounting] at tail ⊢
        exact tail
      · simp [Account.owns, accounting] at tail ⊢
        exact tail
    · have different : c.slot ≠ a.slot := fun head => distinct.head b inRest (same.trans head.symm)
      have later := ih distinct.tail inRest
      unfold Account.charges at later ⊢
      simpa [not_owns different] using later

/-- The entry of an account with its expired calls gone. -/
def prunedEntry (held : Option Entry) : Option Entry :=
  held.map fun e => pruneEntry e (now - windowNanos a.windowSec)

/-- Every way an event can change an account's entry, with what it charges. -/
inductive Change : Option Entry → List (ℤ × ℕ) → Prop where
  | same : Change (m.entries.lookup a.slot) []
  | pruned : Change (prunedEntry a ev.now (m.entries.lookup a.slot)) []
  | admitted {b : QuotaBucket} (slot : b.slot = a.slot) (positive : 1 ≤ a.windowSec)
      (grant : ⟨ev.now, b, m⟩ ∈ granted m ev)
      (free : (bucketState ev.now m b).blocked = false) :
      Change
        (if (bucketState ev.now m b).record then
          some ((bucketState ev.now m b).committed ev.now)
        else prunedEntry a ev.now (m.entries.lookup a.slot))
        (if b.counted = a.counted then
          [(ev.now, amount a.counted (bucketWeight b))] else [])
  | incremented {maxEntries : ℤ} (positive : 1 ≤ a.windowSec)
      (atLeastOne : 1 ≤ maxEntries) (call : ev.op = .incrementAndGet a.key a.windowSec maxEntries) :
      Change (some (incrementEntry ((m.entries.lookup a.slot).getD ⟨[], a.windowSec, none⟩)
        ev.now a.windowSec maxEntries)) []
  | reclaimed {e : Entry} (held : m.entries.lookup a.slot = some e)
      (stale : shouldDeleteEntry e ev.clock = true) : Change none []

/-- Reading a batch prunes the account's entry or leaves it. -/
theorem readBuckets_account (distinct : Distinct buckets) :
    (readBuckets now m buckets).1.entries.lookup a.slot = m.entries.lookup a.slot ∨
      (readBuckets now m buckets).1.entries.lookup a.slot = prunedEntry a now (m.entries.lookup a.slot) := by
  by_cases touched : ∃ b ∈ buckets, b.slot = a.slot
  · obtain ⟨b, mem, same⟩ := touched
    have lookup := readBuckets_inside now m distinct mem
    rw [same, (slot_eq_iff.mp same).2] at lookup
    exact .inr lookup
  · push Not at touched
    exact .inl (readBuckets_other now m buckets a.slot touched)

theorem admitAll_change (op : ev.op = .admitAll buckets) :
    Change a m ev ((admitAll m ev.clock buckets).2.entries.lookup a.slot) (a.charges (granted m ev)) := by
  have refused (valid : checkBuckets buckets = .ok ()) (nothing : granted m ev = []) :
      Change a m ev ((readBuckets ev.now m buckets).1.entries.lookup a.slot)
        (a.charges (granted m ev)) := by
    rw [nothing]
    rcases readBuckets_account a ev.now m (checkBuckets_ok valid).2.2 with same | pruned
    · exact same ▸ .same
    · exact pruned ▸ .pruned
  rcases ran : admitAll m ev.clock buckets with ⟨result, last⟩
  cases admitAll_admits ran with
  | invalid =>
    rw [show granted m ev = [] by simp [granted, op, ran]]
    exact .same
  | blocked valid | full valid => exact refused valid (by simp [granted, op, ran])
  | admitted valid free =>
    obtain ⟨-, checked, distinct⟩ := checkBuckets_ok valid
    have grants : granted m ev = buckets.map (⟨ev.now, ·, m⟩) := by simp [granted, op, ran]
    rw [grants]
    by_cases touched : ∃ b ∈ buckets, b.slot = a.slot
    · obtain ⟨b, mem, same⟩ := touched
      have positive : 1 ≤ a.windowSec :=
        (slot_eq_iff.mp same).2 ▸ (checkWindowSec_ok (checkBucket_ok (checked b mem)).1).1
      have lookup := commit_inside ev.now m distinct mem
      rw [same, (slot_eq_iff.mp same).2] at lookup
      rw [charges_batch a _ m distinct mem same, lookup]
      refine .admitted same positive ?_ (free _ (List.mem_map_of_mem mem))
      rw [grants]
      exact List.mem_map_of_mem mem
    · push Not at touched
      rw [charges_outside a _ m touched, commit_other _ m touched]
      exact .same

theorem incrementAndGet_change (op : ev.op = .incrementAndGet key windowSec maxEntries) :
    Change a m ev ((incrementAndGet m ev.clock key windowSec maxEntries).2.entries.lookup a.slot) [] := by
  rcases incrementAndGet_cases m ev.clock key windowSec maxEntries with ⟨e, failed⟩ | ⟨window, entries, counted⟩
  · rw [failed]
    exact .same
  · rw [counted, lookup_store]
    split
    · rename_i slot
      obtain ⟨rfl, rfl⟩ := storageKey_inj.mp slot.symm
      exact .incremented (checkWindowSec_ok window).1 (checkMaxEntries_ok entries).1 op
    · exact .same

theorem reclaim_lookup (key sk : Bytes) :
    (m.reclaim clock key).entries.lookup sk = m.entries.lookup sk ∨ (m.reclaim clock key).entries.lookup sk = none ∧
        ∃ e, m.entries.lookup sk = some e ∧ shouldDeleteEntry e clock = true := by
  unfold InMemory.reclaim
  cases held : m.entries.lookup key with
  | none => exact .inl rfl
  | some e =>
    simp only
    split
    · rename_i stale
      by_cases same : sk = key
      · subst sk
        exact .inr ⟨AList.lookup_erase .., e, held, stale⟩
      · exact .inl (AList.lookup_erase_ne same)
    · exact .inl rfl

theorem cleanupBatch_lookup (keys : List Bytes) (sk : Bytes) :
    (cleanupBatch m clock keys).entries.lookup sk = m.entries.lookup sk ∨
      (cleanupBatch m clock keys).entries.lookup sk = none ∧
        ∃ e, m.entries.lookup sk = some e ∧ shouldDeleteEntry e clock = true := by
  induction keys generalizing m with
  | nil => exact .inl rfl
  | cons key rest ih =>
    rcases reclaim_lookup clock m key sk with same | ⟨gone, stale⟩
    · rw [← same]
      exact ih _
    · rcases ih (m.reclaim clock key) with later | ⟨-, e, held, -⟩
      · exact .inr ⟨later.trans gone, stale⟩
      · cases gone.symm.trans held

/-- Every event changes an account in one of the listed ways. -/
theorem step_change : Change a m ev ((step m ev).entries.lookup a.slot) (a.charges (granted m ev)) := by
  unfold step
  cases op : ev.op with
  | admitAll buckets => exact admitAll_change a m ev op
  | incrementAndGet key windowSec maxEntries =>
    rw [show granted m ev = [] by simp [granted, op]]
    exact incrementAndGet_change a m ev op
  | peek key windowSec =>
    rw [show granted m ev = [] by simp [granted, op]]
    exact .same
  | cleanupBatch keys =>
    rw [show granted m ev = [] by simp [granted, op]]
    rcases cleanupBatch_lookup ev.clock m keys a.slot with same | ⟨gone, e, held, stale⟩
    · exact same.symm ▸ .same
    · exact gone.symm ▸ .reclaimed held stale

end Step

/-! ## What every step keeps -/

/-- The account's entry, if there is one, is well formed and under its own window. -/
structure Tidy (a : Account) (held : Option Entry) : Prop where
  sound : ∀ e, held = some e → e.Sound a.counted
  window : ∀ e, held = some e → e.windowSec = a.windowSec ∧ 1 ≤ a.windowSec

theorem tidy_none (a : Account) : Tidy a none where
  sound _ held := by cases held
  window _ held := by cases held

theorem tidy_some (sound : e.Sound a.counted) (window : e.windowSec = a.windowSec)
    (positive : 1 ≤ a.windowSec) : Tidy a (some e) where
  sound _ held := Option.some.inj held ▸ sound
  window _ held := Option.some.inj held ▸ ⟨window, positive⟩

theorem Tidy.prune (tidy : Tidy a held) (now : ℤ) : Tidy a (prunedEntry a now held) := by
  cases held with
  | none => exact tidy_none a
  | some e => exact tidy_some ((tidy.sound e rfl).prune _) (tidy.window e rfl).1 (tidy.window e rfl).2

theorem prunedEntry_calls (tidy : Tidy a held) (now : ℤ) : heldCalls a.counted (prunedEntry a now held) =
      (heldCalls a.counted held).filter fun r => now - windowNanos a.windowSec < r.1 := by
  cases held with
  | none => rfl
  | some e => exact pruneEntry_calls a.counted _ (tidy.sound e rfl).lockstep

private theorem le_foldl_max (rest : List ℤ) (first : ℤ) :
    first ≤ rest.foldl max first ∧ ∀ ts ∈ rest, ts ≤ rest.foldl max first := by
  induction rest generalizing first with
  | nil => simp
  | cons next rest ih =>
    obtain ⟨head, tail⟩ := ih (max first next)
    exact ⟨le_trans (le_max_left ..) head, List.forall_mem_cons.mpr ⟨le_trans (le_max_right ..) head, tail⟩⟩

/-- A reclaimed entry of a valid window holds nothing within two windows. -/
theorem stale_of_shouldDelete (stale : shouldDeleteEntry e clock = true) (positive : 1 ≤ e.windowSec) :
    ∀ ts ∈ e.timestamps, ts ≤ clock - 2 * windowNanos e.windowSec := by
  unfold shouldDeleteEntry at stale
  cases stamps : e.timestamps with
  | nil => simp
  | cons first rest =>
    obtain ⟨head, tail⟩ := le_foldl_max rest first
    rw [stamps] at stale
    simp only [show 0 < e.windowSec by omega, ↓reduceIte, decide_eq_true_eq] at stale
    intro ts mem
    unfold windowNanos
    rcases List.mem_cons.mp mem with rfl | mem
    · simp only [cleanupMarginFactor] at stale
      linarith
    · have := tail ts mem
      simp only [cleanupMarginFactor] at stale
      linarith

theorem calls_instant {e : Entry} (sound : e.Sound counted) (mem : r ∈ e.calls counted) : r.1 ∈ e.timestamps := by
  obtain ⟨call, held, rfl⟩ := List.mem_map.mp mem
  rw [← timedCalls_instants sound.lockstep]
  exact List.mem_map_of_mem held

/-- An admission under one limit, in whole weights, decided within the exact
range of doubles. -/
structure Fair (a : Account) (bound : ℚ) (g : Admitted) : Prop where
  limit : ∃ representable, g.bucket.limit = .finite bound representable
  whole : a.counted = false → Whole g.bucket.weight
  precise : Exact bound (attempted g.prior g.instant g.bucket)

/-- Counting calls on the account keep at least as many entries as its limit. -/
def Retains (a : Account) (bound : ℚ) (ev : Event) : Prop :=
  ∀ maxEntries : ℤ, ev.op = .incrementAndGet a.key a.windowSec maxEntries →
    1 ≤ maxEntries → bound ≤ maxEntries

section Kept
variable (tidy : Tidy a (m.entries.lookup a.slot))
include tidy

/-- What a counting call finds. -/
theorem counted_entry : let e := (m.entries.lookup a.slot).getD ⟨[], a.windowSec, none⟩
    e.Sound a.counted ∧ e.windowSec = a.windowSec ∧ m.calls a.counted a.slot = e.calls a.counted := by
  rw [InMemory.calls]
  cases held : m.entries.lookup a.slot with
  | some e => exact ⟨tidy.sound e held, (tidy.window e held).1, rfl⟩
  | none => exact ⟨⟨by simp [Lockstep], by simp [Entry.timed, timedCalls]⟩, rfl, rfl⟩

theorem base_windowSec (now : ℤ) (same : b.slot = a.slot) : (bucketState now m b).base.windowSec = a.windowSec := by
  have window := tidy.window
  rw [← same] at window
  simp only [bucketState, readBucket] at window ⊢
  cases held : m.entries.lookup (storageKey b.key b.windowSec) with
  | none => exact (slot_eq_iff.mp same).2
  | some e => exact (window e held).1

/-- A recorded call has a weight the account understands. -/
theorem recorded_whole (slot : b.slot = a.slot) (whole : b.counted = a.counted → a.counted = false → Whole b.weight)
    (records : (bucketState now m b).record = true) :
    a.counted = false → WholeWeight (bucketWeight b) := by
  intro weighted
  cases accounting : b.counted with
  | true => simpa [bucketWeight, accounting] using wholeWeight_one
  | false =>
    have sound : SoundAt m b.counted b.slot := by
      rw [slot, accounting, ← weighted]
      exact tidy.sound
    obtain ⟨n, small, weight⟩ := whole (accounting.trans weighted.symm) weighted
    refine ⟨n, Nat.one_le_iff_ne_zero.mpr ?_, small, by simpa [bucketWeight, accounting] using weight⟩
    rintro rfl
    have unmoved := (bucketState_tracks now sound).add_zero
    simp [BucketState.record, BucketState.post, bucketWeight, accounting, weight, unmoved] at records

/-- Recording the account's own call keeps its entry well formed. -/
theorem tidy_committed (now : ℤ) (slot : b.slot = a.slot) (positive : 1 ≤ a.windowSec)
    (whole : a.counted = false → WholeWeight (bucketWeight b)) :
    Tidy a (some ((bucketState now m b).committed now)) := by
  have sound : SoundAt m a.counted b.slot := slot ▸ tidy.sound
  obtain ⟨-, entrySound, window⟩ := committed_spec now sound whole
  exact tidy_some entrySound (window.trans (base_windowSec tidy now slot)) positive

theorem tidy_step {ev : Event} (whole : a.Whole (granted m ev)) (change : Change a m ev held charges) :
    Tidy a held := by
  cases change with
  | same => exact tidy
  | pruned => exact tidy.prune _
  | @admitted b slot positive grant free =>
    split
    · rename_i records
      refine tidy_committed tidy _ slot positive (recorded_whole tidy slot (fun own => ?_) records)
      exact whole _ grant (by simp [Account.owns, slot_eq_iff.mp slot, own])
    · exact tidy.prune _
  | @incremented maxEntries positive atLeastOne call =>
    obtain ⟨before, own, -⟩ := counted_entry tidy
    obtain ⟨-, sound, window⟩ := incrementEntry_spec before ev.now a.windowSec atLeastOne
    exact tidy_some sound (window.trans own) positive
  | reclaimed present stale => exact tidy_none a

/-- A free bucket of the account has headroom for the call it is charged. -/
theorem headroom_of_free {b : QuotaBucket} (slot : b.slot = a.slot)
    (own : b.counted = a.counted) (fair : Fair a bound ⟨now, b, m⟩)
    (free : (bucketState now m b).blocked = false) :
    after (now - windowNanos a.windowSec) (m.calls a.counted a.slot) + amount a.counted (bucketWeight b) ≤ ⌊bound⌋₊ ∧
      ((bucketState now m b).record = true ↔ amount a.counted (bucketWeight b) ≠ 0) := by
  obtain ⟨representable, limited⟩ := fair.limit
  have sound : SoundAt m b.counted b.slot := by
    rw [slot, own]
    exact tidy.sound
  have whole : b.counted = false → Whole b.weight := by
    rw [own]
    exact fair.whole
  have room : (attempted m now b : ℚ) ≤ bound := by
    by_contra exceeded
    have blocked := (blocked_iff limited sound whole fair.precise).mpr (not_le.mp exceeded)
    simp [free] at blocked
  have small : attempted m now b ≤ 2 ^ 53 := by
    rcases fair.precise with below | inside
    · exact_mod_cast room.trans below.le
    · exact inside
  refine ⟨Nat.le_floor ?_, own ▸ record_iff sound whole small⟩
  rw [← own, ← slot, ← (slot_eq_iff.mp slot).2]
  exact room

/-- What the account remembers of an admitted bucket of its key. -/
theorem committed_calls (now : ℤ) (slot : b.slot = a.slot)
    (whole : b.counted = a.counted → a.counted = false → Whole b.weight) (records : (bucketState now m b).record = true) :
    ((bucketState now m b).committed now).calls a.counted =
      ((m.calls a.counted a.slot).filter fun r => now - windowNanos a.windowSec < r.1) ++
        [(now, amount a.counted (bucketWeight b))] := by
  have calls := (committed_spec now (slot ▸ tidy.sound : SoundAt m a.counted b.slot)
    (recorded_whole tidy slot whole records)).1
  rwa [slot, (slot_eq_iff.mp slot).2] at calls

/-- An admitted bucket of the account's key: its own call is charged, and it is
recorded unless it weighs nothing; a call under the other accounting is at most
one more remembered call. -/
theorem covers_admitted
    (covers : Covers (windowNanos a.windowSec) ⌊bound⌋₊ now charged (m.calls a.counted a.slot))
    (slot : b.slot = a.slot) (fair : b.counted = a.counted → Fair a bound ⟨now, b, m⟩)
    (free : (bucketState now m b).blocked = false) : Covers (windowNanos a.windowSec) ⌊bound⌋₊ now
      (charged ++ if b.counted = a.counted then [(now, amount a.counted (bucketWeight b))] else [])
      (heldCalls a.counted (if (bucketState now m b).record then
        some ((bucketState now m b).committed now)
        else prunedEntry a now (m.entries.lookup a.slot))) := by
  have pruned := covers.prune (le_refl (now - windowNanos a.windowSec))
  have written := committed_calls tidy now slot fun own => (fair own).whole
  by_cases own : b.counted = a.counted
  · obtain ⟨headroom, recorded⟩ := headroom_of_free tidy slot own (fair own) free
    rw [if_pos own]
    split
    · rename_i records
      rw [heldCalls, written records]
      exact pruned.admission (by rwa [after_prune le_rfl])
    · rename_i skipped
      have zero : amount a.counted (bucketWeight b) = 0 := by
        by_contra nonzero
        exact skipped (recorded.mpr nonzero)
      rw [prunedEntry_calls tidy, zero]
      exact pruned.admitZero
  · rw [if_neg own, List.append_nil]
    split
    · rename_i records
      rw [heldCalls, written records]
      exact pruned.record _
    · rw [prunedEntry_calls tidy]
      exact pruned

theorem covers_step {ev : Event}
    (covers : Covers (windowNanos a.windowSec) ⌊bound⌋₊ ev.now charged
      (m.calls a.counted a.slot)) (fair : ∀ g ∈ granted m ev, a.owns g.bucket = true → Fair a bound g)
    (retains : Retains a bound ev) (nonneg : 0 ≤ bound) (change : Change a m ev held charges) :
    Covers (windowNanos a.windowSec) ⌊bound⌋₊ ev.now (charged ++ charges)
      (heldCalls a.counted held) := by
  cases change with
  | same =>
    rw [List.append_nil]
    exact covers
  | pruned =>
    rw [prunedEntry_calls tidy, List.append_nil]
    exact covers.prune le_rfl
  | @admitted b slot positive grant free =>
    refine covers_admitted tidy covers slot (fun own => fair _ grant ?_) free
    simp [Account.owns, slot_eq_iff.mp slot, own]
  | @incremented maxEntries positive atLeastOne call =>
    have enough : ⌊bound⌋₊ ≤ maxEntries.toNat := by
      have floor := le_trans (Nat.floor_le nonneg) (retains maxEntries call atLeastOne)
      have whole : ((⌊bound⌋₊ : ℕ) : ℤ) ≤ maxEntries := by exact_mod_cast floor
      omega
    obtain ⟨before, -, calls⟩ := counted_entry tidy
    have trimmed := (incrementEntry_spec before ev.now a.windowSec atLeastOne).1
    rw [calls] at covers
    rw [heldCalls, trimmed, List.append_nil]
    exact ((covers.prune le_rfl).record 1).keepNewest enough (List.forall_mem_append.mpr
      ⟨fun r old => before.one_le r (List.mem_of_mem_filter old), List.forall_mem_singleton.mpr le_rfl⟩)
  | @reclaimed e present stale =>
    -- the margin of two windows outweighs the clock being read before flooring
    obtain ⟨window, positive⟩ := tidy.window e present
    rw [InMemory.calls, present] at covers
    rw [List.append_nil]
    refine covers.clear fun r mem => ?_
    have bound := stale_of_shouldDelete stale (window.symm ▸ positive) r.1 (calls_instant (tidy.sound e present) mem)
    unfold windowNanos second Event.now floorToMicro at *
    omega

/-- A run keeps entries well formed. -/
theorem tidy_run (whole : a.Whole (ledger m events)) : Tidy a ((run m events).entries.lookup a.slot) := by
  induction events generalizing m with
  | nil => exact tidy
  | cons ev rest ih =>
    exact ih (tidy_step tidy (fun g mem => whole g (List.mem_append_left _ mem))
      (step_change a m ev)) (fun g mem => whole g (List.mem_append_right _ mem))

/-- What is remembered after an event was before it, or is written by it. -/
theorem calls_step {ev : Event} (whole : a.Whole (granted m ev)) (change : Change a m ev held charges) :
    (heldCalls a.counted held).Sublist (m.calls a.counted a.slot ++ a.writes m ev) := by
  have older {kept : List (ℤ × ℕ)} (sub : kept.Sublist (m.calls a.counted a.slot)) :
      kept.Sublist (m.calls a.counted a.slot ++ a.writes m ev) := sub.trans (List.sublist_append_left ..)
  have newer {call : ℤ × ℕ} (mem : call ∈ a.writes m ev) : ((m.calls a.counted a.slot).filter fun r =>
      ev.now - windowNanos a.windowSec < r.1) ++ [call] |>.Sublist (m.calls a.counted a.slot ++ a.writes m ev) :=
    List.filter_sublist.append (List.singleton_sublist.mpr mem)
  have prunes : (heldCalls a.counted (prunedEntry a ev.now (m.entries.lookup a.slot))).Sublist
      (m.calls a.counted a.slot ++ a.writes m ev) := by
    rw [prunedEntry_calls tidy]
    exact older List.filter_sublist
  cases change with
  | same => exact older (.refl _)
  | pruned => exact prunes
  | @admitted b slot positive grant free =>
    split
    · rename_i records
      rw [heldCalls, committed_calls tidy _ slot
        (fun own => whole _ grant (by simp [Account.owns, slot_eq_iff.mp slot, own])) records]
      refine newer (List.mem_append_left _ (List.mem_map.mpr ⟨_, List.mem_filter.mpr ⟨grant, ?_⟩, rfl⟩))
      simpa using slot
    · exact prunes
  | @incremented maxEntries positive atLeastOne call =>
    obtain ⟨before, -, calls⟩ := counted_entry tidy
    rw [heldCalls, (incrementEntry_spec before ev.now a.windowSec atLeastOne).1, ← calls]
    refine (List.drop_sublist _ _).trans (newer (List.mem_append_right _ ?_))
    simp [call, Account.slot]
  | reclaimed => exact List.nil_sublist _

theorem calls_run (whole : a.Whole (ledger m events)) :
    ((run m events).calls a.counted a.slot).Sublist (m.calls a.counted a.slot ++ a.written m events) := by
  induction events generalizing m with
  | nil => simp [Account.written, run]
  | cons ev rest ih =>
    have here : a.Whole (granted m ev) := fun g mem => whole g (List.mem_append_left _ mem)
    have change := step_change a m ev
    refine (ih (tidy_step tidy here change) fun g mem => whole g (List.mem_append_right _ mem)).trans ?_
    rw [Account.written, ← List.append_assoc]
    exact (calls_step tidy here change).append_right _

/-- A run keeps the ledger covered. -/
theorem covers_run
    (covers : Covers (windowNanos a.windowSec) ⌊bound⌋₊ now charged (m.calls a.counted a.slot))
    (ordered : events.Pairwise fun e e' => e.clock ≤ e'.clock)
    (future : ∀ ev ∈ events, now ≤ ev.now)
    (fair : ∀ g ∈ ledger m events, a.owns g.bucket = true → Fair a bound g)
    (retains : ∀ ev ∈ events, Retains a bound ev) (nonneg : 0 ≤ bound) :
    ∃ last, Covers (windowNanos a.windowSec) ⌊bound⌋₊ last (charged ++ a.charges (ledger m events))
      ((run m events).calls a.counted a.slot) := by
  induction events generalizing now charged m with
  | nil => exact ⟨now, by simpa [ledger, Account.charges, run] using covers⟩
  | cons ev rest ih =>
    obtain ⟨later, tail⟩ := List.pairwise_cons.mp ordered
    have here : ∀ g ∈ granted m ev, a.owns g.bucket = true → Fair a bound g :=
      fun g mem => fair g (List.mem_append_left _ mem)
    have change := step_change a m ev
    obtain ⟨last, covered⟩ := ih (tidy_step tidy (fun g mem own => (here g mem own).whole) change)
      (covers_step tidy (covers.advance (future ev (by simp))) here (retains ev (by simp)) nonneg change)
      tail (fun ev' mem => floorToMicro_mono (later ev' mem))
      (fun g mem => fair g (List.mem_append_right _ mem))
      (fun ev' mem => retains ev' (by simp [mem]))
    refine ⟨last, ?_⟩
    simpa [ledger, Account.charges, run] using covered

end Kept

/-! ## The law -/

/-- The bucket a reply names as the one without headroom. -/
def deniedAt : Except CounterError Admission → Option ℕ
  | .ok reply => if reply.admitted then none else some reply.deniedIndex
  | .error _ => none

/-- A bucket's window total plus its own contribution is more than its limit. -/
def exceeds (m : InMemory) (now : ℤ) (b : QuotaBucket) : Bool :=
  match b.limit with
  | .finite limit _ => decide (limit < attempted m now b)
  | _ => false

/-- A valid batch is refused exactly at the first bucket that exceeds its limit. -/
theorem deniedAt_admitAll (valid : checkBuckets buckets = .ok ()) (sound : ∀ b ∈ buckets, SoundAt m b.counted b.slot)
    (whole : ∀ b ∈ buckets, b.counted = false → Whole b.weight)
    (precise : ∀ b ∈ buckets, ∀ limit representable, b.limit = .finite limit representable →
      Exact limit (attempted m (floorToMicro clock) b)) :
    deniedAt (admitAll m clock buckets).1 = buckets.findIdx? (exceeds m (floorToMicro clock)) := by
  have agree : (buckets.map (bucketState (floorToMicro clock) m)).findIdx? BucketState.blocked =
      buckets.findIdx? (exceeds m (floorToMicro clock)) := by
    rw [List.findIdx?_map]
    refine findIdx?_congr fun b mem => ?_
    obtain ⟨limit, representable, bound, -⟩ := checkTotalLimit_ok (checkBucket_ok ((checkBuckets_ok valid).2.1 b mem)).2.1
    have decides := blocked_iff bound (sound b mem) (whole b mem) (precise b mem limit representable bound)
    rw [Bool.eq_iff_iff, Function.comp_apply, decides, exceeds, bound]
    simp
  rw [← agree]
  rcases ran : admitAll m clock buckets with ⟨result, last⟩
  cases admitAll_admits ran with
  | invalid bad => cases bad.symm.trans valid
  | blocked _ first => exact first.symm
  | full _ free => exact (List.findIdx?_eq_none_iff.mpr free).symm
  | admitted _ free => exact (List.findIdx?_eq_none_iff.mpr free).symm

/-- Over every run of a fresh counter, an account that is only admitted under
one limit never holds more than that limit in any window, provided counting
calls on its key keep at least that many entries; and after every run a valid
batch is refused exactly at the first bucket whose window total plus its own
contribution exceeds its limit. That total is of calls that were admitted or counted under
the bucket's key, each once. -/
theorem quota_law {start : InMemory} (empty : start.entries = ∅) {events : List Event}
    (ordered : events.Pairwise fun e e' => e.clock ≤ e'.clock) :
    (∀ (a : Account) (bound : ℚ), 0 ≤ bound → (∀ g ∈ ledger start events, a.owns g.bucket = true → Fair a bound g) →
      (∀ ev ∈ events, Retains a bound ev) →
      ∀ t, ((within (windowNanos a.windowSec) t (a.charges (ledger start events)) : ℕ) : ℚ) ≤ bound) ∧
    (∀ (clock : ℤ) (buckets : List QuotaBucket), checkBuckets buckets = .ok () →
      (∀ b ∈ buckets, b.counted = false → Whole b.weight ∧
        ∀ g ∈ ledger start events, g.bucket.slot = b.slot → g.bucket.counted = false → Whole g.bucket.weight) →
      (∀ b ∈ buckets, ∀ limit representable, b.limit = .finite limit representable →
        Exact limit (attempted (run start events) (floorToMicro clock) b)) →
      deniedAt (admitAll (run start events) clock buckets).1 =
        buckets.findIdx? (exceeds (run start events) (floorToMicro clock))) ∧
    ∀ a : Account, (∀ g ∈ ledger start events, a.owns g.bucket = true → a.counted = false → Whole g.bucket.weight) →
      ((run start events).calls a.counted a.slot).Sublist (a.written start events) := by
  have nothing : ∀ a : Account, start.entries.lookup a.slot = none := fun a => by
    rw [empty]
    rfl
  have tidy : ∀ a : Account, Tidy a (start.entries.lookup a.slot) := fun a => by
    rw [nothing]
    exact tidy_none a
  refine ⟨fun a bound nonneg fair retains t => ?_, fun clock buckets valid whole precise => ?_, fun a whole => ?_⟩
  · have covers (now : ℤ) : Covers (windowNanos a.windowSec) ⌊bound⌋₊ now [] (start.calls a.counted a.slot) := by
      rw [InMemory.calls, nothing]
      exact .start
    have covered : ∃ last, Covers (windowNanos a.windowSec) ⌊bound⌋₊ last
        (a.charges (ledger start events)) ((run start events).calls a.counted a.slot) := by
      cases events with
      | nil => exact ⟨0, covers 0⟩
      | cons ev rest =>
        refine covers_run (tidy a) (covers ev.now) ordered ?_ fair retains nonneg
        exact List.forall_mem_cons.mpr ⟨le_rfl, fun ev' member => floorToMicro_mono ((List.pairwise_cons.mp ordered).1 ev' member)⟩
    obtain ⟨last, covered⟩ := covered
    calc ((within (windowNanos a.windowSec) t (a.charges (ledger start events)) : ℕ) : ℚ)
        ≤ ⌊bound⌋₊ := by exact_mod_cast covered.bounded t
      _ ≤ bound := Nat.floor_le nonneg
  · refine deniedAt_admitAll valid (fun b member => ?_) (fun b member => fun weighted =>
      (whole b member weighted).1) precise
    refine (tidy_run (a := ⟨b.key, b.windowSec, b.counted⟩) (tidy _) ?_).sound
    intro g held owned weighted
    simp only [Account.owns, decide_eq_true_eq] at owned
    have slot : g.bucket.slot = b.slot := by simp [QuotaBucket.slot, owned.1, owned.2.1]
    exact (whole b member weighted).2 g held slot (owned.2.2.trans weighted)
  · have remembered := calls_run (tidy a) whole
    rwa [show start.calls a.counted a.slot = [] by rw [InMemory.calls, nothing]; rfl] at remembered

/-- Two calls a minute. -/
def twoPerMinute : QuotaBucket := ⟨lit "k", 60, true, .ofNat 0, .ofNat 2⟩

/-- Two admitted calls, a sweep of their key, and a third attempt. -/
def sweptRun : List Event :=
  [⟨1000000000, .admitAll [twoPerMinute]⟩, ⟨1000000000, .admitAll [twoPerMinute]⟩,
    ⟨2000000000, .cleanupBatch [storageKey (lit "k") 60]⟩,
    ⟨3000000000, .admitAll [twoPerMinute]⟩]

theorem quota_law_two_per_minute : (∀ t, ((within (windowNanos 60) t (Account.charges ⟨lit "k", 60, true⟩
        (ledger (newInMemory 0) sweptRun)) : ℕ) : ℚ) ≤ (2 : ℕ)) ∧
      deniedAt (admitAll (run (newInMemory 0) sweptRun) 4000000000 [twoPerMinute]).1 =
        [twoPerMinute].findIdx? (exceeds (run (newInMemory 0) sweptRun) 4000000000) ∧
      [twoPerMinute].findIdx? (exceeds (run (newInMemory 0) sweptRun) 4000000000) = some 0 := by
  have law := @quota_law (newInMemory 0) rfl sweptRun (by decide)
  have grants : (ledger (newInMemory 0) sweptRun).all (fun g => g.bucket = twoPerMinute) = true := by
    decide +kernel
  have fits : (2 : ℕ) ≤ 2 ^ 53 := by norm_num
  have limited : twoPerMinute.limit = .finite ((2 : ℕ) : ℚ) (Binary64.representable_natCast fits) :=
    Binary64.ofNat_eq_finite fits
  refine ⟨law.1 ⟨lit "k", 60, true⟩ (2 : ℕ) (by norm_num) ?_ ?_,
    law.2.1 4000000000 [twoPerMinute] (by decide +kernel) ?_ ?_, by decide +kernel⟩
  · intro g member owned
    have bucket : g.bucket = twoPerMinute := by simpa using List.all_eq_true.mp grants g member
    exact ⟨⟨_, bucket ▸ limited⟩, by simp, .inl (by norm_num)⟩
  · intro ev member maxEntries call
    simp only [sweptRun, List.mem_cons, List.not_mem_nil, or_false] at member
    rcases member with rfl | rfl | rfl | rfl <;> cases call
  · intro b member weighted
    obtain rfl := List.mem_singleton.mp member
    cases weighted
  · intro b member limit representable bound
    obtain rfl := List.mem_singleton.mp member
    have value : limit = (2 : ℕ) := by
      simpa using bound.symm.trans limited
    exact .inl (by rw [value]; norm_num)

/-- Two admitted calls, a counting call that keeps one entry, and a third. -/
def trimmedRun : List Event :=
  [⟨1000000000, .admitAll [twoPerMinute]⟩, ⟨1000000000, .admitAll [twoPerMinute]⟩,
    ⟨1000000000, .incrementAndGet (lit "k") 60 1⟩, ⟨1000000000, .admitAll [twoPerMinute]⟩]

/-- Without the condition on counting calls the limit is exceeded: a counting
call that keeps one entry of a bucket admitted under a limit of two makes room
for a third call in the same window. -/
theorem trimmed_bucket_exceeds_limit : trimmedRun.Pairwise (fun e e' => e.clock ≤ e'.clock) ∧
      (ledger (newInMemory 0) trimmedRun).all (fun g => g.bucket = twoPerMinute) = true ∧
      within (windowNanos 60) 1000000000
        (Account.charges ⟨lit "k", 60, true⟩ (ledger (newInMemory 0) trimmedRun)) = 3 := by
  decide +kernel

end Eunox.QuotaSafety
