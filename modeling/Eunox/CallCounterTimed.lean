import Eunox.CallCounterFrame

/-! An entry of the in-process counter read as the calls it remembers, oldest
first: the instant each was recorded at and what it weighs. A key that never
took a weighted call keeps no weights, and each of its calls weighs one. The
slice operations are operations on that list. -/
namespace Eunox.CallCounter
open ByteString

/-- The calls of parallel timestamp and weight slices. -/
def timedCalls (ts : List ℤ) : Option (List Binary64) → List (ℤ × Binary64)
  | none => ts.map fun t => (t, .ofNat 1)
  | some weights => ts.zip weights

def Entry.timed (e : Entry) : List (ℤ × Binary64) := timedCalls e.timestamps e.weights

/-- The calls of an entry that may not exist. -/
def heldTimed : Option Entry → List (ℤ × Binary64)
  | some e => e.timed
  | none => []

/-- The weights slice is absent or as long as the timestamps. -/
def Lockstep (ts : List ℤ) (weights : Option (List Binary64)) : Prop := ∀ ws ∈ weights, ws.length = ts.length

theorem timedCalls_length (lockstep : Lockstep ts weights) : (timedCalls ts weights).length = ts.length := by
  cases weights with
  | none => simp [timedCalls]
  | some ws => simp [timedCalls, lockstep ws rfl]

/-- The instants of the calls are the timestamps. -/
theorem timedCalls_instants (lockstep : Lockstep ts weights) : (timedCalls ts weights).map Prod.fst = ts := by
  cases weights with
  | none => simp [timedCalls, Function.comp_def]
  | some ws => exact List.map_fst_zip (le_of_eq (lockstep ws rfl).symm)

theorem isWeighted_eq (lockstep : Lockstep e.timestamps e.weights) : isWeighted e = e.weights.isSome := by
  unfold isWeighted
  cases held : e.weights with
  | none => rfl
  | some ws => simpa using lockstep ws held

private theorem zip_filter_map {ts : List ℤ} {ws : List Binary64} (keep : ℤ → Bool)
    (same : ws.length = ts.length) : (ts.zip ws).filter (fun call => keep call.1) =
      (ts.filter keep).zip (((ts.zip ws).filter fun call => keep call.1).map Prod.snd) := by
  induction ts generalizing ws with
  | nil => simp
  | cons t rest ih =>
    cases ws with
    | nil => simp at same
    | cons w tail =>
      have later := @ih tail (by simpa using same)
      by_cases kept : keep t
      · simpa [kept] using later
      · simpa [kept] using later

theorem pruneEntry_timestamps (e : Entry) (cutoff : ℤ) :
    (pruneEntry e cutoff).timestamps = e.timestamps.filter fun ts => cutoff < ts := rfl

section
variable {e : Entry} (cutoff : ℤ) (lockstep : Lockstep e.timestamps e.weights)
include lockstep

theorem pruneEntry_weights : (pruneEntry e cutoff).weights = e.weights.map fun ws =>
      ((e.timestamps.zip ws).filter fun call => cutoff < call.1).map Prod.snd := by
  simp only [pruneEntry, pruneInWindow, storeEntry, isWeighted_eq lockstep]
  cases e.weights <;> simp

theorem pruneEntry_lockstep : Lockstep (pruneEntry e cutoff).timestamps (pruneEntry e cutoff).weights := by
  rw [pruneEntry_weights cutoff lockstep, pruneEntry_timestamps]
  intro kept mem
  obtain ⟨ws, held, rfl⟩ := Option.mem_map.mp mem
  have fewer : ((e.timestamps.zip ws).filter fun call => decide (cutoff < call.1)).length =
      (e.timestamps.filter fun t => decide (cutoff < t)).length := by
    have firsts := List.map_fst_zip (le_of_eq (lockstep ws held).symm)
    conv_rhs => rw [← firsts, List.filter_map, List.length_map]
    rfl
  simpa using fewer

/-- Pruning an entry prunes its calls. -/
theorem pruneEntry_timed : (pruneEntry e cutoff).timed = e.timed.filter fun c => cutoff < c.1 := by
  unfold Entry.timed
  rw [pruneEntry_weights cutoff lockstep]
  cases held : e.weights with
  | none =>
    simp only [timedCalls, List.filter_map]
    rfl
  | some ws => exact (zip_filter_map (fun t => decide (cutoff < t)) (lockstep ws held)).symm

end

/-- Recording a call adds it at the end. A key without weights either stays
so, for a call of weight one, or is still empty. -/
theorem appendCall_timed (now : ℤ) (lockstep : Lockstep ts weights)
    (plain : weighted = false → weights = none ∧ weight = .ofNat 1)
    (fresh : weighted = true → weights = none → ts = []) :
    timedCalls (appendCall ts weights now weight weighted).1 (appendCall ts weights now weight weighted).2 =
      timedCalls ts weights ++ [(now, weight)] := by
  cases weighted with
  | false =>
    obtain ⟨rfl, rfl⟩ := plain rfl
    simp [appendCall, timedCalls]
  | true =>
    cases weights with
    | none =>
      obtain rfl := fresh rfl rfl
      simp [appendCall, timedCalls]
    | some ws =>
      have same : ws.length = ts.length := lockstep ws rfl
      simp only [appendCall, ↓reduceIte, Option.getD_some, timedCalls]
      rw [List.zip_append same.symm]
      rfl

theorem appendCall_lockstep (now : ℤ) (lockstep : Lockstep ts weights)
    (plain : weighted = false → weights = none) (fresh : weighted = true → weights = none → ts = []) :
    Lockstep (appendCall ts weights now weight weighted).1 (appendCall ts weights now weight weighted).2 := by
  intro ws mem
  cases weighted with
  | false =>
    obtain rfl := plain rfl
    cases mem
  | true =>
    obtain rfl := Option.some.inj mem
    cases weights with
    | none =>
      obtain rfl := fresh rfl rfl
      rfl
    | some old => simpa [appendCall] using lockstep old rfl

/-- Trimming keeps the newest calls. -/
theorem trimOldest_timed (n : ℤ) (nonneg : 0 ≤ n) (lockstep : Lockstep ts weights) :
    timedCalls (trimOldest ts weights n).1 (trimOldest ts weights n).2 =
      (timedCalls ts weights).drop ((timedCalls ts weights).length - n.toNat) := by
  rw [timedCalls_length lockstep]
  unfold trimOldest
  split
  · rw [show ts.length - n.toNat = 0 by omega, List.drop_zero]
  · cases weights with
    | none => simp [timedCalls]
    | some ws => simp [timedCalls, Option.map_some, List.zip, ← List.drop_zipWith]

theorem trimOldest_lockstep (n : ℤ) (lockstep : Lockstep ts weights) :
    Lockstep (trimOldest ts weights n).1 (trimOldest ts weights n).2 := by
  unfold trimOldest
  split
  · exact lockstep
  · intro kept mem
    obtain ⟨ws, held, rfl⟩ := Option.mem_map.mp mem
    simp [lockstep ws held]

theorem trimOldest_isSome (ts : List ℤ) (weights : Option (List Binary64)) (n : ℤ) :
    (trimOldest ts weights n).2.isSome = weights.isSome := by
  unfold trimOldest
  split <;> simp

/-- Writing slices back in the format the entry has keeps them as they are. -/
theorem storeEntry_weights (format : weights.isSome = weighted) (plain : weighted = false → e.weights = none) :
    (storeEntry e ts weights weighted).weights = weights := by
  cases weighted with
  | false =>
    have unweighted : weights = none := by simpa using format
    simp [storeEntry, plain rfl, unweighted]
  | true =>
    obtain ⟨ws, rfl⟩ := Option.isSome_iff_exists.mp format
    rfl

theorem pruneInWindow_eq (cutoff : ℤ) (lockstep : Lockstep e.timestamps e.weights) : pruneInWindow e cutoff =
      ((pruneEntry e cutoff).timestamps, (pruneEntry e cutoff).weights, e.weights.isSome) := by
  rw [pruneEntry_weights cutoff lockstep, pruneEntry_timestamps]
  simp only [pruneInWindow, isWeighted_eq lockstep]
  cases e.weights <;> simp

theorem appendCall_isSome (now : ℤ) (weight : Binary64) (plain : weighted = false → weights = none) :
    (appendCall ts weights now weight weighted).2.isSome = weighted := by
  cases weighted with
  | false => simp [appendCall, plain rfl]
  | true => rfl

/-- A counting call prunes, adds one call of weight one, and keeps the newest. -/
theorem incrementEntry_timed (lockstep : Lockstep e.timestamps e.weights)
    (now windowSec : ℤ) (positive : 1 ≤ maxEntries) :
    let live := (e.timed.filter fun c => now - windowNanos windowSec < c.1) ++ [(now, .ofNat 1)]
    let e' := incrementEntry e now windowSec maxEntries
    e'.timed = live.drop (live.length - maxEntries.toNat) ∧
      Lockstep e'.timestamps e'.weights ∧ e'.windowSec = e.windowSec ∧
      e'.weights.isSome = e.weights.isSome := by
  intro live e'
  set pruned := pruneEntry e (now - windowNanos windowSec) with prunedDef
  have prunedStep : Lockstep pruned.timestamps pruned.weights := pruneEntry_lockstep _ lockstep
  have format : pruned.weights.isSome = e.weights.isSome := by
    rw [pruneEntry_weights _ lockstep]
    simp
  have plain : e.weights.isSome = false → pruned.weights = none := by
    intro absent
    simpa using format.trans absent
  have fresh : e.weights.isSome = true → pruned.weights = none → pruned.timestamps = [] := by
    intro present unweighted
    rw [unweighted, present] at format
    cases format
  set appended := appendCall pruned.timestamps pruned.weights now (.ofNat 1) e.weights.isSome with appendedDef
  have appendedStep : Lockstep appended.1 appended.2 := appendCall_lockstep now prunedStep plain fresh
  have appendedCalls : timedCalls appended.1 appended.2 = live := by
    have grown := appendCall_timed now prunedStep (fun absent => ⟨plain absent, rfl⟩) fresh
    rw [grown]
    exact congrArg (· ++ [(now, Binary64.ofNat 1)]) (pruneEntry_timed _ lockstep)
  set trimmed := trimOldest appended.1 appended.2 maxEntries with trimmedDef
  have shape : e' = storeEntry e trimmed.1 trimmed.2 e.weights.isSome := by
    simp only [e', incrementEntry, pruneInWindow_eq _ lockstep]
    rfl
  have trimmedFormat : trimmed.2.isSome = e.weights.isSome := by
    rw [trimOldest_isSome, appendedDef, appendCall_isSome now _ plain]
  have weights : e'.weights = trimmed.2 := by
    rw [shape]
    exact storeEntry_weights trimmedFormat (by simp)
  have timestamps : e'.timestamps = trimmed.1 := by rw [shape]; rfl
  refine ⟨?_, ?_, by rw [shape]; rfl, by rw [weights, trimmedFormat]⟩
  · unfold Entry.timed
    rw [weights, timestamps, trimOldest_timed _ (by omega) appendedStep, appendedCalls]
  · rw [weights, timestamps]
    exact trimOldest_lockstep _ appendedStep

/-! ## Admission -/

/-- Implicit weights of one, written out, are the same calls. -/
theorem timedCalls_replicate (ts : List ℤ) :
    timedCalls ts (some (List.replicate ts.length (.ofNat 1))) = timedCalls ts none := by
  induction ts with
  | nil => rfl
  | cons t rest ih =>
    simp only [timedCalls, List.length_cons, List.replicate_succ, List.zip_cons_cons, List.map_cons] at ih ⊢
    rw [ih]

/-- The calls with their weights written out, as the retry estimate walks them. -/
theorem zip_materialized (lockstep : Lockstep ts weights) :
    ts.zip (if (weights.getD []).length ≠ ts.length then List.replicate ts.length (.ofNat 1)
      else weights.getD []) = timedCalls ts weights := by
  cases weights with
  | none =>
    rw [← timedCalls_replicate]
    cases ts with
    | nil => rfl
    | cons t rest => rfl
  | some ws => simp [timedCalls, lockstep ws rfl]

/-- Every remembered entry of a storage key keeps its slices in step. -/
def LockstepAt (m : InMemory) (sk : Bytes) : Prop :=
  ∀ e, m.entries.lookup sk = some e → Lockstep e.timestamps e.weights

/-- The entry a bucket state writes on top of: its pruned entry, or a new one. -/
def BucketState.base (st : BucketState) : Entry :=
  st.e.getD { timestamps := [], windowSec := st.b.windowSec, weights := none }

theorem base_timed (now : ℤ) (lockstep : LockstepAt m b.slot) :
    let st := bucketState now m b
    Lockstep st.base.timestamps st.base.weights ∧ st.base.weights.isSome = st.weighted ∧ st.base.timed =
        (heldTimed (m.entries.lookup b.slot)).filter fun c => now - windowNanos b.windowSec < c.1 := by
  simp only [bucketState, readBucket, QuotaBucket.slot] at lockstep ⊢
  cases held : m.entries.lookup (storageKey b.key b.windowSec) with
  | none =>
    refine ⟨?_, rfl, rfl⟩
    rintro ws mem
    cases mem
  | some e =>
    have step := lockstep e held
    refine ⟨pruneEntry_lockstep _ step, ?_, pruneEntry_timed _ step⟩
    simp [BucketState.base, BucketState.held, pruneEntry_weights _ step, isWeighted_eq step]

/-- What a bucket state reports is read from its base. -/
theorem bucketState_reading (now : ℤ) (m : InMemory) (b : QuotaBucket) :
    let st := bucketState now m b
    st.valid = st.base.timestamps ∧ st.weights = st.base.weights ∧ st.window = windowNanos b.windowSec ∧
      st.cur = bucketTotal b.counted st.base.timestamps st.base.weights := by
  simp only [bucketState, readBucket]
  cases m.entries.lookup (storageKey b.key b.windowSec) with
  | some e => exact ⟨rfl, rfl, rfl, rfl⟩
  | none => exact ⟨rfl, rfl, rfl, by cases b.counted <;> rfl⟩

/-- The weights a commit appends to, with the implicit ones written out. -/
private theorem materialized_timed {e : Entry} (lockstep : Lockstep e.timestamps e.weights) {write : Bool}
    (shape : weights = if write ∧ (e.weights.getD []).length ≠ e.timestamps.length then
      some (List.replicate e.timestamps.length (.ofNat 1)) else e.weights) :
    Lockstep e.timestamps weights ∧ timedCalls e.timestamps weights = e.timed ∧
      (write = true → weights = none → e.timestamps = []) := by
  by_cases materialize : write ∧ (e.weights.getD []).length ≠ e.timestamps.length
  · rw [if_pos materialize] at shape
    subst shape
    have absent : e.weights = none := by
      cases held : e.weights with
      | none => rfl
      | some ws => exact absurd (lockstep ws held) (by simpa [held] using materialize.2)
    refine ⟨?_, ?_, by simp⟩
    · rintro ws mem
      obtain rfl := Option.some.inj mem
      simp
    · rw [timedCalls_replicate, Entry.timed, absent]
  · rw [if_neg materialize] at shape
    subst shape
    refine ⟨lockstep, rfl, ?_⟩
    intro writes unweighted
    have empty : (e.weights.getD []).length = e.timestamps.length := by
      by_contra different
      exact materialize ⟨writes, different⟩
    rw [unweighted] at empty
    exact List.length_eq_zero_iff.mp empty.symm

/-- A committed bucket adds its own call to what the window still holds. -/
theorem committed_timed (now : ℤ) {m : InMemory} (lockstep : LockstepAt m b.slot) :
    let st := bucketState now m b
    (st.committed now).timed = ((heldTimed (m.entries.lookup b.slot)).filter fun c =>
          now - windowNanos b.windowSec < c.1) ++ [(now, bucketWeight b)] ∧
      Lockstep (st.committed now).timestamps (st.committed now).weights ∧
      (st.committed now).windowSec = st.base.windowSec ∧
      (st.committed now).weights.isSome = (st.weighted || !b.counted) := by
  intro st
  obtain ⟨baseStep, format, baseCalls⟩ := base_timed now lockstep
  have ownBucket : st.b = b := bucketState_b now m b
  set write := st.writeWeighted with writeDef
  set weights := if write ∧ (st.base.weights.getD []).length ≠ st.base.timestamps.length then
      some (List.replicate st.base.timestamps.length (.ofNat 1)) else st.base.weights with weightsDef
  obtain ⟨step, sameCalls, fresh⟩ := materialized_timed baseStep weightsDef
  have counting : write = false → st.base.weights = none ∧ bucketWeight b = .ofNat 1 := by
    intro unweighted
    simp only [writeDef, BucketState.writeWeighted, ownBucket, Bool.or_eq_false_iff, Bool.not_eq_false'] at unweighted
    have absent : st.base.weights.isSome = false := format.trans unweighted.1
    refine ⟨by simpa using absent, ?_⟩
    simp [bucketWeight, unweighted.2]
  have plain : write = false → weights = none := by
    intro unweighted
    simp [weightsDef, unweighted, (counting unweighted).1]
  set appended := appendCall st.base.timestamps weights now (bucketWeight b) write with appendedDef
  have shape : st.committed now = storeEntry st.base appended.1 appended.2 write := by
    simp [BucketState.committed, appendedDef, weightsDef, ownBucket, writeDef, BucketState.base]
  have appendedFormat : appended.2.isSome = write := appendCall_isSome now _ plain
  have stored : (st.committed now).weights = appended.2 := by
    rw [shape]
    exact storeEntry_weights appendedFormat (fun unweighted => (counting unweighted).1)
  have stamps : (st.committed now).timestamps = appended.1 := by rw [shape]; rfl
  refine ⟨?_, ?_, by rw [shape]; rfl, ?_⟩
  · unfold Entry.timed
    rw [stored, stamps, appendedDef, appendCall_timed now step
      (fun unweighted => ⟨plain unweighted, (counting unweighted).2⟩) fresh, sameCalls, baseCalls]
  · rw [stored]
    exact appendCall_lockstep now step plain fresh
  · rw [stored, appendedFormat, writeDef, BucketState.writeWeighted, ownBucket]

end Eunox.CallCounter
