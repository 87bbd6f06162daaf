import Eunox.CallCounterTimed
import Eunox.SlidingWindow

/-! An entry read as timed integer amounts. Under counted accounting each call
weighs one; under weighted accounting a key that never took a weighted call
still weighs one per call, and otherwise the recorded weights count. The double
precision totals the counter compares track the integer sums exactly. -/
namespace Eunox.CallCounter
open ByteString SlidingWindow

/-- The integer a whole weight stands for. -/
def wholeAmount (weight : Binary64) : ℕ := weight.toInt.toNat

/-- What a recorded weight counts for under an accounting. -/
def amount (counted : Bool) (weight : Binary64) : ℕ := if counted then 1 else wholeAmount weight

theorem wholeAmount_ofNat (small : n ≤ 2 ^ 53) : wholeAmount (.ofNat n) = n := by
  simp [wholeAmount, Binary64.toInt_ofNat small]

theorem amount_one (counted : Bool) : amount counted (.ofNat 1) = 1 := by
  cases counted
  · exact wholeAmount_ofNat (by norm_num)
  · rfl

/-- A call as an accounting reads it. -/
def countedCall (counted : Bool) (c : ℤ × Binary64) : ℤ × ℕ := (c.1, amount counted c.2)

def Entry.calls (counted : Bool) (e : Entry) : List (ℤ × ℕ) := e.timed.map (countedCall counted)

/-- The calls of an entry that may not exist. -/
def heldCalls (counted : Bool) : Option Entry → List (ℤ × ℕ)
  | some e => e.calls counted
  | none => []

/-- The calls a counter remembers for one bucket address. -/
def InMemory.calls (m : InMemory) (counted : Bool) (sk : Bytes) : List (ℤ × ℕ) :=
  heldCalls counted (m.entries.lookup sk)

/-- A weight the integer accounting understands: whole, positive and in range. -/
def WholeWeight (weight : Binary64) : Prop := ∃ n : ℕ, 1 ≤ n ∧ n ≤ 2 ^ 53 ∧ weight = .ofNat n

theorem one_le_amount (whole : counted = false → WholeWeight weight) : 1 ≤ amount counted weight := by
  cases counted with
  | true => exact le_rfl
  | false =>
    obtain ⟨n, positive, small, rfl⟩ := whole rfl
    simpa [amount, wholeAmount_ofNat small] using positive

/-! ## The counter's operations, as operations on timed amounts -/

theorem calls_eq_map (m : InMemory) (counted : Bool) (sk : Bytes) :
    m.calls counted sk = (heldTimed (m.entries.lookup sk)).map (countedCall counted) := by
  unfold InMemory.calls
  cases m.entries.lookup sk with
  | none => rfl
  | some e => rfl

/-- Reading the calls commutes with dropping the expired ones. -/
theorem filter_countedCall (counted : Bool) (cutoff : ℤ) (calls : List (ℤ × Binary64)) :
    (calls.filter fun c => cutoff < c.1).map (countedCall counted) =
      (calls.map (countedCall counted)).filter fun r => cutoff < r.1 := by
  rw [List.filter_map]
  rfl

theorem wholeWeight_one : WholeWeight (.ofNat 1) := ⟨1, le_rfl, by norm_num, rfl⟩

/-- Pruning an entry prunes its calls. -/
theorem pruneEntry_calls (counted : Bool) (cutoff : ℤ) (lockstep : Lockstep e.timestamps e.weights) :
    (pruneEntry e cutoff).calls counted = (e.calls counted).filter fun r => cutoff < r.1 := by
  rw [Entry.calls, pruneEntry_timed cutoff lockstep, filter_countedCall]
  rfl

/-- An entry whose slices agree and whose weights the accounting understands. -/
structure Entry.Sound (counted : Bool) (e : Entry) : Prop where
  lockstep : Lockstep e.timestamps e.weights
  whole : counted = false → ∀ c ∈ e.timed, WholeWeight c.2

theorem Entry.Sound.one_le {e : Entry} (sound : e.Sound counted) : ∀ r ∈ e.calls counted, 1 ≤ r.2 := by
  intro r mem
  obtain ⟨c, held, rfl⟩ := List.mem_map.mp mem
  exact one_le_amount fun weighted => sound.whole weighted c held

theorem Entry.Sound.prune {e : Entry} (sound : e.Sound counted) (cutoff : ℤ) :
    (pruneEntry e cutoff).Sound counted := by
  refine ⟨pruneEntry_lockstep cutoff sound.lockstep, fun weighted c mem => ?_⟩
  rw [pruneEntry_timed cutoff sound.lockstep] at mem
  exact sound.whole weighted c (List.mem_of_mem_filter mem)

/-- A counting call prunes, adds one call of weight one, and keeps the newest. -/
theorem incrementEntry_spec {e : Entry} (sound : e.Sound counted) (now windowSec : ℤ) (positive : 1 ≤ maxEntries) :
    let live := ((e.calls counted).filter fun r => now - windowNanos windowSec < r.1) ++ [(now, 1)]
    let e' := incrementEntry e now windowSec maxEntries
    e'.calls counted = live.drop (live.length - maxEntries.toNat) ∧ e'.Sound counted ∧
      e'.windowSec = e.windowSec := by
  intro live e'
  obtain ⟨timed, lockstep, window, -⟩ := incrementEntry_timed sound.lockstep now windowSec positive
  have reading : live = ((e.timed.filter fun c => now - windowNanos windowSec < c.1) ++
      [(now, Binary64.ofNat 1)]).map (countedCall counted) := by
    rw [List.map_append, filter_countedCall]
    simp [live, Entry.calls, countedCall, amount_one]
  refine ⟨?_, ⟨lockstep, fun weighted c mem => ?_⟩, window⟩
  · rw [Entry.calls, timed, List.map_drop, reading, List.length_map]
  · rw [timed] at mem
    rcases List.mem_append.mp (List.mem_of_mem_drop mem) with old | new
    · exact sound.whole weighted c (List.mem_of_mem_filter old)
    · rw [List.mem_singleton.mp new]
      exact wholeWeight_one

/-! ## Admission -/

/-- Every remembered entry of a counter is sound for an accounting. -/
def SoundAt (m : InMemory) (counted : Bool) (sk : Bytes) : Prop := ∀ e, m.entries.lookup sk = some e → e.Sound counted

theorem SoundAt.lockstep (sound : SoundAt m counted sk) : LockstepAt m sk := fun e held => (sound e held).lockstep

/-- Whole weights of everything a sound key holds. -/
theorem SoundAt.timed {counted : Bool} (sound : SoundAt m counted sk) (weighted : counted = false) :
    ∀ c ∈ heldTimed (m.entries.lookup sk), WholeWeight c.2 := by
  intro c mem
  cases held : m.entries.lookup sk with
  | none =>
    rw [held] at mem
    cases mem
  | some e =>
    rw [held] at mem
    exact (sound e held).whole weighted c mem

theorem base_spec (now : ℤ) {b : QuotaBucket} (sound : SoundAt m counted b.slot) :
    let st := bucketState now m b
    st.base.Sound counted ∧ st.base.calls counted =
        (m.calls counted b.slot).filter fun r => now - windowNanos b.windowSec < r.1 := by
  obtain ⟨lockstep, -, timed⟩ := base_timed now sound.lockstep
  refine ⟨⟨lockstep, fun weighted c mem => ?_⟩, ?_⟩
  · rw [timed] at mem
    exact sound.timed weighted c (List.mem_of_mem_filter mem)
  · rw [Entry.calls, timed, filter_countedCall, ← calls_eq_map]

/-- A committed bucket adds its own call to what the window still holds. -/
theorem committed_spec (now : ℤ) {b : QuotaBucket} (sound : SoundAt m counted b.slot)
    (whole : counted = false → WholeWeight (bucketWeight b)) : let st := bucketState now m b
    (st.committed now).calls counted =
        ((m.calls counted b.slot).filter fun r => now - windowNanos b.windowSec < r.1) ++
          [(now, amount counted (bucketWeight b))] ∧
      (st.committed now).Sound counted ∧ (st.committed now).windowSec = st.base.windowSec := by
  obtain ⟨timed, lockstep, window, -⟩ := committed_timed now sound.lockstep
  refine ⟨?_, ⟨lockstep, fun weighted c mem => ?_⟩, window⟩
  · rw [Entry.calls, timed, List.map_append, filter_countedCall, ← calls_eq_map]
    rfl
  · rw [timed] at mem
    rcases List.mem_append.mp mem with old | new
    · exact sound.timed weighted c (List.mem_of_mem_filter old)
    · rw [List.mem_singleton.mp new]
      exact whole weighted

/-- The total a bucket compares tracks what its window holds. -/
theorem Entry.Sound.tracks {e : Entry} (sound : e.Sound counted) :
    Binary64.Tracks ((e.calls counted).map Prod.snd).sum (bucketTotal counted e.timestamps e.weights) := by
  obtain ⟨ts, windowSec, weights⟩ := e
  have length := timedCalls_length sound.lockstep
  simp only [Entry.calls, Entry.timed, List.map_map] at length ⊢
  cases counted with
  | true =>
    have ones : Prod.snd ∘ countedCall true = fun _ : ℤ × Binary64 => 1 := rfl
    simpa [ones, length, bucketTotal] using Binary64.tracks_ofNat ts.length
  | false =>
    cases weights with
    | none =>
      have ones : ((timedCalls ts none).map (Prod.snd ∘ countedCall false)).sum = ts.length := by
        simp [timedCalls, countedCall, amount_one, Function.comp_def]
      rw [ones]
      cases ts with
      | nil => exact Binary64.tracks_ofNat 0
      | cons t rest => exact Binary64.tracks_ofNat _
    | some ws =>
      have same : ws.length = ts.length := sound.lockstep ws rfl
      have seconds : (ts.zip ws).map Prod.snd = ws := List.map_snd_zip (le_of_eq same)
      have whole : ∀ w ∈ ws, WholeWeight w := by
        rw [← seconds]
        exact List.forall_mem_map.mpr (sound.whole rfl)
      have numbers : ws = (ws.map wholeAmount).map Binary64.ofNat := by
        rw [List.map_map]
        refine (List.map_id ws).symm.trans (List.map_congr_left fun w held => ?_)
        obtain ⟨n, _, small, rfl⟩ := whole w held
        simp [wholeAmount_ofNat small]
      have small : ∀ n ∈ ws.map wholeAmount, n ≤ 2 ^ 53 := by
        refine List.forall_mem_map.mpr fun w held => ?_
        obtain ⟨n, _, small, rfl⟩ := whole w held
        rwa [wholeAmount_ofNat small]
      have total : ((timedCalls ts (some ws)).map (Prod.snd ∘ countedCall false)) = ws.map wholeAmount := by
        rw [show Prod.snd ∘ countedCall false = wholeAmount ∘ Prod.snd from rfl, ← List.map_map]
        exact congrArg _ seconds
      rw [total]
      have summed := (Binary64.tracks_ofNat 0).sum small
      rw [← numbers] at summed
      simpa [bucketTotal, same, weightedTotal] using summed

/-- A bucket's reading tracks the amount its window holds before the call. -/
theorem bucketState_tracks (now : ℤ) (sound : SoundAt m b.counted b.slot) :
    Binary64.Tracks (after (now - windowNanos b.windowSec) (m.calls b.counted b.slot)) (bucketState now m b).cur := by
  obtain ⟨baseSound, baseCalls⟩ := base_spec now sound
  have held := baseSound.tracks
  rw [baseCalls] at held
  rw [(bucketState_reading now m b).2.2.2]
  exact held

end Eunox.CallCounter
