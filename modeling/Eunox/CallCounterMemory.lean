import Mathlib.Data.List.AList
import Eunox.CallCounter

/-! The in-process call counter, `callcounter.InMemory`. Instants are
nanoseconds; every operation takes the clock reading it would have made. Slice
capacity and the compaction that reclaims it have no observable effect and are
left out. A nil weight slice and an empty one differ, so weights are optional. -/
namespace Eunox.CallCounter
open ByteString

/-- The calls remembered for one storage key. Absent weights mean a key that
only ever took counted calls, each weighing one. -/
structure Entry where
  timestamps : List ℤ
  windowSec : ℤ
  weights : Option (List Binary64)
  deriving DecidableEq

structure InMemory where
  entries : AList fun _ : Bytes => Entry
  /-- Zero leaves the number of storage keys unbounded. -/
  maxKeys : ℤ
  maxWeightedEntries : ℤ

def newInMemory (maxKeys : ℤ) : InMemory where
  entries := ∅
  maxKeys := maxKeys
  maxWeightedEntries := maxWeightedEntriesPerKey

variable (m : InMemory) (clock : ℤ) (key : Bytes) (windowSec : ℤ)

def InMemory.store (sk : Bytes) (e : Entry) : InMemory := { m with entries := m.entries.insert sk e }

/-- `time.Duration(windowSec) * time.Second`. -/
def windowNanos : ℤ := windowSec * second

/-- Recorded instants have microsecond precision. -/
def floorToMicro (t : ℤ) : ℤ := t - t % 1000

/-- Left-to-right accumulation in double precision. -/
def weightedTotal (liveWeights : List Binary64) : Binary64 := liveWeights.foldl Binary64.add (.ofNat 0)

def isWeighted (e : Entry) : Bool :=
  match e.weights with
  | none => false
  | some weights => weights.length == e.timestamps.length

/-- Timestamps strictly after the cutoff survive; weights go in lockstep. -/
def pruneInWindow (e : Entry) (cutoff : ℤ) : List ℤ × Option (List Binary64) × Bool :=
  let weighted := isWeighted e
  let kept := (e.timestamps.zip (e.weights.getD [])).filter fun call => cutoff < call.1
  (e.timestamps.filter fun ts => cutoff < ts,
    if weighted then some (kept.map Prod.snd) else none, weighted)

def appendCall (ts : List ℤ) (weights : Option (List Binary64)) (now : ℤ) (weight : Binary64)
    (weighted : Bool) : List ℤ × Option (List Binary64) :=
  (ts ++ [now], if weighted then some (weights.getD [] ++ [weight]) else weights)

/-- The newest `n` entries. -/
def trimOldest (ts : List ℤ) (weights : Option (List Binary64)) (n : ℤ) :
    List ℤ × Option (List Binary64) :=
  if (ts.length : ℤ) ≤ n then (ts, weights)
  else
    let drop := ts.length - n.toNat
    (ts.drop drop, weights.map (List.drop drop))

/-- An emptied weighted entry keeps an empty slice and so stays weighted; an
entry that is not weighted keeps the weights it had. -/
def storeEntry (e : Entry) (ts : List ℤ) (weights : Option (List Binary64)) (weighted : Bool) :
    Entry :=
  { e with
    timestamps := ts
    weights := if weighted then some (weights.getD []) else e.weights }

def InMemory.admitNewKey : Except CounterError Unit :=
  if 0 < m.maxKeys ∧ m.maxKeys ≤ m.entries.entries.length then .error (.entryLimit m.maxKeys)
  else .ok ()

/-- The entry a counting call leaves behind. -/
def incrementEntry (e : Entry) (now windowSec maxEntries : ℤ) : Entry :=
  let (valid, validWeights, weighted) := pruneInWindow e (now - windowNanos windowSec)
  let (valid, validWeights) := appendCall valid validWeights now (.ofNat 1) weighted
  let (valid, validWeights) := trimOldest valid validWeights maxEntries
  storeEntry e valid validWeights weighted

def incrementAndGet (maxEntries : ℤ) : Except CounterError ℤ × InMemory :=
  match checkWindowSec windowSec, checkMaxEntries maxEntries with
  | .error e, _ => (.error e, m)
  | .ok (), .error e => (.error e, m)
  | .ok (), .ok () =>
    let sk := storageKey key windowSec
    let record (e : Entry) : Except CounterError ℤ × InMemory :=
      let e := incrementEntry e (floorToMicro clock) windowSec maxEntries
      (.ok e.timestamps.length, m.store sk e)
    match m.entries.lookup sk with
    | some e => record e
    | none =>
      match m.admitNewKey with
      | .error e => (.error e, m)
      | .ok () => record { timestamps := [], windowSec, weights := none }

/-- What one call contributes to a bucket. -/
def bucketWeight (b : QuotaBucket) : Binary64 := if b.counted then .ofNat 1 else b.weight

/-- A bucket's in-window total under its own accounting. -/
def bucketTotal (counted : Bool) (ts : List ℤ) (weights : Option (List Binary64)) : Binary64 :=
  if counted then .ofNat ts.length
  else if (weights.getD []).length ≠ ts.length then .ofNat ts.length
  else weightedTotal (weights.getD [])

/-- The wait until the entry at index `cur - limit` leaves the window. -/
def retryAfterFromPivot (valid : List ℤ) (cur limit window now : ℤ) : ℤ :=
  if 0 ≤ cur - limit then
    match valid[(cur - limit).toNat]? with
    | some ts => max (ts + window - now) 0
    | none => 0
  else 0

/-- The wait until enough of the oldest weight has left the window. -/
def freeWeight (needed : Binary64) (window now : ℤ) : Binary64 → List (ℤ × Binary64) → ℤ
  | _, [] => 0
  | freed, (ts, weight) :: rest =>
    let freed := freed.add weight
    if needed.le freed then max (ts + window - now) 0 else freeWeight needed window now freed rest

def retryAfterForWeight (valid : List ℤ) (weights : List Binary64) (needed : Binary64)
    (window now : ℤ) : ℤ :=
  if needed.le (.ofNat 0) then 0
  else freeWeight needed window now (.ofNat 0) (valid.zip weights)

def bucketRetryAfter (b : QuotaBucket) (valid : List ℤ) (weights : Option (List Binary64))
    (cur : Binary64) (window now : ℤ) : ℤ :=
  if b.counted then retryAfterFromPivot valid cur.toInt b.limit.toInt window now
  else
    let needed := (cur.add (bucketWeight b)).sub b.limit
    let weights := weights.getD []
    let weights := if weights.length ≠ valid.length then List.replicate valid.length (.ofNat 1)
      else weights
    retryAfterForWeight valid weights needed window now

/-- One bucket of a batch after its entry was pruned. -/
structure BucketState where
  b : QuotaBucket
  sk : Bytes
  /-- Absent until the bucket's first recorded call. -/
  e : Option Entry
  valid : List ℤ
  weights : Option (List Binary64)
  weighted : Bool
  window : ℤ
  cur : Binary64

/-- The total this call would leave. -/
def BucketState.post (st : BucketState) : Binary64 := st.cur.add (bucketWeight st.b)

/-- Whether the call moves the total and so is written. -/
def BucketState.record (st : BucketState) : Bool := !st.post.eq st.cur

def BucketState.writeWeighted (st : BucketState) : Bool := st.weighted || !st.b.counted

/-- The entry with its expired calls gone. -/
def pruneEntry (e : Entry) (cutoff : ℤ) : Entry :=
  let (valid, validWeights, weighted) := pruneInWindow e cutoff
  storeEntry e valid validWeights weighted

/-- A bucket over the pruned entry of its key. -/
def BucketState.held (b : QuotaBucket) (pruned : Entry) (weighted : Bool) : BucketState where
  b := b
  sk := storageKey b.key b.windowSec
  e := some pruned
  valid := pruned.timestamps
  weights := pruned.weights
  weighted := weighted
  window := windowNanos b.windowSec
  cur := bucketTotal b.counted pruned.timestamps pruned.weights

/-- A bucket whose key holds nothing. -/
def BucketState.unseen (b : QuotaBucket) : BucketState where
  b := b
  sk := storageKey b.key b.windowSec
  e := none
  valid := []
  weights := none
  weighted := false
  window := windowNanos b.windowSec
  cur := .ofNat 0

/-- Prunes the bucket's entry, if it has one, and reads its total. -/
def readBucket (now : ℤ) (m : InMemory) (b : QuotaBucket) : InMemory × BucketState :=
  match m.entries.lookup (storageKey b.key b.windowSec) with
  | some e =>
    let pruned := pruneEntry e (now - windowNanos b.windowSec)
    (m.store (storageKey b.key b.windowSec) pruned, .held b pruned (isWeighted e))
  | none => (m, .unseen b)

def readBuckets (now : ℤ) : InMemory → List QuotaBucket → InMemory × List BucketState
  | m, [] => (m, [])
  | m, b :: rest =>
    let (m, st) := readBucket now m b
    let (m, states) := readBuckets now m rest
    (m, st :: states)

/-- Whether this bucket has no headroom for its own call. -/
def BucketState.blocked (st : BucketState) : Bool := st.b.limit.lt st.post

/-- The entry an admitted call leaves behind. A key that only held counted
calls gets its implicit weights of one written out first. -/
def BucketState.committed (now : ℤ) (st : BucketState) : Entry :=
  let e := st.e.getD { timestamps := [], windowSec := st.b.windowSec, weights := none }
  let weights := if st.writeWeighted ∧ (e.weights.getD []).length ≠ e.timestamps.length then
      some (List.replicate e.timestamps.length (.ofNat 1)) else e.weights
  let (ts, weights) := appendCall e.timestamps weights now (bucketWeight st.b) st.writeWeighted
  storeEntry e ts weights st.writeWeighted

def commitBucket (now : ℤ) (m : InMemory) (st : BucketState) : InMemory :=
  if st.record then m.store st.sk (st.committed now) else m

/-- Reply of `AdmitAll`; the denied index is meaningful only for a refusal. -/
structure Admission where
  admitted : Bool
  deniedIndex : ℕ
  total : Binary64
  retryAfter : ℤ
  deriving DecidableEq

/-- The largest total any bucket of the batch is left with. -/
def maxPost (states : List BucketState) : Binary64 :=
  states.foldl (fun largest st => if largest.lt st.post then st.post else largest) (.ofNat 0)

/-- The two retention ceilings, checked for the whole batch before any write. -/
def InMemory.checkCeilings (states : List BucketState) : Except CounterError Unit :=
  let newKeys := states.countP fun st => st.record && st.e.isNone
  if 0 < m.maxKeys ∧ m.maxKeys < m.entries.entries.length + newKeys then
    .error (.entryLimit m.maxKeys)
  else if states.any (fun st => st.record && !st.b.counted && 0 < m.maxWeightedEntries &&
      m.maxWeightedEntries ≤ st.valid.length) then
    .error (.weightedEntryLimit m.maxWeightedEntries)
  else .ok ()

def admitAll (buckets : List QuotaBucket) : Except CounterError Admission × InMemory :=
  match checkBuckets buckets with
  | .error e => (.error e, m)
  | .ok () =>
    let now := floorToMicro clock
    let (m, states) := readBuckets now m buckets
    match states.findIdx? BucketState.blocked, states.find? BucketState.blocked with
    | some index, some st =>
      (.ok { admitted := false, deniedIndex := index, total := st.cur
             retryAfter := bucketRetryAfter st.b st.valid st.weights st.cur st.window now }, m)
    | _, _ =>
      match m.checkCeilings states with
      | .error e => (.error e, m)
      | .ok () =>
        (.ok { admitted := true, deniedIndex := 0, total := maxPost states, retryAfter := 0 },
          states.foldl (commitBucket now) m)

def peek : Except CounterError ℤ :=
  match checkWindowSec windowSec with
  | .error e => .error e
  | .ok () =>
    match m.entries.lookup (storageKey key windowSec) with
    | none => .ok 0
    | some e => .ok (e.timestamps.countP fun ts => floorToMicro clock - windowNanos windowSec < ts)

/-- Whether an entry may be reclaimed: nothing in it, or its newest call is at
least two of its own windows old. -/
def shouldDeleteEntry (e : Entry) (now : ℤ) : Bool :=
  match e.timestamps with
  | [] => true
  | first :: rest =>
    let staleAfter := if 0 < e.windowSec then e.windowSec * cleanupMarginFactor * second
      else 24 * 3600 * second
    rest.foldl max first ≤ now - staleAfter

/-- The read-only first phase of `Cleanup`. -/
def InMemory.stale (now : ℤ) : List Bytes :=
  (m.entries.entries.filter fun kv => shouldDeleteEntry kv.2 now).map Sigma.fst

def InMemory.reclaim (now : ℤ) (m : InMemory) (key : Bytes) : InMemory :=
  match m.entries.lookup key with
  | some e => if shouldDeleteEntry e now then { m with entries := m.entries.erase key } else m
  | none => m

/-- One locked batch of the second phase: each key is judged again. -/
def cleanupBatch (now : ℤ) (keys : List Bytes) : InMemory := keys.foldl (InMemory.reclaim now) m

def cleanupDeleteBatch : ℕ := 256

/-- `Cleanup` when nothing runs between its batches; `clock i` is the reading
before batch `i`. -/
def cleanup (now : ℤ) (clock : ℕ → ℤ) : InMemory :=
  ((m.stale now).toChunks cleanupDeleteBatch).zipIdx.foldl
    (fun m batch => cleanupBatch m (clock batch.2) batch.1) m

end Eunox.CallCounter
