import Eunox.Binary64
import Eunox.ByteString

/-! The contract both call-counter backends share: quota buckets, the checks
that run before storage is touched, and the refusals they report. -/
namespace Eunox.CallCounter
open ByteString

/-- `capability.QuotaBucket`. A counted bucket contributes one entry per call
and ignores its weight. -/
structure QuotaBucket where
  key : Bytes
  windowSec : ℤ
  counted : Bool
  weight : Binary64
  limit : Binary64
  deriving DecidableEq

/-- Refusals of the counter itself, apart from an exhausted quota. -/
inductive CounterError where
  | noBuckets
  | duplicateBuckets
  | windowBelowOne (windowSec : ℤ)
  | windowAboveMax (windowSec : ℤ)
  | maxEntriesBelowOne (maxEntries : ℤ)
  | maxEntriesAboveMax (maxEntries : ℤ)
  | weightNotFinite (weight : Binary64)
  | weightNegative (weight : Binary64)
  | weightAboveMax (weight : Binary64)
  | countedLimitBelowOne (limit : Binary64)
  | countedLimitFractional (limit : Binary64)
  | limitNotFinite (limit : Binary64)
  | limitNotPositive (limit : Binary64)
  | limitAboveMax (limit : Binary64)
  | entryLimit (maxKeys : ℤ)
  | weightedEntryLimit (maxWeightedEntries : ℤ)
  deriving DecidableEq

def cleanupMarginFactor : ℤ := 2

/-- One second in nanoseconds, the unit of `time.Duration`. -/
def second : ℤ := 1000000000

/-- `math.MaxInt64 / (cleanupMarginFactor * time.Second)`. -/
def maxWindowSeconds : ℤ := 9223372036854775807 / (cleanupMarginFactor * second)

/-- `math.MaxInt32`. -/
def maxEntriesCap : ℤ := 2147483647

def maxWeightedEntriesPerKey : ℤ := 100000

/-- `1 << 53`. -/
def maxWeightedTotal : Binary64 := .ofNat (2 ^ 53)

/-- The text of a refusal; `render` is `%v` of a double. -/
def CounterError.text (render : Binary64 → String) : CounterError → String
  | .noBuckets => "callcounter: AdmitAll requires at least one bucket"
  | .duplicateBuckets => "callcounter: AdmitAll received duplicate (key, windowSec) buckets"
  | .windowBelowOne windowSec => "callcounter: windowSec must be >= 1, got " ++ toString windowSec
  | .windowAboveMax windowSec => "callcounter: windowSec " ++ toString windowSec ++
      " exceeds maximum " ++ toString maxWindowSeconds ++ " seconds (overflows time.Duration)"
  | .maxEntriesBelowOne maxEntries => "callcounter: maxEntries must be >= 1, got " ++ toString maxEntries
  | .maxEntriesAboveMax maxEntries => "callcounter: maxEntries must be <= " ++
      toString maxEntriesCap ++ ", got " ++ toString maxEntries
  | .weightNotFinite weight => "callcounter: weight must be a finite number, got " ++ render weight
  | .weightNegative weight => "callcounter: weight must not be negative, got " ++ render weight
  | .weightAboveMax weight => "callcounter: weight must be <= " ++ render maxWeightedTotal ++
      " (the largest value both backends represent exactly), got " ++ render weight
  | .countedLimitBelowOne limit => "callcounter: counted bucket limit must be >= 1, got " ++ render limit
  | .countedLimitFractional limit =>
      "callcounter: counted bucket limit must be a whole number of calls, got " ++ render limit
  | .limitNotFinite limit => "callcounter: total limit must be a finite number, got " ++ render limit
  | .limitNotPositive limit => "callcounter: total limit must be > 0, got " ++ render limit
  | .limitAboveMax limit => "callcounter: total limit must be <= " ++ render maxWeightedTotal ++
      " (the largest value both backends represent exactly), got " ++ render limit
  | .entryLimit maxKeys => "callcounter: entry limit reached (" ++ toString maxKeys ++ ")"
  | .weightedEntryLimit maxWeightedEntries => "callcounter: weighted entry limit reached (" ++
      toString maxWeightedEntries ++ " entries in one window)"

/-- `key + ":" + strconv.Itoa(windowSec)`. -/
def storageKey (key : Bytes) (windowSec : ℤ) : Bytes := key ++ 58 :: decimalInt windowSec

/-- One storage key names one `(key, windowSec)` pair. -/
theorem storageKey_inj : storageKey key windowSec = storageKey key' windowSec' ↔
      key = key' ∧ windowSec = windowSec' := by
  constructor
  · intro same
    have parts := append_separator_inj (not_mem_decimalInt (by decide)) (not_mem_decimalInt (by decide)) same
    exact ⟨parts.1, decimalInt_injective parts.2⟩
  · rintro ⟨rfl, rfl⟩
    rfl

def checkWindowSec (windowSec : ℤ) : Except CounterError Unit :=
  if windowSec < 1 then .error (.windowBelowOne windowSec)
  else if maxWindowSeconds < windowSec then .error (.windowAboveMax windowSec)
  else .ok ()

def checkMaxEntries (maxEntries : ℤ) : Except CounterError Unit :=
  if maxEntries < 1 then .error (.maxEntriesBelowOne maxEntries)
  else if maxEntriesCap < maxEntries then .error (.maxEntriesAboveMax maxEntries)
  else .ok ()

def checkWeight (weight : Binary64) : Except CounterError Unit :=
  if weight.isNaN || weight.isInf then .error (.weightNotFinite weight)
  else if weight.lt (.ofNat 0) then .error (.weightNegative weight)
  else if maxWeightedTotal.lt weight then .error (.weightAboveMax weight)
  else .ok ()

def checkCountedLimit (limit : Binary64) : Except CounterError Unit :=
  if limit.lt (.ofNat 1) then .error (.countedLimitBelowOne limit)
  else if !limit.eq limit.trunc then .error (.countedLimitFractional limit)
  else .ok ()

def checkTotalLimit (limit : Binary64) : Except CounterError Unit :=
  if limit.isNaN || limit.isInf then .error (.limitNotFinite limit)
  else if limit.le (.ofNat 0) then .error (.limitNotPositive limit)
  else if maxWeightedTotal.lt limit then .error (.limitAboveMax limit)
  else .ok ()

/-- The checks one bucket passes before the batch is looked at as a whole. -/
def checkBucket (b : QuotaBucket) : Except CounterError Unit := do
  checkWindowSec b.windowSec
  checkTotalLimit b.limit
  if b.counted then checkCountedLimit b.limit else checkWeight b.weight

/-- Two buckets over one storage key would drop or double one of the calls. -/
def checkDistinctBuckets (buckets : List QuotaBucket) : Except CounterError Unit :=
  if (buckets.map fun b => storageKey b.key b.windowSec).Nodup then .ok ()
  else .error .duplicateBuckets

def checkBuckets (buckets : List QuotaBucket) : Except CounterError Unit := do
  if buckets.isEmpty then throw .noBuckets
  buckets.forM checkBucket
  checkDistinctBuckets buckets

end Eunox.CallCounter
