import Eunox.CallCounterMemory
import Eunox.SortedSet

/-! The shared call counter, `callcounter.Redis`: one sorted set per storage
key, scored by microseconds, over a single-node server. Scores and every number
the admission script handles are doubles, as in Lua. Numbers travel between the
process and the server as decimal text that reads back as the same double, so
they are kept as numbers. The server's own faults are left out. -/
namespace Eunox.CallCounter
open ByteString SortedSet

/-- A sorted-set member. The text is unique by itself; a weighted call's member
goes on with `weightMemberSep` and its weight, kept here as the number. -/
structure Member where
  text : Bytes
  weight : Option Binary64
  deriving DecidableEq

/-- Members compare by their text: no two members share it. -/
instance : LT Member := ⟨fun left right => left.text < right.text⟩

instance : DecidableLT Member := fun left right =>
  inferInstanceAs (Decidable (left.text < right.text))

/-- The keys of the server. -/
abbrev Server := Keyspace Bytes Member

structure Redis where
  server : Server
  /-- Random suffix of this process, in hexadecimal. -/
  instanceID : Bytes
  /-- Members drawn so far; an `int64` in the source. -/
  seq : ℕ
  maxWeightedEntries : ℤ

def newRedis (instanceID : Bytes) : Redis where
  server := ∅
  instanceID := instanceID
  seq := 0
  maxWeightedEntries := maxWeightedEntriesPerKey

def redisWindowKey (key : Bytes) (windowSec : ℤ) : Bytes := lit "callcounter:" ++ storageKey key windowSec

/-- `time.Time.UnixMicro`. -/
def unixMicro (t : ℤ) : ℤ := t / 1000

/-- `fmt.Sprintf("%s-%020d-%020d", instanceID, nanos, seq)`. -/
def memberText (instanceID : Bytes) (nanos : ℤ) (seq : ℕ) : Bytes :=
  instanceID ++ 45 :: padded 20 nanos ++ 45 :: padded 20 seq

variable (r : Redis)

variable (clock : ℤ) (server : Server)

def Redis.newMember : Member × Redis :=
  ({ text := memberText r.instanceID clock (r.seq + 1), weight := none },
    { r with seq := r.seq + 1 })

def Redis.newWeightedMember (weight : Binary64) : Member × Redis :=
  let (member, r) := r.newMember clock
  ({ member with weight := some weight }, r)

/-- Error replies of the admission script. -/
inductive ScriptError where
  | missingCeiling
  | weightedEntryLimit (maxWeightedEntries : ℤ)
  deriving DecidableEq

def ScriptError.text : ScriptError → String
  | .missingCeiling => "callcounter: admitAll requires the trailing weighted-entry ceiling argument"
  | .weightedEntryLimit maxWeightedEntries => "callcounter: weighted entry limit reached (" ++
      toString maxWeightedEntries ++ " entries in one window)"

/-- A reply of the server: an integer, a number as text, or several replies. -/
inductive Reply where
  | integer (value : ℤ)
  | numeral (value : Binary64)
  | array (items : List Reply)

/-- `%T` of a decoded reply. -/
def Reply.goType : Reply → String
  | .integer _ => "int64"
  | .numeral _ => "string"
  | .array _ => "[]interface {}"

inductive RedisError where
  | counter (error : CounterError)
  | eval (error : ScriptError)
  | unexpectedReply (reply : Reply)
  | unexpectedType (field : String) (reply : Reply)

/-- The text of an error; `render` is `%v` of a double and `value` of a reply. -/
def RedisError.text (render : Binary64 → String) (value : Reply → String) : RedisError → String
  | .counter error => error.text render
  | .eval error => "redis eval: " ++ error.text
  | .unexpectedReply reply => "redis eval: unexpected reply " ++ reply.goType
  | .unexpectedType field reply => "redis eval: unexpected " ++ field ++ " type " ++ reply.goType ++
      " (value " ++ value reply ++ ")"

/-- The instant until which `EXPIRE` keeps a key of this window. -/
def keyDeadline (windowSec : ℤ) : ℤ := clock + windowSec * cleanupMarginFactor * second

/-- The counting transaction: prune, add, keep the newest, count, renew the time
to live. -/
def Redis.incrementAndGet (key : Bytes) (windowSec maxEntries : ℤ) : Except RedisError ℤ × Redis :=
  match checkWindowSec windowSec, checkMaxEntries maxEntries with
  | .error e, _ => (.error (.counter e), r)
  | .ok (), .error e => (.error (.counter e), r)
  | .ok (), .ok () =>
    let windowKey := redisWindowKey key windowSec
    let cutoff := unixMicro (clock - windowNanos windowSec)
    let (member, r) := r.newMember clock
    let server := r.server.update windowKey (zremrangebyscore (.ofInt cutoff))
    let server := server.update windowKey (zadd (.ofInt (unixMicro clock)) member)
    let server := server.update windowKey (zremrangebyrank 0 (-(maxEntries + 1)))
    let count := (server.read windowKey).length
    (.ok count, { r with server := server.expire windowKey (keyDeadline clock windowSec) })

/-- The arguments of the script for one bucket. -/
structure ScriptBucket where
  key : Bytes
  cutoff : Binary64
  member : Member
  limit : Binary64
  ttlSec : ℤ
  windowMicros : Binary64
  counted : Bool
  weight : Binary64

/-- A member without a weight suffix is a plain counted call. -/
def entryWeight (member : Member) : Binary64 := member.weight.getD (.ofNat 1)

def ScriptBucket.charge (b : ScriptBucket) : Binary64 := if b.counted then .ofNat 1 else b.weight

/-- What the script's first loop learns of a bucket. -/
structure Scanned where
  bucket : ScriptBucket
  total : Binary64
  count : ℕ

def scanBucket (b : ScriptBucket) : Server × Scanned :=
  let server := server.update b.key (zremrangebyscore b.cutoff)
  let entries := zrange 0 (-1) (server.read b.key)
  (server,
    { bucket := b
      total := if b.counted then .ofNat (server.read b.key).length
        else entries.foldl (fun total entry => total.add (entryWeight entry.2)) (.ofNat 0)
      count := entries.length })

def scanBuckets : Server → List ScriptBucket → Server × List Scanned
  | server, [] => (server, [])
  | server, b :: rest =>
    let (server, scanned) := scanBucket server b
    let (server, later) := scanBuckets server rest
    (server, scanned :: later)

def refreshTtls (buckets : List ScriptBucket) : Server :=
  buckets.foldl (fun server b => server.expire b.key (clock + b.ttlSec * second)) server

/-- The total this call would leave. -/
def Scanned.post (s : Scanned) : Binary64 := s.total.add s.bucket.charge

def Scanned.blocked (s : Scanned) : Bool := s.bucket.limit.lt s.post

/-- Walks the oldest entries until they free enough weight. -/
def freeingEntry (needed windowMicros now : Binary64) : Binary64 → ZSet Member → Binary64
  | _, [] => .ofNat 0
  | freed, (score, member) :: rest =>
    let freed := freed.add (entryWeight member)
    if needed.le freed then (score.add windowMicros).sub now
    else freeingEntry needed windowMicros now freed rest

/-- A retry instant already past is now. -/
def clampRetry (retry : Binary64) : Binary64 := if retry.lt (.ofNat 0) then .ofNat 0 else retry

/-- The last entry that has to age out is read by its rank. -/
def countedRetry (entries : ZSet Member) (total limit windowMicros now : Binary64) : Binary64 :=
  let idx := (total.sub limit).toInt
  match (zrange idx idx entries).head? with
  | some pivot => (pivot.1.add windowMicros).sub now
  | none => .ofNat 0

def scriptRetry (now : Binary64) (s : Scanned) : Binary64 :=
  clampRetry
    (if s.bucket.counted then
      countedRetry (server.read s.bucket.key) s.total s.bucket.limit s.bucket.windowMicros now
    else
      freeingEntry ((s.total.add s.bucket.charge).sub s.bucket.limit) s.bucket.windowMicros now
        (.ofNat 0) (zrange 0 (-1) (server.read s.bucket.key)))

/-- A recorded weighted call past the retention ceiling. -/
def Scanned.pastCeiling (maxWeightedEntries : ℤ) (s : Scanned) : Bool :=
  !s.bucket.counted && !(s.total.add s.bucket.weight).eq s.total && maxWeightedEntries < s.count + 1

/-- A weight that does not move the total is not recorded. -/
def commitScanned (clock : ℤ) (now : Binary64) (server : Server) (s : Scanned) : Server :=
  let server := if s.post.eq s.total then server
    else server.update s.bucket.key (zadd now s.bucket.member)
  server.expire s.bucket.key (clock + s.bucket.ttlSec * second)

def scriptMaxTotal (scanned : List Scanned) : Binary64 :=
  scanned.foldl (fun largest s => if largest.lt s.post then s.post else largest) (.ofNat 0)

/-- `admitAllScript`. The ceiling is absent when the trailing argument is. -/
def admitAllScript (server : Server) (clock : ℤ) (now : Binary64)
    (buckets : List ScriptBucket) (ceiling : Option ℤ) : Except ScriptError Reply × Server :=
  match ceiling with
  | none => (.error .missingCeiling, server)
  | some maxWeightedEntries =>
    let (server, scanned) := scanBuckets server buckets
    match scanned.findIdx? Scanned.blocked, scanned.find? Scanned.blocked with
    | some index, some s =>
      let server := refreshTtls clock server buckets
      (.ok (.array [.integer 0, .integer (index + 1), .numeral s.total,
        .integer (scriptRetry server now s).toInt]), server)
    | _, _ =>
      if 0 < maxWeightedEntries ∧ scanned.any (Scanned.pastCeiling maxWeightedEntries) then
        (.error (.weightedEntryLimit maxWeightedEntries), refreshTtls clock server buckets)
      else
        (.ok (.array [.integer 1, .integer 0, .numeral (scriptMaxTotal scanned), .integer 0]),
          scanned.foldl (commitScanned clock now) server)

/-- Decodes the script's reply; a changed encoding is an error. -/
def parseAdmitAllReply : Reply → Except RedisError Admission
  | .array [admitted, denied, total, retry] =>
    match admitted with
    | .integer admittedRaw =>
      match denied with
      | .integer deniedRaw =>
        match total with
        | .numeral total =>
          match retry with
          | .integer retryMicros =>
            if admittedRaw = 1 then
              .ok { admitted := true, deniedIndex := 0, total, retryAfter := 0 }
            else
              .ok { admitted := false, deniedIndex := (deniedRaw - 1).toNat, total
                    retryAfter := retryMicros * 1000 }
          | other => .error (.unexpectedType "retryMicros" other)
        | other => .error (.unexpectedType "total" other)
      | other => .error (.unexpectedType "deniedIndex" other)
    | other => .error (.unexpectedType "admitted" other)
  | other => .error (.unexpectedReply other)

/-- The script's arguments for one bucket. A weighted bucket draws a second
member and discards the first. -/
def Redis.scriptBucket (b : QuotaBucket) : ScriptBucket × Redis :=
  let (member, r) := r.newMember clock
  let (member, r) := if b.counted then (member, r) else r.newWeightedMember clock b.weight
  ({ key := redisWindowKey b.key b.windowSec
     cutoff := .ofInt (unixMicro (clock - windowNanos b.windowSec))
     member
     limit := b.limit
     ttlSec := b.windowSec * cleanupMarginFactor
     windowMicros := .ofInt (b.windowSec * 1000000)
     counted := b.counted
     weight := b.weight }, r)

def Redis.scriptBuckets (clock : ℤ) : Redis → List QuotaBucket → List ScriptBucket × Redis
  | r, [] => ([], r)
  | r, b :: rest =>
    let (bucket, r) := r.scriptBucket clock b
    let (later, r) := Redis.scriptBuckets clock r rest
    (bucket :: later, r)

def Redis.admitAll (buckets : List QuotaBucket) : Except RedisError Admission × Redis :=
  match checkBuckets buckets with
  | .error e => (.error (.counter e), r)
  | .ok () =>
    let (scriptBuckets, r) := r.scriptBuckets clock buckets
    let (reply, server) := admitAllScript r.server clock (.ofInt (unixMicro clock)) scriptBuckets
      (some r.maxWeightedEntries)
    let r := { r with server }
    match reply with
    | .error e => (.error (.eval e), r)
    | .ok reply => (parseAdmitAllReply reply, r)

def Redis.peek (key : Bytes) (windowSec : ℤ) : Except RedisError ℤ :=
  match checkWindowSec windowSec with
  | .error e => .error (.counter e)
  | .ok () =>
    .ok (zcountAbove (.ofInt (unixMicro (clock - windowNanos windowSec)))
      (r.server.read (redisWindowKey key windowSec)))

end Eunox.CallCounter
