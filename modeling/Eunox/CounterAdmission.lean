import Eunox.CounterMirror

/-! One operation on one storage key, in both backends: a counting call, a
bucket's reading, its retry estimate and its commit. Each lemma starts from a
key the backends agree on and says that they answer alike and agree again. -/
namespace Eunox.CallCounter
open ByteString SortedSet

section OneKey
variable {id : Bytes} {now : ℤ} {seq : ℕ} {windowSec : ℤ} {held : Option Entry}
  {set : ZSet Member} {deadline : Option ℤ} {calls : List Drawn}

theorem Fresh.renewed {before after : Option ℤ} (fresh : Fresh now windowSec after) :
    Renewed now windowSec before after := .inr fresh

variable (mirror : Mirrors id now seq windowSec held set deadline calls)
  (precise : ExactWindow now windowSec) (next : seq < number) (small : number < 10 ^ 20)
include mirror precise next small

/-- The call a backend records now under the next sequence numbers. -/
theorem Mirrors.append (weight : Option Binary64) : let new : Drawn := ⟨now, number, weight⟩
    let live := calls.filter (Drawn.live now windowSec)
    zadd (.ofInt (unixMicro now)) { text := memberText id now number, weight }
        (zremrangebyscore (.ofInt (unixMicro (now - windowNanos windowSec))) set) =
      (live ++ [new]).map (Drawn.stored id) ∧
    ∀ c ∈ live ++ [new], 0 ≤ c.nanos ∧ c.nanos ≤ now ∧ c.seq ≤ number := by
  intro new live
  have inside : ∀ c ∈ live, c ∈ calls := fun c mem => List.mem_of_mem_filter mem
  refine ⟨?_, List.forall_mem_append.mpr ⟨fun c old => ?_, List.forall_mem_singleton.mpr ⟨precise.1, le_rfl, le_rfl⟩⟩⟩
  · rw [mirror.pruned precise]
    refine zadd_stored id new (precise.drawn precise.1 le_rfl) small
      (fun c mem => mirror.scores precise c (inside c mem)) fun c mem => ?_
    obtain ⟨_, before, drawn⟩ := mirror.past c (inside c mem)
    exact ⟨before, lt_of_le_of_lt drawn next⟩
  · obtain ⟨nonneg, before, drawn⟩ := mirror.past c (inside c old)
    exact ⟨nonneg, before, drawn.trans next.le⟩

/-- A counting call: both backends drop what expired, add the call, keep the
newest and report how many there are. -/
theorem Mirrors.increment (positive : 1 ≤ maxEntries) (capped : maxEntries ≤ 2 ^ 53) (fresh : Fresh now windowSec after) :
    let e' := incrementEntry (held.getD ⟨[], windowSec, none⟩) (floorToMicro now) windowSec maxEntries
    let set' := zremrangebyrank 0 (-(maxEntries + 1))
      (zadd (.ofInt (unixMicro now)) { text := memberText id now number, weight := none }
        (zremrangebyscore (.ofInt (unixMicro (now - windowNanos windowSec))) set))
    e'.timestamps.length = set'.length ∧ ∃ calls', Mirrors id now number windowSec (some e') set' after calls' := by
  intro e' set'
  set live := calls.filter (Drawn.live now windowSec) with liveDef
  obtain ⟨added, past⟩ := mirror.append precise next small none
  set grown := live ++ [(⟨now, number, none⟩ : Drawn)] with grownDef
  obtain ⟨n, count⟩ := Int.eq_ofNat_of_zero_le (by omega : 0 ≤ maxEntries)
  have ranked : set' = (grown.drop (grown.length - n)).map (Drawn.stored id) := by
    simp only [set']
    rw [added, count, zremrangebyrank_keep, List.map_drop, List.length_map]
  have lockstep : Lockstep (held.getD ⟨[], windowSec, none⟩).timestamps
      (held.getD ⟨[], windowSec, none⟩).weights := by
    cases entry : held with
    | none => exact nofun
    | some e => exact mirror.lockstep e entry
  have before : (held.getD ⟨[], windowSec, none⟩).timed = heldTimed held := by
    cases held <;> rfl
  obtain ⟨timed, step, -, -⟩ := incrementEntry_timed lockstep (floorToMicro now) windowSec positive
  have calls' : e'.timed = (grown.drop (grown.length - n)).map Drawn.timed := by
    have whole : ((heldTimed held).filter fun c => floorToMicro now - windowNanos windowSec < c.1) ++
        [(floorToMicro now, .ofNat 1)] = grown.map Drawn.timed := by
      rw [mirror.live, grownDef, List.map_append]
      rfl
    rw [before, whole] at timed
    rw [timed, List.map_drop, List.length_map, count]
    rfl
  have length : e'.timestamps.length = (grown.drop (grown.length - n)).length := by
    rw [← timedCalls_length step, ← List.length_map Drawn.timed, ← calls']
    rfl
  refine ⟨by rw [length, ranked, List.length_map], grown.drop (grown.length - n), ?_⟩
  rw [ranked]
  refine .of_exact (fun c mem => past c (List.mem_of_mem_drop mem)) ?_ ?_ calls'
    (fresh.kept fun c mem => (past c (List.mem_of_mem_drop mem)).2.1)
  · intro e same
    exact Option.some.inj same ▸ step
  · intro e same
    rw [← Option.some.inj same, length, List.length_drop]
    omega

end OneKey

/-! ## A bucket of a batch -/

/-- The script arguments of a bucket whose member drew this number. -/
def scriptOf (id : Bytes) (clock : ℤ) (b : QuotaBucket) (number : ℕ) : ScriptBucket where
  key := redisWindowKey b.key b.windowSec
  cutoff := .ofInt (unixMicro (clock - windowNanos b.windowSec))
  member := { text := memberText id clock number, weight := if b.counted then none else some b.weight }
  limit := b.limit
  ttlSec := b.windowSec * cleanupMarginFactor
  windowMicros := .ofInt (b.windowSec * 1000000)
  counted := b.counted
  weight := b.weight

/-- A bucket as the script reads it from the server before the call. -/
def scanOf (server : Server) (b : ScriptBucket) : Scanned := (scanBucket server b).2

/-- A bucket whose member drew this number, as the script reads it. -/
abbrev Redis.scanned (r : Redis) (clock : ℤ) (b : QuotaBucket) (number : ℕ) : Scanned :=
  scanOf r.server (scriptOf r.instanceID clock b number)

/-- The server key of a bucket. -/
def QuotaBucket.redisSlot (b : QuotaBucket) : Bytes := redisWindowKey b.key b.windowSec

/-- Both backends agree on the key of a bucket. -/
def BucketMirrors (now : ℤ) (m : InMemory) (r : Redis) (b : QuotaBucket) (calls : List Drawn) : Prop :=
  Mirrors r.instanceID now r.seq b.windowSec (m.entries.lookup b.slot) (r.server.read b.redisSlot)
    (r.server.deadline b.redisSlot) calls

section Bucket
variable {now : ℤ} {m : InMemory} {r : Redis} {b : QuotaBucket} {calls : List Drawn}

section
variable (mirror : BucketMirrors now m r b calls)
include mirror

/-- The in-process counter's view of the bucket: the calls inside its window. -/
theorem BucketMirrors.base :
    let st := bucketState (floorToMicro now) m b
    Lockstep st.base.timestamps st.base.weights ∧ st.base.timestamps.length ≤ 2 ^ 53 ∧
      st.base.timed = (calls.filter (Drawn.live now b.windowSec)).map Drawn.timed := by
  intro st
  obtain ⟨lockstep, -, timed⟩ := base_timed (floorToMicro now) mirror.lockstep
  refine ⟨lockstep, ?_, timed.trans mirror.live⟩
  simp only [st, bucketState, readBucket]
  cases entry : m.entries.lookup (storageKey b.key b.windowSec) with
  | none => exact Nat.zero_le _
  | some e => exact (List.length_filter_le _ _).trans (mirror.bounded e entry)

variable (precise : ExactWindow now b.windowSec)
include precise

/-- Both backends read the same total from the bucket. -/
theorem BucketMirrors.reading (number : ℕ) :
    let st := bucketState (floorToMicro now) m b
    let s := r.scanned now b number
    s.total = st.cur ∧ s.count = st.valid.length ∧
      st.valid.length = (calls.filter (Drawn.live now b.windowSec)).length := by
  intro st s
  obtain ⟨lockstep, bounded, timed⟩ := mirror.base
  obtain ⟨valid, -, -, cur⟩ := bucketState_reading (floorToMicro now) m b
  have pruned := mirror.pruned precise
  have length : st.valid.length = (calls.filter (Drawn.live now b.windowSec)).length := by
    rw [valid, ← timedCalls_length lockstep, ← List.length_map Drawn.timed, ← timed]
    rfl
  have entries : (r.server.update (scriptOf r.instanceID now b number).key
      (zremrangebyscore (scriptOf r.instanceID now b number).cutoff)).read (scriptOf r.instanceID now b number).key =
      (calls.filter (Drawn.live now b.windowSec)).map (Drawn.stored r.instanceID) := by
    rw [Keyspace.read_update, if_pos rfl]
    exact pruned
  refine ⟨?_, ?_, length⟩
  · simp only [s, scanOf, scanBucket, entries, zrange_all]
    rw [cur, bucketTotal_timed b.counted lockstep bounded,
      show timedCalls st.base.timestamps st.base.weights = _ from timed, foldl_entryWeight,
      List.length_map, List.length_map]
    rfl
  · simp only [s, scanOf, scanBucket, entries, zrange_all]
    rw [length, List.length_map]

/-- What follows from equal readings: the same total after the call, the same
verdict on headroom and on whether the call is written. -/
theorem BucketMirrors.post (number : ℕ) :
    let st := bucketState (floorToMicro now) m b
    let s := r.scanned now b number
    s.post = st.post ∧ s.blocked = st.blocked ∧ s.post.eq s.total = !st.record := by
  intro st s
  obtain ⟨total, -, -⟩ := mirror.reading precise number
  have own : st.b = b := bucketState_b (floorToMicro now) m b
  have post : s.post = st.post := by
    unfold Scanned.post BucketState.post
    rw [total, own]
    rfl
  refine ⟨post, ?_, ?_⟩
  · unfold Scanned.blocked BucketState.blocked
    rw [post, own]
    rfl
  · rw [BucketState.record, Bool.not_not, post, total]

/-- Both backends hold the bucket to the same retention ceiling. -/
theorem BucketMirrors.ceiling (number : ℕ) (maxWeightedEntries : ℤ) :
    let st := bucketState (floorToMicro now) m b
    let s := r.scanned now b number
    s.pastCeiling maxWeightedEntries =
      (st.record && !st.b.counted && decide (maxWeightedEntries ≤ st.valid.length)) := by
  intro st s
  obtain ⟨total, count, -⟩ := mirror.reading precise number
  obtain ⟨post, -, written⟩ := mirror.post precise number
  have own : st.b = b := bucketState_b (floorToMicro now) m b
  have counted : s.bucket.counted = b.counted := rfl
  unfold Scanned.pastCeiling
  rw [counted, own, count]
  cases kind : b.counted with
  | true => simp
  | false =>
    have charge : s.total.add s.bucket.weight = s.post := by
      unfold Scanned.post ScriptBucket.charge
      rw [counted, kind]
      rfl
    rw [charge, written]
    simp [st]

omit mirror precise in
/-- The counted pivot: the call whose expiry brings the count below the limit. -/
private theorem pivot_agrees {id : Bytes} {live : List Drawn}
    (precise : ExactWindow now windowSec) (past : ∀ c ∈ live, 0 ≤ c.nanos ∧ c.nanos ≤ now)
    (bounded : live.length ≤ 2 ^ 53) (full : limit ≤ live.length) :
    (clampRetry (countedRetry (live.map (Drawn.stored id)) (.ofNat live.length) (.ofNat limit)
        (.ofInt (windowSec * 1000000)) (.ofInt (unixMicro now)))).toInt * 1000 =
      retryAfterFromPivot (live.map fun c => c.timed.1) (Binary64.ofNat live.length).toInt
        (Binary64.ofNat limit).toInt (windowNanos windowSec) (floorToMicro now) := by
  have asInt (n : ℕ) : Binary64.ofNat n = .ofInt n := by simp [Binary64.ofNat, Binary64.ofInt]
  have range {n : ℕ} (small : n ≤ 2 ^ 53) : |(n : ℤ)| ≤ 2 ^ 53 := by
    rw [Nat.abs_cast]
    exact_mod_cast small
  have gap : |(live.length : ℤ) - limit| ≤ 2 ^ 53 := by rw [abs_le]; omega
  have index : ((Binary64.ofNat live.length).sub (.ofNat limit)).toInt = ((live.length - limit : ℕ) : ℤ) := by
    rw [asInt, asInt, Binary64.sub_ofInt (range bounded) (range (full.trans bounded)), Binary64.toInt_ofInt gap]
    omega
  have element : (zrange ((live.length - limit : ℕ) : ℤ) ((live.length - limit : ℕ) : ℤ)
      (live.map (Drawn.stored id))).head? = (live[live.length - limit]?).map (Drawn.stored id) := by
    rw [zrange_single (by omega), List.getElem?_map]
    rfl
  have found : (live.map fun c => c.timed.1)[((live.length : ℤ) - limit).toNat]? =
      (live[live.length - limit]?).map fun c => c.timed.1 := by
    rw [List.getElem?_map, show ((live.length : ℤ) - limit).toNat = live.length - limit by omega]
  rw [Binary64.toInt_ofNat bounded, Binary64.toInt_ofNat (full.trans bounded), retryAfterFromPivot,
    if_pos (by omega), found]
  simp only [countedRetry, index, element]
  cases pivot : live[live.length - limit]? with
  | none => exact congrArg (· * 1000) clampRetry_zero
  | some c =>
    obtain ⟨nonneg, before⟩ := past c (List.mem_of_getElem? pivot)
    simp only [Option.map_some, Drawn.stored]
    rw [Drawn.remaining_script precise nonneg before, clampRetry_remaining precise nonneg before]

/-- A blocked bucket frees headroom at the same instant in both backends. -/
theorem BucketMirrors.retry (number : ℕ) (valid : checkBucket b = .ok ())
    {server : Server} (pruned : server.read b.redisSlot =
      (calls.filter (Drawn.live now b.windowSec)).map (Drawn.stored r.instanceID))
    (blocked : (bucketState (floorToMicro now) m b).blocked = true) :
    let st := bucketState (floorToMicro now) m b
    let s := r.scanned now b number
    (scriptRetry server (.ofInt (unixMicro now)) s).toInt * 1000 =
      bucketRetryAfter st.b st.valid st.weights st.cur st.window (floorToMicro now) := by
  intro st s
  set live := calls.filter (Drawn.live now b.windowSec) with liveDef
  obtain ⟨lockstep, bounded, timed⟩ := mirror.base
  obtain ⟨ownValid, ownWeights, ownWindow, cur⟩ := bucketState_reading (floorToMicro now) m b
  obtain ⟨total, -, length⟩ := mirror.reading precise number
  have own : st.b = b := bucketState_b (floorToMicro now) m b
  have past : ∀ c ∈ live, 0 ≤ c.nanos ∧ c.nanos ≤ now := fun c mem =>
    ⟨(mirror.past c (List.mem_of_mem_filter mem)).1, (mirror.past c (List.mem_of_mem_filter mem)).2.1⟩
  have read : server.read s.bucket.key = live.map (Drawn.stored r.instanceID) := pruned
  have small : live.length ≤ 2 ^ 53 := by
    rw [← length, ownValid]
    exact bounded
  obtain ⟨-, totalLimit, countedLimit, -⟩ := checkBucket_ok valid
  unfold scriptRetry bucketRetryAfter
  rw [own, ownWindow, show s.bucket.counted = b.counted from rfl]
  cases kind : b.counted with
  | true =>
    obtain ⟨limit, -, fits, bound⟩ := checkCountedLimit_ok totalLimit (countedLimit kind)
    have count : st.cur = .ofNat live.length := by
      rw [cur, bucketTotal, kind, if_pos rfl, ← ownValid, length]
    have full : limit ≤ live.length := by
      rcases small.lt_or_eq with below | top
      · have post : st.post = .ofNat (live.length + 1) := by
          rw [BucketState.post, count, own, bucketWeight, kind, if_pos rfl, Binary64.add_ofNat (by omega)]
        rw [BucketState.blocked, post, own, bound, Binary64.lt_ofNat fits (by omega)] at blocked
        have := of_decide_eq_true blocked
        omega
      · omega
    have stamps : st.valid = live.map fun c => c.timed.1 := by
      rw [ownValid, ← timedCalls_instants lockstep,
        show timedCalls st.base.timestamps st.base.weights = _ from timed, List.map_map]
      rfl
    rw [read, total, count, stamps, show s.bucket.limit = b.limit from rfl, bound]
    exact pivot_agrees precise past small full
  | false =>
    have needed : ((st.cur.add (bucketWeight b)).sub b.limit).le (.ofNat 0) = false := by
      apply Binary64.sub_le_zero_of_lt
      rw [BucketState.blocked, BucketState.post, own] at blocked
      exact blocked
    have zipped : st.valid.zip (if (st.weights.getD []).length ≠ st.valid.length then
        List.replicate st.valid.length (.ofNat 1) else st.weights.getD []) =
        live.map Drawn.timed := by
      rw [ownValid, ownWeights, zip_materialized lockstep]
      exact timed
    rw [read, zrange_all, total, show s.bucket.limit = b.limit from rfl, retryAfterForWeight, needed, zipped]
    exact freeWeight_stored precise r.instanceID past _ _

/-- An admitted bucket that is written: both backends add the call. -/
theorem BucketMirrors.commit (next : r.seq < number) (small : number < 10 ^ 20)
    (room : (calls.filter (Drawn.live now b.windowSec)).length + 1 ≤ 2 ^ 53)
    (fresh : Fresh now b.windowSec after) : let st := bucketState (floorToMicro now) m b
    let b' := scriptOf r.instanceID now b number
    ∃ calls', Mirrors r.instanceID now number b.windowSec (some (st.committed (floorToMicro now)))
      (zadd (.ofInt (unixMicro now)) b'.member (zremrangebyscore b'.cutoff (r.server.read b'.key)))
      after calls' := by
  intro st b'
  obtain ⟨added, past⟩ := Mirrors.append mirror precise next small b'.member.weight
  set grown := calls.filter (Drawn.live now b.windowSec) ++ [(⟨now, number, b'.member.weight⟩ : Drawn)] with grownDef
  obtain ⟨timed, lockstep, -, -⟩ := committed_timed (floorToMicro now) mirror.lockstep
  have calls' : (st.committed (floorToMicro now)).timed = grown.map Drawn.timed := by
    have weight : b'.member.weight.getD (.ofNat 1) = bucketWeight b := by
      unfold bucketWeight
      cases kind : b.counted <;> simp [b', scriptOf, kind]
    rw [timed, mirror.live, List.map_append]
    simp [Drawn.timed, weight]
  refine ⟨grown, ?_⟩
  rw [show zadd _ b'.member (zremrangebyscore b'.cutoff (r.server.read b'.key)) = _ from added]
  refine .of_exact past ?_ ?_ calls' (fresh.kept fun c mem => (past c mem).2.1)
  · intro e same
    exact Option.some.inj same ▸ lockstep
  · intro e same
    have length : (st.committed (floorToMicro now)).timestamps.length = grown.length := by
      rw [← timedCalls_length lockstep, ← List.length_map Drawn.timed, ← calls']
      rfl
    rw [← Option.some.inj same, length, List.length_append]
    exact room

end

end Bucket
end Eunox.CallCounter
