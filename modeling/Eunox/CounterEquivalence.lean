import Eunox.CounterAdmission
import Eunox.KeyedFold

/-! The two backends of the call counter answer alike. The shared counter's
script works on several keys of one server; since the keys of a batch are
distinct, each bucket acts on its own key as it stood before the call. Over any
run with a clock that does not go back, both backends agree on every key, and
so on every answer, whatever expired keys the server has dropped in between. -/
namespace Eunox.CallCounter
open ByteString SortedSet

theorem redisWindowKey_inj : redisWindowKey key windowSec = redisWindowKey key' windowSec' ↔
      key = key' ∧ windowSec = windowSec' := by
  unfold redisWindowKey
  rw [List.append_cancel_left_eq, storageKey_inj]

/-! ## The script, key by key -/

/-- A key of the server: its set and its deadline. -/
def observeKey (server : Server) (key : Bytes) : ZSet Member × Option ℤ :=
  (server.read key, server.deadline key)

/-- The first loop's effect on the server. -/
def pruneBucket (server : Server) (b : ScriptBucket) : Server :=
  server.update b.key (zremrangebyscore b.cutoff)

/-- Keeping a key alive for this bucket. -/
def refreshBucket (clock : ℤ) (server : Server) (b : ScriptBucket) : Server :=
  server.expire b.key (clock + b.ttlSec * second)

theorem observe_update (command : ZSet Member → ZSet Member) (apart : other ≠ key) :
    observeKey (server.update key command) other = observeKey server other := by
  unfold observeKey
  rw [Keyspace.read_update, if_neg apart, Keyspace.deadline_update_other _ apart]

theorem observe_expire (instant : ℤ) (apart : other ≠ key) :
    observeKey (server.expire key instant) other = observeKey server other := by
  unfold observeKey
  rw [Keyspace.read_expire, Keyspace.deadline_expire_other _ apart]

section Batch
variable {clock : ℤ} {server : Server} {buckets : List ScriptBucket}

theorem scanBuckets_fold :
    (scanBuckets server buckets).1 = buckets.foldl pruneBucket server := by
  induction buckets generalizing server with
  | nil => rfl
  | cons b rest ih => exact ih

/-- A bucket's reading depends on its own key only. -/
theorem scanOf_congr (same : server'.read b.key = server.read b.key) : scanOf server' b = scanOf server b := by
  simp [scanOf, scanBucket, Keyspace.read_update, same]

/-- Every bucket of a batch reads the server before the call. -/
theorem scanBuckets_scanned (distinct : (buckets.map ScriptBucket.key).Nodup) :
    (scanBuckets server buckets).2 = buckets.map (scanOf server) := by
  induction buckets generalizing server with
  | nil => rfl
  | cons b rest ih =>
    obtain ⟨fresh, later⟩ := List.nodup_cons.mp distinct
    simp only [scanBuckets, List.map_cons]
    rw [ih later]
    refine congrArg₂ _ rfl (List.map_congr_left fun c mem => scanOf_congr ?_)
    have apart : c.key ≠ b.key := fun same => fresh (same ▸ List.mem_map_of_mem mem)
    exact (Keyspace.read_update ..).trans (if_neg apart)

theorem prune_apart {key : Bytes} (outside : ∀ b ∈ buckets, b.key ≠ key) :
    observeKey (buckets.foldl pruneBucket server) key = observeKey server key :=
  KeyedFold.apart observeKey ScriptBucket.key pruneBucket (fun _ _ _ => observe_update _) outside server

theorem prune_own (distinct : (buckets.map ScriptBucket.key).Nodup) {b : ScriptBucket} (mem : b ∈ buckets) :
    (buckets.foldl pruneBucket server).read b.key = zremrangebyscore b.cutoff (server.read b.key) :=
  KeyedFold.own observeKey ScriptBucket.key pruneBucket (fun _ _ _ => observe_update _)
    (fun b before after => after.1 = zremrangebyscore b.cutoff before.1)
    (fun _ _ => (Keyspace.read_update ..).trans (if_pos rfl)) distinct mem server

/-- The deadline a bucket leaves on its key: renewed, or none for an absent key. -/
def LeavesFresh (clock : ℤ) (b : ScriptBucket) (after : Option ℤ) : Prop :=
  after = none ∨ after = some (clock + b.ttlSec * second)

variable (clock server) in
theorem refresh_own (distinct : (buckets.map ScriptBucket.key).Nodup)
    (mem : b ∈ buckets) : (refreshTtls clock server buckets).read b.key = server.read b.key ∧
      LeavesFresh clock b ((refreshTtls clock server buckets).deadline b.key) :=
  KeyedFold.own observeKey ScriptBucket.key (refreshBucket clock) (fun _ _ _ => observe_expire _)
    (fun b before after => after.1 = before.1 ∧ LeavesFresh clock b after.2)
    (fun server b => ⟨Keyspace.read_expire .., (Keyspace.deadline_expire server b.key _).symm⟩)
    distinct mem server

private theorem commitScanned_frame (clock : ℤ) (now : Binary64) (server : Server)
    (s : Scanned) (other : Bytes) (apart : other ≠ s.bucket.key) :
    observeKey (commitScanned clock now server s) other = observeKey server other := by
  unfold commitScanned
  rw [observe_expire _ apart]
  split
  · rfl
  · exact observe_update _ apart

theorem commit_apart {scanned : List Scanned} (outside : ∀ s ∈ scanned, s.bucket.key ≠ key) :
    observeKey (scanned.foldl (commitScanned clock now) server) key = observeKey server key :=
  KeyedFold.apart observeKey (fun s => s.bucket.key) _ (commitScanned_frame clock now) outside server

variable (clock server) in
theorem commit_own {scanned : List Scanned} (now : Binary64) (distinct : (scanned.map fun s => s.bucket.key).Nodup)
    (mem : s ∈ scanned) :
    (scanned.foldl (commitScanned clock now) server).read s.bucket.key =
        (if s.post.eq s.total then server.read s.bucket.key
          else zadd now s.bucket.member (server.read s.bucket.key)) ∧ LeavesFresh clock s.bucket
        ((scanned.foldl (commitScanned clock now) server).deadline s.bucket.key) := by
  refine KeyedFold.own observeKey (fun s => s.bucket.key) _ (commitScanned_frame clock now)
    (fun s before after => after.1 = (if s.post.eq s.total then before.1
      else zadd now s.bucket.member before.1) ∧ LeavesFresh clock s.bucket after.2)
    ?_ distinct mem server
  intro server s
  refine ⟨?_, (Keyspace.deadline_expire _ s.bucket.key _).symm⟩
  simp only [observeKey, commitScanned, Keyspace.read_expire]
  split
  · rfl
  · exact (Keyspace.read_update ..).trans (if_pos rfl)

end Batch

/-! ## Sequence numbers -/

/-- The sequence number after a bucket drew its member: a weighted bucket draws
twice. -/
def drawSeq (seq : ℕ) (b : QuotaBucket) : ℕ := if b.counted then seq + 1 else seq + 2

/-- The buckets of a batch with the sequence numbers of their members. -/
def numbered : ℕ → List QuotaBucket → List (QuotaBucket × ℕ)
  | _, [] => []
  | seq, b :: rest => (b, drawSeq seq b) :: numbered (drawSeq seq b) rest

section Numbered
variable (clock : ℤ) (r : Redis) (seq : ℕ) (buckets : List QuotaBucket)

theorem numbered_buckets : (numbered seq buckets).map Prod.fst = buckets := by
  induction buckets generalizing seq with
  | nil => rfl
  | cons b rest ih => exact congrArg (b :: ·) (ih _)

theorem lt_drawSeq (b : QuotaBucket) : seq < drawSeq seq b := by
  unfold drawSeq
  split <;> omega

theorem le_foldl_drawSeq : seq ≤ buckets.foldl drawSeq seq := by
  induction buckets generalizing seq with
  | nil => exact le_rfl
  | cons b rest ih => exact (lt_drawSeq seq b).le.trans (ih _)

/-- Every number of a batch is new and is drawn by the end of it. -/
theorem numbered_range :
    ∀ p ∈ numbered seq buckets, seq < p.2 ∧ p.2 ≤ buckets.foldl drawSeq seq := by
  induction buckets generalizing seq with
  | nil => exact nofun
  | cons b rest ih =>
    refine List.forall_mem_cons.mpr ⟨⟨lt_drawSeq seq b, le_foldl_drawSeq _ rest⟩, fun p inRest => ?_⟩
    obtain ⟨after, drawn⟩ := ih _ p inRest
    exact ⟨(lt_drawSeq seq b).trans after, drawn⟩

theorem scriptBuckets_eq : r.scriptBuckets clock buckets =
      ((numbered r.seq buckets).map fun p => scriptOf r.instanceID clock p.1 p.2,
        { r with seq := buckets.foldl drawSeq r.seq }) := by
  induction buckets generalizing r with
  | nil => rfl
  | cons b rest ih =>
    have first : r.scriptBucket clock b = (scriptOf r.instanceID clock b (drawSeq r.seq b),
        { r with seq := drawSeq r.seq b }) := by
      unfold Redis.scriptBucket scriptOf drawSeq
      cases b.counted <;> simp [Redis.newMember, Redis.newWeightedMember]
    simp only [Redis.scriptBuckets, first]
    rw [ih]
    rfl

/-! ## What an admission can do -/

/-- The script arguments of a whole batch. -/
def batchScripts : List ScriptBucket := (numbered r.seq buckets).map fun p => scriptOf r.instanceID clock p.1 p.2

/-- A batch as the script reads it. -/
abbrev batchScan : List Scanned := (batchScripts clock r buckets).map (scanOf r.server)

theorem batchScripts_keys :
    (batchScripts clock r buckets).map ScriptBucket.key = buckets.map QuotaBucket.redisSlot := by
  rw [batchScripts, List.map_map]
  conv_rhs => rw [← numbered_buckets r.seq buckets, List.map_map]
  rfl

variable {buckets} in
theorem batchScripts_distinct (distinct : Distinct buckets) :
    ((batchScripts clock r buckets).map ScriptBucket.key).Nodup := by
  rw [batchScripts_keys]
  have slots : buckets.map QuotaBucket.redisSlot = (buckets.map QuotaBucket.slot).map (lit "callcounter:" ++ ·) := by
    rw [List.map_map]
    rfl
  rw [slots]
  exact distinct.map fun _ _ same => List.append_cancel_left same

end Numbered

/-- The process after the batch drew its members, over another server state. -/
def Redis.after (r : Redis) (buckets : List QuotaBucket) (server : Server) : Redis :=
  { r with seq := buckets.foldl drawSeq r.seq, server }

/-- Everything the shared counter can do with a batch. -/
theorem Redis.admitAll_cases (r : Redis) (clock : ℤ) (buckets : List QuotaBucket) :
    (∃ e, checkBuckets buckets = .error e ∧ r.admitAll clock buckets = (.error (.counter e), r)) ∨
    checkBuckets buckets = .ok () ∧
      let scripts := batchScripts clock r buckets
      let scanned := scripts.map (scanOf r.server)
      let pruned := scripts.foldl pruneBucket r.server
      let refreshed := refreshTtls clock pruned scripts
      ((∃ index s, scanned.findIdx? Scanned.blocked = some index ∧ scanned.find? Scanned.blocked = some s ∧
          r.admitAll clock buckets = (.ok ⟨false, index, s.total,
            (scriptRetry refreshed (.ofInt (unixMicro clock)) s).toInt * 1000⟩,
            r.after buckets refreshed)) ∨
        scanned.find? Scanned.blocked = none ∧
          ((0 < r.maxWeightedEntries ∧ scanned.any (Scanned.pastCeiling r.maxWeightedEntries) = true ∧
              r.admitAll clock buckets = (.error (.eval (.weightedEntryLimit r.maxWeightedEntries)),
                r.after buckets refreshed)) ∨
            ¬ (0 < r.maxWeightedEntries ∧ scanned.any (Scanned.pastCeiling r.maxWeightedEntries) = true) ∧
              r.admitAll clock buckets = (.ok ⟨true, 0, scriptMaxTotal scanned, 0⟩, r.after buckets
                  (scanned.foldl (commitScanned clock (.ofInt (unixMicro clock))) pruned)))) := by
  cases valid : checkBuckets buckets with
  | error e => exact .inl ⟨e, rfl, by simp [Redis.admitAll, valid]⟩
  | ok u =>
    refine .inr ⟨rfl, ?_⟩
    have distinct := batchScripts_distinct clock r (checkBuckets_ok valid).2.2
    have scan : scanBuckets r.server (batchScripts clock r buckets) =
        ((batchScripts clock r buckets).foldl pruneBucket r.server,
          (batchScripts clock r buckets).map (scanOf r.server)) :=
      Prod.ext scanBuckets_fold (scanBuckets_scanned distinct)
    rw [batchScripts] at scan ⊢
    simp only [Redis.admitAll, valid, scriptBuckets_eq, admitAllScript, scan]
    generalize (List.map (fun p => scriptOf r.instanceID clock p.1 p.2) (numbered r.seq buckets)) = scripts
    cases found : (scripts.map (scanOf r.server)).find? Scanned.blocked with
    | some s =>
      obtain ⟨index, located⟩ := findIdx?_of_find? found
      simp [located, parseAdmitAllReply, Redis.after]
    | none =>
      have nowhere : (scripts.map (scanOf r.server)).findIdx? Scanned.blocked = none :=
        List.findIdx?_eq_none_iff.mpr fun s mem => by
          simpa using List.find?_eq_none.mp found s mem
      refine .inr ⟨rfl, ?_⟩
      by_cases full : 0 < r.maxWeightedEntries ∧
          (scripts.map (scanOf r.server)).any (Scanned.pastCeiling r.maxWeightedEntries) = true
      · refine .inl ⟨full.1, full.2, ?_⟩
        simp only [nowhere, if_pos full]
        rfl
      · refine .inr ⟨full, ?_⟩
        simp only [nowhere, if_neg full]
        rfl

/-! ## Replies -/

/-- How the shared counter reports a refusal: the retention ceiling is an error
reply of its script, everything else is checked before the server is asked. -/
def CounterError.viaRedis : CounterError → RedisError
  | .weightedEntryLimit maxWeightedEntries => .eval (.weightedEntryLimit maxWeightedEntries)
  | error => .counter error

/-- The script wraps the ceiling's text and nothing else. -/
theorem viaRedis_text (render : Binary64 → String) (value : Reply → String) (error : CounterError) :
    error.viaRedis.text render value = error.text render ∨
      error.viaRedis.text render value = "redis eval: " ++ error.text render ∧
        ∃ n, error = .weightedEntryLimit n := by
  cases error with
  | weightedEntryLimit n => exact .inr ⟨rfl, n, rfl⟩
  | _ => exact .inl rfl

/-- The errors of a check go over as they are. -/
def Plain {α : Type} (check : Except CounterError α) : Prop := ∀ e, check = .error e → e.viaRedis = .counter e

theorem Plain.bind {α β : Type} {check : Except CounterError α} {next : α → Except CounterError β}
    (first : Plain check) (later : ∀ a, Plain (next a)) : Plain (check >>= next) := by
  intro e failed
  cases check with
  | error e' =>
    cases failed
    exact first _ rfl
  | ok a => exact later a e failed

theorem plain_forM {check : QuotaBucket → Except CounterError Unit} (each : ∀ b, Plain (check b)) :
    ∀ l : List QuotaBucket, Plain (l.forM check)
  | [] => nofun
  | b :: rest => (each b).bind fun _ => plain_forM each rest

theorem checkWindowSec_plain (windowSec : ℤ) : Plain (checkWindowSec windowSec) := by
  unfold Plain checkWindowSec
  split_ifs <;> rintro e ⟨⟩ <;> rfl

theorem checkMaxEntries_plain (maxEntries : ℤ) : Plain (checkMaxEntries maxEntries) := by
  unfold Plain checkMaxEntries
  split_ifs <;> rintro e ⟨⟩ <;> rfl

theorem checkBucket_plain (b : QuotaBucket) : Plain (checkBucket b) := by
  refine (checkWindowSec_plain _).bind fun _ => Plain.bind ?_ fun _ => ?_
  · unfold Plain checkTotalLimit
    split_ifs <;> rintro e ⟨⟩ <;> rfl
  · unfold Plain checkCountedLimit checkWeight
    split_ifs <;> rintro e ⟨⟩ <;> rfl

theorem checkBuckets_plain (buckets : List QuotaBucket) : Plain (checkBuckets buckets) := by
  have distinct : Plain (checkDistinctBuckets buckets) := by
    unfold Plain checkDistinctBuckets
    split_ifs <;> rintro e ⟨⟩
    rfl
  unfold checkBuckets
  split_ifs
  · rintro e ⟨⟩
    rfl
  · exact (plain_forM checkBucket_plain buckets).bind fun _ => distinct

/-! ## Both backends after one call -/

/-- The two backends agree on every storage key at this instant. -/
structure Equivalent (now : ℤ) (m : InMemory) (r : Redis) : Prop where
  unbounded : m.maxKeys ≤ 0
  ceiling : m.maxWeightedEntries = r.maxWeightedEntries
  positive : 0 < r.maxWeightedEntries
  small : r.maxWeightedEntries ≤ 2 ^ 53
  keys : ∀ key windowSec, 1 ≤ windowSec → ∃ calls,
    Mirrors r.instanceID now r.seq windowSec (m.entries.lookup (storageKey key windowSec))
      (r.server.read (redisWindowKey key windowSec))
      (r.server.deadline (redisWindowKey key windowSec)) calls

section Step
variable {now clock : ℤ} {m : InMemory} {r : Redis}

/-- Time passes and the server drops keys whose time is over. -/
theorem Equivalent.reclaim (agree : Equivalent now m r) (later : now ≤ clock) (keys : List Bytes) :
    Equivalent clock m { r with server := r.server.reclaim clock keys } := by
  refine ⟨agree.unbounded, agree.ceiling, agree.positive, agree.small, ?_⟩
  intro key windowSec positive
  obtain ⟨calls, mirror⟩ := agree.keys key windowSec positive
  have aged := mirror.later later (le_refl r.seq)
  rcases Keyspace.reclaim_cases clock r.server keys (redisWindowKey key windowSec) with
    ⟨read, deadline⟩ | ⟨gone, free, instant, due, passed⟩
  · rw [read, deadline]
    exact ⟨calls, aged⟩
  · rw [gone, free]
    exact ⟨[], aged.reclaim positive due passed⟩

/-- Both backends after a step: each key is as it was or agrees again. -/
theorem Equivalent.touch (agree : Equivalent clock m r) {m' : InMemory}
    (limits : m'.maxKeys = m.maxKeys ∧ m'.maxWeightedEntries = m.maxWeightedEntries)
    (same : r'.instanceID = r.instanceID ∧ r'.maxWeightedEntries = r.maxWeightedEntries)
    (drawn : r.seq ≤ r'.seq) (each : ∀ key windowSec, 1 ≤ windowSec →
      m'.entries.lookup (storageKey key windowSec) = m.entries.lookup (storageKey key windowSec) ∧
          observeKey r'.server (redisWindowKey key windowSec) = observeKey r.server (redisWindowKey key windowSec) ∨
        ∃ calls, Mirrors r.instanceID clock r'.seq windowSec (m'.entries.lookup (storageKey key windowSec))
          (r'.server.read (redisWindowKey key windowSec))
          (r'.server.deadline (redisWindowKey key windowSec)) calls) : Equivalent clock m' r' := by
  refine ⟨limits.1 ▸ agree.unbounded, ?_, same.2 ▸ agree.positive, same.2 ▸ agree.small, ?_⟩
  · rw [limits.2, same.2, agree.ceiling]
  · intro key windowSec positive
    rw [same.1]
    rcases each key windowSec positive with ⟨entry, observed⟩ | mirrored
    · obtain ⟨calls, mirror⟩ := agree.keys key windowSec positive
      rw [entry, show r'.server.read _ = _ from congrArg Prod.fst observed,
        show r'.server.deadline _ = _ from congrArg Prod.snd observed]
      exact ⟨calls, mirror.later le_rfl drawn⟩
    · exact mirrored

/-- Counting: the same count or the same error, and the backends agree again. -/
theorem Equivalent.incrementAndGet (agree : Equivalent clock m r)
    (precise : checkWindowSec windowSec = .ok () → ExactWindow clock windowSec)
    (drawn : (r.incrementAndGet clock key windowSec maxEntries).2.seq < 2 ^ 63) :
    (r.incrementAndGet clock key windowSec maxEntries).1 =
        (incrementAndGet m clock key windowSec maxEntries).1.mapError CounterError.viaRedis ∧
      Equivalent clock (incrementAndGet m clock key windowSec maxEntries).2
        (r.incrementAndGet clock key windowSec maxEntries).2 := by
  cases window : checkWindowSec windowSec with
  | error e =>
    simp only [Redis.incrementAndGet, CallCounter.incrementAndGet, window]
    exact ⟨congrArg Except.error (checkWindowSec_plain _ _ window).symm, agree⟩
  | ok u =>
    cases entries : checkMaxEntries maxEntries with
    | error e =>
      simp only [Redis.incrementAndGet, CallCounter.incrementAndGet, window, entries]
      exact ⟨congrArg Except.error (checkMaxEntries_plain _ _ entries).symm, agree⟩
    | ok u' =>
      obtain ⟨positive, capped⟩ := checkMaxEntries_ok entries
      have inRange := precise window
      obtain ⟨calls, mirror⟩ := agree.keys key windowSec inRange.2.1
      simp only [Redis.incrementAndGet, window, entries, Redis.newMember] at drawn ⊢
      have memory : CallCounter.incrementAndGet m clock key windowSec maxEntries =
          (.ok (incrementEntry ((m.entries.lookup (storageKey key windowSec)).getD
              ⟨[], windowSec, none⟩) (floorToMicro clock) windowSec maxEntries).timestamps.length,
            m.store (storageKey key windowSec) (incrementEntry ((m.entries.lookup (storageKey key windowSec)).getD
                ⟨[], windowSec, none⟩) (floorToMicro clock) windowSec maxEntries)) := by
        have room : m.admitNewKey = .ok () := if_neg fun full => by
          have := agree.unbounded
          omega
        simp only [CallCounter.incrementAndGet, window, entries, room]
        cases m.entries.lookup (storageKey key windowSec) <;> rfl
      rw [memory]
      have cap : maxEntries ≤ 2 ^ 53 := capped.trans (by norm_num [maxEntriesCap])
      set windowKey := redisWindowKey key windowSec with windowKeyDef
      set server := ((r.server.update windowKey (zremrangebyscore
        (.ofInt (unixMicro (clock - windowNanos windowSec))))).update windowKey (zadd (.ofInt (unixMicro clock))
            { text := memberText r.instanceID clock (r.seq + 1), weight := none })).update windowKey
              (zremrangebyrank 0 (-(maxEntries + 1))) with serverDef
      have read : server.read windowKey = zremrangebyrank 0 (-(maxEntries + 1)) (zadd (.ofInt (unixMicro clock))
            { text := memberText r.instanceID clock (r.seq + 1), weight := none }
            (zremrangebyscore (.ofInt (unixMicro (clock - windowNanos windowSec))) (r.server.read windowKey))) := by
        simp [serverDef, Keyspace.read_update]
      have fresh : Fresh clock windowSec
          ((server.expire windowKey (keyDeadline clock windowSec)).deadline windowKey) :=
        (Keyspace.deadline_expire server windowKey _).symm
      obtain ⟨length, mirrored⟩ := mirror.increment inRange (Nat.lt_succ_self r.seq) (by omega) positive cap fresh
      refine ⟨?_, agree.touch ⟨rfl, rfl⟩ ⟨rfl, rfl⟩ (Nat.le_succ r.seq) ?_⟩
      · rw [read]
        exact congrArg (fun n : ℕ => Except.ok (n : ℤ)) length.symm
      · intro key' windowSec' _
        by_cases touched : key' = key ∧ windowSec' = windowSec
        · obtain ⟨rfl, rfl⟩ := touched
          rw [lookup_store, if_pos rfl, Keyspace.read_expire, read]
          exact .inr mirrored
        · have apart : redisWindowKey key' windowSec' ≠ windowKey :=
            fun equal => touched (redisWindowKey_inj.mp equal)
          refine .inl ⟨(lookup_store ..).trans (if_neg fun equal => touched (storageKey_inj.mp equal)), ?_⟩
          rw [observe_expire _ apart, serverDef, observe_update _ apart, observe_update _ apart,
            observe_update _ apart]

/-- Peeking: the same count or the same error. -/
theorem Equivalent.peek (agree : Equivalent clock m r)
    (precise : checkWindowSec windowSec = .ok () → ExactWindow clock windowSec) :
    r.peek clock key windowSec = (CallCounter.peek m clock key windowSec).mapError CounterError.viaRedis := by
  cases window : checkWindowSec windowSec with
  | error e =>
    simp only [Redis.peek, CallCounter.peek, window]
    exact congrArg Except.error (checkWindowSec_plain _ _ window).symm
  | ok u =>
    have inRange := precise window
    obtain ⟨calls, mirror⟩ := agree.keys key windowSec inRange.2.1
    have shared : zcountAbove (.ofInt (unixMicro (clock - windowNanos windowSec)))
        (r.server.read (redisWindowKey key windowSec)) =
        (calls.filter (Drawn.live clock windowSec)).length := by
      rw [mirror.stored]
      exact zcountAbove_stored r.instanceID inRange (mirror.scores inRange)
    have own : ∀ e, m.entries.lookup (storageKey key windowSec) = some e →
        e.timestamps.countP (fun ts => floorToMicro clock - windowNanos windowSec < ts) =
          (calls.filter (Drawn.live clock windowSec)).length := by
      intro e held
      have live := congrArg List.length mirror.live
      rw [held, List.length_map] at live
      rw [← live, List.countP_eq_length_filter, ← timedCalls_instants (mirror.lockstep e held),
        List.filter_map, List.length_map]
      rfl
    simp only [Redis.peek, CallCounter.peek, window, shared]
    cases held : m.entries.lookup (storageKey key windowSec) with
    | none =>
      have live := congrArg List.length mirror.live
      rw [held, List.length_map] at live
      rw [← live]
      rfl
    | some e =>
      rw [← own e held]
      rfl

/-- One bucket of a valid batch: the backends agree on its key, its window is in
range and its member's number is new. -/
structure BatchBucket (clock : ℤ) (m : InMemory) (r : Redis) (buckets : List QuotaBucket)
    (b : QuotaBucket) (number : ℕ) (calls : List Drawn) : Prop where
  member : b ∈ buckets
  checked : checkBucket b = .ok ()
  precise : ExactWindow clock b.windowSec
  next : r.seq < number
  drawn : number ≤ buckets.foldl drawSeq r.seq
  mirror : BucketMirrors clock m r b calls

variable {buckets : List QuotaBucket}

/-- A storage key is addressed by a bucket of the batch or by none. -/
theorem touched_or_apart (r : Redis) (buckets : List QuotaBucket) (key : Bytes) (windowSec : ℤ) :
    (∃ p ∈ numbered r.seq buckets, p.1.key = key ∧ p.1.windowSec = windowSec) ∨
      (∀ b ∈ buckets, b.slot ≠ storageKey key windowSec) ∧
        ∀ clock, ∀ s ∈ batchScripts clock r buckets, s.key ≠ redisWindowKey key windowSec := by
  by_cases touched : ∃ p ∈ numbered r.seq buckets, p.1.key = key ∧ p.1.windowSec = windowSec
  · exact .inl touched
  refine .inr ⟨fun b mem same => ?_, fun clock s mem same => ?_⟩
  · rw [← numbered_buckets r.seq buckets] at mem
    obtain ⟨p, held, rfl⟩ := List.mem_map.mp mem
    exact touched ⟨p, held, storageKey_inj.mp same⟩
  · obtain ⟨p, held, rfl⟩ := List.mem_map.mp mem
    exact touched ⟨p, held, redisWindowKey_inj.mp same⟩

/-- A bucket that is written has room for one more call. -/
theorem BatchBucket.room {b : QuotaBucket}
    (agree : Equivalent clock m r) (bucket : BatchBucket clock m r buckets b number calls)
    (below : (r.scanned clock b number).pastCeiling r.maxWeightedEntries = false)
    (written : (bucketState (floorToMicro clock) m b).record = true) :
    (calls.filter (Drawn.live clock b.windowSec)).length + 1 ≤ 2 ^ 53 := by
  obtain ⟨lockstep, bounded, timed⟩ := bucket.mirror.base
  obtain ⟨valid, -, -, cur⟩ := bucketState_reading (floorToMicro clock) m b
  obtain ⟨-, -, length⟩ := bucket.mirror.reading bucket.precise number
  have own : (bucketState (floorToMicro clock) m b).b = b := bucketState_b ..
  cases kind : b.counted with
  | true =>
    have small : (calls.filter (Drawn.live clock b.windowSec)).length ≤ 2 ^ 53 := by
      rw [← length, valid]
      exact bounded
    refine small.lt_of_ne fun top => ?_
    have count : (bucketState (floorToMicro clock) m b).cur = .ofNat (2 ^ 53) := by
      rw [cur, bucketTotal, kind, if_pos rfl, ← valid, length, top]
    -- A counted call on a set of `2 ^ 53` members does not move its total.
    have absorbed : ((Binary64.ofNat (2 ^ 53)).add (.ofNat 1)).eq (.ofNat (2 ^ 53)) = true := by decide +kernel
    rw [BucketState.record, BucketState.post, own, bucketWeight, kind, count, if_pos rfl, absorbed] at written
    cases written
  | false =>
    rw [bucket.mirror.ceiling bucket.precise number, written, own, kind] at below
    have inside : ((bucketState (floorToMicro clock) m b).valid.length : ℤ) < r.maxWeightedEntries := by
      simpa using below
    have limit := agree.small
    omega

variable (clock m r buckets)

/-- A batch as the in-process counter reads it, bucket by numbered bucket. -/
theorem states_numbered :
    buckets.map (bucketState (floorToMicro clock) m) =
      (numbered r.seq buckets).map fun p => bucketState (floorToMicro clock) m p.1 := by
  conv_lhs => rw [← numbered_buckets r.seq buckets, List.map_map]
  rfl

/-- Bucket by numbered bucket. -/
theorem scanned_numbered :
    batchScan clock r buckets = (numbered r.seq buckets).map fun p => r.scanned clock p.1 p.2 := by
  rw [batchScan, batchScripts, List.map_map]
  rfl

variable {clock m r buckets}

section Valid
variable (agree : Equivalent clock m r)
  (precise : ∀ b ∈ buckets, checkWindowSec b.windowSec = .ok () → ExactWindow clock b.windowSec)
  (valid : checkBuckets buckets = .ok ())
include agree precise valid

theorem Equivalent.bucket {p : QuotaBucket × ℕ} (mem : p ∈ numbered r.seq buckets) :
    ∃ calls, BatchBucket clock m r buckets p.1 p.2 calls := by
  have inBatch : p.1 ∈ buckets := by
    have := List.mem_map_of_mem (f := Prod.fst) mem
    rwa [numbered_buckets] at this
  have checked := (checkBuckets_ok valid).2.1 p.1 inBatch
  have inRange := precise p.1 inBatch (checkBucket_ok checked).1
  obtain ⟨calls, mirror⟩ := agree.keys p.1.key p.1.windowSec inRange.2.1
  obtain ⟨next, drawn⟩ := numbered_range r.seq buckets p mem
  exact ⟨calls, inBatch, checked, inRange, next, drawn, mirror⟩

/-- A refused batch: both backends dropped the expired calls of its keys. -/
theorem Equivalent.pruned : let scripts := batchScripts clock r buckets
    Equivalent clock (readBuckets (floorToMicro clock) m buckets).1
      (r.after buckets (refreshTtls clock (scripts.foldl pruneBucket r.server) scripts)) := by
  intro scripts
  have distinct := (checkBuckets_ok valid).2.2
  have distinctKeys := batchScripts_distinct clock r distinct
  refine agree.touch (readBuckets_limits ..) ⟨rfl, rfl⟩ (le_foldl_drawSeq r.seq buckets) ?_
  intro key windowSec _
  rcases touched_or_apart r buckets key windowSec with ⟨p, mem, rfl, rfl⟩ | ⟨apart, apartKeys⟩
  · obtain ⟨calls, bucket⟩ := agree.bucket precise valid mem
    have script : scriptOf r.instanceID clock p.1 p.2 ∈ scripts := List.mem_map_of_mem mem
    obtain ⟨read, fresh⟩ := refresh_own clock (scripts.foldl pruneBucket r.server) distinctKeys script
    have pruned := bucket.mirror.prune bucket.precise (Fresh.renewed fresh)
    have entry := readBuckets_inside (floorToMicro clock) m distinct bucket.member
    have set := read.trans (prune_own distinctKeys script)
    refine .inr ⟨calls.filter (Drawn.live clock p.1.windowSec), ?_⟩
    have later := pruned.later le_rfl (le_foldl_drawSeq r.seq buckets)
    rw [← entry] at later
    exact set ▸ later
  · exact .inl ⟨readBuckets_other _ m buckets _ apart,
      (KeyedFold.apart observeKey ScriptBucket.key (refreshBucket clock) (fun _ _ _ => observe_expire _)
        (apartKeys clock) _).trans (prune_apart (apartKeys clock))⟩

/-- An admitted batch: both backends recorded its calls. -/
theorem Equivalent.committed (drawn : buckets.foldl drawSeq r.seq < 2 ^ 63)
    (below : ∀ s ∈ batchScan clock r buckets, s.pastCeiling r.maxWeightedEntries = false) :
    let scripts := batchScripts clock r buckets
    Equivalent clock ((buckets.map (bucketState (floorToMicro clock) m)).foldl (commitBucket (floorToMicro clock))
        (readBuckets (floorToMicro clock) m buckets).1)
      (r.after buckets ((scripts.map (scanOf r.server)).foldl
        (commitScanned clock (.ofInt (unixMicro clock))) (scripts.foldl pruneBucket r.server))) := by
  intro scripts
  have distinct := (checkBuckets_ok valid).2.2
  have distinctKeys := batchScripts_distinct clock r distinct
  have distinctScanned : ((scripts.map (scanOf r.server)).map fun s => s.bucket.key).Nodup := by
    rw [List.map_map]
    exact distinctKeys
  refine agree.touch ⟨(commit_limits ..).1.trans (readBuckets_limits ..).1,
    (commit_limits ..).2.trans (readBuckets_limits ..).2⟩ ⟨rfl, rfl⟩
    (le_foldl_drawSeq r.seq buckets) ?_
  intro key windowSec _
  rcases touched_or_apart r buckets key windowSec with ⟨p, mem, rfl, rfl⟩ | ⟨apart, apartKeys⟩
  · obtain ⟨calls, bucket⟩ := agree.bucket precise valid mem
    have script : scriptOf r.instanceID clock p.1 p.2 ∈ scripts := List.mem_map_of_mem mem
    have scanned := List.mem_map_of_mem (f := scanOf r.server) script
    obtain ⟨read, fresh⟩ := commit_own clock (scripts.foldl pruneBucket r.server)
      (.ofInt (unixMicro clock)) distinctScanned scanned
    have entry := commit_inside (floorToMicro clock) m distinct bucket.member
    have pruned : (scripts.foldl pruneBucket r.server).read
        (r.scanned clock p.1 p.2).bucket.key =
          zremrangebyscore (scriptOf r.instanceID clock p.1 p.2).cutoff
            (r.server.read (scriptOf r.instanceID clock p.1 p.2).key) := prune_own distinctKeys script
    rw [pruned, (bucket.mirror.post bucket.precise p.2).2.2] at read
    have small : p.2 < 10 ^ 20 := by
      have := bucket.drawn
      omega
    cases written : (bucketState (floorToMicro clock) m p.1).record with
    | true =>
      rw [written] at read entry
      obtain ⟨calls', mirror⟩ := bucket.mirror.commit bucket.precise bucket.next small
        (bucket.room agree (below _ scanned) written) fresh
      refine .inr ⟨calls', ?_⟩
      have later := mirror.later le_rfl bucket.drawn
      rw [← show _ = some _ from entry] at later
      exact (show _ = _ from read) ▸ later
    | false =>
      rw [written] at read entry
      refine .inr ⟨calls.filter (Drawn.live clock p.1.windowSec), ?_⟩
      have later := (bucket.mirror.prune bucket.precise (Fresh.renewed fresh)).later le_rfl
        (le_foldl_drawSeq r.seq buckets)
      rw [← show _ = Option.map _ _ from entry] at later
      exact (show _ = _ from read) ▸ later
  · refine .inl ⟨commit_other _ m apart, (commit_apart fun s held => ?_).trans (prune_apart (apartKeys clock))⟩
    obtain ⟨b, inBatch, rfl⟩ := List.mem_map.mp held
    exact apartKeys clock b inBatch

/-- Both backends find the same first bucket without headroom. -/
theorem Equivalent.blocked_agree : (∃ p ∈ numbered r.seq buckets,
        (buckets.map (bucketState (floorToMicro clock) m)).find? BucketState.blocked =
          some (bucketState (floorToMicro clock) m p.1) ∧
        (batchScan clock r buckets).find? Scanned.blocked = some (r.scanned clock p.1 p.2) ∧
        (batchScan clock r buckets).findIdx? Scanned.blocked =
          (buckets.map (bucketState (floorToMicro clock) m)).findIdx? BucketState.blocked ∧
        (bucketState (floorToMicro clock) m p.1).blocked = true) ∨
      (buckets.map (bucketState (floorToMicro clock) m)).find? BucketState.blocked = none ∧
        (batchScan clock r buckets).find? Scanned.blocked = none := by
  have blocked : ∀ p ∈ numbered r.seq buckets, (r.scanned clock p.1 p.2).blocked =
        (bucketState (floorToMicro clock) m p.1).blocked := by
    intro p mem
    obtain ⟨calls, bucket⟩ := agree.bucket precise valid mem
    exact (bucket.mirror.post bucket.precise p.2).2.1
  have found : ((numbered r.seq buckets).find? fun p =>
      (r.scanned clock p.1 p.2).blocked) =
      (numbered r.seq buckets).find? fun p => (bucketState (floorToMicro clock) m p.1).blocked :=
    List.find?_congr blocked
  rw [states_numbered clock m r, scanned_numbered, List.find?_map, List.find?_map,
    List.findIdx?_map, List.findIdx?_map]
  cases first : (numbered r.seq buckets).find? fun p => (bucketState (floorToMicro clock) m p.1).blocked with
  | some p =>
    refine .inl ⟨p, List.mem_of_find?_eq_some first, ?_, ?_, findIdx?_congr blocked,
      by simpa using List.find?_some first⟩
    · exact congrArg (Option.map _) first
    · exact congrArg (Option.map _) (found.trans first)
  | none =>
    refine .inr ⟨?_, ?_⟩
    · exact congrArg (Option.map _) first
    · exact congrArg (Option.map _) (found.trans first)

/-- Both backends report the same largest total. -/
theorem Equivalent.total_agree : scriptMaxTotal (batchScan clock r buckets) =
      maxPost (buckets.map (bucketState (floorToMicro clock) m)) := by
  have posts : (numbered r.seq buckets).map (fun p =>
      (r.scanned clock p.1 p.2).post) =
      (numbered r.seq buckets).map fun p => (bucketState (floorToMicro clock) m p.1).post := by
    refine List.map_congr_left fun p mem => ?_
    obtain ⟨calls, bucket⟩ := agree.bucket precise valid mem
    exact (bucket.mirror.post bucket.precise p.2).1
  have folded := congrArg (List.foldl (fun largest post : Binary64 =>
    if largest.lt post then post else largest) (.ofNat 0)) posts
  rw [List.foldl_map, List.foldl_map] at folded
  rw [scanned_numbered, states_numbered clock m r, scriptMaxTotal, maxPost, List.foldl_map, List.foldl_map]
  exact folded

/-- Both backends find the same bucket at its retention ceiling. -/
theorem Equivalent.ceiling_agree : (batchScan clock r buckets).any
        (Scanned.pastCeiling r.maxWeightedEntries) =
      (buckets.map (bucketState (floorToMicro clock) m)).any fun st =>
        st.record && !st.b.counted && decide (r.maxWeightedEntries ≤ st.valid.length) := by
  rw [scanned_numbered, states_numbered clock m r, List.any_map, List.any_map]
  rw [Bool.eq_iff_iff, List.any_eq_true, List.any_eq_true]
  refine exists_congr fun p => and_congr_right fun mem => ?_
  obtain ⟨calls, bucket⟩ := agree.bucket precise valid mem
  exact Bool.eq_iff_iff.mp (bucket.mirror.ceiling bucket.precise p.2 r.maxWeightedEntries)

end Valid

/-- Without a bound on the number of keys only the weighted ceiling can refuse. -/
theorem checkCeilings_unbounded (m : InMemory) (states : List BucketState) (unbounded : m.maxKeys ≤ 0)
    (positive : 0 < m.maxWeightedEntries) :
    m.checkCeilings states = if (states.any fun st => st.record && !st.b.counted &&
        decide (m.maxWeightedEntries ≤ st.valid.length)) = true then
      .error (.weightedEntryLimit m.maxWeightedEntries) else .ok () := by
  unfold InMemory.checkCeilings
  rw [if_neg (by omega)]
  simp [positive]

/-- Admission: the same verdict or the same error, and the backends agree again. -/
theorem Equivalent.admitAll (agree : Equivalent clock m r)
    (precise : ∀ b ∈ buckets, checkWindowSec b.windowSec = .ok () → ExactWindow clock b.windowSec)
    (drawn : (r.admitAll clock buckets).2.seq < 2 ^ 63) : (r.admitAll clock buckets).1 =
        (CallCounter.admitAll m clock buckets).1.mapError CounterError.viaRedis ∧
      Equivalent clock (CallCounter.admitAll m clock buckets).2 (r.admitAll clock buckets).2 := by
  rcases memory : CallCounter.admitAll m clock buckets with ⟨result, m'⟩
  rcases r.admitAll_cases clock buckets with ⟨e, bad, shared⟩ | ⟨valid, sharedCases⟩
  · rw [CallCounter.admitAll, bad] at memory
    cases memory
    rw [shared]
    exact ⟨congrArg Except.error (checkBuckets_plain _ _ bad).symm, agree⟩
  have pruned := agree.pruned precise valid
  rcases agree.blocked_agree precise valid with ⟨p, mem, own, script, index, blocked⟩ | ⟨free, clear⟩
  · cases admitAll_admits memory with
    | invalid bad => cases valid.symm.trans bad
    | blocked _ position first =>
      rcases sharedCases with ⟨at', s, position', first', shared⟩ | ⟨absent, -⟩
      · obtain rfl := Option.mem_unique own first
        obtain rfl := Option.mem_unique script first'
        obtain rfl := Option.some.inj (position'.symm.trans (index.trans position))
        obtain ⟨calls, bucket⟩ := agree.bucket precise valid mem
        rw [shared]
        refine ⟨?_, pruned⟩
        have inBatch : scriptOf r.instanceID clock p.1 p.2 ∈ batchScripts clock r buckets :=
          List.mem_map_of_mem mem
        have distinct := batchScripts_distinct clock r (checkBuckets_ok valid).2.2
        have read := (refresh_own clock ((batchScripts clock r buckets).foldl pruneBucket r.server)
          distinct inBatch).1.trans (prune_own distinct inBatch)
        rw [bucket.mirror.retry bucket.precise p.2 bucket.checked
          (read.trans (bucket.mirror.pruned bucket.precise)) blocked,
          (bucket.mirror.reading bucket.precise p.2).1]
        rfl
      · cases absent.symm.trans script
    | full _ unblocked | admitted _ unblocked =>
      have open_ := unblocked _ (List.mem_of_find?_eq_some own)
      cases open_.symm.trans blocked
  rcases sharedCases with ⟨-, s, -, first, -⟩ | ⟨-, shared⟩
  · cases clear.symm.trans first
  have ceiling := agree.ceiling_agree precise valid
  have checked := checkCeilings_unbounded (readBuckets (floorToMicro clock) m buckets).1
    (buckets.map (bucketState (floorToMicro clock) m))
    (by rw [(readBuckets_limits ..).1]; exact agree.unbounded)
    (by rw [(readBuckets_limits ..).2, agree.ceiling]; exact agree.positive)
  rw [(readBuckets_limits ..).2, agree.ceiling, ← ceiling] at checked
  rcases shared with ⟨positive, full, shared⟩ | ⟨below, shared⟩
  · rw [if_pos full] at checked
    cases admitAll_admits memory with
    | invalid bad => cases valid.symm.trans bad
    | blocked _ _ first => cases free.symm.trans first
    | full _ _ failed =>
      rw [shared]
      obtain rfl := Except.error.inj (failed.symm.trans checked)
      exact ⟨rfl, pruned⟩
    | admitted _ _ passed => cases passed.symm.trans checked
  · have room : (batchScan clock r buckets).any
        (Scanned.pastCeiling r.maxWeightedEntries) = false := by
      simpa [agree.positive] using below
    rw [if_neg (by rw [room]; simp)] at checked
    cases admitAll_admits memory with
    | invalid bad => cases valid.symm.trans bad
    | blocked _ _ first => cases free.symm.trans first
    | full _ _ failed => cases failed.symm.trans checked
    | admitted =>
      rw [shared] at drawn ⊢
      refine ⟨?_, agree.committed precise valid drawn fun s held => ?_⟩
      · rw [agree.total_agree precise valid]
        rfl
      · simpa using List.any_eq_false.mp room s held

end Step
end Eunox.CallCounter
