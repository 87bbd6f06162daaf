import Eunox.CounterEquivalence

/-! Runs of the two call-counter backends. A step is one atomic operation with
the clock reading both backends make and the keys the server has dropped before
serving it; a key is only dropped once its time to live is over. Started empty,
both backends give the same replies at every step, as long as the clock does
not go back, microseconds and windows stay inside what a double holds exactly
and the sequence number has not wrapped. -/
namespace Eunox.CallCounter
open ByteString SortedSet

inductive CounterCall where
  | admitAll (buckets : List QuotaBucket)
  | incrementAndGet (key : Bytes) (windowSec maxEntries : ℤ)
  | peek (key : Bytes) (windowSec : ℤ)

inductive CounterReply (Error : Type) where
  | admission (result : Except Error Admission)
  | count (result : Except Error ℤ)

/-- One operation, the clock it reads and the keys the server dropped since the
operation before. -/
structure CounterStep where
  clock : ℤ
  call : CounterCall
  reclaimed : List Bytes

def InMemory.serve (m : InMemory) (s : CounterStep) : CounterReply CounterError × InMemory :=
  match s.call with
  | .admitAll buckets =>
    let (result, m) := CallCounter.admitAll m s.clock buckets
    (.admission result, m)
  | .incrementAndGet key windowSec maxEntries =>
    let (result, m) := CallCounter.incrementAndGet m s.clock key windowSec maxEntries
    (.count result, m)
  | .peek key windowSec => (.count (CallCounter.peek m s.clock key windowSec), m)

/-- The operation over the keys the server still holds. -/
def Redis.serve (r : Redis) (s : CounterStep) : CounterReply RedisError × Redis :=
  let r := { r with server := r.server.reclaim s.clock s.reclaimed }
  match s.call with
  | .admitAll buckets =>
    let (result, r) := r.admitAll s.clock buckets
    (.admission result, r)
  | .incrementAndGet key windowSec maxEntries =>
    let (result, r) := r.incrementAndGet s.clock key windowSec maxEntries
    (.count result, r)
  | .peek key windowSec => (.count (r.peek s.clock key windowSec), r)

/-- Every reply of a run, in order. -/
def InMemory.replies : InMemory → List CounterStep → List (CounterReply CounterError)
  | _, [] => []
  | m, s :: rest => (m.serve s).1 :: (m.serve s).2.replies rest

def Redis.replies : Redis → List CounterStep → List (CounterReply RedisError)
  | _, [] => []
  | r, s :: rest => (r.serve s).1 :: (r.serve s).2.replies rest

def Redis.run (r : Redis) (steps : List CounterStep) : Redis := steps.foldl (fun r s => (r.serve s).2) r

/-- A reply as the shared counter spells it. -/
def CounterReply.viaRedis : CounterReply CounterError → CounterReply RedisError
  | .admission result => .admission (result.mapError CounterError.viaRedis)
  | .count result => .count (result.mapError CounterError.viaRedis)

/-- The windows an operation names. -/
def CounterCall.windows : CounterCall → List ℤ
  | .admitAll buckets => buckets.map QuotaBucket.windowSec
  | .incrementAndGet _ windowSec _ => [windowSec]
  | .peek _ windowSec => [windowSec]

/-- The clock reads an instant from 1970 on, and the microseconds of that instant
plus any accepted window stay within `2 ^ 53`. -/
def CounterStep.Exact (s : CounterStep) : Prop :=
  0 ≤ s.clock ∧ ∀ windowSec ∈ s.call.windows,
    windowSec ≤ maxWindowSeconds → unixMicro s.clock + windowSec * 1000000 ≤ 2 ^ 53

theorem CounterStep.Exact.window {s : CounterStep} (precise : s.Exact)
    (named : windowSec ∈ s.call.windows) (valid : checkWindowSec windowSec = .ok ()) :
    ExactWindow s.clock windowSec := by
  obtain ⟨positive, accepted⟩ := checkWindowSec_ok valid
  exact ⟨precise.1, positive, precise.2 windowSec named accepted⟩

theorem Redis.incrementAndGet_seq (r : Redis) (clock : ℤ) (key : Bytes) (windowSec maxEntries : ℤ) :
    r.seq ≤ (r.incrementAndGet clock key windowSec maxEntries).2.seq := by
  unfold Redis.incrementAndGet
  split
  · exact le_rfl
  · exact le_rfl
  · exact Nat.le_succ r.seq

theorem Redis.admitAll_seq (r : Redis) (clock : ℤ) (buckets : List QuotaBucket) :
    r.seq ≤ (r.admitAll clock buckets).2.seq ∧ (r.admitAll clock buckets).2.seq ≤ buckets.foldl drawSeq r.seq := by
  have drawn := le_foldl_drawSeq r.seq buckets
  rcases r.admitAll_cases clock buckets with
    ⟨e, -, result⟩ | ⟨-, ⟨_, _, -, -, result⟩ | ⟨-, ⟨-, -, result⟩ | ⟨-, result⟩⟩⟩
  · rw [result]
    exact ⟨le_rfl, drawn⟩
  all_goals
    rw [result]
    exact ⟨drawn, le_rfl⟩

/-- Sequence numbers only grow. -/
theorem Redis.serve_seq (r : Redis) (s : CounterStep) : r.seq ≤ (r.serve s).2.seq := by
  obtain ⟨clock, call, reclaimed⟩ := s
  set served : Redis := { r with server := r.server.reclaim clock reclaimed }
  cases call with
  | admitAll buckets => exact (served.admitAll_seq clock buckets).1
  | incrementAndGet key windowSec maxEntries => exact served.incrementAndGet_seq clock key windowSec maxEntries
  | peek key windowSec => exact le_rfl

theorem Redis.run_seq (r : Redis) (steps : List CounterStep) : r.seq ≤ (r.run steps).seq := by
  induction steps generalizing r with
  | nil => exact le_rfl
  | cons s rest ih => exact (r.serve_seq s).trans (ih _)

/-- One step: the same reply, and the backends agree again. -/
theorem Equivalent.serve {now : ℤ} (agree : Equivalent now m r)
    (later : now ≤ s.clock) (precise : s.Exact) (drawn : (r.serve s).2.seq < 2 ^ 63) :
    (r.serve s).1 = (m.serve s).1.viaRedis ∧ Equivalent s.clock (m.serve s).2 (r.serve s).2 := by
  have aged := agree.reclaim later s.reclaimed
  obtain ⟨clock, call, reclaimed⟩ := s
  cases call with
  | admitAll buckets =>
    obtain ⟨same, next⟩ := aged.admitAll (fun b mem => precise.window (List.mem_map_of_mem mem)) drawn
    exact ⟨congrArg CounterReply.admission same, next⟩
  | incrementAndGet key windowSec maxEntries =>
    obtain ⟨same, next⟩ := aged.incrementAndGet (precise.window (by simp [CounterCall.windows])) drawn
    exact ⟨congrArg CounterReply.count same, next⟩
  | peek key windowSec =>
    exact ⟨congrArg CounterReply.count (aged.peek (precise.window (by simp [CounterCall.windows]))), aged⟩

/-- A run from agreeing backends: the same replies throughout. -/
theorem Equivalent.replies (agree : Equivalent now m r) (ordered : (steps.map CounterStep.clock).Pairwise (· ≤ ·))
    (later : ∀ s ∈ steps, now ≤ s.clock) (precise : ∀ s ∈ steps, s.Exact) (drawn : (r.run steps).seq < 2 ^ 63) :
    r.replies steps = (m.replies steps).map CounterReply.viaRedis := by
  induction steps generalizing now m r with
  | nil => rfl
  | cons s rest ih =>
    obtain ⟨after, tail⟩ := List.pairwise_cons.mp ordered
    have bound : (r.serve s).2.seq < 2 ^ 63 := lt_of_le_of_lt (Redis.run_seq _ rest) drawn
    obtain ⟨same, next⟩ := agree.serve (later s (by simp)) (precise s (by simp)) bound
    have others := ih next tail (fun s' mem => after _ (List.mem_map_of_mem mem))
      (fun s' mem => precise s' (by simp [mem])) drawn
    simp only [Redis.replies, InMemory.replies, List.map_cons]
    rw [same, others]

/-- Two empty backends agree. -/
theorem equivalent_empty (instanceID : Bytes) (now : ℤ) : Equivalent now (newInMemory 0) (newRedis instanceID) := by
  refine ⟨le_rfl, rfl, by norm_num [newRedis, maxWeightedEntriesPerKey],
    by norm_num [newRedis, maxWeightedEntriesPerKey], fun key windowSec _ => ⟨[], ?_⟩⟩
  exact mirrors_empty instanceID now 0 windowSec

theorem replies_from_empty (instanceID : Bytes)
    (ordered : (steps.map CounterStep.clock).Pairwise (· ≤ ·)) (precise : ∀ s ∈ steps, s.Exact)
    (drawn : ((newRedis instanceID).run steps).seq < 2 ^ 63) : (newRedis instanceID).replies steps =
      ((newInMemory 0).replies steps).map CounterReply.viaRedis :=
  (equivalent_empty instanceID 0).replies ordered (fun s mem => (precise s mem).1) precise drawn

/-- Started empty and driven by the same steps, the shared counter replies as the
in-process one does: the same admissions, denied indices, totals, retry times,
counts and errors. Only the weighted-entry ceiling is spelled differently, with
`redis eval: ` in front of the same text. -/
theorem backends_agree (instanceID : Bytes) (steps : List CounterStep)
    (ordered : (steps.map CounterStep.clock).Pairwise (· ≤ ·)) (precise : ∀ s ∈ steps, s.Exact)
    (drawn : ((newRedis instanceID).run steps).seq < 2 ^ 63) :
    (newRedis instanceID).replies steps = ((newInMemory 0).replies steps).map CounterReply.viaRedis ∧
      ∀ render value (error : CounterError), error.viaRedis.text render value = error.text render ∨
          error.viaRedis.text render value = "redis eval: " ++ error.text render ∧
            ∃ n, error = .weightedEntryLimit n :=
  ⟨replies_from_empty instanceID ordered precise drawn, viaRedis_text⟩

/-- A weighted budget of ten a minute. -/
def tenPerMinute : QuotaBucket := ⟨lit "k", 60, false, .ofNat 6, .ofNat 10⟩

/-- A weighted call, a counting call on the same key, a refused weighted call,
and the same call after the key was dropped. -/
def mixedSteps : List CounterStep :=
  [⟨1000000000, .admitAll [tenPerMinute], []⟩,
    ⟨2000000000, .incrementAndGet (lit "k") 60 5, []⟩,
    ⟨3000000000, .admitAll [tenPerMinute], []⟩,
    ⟨200000000000, .admitAll [tenPerMinute], [redisWindowKey (lit "k") 60]⟩]

theorem backends_agree_mixed : (mixedSteps.map CounterStep.clock).Pairwise (· ≤ ·) ∧
      ((newRedis (lit "0a")).run mixedSteps).seq = 7 ∧
      (newRedis (lit "0a")).replies mixedSteps = ((newInMemory 0).replies mixedSteps).map CounterReply.viaRedis := by
  have ordered : (mixedSteps.map CounterStep.clock).Pairwise (· ≤ ·) := by decide
  have seq : ((newRedis (lit "0a")).run mixedSteps).seq = 7 := by decide +kernel
  refine ⟨ordered, seq, (backends_agree (lit "0a") mixedSteps ordered ?_ (by omega)).1⟩
  intro s member
  simp only [mixedSteps, List.mem_cons, List.not_mem_nil, or_false] at member
  rcases member with rfl | rfl | rfl | rfl <;>
    exact ⟨by norm_num, by simp [CounterCall.windows, tenPerMinute, unixMicro]⟩

def CounterStep.unreclaimed (s : CounterStep) : CounterStep := { s with reclaimed := [] }

theorem InMemory.replies_unreclaimed (m : InMemory) : m.replies (steps.map .unreclaimed) = m.replies steps := by
  induction steps generalizing m with
  | nil => rfl
  | cons s rest ih => exact congrArg ((m.serve s).1 :: ·) (ih _)

/-- Which keys past their time to live the server has dropped, and the id of the one instance that asks, shows in no
reply. -/
theorem reclaiming_unseen (id id' : Bytes) {steps : List CounterStep}
    (ordered : (steps.map CounterStep.clock).Pairwise (· ≤ ·)) (precise : ∀ s ∈ steps, s.Exact)
    (drawn : ((newRedis id).run steps).seq < 2 ^ 63)
    (drawn' : ((newRedis id').run (steps.map .unreclaimed)).seq < 2 ^ 63) :
    (newRedis id).replies steps = (newRedis id').replies (steps.map .unreclaimed) := by
  rw [replies_from_empty id ordered precise drawn, replies_from_empty id' ?_ ?_ drawn', InMemory.replies_unreclaimed]
  · rwa [List.map_map]
  · exact List.forall_mem_map.mpr precise

theorem reclaiming_unseen_mixed : (newRedis (lit "0a")).replies mixedSteps =
    (newRedis (lit "0b")).replies (mixedSteps.map .unreclaimed) := by
  refine reclaiming_unseen _ _ (by decide) ?_ (by decide +kernel) (by decide +kernel)
  simp [mixedSteps, CounterStep.Exact, CounterCall.windows, tenPerMinute, unixMicro]

/-! ## Where the backends differ -/

/-- One unit a call of a budget that never runs out. -/
def unitBucket : QuotaBucket := ⟨lit "k", 1, false, .ofNat 1, .ofNat (2 ^ 53)⟩

/-- The counter after `n` unit calls at the same instant. -/
structure UnitCalls (n : ℕ) (m : InMemory) : Prop where
  unbounded : m.maxKeys = 0
  ceiling : m.maxWeightedEntries = maxWeightedEntriesPerKey
  lockstep : LockstepAt m unitBucket.slot
  calls : heldTimed (m.entries.lookup unitBucket.slot) = List.replicate n (0, .ofNat 1)

theorem UnitCalls.base (unit : UnitCalls n m) :
    Lockstep (bucketState 0 m unitBucket).base.timestamps (bucketState 0 m unitBucket).base.weights ∧
      (bucketState 0 m unitBucket).base.timed = List.replicate n (0, .ofNat 1) := by
  obtain ⟨lockstep, -, timed⟩ := base_timed 0 unit.lockstep
  refine ⟨lockstep, timed.trans ?_⟩
  rw [unit.calls]
  refine List.filter_eq_self.mpr fun c mem => ?_
  rw [List.eq_of_mem_replicate mem]
  decide

theorem UnitCalls.reading (unit : UnitCalls n m) (small : n < 2 ^ 53) :
    (bucketState 0 m unitBucket).valid.length = n ∧ (bucketState 0 m unitBucket).blocked = false ∧
      (bucketState 0 m unitBucket).record = true := by
  obtain ⟨lockstep, timed⟩ := unit.base
  obtain ⟨valid, -, -, cur⟩ := bucketState_reading 0 m unitBucket
  have length : (bucketState 0 m unitBucket).base.timestamps.length = n := by
    rw [← timedCalls_length lockstep, show timedCalls _ _ = _ from timed, List.length_replicate]
  have own : (bucketState 0 m unitBucket).b = unitBucket := bucketState_b ..
  have total : (bucketState 0 m unitBucket).cur = .ofNat n := by
    rw [cur, bucketTotal_timed _ lockstep (by omega), show timedCalls _ _ = _ from timed, List.map_replicate]
    exact weightedTotal_ones small.le
  have post : (bucketState 0 m unitBucket).post = .ofNat (n + 1) := by
    rw [BucketState.post, own, total]
    exact Binary64.add_ofNat (by omega)
  refine ⟨by rw [valid, length], ?_, ?_⟩
  · rw [BucketState.blocked, own, post]
    exact (Binary64.lt_ofNat (by norm_num) (by omega)).trans (decide_eq_false (by omega))
  · rw [BucketState.record, post, total, Binary64.eq_ofNat (by omega) (by omega)]
    simp

/-- One more unit call: admitted below the ceiling, refused at it. -/
theorem UnitCalls.oneMore (unit : UnitCalls n m) (small : n ≤ 100000) :
    (n < 100000 → UnitCalls (n + 1) (admitAll m 0 [unitBucket]).2) ∧
      (n = 100000 → (admitAll m 0 [unitBucket]).1 = .error (.weightedEntryLimit 100000)) := by
  obtain ⟨length, open_, written⟩ := unit.reading (by omega)
  have ownBucket : (bucketState 0 m unitBucket).b = unitBucket := bucketState_b ..
  have valid : checkBuckets [unitBucket] = .ok () := by decide +kernel
  have ceilings := checkCeilings_unbounded (readBuckets 0 m [unitBucket]).1
    [bucketState 0 m unitBucket] (by rw [(readBuckets_limits ..).1, unit.unbounded])
    (by rw [(readBuckets_limits ..).2, unit.ceiling]; decide)
  rw [(readBuckets_limits ..).2, unit.ceiling] at ceilings
  have anyState : ([bucketState 0 m unitBucket].any fun st => st.record && !st.b.counted &&
      decide (maxWeightedEntriesPerKey ≤ st.valid.length)) = decide (100000 ≤ n) := by
    rw [List.any_cons, List.any_nil, written, ownBucket, length]
    simp [unitBucket, maxWeightedEntriesPerKey]
  rw [anyState] at ceilings
  rcases ran : admitAll m 0 [unitBucket] with ⟨result, last⟩
  cases admitAll_admits ran with
  | invalid bad => cases valid.symm.trans bad
  | blocked _ _ found =>
    have blocked := List.find?_some found
    have state := List.mem_of_find?_eq_some found
    rw [List.map_singleton, List.mem_singleton] at state
    rw [state] at blocked
    cases open_.symm.trans blocked
  | full _ _ failed =>
    have full : decide (100000 ≤ n) = true := by
      by_contra room
      rw [if_neg room] at ceilings
      cases failed.symm.trans ceilings
    refine ⟨fun below => absurd (of_decide_eq_true full) (by omega), fun _ => ?_⟩
    rw [if_pos full] at ceilings
    rw [Except.error.inj (failed.symm.trans ceilings)]
    rfl
  | admitted _ _ passed =>
    have room : ¬ decide (100000 ≤ n) = true := by
      intro full
      rw [if_pos full] at ceilings
      cases passed.symm.trans ceilings
    refine ⟨fun _ => ?_, fun full => absurd (decide_eq_true full.ge) room⟩
    have distinct := (checkBuckets_ok valid).2.2
    have entry := commit_inside 0 m distinct (List.mem_singleton.mpr rfl)
    rw [if_pos written] at entry
    obtain ⟨timed, lockstep, -, -⟩ := committed_timed 0 unit.lockstep
    refine ⟨(commit_limits ..).1.trans ((readBuckets_limits ..).1.trans unit.unbounded),
      (commit_limits ..).2.trans ((readBuckets_limits ..).2.trans unit.ceiling), ?_, ?_⟩
    · intro e held
      obtain rfl := Option.some.inj (entry.symm.trans held)
      exact lockstep
    · refine (congrArg heldTimed entry).trans (timed.trans ?_)
      obtain ⟨-, base⟩ := unit.base
      obtain ⟨-, -, kept⟩ := base_timed 0 unit.lockstep
      rw [← kept, base, List.replicate_succ']
      rfl

theorem unitCalls_empty : UnitCalls 0 (newInMemory 0) := by
  have nothing : (newInMemory 0).entries.lookup unitBucket.slot = none := AList.lookup_empty _
  refine ⟨rfl, rfl, fun e held => ?_, ?_⟩
  · cases nothing.symm.trans held
  · rw [nothing]
    rfl

/-- Unit calls one after the other at the start of 1970. -/
def unitSteps (n : ℕ) : List CounterStep := List.replicate n ⟨0, .admitAll [unitBucket], []⟩

theorem unitSteps_last (unit : UnitCalls k m) (reach : k + n = 100000) : (m.replies (unitSteps (n + 1))).getLast? =
      some (.admission (.error (.weightedEntryLimit 100000))) := by
  induction n generalizing k m with
  | zero =>
    have refused := (unit.oneMore (by omega)).2 (by omega)
    simp [unitSteps, InMemory.replies, InMemory.serve, refused]
  | succ n ih =>
    have next := (unit.oneMore (by omega)).1 (by omega)
    have later := ih next (by omega)
    rw [unitSteps, List.replicate_succ, InMemory.replies]
    rw [show (m.serve ⟨0, .admitAll [unitBucket], []⟩).2 = (admitAll m 0 [unitBucket]).2 from rfl]
    rw [List.getLast?_cons]
    rw [show List.replicate (n + 1) (CounterStep.mk 0 (.admitAll [unitBucket]) []) = unitSteps (n + 1)
      from rfl, later]
    rfl

theorem unitSteps_seq (n : ℕ) (r : Redis) : (r.run (unitSteps n)).seq ≤ r.seq + 2 * n := by
  induction n generalizing r with
  | zero => exact le_rfl
  | succ n ih =>
    have first : (r.serve ⟨0, .admitAll [unitBucket], []⟩).2.seq ≤ r.seq + 2 := (r.admitAll_seq 0 [unitBucket]).2
    have later := ih (r.serve ⟨0, .admitAll [unitBucket], []⟩).2
    rw [show r.run (unitSteps (n + 1)) = (r.serve ⟨0, .admitAll [unitBucket], []⟩).2.run (unitSteps n) from rfl]
    omega

/-- The number a reply reports. -/
def CounterReply.figure {Error : Type} : CounterReply Error → Option Binary64
  | .admission (.ok a) => some a.total
  | .count (.ok n) => some (.ofInt n)
  | _ => none

/-- The error a reply reports. -/
def CounterReply.error {Error : Type} : CounterReply Error → Option Error
  | .admission (.error e) => some e
  | .count (.error e) => some e
  | _ => none

/-- Weights of five and seven in one microsecond before 1970, a counting call
that keeps two entries, and a reading of the total. -/
def beforeEpoch : List CounterStep :=
  [⟨-900, .admitAll [⟨lit "k", 60, false, .ofNat 5, .ofNat 100⟩], []⟩,
    ⟨-500, .admitAll [⟨lit "k", 60, false, .ofNat 7, .ofNat 100⟩], []⟩,
    ⟨-400, .incrementAndGet (lit "k") 60 2, []⟩,
    ⟨-300, .admitAll [⟨lit "k", 60, false, .ofNat 0, .ofNat 100⟩], []⟩]

/-- A call recorded one microsecond past `2 ^ 53` and read when the window
starts exactly at `2 ^ 53`. -/
def pastExactRange : List CounterStep :=
  [⟨(2 ^ 53 + 1) * 1000, .incrementAndGet (lit "k") 1 10, []⟩,
    ⟨(2 ^ 53 + 1000000) * 1000, .peek (lit "k") 1, []⟩]

/-- The replies are not the same word for word, nor outside the exact range: the
retention ceiling is reported in another text; before 1970 the members of one
microsecond rank against the order they were recorded in, and past `2 ^ 53`
microseconds scores round. -/
theorem backends_disagree :
    (∃ e e', (((newInMemory 0).replies (unitSteps 100001)).getLast?.bind CounterReply.error) = some e ∧
        (((newRedis (lit "0a")).replies (unitSteps 100001)).getLast?.bind CounterReply.error) = some e' ∧
        ∀ render value, e'.text render value ≠ e.text render) ∧
      ((newRedis (lit "0a")).replies beforeEpoch).map CounterReply.figure ≠
        ((newInMemory 0).replies beforeEpoch).map CounterReply.figure ∧
      ((newRedis (lit "0a")).replies pastExactRange).map CounterReply.figure ≠
        ((newInMemory 0).replies pastExactRange).map CounterReply.figure := by
  refine ⟨⟨.weightedEntryLimit 100000, .eval (.weightedEntryLimit 100000), ?_, ?_, ?_⟩, ?_, ?_⟩
  · rw [unitSteps_last (n := 100000) unitCalls_empty rfl]
    rfl
  · have ordered : ((unitSteps 100001).map CounterStep.clock).Pairwise (· ≤ ·) := by
      rw [unitSteps, List.map_replicate, List.pairwise_replicate]
      exact .inr le_rfl
    have precise : ∀ s ∈ unitSteps 100001, s.Exact := by
      intro s member
      rw [List.eq_of_mem_replicate member]
      exact ⟨le_rfl, by simp [CounterCall.windows, unitBucket, unixMicro]⟩
    have drawn := unitSteps_seq 100001 (newRedis (lit "0a"))
    have start : (newRedis (lit "0a")).seq = 0 := rfl
    rw [replies_from_empty (lit "0a") ordered precise (by omega), List.getLast?_map,
      unitSteps_last (n := 100000) unitCalls_empty rfl]
    rfl
  · intro render value same
    set text := (ScriptError.weightedEntryLimit 100000).text
    have longer : "redis eval: " ++ text = text := same
    have lengths := congrArg String.length longer
    rw [String.length_append, show "redis eval: ".length = 12 from rfl] at lengths
    omega
  · decide +kernel
  · decide +kernel

end Eunox.CallCounter
