import Eunox.CallCounterRedis
import Eunox.CallCounterTimed

/-! One storage key in both backends. The sorted set of the shared counter is
the image of a list of recorded calls, oldest first: scores are microseconds a
double holds exactly, and a member's text grows with the clock and the sequence
number, so a new member always ranks last. Both backends see the same calls
inside the window that ends now, whatever expired calls either still keeps. -/
namespace Eunox.CallCounter
open ByteString SortedSet

/-- A call the shared counter recorded: its clock reading, the sequence number
of its member and, for a weighted call, its weight. -/
structure Drawn where
  nanos : ℤ
  seq : ℕ
  weight : Option Binary64

def Drawn.micros (c : Drawn) : ℤ := unixMicro c.nanos

/-- The sorted-set element of a call. -/
def Drawn.stored (id : Bytes) (c : Drawn) : Binary64 × Member :=
  (.ofInt c.micros, { text := memberText id c.nanos c.seq, weight := c.weight })

/-- The call as the in-process counter remembers it. -/
def Drawn.timed (c : Drawn) : ℤ × Binary64 := (floorToMicro c.nanos, c.weight.getD (.ofNat 1))

/-- The call's score is exact and its text has its fixed width. -/
structure Drawn.Exact (c : Drawn) : Prop where
  nonneg : 0 ≤ c.nanos
  score : c.micros ≤ 2 ^ 53

theorem floorToMicro_eq (t : ℤ) : floorToMicro t = unixMicro t * 1000 := by
  unfold floorToMicro unixMicro
  omega

theorem unixMicro_window (t windowSec : ℤ) :
    unixMicro (t - windowNanos windowSec) = unixMicro t - windowSec * 1000000 := by
  unfold unixMicro windowNanos second
  omega

theorem unixMicro_mono {t t' : ℤ} (later : t ≤ t') : unixMicro t ≤ unixMicro t' :=
  Int.ediv_le_ediv (by norm_num) later

/-- Whether a call is inside the window that ends now. -/
def Drawn.live (now windowSec : ℤ) (c : Drawn) : Bool := decide (unixMicro now - windowSec * 1000000 < c.micros)

theorem Drawn.live_timed (now windowSec : ℤ) (c : Drawn) :
    decide (floorToMicro now - windowNanos windowSec < c.timed.1) = c.live now windowSec := by
  have same : floorToMicro now - windowNanos windowSec < c.timed.1 ↔
      unixMicro now - windowSec * 1000000 < c.micros := by
    simp only [Drawn.timed, Drawn.micros, floorToMicro_eq, windowNanos, second]
    omega
  exact decide_eq_decide.mpr same

theorem Drawn.Exact.abs_micros {c : Drawn} (precise : c.Exact) : |c.micros| ≤ 2 ^ 53 := by
  have nonneg := precise.nonneg
  have score := precise.score
  rw [abs_le]
  unfold Drawn.micros unixMicro at score ⊢
  omega

theorem filter_timed (now windowSec : ℤ) (calls : List Drawn) :
    (calls.map Drawn.timed).filter (fun c => floorToMicro now - windowNanos windowSec < c.1) =
      (calls.filter (Drawn.live now windowSec)).map Drawn.timed := by
  rw [List.filter_map]
  congr 1
  exact List.filter_congr fun c _ => Drawn.live_timed now windowSec c

section Commands
variable (id : Bytes) {calls : List Drawn} {now windowSec : ℤ}

/-- The window a command works on is within the exact range. -/
def ExactWindow (now windowSec : ℤ) : Prop := 0 ≤ now ∧ 1 ≤ windowSec ∧ unixMicro now + windowSec * 1000000 ≤ 2 ^ 53

theorem ExactWindow.abs_cutoff (precise : ExactWindow now windowSec) :
    |unixMicro now - windowSec * 1000000| ≤ 2 ^ 53 := by
  obtain ⟨nonneg, positive, bound⟩ := precise
  rw [abs_le]
  unfold unixMicro at bound ⊢
  omega

theorem ExactWindow.drawn (precise : ExactWindow now windowSec) {c : Drawn} (nonneg : 0 ≤ c.nanos)
    (past : c.nanos ≤ now) : c.Exact := by
  obtain ⟨_, positive, bound⟩ := precise
  have earlier := unixMicro_mono past
  exact ⟨nonneg, by unfold Drawn.micros; omega⟩

section
variable (precise : ExactWindow now windowSec) (scores : ∀ c ∈ calls, c.Exact)
include precise scores

theorem zremrangebyscore_stored :
    zremrangebyscore (.ofInt (unixMicro (now - windowNanos windowSec))) (calls.map (Drawn.stored id)) =
      (calls.filter (Drawn.live now windowSec)).map (Drawn.stored id) := by
  unfold zremrangebyscore
  rw [List.filter_map, unixMicro_window]
  congr 1
  refine List.filter_congr fun c mem => ?_
  have score := (scores c mem).abs_micros
  simp only [Function.comp_apply, Drawn.stored, Binary64.le,
    Binary64.lt_ofInt score precise.abs_cutoff, Binary64.eq_ofInt score precise.abs_cutoff, Drawn.live]
  rcases lt_trichotomy c.micros (unixMicro now - windowSec * 1000000) with below | same | above
  · simp [below, not_lt.mpr below.le]
  · simp [same]
  · simp [above, not_lt.mpr above.le, above.ne']

theorem zcountAbove_stored :
    zcountAbove (.ofInt (unixMicro (now - windowNanos windowSec))) (calls.map (Drawn.stored id)) =
      (calls.filter (Drawn.live now windowSec)).length := by
  unfold zcountAbove
  rw [List.countP_map, unixMicro_window, ← List.countP_eq_length_filter]
  refine List.countP_congr fun c mem => ?_
  have score := (scores c mem).abs_micros
  simp [Drawn.stored, Drawn.live, Binary64.lt_ofInt precise.abs_cutoff score]

end

/-- Later draws have later texts. -/
theorem memberText_lt {nanos nanos' : ℤ} (nonneg : 0 ≤ nanos)
    (later : nanos ≤ nanos') (wide : nanos' < 10 ^ 20) (after : seq < seq') (drawn : seq' < 10 ^ 20) :
    memberText id nanos seq < memberText id nanos' seq' := by
  obtain ⟨n, rfl⟩ := Int.eq_ofNat_of_zero_le nonneg
  obtain ⟨n', rfl⟩ := Int.eq_ofNat_of_zero_le (nonneg.trans later)
  have small : n' < 10 ^ 20 := by exact_mod_cast wide
  have order : n ≤ n' := by exact_mod_cast later
  unfold memberText
  rw [List.append_assoc, List.append_assoc]
  apply List.append_left_lt
  refine List.cons_lt_cons_iff.mpr (.inr ⟨rfl, ?_⟩)
  rcases order.lt_or_eq with less | rfl
  · refine append_lt_of_lt (padded_lt less small) ?_ _ _
    rw [padded_length (by norm_num) (by omega), padded_length (by norm_num) small]
  · apply List.append_left_lt
    exact List.cons_lt_cons_iff.mpr (.inr ⟨rfl, padded_lt after drawn⟩)

/-- A new call ranks behind everything drawn before it. -/
theorem zadd_stored (new : Drawn) (precise : new.Exact) (drawn : new.seq < 10 ^ 20)
    (scores : ∀ c ∈ calls, c.Exact) (earlier : ∀ c ∈ calls, c.nanos ≤ new.nanos ∧ c.seq < new.seq) :
    zadd (.ofInt new.micros) (new.stored id).2 (calls.map (Drawn.stored id)) =
      (calls ++ [new]).map (Drawn.stored id) := by
  have wide : new.nanos < 10 ^ 20 := by
    have score := precise.score
    unfold Drawn.micros unixMicro at score
    omega
  have texts : ∀ c ∈ calls, (c.stored id).2 < (new.stored id).2 := fun c mem =>
    memberText_lt id (scores c mem).nonneg (earlier c mem).1 wide (earlier c mem).2 drawn
  rw [List.map_append]
  apply zadd_last
  · intro x mem same
    obtain ⟨c, held, rfl⟩ := List.mem_map.mp mem
    have text := texts c held
    rw [same] at text
    exact absurd text (List.lt_irrefl _)
  · intro x mem
    obtain ⟨c, held, rfl⟩ := List.mem_map.mp mem
    have order : c.micros ≤ new.micros := unixMicro_mono (earlier c held).1
    have behind : ¬ (new.stored id).2 < (c.stored id).2 := List.lt_asymm (texts c held)
    unfold before
    rw [show (c.stored id).1 = .ofInt c.micros from rfl,
      Binary64.lt_ofInt precise.abs_micros (scores c held).abs_micros]
    simp [not_lt.mpr order, behind]

end Commands

/-! ## Totals and retry estimates -/

/-- Ones add up to their number while that is in the exact range. -/
theorem weightedTotal_ones (small : n ≤ 2 ^ 53) : weightedTotal (List.replicate n (.ofNat 1)) = .ofNat n := by
  have summed : Binary64.Tracks (0 + (List.replicate n 1).sum)
      (((List.replicate n 1).map Binary64.ofNat).foldl Binary64.add (.ofNat 0)) :=
    (Binary64.tracks_ofNat 0).sum fun m mem => by
      rw [List.eq_of_mem_replicate mem]
      norm_num
  rw [List.map_replicate, List.sum_replicate, smul_eq_mul, mul_one, zero_add] at summed
  exact summed.1 small

/-- A bucket's total is the number of calls, or the sum of their weights. -/
theorem bucketTotal_timed (counted : Bool) (lockstep : Lockstep ts weights) (bounded : ts.length ≤ 2 ^ 53) :
    bucketTotal counted ts weights = if counted then .ofNat (timedCalls ts weights).length
      else weightedTotal ((timedCalls ts weights).map Prod.snd) := by
  cases counted with
  | true => simp [bucketTotal, timedCalls_length lockstep]
  | false =>
    cases weights with
    | none =>
      have ones : (timedCalls ts none).map Prod.snd = List.replicate ts.length (.ofNat 1) := by
        simp [timedCalls, Function.comp_def]
      rw [ones, weightedTotal_ones bounded]
      cases ts with
      | nil => rfl
      | cons t rest => simp [bucketTotal]
    | some ws =>
      have same : ws.length = ts.length := lockstep ws rfl
      simp [bucketTotal, timedCalls, same, List.map_snd_zip]

/-- The script sums the weights its members carry. -/
theorem foldl_entryWeight (id : Bytes) (calls : List Drawn) :
    (calls.map (Drawn.stored id)).foldl (fun total entry => total.add (entryWeight entry.2))
        (.ofNat 0) = weightedTotal ((calls.map Drawn.timed).map Prod.snd) := by
  simp only [weightedTotal, List.foldl_map]
  rfl

section Retry

/-- Microseconds until a call leaves the window; negative once it has left. -/
def Drawn.remaining (now windowSec : ℤ) (c : Drawn) : ℤ := c.micros + windowSec * 1000000 - unixMicro now

theorem ofNat_zero_eq : Binary64.ofNat 0 = .ofInt 0 := by
  simp [Binary64.ofNat, Binary64.ofInt]

variable {now windowSec : ℤ} (precise : ExactWindow now windowSec)
include precise

section
variable {c : Drawn} (nonneg : 0 ≤ c.nanos) (past : c.nanos ≤ now)
include nonneg past

/-- The script computes the remaining time exactly. -/
theorem Drawn.remaining_script :
    ((Binary64.ofInt c.micros).add (.ofInt (windowSec * 1000000))).sub (.ofInt (unixMicro now)) =
      .ofInt (c.remaining now windowSec) := by
  have score := (precise.drawn nonneg past).abs_micros
  have earlier : c.micros ≤ unixMicro now := unixMicro_mono past
  have start : 0 ≤ c.micros := Int.ediv_nonneg nonneg (by norm_num)
  obtain ⟨_, positive, bound⟩ := precise
  have width : |windowSec * 1000000| ≤ 2 ^ 53 := by rw [abs_le]; omega
  have finish : |c.micros + windowSec * 1000000| ≤ 2 ^ 53 := by rw [abs_le]; omega
  have clock : |unixMicro now| ≤ 2 ^ 53 := by rw [abs_le]; omega
  rw [Binary64.add_ofInt score width, Binary64.sub_ofInt finish clock]
  rfl

theorem clampRetry_remaining :
    (clampRetry (.ofInt (c.remaining now windowSec))).toInt * 1000 =
      max (c.timed.1 + windowNanos windowSec - floorToMicro now) 0 := by
  have earlier : c.micros ≤ unixMicro now := unixMicro_mono past
  have start : 0 ≤ c.micros := Int.ediv_nonneg nonneg (by norm_num)
  have small : |c.remaining now windowSec| ≤ 2 ^ 53 := by
    obtain ⟨_, positive, bound⟩ := precise
    rw [abs_le]
    unfold Drawn.remaining
    omega
  have nanos : c.timed.1 + windowNanos windowSec - floorToMicro now = c.remaining now windowSec * 1000 := by
    simp only [Drawn.timed, Drawn.remaining, Drawn.micros, floorToMicro_eq, windowNanos, second]
    ring
  rw [clampRetry, ofNat_zero_eq, Binary64.lt_ofInt small (by norm_num)]
  by_cases negative : c.remaining now windowSec < 0
  · rw [if_pos (by simpa using negative), Binary64.toInt_ofInt (by norm_num)]
    omega
  · rw [if_neg (by simpa using negative), Binary64.toInt_ofInt small]
    omega

end

omit precise in
theorem clampRetry_zero : (clampRetry (.ofNat 0)).toInt = 0 := by
  have zero : clampRetry (.ofNat 0) = .ofNat 0 := by
    unfold clampRetry
    split <;> rfl
  rw [zero, Binary64.toInt_ofNat (by norm_num)]
  rfl

/-- Both backends wait for the same call to free enough weight. -/
theorem freeWeight_stored (id : Bytes) {calls : List Drawn}
    (past : ∀ c ∈ calls, 0 ≤ c.nanos ∧ c.nanos ≤ now) (needed freed : Binary64) :
    (clampRetry (freeingEntry needed (.ofInt (windowSec * 1000000)) (.ofInt (unixMicro now)) freed
        (calls.map (Drawn.stored id)))).toInt * 1000 =
      freeWeight needed (windowNanos windowSec) (floorToMicro now) freed (calls.map Drawn.timed) := by
  induction calls generalizing freed with
  | nil =>
    rw [show freeingEntry needed _ _ freed (List.map (Drawn.stored id) []) = .ofNat 0 from rfl, clampRetry_zero]
    rfl
  | cons c rest ih =>
    obtain ⟨nonneg, earlier⟩ := past c (by simp)
    rw [List.map_cons, List.map_cons, show c.stored id =
      (.ofInt c.micros, ⟨memberText id c.nanos c.seq, c.weight⟩) from rfl,
      show c.timed = (c.timed.1, c.timed.2) from rfl]
    simp only [freeingEntry, freeWeight]
    rw [show entryWeight ⟨memberText id c.nanos c.seq, c.weight⟩ = c.timed.2 from rfl]
    by_cases enough : needed.le (freed.add c.timed.2) = true
    · rw [if_pos enough, if_pos enough, Drawn.remaining_script precise nonneg earlier,
        clampRetry_remaining precise nonneg earlier]
    · rw [if_neg enough, if_neg enough]
      exact ih (fun other mem => past other (by simp [mem])) _

end Retry

/-! ## One key in both backends -/

/-- Both backends agree on one storage key: the sorted set lists these calls,
the entry shows the same ones inside the window, and no deadline lets the server
drop a call that can still count. -/
structure Mirrors (id : Bytes) (now : ℤ) (seq : ℕ) (windowSec : ℤ) (held : Option Entry)
    (set : ZSet Member) (deadline : Option ℤ) (calls : List Drawn) : Prop where
  stored : set = calls.map (Drawn.stored id)
  past : ∀ c ∈ calls, 0 ≤ c.nanos ∧ c.nanos ≤ now ∧ c.seq ≤ seq
  lockstep : ∀ e, held = some e → Lockstep e.timestamps e.weights
  bounded : ∀ e, held = some e → e.timestamps.length ≤ 2 ^ 53
  live : (heldTimed held).filter (fun c => floorToMicro now - windowNanos windowSec < c.1) =
    (calls.filter (Drawn.live now windowSec)).map Drawn.timed
  kept : ∀ instant, deadline = some instant → ∀ c ∈ calls, keyDeadline c.nanos windowSec ≤ instant

section Mirrors
variable {id : Bytes} {now : ℤ} {seq : ℕ} {windowSec : ℤ} {held : Option Entry}
  {set : ZSet Member} {deadline : Option ℤ} {calls : List Drawn}

/-- A key neither backend has seen. -/
theorem mirrors_empty (id : Bytes) (now : ℤ) (seq : ℕ) (windowSec : ℤ) :
    Mirrors id now seq windowSec none [] none [] where
  stored := rfl
  past := nofun
  lockstep := nofun
  bounded := nofun
  live := rfl
  kept := nofun

/-- An entry that remembers exactly the calls of the set. -/
theorem Mirrors.of_exact (past : ∀ c ∈ calls, 0 ≤ c.nanos ∧ c.nanos ≤ now ∧ c.seq ≤ seq)
    (lockstep : ∀ e, held = some e → Lockstep e.timestamps e.weights)
    (bounded : ∀ e, held = some e → e.timestamps.length ≤ 2 ^ 53)
    (same : heldTimed held = calls.map Drawn.timed) (kept : ∀ instant, deadline = some instant →
      ∀ c ∈ calls, keyDeadline c.nanos windowSec ≤ instant) :
    Mirrors id now seq windowSec held (calls.map (Drawn.stored id)) deadline calls :=
  ⟨rfl, past, lockstep, bounded, by rw [same, filter_timed], kept⟩

section
variable (mirror : Mirrors id now seq windowSec held set deadline calls)
include mirror

/-- Time passes: what is still live then was live before. -/
theorem Mirrors.later (after : now ≤ now') (drawn : seq ≤ seq') :
    Mirrors id now' seq' windowSec held set deadline calls := by
  have clock := unixMicro_mono after
  have narrower : ∀ l : List (ℤ × Binary64), l.filter (fun c => floorToMicro now' - windowNanos windowSec < c.1) =
        (l.filter fun c => floorToMicro now - windowNanos windowSec < c.1).filter
          fun c => floorToMicro now' - windowNanos windowSec < c.1 := by
    intro l
    rw [List.filter_filter]
    refine List.filter_congr fun c _ => ?_
    by_cases inside : floorToMicro now' - windowNanos windowSec < c.1
    · have before : floorToMicro now - windowNanos windowSec < c.1 := by
        simp only [floorToMicro_eq] at inside ⊢
        omega
      simp [before]
    · simp [inside]
  refine ⟨mirror.stored, fun c mem => ?_, mirror.lockstep, mirror.bounded, ?_, mirror.kept⟩
  · obtain ⟨nonneg, before, number⟩ := mirror.past c mem
    exact ⟨nonneg, before.trans after, number.trans drawn⟩
  · rw [narrower, mirror.live, ← filter_timed, ← narrower, filter_timed]

/-- The server may drop the key once its deadline has passed. -/
theorem Mirrors.reclaim
    (positive : 1 ≤ windowSec) (due : deadline = some instant) (passed : instant ≤ now) :
    Mirrors id now seq windowSec held [] none [] := by
  have dead : calls.filter (Drawn.live now windowSec) = [] := by
    refine List.filter_eq_nil_iff.mpr fun c mem => ?_
    have kept := mirror.kept instant due c mem
    simp only [keyDeadline, cleanupMarginFactor, second] at kept
    have outside : c.micros ≤ unixMicro now - windowSec * 1000000 := by
      unfold Drawn.micros unixMicro
      omega
    simpa [Drawn.live] using outside
  refine ⟨rfl, nofun, mirror.lockstep, mirror.bounded, ?_, nofun⟩
  rw [mirror.live, dead]
  rfl

theorem Mirrors.scores (precise : ExactWindow now windowSec) : ∀ c ∈ calls, c.Exact := fun c mem =>
  precise.drawn (mirror.past c mem).1 (mirror.past c mem).2.1

/-- The calls inside the window. -/
theorem Mirrors.pruned (precise : ExactWindow now windowSec) :
    zremrangebyscore (.ofInt (unixMicro (now - windowNanos windowSec))) set =
      (calls.filter (Drawn.live now windowSec)).map (Drawn.stored id) := by
  rw [mirror.stored, zremrangebyscore_stored id precise (mirror.scores precise)]

omit mirror in
/-- The deadline after a command that renews it, or of a key that is gone. -/
def Fresh (now windowSec : ℤ) (after : Option ℤ) : Prop := after = none ∨ after = some (keyDeadline now windowSec)

omit mirror in
theorem Fresh.kept (fresh : Fresh now windowSec after) (past : ∀ c ∈ calls, c.nanos ≤ now) :
    ∀ instant, after = some instant → ∀ c ∈ calls, keyDeadline c.nanos windowSec ≤ instant := by
  rintro instant due c mem
  rcases fresh with rfl | rfl
  · cases due
  obtain rfl := Option.some.inj due
  have before := past c mem
  unfold keyDeadline
  omega

omit mirror in
/-- A command left the key's deadline, renewed it, or emptied the key. -/
def Renewed (now windowSec : ℤ) (before after : Option ℤ) : Prop :=
  after = before ∨ after = none ∨ after = some (keyDeadline now windowSec)

/-- A renewed deadline still covers what was recorded up to now. -/
theorem Mirrors.kept_of_renewed (renewed : Renewed now windowSec deadline after) :
    ∀ instant, after = some instant → ∀ c ∈ calls, keyDeadline c.nanos windowSec ≤ instant := by
  rcases renewed with rfl | fresh
  · exact mirror.kept
  · exact Fresh.kept fresh fun c mem => (mirror.past c mem).2.1

/-- Reading a bucket drops the expired calls from both backends. -/
theorem Mirrors.prune (precise : ExactWindow now windowSec) (renewed : Renewed now windowSec deadline after) :
    Mirrors id now seq windowSec (held.map fun e => pruneEntry e (floorToMicro now - windowNanos windowSec))
      (zremrangebyscore (.ofInt (unixMicro (now - windowNanos windowSec))) set) after
      (calls.filter (Drawn.live now windowSec)) := by
  rw [mirror.pruned precise]
  refine .of_exact (fun c mem => mirror.past c (List.mem_of_mem_filter mem)) ?_ ?_ ?_
    (fun instant due c mem => mirror.kept_of_renewed renewed instant due c (List.mem_of_mem_filter mem))
  · intro e' same
    obtain ⟨e, entry, rfl⟩ := Option.map_eq_some_iff.mp same
    exact pruneEntry_lockstep _ (mirror.lockstep e entry)
  · intro e' same
    obtain ⟨e, entry, rfl⟩ := Option.map_eq_some_iff.mp same
    exact (List.length_filter_le _ _).trans (mirror.bounded e entry)
  · rw [← mirror.live]
    cases entry : held with
    | none => rfl
    | some e => exact pruneEntry_timed _ (mirror.lockstep e entry)

end

end Mirrors

end Eunox.CallCounter
