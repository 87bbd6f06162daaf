import Mathlib.Data.List.Pairwise
import Eunox.AssocList
import Eunox.ByteString

/-! The cache of verified payloads: its lifetimes, its capacity and the order of its evictions. -/
namespace Eunox.PayloadCache
open ByteString

structure Entry (V : Type) where
  payload : V
  expiresAt : ℤ

/-- A cache's settings as `NewPayloadCache` leaves them. -/
structure Config (V : Type) where
  maxEntryTTL : ℤ
  maxSize : ℕ
  clone : V → Option V
  lasting : 0 < maxEntryTTL
  room : 0 < maxSize

def defaultMaxEntryTTL : ℤ := 30 * 10 ^ 9
def defaultMaxSize : ℕ := 4096

structure Cache (V : Type) where
  entries : List (Bytes × Entry V)
  /-- The keys, the oldest in front. -/
  insertOrder : List Bytes

section Model
variable {V : Type}

/-- Without a clone nothing is cached. -/
def newConfig (maxEntryTTL maxSize : ℤ) (clone : Option (V → Option V)) : Config V where
  maxEntryTTL := if maxEntryTTL ≤ 0 then defaultMaxEntryTTL else maxEntryTTL
  maxSize := if maxSize ≤ 0 then defaultMaxSize else maxSize.toNat
  clone := clone.getD fun _ => none
  lasting := by
    split
    · decide
    · omega
  room := by
    split
    · decide
    · omega

/-- The seconds between the zero `time.Time` and 1970. -/
def unixToInternal : ℤ := 62135596800

/-- `time.Unix`, in nanoseconds: its seconds are kept from the zero time on and wrap. -/
def unixTime (sec : ℤ) : ℤ := ((sec + unixToInternal).bmod (2 ^ 64) - unixToInternal) * 10 ^ 9

namespace Cache

variable (cfg : Config V) (c : Cache V)

variable (now : ℤ) (key : Bytes)

def live : Bool := (c.entries.lookup key).any fun e => now < e.expiresAt

/-- An entry and its element in the list, removed together. -/
def delete : Cache V := ⟨c.entries.filter (·.1 ≠ key), c.insertOrder.filter (· ≠ key)⟩

/-- The run of expired entries at the front. -/
def reclaim (now : ℤ) : List Bytes → Cache V → Cache V
  | [], c => c
  | oldest :: rest, c =>
    if (c.entries.lookup oldest).any fun e => !(now < e.expiresAt) then reclaim now rest (c.delete oldest) else c

def sweep : Cache V :=
  c.insertOrder.foldl (fun c key => if c.live now key then c else c.delete key) c

def evict (maxSize : ℕ) : List Bytes → Cache V → Cache V
  | [], c => c
  | oldest :: rest, c => if maxSize ≤ c.insertOrder.length then evict maxSize rest (c.delete oldest) else c

/-- What a `Put` of a new key does before it adds the key. -/
def makeRoom (maxSize : ℕ) (now : ℤ) : Cache V :=
  let c := reclaim now c.insertOrder c
  let c := if maxSize ≤ c.insertOrder.length then c.sweep now else c
  evict maxSize c.insertOrder c

def get (key : Bytes) (now : ℤ) : Option V := do
  let entry ← c.entries.lookup key
  if now < entry.expiresAt then cfg.clone entry.payload else none

/-- The remaining lifetime saturates at the longest duration, which no TTL exceeds. -/
def put (payload : V) (expUnix : ℤ) : Cache V :=
  if expUnix ≤ 0 then c
  else
    let remaining := unixTime expUnix - now
    if remaining ≤ 0 then c
    else match cfg.clone payload with
      | none => c
      | some stored =>
        let entry : Entry V := ⟨stored, now + if remaining < cfg.maxEntryTTL then remaining else cfg.maxEntryTTL⟩
        let c := if (c.entries.lookup key).isSome then { c with insertOrder := c.insertOrder.filter (· ≠ key) }
          else c.makeRoom cfg.maxSize now
        ⟨(key, entry) :: c.entries.filter (·.1 ≠ key), c.insertOrder ++ [key]⟩

def invalidate : Cache V := if (c.entries.lookup key).isSome then c.delete key else c

end Cache

inductive Op (V : Type) where
  | put (now : ℤ) (key : Bytes) (payload : V) (expUnix : ℤ)
  | invalidate (key : Bytes)

def step (cfg : Config V) (c : Cache V) : Op V → Cache V
  | .put now key payload expUnix => c.put cfg now key payload expUnix
  | .invalidate key => c.invalidate key

/-- From a new cache, with the last operation in front; `get` changes nothing. -/
def run (cfg : Config V) (ops : List (Op V)) : Cache V := ops.foldr (fun op c => step cfg c op) ⟨[], []⟩

end Model

/-! What the loops leave. -/

section Loops
variable {V : Type} {c : Cache V} {now : ℤ} {maxSize : ℕ}

/-- The entries under some of the keys. -/
def Cache.keep (c : Cache V) (p : Bytes → Bool) : Cache V :=
  ⟨c.entries.filter fun entry => p entry.1, c.insertOrder.filter p⟩

theorem keep_all : c.keep (fun _ => true) = c := by
  simp [Cache.keep]

theorem keep_keep (p q : Bytes → Bool) : (c.keep p).keep q = c.keep fun key => q key && p key := by
  simp [Cache.keep]

theorem live_keep (p : Bytes → Bool) (key : Bytes) : (c.keep p).live now key = (p key && c.live now key) := by
  cases kept : p key <;> simp [Cache.live, Cache.keep, AssocList.lookup_filter, kept]

/-- The keys of the two containers are the same, once each. -/
structure Cache.Keyed (c : Cache V) : Prop where
  same : (c.entries.map Prod.fst).Perm c.insertOrder
  distinct : c.insertOrder.Nodup

theorem Cache.Keyed.keep (keyed : c.Keyed) (p : Bytes → Bool) : (c.keep p).Keyed := by
  refine ⟨?_, keyed.distinct.filter p⟩
  have := keyed.same.filter p
  rwa [List.filter_map] at this

theorem Cache.Keyed.mem (keyed : c.Keyed) : key ∈ c.insertOrder ↔ (c.entries.lookup key).isSome = true := by
  rw [← keyed.same.mem_iff, Option.isSome_iff_ne_none, ne_eq]
  simp

theorem reclaim_keep (keys : List Bytes) (c : Cache V) :
    ∃ p : Bytes → Bool, c.reclaim now keys = c.keep p ∧ ∀ key, c.live now key = true → p key = true := by
  induction keys generalizing c with
  | nil => exact ⟨fun _ => true, keep_all.symm, fun _ _ => rfl⟩
  | cons oldest rest ih =>
    rw [Cache.reclaim]
    split
    · obtain ⟨p, is, spares⟩ := ih (c.keep (· ≠ oldest))
      refine ⟨_, is.trans (keep_keep _ p), fun key live => ?_⟩
      have apart : key ≠ oldest := by
        rintro rfl
        unfold Cache.live at live
        cases held : c.entries.lookup key <;> simp_all
      simp [apart, spares key (by simp [live_keep, apart, live])]
    · exact ⟨fun _ => true, keep_all.symm, fun _ _ => rfl⟩

theorem sweep_keep (keys : List Bytes) (c : Cache V) :
    keys.foldl (fun c key => if c.live now key then c else c.delete key) c = c.keep fun key => key ∉ keys || c.live now key := by
  induction keys generalizing c with
  | nil => simp [keep_all]
  | cons key keys ih =>
    rw [List.foldl_cons, ih]
    cases live : c.live now key with
    | true =>
      refine congrArg c.keep (funext fun other => ?_)
      by_cases same : other = key <;> simp [same, live]
    | false =>
      refine (keep_keep (· ≠ key) _).trans (congrArg c.keep (funext fun other => ?_))
      rw [if_neg (by simp), show c.delete key = c.keep (· ≠ key) from rfl, live_keep]
      by_cases same : other = key <;> simp [same, live]

theorem delete_shorter (mem : key ∈ c.insertOrder) : (c.delete key).insertOrder.length < c.insertOrder.length :=
  List.length_filter_lt_length_iff_exists.mpr ⟨key, mem, by simp⟩

theorem evict_small (keys : List Bytes) (small : c.insertOrder.length < maxSize) : c.evict maxSize keys = c := by
  cases keys with
  | nil => rfl
  | cons oldest rest => rw [Cache.evict, if_neg (not_le.mpr small)]

/-- The oldest key of a full cache of live entries. -/
structure Oldest (c : Cache V) (maxSize : ℕ) (now : ℤ) (oldest : Bytes) : Prop where
  first : ∃ rest, c.insertOrder = oldest :: rest
  full : c.insertOrder.length = maxSize
  live : ∀ key ∈ c.insertOrder, c.live now key = true

/-- Room is made of entries that are not live; of a full cache of live ones the oldest is evicted. -/
theorem makeRoom_keep (keyed : c.Keyed) (few : c.insertOrder.length ≤ maxSize) (room : 0 < maxSize) :
    ∃ p : Bytes → Bool, c.makeRoom maxSize now = c.keep p ∧ (c.keep p).insertOrder.length < maxSize ∧
      ((∀ key, c.live now key = true → p key = true) ∨ ∃ oldest, Oldest c maxSize now oldest ∧ p = (· ≠ oldest)) := by
  unfold Cache.makeRoom
  dsimp only
  obtain ⟨p, reclaimed, spares⟩ := @reclaim_keep _ now c.insertOrder c
  rw [reclaimed]
  obtain ⟨q, swept, spares, only⟩ : ∃ q : Bytes → Bool,
      (if maxSize ≤ (c.keep p).insertOrder.length then (c.keep p).sweep now else c.keep p) = c.keep q ∧
      (∀ key, c.live now key = true → q key = true) ∧
      (maxSize ≤ (c.keep q).insertOrder.length → ∀ key ∈ c.insertOrder, q key = true → c.live now key = true) := by
    split
    · refine ⟨_, (sweep_keep ..).trans (keep_keep ..), fun key live => ?_, fun _ key mem kept => ?_⟩
      · simp [live_keep, live, spares key live]
      · simp only [live_keep, Bool.and_eq_true] at kept
        simpa [Cache.keep, mem, kept.2] using kept.1
    · exact ⟨p, rfl, spares, fun full => absurd full ‹_›⟩
  rw [swept]
  by_cases small : (c.keep q).insertOrder.length < maxSize
  · exact ⟨q, evict_small _ small, small, .inl spares⟩
  have full := not_lt.mp small
  have whole : ∀ key ∈ c.insertOrder, q key = true :=
    List.filter_eq_self.mp (List.filter_sublist.eq_of_length_le (few.trans full))
  have same : c.keep q = c := by
    rw [Cache.keep, List.filter_eq_self.mpr whole, List.filter_eq_self.mpr fun entry mem =>
      whole _ (keyed.same.mem_iff.mp (List.mem_map_of_mem mem))]
  rw [same] at full only ⊢
  obtain ⟨oldest, rest, order⟩ := List.exists_cons_of_length_pos (room.trans_le full)
  have gone := (delete_shorter (order ▸ List.mem_cons_self)).trans_le few
  refine ⟨_, ?_, gone, .inr ⟨oldest, ⟨⟨rest, order⟩, few.antisymm full, fun key mem => ?_⟩, rfl⟩⟩
  · rw [order, Cache.evict, if_pos full, evict_small _ gone]
    rfl
  · exact only full key mem (whole key mem)

end Loops

/-! Runs. -/

section Runs
variable {V : Type} {cfg : Config V} {c : Cache V} {ops : List (Op V)} {op : Op V}

/-- What an effective `Put` caches, one with a positive expiry and a positive remaining lifetime:
its payload, until the earlier of its own expiry and the longest time of an entry. -/
def Op.caches (cfg : Config V) : Op V → Option (Bytes × Entry V)
  | .put now key payload expUnix =>
    if 0 < expUnix ∧ now < expUnix * 10 ^ 9 then some (key, ⟨payload, min (now + cfg.maxEntryTTL) (expUnix * 10 ^ 9)⟩)
    else none
  | .invalidate _ => none

/-- The expiry is a time to `time.Unix`, as the last seconds of an `int64` are not. -/
def Op.Timely : Op V → Prop
  | .put _ _ _ expUnix => expUnix < 2 ^ 63 - unixToInternal
  | .invalidate _ => True

theorem unixTime_eq (positive : 0 < expUnix) (timely : expUnix < 2 ^ 63 - unixToInternal) :
    unixTime expUnix = expUnix * 10 ^ 9 := by
  unfold unixToInternal at timely
  rw [unixTime, unixToInternal, Int.bmod_eq_of_le (by omega) (by omega), add_sub_cancel_right]

def Op.puts (cfg : Config V) (key : Bytes) (op : Op V) : Bool := (op.caches cfg).any (key = ·.1)

theorem lookup_caches : (op.caches cfg).toList.lookup key = none ↔ op.puts cfg key = false := by
  cases cached : op.caches cfg <;> simp [Op.puts, cached]

/-- How long ago the last effective `Put` of the key was, in operations. -/
def age (cfg : Config V) (ops : List (Op V)) (key : Bytes) : ℕ := ops.findIdx (Op.puts cfg key)

structure Inv (cfg : Config V) (ops : List (Op V)) (c : Cache V) : Prop where
  keyed : c.Keyed
  few : c.insertOrder.length ≤ cfg.maxSize
  aged : c.insertOrder.Pairwise fun key other => age cfg ops other < age cfg ops key

/-- What an operation leaves: the keys it keeps, and the one it caches at the back. -/
structure Leaves (cfg : Config V) (c : Cache V) (op : Op V) (p : Bytes → Bool) : Prop where
  is : step cfg c op = ⟨(op.caches cfg).toList ++ (c.keep p).entries,
    (c.keep p).insertOrder ++ (op.caches cfg).toList.map Prod.fst⟩
  own : ∀ key ∈ c.insertOrder, p key = true → op.puts cfg key = false
  room : (c.keep p).insertOrder.length + (op.caches cfg).toList.length ≤ cfg.maxSize
  spares : ∀ now k payload expUnix, op = .put now k payload expUnix →
    (∀ key, op.puts cfg key = false → c.live now key = true → p key = true) ∨
      ∃ oldest, Oldest c cfg.maxSize now oldest ∧ p = (· ≠ oldest)

theorem Leaves.idle (few : c.insertOrder.length ≤ cfg.maxSize) (idle : op.caches cfg = none) (is : step cfg c op = c.keep p)
    (spares : ∀ key, op ≠ .invalidate key → p key = true) : Leaves cfg c op p := by
  refine ⟨by rw [is, idle]; simp, fun _ _ _ => by simp [Op.puts, idle], ?_, ?_⟩
  · rw [idle]
    exact (List.length_filter_le p _).trans few
  · rintro now k payload expUnix rfl
    exact .inl fun key _ _ => spares key nofun

theorem put_leaves (copies : ∀ v, cfg.clone v = some v) (keyed : c.Keyed) (few : c.insertOrder.length ≤ cfg.maxSize)
    (timely : expUnix < 2 ^ 63 - unixToInternal) (effective : 0 < expUnix ∧ now < expUnix * 10 ^ 9) :
    ∃ p, Leaves cfg c (.put now key payload expUnix) p := by
  have caches : (Op.put now key payload expUnix).caches cfg =
      some (key, ⟨payload, min (now + cfg.maxEntryTTL) (expUnix * 10 ^ 9)⟩) := if_pos effective
  have puts (base : Cache V) (is : (if (c.entries.lookup key).isSome then { c with insertOrder := c.insertOrder.filter (· ≠ key) }
      else c.makeRoom cfg.maxSize now) = base) : c.put cfg now key payload expUnix =
        ⟨(key, ⟨payload, min (now + cfg.maxEntryTTL) (expUnix * 10 ^ 9)⟩) :: base.entries.filter (·.1 ≠ key),
          base.insertOrder ++ [key]⟩ := by
    have deadline : now + (if expUnix * 10 ^ 9 - now < cfg.maxEntryTTL then expUnix * 10 ^ 9 - now else cfg.maxEntryTTL) =
        min (now + cfg.maxEntryTTL) (expUnix * 10 ^ 9) := by
      split <;> omega
    rw [Cache.put, if_neg (not_le.mpr effective.1), unixTime_eq effective.1 timely]
    rw [if_neg (by omega), copies, deadline, ← is]
  by_cases held : (c.entries.lookup key).isSome = true
  · refine ⟨(· ≠ key), ?_, fun other _ apart => ?_, ?_, ?_⟩
    · rw [step, puts _ (if_pos held), caches]
      rfl
    · simpa [Op.puts, caches] using apart
    · rw [caches]
      exact (delete_shorter (keyed.mem.mpr held)).trans_le few
    · refine fun _ _ _ _ _ => .inl fun other apart _ => ?_
      simpa [Op.puts, caches] using apart
  · have own : ∀ entry ∈ c.insertOrder, entry ≠ key := fun entry mem same => held (keyed.mem.mp (same ▸ mem))
    obtain ⟨p, is, small, spares⟩ := @makeRoom_keep _ c now _ keyed few cfg.room
    have others : (c.keep p).entries.filter (·.1 ≠ key) = (c.keep p).entries := by
      refine List.filter_eq_self.mpr fun entry mem => decide_eq_true (own _ (keyed.same.mem_iff.mp ?_))
      exact List.mem_map_of_mem (List.mem_of_mem_filter mem)
    refine ⟨p, ?_, fun other mem _ => by simp [Op.puts, caches, own other mem], by rw [caches]; exact small, ?_⟩
    · rw [step, puts _ ((if_neg held).trans is), others, caches]
      rfl
    · rintro _ _ _ _ ⟨⟩
      exact spares.imp_left fun spares other _ => spares other

theorem step_leaves (copies : ∀ v, cfg.clone v = some v) (inv : Inv cfg ops c) (op : Op V) (timely : op.Timely) :
    ∃ p, Leaves cfg c op p := by
  cases op with
  | put now key payload expUnix =>
    by_cases effective : 0 < expUnix ∧ now < expUnix * 10 ^ 9
    · exact put_leaves copies inv.keyed inv.few timely effective
    refine ⟨_, .idle inv.few (if_neg effective) (keep_all.symm ▸ ?_) fun _ _ => rfl⟩
    rw [step, Cache.put]
    split
    · rfl
    · rw [unixTime_eq (by omega) timely, if_pos (by omega)]
  | invalidate key =>
    cases held : (c.entries.lookup key).isSome with
    | true =>
      refine ⟨(· ≠ key), .idle inv.few rfl (by rw [step, Cache.invalidate, held]; rfl) fun other apart => decide_eq_true ?_⟩
      rintro rfl
      exact apart rfl
    | false => exact ⟨_, .idle inv.few rfl (by rw [step, Cache.invalidate, held, keep_all]; rfl) fun _ _ => rfl⟩

theorem age_cons (op : Op V) (ops : List (Op V)) (key : Bytes) :
    age cfg (op :: ops) key = if op.puts cfg key then 0 else age cfg ops key + 1 := by
  cases own : op.puts cfg key <;> simp [age, List.findIdx_cons, own]

theorem Inv.step (inv : Inv cfg ops c) (leaves : Leaves cfg c op p) : Inv cfg (op :: ops) (step cfg c op) := by
  have apart : ∀ key ∈ (c.keep p).insertOrder, op.puts cfg key = false := by
    intro key mem
    obtain ⟨listed, kept⟩ := List.mem_filter.mp mem
    exact leaves.own key listed kept
  have keyed := inv.keyed.keep p
  rw [leaves.is]
  refine ⟨⟨?_, List.nodup_append.mpr ⟨keyed.distinct, ?_, ?_⟩⟩, ?_, List.pairwise_append.mpr ⟨?_, ?_, ?_⟩⟩
  · rw [List.map_append]
    exact (keyed.same.append_left _).trans List.perm_append_comm
  · cases op.caches cfg <;> simp
  · intro key mem other last
    have := apart key mem
    cases cached : op.caches cfg <;> simp_all [Op.puts]
  · simpa using leaves.room
  · refine (inv.aged.filter p).imp_of_mem fun {first second} mem member' older => ?_
    simpa [age_cons, apart first mem, apart second member'] using older
  · cases op.caches cfg <;> simp
  · intro key mem other last
    have puts : op.puts cfg other = true := by
      cases cached : op.caches cfg <;> simp_all [Op.puts]
    simp [age_cons, apart key mem, puts]

theorem run_inv (copies : ∀ v, cfg.clone v = some v) (ops : List (Op V)) (timely : ∀ op ∈ ops, op.Timely) :
    Inv cfg ops (run cfg ops) := by
  induction ops with
  | nil => exact ⟨⟨.nil, .nil⟩, Nat.zero_le _, .nil⟩
  | cons op ops ih =>
    have inv := ih fun op mem => timely op (.tail _ mem)
    obtain ⟨p, leaves⟩ := step_leaves copies inv op (timely op (.head _))
    exact inv.step leaves

theorem Leaves.lookup (leaves : Leaves cfg c op p) (key : Bytes) : (step cfg c op).entries.lookup key =
    ((op.caches cfg).toList.lookup key).or (if p key then c.entries.lookup key else none) := by
  rw [leaves.is, List.lookup_append, ← AssocList.lookup_filter p]
  rfl

/-- A `Put` evicts what is present before it and absent after it. -/
def Evicts (cfg : Config V) (c : Cache V) (key : Bytes) : Op V → Prop
  | .put now k payload expUnix =>
    c.entries.lookup key ≠ none ∧ (c.put cfg now k payload expUnix).entries.lookup key = none
  | .invalidate _ => False

/-- The entry is of the last effective `Put` of the key, and since then the key was neither
invalidated nor evicted. -/
inductive Standing (cfg : Config V) (key : Bytes) (e : Entry V) : List (Op V) → Prop
  | put {op : Op V} {ops : List (Op V)} (effective : op.caches cfg = some (key, e)) : Standing cfg key e (op :: ops)
  | past {op : Op V} {ops : List (Op V)} (before : Standing cfg key e ops) (other : op.puts cfg key = false)
    (valid : op ≠ .invalidate key) (kept : ¬ Evicts cfg (run cfg ops) key op) : Standing cfg key e (op :: ops)

theorem invalidate_lookup (c : Cache V) (k key : Bytes) :
    (c.invalidate k).entries.lookup key = if key = k then none else c.entries.lookup key := by
  unfold Cache.invalidate Cache.delete
  cases held : c.entries.lookup k with
  | some e =>
    rw [if_pos Option.isSome_some, AssocList.lookup_filter (fun other => decide (other ≠ k))]
    by_cases same : key = k <;> simp [same]
  | none =>
    by_cases same : key = k
    · simp [same, held]
    · simp [same]

theorem lookup_standing (copies : ∀ v, cfg.clone v = some v) (ops : List (Op V)) (timely : ∀ op ∈ ops, op.Timely)
    (key : Bytes) (e : Entry V) : (run cfg ops).entries.lookup key = some e ↔ Standing cfg key e ops := by
  induction ops with
  | nil => exact ⟨nofun, nofun⟩
  | cons op ops ih =>
    change (step cfg (run cfg ops) op).entries.lookup key = some e ↔ _
    have earlier : ∀ op ∈ ops, op.Timely := fun op mem => timely op (.tail _ mem)
    obtain ⟨p, leaves⟩ := step_leaves copies (run_inv copies ops earlier) op (timely op (.head _))
    have after := leaves.lookup key
    by_cases own : op.puts cfg key = true
    · obtain ⟨⟨k, e'⟩, cached, rfl⟩ : ∃ new, op.caches cfg = some new ∧ key = new.1 := by
        simpa [Op.puts, Option.any_eq_true] using own
      rw [cached] at after
      simp only [Option.toList_some, List.lookup_cons, beq_self_eq_true] at after
      rw [after]
      constructor
      · rintro ⟨⟩
        exact .put cached
      · rintro (effective | ⟨-, other⟩) <;> simp_all
    have other : op.puts cfg key = false := by simpa using own
    have last : Standing cfg key e (op :: ops) ↔
        Standing cfg key e ops ∧ op ≠ .invalidate key ∧ ¬ Evicts cfg (run cfg ops) key op := by
      constructor
      · rintro (effective | ⟨before, -, valid, kept⟩)
        · simp_all [Op.puts]
        · exact ⟨before, valid, kept⟩
      · exact fun ⟨before, valid, kept⟩ => .past before other valid kept
    rw [last, ← ih earlier]
    cases op with
    | invalidate k =>
      rw [step, invalidate_lookup]
      by_cases same : key = k <;> simp [same, Evicts, eq_comm]
    | put now k payload expUnix =>
      rw [lookup_caches.mpr other, Option.none_or] at after
      have evicts : Evicts cfg (run cfg ops) key (.put now k payload expUnix) ↔
          (run cfg ops).entries.lookup key ≠ none ∧ p key = false := by
        change _ ∧ (step cfg (run cfg ops) (.put now k payload expUnix)).entries.lookup key = none ↔ _
        cases kept : p key <;> simp [after, kept]
      rw [after, evicts]
      cases p key <;> cases (run cfg ops).entries.lookup key <;> simp

/-- A payload is served while its last effective `Put` stands and its time has not come, the cache
stays within its size, and a live entry goes only from a full cache of live ones, the oldest first. -/
theorem payload_lifetimes (copies : ∀ v, cfg.clone v = some v) (ops : List (Op V)) (timely : ∀ op ∈ ops, op.Timely)
    (reached : run cfg ops = c) :
    (∀ key t v, c.get cfg key t = some v ↔ ∃ e, Standing cfg key e ops ∧ t < e.expiresAt ∧ e.payload = v) ∧
    (c.entries.map Prod.fst).Nodup ∧ c.entries.length ≤ cfg.maxSize ∧ c.entries.length = c.insertOrder.length ∧
    ∀ now k payload expUnix key, (Op.put now k payload expUnix).Timely → c.live now key = true →
      Evicts cfg c key (.put now k payload expUnix) →
      c.entries.length = cfg.maxSize ∧ (∀ other ∈ c.insertOrder, c.live now other = true) ∧
      ∀ other ∈ c.insertOrder, other ≠ key → age cfg ops other < age cfg ops key ∧
        (c.put cfg now k payload expUnix).entries.lookup other = c.entries.lookup other := by
  subst reached
  have inv := run_inv copies ops timely
  have size : (run cfg ops).entries.length = (run cfg ops).insertOrder.length := by simpa using inv.keyed.same.length_eq
  refine ⟨fun key t v => ?_, inv.keyed.same.nodup_iff.mpr inv.keyed.distinct, size ▸ inv.few, size, ?_⟩
  · simp [Cache.get, copies, Option.bind_eq_some_iff, lookup_standing copies ops timely]
  · rintro now k payload expUnix key intime live ⟨present, gone⟩
    obtain ⟨p, leaves⟩ := step_leaves copies inv (.put now k payload expUnix) intime
    obtain ⟨e, held⟩ := Option.ne_none_iff_exists'.mp present
    have after := leaves.lookup key
    rw [step, gone, eq_comm, Option.or_eq_none_iff, held] at after
    rcases leaves.spares _ _ _ _ rfl with spares | ⟨oldest, full, rfl⟩
    · simp [spares key (lookup_caches.mp after.1) live] at after
    obtain rfl : key = oldest := by simpa using after.2
    refine ⟨size.trans full.full, full.live, fun other member differs => ?_⟩
    have other_kept : decide (other ≠ key) = true := decide_eq_true differs
    refine ⟨?_, ?_⟩
    · obtain ⟨rest, order⟩ := full.first
      have aged := inv.aged
      rw [order] at aged member
      exact (List.pairwise_cons.mp aged).1 other ((List.mem_cons.mp member).resolve_left differs)
    · refine (leaves.lookup other).trans ?_
      rw [lookup_caches.mpr (leaves.own other member other_kept), Option.none_or, if_pos other_kept]

/-- An expiry before 1970 is not cached, though it lies ahead of an earlier clock. -/
theorem early_expiry_not_cached :
    (run (newConfig 0 0 (some some)) [.put (-10 * 10 ^ 9) [107] 7 (-2)]).get (newConfig 0 0 (some some)) [107] (-9 * 10 ^ 9) =
        none ∧
      (-9 * 10 ^ 9 : ℤ) < min (-10 * 10 ^ 9 + (newConfig 0 0 (some (@some ℕ))).maxEntryTTL) (-2 * 10 ^ 9) := by
  decide

theorem payload_served_until_expiry :
    (run (newConfig 0 0 (some some)) [.put 1 [109] 9 30, .invalidate [108], .put 0 [107] 7 20]).get
      (newConfig 0 0 (some some)) [107] (19 * 10 ^ 9) = some 7 := by
  have spec := (@payload_lifetimes ℕ (newConfig 0 0 (some some)) _ (fun _ => rfl)
    [.put 1 [109] 9 30, .invalidate [108], .put 0 [107] 7 20] (by simp [Op.Timely, unixToInternal]) rfl).1
  refine (spec [107] (19 * 10 ^ 9) 7).mpr ⟨⟨7, 20 * 10 ^ 9⟩, ?_, by decide, rfl⟩
  have put : Standing (newConfig 0 0 (some some)) [107] ⟨7, 20 * 10 ^ 9⟩ [.put 0 [107] 7 20] := .put rfl
  exact (put.past rfl (by simp) id).past rfl nofun fun gone => absurd gone.2 (by decide)

end Runs

end Eunox.PayloadCache
