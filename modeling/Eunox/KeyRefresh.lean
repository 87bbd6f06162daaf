import Mathlib.Data.List.MinMax
import Eunox.ByteString

/-! The refreshes of the JWKS cache. Forced and background refreshes run at the same time and their
fetches finish in any order. Each takes a ticket as its fetch starts, and what it fetched is
installed over an earlier ticket only. A step is one critical section of the cache's mutex; callers
that the singleflight group joins to a flight share what it returns. -/
namespace Eunox.KeyRefresh
open ByteString

/-- What the refreshes share; a key set is the list of its keys. -/
structure JWKSCache (Key : Type) where
  jwks : Option (List Key)
  fetchedAt : ℤ
  cacheTTL : ℤ
  fetchTicket : ℕ
  installedFetchGen : ℕ

structure RefreshResult (Key : Type) where
  keys : List Key
  changed : Bool

/-- A flight whose fetch succeeded, as it leaves its last critical section. -/
structure Flight (Key : Type) where
  myGen : ℕ
  jwks : List Key
  before : Option (List Key)
  installed : Bool
  resultKeys : List Key

structure World (Key : Type) where
  cache : JWKSCache Key
  /-- The tickets of the fetches under way. -/
  fetching : List ℕ
  flights : List (Flight Key)

inductive Step (Key : Type) where
  | start
  /-- The reply is the key set of a response that was let through, read and parsed. -/
  | finish (myGen : ℕ) (reply : Option (List Key)) (now : ℤ)

def maxJWKSKeys : ℕ := 100

section Model
variable {Key : Type} (thumbprint : Key → Option Bytes)

def JWKSCache.freshAt (c : JWKSCache Key) (now : ℤ) : Bool := c.jwks.isSome && now - c.fetchedAt < c.cacheTTL

/-- What a refresh returns without a fetch, from its first look at the cache or its second. -/
def JWKSCache.look (c : JWKSCache Key) (force : Bool) (now : ℤ) : Option (RefreshResult Key) :=
  if !force && c.freshAt now then c.jwks.map fun keys => ⟨keys, false⟩ else none

/-- An empty set and one of too many keys are failures too. -/
def fetchKeys (reply : Option (List Key)) : Option (List Key) :=
  reply.filter fun keys => keys.length ≠ 0 && keys.length ≤ maxJWKSKeys

/-- The second loop of `sameKeyMultiset`, with the thumbprints that are still counted. -/
def takePrints (counts : List Bytes) : List Key → Bool
  | [] => true
  | key :: keys =>
    match thumbprint key with
    | none => false
    | some tp => if tp ∈ counts then takePrints (counts.erase tp) keys else false

def sameKeyMultiset (before after : List Key) : Bool :=
  if before.length ≠ after.length then false
  else match before.mapM thumbprint with
    | none => false
    | some counts => takePrints thumbprint counts after

def jwksKeysUnchanged : Option (List Key) → Option (List Key) → Bool
  | some before, some after => sameKeyMultiset thumbprint before after
  | before, after => before.isNone && after.isNone

def Flight.result (f : Flight Key) : RefreshResult Key :=
  ⟨f.resultKeys, !jwksKeysUnchanged thumbprint f.before (some f.resultKeys)⟩

/-- The last critical section. -/
def JWKSCache.commit (c : JWKSCache Key) (myGen : ℕ) (jwks : List Key) (now : ℤ) : JWKSCache Key × Flight Key :=
  if c.installedFetchGen < myGen then
    ({ c with jwks := some jwks, fetchedAt := now, installedFetchGen := myGen }, ⟨myGen, jwks, c.jwks, true, jwks⟩)
  else (c, ⟨myGen, jwks, c.jwks, false, c.jwks.getD jwks⟩)

def World.step (w : World Key) : Step Key → World Key
  | .start => { w with
      cache := { w.cache with fetchTicket := w.cache.fetchTicket + 1 }
      fetching := (w.cache.fetchTicket + 1) :: w.fetching }
  | .finish myGen reply now =>
    if myGen ∈ w.fetching then
      match fetchKeys reply with
      | none => { w with fetching := w.fetching.erase myGen }
      | some jwks =>
        ⟨(w.cache.commit myGen jwks now).1, w.fetching.erase myGen, (w.cache.commit myGen jwks now).2 :: w.flights⟩
    else w

/-- From a new cache, which has no key set. -/
def World.run (cacheTTL : ℤ) (steps : List (Step Key)) : World Key :=
  steps.foldl World.step ⟨⟨none, 0, cacheTTL, 0, 0⟩, [], []⟩

/-- A caller of `refresh`: it finds the cache fresh, or shares what the flight with a ticket returns. -/
inductive Caller where
  | looks (force : Bool) (now : ℤ)
  | joins (myGen : ℕ)

def World.receives (w : World Key) : Caller → Option (RefreshResult Key)
  | .looks force now => w.cache.look force now
  | .joins myGen => (w.flights.find? (·.myGen = myGen)).map (Flight.result thumbprint)

end Model

/-! The comparison of two key sets. -/

section Prints
variable {Key : Type} {thumbprint : Key → Option Bytes} {print : Key → Bytes} (prints : ∀ key, thumbprint key = some (print key))
include prints

theorem takePrints_iff (counts : List Bytes) (keys : List Key) (long : keys.length = counts.length) :
    takePrints thumbprint counts keys = true ↔ (keys.map print).Perm counts := by
  induction keys generalizing counts with
  | nil =>
    obtain rfl := List.eq_nil_of_length_eq_zero long.symm
    simp [takePrints]
  | cons key keys ih =>
    rw [List.map_cons, List.cons_perm_iff_perm_erase, takePrints, prints]
    by_cases held : print key ∈ counts
    · have shorter : keys.length = (counts.erase (print key)).length := by
        rw [List.length_erase_of_mem held, ← long]
        rfl
      simp [ih _ shorter]
    · simp [held]

theorem sameKeyMultiset_iff (before after : List Key) :
    sameKeyMultiset thumbprint before after = true ↔ (before.map print).Perm (after.map print) := by
  have counted : before.mapM thumbprint = some (before.map print) := by
    induction before with
    | nil => rfl
    | cons key keys ih => simp [prints, ih]
  unfold sameKeyMultiset
  split
  · rename_i differ
    exact iff_of_false Bool.false_ne_true fun perm => differ (by simpa using perm.length_eq)
  · rename_i long
    rw [counted]
    exact (takePrints_iff prints _ _ (by simpa using (not_not.mp long).symm)).trans List.perm_comm

end Prints

/-! What holds after any steps. -/

section Runs
variable {Key : Type} {w : World Key}

/-- The tickets handed out to fetches that did not fail. -/
def World.tickets (w : World Key) : List ℕ := w.fetching ++ w.flights.map Flight.myGen

structure Inv (w : World Key) : Prop where
  distinct : w.tickets.Nodup
  handed : ∀ ticket ∈ w.tickets, 0 < ticket ∧ ticket ≤ w.cache.fetchTicket
  behind : ∀ f ∈ w.flights, f.myGen ≤ w.cache.installedFetchGen
  newest : w.cache.installedFetchGen = 0 ∧ w.cache.jwks = none ∨
    ∃ f ∈ w.flights, f.installed = true ∧ f.myGen = w.cache.installedFetchGen ∧ w.cache.jwks = some f.jwks
  given : ∀ f ∈ w.flights, f.resultKeys = f.jwks ∨
    ∃ g ∈ w.flights, g.installed = true ∧ f.myGen < g.myGen ∧ f.resultKeys = g.jwks

@[simp] theorem commit_flight (c : JWKSCache Key) (myGen : ℕ) (jwks : List Key) (now : ℤ) :
    (c.commit myGen jwks now).2.myGen = myGen ∧ (c.commit myGen jwks now).2.jwks = jwks := by
  unfold JWKSCache.commit
  split <;> exact ⟨rfl, rfl⟩

/-- A ticket that moves from the fetches to the flights is in both lists' place. -/
theorem tickets_commit (mem : myGen ∈ w.fetching) (now : ℤ) (jwks : List Key) :
    (w.fetching.erase myGen ++ ((w.cache.commit myGen jwks now).2 :: w.flights).map Flight.myGen).Perm w.tickets := by
  rw [List.map_cons, (commit_flight _ _ _ _).1]
  exact List.perm_middle.trans ((List.perm_cons_erase mem).symm.append_right _)

/-- A fetch that comes too late was overtaken by a flight that installed its set. -/
theorem Inv.overtaken (inv : Inv w) (mem : myGen ∈ w.fetching) (late : ¬ w.cache.installedFetchGen < myGen) :
    ∃ g ∈ w.flights, g.installed = true ∧ g.myGen = w.cache.installedFetchGen ∧ w.cache.jwks = some g.jwks ∧
      myGen < g.myGen := by
  rcases inv.newest with ⟨zero, -⟩ | ⟨g, old, installed, newest, is⟩
  · exact absurd (inv.handed myGen (List.mem_append_left _ mem)).1 (zero ▸ late)
  have apart : myGen ≠ g.myGen :=
    fun same => List.disjoint_of_nodup_append inv.distinct mem (same ▸ List.mem_map_of_mem old)
  exact ⟨g, old, installed, newest, is, lt_of_le_of_ne (newest ▸ not_lt.mp late) apart⟩

theorem Inv.commit (inv : Inv w) (mem : myGen ∈ w.fetching) (now : ℤ) (jwks : List Key) :
    Inv ⟨(w.cache.commit myGen jwks now).1, w.fetching.erase myGen, (w.cache.commit myGen jwks now).2 :: w.flights⟩ := by
  have perm := tickets_commit mem now jwks
  have distinct := perm.nodup_iff.mpr inv.distinct
  have handed := fun ticket held => inv.handed ticket (perm.mem_iff.mp held)
  have given (new f : Flight Key) (old : f ∈ w.flights) : f.resultKeys = f.jwks ∨
      ∃ g ∈ new :: w.flights, g.installed = true ∧ f.myGen < g.myGen ∧ f.resultKeys = g.jwks :=
    (inv.given f old).imp_right fun ⟨g, old', rest⟩ => ⟨g, .tail _ old', rest⟩
  by_cases newer : w.cache.installedFetchGen < myGen
  · simp only [JWKSCache.commit, if_pos newer] at distinct handed ⊢
    exact ⟨distinct, handed, List.forall_mem_cons.mpr ⟨le_rfl, fun f old => (inv.behind f old).trans newer.le⟩,
      .inr ⟨_, .head _, rfl, rfl, rfl⟩, List.forall_mem_cons.mpr ⟨.inl rfl, given _⟩⟩
  · obtain ⟨g, old, installed, newest, is, passed⟩ := inv.overtaken mem newer
    simp only [JWKSCache.commit, if_neg newer] at distinct handed ⊢
    exact ⟨distinct, handed, List.forall_mem_cons.mpr ⟨not_lt.mp newer, inv.behind⟩,
      .inr ⟨g, .tail _ old, installed, newest, is⟩,
      List.forall_mem_cons.mpr ⟨.inr ⟨g, .tail _ old, installed, passed, by simp [is]⟩, given _⟩⟩

theorem Inv.step (inv : Inv w) (s : Step Key) : Inv (w.step s) := by
  cases s with
  | start =>
    have newer : ∀ ticket ∈ w.tickets, ticket ≠ w.cache.fetchTicket + 1 := by
      rintro _ held rfl
      exact absurd (inv.handed _ held).2 (Nat.not_succ_le_self _)
    refine ⟨List.nodup_cons.mpr ⟨fun held => newer _ held rfl, inv.distinct⟩, List.forall_mem_cons.mpr ⟨⟨Nat.succ_pos _, le_rfl⟩,
      fun ticket held => (inv.handed ticket held).imp_right Nat.le_succ_of_le⟩, inv.behind, inv.newest, inv.given⟩
  | finish myGen reply now =>
    unfold World.step
    dsimp only
    split
    · rename_i mem
      split
      · have fewer : (w.fetching.erase myGen ++ w.flights.map Flight.myGen).Sublist w.tickets :=
          List.erase_sublist.append_right _
        exact ⟨inv.distinct.sublist fewer, fun ticket held => inv.handed ticket (fewer.subset held), inv.behind, inv.newest,
          inv.given⟩
      · exact inv.commit mem now _
    · exact inv

variable (cacheTTL : ℤ)

theorem run_concat (steps : List (Step Key)) (s : Step Key) :
    World.run cacheTTL (steps ++ [s]) = (World.run cacheTTL steps).step s := List.foldl_concat ..

theorem run_inv (steps : List (Step Key)) : Inv (World.run cacheTTL steps) := by
  induction steps using List.reverseRecOn with
  | nil => exact ⟨.nil, nofun, nofun, .inl ⟨rfl, rfl⟩, nofun⟩
  | append_singleton steps s ih =>
    rw [run_concat]
    exact ih.step s

/-- The installed set is that of the newest fetch that succeeded. -/
theorem Inv.installed (inv : Inv w) : w.cache.jwks = (w.flights.argmax Flight.myGen).map Flight.jwks := by
  rcases inv.newest with ⟨zero, unset⟩ | ⟨f, member, -, newest, is⟩
  · cases best : w.flights.argmax Flight.myGen with
    | none => exact unset
    | some f =>
      have member := List.argmax_mem best
      have positive := (inv.handed f.myGen (List.mem_append_right _ (List.mem_map_of_mem member))).1
      exact absurd positive (zero ▸ inv.behind f member).not_gt
  · cases best : w.flights.argmax Flight.myGen with
    | none => simp [List.argmax_eq_none.mp best] at member
    | some g =>
      have member' := List.argmax_mem best
      have same : f.myGen = g.myGen := le_antisymm (List.le_of_mem_argmax member best) (newest ▸ inv.behind g member')
      rw [is, List.inj_on_of_nodup_map inv.distinct.of_append_right member member' same]
      rfl

/-- The flight finished with this reply right after these steps, the first of the run. -/
def Finishes (steps front : List (Step Key)) (reply : Option (List Key)) (now : ℤ) (f : Flight Key) : Prop :=
  front ++ [.finish f.myGen reply now] <+: steps ∧ f.myGen ∈ (World.run cacheTTL front).fetching ∧
    fetchKeys reply = some f.jwks

theorem flight_finished (steps : List (Step Key)) : ∀ f ∈ (World.run cacheTTL steps).flights,
    ∃ front reply now, Finishes cacheTTL steps front reply now f ∧
      f = ((World.run cacheTTL front).cache.commit f.myGen f.jwks now).2 := by
  induction steps using List.reverseRecOn with
  | nil => exact nofun
  | append_singleton steps s ih =>
    intro f member
    rw [run_concat] at member
    by_cases old : f ∈ (World.run cacheTTL steps).flights
    · obtain ⟨front, reply, now, ⟨first, rest⟩, is⟩ := ih f old
      exact ⟨front, reply, now, ⟨first.trans (List.prefix_append _ _), rest⟩, is⟩
    cases s with
    | start => exact absurd member old
    | finish myGen reply now =>
      simp only [World.step] at member
      split at member
      · next mem =>
        split at member
        · exact absurd member old
        · next jwks fetched =>
          obtain rfl := (List.mem_cons.mp member).resolve_right old
          exact ⟨steps, reply, now, by simp [Finishes, mem, fetched]⟩
      · exact absurd member old

/-- A flight says that the keys changed where it installed others than the cache held as it finished. -/
theorem Inv.changed {thumbprint : Key → Option Bytes} {print : Key → Bytes}
    (prints : ∀ key, thumbprint key = some (print key)) (inv : Inv w) (mem : myGen ∈ w.fetching)
    (fetched : fetchKeys reply = some jwks) (now : ℤ) :
    ((w.cache.commit myGen jwks now).2.result thumbprint).changed = true ↔
      (w.step (.finish myGen reply now)).cache.installedFetchGen = myGen ∧
        ∀ before, w.cache.jwks = some before → ¬ (before.map print).Perm (jwks.map print) := by
  have stepped : (w.step (.finish myGen reply now)).cache = (w.cache.commit myGen jwks now).1 := by
    simp [World.step, mem, fetched]
  rw [stepped]
  unfold JWKSCache.commit Flight.result
  by_cases newer : w.cache.installedFetchGen < myGen
  · rw [if_pos newer]
    cases held : w.cache.jwks with
    | none => simp [jwksKeysUnchanged]
    | some before => simp [jwksKeysUnchanged, ← sameKeyMultiset_iff prints]
  · obtain ⟨g, -, -, newest, is, passed⟩ := inv.overtaken mem newer
    have same := (sameKeyMultiset_iff prints g.jwks g.jwks).mpr (.refl _)
    have late : w.cache.installedFetchGen ≠ myGen := newest ▸ passed.ne'
    simp [newer, late, is, jwksKeysUnchanged, same]

/-- From the caller's own flight, or installed by a fetch that started later. -/
def OwnOrLater (w : World Key) (caller : Caller) (keys : List Key) : Prop :=
  ∃ f ∈ w.flights, caller = .joins f.myGen ∧
    (keys = f.jwks ∨ ∃ g ∈ w.flights, g.installed = true ∧ f.myGen < g.myGen ∧ keys = g.jwks)

/-- A late fetch never undoes a newer one: the newest fetch is installed, a caller is given its own
flight's set, a newer one or what it found fresh, a flight says that the keys changed exactly where
it installed others than the cache held as it finished, and a failure changes nothing. -/
theorem late_fetch_undoes_nothing {thumbprint : Key → Option Bytes} {print : Key → Bytes}
    (prints : ∀ key, thumbprint key = some (print key)) (cacheTTL : ℤ) (steps : List (Step Key))
    (reached : World.run cacheTTL steps = w) :
    w.cache.jwks = (w.flights.argmax Flight.myGen).map Flight.jwks ∧
    (∀ caller r, w.receives thumbprint caller = some r → OwnOrLater w caller r.keys ∨
      r.changed = false ∧ ∃ now, caller = .looks false now ∧ w.cache.jwks = some r.keys ∧ now - w.cache.fetchedAt < w.cache.cacheTTL) ∧
    (∀ f ∈ w.flights, ∃ front reply now, Finishes cacheTTL steps front reply now f ∧
      ((f.result thumbprint).changed = true ↔
        ((World.run cacheTTL front).step (.finish f.myGen reply now)).cache.installedFetchGen = f.myGen ∧
          ∀ before, (World.run cacheTTL front).cache.jwks = some before →
            ¬ (before.map print).Perm (f.jwks.map print))) ∧
    ∀ myGen reply now, fetchKeys reply = none → (w.step (.finish myGen reply now)).cache = w.cache := by
  have inv : Inv w := reached ▸ run_inv cacheTTL steps
  refine ⟨inv.installed, ?_, fun f member => ?_, fun myGen reply now failed => ?_⟩
  · rintro (⟨force, now⟩ | myGen) r got
    · right
      simp only [World.receives, JWKSCache.look, JWKSCache.freshAt, Bool.and_eq_true, decide_eq_true_eq] at got
      split at got
      · rename_i fresh
        obtain ⟨keys, is, rfl⟩ := Option.map_eq_some_iff.mp got
        obtain rfl : force = false := by simpa using fresh.1
        exact ⟨rfl, now, rfl, is, fresh.2.2⟩
      · cases got
    · left
      obtain ⟨f, found, rfl⟩ := Option.map_eq_some_iff.mp got
      have member := List.mem_of_find?_eq_some found
      obtain rfl : f.myGen = myGen := by simpa using List.find?_some found
      exact ⟨f, member, rfl, inv.given f member⟩
  · obtain ⟨front, reply, now, finishes, is⟩ := flight_finished cacheTTL steps f (reached ▸ member)
    have changed := (run_inv cacheTTL front).changed prints finishes.2.1 finishes.2.2 now
    rw [← is] at changed
    exact ⟨front, reply, now, finishes, changed⟩
  · unfold World.step
    dsimp only
    split
    · rw [failed]
    · rfl

/-- A refresh that finds the cache fresh is given what an earlier fetch installed. -/
theorem fresh_cache_is_older : ∃ steps : List (Step ℕ), ∃ caller r,
    (World.run 300 steps).receives (fun _ => some []) caller = some r ∧ ¬ OwnOrLater (World.run 300 steps) caller r.keys := by
  refine ⟨[.start, .finish 1 (some [7]) 0], .looks false 10, ⟨[7], false⟩, rfl, ?_⟩
  rintro ⟨f, -, own, -⟩
  cases own

/-- Two fetches, of which the one that started later finishes first. -/
theorem crossed_fetches_keep_newer :
    (World.run 300 [.start, .start, .finish 2 (some [8]) 5, .finish 1 (some [7]) 6]).cache.jwks = some [8] :=
  (@late_fetch_undoes_nothing ℕ _ (fun key => some [key.toUInt8]) _ (fun _ => rfl) 300 _ rfl).1.trans rfl

end Runs

end Eunox.KeyRefresh
